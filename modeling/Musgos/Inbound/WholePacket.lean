import Musgos.Inbound.TcpFraming
import Musgos.Outbound.Blowfish
import Musgos.Smus.Parsing

/-!
# Whole-packet encryption

In #All mode the sender encrypts the packets it writes, `nextFrame` cuts the
stream at sizes it reads as they come off the wire, and the parser decrypts a
frame that lacks the magic bytes. The framing never sees a packet in clear: an
encrypted packet gets through exactly when the keystream leaves its header
alone, and since the parser then takes the packet to be in clear, exactly when
the keystream changes nothing at all.
-/
namespace Musgos.Inbound

open Foundation Smus Domain Outbound

/-- The packet of a message, from which the parser without a cipher reads it back. -/
structure RoundTrips (msg : MUSMessage) (packet : List UInt8) : Prop where
  getBytes : msg.getBytes = some packet
  size : packet.length < 2 ^ 31
  parsed : ∃ parsed, (parseMUSMessageWithDecryption none packet).run = some (.ok parsed) ∧
    parsed.SameAs msg

/-- The frame is parsed as the message. -/
def Decodes (c : Cipher) (frame : List UInt8) (msg : MUSMessage) : Prop :=
  ∃ parsed, (parseMUSMessageWithDecryption (some c) frame).run = some (.ok parsed) ∧
    parsed.SameAs msg

/-- The frames of the stream are parsed as the messages, one for one and in order. -/
def Delivers (c : Cipher) (maxSize : ℕ) (reads : List (List UInt8)) (msgs : List MUSMessage) :
    Prop :=
  List.Forall₂ (Decodes c) (readLoop silentServer maxSize () reads).frames msgs

/-- Any messages, each packet encrypted by itself, arrive over any stream of the encrypted
packets whose size limit admits them. -/
def AllModeAgrees (c : Cipher) : Prop :=
  ∀ (msgs : List MUSMessage) (packets : List (List UInt8)) (maxSize : ℕ)
    (reads : List (List UInt8)),
    List.Forall₂ RoundTrips msgs packets → (∀ packet ∈ packets, packet.length ≤ maxSize) →
    reads.flatten = (packets.map c.encrypt).flatten → Delivers c maxSize reads msgs

section Clear

variable {msg : MUSMessage} {packet : List UInt8} {c : Cipher}

theorem exists_payload (h : msg.getBytes = some packet) :
    ∃ payload, packet = musHeader ++ int32Bytes payload.length ++ payload := by
  unfold MUSMessage.getBytes at h
  split at h <;>
  · obtain ⟨content, -, hpacket⟩ := Option.bind_eq_some_iff.mp h
    exact ⟨_, (Option.some.inj hpacket).symm⟩

theorem RoundTrips.exists_frame (h : RoundTrips msg packet) :
    ∃ payload, packet = frameBytes payload ∧ payload.length < 2 ^ 32 := by
  obtain ⟨payload, rfl⟩ := exists_payload h.getBytes
  have hsize := h.size
  simp only [List.length_append] at hsize
  refine ⟨payload, ?_, by omega⟩
  rw [int32Bytes_natCast (by omega), frameBytes]

/-- A cipher that changes nothing is no cipher to the parser. -/
theorem parse_of_identity (hdecrypt : ∀ data, c.decrypt data = data)
    (hheader : packet.take 2 = musHeader) :
    parseMUSMessageWithDecryption (some c) packet = parseMUSMessageWithDecryption none packet := by
  have hclear : clearPacket (some c) packet = clearPacket none packet := by
    simp [clearPacket, hheader]
  have hread : readContent (some c) = readContent none := by
    funext subject remaining
    simp [readContent, hdecrypt]
  simp only [parseMUSMessageWithDecryption, hclear, hread]

theorem RoundTrips.decodes (h : RoundTrips msg packet) (hdecrypt : ∀ data, c.decrypt data = data) :
    Decodes c packet msg := by
  obtain ⟨payload, hframe, -⟩ := h.exists_frame
  have hheader : packet.take 2 = musHeader := by rw [hframe]; rfl
  unfold Decodes
  rw [parse_of_identity hdecrypt hheader]
  exact h.parsed

theorem agrees_of_identity (hencrypt : ∀ data, c.encrypt data = data)
    (hdecrypt : ∀ data, c.decrypt data = data) : AllModeAgrees c := by
  intro msgs packets maxSize reads hmsgs hfit hreads
  have hpackets : ∃ payloads : List (List UInt8), packets = payloads.map frameBytes ∧
      ∀ p ∈ payloads, p.length < 2 ^ 32 := by
    clear hreads hfit
    induction hmsgs with
    | nil => exact ⟨[], rfl, by simp⟩
    | cons hmsg _ ih =>
      obtain ⟨payload, rfl, hpayload⟩ := hmsg.exists_frame
      obtain ⟨payloads, rfl, hpayloads⟩ := ih
      exact ⟨payload :: payloads, rfl, List.forall_mem_cons.mpr ⟨hpayload, hpayloads⟩⟩
  obtain ⟨payloads, rfl, hpayloads⟩ := hpackets
  have hid : c.encrypt = id := funext hencrypt
  rw [hid, List.map_id] at hreads
  obtain ⟨hframes, -, -⟩ := readLoop_frames silentServer maxSize (fun _ _ => rfl) ()
    (fun p hp => ⟨hpayloads p hp, hfit _ (List.mem_map_of_mem hp)⟩)
    (silentServer_returns _) hreads
  unfold Delivers
  rw [hframes]
  exact (hmsgs.imp fun _ _ hmsg => hmsg.decodes hdecrypt).flip

end Clear

section Masked

/-- A message without content, sender and recipients. -/
def blankMessage (subject : GoString) : MUSMessage where
  contentSize := 0
  errCode := 0
  timeStamp := 0
  subject := .ofValue subject
  senderID := .ofValue []
  recptID := ⟨0, []⟩
  rawContents := []
  decryptedContents := []
  msgContent := .nil

theorem roundTrips_of_getBytes {subject : GoString} {packet : List UInt8}
    (hpacket : (blankMessage subject).getBytes = some packet) (hsize : packet.length < 2 ^ 31) :
    RoundTrips (blankMessage subject) packet := by
  have hlengths : (blankMessage subject).LengthsAgree := ⟨rfl, rfl, by simp [blankMessage]⟩
  have hparse := parse_encoded hlengths (.inl ⟨rfl, rfl⟩) hpacket hsize
  exact ⟨hpacket, hsize, _, hparse, ⟨rfl, rfl, rfl, rfl, rfl, rfl⟩⟩

theorem roundTrips_blank :
    RoundTrips (blankMessage []) (0x72 :: 0 :: 0 :: 0 :: 0 :: 20 :: List.replicate 20 0) :=
  roundTrips_of_getBytes (by decide) (by decide)

/-- The payload has 32 bytes, a number that shares no bit with 20. -/
theorem roundTrips_subject :
    RoundTrips (blankMessage (List.replicate 12 0)) (0x72 :: 0 :: 0 :: 0 :: 0 :: 32 ::
      (List.replicate 11 0 ++ 12 :: List.replicate 20 0)) :=
  roundTrips_of_getBytes (by decide) (by decide)

variable {c : Cipher} {k : ℕ → UInt8}

/-- The cipher masks each byte with the byte of a keystream at its position. -/
structure Masks (c : Cipher) (k : ℕ → UInt8) : Prop where
  encrypt : ∀ data, c.encrypt data = data.mapIdx fun i x => x ^^^ k i
  decrypt : ∀ data, c.decrypt data = data.mapIdx fun i x => x ^^^ k i

theorem Masks.keepsLength (h : Masks c k) : KeepsLength (some c) := by
  rintro c' ⟨⟩ data
  rw [h.decrypt, List.length_mapIdx]

theorem readLoop_of_fail {maxSize : ℕ} {stream : List UInt8} {error : FrameError}
    (h : nextFrame maxSize stream = .fail error) :
    readLoop silentServer maxSize () [stream] = ⟨(), stream, [], some (.violation error)⟩ := by
  simp [readLoop, Reader.run, Reader.feed, Reader.drain, musSplitter, h]

theorem not_delivers_of_fail {maxSize : ℕ} {stream : List UInt8} {error : FrameError}
    (h : nextFrame maxSize stream = .fail error) (msg : MUSMessage) (msgs : List MUSMessage) :
    ¬ Delivers c maxSize [stream] (msg :: msgs) := by
  unfold Delivers
  rw [readLoop_of_fail h]
  intro hnil
  cases hnil

theorem AllModeAgrees.delivers (h : AllModeAgrees c) {msg : MUSMessage} {packet : List UInt8}
    (hmsg : RoundTrips msg packet) : Delivers c packet.length [c.encrypt packet] [msg] :=
  h [msg] [packet] packet.length _ (.cons hmsg .nil) (by simp) (by simp)

/-- A stream that delivers anything starts with a header that passes the framing. -/
theorem header_of_delivers {maxSize : ℕ} (hmax : 0 < maxSize) {b₀ b₁ s₀ s₁ s₂ s₃ : UInt8}
    {rest : List UInt8} {msg : MUSMessage} {msgs : List MUSMessage}
    (h : Delivers c maxSize [b₀ :: b₁ :: s₀ :: s₁ :: s₂ :: s₃ :: rest] (msg :: msgs)) :
    [b₀, b₁] = musHeader ∧ 6 + beNat [s₀, s₁, s₂, s₃] ≤ maxSize := by
  constructor
  · by_contra hmagic
    have hfail := @nextFrame_header maxSize b₀ b₁ s₀ s₁ s₂ s₃ rest
    rw [if_pos hmagic] at hfail
    exact not_delivers_of_fail hfail msg msgs h
  · by_contra hlarge
    have hfail := @nextFrame_header maxSize b₀ b₁ s₀ s₁ s₂ s₃ rest
    by_cases hmagic : [b₀, b₁] = musHeader
    · rw [if_neg (not_not.mpr hmagic), if_pos ⟨hmax, by omega⟩] at hfail
      exact not_delivers_of_fail hfail msg msgs h
    · rw [if_pos hmagic] at hfail
      exact not_delivers_of_fail hfail msg msgs h

theorem Masks.encrypt_packet (h : Masks c k) (b₀ b₁ s₀ s₁ s₂ s₃ : UInt8) (rest : List UInt8) :
    c.encrypt (b₀ :: b₁ :: s₀ :: s₁ :: s₂ :: s₃ :: rest) =
      (b₀ ^^^ k 0) :: (b₁ ^^^ k 1) :: (s₀ ^^^ k 2) :: (s₁ ^^^ k 3) :: (s₂ ^^^ k 4) ::
        (s₃ ^^^ k 5) :: rest.mapIdx fun i x => x ^^^ k (i + 6) := by
  rw [h.encrypt]
  simp only [List.mapIdx_cons, Nat.zero_add, Nat.add_assoc, Nat.reduceAdd]

/-- What the framing asks of the keystream for one packet with a short payload. -/
theorem AllModeAgrees.header (h : AllModeAgrees c) (hmask : Masks c k) {msg : MUSMessage}
    {size : UInt8} {rest : List UInt8}
    (hmsg : RoundTrips msg (0x72 :: 0 :: 0 :: 0 :: 0 :: size :: rest)) :
    [0x72 ^^^ k 0, 0 ^^^ k 1] = musHeader ∧
      beNat [0 ^^^ k 2, 0 ^^^ k 3, 0 ^^^ k 4, size ^^^ k 5] ≤ rest.length := by
  have hdelivers := h.delivers hmsg
  rw [hmask.encrypt_packet] at hdelivers
  obtain ⟨hmagic, hsize⟩ := header_of_delivers (by simp) hdelivers
  simp only [List.length_cons] at hsize
  exact ⟨hmagic, by omega⟩

theorem size_mask_eq_zero {mask : UInt8} (h₂₀ : (20 ^^^ mask).toNat ≤ 20)
    (h₃₂ : (32 ^^^ mask).toNat ≤ 32) : mask = 0 := by
  have hall : ∀ m : Fin 256, (20 ^^^ UInt8.ofFin m).toNat ≤ 20 →
      (32 ^^^ UInt8.ofFin m).toNat ≤ 32 → UInt8.ofFin m = 0 := by
    decide +kernel
  exact hall mask.toFin h₂₀ h₃₂

theorem beNat_four (a b c d : UInt8) :
    beNat [a, b, c, d] = a.toNat * 2 ^ 24 + b.toNat * 2 ^ 16 + c.toNat * 2 ^ 8 + d.toNat := by
  simp only [beNat_cons, List.length_cons, List.length_nil]
  simp [beNat]
  ring

theorem AllModeAgrees.envelope (h : AllModeAgrees c) (hmask : Masks c k) :
    k 0 = 0 ∧ k 1 = 0 ∧ k 2 = 0 ∧ k 3 = 0 ∧ k 4 = 0 ∧ k 5 = 0 := by
  obtain ⟨hmagic, hblank⟩ := h.header hmask roundTrips_blank
  obtain ⟨-, hsubject⟩ := h.header hmask roundTrips_subject
  simp only [UInt8.zero_xor, beNat_four, List.length_replicate, List.length_append,
    List.length_cons] at hblank hsubject
  simp only [musHeader, List.cons.injEq, UInt8.zero_xor, and_true] at hmagic
  have hzero : ∀ x : UInt8, x.toNat = 0 → x = 0 := fun x hx => UInt8.toNat.inj hx
  have hfirst : k 0 = 0 := by
    rw [← UInt8.xor_right_inj 0x72, hmagic.1]
    rfl
  refine ⟨hfirst, hmagic.2, hzero _ (by omega), hzero _ (by omega),
    hzero _ (by omega), size_mask_eq_zero (by omega) (by omega)⟩

theorem decodes_of_delivers {maxSize : ℕ} {payload : List UInt8} {msg : MUSMessage}
    (hlength : payload.length < 2 ^ 32) (hmax : (frameBytes payload).length ≤ maxSize)
    (h : Delivers c maxSize [frameBytes payload] [msg]) : Decodes c (frameBytes payload) msg := by
  have hfits : ∀ p ∈ [payload], p.length < 2 ^ 32 ∧ (frameBytes p).length ≤ maxSize := by
    simpa using ⟨hlength, hmax⟩
  have hreads : [frameBytes payload].flatten = ([payload].map frameBytes).flatten := rfl
  obtain ⟨hframes, -, -⟩ :=
    readLoop_frames silentServer maxSize (fun _ _ => rfl) () hfits (silentServer_returns _) hreads
  unfold Delivers at h
  rw [hframes] at h
  cases h with
  | cons hdecodes _ => exact hdecodes

/-- The parser takes a frame with the magic bytes for a packet in clear. -/
theorem Decodes.errCode_eq (hc : KeepsLength (some c)) {e₀ e₁ e₂ e₃ : UInt8} {rest : List UInt8}
    {msg : MUSMessage} (h : Decodes c (frameBytes (e₀ :: e₁ :: e₂ :: e₃ :: rest)) msg) :
    msg.errCode = toInt32 (beNat [e₀, e₁, e₂, e₃]) := by
  obtain ⟨parsed, hrun, hsame⟩ := h
  obtain ⟨result, hresult, hparsed⟩ := parseMUSMessageWithDecryption_yields hc
    (frameBytes (e₀ :: e₁ :: e₂ :: e₃ :: rest))
  obtain rfl : result = .ok parsed := Option.some.inj (hresult.symm.trans hrun)
  obtain ⟨-, rawmsg, v, hclear, hv, herrCode⟩ := hparsed parsed rfl
  obtain rfl : frameBytes (e₀ :: e₁ :: e₂ :: e₃ :: rest) = rawmsg :=
    Except.ok.inj (Option.some.inj hclear)
  have hword : uintAt 4 (frameBytes (e₀ :: e₁ :: e₂ :: e₃ :: rest)) 6 =
      some (beNat [e₀, e₁, e₂, e₃]) := by
    rw [uintAt, slice_eq_some (by simp [length_frameBytes]; omega)]
    rfl
  obtain rfl : beNat [e₀, e₁, e₂, e₃] = v := Option.some.inj (hword.symm.trans hv)
  rw [← hsame.errCode, herrCode]

/-- The two bytes after the envelope are the upper bytes of the error code. -/
theorem AllModeAgrees.errCode (h : AllModeAgrees c) (hmask : Masks c k) : k 6 = 0 ∧ k 7 = 0 := by
  obtain ⟨h₀, h₁, h₂, h₃, h₄, h₅⟩ := h.envelope hmask
  generalize hrest : (List.replicate 16 (0 : UInt8)).mapIdx (fun i x => x ^^^ k (i + 10)) = rest
  have hlength : rest.length = 16 := by simp [← hrest]
  have hpacket : c.encrypt (0x72 :: 0 :: 0 :: 0 :: 0 :: 20 :: List.replicate 20 0) =
      frameBytes (k 6 :: k 7 :: k 8 :: k 9 :: rest) := by
    have hpayload : List.replicate 20 (0 : UInt8) = 0 :: 0 :: 0 :: 0 :: List.replicate 16 0 := rfl
    rw [hmask.encrypt_packet, h₀, h₁, h₂, h₃, h₄, h₅, hpayload]
    simp only [List.mapIdx_cons, UInt8.zero_xor, UInt8.xor_zero, Nat.zero_add, Nat.add_assoc,
      Nat.reduceAdd, hrest, frameBytes, List.length_cons, hlength]
    rfl
  have hdelivers := h.delivers roundTrips_blank
  rw [hpacket] at hdelivers
  have hdecodes := decodes_of_delivers (by simp [hlength]) (by simp [length_frameBytes, hlength])
    hdelivers
  have hcode : 0 = toInt32 (beNat [k 6, k 7, k 8, k 9]) := hdecodes.errCode_eq hmask.keepsLength
  have hvalue : beNat [k 6, k 7, k 8, k 9] = 0 := by
    have hlt := beNat_lt [k 6, k 7, k 8, k 9]
    have hbmod := congrArg Int32.toInt hcode
    rw [toInt32, Int32.toInt_ofNat', Int32.toInt_zero] at hbmod
    have hdvd := Int.dvd_of_bmod_eq_zero hbmod.symm
    simp only [List.length_cons, List.length_nil, Int32.size] at hlt hdvd
    omega
  rw [beNat_four] at hvalue
  exact ⟨UInt8.toNat.inj (by rw [UInt8.toNat_zero]; omega),
    UInt8.toNat.inj (by rw [UInt8.toNat_zero]; omega)⟩

end Masked

/-- In #All mode the sender, the framing and the parser agree for exactly those keys whose
schedule maps the zero block to itself: the keystream is zero then, and nothing is
encrypted. -/
theorem allMode_agrees_iff {key : GoString} (hkey : key ≠ []) :
    ∃ b, (newBlowfish key).setKey = some b ∧
      (AllModeAgrees b.cipher ↔ b.boxes.doCrypto (0, 0) kEncrypt = some (0, 0)) := by
  obtain ⟨boxes, hsetKey, -⟩ := exists_setKey hkey
  refine ⟨_, hsetKey, ?_⟩
  generalize (⟨key, boxes, 0, 0⟩ : Blowfish) = b
  have hmask : Masks b.cipher b.boxes.keystream := ⟨b.cipher_encrypt, b.cipher_decrypt⟩
  rw [Boxes.doCrypto_kEncrypt, Option.some.injEq]
  constructor
  · intro h
    obtain ⟨h₀, h₁, h₂, h₃, h₄, h₅⟩ := h.envelope hmask
    obtain ⟨h₆, h₇⟩ := h.errCode hmask
    apply Boxes.nextBlock_eq_zero
    intro n hn
    interval_cases n
    exacts [h₀, h₁, h₂, h₃, h₄, h₅, h₆, h₇]
  · intro h
    have hidentity : ∀ data : List UInt8,
        (data.mapIdx fun i x => x ^^^ b.boxes.keystream i) = data := by
      intro data
      apply List.ext_getElem (List.length_mapIdx ..)
      intro i _ _
      rw [List.getElem_mapIdx, Boxes.keystream_eq_zero h, UInt8.xor_zero]
    exact agrees_of_identity (fun data => (hmask.encrypt data).trans (hidentity data))
      (fun data => (hmask.decrypt data).trans (hidentity data))

theorem allMode_agrees_iff_letter :
    ∃ b, (newBlowfish (lit "k")).setKey = some b ∧
      (AllModeAgrees b.cipher ↔ b.boxes.doCrypto (0, 0) kEncrypt = some (0, 0)) :=
  allMode_agrees_iff (by decide)

/-- The constant of `cipher.go`, which is the key when none is configured. -/
def smusDefaultKey : GoString := lit "IPAddress resolution"

theorem firstBlock_smusDefaultKey :
    firstBlock smusDefaultKey = some (0x8cb761ca, 0x1150a054) := by
  decide +kernel

/-- Under the default key the framing drops the connection at the first encrypted packet:
its magic bytes are masked. -/
theorem default_key_packet_refused :
    ∃ b packet, (newBlowfish smusDefaultKey).setKey = some b ∧
      RoundTrips (blankMessage []) packet ∧
      (readLoop silentServer packet.length () [b.cipher.encrypt packet]).ended =
        some (.violation (.invalidHeader 0xfe 0xb7)) ∧
      ¬ Delivers b.cipher packet.length [b.cipher.encrypt packet] [blankMessage []] := by
  obtain ⟨boxes, hsetKey, hfirst⟩ := exists_setKey (show smusDefaultKey ≠ [] by decide)
  have hblock : boxes.nextBlock (0, 0) = (0x8cb761ca, 0x1150a054) :=
    Option.some.inj (hfirst.symm.trans firstBlock_smusDefaultKey)
  have h₀ : boxes.keystream 0 = 0x8c := by
    rw [boxes.keystream_first (by decide), hblock]
    decide
  have h₁ : boxes.keystream 1 = 0xb7 := by
    rw [boxes.keystream_first (by decide), hblock]
    decide
  have hfail : nextFrame 26 ((⟨smusDefaultKey, boxes, 0, 0⟩ : Blowfish).cipher.encrypt
      (0x72 :: 0 :: 0 :: 0 :: 0 :: 20 :: List.replicate 20 0)) =
        .fail (.invalidHeader 0xfe 0xb7) := by
    have hmask : Masks (⟨smusDefaultKey, boxes, 0, 0⟩ : Blowfish).cipher boxes.keystream :=
      ⟨Blowfish.cipher_encrypt _, Blowfish.cipher_decrypt _⟩
    rw [hmask.encrypt_packet, nextFrame_header, h₀, h₁, if_pos (by decide)]
    rfl
  exact ⟨_, _, hsetKey, roundTrips_blank, congrArg Reader.ended (readLoop_of_fail hfail),
    not_delivers_of_fail hfail _ _⟩

end Musgos.Inbound
