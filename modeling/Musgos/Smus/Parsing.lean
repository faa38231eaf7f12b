import Musgos.Lingo.WireTotal
import Musgos.Smus.Message

/-!
# Parsing MUS messages

The parser returns a message or an error for every packet and never panics, and
what the encoder writes it reads back. `Yields p P` is the rule form of the
first: the parser `p` does not panic, and a value it accepts satisfies `P`. For
the second, each section of a message is read from the place in the packet
where its bytes stand.
-/
namespace Musgos.Smus

open Foundation Lingo Domain

section Yields

variable {ε ε' α β : Type} {P : α → Prop} {Q : β → Prop}

/-- The parser ends without a panic, and what it accepts satisfies `P`. -/
def Yields (p : Parse ε α) (P : α → Prop) : Prop :=
  ∃ r, p.run = some r ∧ ∀ a, r = .ok a → P a

theorem Yields.pure {a : α} (h : P a) : Yields (Pure.pure a : Parse ε α) P := by
  refine ⟨.ok a, rfl, ?_⟩
  intro a' ha'
  cases ha'
  exact h

theorem Yields.throw (e : ε) : Yields (throw e : Parse ε α) P := by
  refine ⟨.error e, rfl, ?_⟩
  intro a ha
  cases ha

theorem Yields.lift {x : Option α} {a : α} (hx : x = some a) (h : P a) :
    Yields (ExceptT.lift x : Parse ε α) P := by
  subst hx
  exact Yields.pure h

theorem Yields.bind {p : Parse ε α} {f : α → Parse ε β} (hp : Yields p P)
    (hf : ∀ a, P a → Yields (f a) Q) : Yields (p >>= f) Q := by
  obtain ⟨r, rfl, hP⟩ := hp
  cases r with
  | error e => exact Yields.throw e
  | ok a => exact hf a (hP a rfl)

theorem Yields.returns {p : Parse ε α} (hp : Yields p P) :
    Yields p fun a => P a ∧ p.run = some (.ok a) := by
  obtain ⟨r, hr, hP⟩ := hp
  refine ⟨r, hr, ?_⟩
  rintro a rfl
  exact ⟨hP a rfl, hr⟩

theorem Yields.adapt {p : Parse ε α} (f : ε → ε') (hp : Yields p P) :
    Yields (ExceptT.adapt f p) P := by
  obtain ⟨r, rfl, hP⟩ := hp
  cases r with
  | error e => exact Yields.throw (f e)
  | ok a => exact Yields.pure (hP a rfl)

end Yields

section Total

variable {ε : Type}

theorem uint32At_yields {b : List UInt8} {offset : ℕ} (h : offset + 4 ≤ b.length) :
    Yields (uint32At b offset : Parse ε ℕ) fun n => uintAt 4 b offset = some n := by
  obtain ⟨n, hn, -⟩ := exists_uintAt 4 b offset h
  exact Yields.lift hn hn

theorem slice_yields {b : List UInt8} {offset n : ℕ} (h : offset + n ≤ b.length) :
    Yields (ExceptT.lift (slice b offset n) : Parse ε (List UInt8)) fun _ => True :=
  Yields.lift (slice_eq_some h) trivial

theorem extractMUSMsgHeaderString_yields (data : List UInt8) (offset : ℕ) :
    Yields (extractMUSMsgHeaderString data offset) fun _ => True := by
  unfold extractMUSMsgHeaderString
  split_ifs with hlength
  · exact Yields.throw _
  · apply Yields.bind (uint32At_yields (by omega))
    intro length _
    split_ifs with hcontent
    · exact Yields.throw _
    · apply Yields.bind (slice_yields (by omega))
      intro value _
      exact Yields.pure trivial

theorem extractStrings_yields (data : List UInt8) (count offset : ℕ) :
    Yields (extractStrings data count offset) fun r => r.1.length = count := by
  induction count generalizing offset with
  | zero => exact Yields.pure rfl
  | succ count ih =>
    apply Yields.bind (extractMUSMsgHeaderString_yields data offset)
    rintro ⟨str, consumed⟩ _
    apply Yields.bind (ih (offset + consumed))
    rintro ⟨strs, rest⟩ hlength
    exact Yields.pure (by simpa using hlength)

theorem extractMUSMsgHeaderStringList_yields (data : List UInt8) (offset : ℕ) :
    Yields (extractMUSMsgHeaderStringList data offset) fun r => r.1.count = r.1.strings.length := by
  unfold extractMUSMsgHeaderStringList
  split_ifs with hlength
  · exact Yields.throw _
  · apply Yields.bind (uint32At_yields (by omega))
    intro count _
    split_ifs with hcount
    · exact Yields.throw _
    · apply Yields.bind (extractStrings_yields data count (offset + 4))
      rintro ⟨strings, consumed⟩ hstrings
      exact Yields.pure hstrings.symm

/-- A cipher that keeps the length, as the stream cipher does. -/
def KeepsLength (cipher : Option Cipher) : Prop :=
  ∀ c ∈ cipher, ∀ data, (c.decrypt data).length = data.length

/-- The error after a failed decryption prints two bytes, which are there because
decryption keeps the length. -/
theorem clearPacket_yields {cipher : Option Cipher} (hcipher : KeepsLength cipher)
    {raw : List UInt8} (hraw : 14 ≤ raw.length) :
    Yields (clearPacket cipher raw) fun clear => 14 ≤ clear.length := by
  unfold clearPacket
  split_ifs with hheader
  · exact Yields.pure hraw
  · cases cipher with
    | none => exact Yields.throw _
    | some c =>
      have hlength := hcipher c rfl raw
      dsimp only
      split_ifs with hclear
      · apply Yields.bind (slice_yields (by omega))
        intro _ _
        exact Yields.throw _
      · exact Yields.pure (by omega)

theorem readContent_yields (cipher : Option Cipher) (subject : GoString) (remaining : List UInt8) :
    Yields (ExceptT.lift (readContent cipher subject remaining) : Parse ε (List UInt8 × LValue))
      fun _ => True := by
  have hdecode : ∀ content : List UInt8, ∃ r,
      (do let value ← LValue.fromRawBytes content 0; return (content, value)) = some r := by
    intro content
    obtain ⟨value, hvalue, -⟩ := LValue.fromRawBytes_total content (show 0 + 2 < 2 ^ 63 by norm_num)
    exact ⟨(content, value), by rw [hvalue]; rfl⟩
  obtain ⟨r, hr⟩ := hdecode _
  exact Yields.lift hr trivial

/-- Every packet is either parsed or refused. An accepted message counts its recipients
correctly and has its error code from the packet in clear. -/
theorem parseMUSMessageWithDecryption_yields {cipher : Option Cipher} (hcipher : KeepsLength cipher)
    (raw : List UInt8) :
    Yields (parseMUSMessageWithDecryption cipher raw) fun msg =>
      msg.recptID.count = msg.recptID.strings.length ∧
        ∃ rawmsg v, (clearPacket cipher raw).run = some (.ok rawmsg) ∧
          uintAt 4 rawmsg 6 = some v ∧ msg.errCode = toInt32 v := by
  unfold parseMUSMessageWithDecryption
  split_ifs with hraw
  · exact Yields.throw _
  · apply Yields.bind (clearPacket_yields hcipher (by omega)).returns
    rintro rawmsg ⟨hlength, hclear⟩
    apply Yields.bind (uint32At_yields (by omega))
    intro contentSize _
    dsimp only
    split_ifs with hsize
    · exact Yields.throw _
    · apply Yields.bind (uint32At_yields (by omega))
      intro errCode herrCode
      apply Yields.bind (uint32At_yields (by omega))
      intro timeStamp _
      apply Yields.bind ((extractMUSMsgHeaderString_yields rawmsg 14).adapt _)
      rintro ⟨subject, n₁⟩ _
      apply Yields.bind ((extractMUSMsgHeaderString_yields rawmsg (14 + n₁)).adapt _)
      rintro ⟨senderID, n₂⟩ _
      apply Yields.bind ((extractMUSMsgHeaderStringList_yields rawmsg (14 + n₁ + n₂)).adapt _)
      rintro ⟨recptID, n₃⟩ hcount
      dsimp only
      split_ifs with hremaining
      · exact Yields.pure ⟨hcount, rawmsg, errCode, hclear, herrCode, rfl⟩
      · apply Yields.bind (readContent_yields cipher subject.value _)
        rintro ⟨content, value⟩ _
        exact Yields.pure ⟨hcount, rawmsg, errCode, hclear, herrCode, rfl⟩

/-- Every packet is either parsed or refused, and an accepted message counts its
recipients correctly. -/
theorem parseMUSMessageWithDecryption_total {cipher : Option Cipher} (hcipher : KeepsLength cipher)
    (raw : List UInt8) :
    ∃ result, (parseMUSMessageWithDecryption cipher raw).run = some result ∧
      ∀ msg, result = .ok msg → msg.recptID.count = msg.recptID.strings.length := by
  obtain ⟨result, hrun, hresult⟩ := parseMUSMessageWithDecryption_yields hcipher raw
  exact ⟨result, hrun, fun msg hmsg => (hresult msg hmsg).1⟩

/-- With a cipher that flips one bit of each byte, fourteen zero bytes are refused. -/
theorem parseMUSMessageWithDecryption_total_flip :
    ∃ result, (parseMUSMessageWithDecryption (some ⟨List.map (· ^^^ 1), List.map (· ^^^ 1)⟩)
        (List.replicate 14 0)).run = some result ∧
      ∀ msg, result = .ok msg → msg.recptID.count = msg.recptID.strings.length := by
  apply parseMUSMessageWithDecryption_total
  rintro c ⟨⟩ data
  exact List.length_map _

end Total

section RoundTrip

variable {ε : Type} {b : List UInt8} {offset : ℕ}

theorem adapt_pure {ε' α : Type} (f : ε → ε') (a : α) :
    ExceptT.adapt f (pure a : Parse ε α) = pure a := rfl

theorem uint32At_eq {v : ℕ} (h : StandsAt b offset (beBytes 4 v)) (hv : v < 2 ^ 32) :
    (uint32At b offset : Parse ε ℕ) = pure v := by
  rw [uint32At, h.uintAt_eq (by simpa using hv)]
  rfl

theorem int32Bytes_natCast {n : ℕ} (hn : n < 2 ^ 32) : int32Bytes n = beBytes 4 n := by
  have hmod : ((n : ℤ) % 2 ^ 32).toNat = n := by omega
  rw [int32Bytes, hmod]

theorem toInt32_emod (n : Int32) : toInt32 (n.toInt % 2 ^ 32).toNat = n := by
  apply Int32.toInt.inj
  rw [toInt32, Int32.toInt_ofNat', Int.toNat_of_nonneg (by omega)]
  exact (Int.emod_bmod n.toInt (2 ^ 32)).trans n.toInt_bmod

theorem uint32At_int32Bytes {n : Int32} (h : StandsAt b offset (int32Bytes n.toInt)) :
    (uint32At b offset : Parse ε ℕ) = pure (n.toInt % 2 ^ 32).toNat :=
  uint32At_eq (v := (n.toInt % 2 ^ 32).toNat) h (by omega)

@[simp] theorem length_int32Bytes (n : ℤ) : (int32Bytes n).length = 4 := length_beBytes _ _

theorem MUSMsgHeaderString.length_writeBytes (s : MUSMsgHeaderString) :
    s.writeBytes.length = 4 + s.value.length + s.value.length % 2 := by
  unfold writeBytes
  split_ifs with hodd <;> simp <;> omega

theorem extractMUSMsgHeaderString_eq {s : MUSMsgHeaderString} (hs : s.length = s.value.length)
    (h : StandsAt b offset s.writeBytes) (hsize : s.value.length < 2 ^ 32) :
    extractMUSMsgHeaderString b offset = pure (s, s.writeBytes.length) := by
  have hvalue : StandsAt b (offset + 4) s.value := by simpa using h.left.right
  have hend := hvalue.le_length
  have hlength := h.left.left
  rw [int32Bytes_natCast hsize] at hlength
  unfold extractMUSMsgHeaderString
  rw [if_neg (by omega), uint32At_eq hlength hsize, pure_bind, if_neg (by omega),
    hvalue.slice_eq, s.length_writeBytes, ← hs]
  rfl

theorem extractStrings_eq {strings : List MUSMsgHeaderString}
    (hstrings : ∀ s ∈ strings, s.length = s.value.length ∧ s.value.length < 2 ^ 32)
    (h : StandsAt b offset (strings.flatMap (·.writeBytes))) :
    extractStrings b strings.length offset =
      pure (strings, (strings.flatMap (·.writeBytes)).length) := by
  induction strings generalizing offset with
  | nil => rfl
  | cons s strings ih =>
    obtain ⟨hs, hsize⟩ := hstrings s List.mem_cons_self
    have hrest := ih (fun t ht => hstrings t (List.mem_cons_of_mem s ht)) h.right
    rw [List.length_cons, extractStrings, extractMUSMsgHeaderString_eq hs h.left hsize, pure_bind]
    dsimp only
    rw [hrest, pure_bind]
    simp

/-- Each string of a list takes at least its length prefix, which is what the
parser's test on the count relies on. -/
theorem four_mul_length_le (strings : List MUSMsgHeaderString) :
    4 * strings.length ≤ (strings.flatMap (·.writeBytes)).length := by
  induction strings with
  | nil => simp
  | cons s strings ih =>
    have hs := s.length_writeBytes
    simp only [List.flatMap_cons, List.length_append, List.length_cons]
    omega

theorem extractMUSMsgHeaderStringList_eq {l : MUSMsgHeaderStringList}
    (hstrings : ∀ s ∈ l.strings, s.length = s.value.length ∧ s.value.length < 2 ^ 32)
    (hcount : l.strings.length < 2 ^ 32) (h : StandsAt b offset l.writeBytes) :
    extractMUSMsgHeaderStringList b offset =
      pure (⟨l.strings.length, l.strings⟩, l.writeBytes.length) := by
  have hbody : StandsAt b (offset + 4) (l.strings.flatMap (·.writeBytes)) := by
    simpa using h.right
  have hend := hbody.le_length
  have hleast := four_mul_length_le l.strings
  have hword := h.left
  rw [int32Bytes_natCast hcount] at hword
  unfold extractMUSMsgHeaderStringList
  rw [if_neg (by omega), uint32At_eq hword hcount, pure_bind, if_neg (by omega),
    extractStrings_eq hstrings hbody, pure_bind]
  simp [MUSMsgHeaderStringList.writeBytes]

/-- The bytes of a message after its envelope, with the content already encoded. -/
def MUSMessage.payload (msg : MUSMessage) (content : List UInt8) : List UInt8 :=
  int32Bytes msg.errCode.toInt ++ int32Bytes msg.timeStamp.toInt ++ msg.subject.writeBytes ++
    msg.senderID.writeBytes ++ msg.recptID.writeBytes ++ content

/-- `content` is what the encoder writes for the content of `msg`, and decoding it
gives the content back. An absent content has no bytes, any other has some. -/
def MUSMessage.Carries (msg : MUSMessage) (content : List UInt8) : Prop :=
  (msg.msgContent = .nil ∧ content = []) ∨
    (content ≠ [] ∧ msg.msgContent.getBytes = some content ∧
      LValue.fromRawBytes content 0 = some msg.msgContent)

/-- The encoding of a message is its envelope and its payload. -/
theorem MUSMessage.getBytes_eq {msg : MUSMessage} {content : List UInt8} (h : msg.Carries content) :
    msg.getBytes = some (musHeader ++ int32Bytes (msg.payload content).length ++
      msg.payload content) := by
  obtain ⟨hnil, rfl⟩ | ⟨-, hcontent, -⟩ := h
  · simp [getBytes, hnil, payload]
  · have hne : msg.msgContent ≠ .nil := by
      intro hnil
      rw [hnil] at hcontent
      cases hcontent
    unfold getBytes
    split
    · contradiction
    · simp [hcontent, payload]

/-- Strings record their own length. -/
structure MUSMessage.LengthsAgree (msg : MUSMessage) : Prop where
  subject : msg.subject.length = msg.subject.value.length
  senderID : msg.senderID.length = msg.senderID.value.length
  recptID : ∀ s ∈ msg.recptID.strings, s.length = s.value.length

theorem toInt_toInt32 {n : ℕ} (hn : n < 2 ^ 31) : (toInt32 n).toInt = n := by
  rw [toInt32, Int32.toInt_ofNat']
  exact Int.bmod_eq_of_le (by omega) (by simp [Int32.size]; omega)

theorem MUSMsgHeaderStringList.length_writeBytes_le {l : MUSMsgHeaderStringList}
    {s : MUSMsgHeaderString} (hs : s ∈ l.strings) : s.writeBytes.length ≤ l.writeBytes.length := by
  have hsub : s.writeBytes.Sublist (l.strings.flatMap (·.writeBytes)) :=
    List.sublist_flatten_of_mem (List.mem_map_of_mem hs)
  have hle := hsub.length_le
  simp only [writeBytes, List.length_append]
  omega

/-- Where the sections of a message stand in its packet. -/
structure Layout (msg : MUSMessage) (content packet : List UInt8) : Prop where
  length : packet.length = 6 + (msg.payload content).length
  size : StandsAt packet 2 (int32Bytes (msg.payload content).length)
  errCode : StandsAt packet 6 (int32Bytes msg.errCode.toInt)
  timeStamp : StandsAt packet 10 (int32Bytes msg.timeStamp.toInt)
  subject : StandsAt packet 14 msg.subject.writeBytes
  senderID : StandsAt packet (14 + msg.subject.writeBytes.length) msg.senderID.writeBytes
  recptID : StandsAt packet (14 + msg.subject.writeBytes.length + msg.senderID.writeBytes.length)
    msg.recptID.writeBytes
  content : packet.drop (14 + msg.subject.writeBytes.length + msg.senderID.writeBytes.length +
    msg.recptID.writeBytes.length) = content

theorem MUSMessage.layout (msg : MUSMessage) (content : List UInt8) :
    Layout msg content (musHeader ++ int32Bytes (msg.payload content).length ++
      msg.payload content) := by
  generalize hpacket : musHeader ++ int32Bytes (msg.payload content).length ++
    msg.payload content = packet
  have hwhole : StandsAt packet 0 (musHeader ++ int32Bytes (msg.payload content).length ++
      msg.payload content) := hpacket ▸ standsAt_whole packet
  have hbody : StandsAt packet 6 (msg.payload content) := by
    simpa [musHeader] using hwhole.right
  have hsender := hbody.left.left.right
  have hrecpt := hbody.left.right
  simp only [List.length_append, length_int32Bytes, ← Nat.add_assoc, Nat.reduceAdd]
    at hsender hrecpt
  constructor
  case length =>
    rw [← hpacket]
    simp [musHeader]
    omega
  case size => simpa [musHeader] using hwhole.left.right
  case errCode => exact hbody.left.left.left.left.left
  case timeStamp => simpa using hbody.left.left.left.left.right
  case subject => simpa using hbody.left.left.left.right
  case senderID => exact hsender
  case recptID => exact hrecpt
  case content =>
    rw [← hpacket, payload, ← List.append_assoc]
    apply List.drop_left'
    simp [musHeader]
    omega

theorem Layout.sizes {msg : MUSMessage} {content packet : List UInt8}
    (h : Layout msg content packet)
    (hsize : packet.length < 2 ^ 31) :
    msg.subject.value.length < 2 ^ 32 ∧ msg.senderID.value.length < 2 ^ 32 ∧
      msg.recptID.strings.length < 2 ^ 32 ∧ ∀ s ∈ msg.recptID.strings, s.value.length < 2 ^ 32 := by
  have hsubject := h.subject.le_length
  have hsender := h.senderID.le_length
  have hrecpt := h.recptID.le_length
  have hcount := four_mul_length_le msg.recptID.strings
  have hlist : msg.recptID.writeBytes.length =
      4 + (msg.recptID.strings.flatMap (·.writeBytes)).length := by
    simp [MUSMsgHeaderStringList.writeBytes]
  rw [msg.subject.length_writeBytes] at hsubject
  rw [msg.senderID.length_writeBytes] at hsender
  refine ⟨by omega, by omega, by omega, ?_⟩
  intro s hs
  have hle := MUSMsgHeaderStringList.length_writeBytes_le hs
  rw [s.length_writeBytes] at hle
  omega

/-- What the parser makes of a packet in clear. A content is read with the cipher. -/
theorem parse_clear {cipher : Option Cipher} {msg : MUSMessage}
    {raw packet content decrypted : List UInt8}
    (hraw : 14 ≤ raw.length) (hclear : clearPacket cipher raw = pure packet)
    (hlayout : Layout msg content packet) (hsize : packet.length < 2 ^ 31)
    (hlengths : msg.LengthsAgree)
    (hread : (content = [] ∧ decrypted = [] ∧ msg.msgContent = .nil) ∨
      (content ≠ [] ∧ readContent cipher msg.subject.value content =
        some (decrypted, msg.msgContent))) :
    parseMUSMessageWithDecryption cipher raw = pure
      { msg with
        contentSize := toInt32 (msg.payload content).length
        recptID := ⟨msg.recptID.strings.length, msg.recptID.strings⟩
        rawContents := content
        decryptedContents := decrypted } := by
  obtain ⟨hsubject, hsender, hcount, hrecpt⟩ := hlayout.sizes hsize
  have hlength := hlayout.length
  have hnat : ¬ (toInt32 (msg.payload content).length < 0 ∨
      (packet.length : ℤ) < 6 + (toInt32 (msg.payload content).length).toInt) := by
    rw [Int32.lt_iff_toInt_lt, toInt_toInt32 (by omega), Int32.toInt_zero]
    omega
  have hword := hlayout.size
  rw [int32Bytes_natCast (by omega)] at hword
  unfold parseMUSMessageWithDecryption
  rw [if_neg (by omega), hclear, pure_bind, uint32At_eq hword (by omega), pure_bind]
  dsimp only
  rw [if_neg hnat, uint32At_int32Bytes hlayout.errCode, pure_bind,
    uint32At_int32Bytes hlayout.timeStamp, pure_bind,
    extractMUSMsgHeaderString_eq hlengths.subject hlayout.subject hsubject, adapt_pure, pure_bind]
  dsimp only
  rw [extractMUSMsgHeaderString_eq hlengths.senderID hlayout.senderID hsender, adapt_pure,
    pure_bind]
  dsimp only
  rw [extractMUSMsgHeaderStringList_eq (fun s hs => ⟨hlengths.recptID s hs, hrecpt s hs⟩) hcount
    hlayout.recptID, adapt_pure, pure_bind]
  dsimp only
  rw [hlayout.content, toInt32_emod, toInt32_emod]
  obtain ⟨rfl, rfl, hnil⟩ | ⟨hne, hcontent⟩ := hread
  · rw [if_pos rfl, hnil]
  · rw [if_neg hne, hcontent]
    rfl

/-- What a message carries over the wire is the same. -/
structure MUSMessage.SameAs (parsed msg : MUSMessage) : Prop where
  errCode : parsed.errCode = msg.errCode
  timeStamp : parsed.timeStamp = msg.timeStamp
  subject : parsed.subject = msg.subject
  senderID : parsed.senderID = msg.senderID
  recipients : parsed.recptID.strings = msg.recptID.strings
  msgContent : parsed.msgContent = msg.msgContent

theorem MUSMessage.Carries.readContent_none {msg : MUSMessage} {content : List UInt8}
    (h : msg.Carries content) :
    (content = [] ∧ content = [] ∧ msg.msgContent = .nil) ∨
      (content ≠ [] ∧ readContent none msg.subject.value content =
        some (content, msg.msgContent)) := by
  obtain ⟨hnil, rfl⟩ | ⟨hne, -, hdecoded⟩ := h
  · exact .inl ⟨rfl, rfl, hnil⟩
  · refine .inr ⟨hne, ?_⟩
    simp [readContent, hdecoded]

/-- What the parser without a cipher makes of the encoding of a message. -/
theorem parse_encoded {msg : MUSMessage} {content packet : List UInt8} (hlengths : msg.LengthsAgree)
    (hcarries : msg.Carries content) (hpacket : msg.getBytes = some packet)
    (hsize : packet.length < 2 ^ 31) :
    parseMUSMessageWithDecryption none packet = pure
      { msg with
        contentSize := toInt32 (msg.payload content).length
        recptID := ⟨msg.recptID.strings.length, msg.recptID.strings⟩
        rawContents := content
        decryptedContents := content } := by
  rw [MUSMessage.getBytes_eq hcarries, Option.some.injEq] at hpacket
  have hlayout : Layout msg content packet := hpacket ▸ msg.layout content
  have hraw := hlayout.subject.le_length
  have hclear : clearPacket none packet = pure packet := by rw [← hpacket]; rfl
  exact parse_clear (by omega) hclear hlayout hsize hlengths hcarries.readContent_none

/-- A message comes back from its own encoding, with the size of everything after
the envelope as its content size. -/
theorem parse_getBytes {msg : MUSMessage} (hlengths : msg.LengthsAgree)
    (hcontent : ∃ content, msg.Carries content) :
    ∃ packet, msg.getBytes = some packet ∧ (packet.length < 2 ^ 31 →
      ∃ parsed, (parseMUSMessageWithDecryption none packet).run = some (.ok parsed) ∧
        parsed.SameAs msg ∧ parsed.recptID.count = msg.recptID.strings.length ∧
        parsed.contentSize.toInt = (packet.drop 6).length) := by
  obtain ⟨content, hcarries⟩ := hcontent
  have hpacket := MUSMessage.getBytes_eq hcarries
  have hlength := (msg.layout content).length
  refine ⟨_, hpacket, fun hsize => ?_⟩
  have hparse := parse_encoded hlengths hcarries hpacket hsize
  refine ⟨_, hparse, ⟨rfl, rfl, rfl, rfl, rfl, rfl⟩, rfl, ?_⟩
  rw [toInt_toInt32 (by omega), List.length_drop]
  omega

/-- A logon with a list as content, from a sender with a name of odd length. -/
def sampleMessage : MUSMessage where
  contentSize := 0
  errCode := -1
  timeStamp := 7
  subject := .ofValue (lit "Logon")
  senderID := .ofValue (lit "ann")
  recptID := ⟨1, [.ofValue (lit "System")]⟩
  rawContents := []
  decryptedContents := []
  msgContent := .list [.string (lit "pw"), .integer 3]

theorem parse_getBytes_sample :
    ∃ packet, sampleMessage.getBytes = some packet ∧ packet.length < 2 ^ 31 ∧
      ∃ parsed, (parseMUSMessageWithDecryption none packet).run = some (.ok parsed) ∧
        parsed.SameAs sampleMessage ∧
        parsed.recptID.count = sampleMessage.recptID.strings.length ∧
        parsed.contentSize.toInt = (packet.drop 6).length := by
  have hcarries : sampleMessage.Carries (sampleMessage.msgContent.getBytes.getD []) :=
    .inr ⟨by decide +kernel, by decide +kernel, by decide +kernel⟩
  obtain ⟨packet, hpacket, hparse⟩ :=
    parse_getBytes (show sampleMessage.LengthsAgree from ⟨rfl, rfl, by decide⟩) ⟨_, hcarries⟩
  have hsize : packet.length < 2 ^ 31 := by
    have hlength : sampleMessage.getBytes.map List.length = some 66 := by decide +kernel
    rw [hpacket, Option.map_some, Option.some.injEq] at hlength
    omega
  exact ⟨packet, hpacket, hsize, hparse hsize⟩

end RoundTrip

end Musgos.Smus
