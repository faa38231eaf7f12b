import Musgos.Foundation.Transition
import Musgos.Inbound.SmusHandler
import Musgos.Inbound.WholePacket
import Musgos.Sessions.LogonOutcome

/-!
# From one client to the others

The whole way of a message: `TCPServer.handleConnection` appends what it reads to the
accumulator of its connection, cuts frames off it, and hands each frame the rate limiter lets
pass to the message handler, which parses it, looks the receivers up in the session store and
writes the message to each of them. Any number of connections do so at once, and in between
other goroutines change sessions, groups and the pool as they like. Handling one frame is one
step: the reads and writes it makes are not interleaved with those of others.

What one client sends to others is relayed message by message, in order and once, under the
identity of its connection, with the subject and the content it was sent with.
-/
namespace Musgos.Inbound

open Foundation Lingo Domain Services Smus Mus Outbound

/-- What a connection handler uses; `ι` tells connections apart. -/
structure TCPServer (ι π σ δ τ : Type) where
  ctx : Context π σ δ τ
  maxMessageSize : ℕ
  /-- `pool.CurrentID(conn)`. -/
  currentID : ι → π → GoString
  /-- `sessionStore.UpdateLastActivity`. -/
  updateLastActivity : GoString → Write σ

/-- A frame that was cut off, and what came of it. -/
structure Handled (ι σ : Type) where
  conn : ι
  /-- The identity of the connection at that time. -/
  clientID : GoString
  now : ℤ
  /-- The sessions as the handler found them. -/
  sessions : σ
  /-- What the rate limiter said. -/
  allowed : Bool
  /-- The calls of `WriteToClient` made while it was handled. -/
  offered : List (GoString × List UInt8)

/-- The state of a server and of the read loops of its connections. -/
structure Serving (ι π σ δ τ : Type) where
  world : World π σ δ τ
  acc : ι → List UInt8
  /-- The read loop of the connection has ended. -/
  closed : ι → Bool
  /-- `reader.Read` has returned an error. -/
  readFailed : ι → Bool
  /-- Everything read from a connection so far. -/
  received : ι → List UInt8
  log : List (Handled ι σ)

/-- What can happen next. -/
inductive ServerEvent (ι π σ δ τ : Type) where
  /-- `reader.Read` returns a chunk. -/
  | read (conn : ι) (chunk : List UInt8)
  /-- `reader.Read` returns an error: the client has hung up, or somebody has closed the
  connection through the pool. -/
  | readFails (conn : ι)
  /-- A turn of the inner loop, with the clock and the answer of the rate limiter. -/
  | frame (conn : ι) (now : ℤ) (allowed : Bool)
  /-- Anything else that goes on: logons, joins, clean-up, timers. -/
  | other (change : World π σ δ τ → World π σ δ τ)

namespace Serving

variable {ι π σ δ τ : Type}

/-- No connection has been read from. -/
def start (w : World π σ δ τ) : Serving ι π σ δ τ where
  world := w
  acc _ := []
  closed _ := false
  readFailed _ := false
  received _ := []
  log := []

/-- What one connection's frames have come to. -/
def logOf [DecidableEq ι] (s : Serving ι π σ δ τ) (conn : ι) : List (Handled ι σ) :=
  s.log.filter (·.conn = conn)

end Serving

namespace TCPServer

variable {ι π σ δ τ : Type} (srv : TCPServer ι π σ δ τ)

/-- The server as the loop of one connection calls it, the clock and the answer of the rate
limiter given. With the state goes the identity that is read before the limiter is asked, under
which the frame is handled whatever the handler makes of it. -/
def frameServer (conn : ι) (now : ℤ) (allowed : Bool) :
    FrameServer (World π σ δ τ × GoString) where
  allow s := ((s.1, srv.currentID conn s.1.conns), allowed)
  handleRawMessage s frame :=
    match Inbound.handleRawMessage srv.ctx now s.2 frame s.1 with
    | .ok (.ok response) w => ((w, s.2), some (response.getD [], false))
    | .ok (.error _) w => ((w, s.2), some ([], true))
    | .error _ w => ((w, s.2), none)
  updateLastActivity s :=
    ({ s.1 with sessions := (srv.updateLastActivity s.2 s.1.sessions).2 }, s.2)
  writeToClient s response :=
    match offer srv.ctx (srv.currentID conn s.1.conns) response s.1 with
    | .ok (.ok _) w => ((w, s.2), true)
    | .ok (.error _) w => ((w, s.2), false)
    | .error _ w => ((w, s.2), false)

/-- What is written down about a frame that was handled between two states. -/
def handled (conn : ι) (now : ℤ) (allowed : Bool) (w w' : World π σ δ τ) : Handled ι σ where
  conn := conn
  clientID := srv.currentID conn w.conns
  now := now
  sessions := w.sessions
  allowed := allowed
  offered := w'.offered.drop w.offered.length

variable [DecidableEq ι]

/-- The loop after a frame was cut off. -/
def take (s : Serving ι π σ δ τ) (conn : ι) (now : ℤ) (allowed : Bool) (frame rest : List UInt8) :
    Serving ι π σ δ τ :=
  let r := (srv.frameServer conn now allowed).onFrame (s.world, []) frame
  { s with
    world := r.1.1
    acc := Function.update s.acc conn rest
    closed := Function.update s.closed conn !r.2
    log := s.log ++ [srv.handled conn now allowed s.world r.1.1] }

/-- One step. A read happens when the accumulator holds no complete frame; a broken stream
closes the connection. -/
def step (s : Serving ι π σ δ τ) : ServerEvent ι π σ δ τ → Option (Serving ι π σ δ τ)
  | .read conn chunk =>
    if s.closed conn then none
    else
      match nextFrame srv.maxMessageSize (s.acc conn) with
      | .need => some
        { s with
          acc := Function.update s.acc conn (s.acc conn ++ chunk)
          received := Function.update s.received conn (s.received conn ++ chunk) }
      | _ => none
  | .readFails conn =>
    if s.closed conn then none
    else
      match nextFrame srv.maxMessageSize (s.acc conn) with
      | .need => some
        { s with
          closed := Function.update s.closed conn true
          readFailed := Function.update s.readFailed conn true }
      | _ => none
  | .frame conn now allowed =>
    if s.closed conn then none
    else
      match nextFrame srv.maxMessageSize (s.acc conn) with
      | .need => none
      | .fail _ => some { s with closed := Function.update s.closed conn true }
      | .emit frame rest => some (srv.take s conn now allowed frame rest)
  | .other change => some { s with world := { change s.world with offered := s.world.offered } }

end TCPServer

section Chat

variable {π σ δ τ : Type} {ctx : Context π σ δ τ}

/-- The first recipient, by which a message is routed. -/
def recipientOf (msg : MUSMessage) : GoString := (msg.recptID.strings.head?.map (·.value)).getD []

/-- A message for other clients and its packet. The content of a message that is called a
logon would be decrypted. -/
structure Chat (maxSize : ℕ) (msg : MUSMessage) (packet : List UInt8) : Prop where
  lengths : msg.LengthsAgree
  carries : ∃ content, msg.Carries content
  getBytes : msg.getBytes = some packet
  fits : packet.length ≤ maxSize
  subject : msg.subject.value ≠ lit "Logon"
  addressed : msg.recptID.strings ≠ []
  recipient : recipientOf msg ≠ lit "System" ∧ recipientOf msg ≠ lit "system.script"

/-- Who is written to: the recipient, or the members of the group in the sender's movie. -/
def receivers (ctx : Context π σ δ τ) (sessions : σ) (senderID recipientID : GoString) :
    List GoString :=
  if (lit "@").isPrefixOf recipientID then
    match ctx.sessions.getClientRooms senderID sessions with
    | .error _ => []
    | .ok rooms =>
      let movieID := movieAmong ctx rooms
      if movieID = [] then []
      else
        match ctx.sessions.getRoomMembers (groupRoomName movieID recipientID) sessions with
        | .error _ => []
        | .ok members => members
  else [recipientID]

/-- The message as the receivers get it. -/
def relay (now : ℤ) (clientID : GoString) (msg : MUSMessage) : MUSMessage :=
  newResponse now msg.subject.value clientID [recipientOf msg] errNoError msg.msgContent

/-- Whoever parses the packet, with a cipher or without, reads the message. -/
def ReadsAs (packet : List UInt8) (msg : MUSMessage) : Prop :=
  ∀ cipher, ∃ parsed, (parseMUSMessageWithDecryption cipher packet).run = some (.ok parsed) ∧
    parsed.SameAs msg

/-- What a message of a client has come to: the rate limiter refused it, or it was written to
its receivers. -/
structure Relayed {ι : Type} (ctx : Context π σ δ τ) (msg : MUSMessage) (e : Handled ι σ) :
    Prop where
  refused : e.allowed = false → e.offered = []
  allowed : e.allowed = true → ∃ data,
    e.offered = (receivers ctx e.sessions e.clientID (recipientOf msg)).map (·, data) ∧
      ReadsAs data (relay e.now e.clientID msg)

theorem parse_clear_text {msg : MUSMessage} {content packet : List UInt8} (cipher : Option Cipher)
    (hlengths : msg.LengthsAgree) (hcarries : msg.Carries content)
    (hpacket : msg.getBytes = some packet) (hsize : packet.length < 2 ^ 31)
    (hsubject : msg.subject.value ≠ lit "Logon") :
    parseMUSMessageWithDecryption cipher packet = pure
      { msg with
        contentSize := toInt32 (msg.payload content).length
        recptID := ⟨msg.recptID.strings.length, msg.recptID.strings⟩
        rawContents := content
        decryptedContents := content } := by
  rw [MUSMessage.getBytes_eq hcarries, Option.some.injEq] at hpacket
  have hlayout : Layout msg content packet := hpacket ▸ msg.layout content
  have hraw := hlayout.subject.le_length
  have hclear : clearPacket cipher packet = pure packet := by
    rw [← hpacket]
    rfl
  have hread : readContent cipher = fun subject remaining =>
      if subject = lit "Logon" then readContent cipher subject remaining
      else readContent none subject remaining := by
    funext subject remaining
    by_cases h : subject = lit "Logon"
    · simp [h]
    · cases cipher <;> simp [readContent, h]
  refine parse_clear (by omega) hclear hlayout hsize hlengths ?_
  rw [hread]
  simpa only [if_neg hsubject] using hcarries.readContent_none

theorem relay_lengthsAgree (now : ℤ) (clientID : GoString) (msg : MUSMessage) :
    (relay now clientID msg).LengthsAgree :=
  ⟨rfl, rfl, by simp [relay, newResponse, MUSMsgHeaderString.ofValue]⟩

/-- A relayed message is at most longer than the original by the name of its sender and
a pad byte. -/
theorem length_relay {msg : MUSMessage} (now : ℤ) (clientID : GoString) (content : List UInt8)
    (haddressed : msg.recptID.strings ≠ []) :
    ((relay now clientID msg).payload content).length ≤
      (msg.payload content).length + clientID.length + 1 := by
  obtain ⟨recipient, rest, hstrings⟩ := List.exists_cons_of_ne_nil haddressed
  have hname : recipientOf msg = recipient.value := by simp [recipientOf, hstrings]
  simp only [relay, newResponse, MUSMessage.payload, List.length_append, hname,
    MUSMsgHeaderStringList.writeBytes, MUSMsgHeaderString.length_writeBytes, hstrings,
    MUSMsgHeaderString.ofValue, List.map_cons, List.map_nil, List.flatMap_cons, List.flatMap_nil,
    List.length_nil]
  have hword : ∀ n : ℤ, (int32Bytes n).length = 4 := fun n => by simp [int32Bytes]
  simp only [hword]
  omega

variable {maxSize : ℕ} {msg : MUSMessage} {packet : List UInt8}

/-- The relayed message has a packet, and it is read back. -/
theorem Chat.exists_relay (h : Chat maxSize msg packet) (now : ℤ) {clientID : GoString}
    (hsize : maxSize + clientID.length + 1 < 2 ^ 31) :
    ∃ data, (relay now clientID msg).getBytes = some data ∧
      ReadsAs data (relay now clientID msg) := by
  obtain ⟨content, hcarries⟩ := h.carries
  have hcarries' : (relay now clientID msg).Carries content := hcarries
  have hpacket := MUSMessage.getBytes_eq hcarries'
  have hlength := ((relay now clientID msg).layout content).length
  have horiginal := (msg.layout content).length
  have hbytes := h.getBytes
  rw [MUSMessage.getBytes_eq hcarries, Option.some.injEq] at hbytes
  rw [hbytes] at horiginal
  have hlonger := length_relay now clientID content h.addressed
  have hfits := h.fits
  refine ⟨_, hpacket, fun cipher => ?_⟩
  have hparse := parse_clear_text cipher (relay_lengthsAgree now clientID msg) hcarries' hpacket
    (by omega) h.subject
  exact ⟨_, congrArg _ hparse, ⟨rfl, rfl, rfl, rfl, rfl, rfl⟩⟩

theorem Chat.frame (h : Chat maxSize msg packet) (hmax : maxSize < 2 ^ 31) (more : List UInt8) :
    nextFrame maxSize (packet ++ more) = .emit packet more := by
  obtain ⟨payload, rfl⟩ := exists_payload h.getBytes
  have hfits := h.fits
  have hlength : payload.length < 2 ^ 32 := by
    simp only [List.length_append] at hfits
    omega
  rw [int32Bytes_natCast hlength] at hfits ⊢
  exact nextFrame_frameBytes maxSize hlength hfits more

/-- Sending offers the packet to the receivers and touches nothing but the pool. -/
theorem sendMessage_run {writer : ConnectionWriter π} (hwriter : ctx.connWriter = some writer)
    (now : ℤ) (senderID recipientID subject : GoString) (content : LValue) {data : List UInt8}
    (hdata : wireBytes ctx (newResponse now subject senderID [recipientID] errNoError content) =
      some data) (w : World π σ δ τ) :
    ∃ result conns, sendMessage ctx now senderID recipientID subject content w =
      .ok result { w with
        conns := conns
        offered := w.offered ++
          (receivers ctx w.sessions senderID recipientID).map (·, data) } := by
  unfold sendMessage sendMessageFrom receivers
  by_cases hgroup : (lit "@").isPrefixOf recipientID = true
  · simp only [if_pos hgroup]
    unfold deliverToGroup
    have hrooms : (readSessions (ctx.sessions.getClientRooms senderID) w :
        EStateM.Result Panic _ _) = .ok (ctx.sessions.getClientRooms senderID w.sessions) w := rfl
    rw [bind_of_ok hrooms]
    cases ctx.sessions.getClientRooms senderID w.sessions with
    | error e => exact ⟨.error .senderRooms, w.conns, by simp [pure, EStateM.pure]⟩
    | ok rooms =>
      dsimp only
      by_cases hmovie : movieAmong ctx rooms = []
      · exact ⟨.error .notInMovie, w.conns, by simp [hmovie, pure, EStateM.pure]⟩
      simp only [if_neg hmovie]
      have hmembers : (readSessions (ctx.sessions.getRoomMembers
          (groupRoomName (movieAmong ctx rooms) recipientID)) w : EStateM.Result Panic _ _) =
          .ok (ctx.sessions.getRoomMembers (groupRoomName (movieAmong ctx rooms) recipientID)
            w.sessions) w := rfl
      rw [bind_of_ok hmembers]
      cases ctx.sessions.getRoomMembers (groupRoomName (movieAmong ctx rooms) recipientID)
          w.sessions with
      | error e => exact ⟨.error .groupMembers, w.conns, by simp [pure, EStateM.pure]⟩
      | ok members =>
        obtain ⟨conns, hoffer⟩ := offerEach_run hwriter data members w
        refine ⟨.ok (), conns, ?_⟩
        simp only [hdata]
        rw [bind_of_ok hoffer]
        rfl
  · simp only [if_neg hgroup, hdata]
    have hoffer : offer ctx recipientID data w =
        .ok (writer.writeToClient recipientID data w.conns).1 { w with
          conns := (writer.writeToClient recipientID data w.conns).2
          offered := w.offered ++ [(recipientID, data)] } := by
      simp only [offer, hwriter]
    rw [bind_of_ok hoffer]
    cases (writer.writeToClient recipientID data w.conns).1 with
    | error e => exact ⟨.error (.write e), _, rfl⟩
    | ok _ => exact ⟨.ok (), _, rfl⟩

/-- A message for neither of the services is sent on and not answered. -/
theorem dispatch_of_send {now : ℤ} {senderID : GoString} {recipient : MUSMsgHeaderString}
    {rest : List MUSMsgHeaderString} {result : Except DeliveryError Unit} {w w' : World π σ δ τ}
    (hcount : msg.recptID.count ≠ 0) (hstrings : msg.recptID.strings = recipient :: rest)
    (hsystem : recipient.value ≠ lit "System") (hscript : recipient.value ≠ lit "system.script")
    (hsend : sendMessage ctx now senderID recipient.value msg.subject.value msg.msgContent w =
      .ok result w') :
    dispatch ctx now senderID msg w = .ok (.ok none) w' := by
  unfold dispatch
  simp only [if_neg hcount, hstrings, if_neg hsystem, if_neg hscript]
  exact bind_of_ok hsend

/-- What the handler makes of a message for other clients. -/
theorem Chat.handleRawMessage_run {writer : ConnectionWriter π} (h : Chat maxSize msg packet)
    (hwriter : ctx.connWriter = some writer) (hplain : ctx.allEncrypted = false) (now : ℤ)
    {clientID : GoString} (hsize : maxSize + clientID.length + 1 < 2 ^ 31) (w : World π σ δ τ) :
    ∃ data conns, ReadsAs data (relay now clientID msg) ∧
      handleRawMessage ctx now clientID packet w = .ok (.ok none) { w with
        conns := conns
        offered := w.offered ++
          (receivers ctx w.sessions clientID (recipientOf msg)).map (·, data) } := by
  obtain ⟨content, hcarries⟩ := h.carries
  obtain ⟨data, hbytes, hreads⟩ := h.exists_relay now hsize
  have hfits := h.fits
  have hparse := parse_clear_text ctx.cipher h.lengths hcarries h.getBytes (by omega) h.subject
  obtain ⟨recipient, rest, hstrings⟩ := List.exists_cons_of_ne_nil h.addressed
  have hname : recipientOf msg = recipient.value := by simp [recipientOf, hstrings]
  have hdata : wireBytes ctx (newResponse now msg.subject.value clientID [recipientOf msg]
      errNoError msg.msgContent) = some data := by
    have hbytes' : (newResponse now msg.subject.value clientID [recipientOf msg] errNoError
        msg.msgContent).getBytes = some data := hbytes
    unfold wireBytes
    cases ctx.cipher <;> simp [hbytes', hplain]
  obtain ⟨result, conns, hsend⟩ := sendMessage_run hwriter now clientID (recipientOf msg)
    msg.subject.value msg.msgContent hdata w
  obtain ⟨hsystem, hscript⟩ := h.recipient
  rw [hname] at hsystem hscript hsend
  refine ⟨data, conns, hreads, ?_⟩
  rw [hname]
  have hdispatch : dispatch ctx now clientID
      { msg with
        contentSize := toInt32 (msg.payload content).length
        recptID := ⟨msg.recptID.strings.length, msg.recptID.strings⟩
        rawContents := content
        decryptedContents := content } w = .ok (.ok none) _ :=
    dispatch_of_send (by simp [hstrings]) hstrings hsystem hscript hsend
  unfold handleRawMessage
  rw [hparse]
  exact bind_of_ok hdispatch

end Chat

section Runs

variable {ι π σ δ τ : Type} {srv : TCPServer ι π σ δ τ} {s s' : Serving ι π σ δ τ}

/-- A message for other clients is handled without a response, so the loop goes on. -/
theorem Chat.onFrame_run {writer : ConnectionWriter π} {msg : MUSMessage} {packet : List UInt8}
    (h : Chat srv.maxMessageSize msg packet) (hwriter : srv.ctx.connWriter = some writer)
    (hplain : srv.ctx.allEncrypted = false) (conn : ι) (now : ℤ) (allowed : Bool)
    (w : World π σ δ τ) (id : GoString)
    (hsize : srv.maxMessageSize + (srv.currentID conn w.conns).length + 1 < 2 ^ 31) :
    ∃ w', (srv.frameServer conn now allowed).onFrame (w, id) packet =
        ((w', srv.currentID conn w.conns), true) ∧
      w'.offered = w.offered ++ (srv.handled conn now allowed w w').offered ∧
      Relayed srv.ctx msg (srv.handled conn now allowed w w') := by
  cases allowed with
  | false =>
    refine ⟨w, rfl, by simp [TCPServer.handled], ⟨fun _ => ?_, nofun⟩⟩
    simp [TCPServer.handled]
  | true =>
    obtain ⟨data, conns, hreads, hrun⟩ := h.handleRawMessage_run hwriter hplain now hsize w
    refine ⟨{ w with
      conns := conns
      sessions := (srv.updateLastActivity (srv.currentID conn w.conns) w.sessions).2
      offered := w.offered ++ (receivers srv.ctx w.sessions (srv.currentID conn w.conns)
        (recipientOf msg)).map (·, data) }, ?_, ?_, ⟨nofun, fun _ => ⟨data, ?_, hreads⟩⟩⟩
    · simp [FrameServer.onFrame, TCPServer.frameServer, hrun]
    · simp [TCPServer.handled]
    · simp [TCPServer.handled]

variable [DecidableEq ι]

/-- What a step does, said once. -/
inductive Turn (srv : TCPServer ι π σ δ τ) (s : Serving ι π σ δ τ) : Serving ι π σ δ τ → Prop
  | read (conn : ι) (chunk : List UInt8) :
    Turn srv s
      { s with
        acc := Function.update s.acc conn (s.acc conn ++ chunk)
        received := Function.update s.received conn (s.received conn ++ chunk) }
  | readFails (conn : ι) :
    Turn srv s
      { s with
        closed := Function.update s.closed conn true
        readFailed := Function.update s.readFailed conn true }
  | broken (conn : ι) (error : FrameError) :
    nextFrame srv.maxMessageSize (s.acc conn) = .fail error →
    Turn srv s { s with closed := Function.update s.closed conn true }
  | frame (conn : ι) (now : ℤ) (allowed : Bool) (frame rest : List UInt8) :
    s.closed conn = false → nextFrame srv.maxMessageSize (s.acc conn) = .emit frame rest →
    Turn srv s (srv.take s conn now allowed frame rest)
  | other (w : World π σ δ τ) : w.offered = s.world.offered → Turn srv s { s with world := w }

theorem turn_of_step {e : ServerEvent ι π σ δ τ} (h : srv.step s e = some s') :
    Turn srv s s' := by
  cases e with
  | read conn chunk =>
    simp only [TCPServer.step] at h
    split_ifs at h
    split at h
    · obtain rfl := Option.some.inj h
      exact .read conn chunk
    · cases h
  | readFails conn =>
    simp only [TCPServer.step] at h
    split_ifs at h
    split at h
    · obtain rfl := Option.some.inj h
      exact .readFails conn
    · cases h
  | frame conn now allowed =>
    simp only [TCPServer.step] at h
    split_ifs at h with hclosed
    have hopen : s.closed conn = false := by simpa using hclosed
    split at h
    · cases h
    · rename_i error hfail
      obtain rfl := Option.some.inj h
      exact .broken conn error hfail
    · rename_i frame rest hemit
      obtain rfl := Option.some.inj h
      exact .frame conn now allowed frame rest hopen hemit
  | other change =>
    obtain rfl := Option.some.inj h
    exact .other _ rfl

/-- What the frames of a message for other clients do to the server. -/
theorem Chat.take {writer : ConnectionWriter π} {msg : MUSMessage} {packet : List UInt8}
    (h : Chat srv.maxMessageSize msg packet) (hwriter : srv.ctx.connWriter = some writer)
    (hplain : srv.ctx.allEncrypted = false) {conn : ι} (hopen : s.closed conn = false) (now : ℤ)
    (allowed : Bool) (rest : List UInt8)
    (hsize : srv.maxMessageSize + (srv.currentID conn s.world.conns).length + 1 < 2 ^ 31) :
    ∃ e w, e.conn = conn ∧ Relayed srv.ctx msg e ∧ w.offered = s.world.offered ++ e.offered ∧
      srv.take s conn now allowed packet rest =
        { s with
          world := w
          acc := Function.update s.acc conn rest
          log := s.log ++ [e] } := by
  obtain ⟨w, hrun, hoffered, hrelayed⟩ :=
    h.onFrame_run hwriter hplain conn now allowed s.world [] hsize
  refine ⟨srv.handled conn now allowed s.world w, w, rfl, hrelayed, hoffered, ?_⟩
  have hclosed : Function.update s.closed conn (!true) = s.closed := by
    rw [Bool.not_true, ← hopen, Function.update_eq_self]
  simp only [TCPServer.take, hrun, hclosed]

/-- The bytes of messages one after another. -/
def stream (sent : List (MUSMessage × List UInt8)) : List UInt8 := (sent.map Prod.snd).flatten

/-- Of a stream of messages that has come in up to some point, the loop cuts off the next
message or waits for more bytes. -/
theorem nextFrame_stream {maxSize : ℕ} (hmax : maxSize < 2 ^ 31)
    {todo : List (MUSMessage × List UInt8)} (hchat : ∀ m ∈ todo, Chat maxSize m.1 m.2)
    {acc unread : List UInt8} (hstream : acc ++ unread = stream todo) :
    (nextFrame maxSize acc = .need ∧ (unread = [] → todo = [])) ∨
      ∃ msg packet rest later, todo = (msg, packet) :: later ∧
        nextFrame maxSize acc = .emit packet rest ∧ rest ++ unread = stream later := by
  cases todo with
  | nil =>
    obtain ⟨rfl, -⟩ := List.append_eq_nil_iff.mp hstream
    exact .inl ⟨rfl, fun _ => rfl⟩
  | cons m later =>
    have hwhole : nextFrame maxSize (acc ++ unread) = .emit m.2 (stream later) := by
      rw [hstream]
      exact (hchat m List.mem_cons_self).frame hmax (stream later)
    cases hacc : nextFrame maxSize acc with
    | need =>
      refine .inl ⟨rfl, fun hunread => ?_⟩
      rw [hunread, List.append_nil, hacc] at hwhole
      cases hwhole
    | fail error =>
      rw [nextFrame_fail hacc unread] at hwhole
      cases hwhole
    | emit frame rest =>
      rw [(nextFrame_emit hacc).2.2 unread, Split.emit.injEq] at hwhole
      obtain ⟨rfl, hrest⟩ := hwhole
      exact .inr ⟨m.1, m.2, rest, later, rfl, rfl, hrest⟩

/-- Where a connection stands: its loop has ended only if reading from it failed, some of its
messages have been relayed, and what was read of the others waits in the accumulator. -/
def Progress (ctx : Context π σ δ τ) (sent : List (MUSMessage × List UInt8))
    (s : Serving ι π σ δ τ) (conn : ι) : Prop :=
  (s.closed conn = true → s.readFailed conn = true) ∧ ∃ done todo, sent = done ++ todo ∧
    List.Forall₂ (fun m e => Relayed ctx m.1 e) done (s.logOf conn) ∧
    s.received conn = stream done ++ s.acc conn

/-- What happens next on a connection with so many bytes still to come. -/
theorem Progress.next {ctx : Context π σ δ τ} {sent : List (MUSMessage × List UInt8)} {conn : ι}
    {maxSize : ℕ} {unread : List UInt8} (h : Progress ctx sent s conn) (hmax : maxSize < 2 ^ 31)
    (hchat : ∀ m ∈ sent, Chat maxSize m.1 m.2)
    (hunread : s.received conn ++ unread = stream sent) :
    ∃ done todo, sent = done ++ todo ∧
      List.Forall₂ (fun m e => Relayed ctx m.1 e) done (s.logOf conn) ∧
      s.received conn = stream done ++ s.acc conn ∧
      ((nextFrame maxSize (s.acc conn) = .need ∧ (unread = [] → todo = [])) ∨
        ∃ msg packet rest later, todo = (msg, packet) :: later ∧
          nextFrame maxSize (s.acc conn) = .emit packet rest) := by
  obtain ⟨-, done, todo, hsent, hdone, hreceived⟩ := h
  have hsplit : stream sent = stream done ++ stream todo := by simp [stream, hsent]
  rw [hreceived, hsplit, List.append_assoc, List.append_cancel_left_eq] at hunread
  have htodo : ∀ m ∈ todo, Chat maxSize m.1 m.2 := fun m hm =>
    hchat m (hsent ▸ List.mem_append_right done hm)
  refine ⟨done, todo, hsent, hdone, hreceived, ?_⟩
  obtain hneed | ⟨msg, packet, rest, later, hcons, hemit, -⟩ :=
    nextFrame_stream hmax htodo hunread
  · exact .inl hneed
  · exact .inr ⟨msg, packet, rest, later, hcons, hemit⟩

/-- The frames of other connections are no concern of this one. -/
theorem Progress.congr {ctx : Context π σ δ τ} {sent : List (MUSMessage × List UInt8)} {conn : ι}
    (h : Progress ctx sent s conn) (hclosed : s'.closed conn = s.closed conn)
    (hfailed : s'.readFailed conn = s.readFailed conn)
    (hlog : s'.logOf conn = s.logOf conn) (hreceived : s'.received conn = s.received conn)
    (hacc : s'.acc conn = s.acc conn) : Progress ctx sent s' conn := by
  unfold Progress
  rw [hclosed, hfailed, hlog, hreceived, hacc]
  exact h

/-- The writes are those that were made for the frames, and every connection makes progress. -/
structure Relays (srv : TCPServer ι π σ δ τ) (before : List (GoString × List UInt8))
    (sent : ι → List (MUSMessage × List UInt8)) (s : Serving ι π σ δ τ) : Prop where
  offered : s.world.offered = before ++ s.log.flatMap (·.offered)
  progress : ∀ conn, Progress srv.ctx (sent conn) s conn

theorem relays_start (srv : TCPServer ι π σ δ τ) (w : World π σ δ τ)
    (sent : ι → List (MUSMessage × List UInt8)) :
    Relays srv w.offered sent (Serving.start w) where
  offered := by simp [Serving.start]
  progress conn := ⟨nofun, [], sent conn, rfl, .nil, rfl⟩

/-- Nothing that was read or written down is taken back. -/
theorem Turn.monotone (h : Turn srv s s') :
    s.log <+: s'.log ∧ ∀ conn, s.received conn <+: s'.received conn := by
  cases h with
  | read conn chunk =>
    refine ⟨List.prefix_rfl, fun conn' => ?_⟩
    rcases eq_or_ne conn' conn with rfl | hne
    · simp
    · simp [Function.update_of_ne hne]
  | readFails => exact ⟨List.prefix_rfl, fun _ => List.prefix_rfl⟩
  | broken => exact ⟨List.prefix_rfl, fun _ => List.prefix_rfl⟩
  | frame conn now allowed frame rest =>
    exact ⟨List.prefix_append _ _, fun _ => List.prefix_rfl⟩
  | other => exact ⟨List.prefix_rfl, fun _ => List.prefix_rfl⟩

section Step

variable {writer : ConnectionWriter π} {before : List (GoString × List UInt8)}
  {sent : ι → List (MUSMessage × List UInt8)}

theorem Relays.read (h : Relays srv before sent s) (conn : ι) (chunk : List UInt8) :
    Relays srv before sent
      { s with
        acc := Function.update s.acc conn (s.acc conn ++ chunk)
        received := Function.update s.received conn (s.received conn ++ chunk) } := by
  refine ⟨h.offered, fun conn' => ?_⟩
  rcases eq_or_ne conn' conn with rfl | hne
  · obtain ⟨hclosed, done, todo, hsent, hdone, hreceived⟩ := h.progress conn'
    refine ⟨hclosed, done, todo, hsent, hdone, ?_⟩
    simp [hreceived]
  · exact (h.progress conn').congr rfl rfl rfl (Function.update_of_ne hne _ _)
      (Function.update_of_ne hne _ _)

theorem Relays.readFails (h : Relays srv before sent s) (conn : ι) :
    Relays srv before sent
      { s with
        closed := Function.update s.closed conn true
        readFailed := Function.update s.readFailed conn true } := by
  refine ⟨h.offered, fun conn' => ?_⟩
  rcases eq_or_ne conn' conn with rfl | hne
  · exact ⟨fun _ => Function.update_self .., (h.progress conn').2⟩
  · exact (h.progress conn').congr (Function.update_of_ne hne _ _) (Function.update_of_ne hne _ _)
      rfl rfl rfl

/-- A stream of messages for others is never taken for a broken one. -/
theorem Relays.not_broken (h : Relays srv before sent s) (hmax : srv.maxMessageSize < 2 ^ 31)
    (hchat : ∀ conn, ∀ m ∈ sent conn, Chat srv.maxMessageSize m.1 m.2) {conn : ι}
    (hread : s.received conn <+: stream (sent conn)) (error : FrameError) :
    nextFrame srv.maxMessageSize (s.acc conn) ≠ .fail error := by
  obtain ⟨unread, hunread⟩ := hread
  obtain ⟨_, _, -, -, -, ⟨hneed, -⟩ | ⟨_, _, _, _, -, hemit⟩⟩ :=
    (h.progress conn).next hmax (hchat conn) hunread
  · simp [hneed]
  · simp [hemit]

/-- The next frame is the next message, and it is relayed. -/
theorem Relays.frame (h : Relays srv before sent s) (hwriter : srv.ctx.connWriter = some writer)
    (hplain : srv.ctx.allEncrypted = false) (hmax : srv.maxMessageSize < 2 ^ 31)
    (hchat : ∀ conn, ∀ m ∈ sent conn, Chat srv.maxMessageSize m.1 m.2) {conn : ι}
    (hread : s.received conn <+: stream (sent conn)) (hopen : s.closed conn = false)
    (hsize : srv.maxMessageSize + (srv.currentID conn s.world.conns).length + 1 < 2 ^ 31)
    (now : ℤ) (allowed : Bool) {frame rest : List UInt8}
    (hemit : nextFrame srv.maxMessageSize (s.acc conn) = .emit frame rest) :
    Relays srv before sent (srv.take s conn now allowed frame rest) := by
  obtain ⟨unread, hunread⟩ := hread
  obtain ⟨done, todo, hsent, hdone, hreceived,
    ⟨hneed, -⟩ | ⟨msg, packet, rest', later, rfl, hemit'⟩⟩ :=
    (h.progress conn).next hmax (hchat conn) hunread
  · rw [hneed] at hemit
    cases hemit
  rw [hemit', Split.emit.injEq] at hemit
  obtain ⟨rfl, rfl⟩ := hemit
  have hmsg : Chat srv.maxMessageSize msg packet := hchat conn (msg, packet) (by simp [hsent])
  obtain ⟨e, w, rfl, hrelayed, hoffered, htake⟩ :=
    hmsg.take hwriter hplain hopen now allowed rest' hsize
  rw [htake]
  refine ⟨by simp [hoffered, h.offered], fun conn' => ?_⟩
  rcases eq_or_ne conn' e.conn with rfl | hne
  · refine ⟨(h.progress e.conn).1, done ++ [(msg, packet)], later, by simp [hsent], ?_, ?_⟩
    · have hlog : s.logOf e.conn ++ [e] = (s.log ++ [e]).filter (·.conn = e.conn) := by
        simp [Serving.logOf]
      simp only [Serving.logOf] at hlog ⊢
      rw [← hlog]
      exact List.rel_append hdone (.cons hrelayed .nil)
    · simp [hreceived, stream, (nextFrame_emit hemit').1]
  · refine (h.progress conn').congr rfl rfl ?_ rfl (Function.update_of_ne hne _ _)
    simp [Serving.logOf, hne.symm]

theorem Relays.step (h : Relays srv before sent s) (hwriter : srv.ctx.connWriter = some writer)
    (hplain : srv.ctx.allEncrypted = false) (hmax : srv.maxMessageSize < 2 ^ 31)
    (hchat : ∀ conn, ∀ m ∈ sent conn, Chat srv.maxMessageSize m.1 m.2)
    (hread : ∀ conn, s.received conn <+: stream (sent conn)) (hturn : Turn srv s s')
    (hsize : ∀ e ∈ s'.log, srv.maxMessageSize + e.clientID.length + 1 < 2 ^ 31) :
    Relays srv before sent s' := by
  cases hturn with
  | read conn chunk => exact h.read conn chunk
  | readFails conn => exact h.readFails conn
  | broken conn error hfail => exact absurd hfail (h.not_broken hmax hchat (hread conn) error)
  | frame conn now allowed frame rest hopen hemit =>
    have hid := hsize _ (List.mem_append_right _ (List.mem_singleton_self _))
    exact h.frame hwriter hplain hmax hchat (hread conn) hopen hid now allowed hemit
  | other w hw => exact ⟨hw.trans h.offered, h.progress⟩

end Step

/-- Clients that send messages for others, in whatever pieces they arrive and whatever else
goes on, are not dropped by the server: the loop of a connection ends only when reading from it
fails. Of each client some messages have been dealt with, in order and each once: refused by the
rate limiter, or written to those who were to receive it then, under the identity of the
connection, and read back with its subject and content. What else was read waits in the
accumulator. For the frames nothing else is written, and when all has been read and no frame is
left, every message has been dealt with. -/
theorem messages_relayed (srv : TCPServer ι π σ δ τ) {writer : ConnectionWriter π}
    (hwriter : srv.ctx.connWriter = some writer) (hplain : srv.ctx.allEncrypted = false)
    (hmax : srv.maxMessageSize < 2 ^ 31) {sent : ι → List (MUSMessage × List UInt8)}
    (hchat : ∀ conn, ∀ m ∈ sent conn, Chat srv.maxMessageSize m.1 m.2)
    {w : World π σ δ τ} {events : List (ServerEvent ι π σ δ τ)} {s : Serving ι π σ δ τ}
    (hrun : runFrom srv.step (Serving.start w) events = some s)
    (hsize : ∀ e ∈ s.log, srv.maxMessageSize + e.clientID.length + 1 < 2 ^ 31)
    (hread : ∀ conn, s.received conn <+: stream (sent conn)) :
    s.world.offered = w.offered ++ s.log.flatMap (·.offered) ∧
    ∀ conn, Progress srv.ctx (sent conn) s conn ∧
      (s.received conn = stream (sent conn) →
        nextFrame srv.maxMessageSize (s.acc conn) = .need →
        List.Forall₂ (fun m e => Relayed srv.ctx m.1 e) (sent conn) (s.logOf conn) ∧
          s.acc conn = []) := by
  -- the streams and the identities are known at the end of the run only, so an earlier state
  -- keeps the invariant if what it has read and written down is a prefix
  have hrelays := invariant_run
    (I := fun s : Serving ι π σ δ τ =>
      (∀ e ∈ s.log, srv.maxMessageSize + e.clientID.length + 1 < 2 ^ 31) →
      (∀ conn, s.received conn <+: stream (sent conn)) → Relays srv w.offered sent s)
    (P := fun _ _ => True)
    (fun _ _ _ hbefore _ hstep hsize hafter =>
      have hturn := turn_of_step hstep
      have hearlier := fun conn => (hturn.monotone.2 conn).trans (hafter conn)
      have hlogged := hbefore (fun e he => hsize e (hturn.monotone.1.subset he)) hearlier
      hlogged.step hwriter hplain hmax hchat hearlier hturn hsize)
    (fun _ _ => relays_start srv w sent) (along_of_forall (P := fun _ => True)
      (fun _ _ => trivial) _) hrun hsize hread
  refine ⟨hrelays.offered, fun conn => ⟨hrelays.progress conn, fun hall hneed => ?_⟩⟩
  obtain ⟨done, todo, hsent, hdone, hreceived, ⟨-, hlast⟩ | ⟨_, _, _, _, -, hemit⟩⟩ :=
    (hrelays.progress conn).next hmax (hchat conn) ((List.append_nil _).trans hall)
  · obtain rfl := hlast rfl
    rw [List.append_nil] at hsent
    subst hsent
    refine ⟨hdone, ?_⟩
    rw [hall] at hreceived
    exact List.self_eq_append_right.mp hreceived
  · rw [hemit] at hneed
    cases hneed

end Runs

section Examples

/-- Alice and bob have logged on. -/
def chatPool : ConnPool Bool :=
  (ConnPool.new.register true (lit "alice")).register false (lit "bob")

/-- A server over the connection pool. -/
def chatServer : TCPServer Bool (ConnPool Bool) MemorySessionStore Unit Unit where
  ctx := { standalone ∅ with
    connWriter := some Sessions.poolWriter
    scriptEngine := none }
  maxMessageSize := 64
  currentID conn pool := pool.currentID conn
  updateLastActivity _ s := (.ok (), s)

def chatWorld : World (ConnPool Bool) MemorySessionStore Unit Unit :=
  { Local.empty with conns := chatPool }

/-- Alice's message to bob; it claims to be eve's. -/
def greeting : MUSMessage :=
  newResponse 0 (lit "chat") (lit "eve") [lit "bob"] errNoError (.integer 5)

def greetingPacket : List UInt8 := greeting.getBytes.getD []

def greetingSent (conn : Bool) : List (MUSMessage × List UInt8) :=
  if conn then [(greeting, greetingPacket)] else []

/-- It arrives in two pieces. -/
def greetingEvents : List (ServerEvent Bool (ConnPool Bool) MemorySessionStore Unit Unit) :=
  [.read true (greetingPacket.take 9), .read true (greetingPacket.drop 9), .frame true 7 true]

theorem chat_greeting : Chat 64 greeting greetingPacket where
  lengths := ⟨rfl, rfl, by decide⟩
  carries := ⟨greeting.msgContent.getBytes.getD [],
    .inr ⟨by decide +kernel, by decide +kernel, by decide +kernel⟩⟩
  getBytes := by decide +kernel
  fits := by decide +kernel
  subject := by decide +kernel
  addressed := by decide +kernel
  recipient := by decide +kernel

/-- Bob is written one packet, and reads it as alice's greeting. -/
theorem messages_relayed_greeting : ∃ s data,
    runFrom chatServer.step (Serving.start chatWorld) greetingEvents = some s ∧
      s.world.offered = [(lit "bob", data)] ∧
      ReadsAs data (relay 7 (lit "alice") greeting) := by
  have hany : (runFrom chatServer.step (Serving.start chatWorld) greetingEvents).any
      (fun s => decide ((∀ conn, s.received conn = stream (greetingSent conn)) ∧
        s.acc true = [] ∧ s.log.map (fun e => (e.conn, e.now, e.allowed, e.clientID)) =
          [(true, 7, true, lit "alice")])) = true := by
    decide +kernel
  obtain ⟨s, hrun, hs⟩ := exists_run_of_any hany
  simp only [decide_eq_true_eq] at hs
  obtain ⟨hreceived, hacc, hlog⟩ := hs
  have hchat : ∀ conn, ∀ m ∈ greetingSent conn, Chat 64 m.1 m.2 := by
    intro conn m hm
    cases conn with
    | false => cases hm
    | true =>
      obtain rfl := List.mem_singleton.mp hm
      exact chat_greeting
  obtain ⟨e, hsingle, he⟩ := List.map_eq_singleton_iff.mp hlog
  obtain ⟨hconn, hnow, hallowed, hclient⟩ : e.conn = true ∧ e.now = 7 ∧ e.allowed = true ∧
      e.clientID = lit "alice" := by simpa using he
  have hsize : ∀ e' ∈ s.log, 64 + e'.clientID.length + 1 < 2 ^ 31 := by
    rw [hsingle]
    refine List.forall_mem_singleton.mpr ?_
    rw [hclient]
    decide
  obtain ⟨hoffered, hconns⟩ := messages_relayed chatServer
    (rfl : chatServer.ctx.connWriter = some Sessions.poolWriter) rfl (by decide) hchat hrun hsize
    (fun conn => by rw [hreceived conn])
  obtain ⟨hrelayed, -⟩ := (hconns true).2 (hreceived true) (by rw [hacc]; rfl)
  have hlogOf : s.logOf true = [e] := by simp [Serving.logOf, hsingle, hconn]
  rw [hlogOf] at hrelayed
  obtain ⟨data, hdata, hreads⟩ := (List.forall₂_cons.mp hrelayed).1.allowed hallowed
  have hreceivers : receivers chatServer.ctx e.sessions e.clientID (recipientOf greeting) =
      [lit "bob"] := rfl
  refine ⟨s, data, hrun, ?_, ?_⟩
  · simpa [hsingle, hdata, hreceivers, chatWorld, Local.empty] using hoffered
  · simpa only [hnow, hclient] using hreads

/-- The loop of a connection whose writes all succeed. -/
def openLoop : FrameServer (Local × GoString) :=
  TCPServer.frameServer ⟨standalone ∅, 64, fun (_ : Unit) _ => lit "1.2.3.4:50",
    fun _ s => (.ok (), s)⟩ () 7 true

/-- A logon without a content, but for its header. -/
def bareLogon : List UInt8 := ((commandMessage (lit "Logon") .nil).getBytes.getD []).drop 6

/-- Every write succeeds, and both frames are within the limit; but the handler panics on the
logon without a content, and the frame behind it is never handed over. -/
theorem readLoop_panic_ends :
    (∀ s response, (openLoop.writeToClient s response).2 = true) ∧
      (∀ p ∈ [bareLogon, greetingPacket.drop 6],
        p.length < 2 ^ 32 ∧ (frameBytes p).length ≤ 64) ∧
      (readLoop openLoop 64 (Local.empty, [])
        [frameBytes bareLogon ++ frameBytes (greetingPacket.drop 6)]).frames =
          [frameBytes bareLogon] ∧
      (readLoop openLoop 64 (Local.empty, [])
        [frameBytes bareLogon ++ frameBytes (greetingPacket.drop 6)]).ended = some .consumer := by
  refine ⟨fun _ _ => rfl, ?_, ?_, ?_⟩
  · decide +kernel
  · decide +kernel
  · decide +kernel

end Examples

end Musgos.Inbound
