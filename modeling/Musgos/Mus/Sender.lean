import Musgos.Mus.Movie

/-!
# Delivering messages

`Sender`: a message goes to one client or, when the recipient starts with `@`, to a
group of the sender's movie. The movie is recovered from the names of the rooms the
sender is in. A group message is serialized once and offered to every member of the
group's room; a write that fails is logged and the next one is tried.
-/
namespace Musgos.Mus

open Foundation Lingo Domain Services Smus

variable {π σ δ τ : Type} (ctx : Context π σ δ τ) (now : ℤ)

/-- `GetBytes`, encrypted in #All mode. -/
def wireBytes (msg : MUSMessage) : Option (List UInt8) := do
  let bytes ← msg.getBytes
  match ctx.cipher with
  | some c => return if ctx.allEncrypted then c.encrypt bytes else bytes
  | none => return bytes

/-- `WriteToClient`; the sender was given a connection writer or panics here. -/
def offer (clientID : GoString) (data : List UInt8) :
    Run π σ δ τ (Except PortError Unit) := fun w =>
  match ctx.connWriter with
  | none => .error .panic w
  | some writer =>
    let r := writer.writeToClient clientID data w.conns
    .ok r.1 { w with conns := r.2, offered := w.offered ++ [(clientID, data)] }

/-- The loop over the members of a group. -/
def offerEach (data : List UInt8) : List GoString → Run π σ δ τ Unit
  | [] => pure ()
  | memberID :: rest => do
    let _ ← offer ctx memberID data
    offerEach data rest

/-- Why a message was not delivered. -/
inductive DeliveryError where
  | senderRooms
  | notInMovie
  | groupMembers
  | write (e : PortError)
  deriving DecidableEq

/-- The movie of the first room that looks like a movie's; the default movie stands in
for a sender without one. -/
def movieAmong (rooms : List GoString) : GoString :=
  let movieID := match rooms.find? (lit "movie:").isPrefixOf with
    | some room => room.drop (lit "movie:").length
    | none => []
  if movieID = [] then ctx.defaultMovieID else movieID

def deliverToGroup (wireFrom routingSender groupRef subject : GoString) (content : LValue) :
    Run π σ δ τ (Except DeliveryError Unit) := do
  match ← readSessions (ctx.sessions.getClientRooms routingSender) with
  | .error _ => return .error .senderRooms
  | .ok rooms =>
    let movieID := movieAmong ctx rooms
    if movieID = [] then return .error .notInMovie
    match ← readSessions (ctx.sessions.getRoomMembers (groupRoomName movieID groupRef)) with
    | .error _ => return .error .groupMembers
    | .ok members =>
      match wireBytes ctx (newResponse now subject wireFrom [groupRef] errNoError content) with
      | none => throw .panic
      | some data =>
        offerEach ctx data members
        return .ok ()

def sendMessageFrom (wireFrom routingSender recipientID subject : GoString) (content : LValue) :
    Run π σ δ τ (Except DeliveryError Unit) := do
  if (lit "@").isPrefixOf recipientID then
    deliverToGroup ctx now wireFrom routingSender recipientID subject content
  else
    match wireBytes ctx (newResponse now subject wireFrom [recipientID] errNoError content) with
    | none => throw .panic
    | some data =>
      match ← offer ctx recipientID data with
      | .error e => return .error (.write e)
      | .ok _ => return .ok ()

def sendMessage (senderID recipientID subject : GoString) (content : LValue) :
    Run π σ δ τ (Except DeliveryError Unit) :=
  sendMessageFrom ctx now senderID senderID recipientID subject content

section Effects

variable {ctx}

/-- Only a content with a hole in it cannot be sent. -/
theorem wireBytes_isSome {msg : MUSMessage}
    (h : msg.msgContent = .nil ∨ msg.msgContent.WellFormed) : (wireBytes ctx msg).isSome := by
  obtain ⟨bytes, hbytes⟩ := Option.isSome_iff_exists.mp (MUSMessage.getBytes_isSome h)
  unfold wireBytes
  cases ctx.cipher <;> simp [hbytes]

/-- The loop offers the message to every member in turn, whatever the writes return. -/
theorem offerEach_run {writer : ConnectionWriter π} (hwriter : ctx.connWriter = some writer)
    (data : List UInt8) (members : List GoString) (w : World π σ δ τ) : ∃ conns,
    offerEach ctx data members w =
      .ok () { w with conns := conns, offered := w.offered ++ members.map (·, data) } := by
  induction members generalizing w with
  | nil => exact ⟨w.conns, by simp [offerEach, pure, EStateM.pure]⟩
  | cons memberID rest ih =>
    have hoffer : offer ctx memberID data w =
        .ok (writer.writeToClient memberID data w.conns).1 { w with
          conns := (writer.writeToClient memberID data w.conns).2
          offered := w.offered ++ [(memberID, data)] } := by
      simp only [offer, hwriter]
    obtain ⟨conns, hrest⟩ := ih { w with
      conns := (writer.writeToClient memberID data w.conns).2
      offered := w.offered ++ [(memberID, data)] }
    refine ⟨conns, ?_⟩
    rw [offerEach, bind_of_ok hoffer, hrest]
    simp

theorem offer_keepsSessions (clientID : GoString) (data : List UInt8) :
    KeepsSessions (offer ctx clientID data) := by
  intro w
  unfold offer
  split <;> rfl

theorem offerEach_keepsSessions (data : List UInt8) (members : List GoString) :
    KeepsSessions (offerEach ctx data members) := by
  induction members with
  | nil => exact .pure ()
  | cons memberID rest ih => exact .bind (offer_keepsSessions memberID data) fun _ => ih

theorem sendMessage_keepsSessions (senderID recipientID subject : GoString) (content : LValue) :
    KeepsSessions (sendMessage ctx now senderID recipientID subject content) := by
  unfold sendMessage sendMessageFrom deliverToGroup
  split_ifs
  · refine .bind (.read _) fun rooms => ?_
    cases rooms with
    | error e => exact .pure _
    | ok rooms =>
      dsimp only
      split_ifs
      · exact .pure _
      refine .bind (.read _) fun members => ?_
      cases members with
      | error e => exact .pure _
      | ok members =>
        dsimp only
        split
        · exact .throw _
        · exact .bind (offerEach_keepsSessions _ members) fun _ => .pure _
  · split
    · exact .throw _
    · refine .bind (offer_keepsSessions recipientID _) fun result => ?_
      cases result <;> exact .pure _

end Effects

end Musgos.Mus
