import Musgos.Mus.Movie

/-!
# Server, movie, group and user commands

The handlers of `system_service_server.go`, `system_service_movie.go`,
`system_service_group.go` and `system_service_user.go`. Each check of a permission
stands in the handler that makes it: mail, kill timers and the deletion of a user
have one, the others do not.
-/
namespace Musgos.Mus

open Foundation Lingo Domain Services Smus

variable {π σ δ τ : Type} (ctx : Context π σ δ τ) (now : ℤ) (senderID : GoString)
  (msg : MUSMessage)

section Server

def serverVersion : GoString := lit "MUSGoS/0.1.0"

def handleServerGetVersion : Run π σ δ τ MUSMessage :=
  respond now senderID msg (pure (.string serverVersion))

def handleServerGetTime : Run π σ δ τ MUSMessage :=
  respond now senderID msg (pure (.integer (Int32.ofInt now)))

def handleServerGetUserCount : Run π σ δ τ MUSMessage := respond now senderID msg do
  let conns ← orReply errServerInternalError (← readSessions ctx.sessions.getAllConnections)
  return countValue conns.length

def handleServerGetMovieCount : Run π σ δ τ MUSMessage := respond now senderID msg do
  return countValue (← getMovies ctx).length

def handleServerGetMovies : Run π σ δ τ MUSMessage := respond now senderID msg do
  return nameList (← getMovies ctx)

/-- An element of the mail that may be missing. -/
def mailText (ps vs : List LValue) (name : GoString) : Body π σ δ τ GoString := do
  match ← orPanic (LValue.getElement ps vs name) with
  | none => return []
  | some value => orPanic value.stringValue

/-- `SendEmail`, recorded whether it fails or not. -/
def sendEmail (send : EmailMessage → Bool) (mail : EmailMessage) : Body π σ δ τ Bool := fun w =>
  .ok (send mail) { w with mails := w.mails ++ [mail] }

def handleServerSendEmail : Run π σ δ τ MUSMessage := respond now senderID msg do
  requireLevel ctx senderID msg.subject.value
  let some send := ctx.emailSender | reply errServerInternalError
  let .propList ps vs := msg.msgContent | reply errInvalidMessageFormat
  let sender ← mailText ps vs (lit "sender")
  let recipient ← mailText ps vs (lit "recipient")
  let subject ← mailText ps vs (lit "subject")
  let smtpHost ← mailText ps vs (lit "SMTPhost")
  let body ← mailText ps vs (lit "data")
  if recipient = [] ∨ smtpHost = [] then reply errInvalidMessageFormat
  if ← sendEmail send ⟨sender, recipient, subject, smtpHost, body⟩ then return .void
  reply errServerInternalError

/-- `time.Duration(minutes) * time.Minute` wraps around in 64 bits. -/
def killTimer (minutes : ℤ) : ArmedTimer := ⟨now, Int64.ofInt (minutes * 60000000000)⟩

def handleServerSetKillTimer : Run π σ δ τ MUSMessage := respond now senderID msg do
  requireLevel ctx senderID msg.subject.value
  if !ctx.hasTimerManager then reply errServerInternalError
  let minutes ← orPanic msg.msgContent.toInteger
  if minutes.toInt ≤ 0 then reply errInvalidMessageFormat
  modify fun w => { w with serverTimer := some (killTimer now minutes.toInt) }
  return .void

def handleServerCancelKillTimer : Run π σ δ τ MUSMessage := respond now senderID msg do
  requireLevel ctx senderID msg.subject.value
  if !ctx.hasTimerManager then reply errServerInternalError
  modify fun w => { w with serverTimer := none }
  return .void

end Server

section Movie

def handleMovieGetUserCount : Run π σ δ τ MUSMessage := respond now senderID msg do
  let movieID ← requireMovieID ctx senderID
  let users ← orReply errServerInternalError (← getMovieUsers ctx movieID)
  return countValue users.length

def handleMovieGetGroups : Run π σ δ τ MUSMessage := respond now senderID msg do
  let movie ← requireMovie (← requireMovieID ctx senderID)
  return nameList (movie.groupNames ctx)

def handleMovieGetGroupCount : Run π σ δ τ MUSMessage := respond now senderID msg do
  let movie ← requireMovie (← requireMovieID ctx senderID)
  return countValue movie.groups.keys.card

end Movie

section Group

def handleGroupJoin : Run π σ δ τ MUSMessage := respond now senderID msg do
  let groupName ← requireString msg.msgContent
  let movieID ← requireMovieID ctx senderID
  let _ ← requireMovie movieID
  ensureGroup movieID groupName
  if ← joinGroup ctx movieID groupName senderID then return .void
  reply errServerInternalError

def handleGroupLeave : Run π σ δ τ MUSMessage := respond now senderID msg do
  let groupName ← requireString msg.msgContent
  let movieID ← requireMovieID ctx senderID
  if ← leaveGroup ctx movieID groupName senderID then return .void
  reply errServerInternalError

def handleGroupGetUsers : Run π σ δ τ MUSMessage := respond now senderID msg do
  let groupName ← requireString msg.msgContent
  let movieID ← requireMovieID ctx senderID
  let members ← orReply errServerInternalError (← getGroupMembers ctx movieID groupName)
  return nameList members

def handleGroupGetUserCount : Run π σ δ τ MUSMessage := respond now senderID msg do
  let groupName ← requireString msg.msgContent
  let movieID ← requireMovieID ctx senderID
  let members ← orReply errServerInternalError (← getGroupMembers ctx movieID groupName)
  return countValue members.length

def handleGroupSetAttribute : Run π σ δ τ MUSMessage := respond now senderID msg do
  let f ← requireFields msg.msgContent [lit "group", lit "attribute", lit "value"]
  let groupName ← f.text (lit "group")
  let attrName ← f.text (lit "attribute")
  let (movieID, group) ← requireGroup ctx senderID groupName
  putGroup movieID groupName ⟨group.attributes.insert attrName (f.get (lit "value"))⟩
  return .void

def handleGroupGetAttribute : Run π σ δ τ MUSMessage := respond now senderID msg do
  let f ← requireFields msg.msgContent [lit "group", lit "attribute"]
  let groupName ← f.text (lit "group")
  let attrName ← f.text (lit "attribute")
  let (_, group) ← requireGroup ctx senderID groupName
  return (group.attributes.lookup attrName).getD .void

def handleGroupDeleteAttribute : Run π σ δ τ MUSMessage := respond now senderID msg do
  let f ← requireFields msg.msgContent [lit "group", lit "attribute"]
  let groupName ← f.text (lit "group")
  let attrName ← f.text (lit "attribute")
  let (movieID, group) ← requireGroup ctx senderID groupName
  putGroup movieID groupName ⟨group.attributes.erase attrName⟩
  return .void

def handleGroupGetAttributeNames : Run π σ δ τ MUSMessage := respond now senderID msg do
  let groupName ← requireString msg.msgContent
  let (_, group) ← requireGroup ctx senderID groupName
  return nameList (group.attributeNames ctx)

end Group

section User

def handleUserGetAddress : Run π σ δ τ MUSMessage := respond now senderID msg do
  match ← readSessions (ctx.sessions.getConnection senderID) with
  | .ok (some conn) => return .string conn.ip
  | _ => reply errServerInternalError

/-- The groups of a movie among the rooms of a user: the rooms that start with the
movie's id and a colon, except the movie's own. -/
def groupsAmong (movieID : GoString) (rooms : List GoString) : List GoString :=
  let start := movieID ++ lit ":"
  (rooms.filter fun room => room ≠ movieRoomName movieID ∧ start.isPrefixOf room).map
    (·.drop start.length)

def handleUserGetGroups : Run π σ δ τ MUSMessage := respond now senderID msg do
  let movieID ← requireMovieID ctx senderID
  let rooms ← orReply errServerInternalError (← readSessions (ctx.sessions.getClientRooms senderID))
  return nameList (groupsAmong movieID rooms)

/-- `DisconnectClient`, unless no connection writer was injected. -/
def disconnectClient (clientID : GoString) : Body π σ δ τ Unit := fun w =>
  match ctx.connWriter with
  | none => .ok () w
  | some writer => .ok () { w with conns := (writer.disconnectClient clientID w.conns).2 }

def handleUserDelete : Run π σ δ τ MUSMessage := respond now senderID msg do
  requireLevel ctx senderID msg.subject.value
  let targetUserID ← requireString msg.msgContent
  let _ ← writeSessions (ctx.sessions.leaveAllRooms targetUserID)
  let _ ← writeSessions (ctx.sessions.unregisterConnection targetUserID)
  disconnectClient ctx targetUserID
  return .void

def handleUserSetKillTimer : Run π σ δ τ MUSMessage := respond now senderID msg do
  requireLevel ctx senderID msg.subject.value
  if !ctx.hasTimerManager then reply errServerInternalError
  let f ← requireFields msg.msgContent [lit "userID"]
  let targetUserID ← f.text (lit "userID")
  let f ← requireFields msg.msgContent [lit "minutes"]
  let minutes ← orPanic (f.get (lit "minutes")).toInteger
  if minutes.toInt ≤ 0 then reply errInvalidMessageFormat
  modify fun w =>
    { w with userTimers := w.userTimers.insert targetUserID (killTimer now minutes.toInt) }
  return .void

def handleUserCancelKillTimer : Run π σ δ τ MUSMessage := respond now senderID msg do
  requireLevel ctx senderID msg.subject.value
  if !ctx.hasTimerManager then reply errServerInternalError
  let targetUserID ← requireString msg.msgContent
  modify fun w => { w with userTimers := w.userTimers.erase targetUserID }
  return .void

end User

end Musgos.Mus
