import Musgos.Mus.Commands
import Musgos.Mus.DbCommands

/-!
# The system service

Logon, the table of commands, and `Handle`, which looks the subject of a message up
in the table. The logon handler is the only one that reads the sender a message
claims to have.
-/
namespace Musgos.Mus

open Foundation Lingo Domain Services Smus

variable {π σ δ τ : Type}

section Logon

def extractFromList : List LValue → Option (Option LogonCredentials)
  | movie :: user :: pass :: _ => do
    return some ⟨← movie.stringValue, ← user.stringValue, ← pass.stringValue⟩
  | _ => some none

def extractFromPropList (ps vs : List LValue) : Option (Option LogonCredentials) := do
  let some user ← LValue.getElement ps vs (lit "userID") | return none
  let some pass ← LValue.getElement ps vs (lit "password") | return none
  let userID ← user.stringValue
  let password ← pass.stringValue
  match ← LValue.getElement ps vs (lit "movieID") with
  | none => return some ⟨[], userID, password⟩
  | some movie => return some ⟨← movie.stringValue, userID, password⟩

/-- The credentials of a logon message: `some none` is the source's error, `none` a panic. -/
def extractCredentials : LValue → Option (Option LogonCredentials)
  | .list values => extractFromList values
  | .propList ps vs => extractFromPropList ps vs
  | _ => some none

def logonErrCode : LogonCode → Int32
  | .badCredentialsFormat => errInvalidMessageFormat
  | .invalidUser => errInvalidUserID
  | .invalidPassword => errInvalidPassword
  | .refused => errConnectionRefused
  | _ => errServerInternalError

variable (ctx : Context π σ δ τ) (now : ℤ)

def runLogon (req : LogonRequest) : Run π σ δ τ LogonResult := fun w =>
  let r := ctx.logon now req w.toBackend
  .ok r.1 { w with toBackend := r.2 }

/-- What follows a successful logon: the user joins the movie, which is then cached. -/
def enterMovie (userID movieID : GoString) : Run π σ δ τ Unit := do
  if movieID ≠ [] then
    if ← joinMovie ctx movieID userID then
      let _ ← writeSessions
        (ctx.sessions.setUserAttribute userID movieIDAttribute (.string movieID))

def logonResponse (userID : GoString) (code : Int32) : MUSMessage :=
  newResponse now (lit "Logon") (lit "System") [userID] code .void

/-- The request of a logon message. The handler logs the text of the content before
anything else. -/
def logonRequest (connectionID : GoString) (msg : MUSMessage) : Option LogonRequest := do
  let _ ← msg.msgContent.toString
  return ⟨connectionID, msg.senderID.value, ← extractCredentials msg.msgContent⟩

theorem logonRequest_connectionID {connectionID : GoString} {msg : MUSMessage} {req : LogonRequest}
    (h : logonRequest connectionID msg = some req) : req.connectionID = connectionID := by
  simp only [logonRequest, Option.bind_eq_bind, Option.bind_eq_some_iff, Option.pure_def,
    Option.some.injEq] at h
  obtain ⟨_, -, _, -, rfl⟩ := h
  rfl

def handleLogon (connectionID : GoString) (msg : MUSMessage) : Run π σ δ τ MUSMessage := do
  match logonRequest connectionID msg with
  | none => throw .panic
  | some req =>
    let res ← runLogon ctx now req
    if res.code ≠ .ok then return logonResponse now res.userID (logonErrCode res.code)
    enterMovie ctx res.userID res.movieID
    return logonResponse now res.userID errNoError

end Logon

abbrev Handler (π σ δ τ : Type) := GoString → MUSMessage → Run π σ δ τ MUSMessage

variable (ctx : Context π σ δ τ) (now : ℤ)

/-- The table of `NewSystemService`. -/
def handlers : List (GoString × Handler π σ δ τ) :=
  [(lit "Logon", handleLogon ctx now),
    (lit "system.server.getVersion", handleServerGetVersion now),
    (lit "system.server.getTime", handleServerGetTime now),
    (lit "system.server.getUserCount", handleServerGetUserCount ctx now),
    (lit "system.server.getMovieCount", handleServerGetMovieCount ctx now),
    (lit "system.server.getMovies", handleServerGetMovies ctx now),
    (lit "system.movie.getUserCount", handleMovieGetUserCount ctx now),
    (lit "system.movie.getGroups", handleMovieGetGroups ctx now),
    (lit "system.movie.getGroupCount", handleMovieGetGroupCount ctx now),
    (lit "system.group.join", handleGroupJoin ctx now),
    (lit "JoinGroup", handleGroupJoin ctx now),
    (lit "system.group.leave", handleGroupLeave ctx now),
    (lit "LeaveGroup", handleGroupLeave ctx now),
    (lit "system.group.getUsers", handleGroupGetUsers ctx now),
    (lit "system.group.getUserCount", handleGroupGetUserCount ctx now),
    (lit "system.group.setAttribute", handleGroupSetAttribute ctx now),
    (lit "system.group.getAttribute", handleGroupGetAttribute ctx now),
    (lit "system.group.deleteAttribute", handleGroupDeleteAttribute ctx now),
    (lit "system.group.getAttributeNames", handleGroupGetAttributeNames ctx now),
    (lit "system.user.getAddress", handleUserGetAddress ctx now),
    (lit "system.user.getGroups", handleUserGetGroups ctx now),
    (lit "system.user.delete", handleUserDelete ctx now),
    (lit "DBPlayer.getAttribute", handleDBPlayerGetAttribute ctx now),
    (lit "DBPlayer.setAttribute", handleDBPlayerSetAttribute ctx now),
    (lit "DBPlayer.deleteAttribute", handleDBPlayerDeleteAttribute ctx now),
    (lit "DBPlayer.getAttributeNames", handleDBPlayerGetAttributeNames ctx now),
    (lit "DBApplication.getAttribute", handleDBApplicationGetAttribute ctx now),
    (lit "DBApplication.setAttribute", handleDBApplicationSetAttribute ctx now),
    (lit "DBApplication.deleteAttribute", handleDBApplicationDeleteAttribute ctx now),
    (lit "DBApplication.getAttributeNames", handleDBApplicationGetAttributeNames ctx now),
    (lit "DBAdmin.createApplication", handleDBAdminCreateApplication ctx now),
    (lit "DBAdmin.deleteApplication", handleDBAdminDeleteApplication ctx now),
    (lit "DBAdmin.createUser", handleDBAdminCreateUser ctx now),
    (lit "DBAdmin.deleteUser", handleDBAdminDeleteUser ctx now),
    (lit "DBAdmin.getUserCount", handleDBAdminGetUserCount ctx now),
    (lit "DBAdmin.ban", handleDBAdminBan ctx now),
    (lit "DBAdmin.revokeBan", handleDBAdminRevokeBan ctx now),
    (lit "system.server.sendEmail", handleServerSendEmail ctx now),
    (lit "system.server.setKillTimer", handleServerSetKillTimer ctx now),
    (lit "system.server.cancelKillTimer", handleServerCancelKillTimer ctx now),
    (lit "system.user.setKillTimer", handleUserSetKillTimer ctx now),
    (lit "system.user.cancelKillTimer", handleUserCancelKillTimer ctx now)]

/-- `SystemService.Handle`. -/
def handle (senderID : GoString) (msg : MUSMessage) : Run π σ δ τ MUSMessage :=
  match (handlers ctx now).lookup msg.subject.value with
  | some handler => handler senderID msg
  | none =>
    return newResponse now msg.subject.value (lit "System") [senderID] errInvalidServerCommand .void

theorem mem_handlers_of_lookup {name : GoString} {handler : Handler π σ δ τ}
    (h : (handlers ctx now).lookup name = some handler) :
    (name, handler) ∈ handlers ctx now := by
  obtain ⟨before, after, htable, -⟩ := List.lookup_eq_some_iff.mp h
  rw [htable]
  exact List.mem_append_right _ List.mem_cons_self

theorem exists_handler {name : GoString} (h : name ∈ (handlers ctx now).map Prod.fst) :
    ∃ handler, (handlers ctx now).lookup name = some handler := by
  rw [← Option.ne_none_iff_exists']
  intro hnone
  obtain ⟨entry, hentry, rfl⟩ := List.mem_map.mp h
  simpa using List.lookup_eq_none_iff.mp hnone entry hentry

/-- The same message with another claimed sender, and the size that comes with it. -/
def claiming (msg : MUSMessage) (sender : MUSMsgHeaderString) (size : Int32) : MUSMessage :=
  { msg with senderID := sender, contentSize := size }

/-- A handler of the table that is not the logon handler ignores the claimed sender. -/
theorem handlers_claiming : ∀ entry ∈ handlers ctx now, entry.1 ≠ lit "Logon" →
    ∀ senderID msg sender size,
      entry.2 senderID (claiming msg sender size) = entry.2 senderID msg := by
  simp only [handlers, List.forall_mem_cons, List.not_mem_nil, false_imp_iff, implies_true,
    and_true]
  refine ⟨fun h => absurd rfl h, ?_⟩
  and_intros <;> exact fun _ _ _ _ _ => rfl

theorem handle_claiming (senderID : GoString) {msg : MUSMessage}
    (hlogon : msg.subject.value ≠ lit "Logon") (sender : MUSMsgHeaderString) (size : Int32) :
    handle ctx now senderID (claiming msg sender size) = handle ctx now senderID msg := by
  unfold handle
  simp only [claiming]
  cases hlookup : (handlers ctx now).lookup msg.subject.value with
  | none => rfl
  | some handler =>
    exact handlers_claiming ctx now _ (mem_handlers_of_lookup ctx now hlookup) hlogon senderID msg
      sender size

end Musgos.Mus
