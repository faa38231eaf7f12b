import Musgos.Mus.World

/-!
# Database commands

`handleDBCommand` and the handlers of DBPlayer, DBApplication and DBAdmin that are
written with it: check the permission, collect the required fields, run the action,
and map its error to a code. The DBPlayer actions also check that the sender owns
the data or is an administrator.
-/
namespace Musgos.Mus

open Foundation Lingo Domain Services Smus

variable {π σ δ τ α : Type}

/-- `dbErrorCode` of an error that comes from a port. -/
def dbErrorCode : PortError → Int32
  | .userNotFound => errDatabaseUserIDNotFound
  | .banNotFound => errDatabaseDataNotFound
  | .other => errServerInternalError

def orDBError : Except PortError α → Body π σ δ τ α
  | .error e => reply (dbErrorCode e)
  | .ok a => pure a

variable (ctx : Context π σ δ τ) (now : ℤ) (senderID : GoString) (msg : MUSMessage)

def handleDBCommand (requiredFields : List GoString) (action : Fields → Body π σ δ τ LValue) :
    Run π σ δ τ MUSMessage := respond now senderID msg do
  requireLevel ctx senderID msg.subject.value
  let fields ← if requiredFields = [] then pure [] else requireFields msg.msgContent requiredFields
  action fields

/-- A write that answers with void. -/
def dbWrite (op : Write δ) : Body π σ δ τ LValue := do
  orDBError (← writeDB op)
  return .void

/-- A read of names that answers with their list. -/
def dbNames (op : Read δ (List GoString)) : Body π σ δ τ LValue := do
  return nameList (← orDBError (← readDB op))

section Player

/-- `errCrossUserDenied`, which `dbErrorCode` maps to a refused command. -/
def requireOwnerOrAdmin (targetUserID : GoString) : Body π σ δ τ Unit := do
  let w ← get
  let allowed ← orPanic
    (ownerOrAdmin ctx.sessions ctx.commandLevels w.sessions senderID targetUserID)
  if !allowed then reply errInvalidServerCommand

def handleDBPlayerGetAttribute : Run π σ δ τ MUSMessage :=
  handleDBCommand ctx now senderID msg
      [lit "application", lit "userID", lit "attribute"] fun f => do
    requireOwnerOrAdmin ctx senderID (← f.text (lit "userID"))
    let appName ← f.text (lit "application")
    let userID ← f.text (lit "userID")
    let attrName ← f.text (lit "attribute")
    orDBError (← readDB (ctx.db.getPlayerAttribute appName userID attrName))

def handleDBPlayerSetAttribute : Run π σ δ τ MUSMessage :=
  handleDBCommand ctx now senderID msg
    [lit "application", lit "userID", lit "attribute", lit "value"] fun f => do
      requireOwnerOrAdmin ctx senderID (← f.text (lit "userID"))
      let appName ← f.text (lit "application")
      let userID ← f.text (lit "userID")
      let attrName ← f.text (lit "attribute")
      dbWrite (ctx.db.setPlayerAttribute appName userID attrName (f.get (lit "value")))

def handleDBPlayerDeleteAttribute : Run π σ δ τ MUSMessage :=
  handleDBCommand ctx now senderID msg
      [lit "application", lit "userID", lit "attribute"] fun f => do
    requireOwnerOrAdmin ctx senderID (← f.text (lit "userID"))
    let appName ← f.text (lit "application")
    let userID ← f.text (lit "userID")
    let attrName ← f.text (lit "attribute")
    dbWrite (ctx.db.deletePlayerAttribute appName userID attrName)

def handleDBPlayerGetAttributeNames : Run π σ δ τ MUSMessage :=
  handleDBCommand ctx now senderID msg [lit "application", lit "userID"] fun f => do
    requireOwnerOrAdmin ctx senderID (← f.text (lit "userID"))
    let appName ← f.text (lit "application")
    let userID ← f.text (lit "userID")
    dbNames (ctx.db.getPlayerAttributeNames appName userID)

end Player

section Application

def handleDBApplicationGetAttribute : Run π σ δ τ MUSMessage :=
  handleDBCommand ctx now senderID msg [lit "application", lit "attribute"] fun f => do
    let appName ← f.text (lit "application")
    let attrName ← f.text (lit "attribute")
    orDBError (← readDB (ctx.db.getApplicationAttribute appName attrName))

def handleDBApplicationSetAttribute : Run π σ δ τ MUSMessage :=
  handleDBCommand ctx now senderID msg [lit "application", lit "attribute", lit "value"] fun f => do
    let appName ← f.text (lit "application")
    let attrName ← f.text (lit "attribute")
    dbWrite (ctx.db.setApplicationAttribute appName attrName (f.get (lit "value")))

def handleDBApplicationDeleteAttribute : Run π σ δ τ MUSMessage :=
  handleDBCommand ctx now senderID msg [lit "application", lit "attribute"] fun f => do
    let appName ← f.text (lit "application")
    let attrName ← f.text (lit "attribute")
    dbWrite (ctx.db.deleteApplicationAttribute appName attrName)

def handleDBApplicationGetAttributeNames : Run π σ δ τ MUSMessage :=
  handleDBCommand ctx now senderID msg [lit "application"] fun f => do
    dbNames (ctx.db.getApplicationAttributeNames (← f.text (lit "application")))

end Application

section Admin

def handleDBAdminCreateApplication : Run π σ δ τ MUSMessage :=
  handleDBCommand ctx now senderID msg [lit "application"] fun f => do
    dbWrite (ctx.db.createApplication (← f.text (lit "application")))

def handleDBAdminDeleteApplication : Run π σ δ τ MUSMessage :=
  handleDBCommand ctx now senderID msg [lit "application"] fun f => do
    dbWrite (ctx.db.deleteApplication (← f.text (lit "application")))

def handleDBAdminCreateUser : Run π σ δ τ MUSMessage :=
  handleDBCommand ctx now senderID msg [lit "userID", lit "password", lit "userLevel"] fun f => do
    let some hash := ctx.generateHash (← f.text (lit "password")) | reply errServerInternalError
    let userID ← f.text (lit "userID")
    let level ← orPanic (f.get (lit "userLevel")).toInteger
    dbWrite (ctx.db.createUser userID hash level.toInt)

def handleDBAdminDeleteUser : Run π σ δ τ MUSMessage :=
  handleDBCommand ctx now senderID msg [lit "userID"] fun f => do
    dbWrite (ctx.db.deleteUser (← f.text (lit "userID")))

def handleDBAdminGetUserCount : Run π σ δ τ MUSMessage :=
  handleDBCommand ctx now senderID msg [] fun _ => do
    return countValue (← orDBError (← readSessions ctx.sessions.getAllConnections)).length

def handleDBAdminBan : Run π σ δ τ MUSMessage :=
  handleDBCommand ctx now senderID msg [lit "userID", lit "reason"] fun f => do
    let user ← orDBError (← readDB (ctx.db.getUser (← f.text (lit "userID"))))
    dbWrite (ctx.db.createBan user.id (← f.text (lit "reason")))

/-- A nil ban without an error is dereferenced. -/
def handleDBAdminRevokeBan : Run π σ δ τ MUSMessage :=
  handleDBCommand ctx now senderID msg [lit "userID"] fun f => do
    let user ← orDBError (← readDB (ctx.db.getUser (← f.text (lit "userID"))))
    let ban ← orPanic (← orDBError (← readDB (ctx.db.getActiveBanByUserID user.id)))
    dbWrite (ctx.db.revokeBan ban.id)

end Admin

end Musgos.Mus
