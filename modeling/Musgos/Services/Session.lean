import Musgos.Domain.Ports

/-!
# Establishing a session

`LogonService.establishSession`: the tail of every successful authentication. It
guards against a live session under the requested id, rebinds the connection in
the pool, and registers the session anew with the user's level. The code runs as
one function here; `Sessions.System` runs its calls as separate atomic steps.
-/
namespace Musgos.Services

open Foundation Lingo Domain

/-- The session attribute that carries the user level. -/
def userLevelAttribute : GoString := lit "#userLevel"

/-- The outcome of a logon in the vocabulary of the domain. -/
inductive LogonCode where
  | ok
  | badCredentialsFormat
  | invalidUser
  | invalidPassword
  | refused
  | internalError
  deriving DecidableEq

/-- What a logon attempt comes to. -/
structure LogonResult where
  code : LogonCode
  userID : GoString
  userLevel : ℤ
  movieID : GoString
  deriving DecidableEq

/-- A result that only names the attempted id. -/
def LogonResult.failed (code : LogonCode) (userID : GoString) : LogonResult := ⟨code, userID, 0, []⟩

variable {π σ : Type} (store : SessionStore σ)

/-- `existing, _ := GetConnection(id)`: an error counts as no session. -/
def existing (s : σ) (id : GoString) : Option ConnectionInfo :=
  match store.getConnection id s with
  | .ok conn => conn
  | .error _ => none

/-- The guard of the takeover check, skipped by a connection that logs on under
the id it already has. -/
def guardRefuses (s : σ) (connectionID userID : GoString) : Bool :=
  userID ≠ connectionID ∧ (existing store s userID).isSome

/-- The address kept from the first registration, if it left one. -/
def preservedIP (s : σ) (connectionID : GoString) : GoString :=
  match existing store s connectionID with
  | none => connectionID
  | some conn => if conn.ip ≠ [] then conn.ip else connectionID

/-- The stamped value: the level as Lingo's 32-bit integer. -/
def levelValue (level : ℤ) : LValue := .integer (Int32.ofInt level)

def stampLevel (userID : GoString) (level : ℤ) (s : σ) : σ :=
  (store.setUserAttribute userID userLevelAttribute (levelValue level) s).2

/-- `RemapClientID`, or nothing when no connection writer was injected. -/
def remapConnection (writer : Option (ConnectionWriter π)) (oldID newID : GoString) (p : π) :
    π × Bool :=
  match writer with
  | none => (p, true)
  | some w => w.remapClientID oldID newID p

/-- `establishSession`, with the clock; the stores' errors are ignored there. -/
def establishSession (writer : Option (ConnectionWriter π)) (now : ℤ)
    (connectionID userID movieID : GoString) (level : ℤ) (p : π) (s : σ) : LogonResult × π × σ :=
  if guardRefuses store s connectionID userID then (.failed .refused userID, p, s)
  else
    let r := remapConnection writer connectionID userID p
    if !r.2 then (.failed .refused userID, r.1, s)
    else
      let ip := preservedIP store s connectionID
      let s₁ := (store.unregisterConnection connectionID s).2
      let s₂ := (store.registerConnection now userID ip s₁).2
      (⟨.ok, userID, level, movieID⟩, r.1, stampLevel store userID level s₂)

end Musgos.Services
