import Musgos.Foundation.GoMap
import Musgos.Services.Session
import Musgos.Lingo.Access

/-!
# Command permissions

`Authorizer`: a sender may run a command if its session level reaches the level
configured for the command; a command without a level is denied to everyone. The
level is read from the session on every check, and a nil attribute panics.
-/
namespace Musgos.Services

open Foundation Domain

/-- The level for cross-user access when none is configured. -/
def defaultAdminLevel : ℤ := 80

variable {σ : Type} (store : SessionStore σ) (commandLevels : GoMap GoString ℤ)

/-- The session level of a user; an unreadable session has level zero. -/
def userLevel (s : σ) (userID : GoString) : Option ℤ :=
  match store.getUserAttribute userID userLevelAttribute s with
  | .error _ => some 0
  | .ok value => value.toInteger.map Int32.toInt

def canRun (s : σ) (senderID command : GoString) : Option Bool :=
  match commandLevels.lookup command with
  | none => some false
  | some requiredLevel => (userLevel store s senderID).map fun level => requiredLevel ≤ level

def adminLevel : ℤ := (commandLevels.lookup (lit "DBAdmin.createUser")).getD defaultAdminLevel

def ownerOrAdmin (s : σ) (senderID targetUserID : GoString) : Option Bool :=
  if targetUserID = senderID then some true
  else (userLevel store s senderID).map fun level => adminLevel commandLevels ≤ level

/-- A sender below the configured level cannot run the command. -/
theorem canRun_eq_false {s : σ} {senderID command : GoString} {required level : ℤ}
    (hrequired : commandLevels.lookup command = some required)
    (hlevel : userLevel store s senderID = some level) (hlt : level < required) :
    canRun store commandLevels s senderID command = some false := by
  simp [canRun, hrequired, hlevel, hlt]

/-- For a sender who has a level the check decides. -/
theorem exists_canRun {s : σ} {senderID : GoString} {level : ℤ}
    (hlevel : userLevel store s senderID = some level) (command : GoString) :
    ∃ allowed, canRun store commandLevels s senderID command = some allowed := by
  unfold canRun
  cases commandLevels.lookup command with
  | none => exact ⟨false, rfl⟩
  | some required => exact ⟨decide (required ≤ level), by rw [hlevel]; rfl⟩

end Musgos.Services
