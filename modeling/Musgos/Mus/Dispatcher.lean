import Musgos.Mus.SystemService
import Musgos.Mus.Sender

/-!
# Routing a message

`Dispatcher`: the first recipient decides whether a message is a system command, a
script call, or goes to other clients. The identity it is handled under is the one
the connection has, and only the logon handler looks at the sender in the message.
-/
namespace Musgos.Mus

open Foundation Lingo Domain Services Smus

variable {π σ δ τ : Type} (ctx : Context π σ δ τ) (now : ℤ)

/-- The one error that `Dispatch` returns by itself. -/
inductive DispatchError where
  | noRecipients
  deriving DecidableEq

/-- `Execute`, recorded whether it fails or not. -/
def execute (engine : ScriptEngine (World π σ δ τ)) (call : ScriptMessage) :
    Run π σ δ τ (Except PortError (Option LValue)) := fun w =>
  let r := engine.execute call { w with scripts := w.scripts ++ [call] }
  .ok r.1 r.2

/-- `handleScript`: a script that fails, or has nothing to say, is not answered. -/
def handleScript (senderID : GoString) (msg : MUSMessage) : Run π σ δ τ (Option MUSMessage) := do
  let some engine := ctx.scriptEngine | return none
  let scriptName := msg.subject.value
  if !engine.hasScript scriptName (← get) then return none
  match ← execute engine ⟨scriptName, senderID, msg.msgContent⟩ with
  | .ok (some content) =>
    return some (newResponse now scriptName (lit "system.script") [senderID] errNoError content)
  | _ => return none

def dispatch (senderID : GoString) (msg : MUSMessage) :
    Run π σ δ τ (Except DispatchError (Option MUSMessage)) := do
  if msg.recptID.count = 0 then return .error .noRecipients
  match msg.recptID.strings with
  | [] => throw .panic
  | recipient :: _ =>
    if recipient.value = lit "System" then return .ok (some (← handle ctx now senderID msg))
    else if recipient.value = lit "system.script" then
      return .ok (← handleScript ctx now senderID msg)
    else
      let _ ← sendMessage ctx now senderID recipient.value msg.subject.value msg.msgContent
      return .ok none

/-- A logon message to the system service. -/
def IsLogon (msg : MUSMessage) : Prop :=
  msg.recptID.strings.head?.map (·.value) = some (lit "System") ∧
    msg.subject.value = lit "Logon"

theorem dispatch_claiming (senderID : GoString) {msg : MUSMessage} (hlogon : ¬ IsLogon msg)
    (sender : MUSMsgHeaderString) (size : Int32) :
    dispatch ctx now senderID (claiming msg sender size) = dispatch ctx now senderID msg := by
  unfold dispatch
  have hrecptID : (claiming msg sender size).recptID = msg.recptID := rfl
  rw [hrecptID]
  cases hstrings : msg.recptID.strings with
  | nil => rfl
  | cons recipient rest =>
    by_cases hsystem : recipient.value = lit "System"
    · have hsubject : msg.subject.value ≠ lit "Logon" := by
        intro h
        exact hlogon ⟨by simp [hstrings, hsystem], h⟩
      simp only [handle_claiming ctx now senderID hsubject]
      rfl
    · simp only [if_neg hsystem]
      rfl

end Musgos.Mus
