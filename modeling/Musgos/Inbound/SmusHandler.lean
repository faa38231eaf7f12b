import Musgos.Mus.Dispatcher
import Musgos.Mus.Standalone

/-!
# Handling a raw message

`SMUSHandler.HandleRawMessage`: parse, dispatch under the identity of the connection,
and serialize the response. The sender that a message claims to have is free for the
client to choose, and apart from a logon it has no influence on anything.
-/
namespace Musgos.Inbound

open Foundation Lingo Domain Services Smus Mus

variable {π σ δ τ : Type} (ctx : Context π σ δ τ) (now : ℤ)

/-- Why a message was not handled. -/
inductive RequestError where
  | parse (e : ParseError)
  | dispatch (e : DispatchError)
  deriving DecidableEq

def handleRawMessage (clientID : GoString) (data : List UInt8) :
    Run π σ δ τ (Except RequestError (Option (List UInt8))) := do
  match (parseMUSMessageWithDecryption ctx.cipher data).run with
  | none => throw .panic
  | some (.error e) => return .error (.parse e)
  | some (.ok msg) =>
    match ← dispatch ctx now clientID msg with
    | .error e => return .error (.dispatch e)
    | .ok none => return .ok none
    | .ok (some response) =>
      match wireBytes ctx response with
      | none => throw .panic
      | some bytes => return .ok (some bytes)

/-- Two parsed messages that agree on every field but the claimed sender and the size. -/
structure SameButSender (m₁ m₂ : MUSMessage) : Prop where
  errCode : m₁.errCode = m₂.errCode
  timeStamp : m₁.timeStamp = m₂.timeStamp
  subject : m₁.subject = m₂.subject
  recptID : m₁.recptID = m₂.recptID
  rawContents : m₁.rawContents = m₂.rawContents
  decryptedContents : m₁.decryptedContents = m₂.decryptedContents
  msgContent : m₁.msgContent = m₂.msgContent

theorem SameButSender.eq_claiming {m₁ m₂ : MUSMessage} (h : SameButSender m₁ m₂) :
    m₂ = claiming m₁ m₂.senderID m₂.contentSize := by
  obtain ⟨_, _, _, _, _, _, _, _, _⟩ := m₁
  obtain ⟨_, _, _, _, _, _, _, _, _⟩ := m₂
  obtain ⟨rfl, rfl, rfl, rfl, rfl, rfl, rfl⟩ := h
  rfl

/-- The claimed sender never selects an identity: for every state, connection and clock,
two raw messages that parse to the same fields but the sender, and are no logons, have
the same outcome. The outcome is the response and the whole state, with the messages
written to other clients and the scripts called. -/
theorem handleRawMessage_sender_irrelevant {raw₁ raw₂ : List UInt8} {m₁ m₂ : MUSMessage}
    (h₁ : (parseMUSMessageWithDecryption ctx.cipher raw₁).run = some (.ok m₁))
    (h₂ : (parseMUSMessageWithDecryption ctx.cipher raw₂).run = some (.ok m₂))
    (hsame : SameButSender m₁ m₂) (hlogon : ¬ IsLogon m₁) (clientID : GoString)
    (w : World π σ δ τ) :
    handleRawMessage ctx now clientID raw₁ w = handleRawMessage ctx now clientID raw₂ w := by
  have hdispatch : dispatch ctx now clientID m₂ = dispatch ctx now clientID m₁ := by
    rw [hsame.eq_claiming]
    exact dispatch_claiming ctx now clientID hlogon _ _
  unfold handleRawMessage
  simp only [h₁, h₂, hdispatch]

/-- A message for carol, as it is after parsing. -/
def parsedChat (sender : GoString) (size : Int32) : MUSMessage :=
  { newResponse 0 (lit "chat") sender [lit "carol"] errNoError (.integer 5) with
    contentSize := size
    rawContents := [0, 1, 0, 0, 0, 5]
    decryptedContents := [0, 1, 0, 0, 0, 5] }

/-- The same message on the wire. -/
def rawChat (sender : GoString) : List UInt8 := ((parsedChat sender 0).getBytes).getD []

/-- Whoever bob claims to be, carol is offered the same message from bob. -/
theorem handleRawMessage_sender_irrelevant_chat :
    rawChat (lit "alice") ≠ rawChat (lit "eve") ∧
    (handleRawMessage (standalone ∅) 0 (lit "bob") (rawChat (lit "alice")) Local.empty =
      handleRawMessage (standalone ∅) 0 (lit "bob") (rawChat (lit "eve")) Local.empty) := by
  have halice : (parseMUSMessageWithDecryption none (rawChat (lit "alice"))).run =
      some (.ok (parsedChat (lit "alice") 46)) := by decide +kernel
  have heve : (parseMUSMessageWithDecryption none (rawChat (lit "eve"))).run =
      some (.ok (parsedChat (lit "eve") 44)) := by decide +kernel
  have hsame : SameButSender (parsedChat (lit "alice") 46) (parsedChat (lit "eve") 44) :=
    ⟨rfl, rfl, rfl, rfl, rfl, rfl, rfl⟩
  have hlogon : ¬ IsLogon (parsedChat (lit "alice") 46) := by
    rintro ⟨hrecipient, -⟩
    revert hrecipient
    decide +kernel
  exact ⟨by decide +kernel, handleRawMessage_sender_irrelevant (standalone ∅) 0 halice heve hsame
    hlogon (lit "bob") Local.empty⟩

end Musgos.Inbound
