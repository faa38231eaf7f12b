import Musgos.Foundation.GoMap
import Musgos.Services.Logon
import Musgos.Services.Authorizer
import Musgos.Smus.Message

/-!
# The state and the effects of the message handlers

`World` is what the handlers of `mus` can reach: the state behind the ports, the
movies with their groups, the kill timers, and what has gone out so far. A handler
runs on it to completion, and panics end it where they occur with the state as it is
then. `Context` holds what was injected at start-up.
-/
namespace Musgos.Mus

open Foundation Lingo Domain Services Smus

/-- A group of a movie: its attributes. Its members are rooms of the session store. -/
structure Group where
  attributes : GoMap GoString LValue

/-- A movie: its groups by name. -/
structure Movie where
  groups : GoMap GoString Group

/-- An armed `time.AfterFunc`: when it was set, and its duration in nanoseconds. -/
structure ArmedTimer where
  setAt : ℤ
  duration : Int64
  deriving DecidableEq

/-- Everything a command can read or change, with a record of what it sent. -/
structure World (π σ δ τ : Type) extends Backend π σ δ τ where
  movies : GoMap GoString Movie
  serverTimer : Option ArmedTimer
  userTimers : GoMap GoString ArmedTimer
  /-- The calls of `WriteToClient` so far, failed ones included. -/
  offered : List (GoString × List UInt8)
  /-- The calls of `SendEmail` so far. -/
  mails : List EmailMessage
  /-- The calls of `Execute` so far. -/
  scripts : List ScriptMessage

/-- What the handlers are given when the server starts. -/
structure Context (π σ δ τ : Type) extends LogonService π σ δ τ where
  commandLevels : GoMap GoString ℤ
  /-- The mailer, true when it returns no error. -/
  emailSender : Option (EmailMessage → Bool)
  hasTimerManager : Bool
  scriptEngine : Option (ScriptEngine (World π σ δ τ))
  cipher : Option Cipher
  allEncrypted : Bool
  defaultMovieID : GoString
  /-- `bcrypt.GenerateFromPassword`. -/
  generateHash : GoString → Option GoString
  /-- The order in which the maps of movies, groups and attributes are visited. -/
  order : RangeOrder GoString

/-- The program has panicked. -/
inductive Panic where
  | panic

/-- How the body of a handler ends early: with an error code for the sender, or not at all. -/
inductive Stop where
  | panic
  | reply (code : Int32)

variable {π σ δ τ ε α : Type}

abbrev Run (π σ δ τ : Type) := EStateM Panic (World π σ δ τ)

abbrev Body (π σ δ τ : Type) := EStateM Stop (World π σ δ τ)

section Effects

theorem bind_of_ok {ω β : Type} {x : EStateM ε ω α} {f : α → EStateM ε ω β} {w w' : ω} {a : α}
    (h : x w = .ok a w') : (x >>= f) w = f a w' := by
  simp only [bind, EStateM.bind, h]

theorem bind_of_error {ω β : Type} {x : EStateM ε ω α} {f : α → EStateM ε ω β} {w w' : ω} {e : ε}
    (h : x w = .error e w') : (x >>= f) w = .error e w' := by
  simp only [bind, EStateM.bind, h]

/-- The state in which a run ends, also when it panics. -/
def endState {ω : Type} : EStateM.Result ε ω α → ω
  | .ok _ w => w
  | .error _ w => w

/-- A call on the session store that leaves it alone. -/
def readSessions (op : Read σ α) : EStateM ε (World π σ δ τ) (Except PortError α) :=
  fun w => .ok (op w.sessions) w

def writeSessions (op : Write σ) : EStateM ε (World π σ δ τ) (Except PortError Unit) :=
  fun w => .ok (op w.sessions).1 { w with sessions := (op w.sessions).2 }

def readDB (op : Read δ α) : EStateM ε (World π σ δ τ) (Except PortError α) :=
  fun w => .ok (op w.db) w

def writeDB (op : Write δ) : EStateM ε (World π σ δ τ) (Except PortError Unit) :=
  fun w => .ok (op w.db).1 { w with db := (op w.db).2 }

def getMovie (movieID : GoString) : EStateM ε (World π σ δ τ) (Option Movie) :=
  fun w => .ok (w.movies.lookup movieID) w

/-- A nil dereference inside a handler. -/
def orPanic : Option α → Body π σ δ τ α
  | none => throw .panic
  | some a => pure a

def reply (code : Int32) : Body π σ δ τ α := throw (.reply code)

/-- An error of a port, answered with a code. -/
def orReply (code : Int32) : Except PortError α → Body π σ δ τ α
  | .error _ => reply code
  | .ok a => pure a

/-- However it ends, the code leaves the sessions alone. -/
def KeepsSessions (x : EStateM ε (World π σ δ τ) α) : Prop :=
  ∀ w, (endState (x w)).sessions = w.sessions

theorem KeepsSessions.pure (a : α) :
    KeepsSessions (pure a : EStateM ε (World π σ δ τ) α) := fun _ => rfl

theorem KeepsSessions.throw (e : ε) :
    KeepsSessions (throw e : EStateM ε (World π σ δ τ) α) := fun _ => rfl

theorem KeepsSessions.read (op : Read σ α) :
    KeepsSessions (readSessions op : EStateM ε (World π σ δ τ) _) := fun _ => rfl

theorem KeepsSessions.bind {β : Type} {x : EStateM ε (World π σ δ τ) α}
    {f : α → EStateM ε (World π σ δ τ) β} (hx : KeepsSessions x) (hf : ∀ a, KeepsSessions (f a)) :
    KeepsSessions (x >>= f) := by
  intro w
  have hfirst := hx w
  cases h : x w with
  | ok a w' =>
    rw [h] at hfirst
    rw [bind_of_ok h, hf a w']
    exact hfirst
  | error e w' =>
    rw [h] at hfirst
    rw [bind_of_error h]
    exact hfirst

end Effects

/-- `NewResponse`; the clock is read once for a message. -/
def newResponse (now : ℤ) (subject senderID : GoString) (recipients : List GoString)
    (errCode : Int32) (content : LValue) : MUSMessage where
  contentSize := 0
  errCode := errCode
  timeStamp := Int32.ofInt now
  subject := .ofValue subject
  senderID := .ofValue senderID
  recptID := ⟨recipients.length, recipients.map .ofValue⟩
  rawContents := []
  decryptedContents := []
  msgContent := content

/-- The answer of a system command: its content, or a code and void. -/
def respond (now : ℤ) (senderID : GoString) (msg : MUSMessage) (body : Body π σ δ τ LValue) :
    Run π σ δ τ MUSMessage := fun w =>
  match body w with
  | .ok content w' =>
    .ok (newResponse now msg.subject.value (lit "System") [senderID] errNoError content) w'
  | .error (.reply code) w' =>
    .ok (newResponse now msg.subject.value (lit "System") [senderID] code .void) w'
  | .error .panic w' => .error .panic w'

section Respond

variable {now : ℤ} {senderID : GoString} {msg : MUSMessage} {body : Body π σ δ τ LValue}
  {w w' : World π σ δ τ}

theorem respond_of_ok {content : LValue} (h : body w = .ok content w') :
    respond now senderID msg body w =
      .ok (newResponse now msg.subject.value (lit "System") [senderID] errNoError content) w' := by
  simp only [respond, h]

theorem respond_of_reply {code : Int32} (h : body w = .error (.reply code) w') :
    respond now senderID msg body w =
      .ok (newResponse now msg.subject.value (lit "System") [senderID] code .void) w' := by
  simp only [respond, h]

theorem respond_bind_of_ok {x : Body π σ δ τ α} {f : α → Body π σ δ τ LValue} {a : α}
    (h : x w = .ok a w) :
    respond now senderID msg (x >>= f) w = respond now senderID msg (f a) w := by
  unfold respond
  rw [bind_of_ok h]

end Respond

variable (ctx : Context π σ δ τ)

/-- The permission check that a handler makes at its start. -/
def requireLevel (senderID command : GoString) : Body π σ δ τ Unit := do
  let w ← get
  let allowed ← orPanic (canRun ctx.sessions ctx.commandLevels w.sessions senderID command)
  if !allowed then reply errInvalidServerCommand

theorem requireLevel_eq {ctx : Context π σ δ τ} {senderID command : GoString} {w : World π σ δ τ}
    {allowed : Bool}
    (h : canRun ctx.sessions ctx.commandLevels w.sessions senderID command = some allowed) :
    requireLevel ctx senderID command w =
      if allowed then .ok () w else .error (.reply errInvalidServerCommand) w := by
  have hget : (get : Body π σ δ τ (World π σ δ τ)) w = .ok w w := rfl
  unfold requireLevel
  rw [bind_of_ok hget, h]
  cases allowed <;> rfl

/-- The elements of a property list that a command requires, by name. -/
abbrev Fields := List (GoString × LValue)

/-- `f[name]`: a missing key is nil. -/
def Fields.get (f : Fields) (name : GoString) : LValue := (f.lookup name).getD .nil

def requireFields (content : LValue) (names : List GoString) : Body π σ δ τ Fields :=
  match content with
  | .propList ps vs =>
    names.mapM fun name => do
      let some value ← orPanic (LValue.getElement ps vs name) | reply errInvalidMessageFormat
      return (name, value)
  | _ => reply errInvalidMessageFormat

/-- `StringValue(f[name])`. -/
def Fields.text (f : Fields) (name : GoString) : Body π σ δ τ GoString :=
  orPanic (f.get name).stringValue

/-- `ExtractString` of the content of a message. -/
def requireString (content : LValue) : Body π σ δ τ GoString :=
  match content.extractString with
  | none => reply errInvalidMessageFormat
  | some s => pure s

def movieIDAttribute : GoString := lit "#movieID"

/-- The movie cached in the session, if it is a non-empty string. -/
def getUserMovieID (userID : GoString) : EStateM ε (World π σ δ τ) (Option GoString) := do
  match ← readSessions (ctx.sessions.getUserAttribute userID movieIDAttribute) with
  | .ok (.string movieID) => return if movieID ≠ [] then some movieID else none
  | _ => return none

/-- The movie of the sender; a sender without one is told of an internal error. -/
def requireMovieID (senderID : GoString) : Body π σ δ τ GoString := do
  let some movieID ← getUserMovieID ctx senderID | reply errServerInternalError
  return movieID

def requireMovie (movieID : GoString) : Body π σ δ τ Movie := do
  let some movie ← getMovie movieID | reply errServerInternalError
  return movie

def nameList (names : List GoString) : LValue := .list (names.map .string)

def countValue (n : ℕ) : LValue := .integer (Int32.ofNat n)

end Musgos.Mus
