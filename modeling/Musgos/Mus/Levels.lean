import Musgos.Mus.SystemService
import Musgos.Mus.Standalone

/-!
# Command levels

A level can be configured for every system command, but the check is made by the
handlers, one by one. Those that make it answer a sender below the level with an error
and touch nothing. The others run for everybody, and the configured level of their
command has no effect.
-/
namespace Musgos.Mus

open Foundation Lingo Domain Services Smus

/-- Database, sessions, movies, groups and timers are the same in both states. -/
structure Untouched {π σ δ τ : Type} (w w' : World π σ δ τ) : Prop where
  db : w'.db = w.db
  sessions : w'.sessions = w.sessions
  movies : w'.movies = w.movies
  serverTimer : w'.serverTimer = w.serverTimer
  userTimers : w'.userTimers = w.userTimers

/-- The command is answered with an error and changes nothing. -/
def Refused {π σ δ τ : Type} (ctx : Context π σ δ τ) (now : ℤ) (senderID : GoString)
    (msg : MUSMessage) (w : World π σ δ τ) : Prop :=
  ∃ response w', handle ctx now senderID msg w = .ok response w' ∧
    response.errCode ≠ errNoError ∧ Untouched w w'

/-- The level configured for a subject is enforced: whatever the adapters, the level
table, the state and the content, a sender below the level is refused. -/
def LevelEnforced (subject : GoString) : Prop :=
  ∀ {π σ δ τ : Type} (ctx : Context π σ δ τ) (now : ℤ) (senderID : GoString) (msg : MUSMessage)
    (w : World π σ δ τ) (required level : ℤ), msg.subject.value = subject →
    msg.msgContent.WellFormed → ctx.commandLevels.lookup subject = some required →
    userLevel ctx.sessions w.sessions senderID = some level → level < required →
    Refused ctx now senderID msg w

/-- The subjects whose handlers check the level. -/
def guardedSubjects : List GoString :=
  [lit "system.user.delete", lit "DBPlayer.getAttribute", lit "DBPlayer.setAttribute",
    lit "DBPlayer.deleteAttribute", lit "DBPlayer.getAttributeNames",
    lit "DBApplication.getAttribute", lit "DBApplication.setAttribute",
    lit "DBApplication.deleteAttribute", lit "DBApplication.getAttributeNames",
    lit "DBAdmin.createApplication", lit "DBAdmin.deleteApplication", lit "DBAdmin.createUser",
    lit "DBAdmin.deleteUser", lit "DBAdmin.getUserCount", lit "DBAdmin.ban",
    lit "DBAdmin.revokeBan", lit "system.server.sendEmail", lit "system.server.setKillTimer",
    lit "system.server.cancelKillTimer", lit "system.user.setKillTimer",
    lit "system.user.cancelKillTimer"]

section Guarded

variable {π σ δ τ : Type} {ctx : Context π σ δ τ} {now : ℤ} {senderID : GoString}
  {msg : MUSMessage} {w : World π σ δ τ}

theorem respond_denied
    (hdenied : canRun ctx.sessions ctx.commandLevels w.sessions senderID msg.subject.value =
      some false) (rest : Unit → Body π σ δ τ LValue) :
    respond now senderID msg (requireLevel ctx senderID msg.subject.value >>= rest) w =
      .ok (newResponse now msg.subject.value (lit "System") [senderID] errInvalidServerCommand
        .void)
        w :=
  respond_of_reply (bind_of_error (requireLevel_eq hdenied))

/-- A handler that makes the check before anything else. -/
def ChecksFirst (ctx : Context π σ δ τ) (now : ℤ) (handler : Handler π σ δ τ) : Prop :=
  ∀ senderID msg, ∃ rest : Unit → Body π σ δ τ LValue,
    handler senderID msg =
      respond now senderID msg (requireLevel ctx senderID msg.subject.value >>= rest)

theorem handlers_checkFirst (ctx : Context π σ δ τ) (now : ℤ) : ∀ entry ∈ handlers ctx now,
    entry.1 ∈ guardedSubjects → ChecksFirst ctx now entry.2 := by
  simp only [handlers, List.forall_mem_cons, List.not_mem_nil, false_imp_iff, implies_true,
    and_true]
  and_intros <;> first
    | exact fun _ _ _ => ⟨_, rfl⟩
    | exact fun h => absurd h (by decide +kernel)

/-- The registered subjects do not depend on what was injected. -/
theorem handlers_subjects {π' σ' δ' τ' : Type} (ctx : Context π σ δ τ) (now : ℤ)
    (ctx' : Context π' σ' δ' τ') (now' : ℤ) :
    (handlers ctx now).map Prod.fst = (handlers ctx' now').map Prod.fst :=
  rfl

theorem levelEnforced_of_guarded {subject : GoString}
    (hregistered : subject ∈ (handlers ctx now).map Prod.fst)
    (hguarded : subject ∈ guardedSubjects) : LevelEnforced subject := by
  intro π' σ' δ' τ' ctx' now' senderID msg w required level hsubject _ hrequired hlevel hlt
  subst hsubject
  rw [handlers_subjects ctx now ctx' now'] at hregistered
  obtain ⟨handler, hlookup⟩ := exists_handler ctx' now' hregistered
  obtain ⟨rest, hrest⟩ := handlers_checkFirst ctx' now' _
    (mem_handlers_of_lookup ctx' now' hlookup) hguarded senderID msg
  have hdenied := canRun_eq_false ctx'.sessions ctx'.commandLevels hrequired hlevel hlt
  have hhandle : handle ctx' now' senderID msg w =
      .ok (newResponse now' msg.subject.value (lit "System") [senderID] errInvalidServerCommand
        .void) w := by
    rw [handle, hlookup]
    exact (congrFun hrest w).trans (respond_denied hdenied rest)
  exact ⟨_, w, hhandle, (by decide : errInvalidServerCommand ≠ errNoError),
    ⟨rfl, rfl, rfl, rfl, rfl⟩⟩

end Guarded

section Exposed

/-- The state after a command. -/
def after {π σ δ τ : Type} (ctx : Context π σ δ τ) (senderID : GoString) (msg : MUSMessage)
    (w : World π σ δ τ) : World π σ δ τ :=
  match handle ctx 0 senderID msg w with
  | .ok _ w' => w'
  | .error _ w' => w'

/-- Eve, of level 20, has logged on into movie `m` and joined its group `@g`. -/
def visiting (ctx : Context Unit Outbound.MemorySessionStore Unit Unit) : Local :=
  after ctx (lit "eve") (commandMessage (lit "JoinGroup") (.string (lit "@g")))
    (after ctx (lit "10.0.0.1:50")
      (commandMessage (lit "Logon")
        (.list [.string (lit "m"), .string (lit "eve"), .string (lit "secret")])) Local.empty)

/-- An attribute of the group `@g`, to set, read or delete. -/
def groupFields : LValue :=
  .propList [.symbol (lit "group"), .symbol (lit "attribute"), .symbol (lit "value")]
    [.string (lit "@g"), .string (lit "a"), .integer 1]

/-- The subjects whose handlers do not check the level, with a content they accept. -/
def exposed : List (GoString × LValue) :=
  [(lit "system.server.getVersion", .void), (lit "system.server.getTime", .void),
    (lit "system.server.getUserCount", .void), (lit "system.server.getMovieCount", .void),
    (lit "system.server.getMovies", .void), (lit "system.movie.getUserCount", .void),
    (lit "system.movie.getGroups", .void), (lit "system.movie.getGroupCount", .void),
    (lit "system.group.join", .string (lit "@h")), (lit "JoinGroup", .string (lit "@h")),
    (lit "system.group.leave", .string (lit "@g")), (lit "LeaveGroup", .string (lit "@g")),
    (lit "system.group.getUsers", .string (lit "@g")),
    (lit "system.group.getUserCount", .string (lit "@g")),
    (lit "system.group.setAttribute", groupFields), (lit "system.group.getAttribute", groupFields),
    (lit "system.group.deleteAttribute", groupFields),
    (lit "system.group.getAttributeNames", .string (lit "@g")),
    (lit "system.user.getAddress", .void), (lit "system.user.getGroups", .void)]

/-- Level 80 is required for one subject. -/
def only80 (subject : GoString) : Context Unit Outbound.MemorySessionStore Unit Unit :=
  standalone ((∅ : GoMap GoString ℤ).insert subject 80)

/-- Eve's command is answered without an error although level 80 is required for it. -/
def answersEve (subject : GoString) (content : LValue) : Bool :=
  match handle (only80 subject) 0 (lit "eve") (commandMessage subject content)
    (visiting (only80 subject)) with
  | .ok response _ => response.errCode = errNoError
  | .error _ _ => false

theorem exposed_answersEve : ∀ entry ∈ exposed, answersEve entry.1 entry.2 = true ∧
    userLevel (only80 entry.1).sessions (visiting (only80 entry.1)).sessions (lit "eve") = some 20 ∧
    entry.2.WellFormed := by
  decide +kernel

theorem not_levelEnforced_of_exposed {entry : GoString × LValue} (hentry : entry ∈ exposed) :
    ¬ LevelEnforced entry.1 := by
  intro henforced
  obtain ⟨hanswers, hlevel, hwellFormed⟩ := exposed_answersEve entry hentry
  obtain ⟨response, w', hhandle, herror, -⟩ := henforced (only80 entry.1) 0 (lit "eve")
    (commandMessage entry.1 entry.2) (visiting (only80 entry.1)) 80 20 rfl hwellFormed
    (by simp [only80, standalone]) hlevel (by decide)
  rw [answersEve, hhandle] at hanswers
  exact herror (by simpa using hanswers)

/-- Every registered subject but the logon is either guarded or exposed. -/
theorem mem_exposed_of_not_guarded : ∀ subject ∈ (handlers (standalone ∅) 0).map Prod.fst,
    subject ≠ lit "Logon" → subject ∉ guardedSubjects → subject ∈ exposed.map Prod.fst := by
  decide +kernel

end Exposed

/-- The configured level of a registered subject other than the logon is enforced exactly
for the subjects whose handlers check it. -/
theorem levelEnforced_iff_guarded {π σ δ τ : Type} (ctx : Context π σ δ τ) (now : ℤ)
    {subject : GoString} (hregistered : subject ∈ (handlers ctx now).map Prod.fst)
    (hlogon : subject ≠ lit "Logon") : LevelEnforced subject ↔ subject ∈ guardedSubjects := by
  constructor
  · intro henforced
    by_contra hguarded
    rw [handlers_subjects ctx now (standalone ∅) 0] at hregistered
    obtain ⟨entry, hentry, rfl⟩ := List.mem_map.mp
      (mem_exposed_of_not_guarded subject hregistered hlogon hguarded)
    exact not_levelEnforced_of_exposed hentry henforced
  · exact levelEnforced_of_guarded hregistered

/-- Deleting a user takes the configured level. -/
theorem levelEnforced_user_delete : LevelEnforced (lit "system.user.delete") :=
  (levelEnforced_iff_guarded (standalone ∅) 0 (by decide +kernel) (by decide +kernel)).mpr
    (by decide +kernel)

/-- The attribute of a group, if it is set. -/
def groupAttribute (w : Local) (movieID groupName name : GoString) : Option LValue := do
  let movie ← w.movies.lookup movieID
  let group ← movie.groups.lookup groupName
  group.attributes.lookup name

/-- Eve, of level 20, sets a group attribute although level 80 is required for it. -/
theorem groupSetAttribute_below_level :
    let ctx := only80 (lit "system.group.setAttribute")
    userLevel ctx.sessions (visiting ctx).sessions (lit "eve") = some 20 ∧
    ctx.commandLevels.lookup (lit "system.group.setAttribute") = some 80 ∧
    groupAttribute (visiting ctx) (lit "m") (lit "@g") (lit "a") = none ∧
    ∃ response w', handle ctx 0 (lit "eve")
        (commandMessage (lit "system.group.setAttribute") groupFields) (visiting ctx) =
          .ok response w' ∧
      response.errCode = errNoError ∧
      groupAttribute w' (lit "m") (lit "@g") (lit "a") = some (.integer 1) := by
  intro ctx
  refine ⟨by decide +kernel, by decide +kernel, by decide +kernel, ?_⟩
  have hanswer : (match handle ctx 0 (lit "eve")
      (commandMessage (lit "system.group.setAttribute") groupFields) (visiting ctx) with
    | .ok response w' => decide (response.errCode = errNoError ∧
        groupAttribute w' (lit "m") (lit "@g") (lit "a") = some (.integer 1))
    | .error _ _ => false) = true := by
    decide +kernel
  split at hanswer
  · rename_i response w' hhandle
    exact ⟨response, w', hhandle, by simpa using hanswer⟩
  · cases hanswer

end Musgos.Mus
