import Musgos.Foundation.Bytes

/-!
# The migration runner

`MigrationRunner.RunPending` on the transactional path: the database is its own
tracker, and every migration runs in a transaction of its own together with its
tracker row. Every step of it may fail. A failed `Up` leaves anything in the
transaction; a rollback and a failed commit leave the database as it was.
-/
namespace Musgos.Services

open Foundation

/-- `D` is the content of the database apart from the table `migrations`. -/
structure Migration (D : Type) where
  name : GoString
  up : D → D

/-- The database with the rows of `migrations`, whose names are unique. `ups` is a history
that no code reads: the migrations whose `Up` made the content what it is. -/
structure Database (D : Type) where
  content : D
  tracker : List GoString
  unique : tracker.Nodup
  ups : List (Migration D)

/-- Where an attempt to apply a migration fails, other than by the tracker's constraint. A
failed `Up` may have changed the content inside the transaction. -/
inductive Fault (D : Type) where
  | begin
  | up (left : D)
  | mark
  | commit

/-- What fails in one run: reading the tracker, and the attempt at each place of the list. -/
structure Faults (D : Type) where
  tracker : Bool
  attempt : ℕ → Option (Fault D)

/-- The errors of `RunPending`; those of `apply` name the migration. -/
inductive MigrationError where
  | getAppliedFailed
  | beginFailed (name : GoString)
  | upFailed (name : GoString)
  | markFailed (name : GoString)
  | commitFailed (name : GoString)
  deriving DecidableEq

/-- The migration an error names. -/
def MigrationError.name : MigrationError → Option GoString
  | .getAppliedFailed => none
  | .beginFailed name | .upFailed name | .markFailed name | .commitFailed name => some name

/-- What a run reports. -/
structure MigrationResult where
  total : ℕ
  applied : ℕ
  ran : List GoString
  deriving DecidableEq

variable {D : Type}

/-- A transaction: what was there when it began, and what it has made of it. -/
structure MigrationTx (D : Type) where
  committed : Database D
  working : Database D

namespace MigrationTx

def up (fault : Option (Fault D)) (m : Migration D) (tx : MigrationTx D) :
    Option MigrationError × MigrationTx D :=
  match fault with
  | some (.up left) => (some (.upFailed m.name), { tx with working.content := left })
  | _ =>
    (none, { tx with
      working.content := m.up tx.working.content
      working.ups := tx.working.ups ++ [m] })

/-- The insert fails on a name that is there already. -/
def markMigrationApplied (fault : Option (Fault D)) (name : GoString) (tx : MigrationTx D) :
    Option MigrationError × MigrationTx D :=
  match fault with
  | some .mark => (some (.markFailed name), tx)
  | _ =>
    if h : name ∈ tx.working.tracker then (some (.markFailed name), tx)
    else
      (none, { tx with
        working := { tx.working with
          tracker := tx.working.tracker ++ [name]
          unique := List.nodup_append.mpr ⟨tx.working.unique, List.nodup_singleton name, by
            rintro a ha b hb rfl
            exact h (List.mem_singleton.mp hb ▸ ha)⟩ } })

def commit (fault : Option (Fault D)) (name : GoString) (tx : MigrationTx D) :
    Option MigrationError × Database D :=
  match fault with
  | some .commit => (some (.commitFailed name), tx.committed)
  | _ => (none, tx.working)

end MigrationTx

def runMigration (fault : Option (Fault D)) (m : Migration D) (tx : MigrationTx D) :
    Option MigrationError × MigrationTx D :=
  match tx.up fault m with
  | (some e, tx) => (some e, tx)
  | (none, tx) => tx.markMigrationApplied fault m.name

/-- `apply`. Whatever goes wrong before the commit is rolled back by the deferred call. -/
def applyMigration (fault : Option (Fault D)) (m : Migration D) (db : Database D) :
    Option MigrationError × Database D :=
  match fault with
  | some .begin => (some (.beginFailed m.name), db)
  | _ =>
    match runMigration fault m ⟨db, db⟩ with
    | (some e, tx) => (some e, tx.committed)
    | (none, tx) => tx.commit fault m.name

/-- A runner made of a list: `sort.Slice` orders it by name and leaves the order of equal
names open. -/
structure MigrationRunner (D : Type) where
  given : List (Migration D)
  migrations : List (Migration D)
  perm : migrations.Perm given
  sorted : migrations.Pairwise fun m m' => m.name ≤ m'.name

namespace MigrationRunner

/-- `NewMigrationRunner`, with one of the orders that `sort.Slice` may give equal names. -/
def new (given : List (Migration D)) : MigrationRunner D :=
  have : Std.Total fun m m' : Migration D => m.name ≤ m'.name := ⟨fun _ _ => Std.le_total⟩
  have : IsTrans (Migration D) fun m m' => m.name ≤ m'.name := ⟨fun _ _ _ => Std.le_trans⟩
  { given := given
    migrations := given.insertionSort fun m m' => m.name ≤ m'.name
    perm := List.perm_insertionSort _ given
    sorted := List.pairwise_insertionSort _ given }

/-- The loop of `RunPending`, from a place in the list on. -/
def runLoop (applied : List GoString) (attempt : ℕ → Option (Fault D)) :
    ℕ → List (Migration D) → MigrationResult → Database D →
      MigrationResult × Option MigrationError × Database D
  | _, [], result, db => (result, none, db)
  | i, m :: ms, result, db =>
    if m.name ∈ applied then runLoop applied attempt (i + 1) ms result db
    else
      match applyMigration (attempt i) m db with
      | (some e, db) => (result, some e, db)
      | (none, db) =>
        runLoop applied attempt (i + 1) ms { result with ran := result.ran ++ [m.name] } db

def runPending (r : MigrationRunner D) (faults : Faults D) (db : Database D) :
    MigrationResult × Option MigrationError × Database D :=
  if faults.tracker then (⟨r.migrations.length, 0, []⟩, some .getAppliedFailed, db)
  else
    runLoop db.tracker faults.attempt 0 r.migrations
      ⟨r.migrations.length, db.tracker.length, []⟩ db

end MigrationRunner

/-- What applying migrations makes of a content. -/
def effect (ms : List (Migration D)) (content : D) : D := ms.foldl (fun c m => m.up c) content

/-- The database after the migrations `new` were committed on `db`. -/
structure Grows (db : Database D) (new : List (Migration D)) (db' : Database D) : Prop where
  ups : db'.ups = db.ups ++ new
  tracker : db'.tracker = db.tracker ++ new.map Migration.name
  content : db'.content = effect new db.content

namespace Grows

theorem refl (db : Database D) : Grows db [] db := ⟨by simp, by simp, rfl⟩

theorem trans {db db' db'' : Database D} {new new' : List (Migration D)} (h : Grows db new db')
    (h' : Grows db' new' db'') : Grows db (new ++ new') db'' where
  ups := by rw [h'.ups, h.ups, List.append_assoc]
  tracker := by rw [h'.tracker, h.tracker, List.map_append, List.append_assoc]
  content := by rw [h'.content, h.content, effect, effect, effect, List.foldl_append]

end Grows

/-- An attempt commits the effect of `Up` and the tracker row, or neither. -/
theorem applyMigration_cases (fault : Option (Fault D)) (m : Migration D) (db : Database D) :
    ((applyMigration fault m db).1 = none ∧ Grows db [m] (applyMigration fault m db).2) ∨
      ∃ e, MigrationError.name e = some m.name ∧ applyMigration fault m db = (some e, db) := by
  by_cases hnew : m.name ∈ db.tracker
  · right
    rcases fault with _ | _ | _ | _ | _ <;>
      simp [applyMigration, runMigration, MigrationTx.up, MigrationTx.markMigrationApplied,
        MigrationError.name, hnew]
  · rcases fault with _ | _ | _ | _ | _
    case none =>
      left
      simp only [applyMigration, runMigration, MigrationTx.up, MigrationTx.markMigrationApplied,
        hnew, dite_false, MigrationTx.commit, true_and]
      exact ⟨rfl, rfl, rfl⟩
    all_goals
      right
      simp [applyMigration, runMigration, MigrationTx.up, MigrationTx.markMigrationApplied,
        MigrationTx.commit, MigrationError.name, hnew]

/-- How far a run got in a list of migrations: through a first part of it, of which it
committed what was not applied before, up to the end of the list or to the migration its
error names. -/
def WentThrough (applied : List GoString) (ms new : List (Migration D))
    (err : Option MigrationError) : Prop :=
  ∃ done rest, ms = done ++ rest ∧ new = done.filter (fun m => m.name ∉ applied) ∧
    (err = none → rest = []) ∧
    ∀ e, err = some e → ∃ m later, rest = m :: later ∧ e.name = some m.name

namespace MigrationRunner

theorem runLoop_spec (applied : List GoString) (attempt : ℕ → Option (Fault D)) (i : ℕ)
    (ms : List (Migration D)) (result : MigrationResult) (db : Database D) :
    let r := runLoop applied attempt i ms result db
    ∃ new, Grows db new r.2.2 ∧ WentThrough applied ms new r.2.1 ∧
      r.1 = { result with ran := result.ran ++ new.map Migration.name } := by
  induction ms generalizing i result db with
  | nil =>
    exact ⟨[], .refl db, ⟨[], [], rfl, rfl, fun _ => rfl, by simp [runLoop]⟩, by simp [runLoop]⟩
  | cons m ms ih =>
    by_cases hskip : m.name ∈ applied
    · obtain ⟨new, hgrows, ⟨done, rest, hms, hnew, hstop⟩, hresult⟩ := ih (i + 1) result db
      simp only [runLoop, if_pos hskip]
      refine ⟨new, hgrows, ⟨m :: done, rest, by rw [hms]; rfl, ?_, hstop⟩, hresult⟩
      rw [hnew, List.filter_cons_of_neg (by simpa using hskip)]
    · simp only [runLoop, if_neg hskip]
      obtain ⟨hok, hgrows⟩ | ⟨e, hname, hfailed⟩ := applyMigration_cases (attempt i) m db
      · obtain ⟨db₁, hcommitted⟩ : ∃ db₁, applyMigration (attempt i) m db = (none, db₁) :=
          ⟨_, Prod.ext hok rfl⟩
        rw [hcommitted] at hgrows ⊢
        obtain ⟨new, hlater, ⟨done, rest, hms, hnew, hstop⟩, hresult⟩ :=
          ih (i + 1) { result with ran := result.ran ++ [m.name] } db₁
        refine ⟨m :: new, hgrows.trans hlater, ⟨m :: done, rest, by rw [hms]; rfl, ?_, hstop⟩, ?_⟩
        · rw [hnew, List.filter_cons_of_pos (by simpa using hskip)]
        · rw [hresult, List.append_assoc]
          rfl
      · rw [hfailed]
        refine ⟨[], .refl db, ⟨[], m :: ms, rfl, rfl, by simp, ?_⟩, by simp⟩
        rintro _ ⟨rfl⟩
        exact ⟨m, ms, rfl, hname⟩

/-- A run that can read the tracker commits what it goes through; one that cannot does
nothing. -/
theorem runPending_spec (r : MigrationRunner D) (faults : Faults D) (db : Database D) :
    let run := r.runPending faults db
    ∃ new, Grows db new run.2.2 ∧ run.1.ran = new.map Migration.name ∧
      ((new = [] ∧ run.2.1 = some .getAppliedFailed) ∨
        WentThrough db.tracker r.migrations new run.2.1) := by
  by_cases hread : faults.tracker = true
  · rw [runPending, if_pos hread]
    exact ⟨[], .refl db, rfl, .inl ⟨rfl, rfl⟩⟩
  · rw [runPending, if_neg hread]
    obtain ⟨new, hgrows, hthrough, hresult⟩ := runLoop_spec db.tracker faults.attempt 0 r.migrations
      ⟨r.migrations.length, db.tracker.length, []⟩ db
    exact ⟨new, hgrows, by simp [hresult], .inr hthrough⟩

/-- The names committed in one run ascend: the list is sorted, and none is committed twice. -/
theorem ascending {r : MigrationRunner D} {db db' : Database D} {new : List (Migration D)}
    {err : Option MigrationError} (hgrows : Grows db new db')
    (hthrough : WentThrough db.tracker r.migrations new err) :
    (new.map Migration.name).Pairwise (· < ·) := by
  obtain ⟨done, rest, hms, hnew, -⟩ := hthrough
  have hsub : new.Sublist r.migrations := by
    rw [hnew, hms]
    exact List.filter_sublist.trans (List.sublist_append_left done rest)
  have hle : (new.map Migration.name).Pairwise (· ≤ ·) :=
    List.pairwise_map.mpr (r.sorted.sublist hsub)
  have hnodup : (new.map Migration.name).Nodup := by
    have hunique := db'.unique
    rw [hgrows.tracker] at hunique
    exact (List.nodup_append.mp hunique).2.1
  exact (hle.and hnodup).imp fun ⟨hle, hne⟩ => Std.lt_of_le_of_ne hle hne

/-- A run that has gone through the whole list leaves every listed name in the tracker. -/
theorem complete {r : MigrationRunner D} {db db' : Database D} {new : List (Migration D)}
    (hgrows : Grows db new db') (hthrough : WentThrough db.tracker r.migrations new none) :
    ∀ m ∈ r.given, m.name ∈ db'.tracker := by
  obtain ⟨done, rest, hms, hnew, hend, -⟩ := hthrough
  intro m hm
  rw [hgrows.tracker, List.mem_append]
  by_cases hbefore : m.name ∈ db.tracker
  · exact .inl hbefore
  · refine .inr (List.mem_map_of_mem ?_)
    rw [hnew, List.mem_filter]
    rw [← r.perm.mem_iff, hms, hend rfl, List.append_nil] at hm
    exact ⟨hm, by simpa using hbefore⟩

end MigrationRunner

/-- One start of the server: a list of migrations and what fails. -/
structure MigrationRun (D : Type) where
  runner : MigrationRunner D
  faults : Faults D

def MigrationRun.after (run : MigrationRun D) (db : Database D) : Database D :=
  (run.runner.runPending run.faults db).2.2

/-- The database after one run after the other. -/
def runAll (runs : List (MigrationRun D)) (db : Database D) : Database D :=
  runs.foldl (fun db run => run.after db) db

theorem runAll_grows (runs : List (MigrationRun D)) (db : Database D) :
    ∃ new, Grows db new (runAll runs db) := by
  induction runs generalizing db with
  | nil => exact ⟨[], .refl db⟩
  | cons run runs ih =>
    obtain ⟨new, hfirst, -⟩ := run.runner.runPending_spec run.faults db
    obtain ⟨new', hlater⟩ := ih (run.after db)
    exact ⟨new ++ new', hfirst.trans hlater⟩

/-- After any number of runs and one more, whatever failed in them: the tracker has the
names it had at the start and those of the committed migrations, each once, and the
content is the effect of these. The last run has committed its names in ascending order
up to the first failure, and all that were missing if there was none. -/
theorem migrations_commit_atomically_in_order (start : Database D) (hstart : start.ups = [])
    (runs : List (MigrationRun D)) (last : MigrationRun D) :
    let before := runAll runs start
    let r := last.runner.runPending last.faults before
    let after := r.2.2
    after.tracker = start.tracker ++ after.ups.map Migration.name ∧
    after.content = effect after.ups start.content ∧
    (after.ups.map Migration.name).Nodup ∧
    (∃ new, after.ups = before.ups ++ new ∧ (new.map Migration.name).Pairwise (· < ·) ∧
      ((new = [] ∧ r.2.1 = some .getAppliedFailed) ∨
        WentThrough before.tracker last.runner.migrations new r.2.1)) ∧
    (r.2.1 = none → ∀ m ∈ last.runner.given, m.name ∈ after.tracker) := by
  intro before r after
  obtain ⟨old, hold⟩ := runAll_grows runs start
  obtain ⟨new, hgrows, -, hthrough⟩ := last.runner.runPending_spec last.faults before
  have hall : Grows start (old ++ new) after := hold.trans hgrows
  have hups : after.ups = old ++ new := by rw [hall.ups, hstart, List.nil_append]
  refine ⟨by rw [hall.tracker, hups], by rw [hall.content, hups], ?_,
    ⟨new, hgrows.ups, ?_, hthrough⟩, ?_⟩
  · have hunique := after.unique
    rw [hall.tracker, ← hups] at hunique
    exact (List.nodup_append.mp hunique).2.1
  · rcases hthrough with ⟨rfl, -⟩ | hthrough
    · exact .nil
    · exact MigrationRunner.ascending hgrows hthrough
  · intro hok
    rcases hthrough with ⟨-, hread⟩ | hthrough
    · rw [hok] at hread
      cases hread
    · exact MigrationRunner.complete hgrows (hok ▸ hthrough)

/-- Two migrations out of order and a third with a name that is taken by then. -/
def threeMigrations : MigrationRunner ℕ :=
  .new [⟨lit "2_b", (2 * ·)⟩, ⟨lit "1_a", (· + 3)⟩, ⟨lit "2_b", (5 * ·)⟩]

/-- The first start fails to commit the second migration, the second start commits it and
stops at the third. -/
theorem migrations_commit_restarted :
    let start : Database ℕ := ⟨0, [], .nil, []⟩
    let failing : MigrationRun ℕ :=
      ⟨threeMigrations, false, fun i => if i = 1 then some .commit else none⟩
    let last : MigrationRun ℕ := ⟨threeMigrations, false, fun _ => none⟩
    let before := runAll [failing] start
    let r := last.runner.runPending last.faults before
    let after := r.2.2
    (before.tracker = [lit "1_a"] ∧ after.content = 6 ∧ r.2.1 = some (.markFailed (lit "2_b"))) ∧
    after.tracker = start.tracker ++ after.ups.map Migration.name ∧
    after.content = effect after.ups start.content ∧
    (after.ups.map Migration.name).Nodup ∧
    (∃ new, after.ups = before.ups ++ new ∧ (new.map Migration.name).Pairwise (· < ·) ∧
      ((new = [] ∧ r.2.1 = some .getAppliedFailed) ∨
        WentThrough before.tracker last.runner.migrations new r.2.1)) ∧
    (r.2.1 = none → ∀ m ∈ last.runner.given, m.name ∈ after.tracker) :=
  ⟨by decide +kernel, migrations_commit_atomically_in_order _ rfl _ _⟩

end Musgos.Services
