import Mathlib.Data.List.GetD
import Musgos.Foundation.Bytes
import Musgos.Foundation.Savepoints
import Musgos.Outbound.JsonIntegers
import Musgos.Outbound.SqlDialect

/-!
# Transactions inside of a migration

A migration runs in a transaction of the runner. The query builder it is given has a `Begin` of
its own, which opens a savepoint, and `ExecuteMigrationSQL` wraps its statements in one. A
migration may open any number of them and finish them in any order, or twice. What it then has
done is said by the results of its calls alone: the statements that returned without an error
count, unless a transaction that was begun before them has been rolled back after them.
-/
namespace Musgos.Outbound

open Foundation Savepoints Lingo

/-- On Postgres a command that fails aborts the transaction. -/
def Dialect.abortsTx : Dialect → Bool
  | .sqlite => false
  | .postgres => true

/-- A savepoint object, and whether it was released or rolled back. -/
structure SqlSavepoint where
  name : GoString
  done : Bool
  deriving DecidableEq

def savepointName (n : ℕ) : GoString := lit "sp_" ++ decimal n

/-- The statements of a migration for either database. -/
structure MigrationSQL (S : Type) where
  sqlite : List S
  postgres : List S

def MigrationSQL.statements {S : Type} (ddl : MigrationSQL S) : Dialect → List S
  | .sqlite => ddl.sqlite
  | .postgres => ddl.postgres

/-- The transaction of the runner, the counter of savepoints, which all transactions share, and
what `Begin` has returned so far. -/
structure SqlMigrationTx (D : Type) where
  session : Session GoString D
  savepointSeq : ℕ
  begun : List SqlSavepoint

/-- What a call returns: nothing, a transaction, `sql.ErrTxDone` or another error. There is no
call on a transaction that was never begun. -/
inductive TxResult where
  | ok
  | opened (handle : ℕ)
  | txDone
  | failed
  | unknown
  deriving DecidableEq

/-- The calls of a migration. Transactions are numbered in the order in which they are begun. -/
inductive TxCall (S : Type) where
  | exec (st : S)
  | begin
  | commit (handle : ℕ)
  | rollback (handle : ℕ)
  | executeMigrationSQL (ddl : MigrationSQL S)
  /-- Another transaction takes a number from the counter. -/
  | elsewhere

variable {S D : Type}

abbrev TxTrace (S : Type) := List (TxCall S × TxResult)

namespace SqlMigrationTx

section Calls

variable (dialect : Dialect) (sem : S → D → Option D)

def exec (t : SqlMigrationTx D) (c : Command GoString S) : SqlMigrationTx D × Bool :=
  let r := t.session.attempt sem dialect.abortsTx c
  ({ t with session := r.1 }, r.2)

def beginSavepoint (t : SqlMigrationTx D) : SqlMigrationTx D × Option SqlSavepoint :=
  let name := savepointName (t.savepointSeq + 1)
  let r := exec dialect sem { t with savepointSeq := t.savepointSeq + 1 } (.savepoint name)
  (r.1, if r.2 then some ⟨name, false⟩ else none)

/-- `sqlSavepoint.Commit`. -/
def commit (t : SqlMigrationTx D) (sp : SqlSavepoint) :
    SqlMigrationTx D × SqlSavepoint × TxResult :=
  if sp.done then (t, sp, .txDone)
  else
    let r := t.exec dialect sem (.release sp.name)
    (r.1, { sp with done := true }, if r.2 then .ok else .failed)

/-- `sqlSavepoint.Rollback`. -/
def rollback (t : SqlMigrationTx D) (sp : SqlSavepoint) :
    SqlMigrationTx D × SqlSavepoint × TxResult :=
  if sp.done then (t, sp, .txDone)
  else
    let r := t.exec dialect sem (.rollbackTo sp.name)
    if r.2 then
      let r' := r.1.exec dialect sem (.release sp.name)
      (r'.1, { sp with done := true }, if r'.2 then .ok else .failed)
    else (r.1, { sp with done := true }, .failed)

def execEach (t : SqlMigrationTx D) : List S → SqlMigrationTx D × Bool
  | [] => (t, true)
  | st :: sts =>
    let r := t.exec dialect sem (.statement st)
    if r.2 then execEach r.1 sts else (r.1, false)

def executeMigrationSQL (t : SqlMigrationTx D) (ddl : MigrationSQL S) :
    SqlMigrationTx D × TxResult :=
  match t.beginSavepoint dialect sem with
  | (t, none) => (t, .failed)
  | (t, some sp) =>
    let r := t.execEach dialect sem (ddl.statements dialect)
    if r.2 then
      let r' := r.1.commit dialect sem sp
      (r'.1, r'.2.2)
    else ((r.1.rollback dialect sem sp).1, .failed)

/-- A method of a transaction that was begun earlier. -/
def finish (t : SqlMigrationTx D) (handle : ℕ)
    (method : SqlMigrationTx D → SqlSavepoint → SqlMigrationTx D × SqlSavepoint × TxResult) :
    SqlMigrationTx D × TxResult :=
  match t.begun[handle]? with
  | none => (t, .unknown)
  | some sp =>
    let r := method t sp
    ({ r.1 with begun := r.1.begun.set handle r.2.1 }, r.2.2)

def call (t : SqlMigrationTx D) : TxCall S → SqlMigrationTx D × TxResult
  | .exec st =>
    let r := t.exec dialect sem (.statement st)
    (r.1, if r.2 then .ok else .failed)
  | .begin =>
    match t.beginSavepoint dialect sem with
    | (t, none) => (t, .failed)
    | (t, some sp) => ({ t with begun := t.begun ++ [sp] }, .opened t.begun.length)
  | .commit handle => t.finish handle (commit dialect sem)
  | .rollback handle => t.finish handle (rollback dialect sem)
  | .executeMigrationSQL ddl => t.executeMigrationSQL dialect sem ddl
  | .elsewhere => ({ t with savepointSeq := t.savepointSeq + 1 }, .ok)

/-- The transaction of the runner as it begins; other transactions may have taken numbers. -/
def start (content : D) (savepointSeq : ℕ) : SqlMigrationTx D :=
  ⟨⟨content, [], false⟩, savepointSeq, []⟩

/-- The transaction after the calls, and their results. -/
def run (t : SqlMigrationTx D) (calls : List (TxCall S)) : SqlMigrationTx D × TxTrace S :=
  calls.foldl (fun p c =>
    let r := p.1.call dialect sem c
    (r.1, p.2 ++ [(c, r.2)])) (t, [])

end Calls

end SqlMigrationTx

section History

variable (dialect : Dialect)

/-- What a call has done, as its result tells. -/
def TxCall.events : TxCall S × TxResult → List (Event S)
  | (.exec st, .ok) => [.ran st]
  | (.begin, .opened handle) => [.begun handle]
  | (.commit handle, .ok) => [.kept handle]
  | (.rollback handle, .ok) => [.undone handle]
  | (.executeMigrationSQL ddl, .ok) => (ddl.statements dialect).map .ran
  | _ => []

def TxTrace.events (trace : TxTrace S) : List (Event S) := trace.flatMap (TxCall.events dialect)

/-- The content that a trace tells of. -/
def TxTrace.content (sem : S → D → Option D) (d : D) (trace : TxTrace S) : D :=
  replay sem (surviving [] (trace.events dialect)) d

end History

namespace SqlMigrationTx

/-- What a savepoint that could be set leaves, and what `beginSavepoint` returns for it. -/
def opened (t : SqlMigrationTx D) : SqlMigrationTx D × SqlSavepoint :=
  let name := savepointName (t.savepointSeq + 1)
  ({ t with
    savepointSeq := t.savepointSeq + 1
    session := { t.session with savepoints := (name, t.session.content) :: t.session.savepoints } },
    ⟨name, false⟩)

section Commands

variable (dialect : Dialect) {sem : S → D → Option D} {t : SqlMigrationTx D}

theorem exec_of_exec {c : Command GoString S} {s : Session GoString D}
    (h : t.session.exec sem c = some s) :
    t.exec dialect sem c = ({ t with session := s }, true) := by
  rw [exec, Session.attempt_of_exec h]

theorem exec_of_none {c : Command GoString S} (h : t.session.exec sem c = none) :
    t.exec dialect sem c = ({ t with session :=
      { t.session with aborted := t.session.aborted || dialect.abortsTx } }, false) := by
  rw [exec, Session.attempt_of_none h]

variable (sem) in
/-- The statements run one by one and stop at the first that fails. -/
theorem execEach_cases (haborted : t.session.aborted = false) (sts : List S) :
    (∃ d, replay? sem sts t.session.content = some d ∧
      t.execEach dialect sem sts = ({ t with session := { t.session with content := d } }, true)) ∨
    (replay? sem sts t.session.content = none ∧ ∃ d aborted, t.execEach dialect sem sts =
      ({ t with session := ⟨d, t.session.savepoints, aborted⟩ }, false)) := by
  induction sts generalizing t with
  | nil => exact .inl ⟨t.session.content, rfl, rfl⟩
  | cons st sts ih =>
    rw [replay?, execEach]
    cases hst : sem st t.session.content with
    | none =>
      have hexec : t.session.exec sem (.statement st) = none := by simp [Session.exec, hst]
      rw [exec_of_none dialect hexec]
      exact .inr ⟨rfl, _, _, rfl⟩
    | some e =>
      rw [exec_of_exec dialect (Session.exec_statement haborted hst)]
      exact ih (t := { t with session := { t.session with content := e } }) haborted

variable (sem) in
theorem beginSavepoint_of_aborted (h : t.session.aborted = true) :
    t.beginSavepoint dialect sem = ({ t with savepointSeq := t.savepointSeq + 1 }, none) := by
  have hexec : t.session.exec sem (.savepoint (savepointName (t.savepointSeq + 1))) = none :=
    Session.exec_of_aborted h (fun _ hc => by cases hc)
  have hsame : { t.session with aborted := t.session.aborted || dialect.abortsTx } = t.session := by
    rw [h, Bool.true_or, ← h]
  have hnext := exec_of_none dialect (t := { t with savepointSeq := t.savepointSeq + 1 }) hexec
  dsimp only at hnext hsame
  rw [beginSavepoint, hnext, hsame]
  rfl

variable (sem) in
theorem beginSavepoint_of_not_aborted (h : t.session.aborted = false) :
    t.beginSavepoint dialect sem = (t.opened.1, some t.opened.2) := by
  have hexec : t.session.exec sem (.savepoint (savepointName (t.savepointSeq + 1))) = _ :=
    Session.exec_savepoint h
  have hnext := exec_of_exec dialect (t := { t with savepointSeq := t.savepointSeq + 1 }) hexec
  rw [beginSavepoint, hnext]
  rfl

variable (sem) in
theorem commit_of_from? {sp : SqlSavepoint} {p : GoString × D} {outer : List (GoString × D)}
    (hdone : sp.done = false) (haborted : t.session.aborted = false)
    (hfrom : t.session.from? sp.name = p :: outer) :
    t.commit dialect sem sp = ({ t with session := { t.session with savepoints := outer } },
      { sp with done := true }, .ok) := by
  rw [commit, hdone, exec_of_exec dialect (Session.exec_release haborted hfrom)]
  rfl

variable (sem) in
theorem rollback_of_from? {sp : SqlSavepoint} {d : D} {outer : List (GoString × D)}
    (hdone : sp.done = false) (hfrom : t.session.from? sp.name = (sp.name, d) :: outer) :
    t.rollback dialect sem sp = ({ t with session := ⟨d, outer, false⟩ },
      { sp with done := true }, .ok) := by
  have hrelease : Session.from? ⟨d, (sp.name, d) :: outer, false⟩ sp.name = (sp.name, d) :: outer :=
    Session.from?_head _ _ _ _ rfl
  have hexec : Session.exec sem ⟨d, (sp.name, d) :: outer, false⟩ (.release sp.name) = _ :=
    Session.exec_release rfl hrelease
  have hnext := exec_of_exec dialect (t := { t with session := ⟨d, (sp.name, d) :: outer, false⟩ })
    hexec
  rw [rollback, hdone, exec_of_exec dialect (Session.exec_rollbackTo hfrom)]
  simp only [hnext]
  rfl

variable (sem) in
/-- The statements between `opened` and the end of the savepoint: all succeed and it is released,
or one fails and it is rolled back to. -/
theorem execEach_opened (haborted : t.session.aborted = false) (sts : List S) :
    (∃ d u, replay? sem sts t.session.content = some d ∧
      t.opened.1.execEach dialect sem sts = (u, true) ∧
      u.commit dialect sem t.opened.2 = ({ t with
        savepointSeq := t.savepointSeq + 1
        session := { t.session with content := d } }, { t.opened.2 with done := true }, .ok)) ∨
    (∃ u, replay? sem sts t.session.content = none ∧
      t.opened.1.execEach dialect sem sts = (u, false) ∧
      u.rollback dialect sem t.opened.2 = ({ t with
        savepointSeq := t.savepointSeq + 1
        session := ⟨t.session.content, t.session.savepoints, false⟩ },
        { t.opened.2 with done := true }, .ok)) := by
  rcases execEach_cases dialect sem (t := t.opened.1) haborted sts with
    ⟨d, hall, heach⟩ | ⟨hnone, d, aborted, heach⟩
  · exact .inl ⟨d, _, hall, heach,
      commit_of_from? dialect sem rfl haborted (Session.from?_head _ _ _ _ rfl)⟩
  · exact .inr ⟨_, hnone, heach,
      rollback_of_from? dialect sem rfl (Session.from?_head _ _ _ _ rfl)⟩

end Commands

section Statements

variable (dialect : Dialect) (sem : S → D → Option D)

/-- The content after the statements of a migration for its database, if all of them can be
run. -/
def applied (t : SqlMigrationTx D) (ddl : MigrationSQL S) : Option D :=
  if t.session.aborted then none else replay? sem (ddl.statements dialect) t.session.content

theorem executeMigrationSQL_eq (t : SqlMigrationTx D) (ddl : MigrationSQL S) :
    t.executeMigrationSQL dialect sem ddl =
      ({ t with
        savepointSeq := t.savepointSeq + 1
        session := { t.session with
          content := (t.applied dialect sem ddl).getD t.session.content } },
        if (t.applied dialect sem ddl).isSome then .ok else .failed) := by
  cases haborted : t.session.aborted with
  | true =>
    rw [executeMigrationSQL, beginSavepoint_of_aborted dialect sem haborted, applied,
      if_pos haborted]
    rfl
  | false =>
    rw [executeMigrationSQL, beginSavepoint_of_not_aborted dialect sem haborted, applied,
      if_neg (by simp [haborted])]
    rcases execEach_opened dialect sem haborted (ddl.statements dialect) with
      ⟨d, u, hall, heach, hcommit⟩ | ⟨u, hnone, heach, hrollback⟩
    · simp only [heach, hcommit, hall]
      rfl
    · simp only [heach, hrollback, hnone, haborted]
      rfl

end Statements

section Tracks

/-- The names of the transactions that were begun. -/
def names (t : SqlMigrationTx D) : List GoString := t.begun.map SqlSavepoint.name

theorem savepointName_injective : Function.Injective savepointName := by
  intro m n h
  exact decimal_injective (List.append_cancel_left h)

variable (sem : S → D → Option D) (d₀ : D)

/-- The savepoints of the session are the marks of the events that are still there. -/
structure Tracks (t : SqlMigrationTx D) (es : List (Event S)) : Prop where
  proper : Proper es
  marks : begunMarks es = List.range t.begun.length
  content : t.session.content = replay sem (surviving [] es) d₀
  savepoints : t.session.savepoints = (openMarks es).map fun p =>
    (t.names.getD p.1 [], replay sem (surviving [] p.2) d₀)
  nodup : t.names.Nodup
  numbered : ∀ name ∈ t.names, ∃ n ≤ t.savepointSeq, name = savepointName n

variable {sem} {d₀} {t u : SqlMigrationTx D} {es : List (Event S)}

/-- The flags of the session and of the transactions do not matter. -/
theorem Tracks.of_same (h : Tracks sem d₀ t es) (hcontent : u.session.content = t.session.content)
    (hsavepoints : u.session.savepoints = t.session.savepoints) (hnames : u.names = t.names)
    (hseq : t.savepointSeq ≤ u.savepointSeq) : Tracks sem d₀ u es where
  proper := h.proper
  marks := by
    have hlength := congrArg List.length hnames
    simp only [names, List.length_map] at hlength
    rw [h.marks, hlength]
  content := hcontent.trans h.content
  savepoints := by rw [hsavepoints, hnames, h.savepoints]
  nodup := hnames ▸ h.nodup
  numbered := by
    intro name hname
    obtain ⟨n, hn, rfl⟩ := h.numbered name (hnames ▸ hname)
    exact ⟨n, hn.trans hseq, rfl⟩

theorem Tracks.lt_of_open (h : Tracks sem d₀ t es) {m : ℕ} {past : List (Event S)}
    (hm : (m, past) ∈ openMarks es) : m < t.names.length := by
  have hbegun := h.proper.begun_of_open hm
  rw [h.marks, List.mem_range] at hbegun
  simpa [names] using hbegun

theorem Tracks.of_content (h : Tracks sem d₀ t es) {sts : List S} {d : D}
    (hd : replay? sem sts t.session.content = some d) (hcontent : u.session.content = d)
    (hsavepoints : u.session.savepoints = t.session.savepoints) (hnames : u.names = t.names)
    (hseq : t.savepointSeq ≤ u.savepointSeq) : Tracks sem d₀ u (es ++ sts.map .ran) := by
  induction sts generalizing t es with
  | nil =>
    rw [List.map_nil, List.append_nil]
    exact h.of_same (hcontent.trans (Option.some.inj hd).symm) hsavepoints hnames hseq
  | cons st sts ih =>
    obtain ⟨e, he, hrest⟩ := Option.bind_eq_some_iff.mp hd
    have hnext : Tracks sem d₀ { t with session := { t.session with content := e } }
        (es ++ [.ran st]) :=
      { proper := h.proper.ran
        marks := by simpa [begunMarks_append, begunMarks] using h.marks
        content := by
          rw [surviving_append (by simp [undoneMarks]), replay_append, ← h.content]
          simp [surviving, undoneMarks, replay, he]
        savepoints := by rw [openMarks_ran]; exact h.savepoints
        nodup := h.nodup
        numbered := h.numbered }
    rw [List.map_cons, List.append_cons]
    exact ih hnext hrest hsavepoints hnames hseq

theorem Tracks.begun (h : Tracks sem d₀ t es) : Tracks sem d₀
    { t.opened.1 with begun := t.opened.1.begun ++ [t.opened.2] }
    (es ++ [.begun t.begun.length]) := by
  have hnames : ({ t.opened.1 with begun := t.opened.1.begun ++ [t.opened.2] } :
      SqlMigrationTx D).names = t.names ++ [savepointName (t.savepointSeq + 1)] := by
    simp [names, opened]
  have hlength : t.names.length = t.begun.length := List.length_map _
  refine ⟨h.proper.begun (by simp [h.marks]), ?_, ?_, ?_, ?_, ?_⟩
  · rw [begunMarks_append, h.marks, begunMarks, begunMarks, List.length_append,
      List.length_singleton, List.range_succ]
    rfl
  · have hsame : t.opened.1.session.content = t.session.content := rfl
    rw [surviving_append (by simp [undoneMarks]), hsame, h.content]
    simp [surviving]
  · rw [hnames, openMarks_begun, List.map_cons, ← hlength,
      List.getD_append_right _ _ _ _ le_rfl, Nat.sub_self, ← h.content]
    refine congrArg _ (h.savepoints.trans (List.map_congr_left fun p hp => ?_))
    rw [List.getD_append _ _ _ _ (h.lt_of_open hp)]
  · rw [hnames]
    refine List.nodup_append.mpr ⟨h.nodup, List.nodup_singleton _, ?_⟩
    rintro a ha b hb rfl
    obtain ⟨n, hn, hname⟩ := h.numbered a ha
    have := savepointName_injective (hname.symm.trans (List.mem_singleton.mp hb))
    omega
  · rw [hnames]
    intro name hname
    rcases List.mem_append.mp hname with hold | hnew
    · obtain ⟨n, hn, rfl⟩ := h.numbered name hold
      exact ⟨n, hn.trans (Nat.le_succ _), rfl⟩
    · exact ⟨_, le_rfl, List.mem_singleton.mp hnew⟩

/-- A savepoint is found by its name just if its mark is there. -/
theorem Tracks.from? (h : Tracks sem d₀ t es) {handle : ℕ} {sp : SqlSavepoint}
    (hsp : t.begun[handle]? = some sp) : t.session.from? sp.name =
      ((openMarks es).dropWhile fun p => p.1 ≠ handle).map fun p =>
        (t.names.getD p.1 [], replay sem (surviving [] p.2) d₀) := by
  obtain ⟨hlt, hget⟩ := List.getElem?_eq_some_iff.mp hsp
  have hname : sp.name = t.names.getD handle [] := by simp [names, hsp]
  have hlt' : handle < t.names.length := by simpa [names] using hlt
  rw [hname]
  refine Session.from?_map (f := fun m => t.names.getD m [])
    (g := fun q => replay sem (surviving [] q) d₀) h.savepoints fun p hp heq => ?_
  have hlt₂ := h.lt_of_open hp
  rw [List.getD_eq_getElem _ _ hlt₂, List.getD_eq_getElem _ _ hlt'] at heq
  exact (h.nodup.getElem_inj_iff).mp heq

theorem Tracks.found (h : Tracks sem d₀ t es) {handle : ℕ} {sp : SqlSavepoint}
    (hsp : t.begun[handle]? = some sp) {p : GoString × D} {outer : List (GoString × D)}
    (hfrom : t.session.from? sp.name = p :: outer) : ∃ past inside, (handle, past) ∈ openMarks es ∧
      ((openMarks es).dropWhile fun q => q.1 ≠ handle) = (handle, past) :: inside ∧
      p = (sp.name, replay sem (surviving [] past) d₀) ∧
      outer = inside.map fun q => (t.names.getD q.1 [], replay sem (surviving [] q.2) d₀) := by
  rw [h.from? hsp] at hfrom
  by_cases hopen : ∃ past, (handle, past) ∈ openMarks es
  · obtain ⟨_, hmem⟩ := hopen
    obtain ⟨inner, past, inside, hstack, -, hdrop⟩ := dropWhile_mark hmem
    rw [hdrop, List.map_cons] at hfrom
    obtain ⟨rfl, rfl⟩ := List.cons.inj hfrom
    have hname : t.names.getD handle [] = sp.name := by simp [names, hsp]
    exact ⟨past, inside, by rw [hstack]; simp, hdrop, by rw [hname], rfl⟩
  · rw [List.dropWhile_eq_nil_iff.mpr] at hfrom
    · cases hfrom
    · rintro ⟨m, past⟩ hm
      have hne : m ≠ handle := fun heq => hopen ⟨past, heq ▸ hm⟩
      simpa using hne

theorem Tracks.kept (h : Tracks sem d₀ t es) {handle : ℕ} {sp : SqlSavepoint}
    (hsp : t.begun[handle]? = some sp) {p : GoString × D} {outer : List (GoString × D)}
    (hfrom : t.session.from? sp.name = p :: outer) :
    Tracks sem d₀ { t with session := { t.session with savepoints := outer } }
      (es ++ [.kept handle]) := by
  obtain ⟨past, inside, hmem, hdrop, -, rfl⟩ := h.found hsp hfrom
  refine ⟨h.proper.kept ⟨past, hmem⟩, ?_, ?_, ?_, h.nodup, h.numbered⟩
  · simpa [begunMarks_append, begunMarks] using h.marks
  · rw [surviving_append (by simp [undoneMarks])]
    simpa [surviving] using h.content
  · rw [openMarks_kept, hdrop]
    rfl

theorem Tracks.undone (h : Tracks sem d₀ t es) {handle : ℕ} {sp : SqlSavepoint}
    (hsp : t.begun[handle]? = some sp) {p : GoString × D} {outer : List (GoString × D)}
    (hfrom : t.session.from? sp.name = p :: outer) :
    Tracks sem d₀ { t with session := ⟨p.2, outer, false⟩ } (es ++ [.undone handle]) := by
  obtain ⟨past, inside, hmem, hdrop, rfl, rfl⟩ := h.found hsp hfrom
  refine ⟨h.proper.undone ⟨past, hmem⟩, ?_, ?_, ?_, h.nodup, h.numbered⟩
  · simpa [begunMarks_append, begunMarks] using h.marks
  · obtain ⟨later, hes, hfree⟩ := h.proper.standing.since _ hmem
    have hfresh : handle ∉ begunMarks past := by
      have hnodup := h.proper.standing.nodup
      rw [show es = past ++ .begun handle :: later from hes, begunMarks_append] at hnodup
      exact fun hin => (List.nodup_append.mp hnodup).2.2 handle hin handle List.mem_cons_self rfl
    have hundo := surviving_undo (b := later) hfresh fun m hm hin =>
      hfree m (List.mem_append_left _ hm) (mem_finishedMarks_of_mem_undoneMarks hin)
    rw [← show es = past ++ .begun handle :: later from hes] at hundo
    rw [hundo]
  · rw [openMarks_undone, hdrop]
    rfl

end Tracks

section Finish

variable (dialect : Dialect) (sem : S → D → Option D) (t : SqlMigrationTx D) (sp : SqlSavepoint)

theorem commit_cases :
    (sp.done = true ∧ t.commit dialect sem sp = (t, sp, .txDone)) ∨
    (sp.done = false ∧ ∃ p outer, t.session.from? sp.name = p :: outer ∧
      t.commit dialect sem sp = ({ t with session := { t.session with savepoints := outer } },
        { sp with done := true }, .ok)) ∨
    (sp.done = false ∧ ∃ aborted, t.commit dialect sem sp =
      ({ t with session := { t.session with aborted := aborted } },
        { sp with done := true }, .failed)) := by
  cases hdone : sp.done with
  | true => exact .inl ⟨rfl, by rw [commit, if_pos hdone]⟩
  | false =>
    cases hexec : t.session.exec sem (.release sp.name) with
    | none =>
      refine .inr (.inr ⟨rfl, t.session.aborted || dialect.abortsTx, ?_⟩)
      rw [commit, hdone, exec_of_none dialect hexec]
      rfl
    | some s =>
      cases haborted : t.session.aborted with
      | true =>
        rw [Session.exec_of_aborted haborted (fun _ hc => by cases hc)] at hexec
        cases hexec
      | false =>
        cases hfrom : t.session.from? sp.name with
        | nil => simp [Session.exec, hfrom] at hexec
        | cons p outer =>
          exact .inr (.inl ⟨rfl, p, outer, rfl, commit_of_from? dialect sem hdone haborted hfrom⟩)

theorem rollback_cases :
    (sp.done = true ∧ t.rollback dialect sem sp = (t, sp, .txDone)) ∨
    (sp.done = false ∧ ∃ d outer, t.session.from? sp.name = (sp.name, d) :: outer ∧
      t.rollback dialect sem sp = ({ t with session := ⟨d, outer, false⟩ },
        { sp with done := true }, .ok)) ∨
    (sp.done = false ∧ t.session.from? sp.name = [] ∧ ∃ aborted, t.rollback dialect sem sp =
      ({ t with session := { t.session with aborted := aborted } },
        { sp with done := true }, .failed)) := by
  cases hdone : sp.done with
  | true => exact .inl ⟨rfl, by rw [rollback, if_pos hdone]⟩
  | false =>
    cases hfrom : t.session.from? sp.name with
    | nil =>
      have hexec : t.session.exec sem (.rollbackTo sp.name) = none := by simp [Session.exec, hfrom]
      refine .inr (.inr ⟨rfl, rfl, t.session.aborted || dialect.abortsTx, ?_⟩)
      rw [rollback, hdone, exec_of_none dialect hexec]
      rfl
    | cons p outer =>
      have hname := Session.from?_name hfrom
      obtain ⟨name, d⟩ := p
      obtain rfl := hname
      exact .inr (.inl ⟨rfl, d, outer, rfl, rollback_of_from? dialect sem hdone hfrom⟩)

end Finish

section Run

variable (dialect : Dialect) (sem : S → D → Option D) {d₀ : D} {t u : SqlMigrationTx D}
  {es : List (Event S)}

theorem Tracks.quiet {sem : S → D → Option D} (h : Tracks sem d₀ t es)
    (hcontent : u.session.content = t.session.content)
    (hsavepoints : u.session.savepoints = t.session.savepoints) (hnames : u.names = t.names)
    (hseq : t.savepointSeq ≤ u.savepointSeq) : Tracks sem d₀ u (es ++ []) := by
  rw [List.append_nil]
  exact h.of_same hcontent hsavepoints hnames hseq

theorem Tracks.set {sem : S → D → Option D} (h : Tracks sem d₀ t es) {handle : ℕ}
    {sp sp' : SqlSavepoint} (hsp : t.begun[handle]? = some sp) (hname : sp'.name = sp.name) :
    Tracks sem d₀ { t with begun := t.begun.set handle sp' } es := by
  refine h.of_same rfl rfl ?_ le_rfl
  rw [names, names, List.map_set, hname]
  refine List.ext_getElem? fun i => ?_
  by_cases hi : handle = i
  · subst hi
    obtain ⟨hlt, rfl⟩ := List.getElem?_eq_some_iff.mp hsp
    simp [hlt]
  · rw [List.getElem?_set_ne hi]

theorem Tracks.call_commit (h : Tracks sem d₀ t es) (handle : ℕ) :
    Tracks sem d₀ (t.call dialect sem (.commit handle)).1
      (es ++ TxCall.events dialect (.commit handle, (t.call dialect sem (.commit handle)).2)) := by
  rw [SqlMigrationTx.call, finish]
  cases hsp : t.begun[handle]? with
  | none => exact h.quiet rfl rfl rfl le_rfl
  | some sp =>
    rcases commit_cases dialect sem t sp with
      ⟨-, heq⟩ | ⟨-, p, outer, hfrom, heq⟩ | ⟨-, aborted, heq⟩
    · simp only [heq]
      exact (h.quiet rfl rfl rfl le_rfl).set hsp rfl
    · simp only [heq]
      exact (h.kept hsp hfrom).set hsp rfl
    · simp only [heq]
      exact Tracks.set (t := { t with session := { t.session with aborted := aborted } })
        (h.quiet rfl rfl rfl le_rfl) hsp rfl

theorem Tracks.call_rollback (h : Tracks sem d₀ t es) (handle : ℕ) :
    Tracks sem d₀ (t.call dialect sem (.rollback handle)).1
      (es ++ TxCall.events dialect
        (.rollback handle, (t.call dialect sem (.rollback handle)).2)) := by
  rw [SqlMigrationTx.call, finish]
  cases hsp : t.begun[handle]? with
  | none => exact h.quiet rfl rfl rfl le_rfl
  | some sp =>
    rcases rollback_cases dialect sem t sp with
      ⟨-, heq⟩ | ⟨-, d, outer, hfrom, heq⟩ | ⟨-, -, aborted, heq⟩
    · simp only [heq]
      exact (h.quiet rfl rfl rfl le_rfl).set hsp rfl
    · simp only [heq]
      exact (h.undone hsp hfrom).set hsp rfl
    · simp only [heq]
      exact Tracks.set (t := { t with session := { t.session with aborted := aborted } })
        (h.quiet rfl rfl rfl le_rfl) hsp rfl

theorem Tracks.call (h : Tracks sem d₀ t es) (c : TxCall S) :
    Tracks sem d₀ (t.call dialect sem c).1
      (es ++ TxCall.events dialect (c, (t.call dialect sem c).2)) := by
  cases c with
  | exec st =>
    cases hexec : t.session.exec sem (.statement st) with
    | none =>
      rw [SqlMigrationTx.call, exec_of_none dialect hexec]
      exact h.quiet rfl rfl rfl le_rfl
    | some s =>
      rw [SqlMigrationTx.call, exec_of_exec dialect hexec]
      obtain ⟨d, hd, rfl⟩ := Session.exec_statement_eq_some hexec
      have hall : replay? sem [st] t.session.content = some d := by simp [replay?, hd]
      exact h.of_content hall rfl rfl rfl le_rfl
  | begin =>
    cases haborted : t.session.aborted with
    | true =>
      rw [SqlMigrationTx.call, beginSavepoint_of_aborted dialect sem haborted]
      exact h.quiet rfl rfl rfl (Nat.le_succ _)
    | false =>
      rw [SqlMigrationTx.call, beginSavepoint_of_not_aborted dialect sem haborted]
      exact h.begun
  | commit handle => exact h.call_commit dialect sem handle
  | rollback handle => exact h.call_rollback dialect sem handle
  | executeMigrationSQL ddl =>
    rw [SqlMigrationTx.call, executeMigrationSQL_eq]
    cases happlied : t.applied dialect sem ddl with
    | none => exact h.quiet rfl rfl rfl (Nat.le_succ _)
    | some d =>
      have hall : replay? sem (ddl.statements dialect) t.session.content = some d := by
        rw [applied] at happlied
        split_ifs at happlied
        exact happlied
      exact h.of_content hall rfl rfl rfl (Nat.le_succ _)
  | elsewhere => exact h.quiet rfl rfl rfl (Nat.le_succ _)

end Run

section Rollback

/-- A call that ends the transaction, whatever it returns. -/
def Ends (handle : ℕ) (c : TxCall S) : Prop := c = .commit handle ∨ c = .rollback handle

/-- Neither has the transaction been ended since it was begun, nor has one from before it been
ended without an error. -/
def Untouched (handle : ℕ) (later : TxTrace S) : Prop :=
  ∀ x ∈ later, ¬ Ends handle x.1 ∧ ∀ g < handle, x.2 = .ok → ¬ Ends g x.1

/-- The flag of a transaction says whether it has been ended since it was begun. -/
def Flagged (t : SqlMigrationTx D) (trace : TxTrace S) : Prop :=
  ∀ before later handle, trace = before ++ (.begin, .opened handle) :: later →
    ∃ sp, t.begun[handle]? = some sp ∧ (sp.done = true ↔ ∃ x ∈ later, Ends handle x.1)

theorem Ends.unique {g handle : ℕ} {c : TxCall S} (hg : Ends g c) (h : Ends handle c) :
    g = handle := by
  rcases hg with rfl | rfl
  · simpa [Ends] using h
  · simpa [Ends] using h

variable (dialect : Dialect) (sem : S → D → Option D) (t : SqlMigrationTx D)

theorem commit_begun (sp : SqlSavepoint) : (t.commit dialect sem sp).1.begun = t.begun ∧
    (t.commit dialect sem sp).2.1.done = true := by
  rcases commit_cases dialect sem t sp with ⟨hdone, heq⟩ | ⟨-, p, outer, -, heq⟩ | ⟨-, aborted, heq⟩
  · rw [heq]; exact ⟨rfl, hdone⟩
  · rw [heq]; exact ⟨rfl, rfl⟩
  · rw [heq]; exact ⟨rfl, rfl⟩

theorem rollback_begun (sp : SqlSavepoint) : (t.rollback dialect sem sp).1.begun = t.begun ∧
    (t.rollback dialect sem sp).2.1.done = true := by
  rcases rollback_cases dialect sem t sp with
    ⟨hdone, heq⟩ | ⟨-, d, outer, -, heq⟩ | ⟨-, -, aborted, heq⟩
  · rw [heq]; exact ⟨rfl, hdone⟩
  · rw [heq]; exact ⟨rfl, rfl⟩
  · rw [heq]; exact ⟨rfl, rfl⟩

theorem finish_begun {handle : ℕ}
    {method : SqlMigrationTx D → SqlSavepoint → SqlMigrationTx D × SqlSavepoint × TxResult}
    (hmethod : ∀ sp, (method t sp).1.begun = t.begun ∧ (method t sp).2.1.done = true) :
    ∃ sp : SqlSavepoint, sp.done = true ∧
      (t.finish handle method).1.begun = t.begun.set handle sp := by
  rw [finish]
  cases hsp : t.begun[handle]? with
  | none =>
    rw [List.getElem?_eq_none_iff] at hsp
    exact ⟨⟨[], true⟩, rfl, (List.set_eq_of_length_le hsp).symm⟩
  | some sp => exact ⟨_, (hmethod sp).2, by simp only [(hmethod sp).1]⟩

theorem call_begun (c : TxCall S) :
    (∃ handle, Ends handle c ∧ ∃ sp : SqlSavepoint, sp.done = true ∧
      (t.call dialect sem c).1.begun = t.begun.set handle sp) ∨
    (c = .begin ∧ (t.call dialect sem c).2 = .opened t.begun.length ∧
      (t.call dialect sem c).1.begun = t.begun ++ [t.opened.2]) ∨
    ((∀ handle, ¬ Ends handle c) ∧ (∀ handle, (t.call dialect sem c).2 ≠ .opened handle) ∧
      (t.call dialect sem c).1.begun = t.begun) := by
  cases c with
  | exec st =>
    refine .inr (.inr ⟨by simp [Ends], fun handle => ?_, rfl⟩)
    rw [call]
    split_ifs <;> simp
  | begin =>
    cases haborted : t.session.aborted with
    | true =>
      rw [call, beginSavepoint_of_aborted dialect sem haborted]
      exact .inr (.inr ⟨by simp [Ends], by simp, rfl⟩)
    | false =>
      rw [call, beginSavepoint_of_not_aborted dialect sem haborted]
      exact .inr (.inl ⟨rfl, rfl, rfl⟩)
  | commit handle => exact .inl ⟨handle, .inl rfl, finish_begun t (commit_begun dialect sem t)⟩
  | rollback handle => exact .inl ⟨handle, .inr rfl, finish_begun t (rollback_begun dialect sem t)⟩
  | executeMigrationSQL ddl =>
    rw [call, executeMigrationSQL_eq]
    refine .inr (.inr ⟨by simp [Ends], fun handle => ?_, rfl⟩)
    dsimp only
    split_ifs <;> simp
  | elsewhere => exact .inr (.inr ⟨by simp [Ends], by simp [call], rfl⟩)

variable {t} {trace : TxTrace S}

theorem Flagged.call (h : Flagged t trace) (c : TxCall S) :
    Flagged (t.call dialect sem c).1 (trace ++ [(c, (t.call dialect sem c).2)]) := by
  intro before later handle heq
  obtain rfl | ⟨later, x, rfl⟩ := later.eq_nil_or_concat'
  · obtain ⟨-, hx⟩ := List.append_inj' heq rfl
    obtain ⟨rfl, hopened⟩ := Prod.mk.inj (List.singleton_inj.mp hx)
    rcases call_begun dialect sem t .begin with ⟨g, hg, -⟩ | ⟨-, hopened', hbegun⟩ | ⟨-, hnot, -⟩
    · simp [Ends] at hg
    · obtain rfl : t.begun.length = handle := by simpa using hopened'.symm.trans hopened
      exact ⟨t.opened.2, by rw [hbegun]; simp, by simp [opened]⟩
    · exact absurd hopened (hnot handle)
  · rw [← List.cons_append, ← List.append_assoc] at heq
    obtain ⟨htrace, hx⟩ := List.append_inj' heq rfl
    obtain rfl := List.singleton_inj.mp hx
    obtain ⟨sp, hsp, hdone⟩ := h before later handle htrace
    have hmore : ∀ x : TxCall S × TxResult, (∃ y ∈ later ++ [x], Ends handle y.1) ↔
        (∃ y ∈ later, Ends handle y.1) ∨ Ends handle x.1 := by
      intro x
      simp only [List.mem_append, List.mem_singleton, or_and_right, exists_or, exists_eq_left]
    have hlt := (List.getElem?_eq_some_iff.mp hsp).1
    rw [hmore]
    rcases call_begun dialect sem t c with
      ⟨g, hg, sp', hdone', hbegun⟩ | ⟨rfl, -, hbegun⟩ | ⟨hnot, -, hbegun⟩
    · by_cases hgh : g = handle
      · subst hgh
        exact ⟨sp', by rw [hbegun]; simp [hlt], by simp [hdone', hg]⟩
      · have hno : ¬ Ends handle c := fun hends => hgh (hg.unique hends)
        exact ⟨sp, by rw [hbegun, List.getElem?_set_ne hgh, hsp], by simp [hdone, hno]⟩
    · exact ⟨sp, by rw [hbegun, List.getElem?_append_left hlt, hsp], by simp [hdone, Ends]⟩
    · exact ⟨sp, by rw [hbegun, hsp], by simp [hdone, hnot handle]⟩

variable {d₀ : D}

end Rollback

end SqlMigrationTx

end Musgos.Outbound
