import Musgos.Foundation.GoMap
import Musgos.Foundation.Savepoints
import Musgos.Outbound.QueryBuilder

/-!
# Transactions of scripts

`mus.db.transaction` makes a transaction the builder that `mus.db.table` goes through, calls the
function of the script and puts the root builder back. A query object keeps the executor of the
builder it was made by. One from before the transaction still works on the root connection when
it is used inside, and what it does is not undone. What a script does is a tree of calls; the
errors that it raises or catches and the outcomes of begin, commit and rollback are part of it.
Which of its variables may hold an object from before is a matter of the text of the script.
-/
namespace Musgos.Outbound

open Foundation

/-- What a query runs on: the connection pool, or a transaction. -/
inductive DbExecutor where
  | root
  | tx (id : ℕ)
  deriving DecidableEq

/-- A transaction: the statements it has executed, and whether it is over. -/
structure SqlTx (V : Type) where
  pending : List (Statement V)
  done : Bool

/-- One executed table operation, with the database before and after it. -/
structure OperationRecord (D : Type) where
  executor : DbExecutor
  before : D
  after : D
  deriving DecidableEq

/-- What the functions of the module share, the variables of the script that hold query objects,
and a log of the operations. -/
structure DbSession (V D : Type) where
  database : D
  txs : List (SqlTx V)
  active : DbExecutor
  queries : GoMap ℕ (SqlQuery DbExecutor V)
  log : List (OperationRecord D)

/-- How `mus.db.transaction` ends: it returns `true`, returns `false` or raises an error. -/
inductive TransactionResult where
  | committed
  | rolledBack
  | raised
  deriving DecidableEq

/-- How a function of the script ends. -/
inductive ScriptOutcome where
  | returned
  | returnedFalse
  | raised
  deriving DecidableEq

/-- Whether `pcall` has caught an error. -/
@[simp] def ScriptOutcome.failed : ScriptOutcome → Bool
  | .raised => true
  | .returned | .returnedFalse => false

variable {V D : Type}

namespace DbSession

section Executing

-- what a statement does to a database; `none` is an error
variable (sem : Statement V → D → Option D)

/-- A statement on the pool takes effect, one in a transaction does when that is committed, and
sees what the transaction has done so far. In a transaction that is over it is an error. -/
def execOn (s : DbSession V D) (st : Statement V) : DbExecutor → Option (DbSession V D)
  | .root => (sem st s.database).map fun d => { s with database := d }
  | .tx id =>
    match s.txs[id]? with
    | some ⟨pending, false⟩ =>
      (sem st (Savepoints.replay sem pending s.database)).map fun _ =>
        { s with txs := s.txs.set id ⟨pending ++ [st], false⟩ }
    | _ => none

/-- The session after an operation, and whether it returns. -/
def execute (s : DbSession V D) (x : DbExecutor) (st : Statement V) : DbSession V D × Bool :=
  let t := (s.execOn sem st x).getD s
  ({ t with log := s.log ++ [⟨x, s.database, t.database⟩] }, (s.execOn sem st x).isSome)

def finish (s : DbSession V D) (id : ℕ) : DbSession V D :=
  { s with txs := s.txs.modify id fun tx => { tx with done := true } }

def rollback (s : DbSession V D) (id : ℕ) : DbSession V D := s.finish id

def commit (s : DbSession V D) (id : ℕ) : DbSession V D :=
  { s.finish id with
    database := Savepoints.replay sem ((s.txs[id]?).elim [] SqlTx.pending) s.database }

/-- `x = mus.db.table(name)`. -/
def table (dialect : Dialect) (s : DbSession V D) (x : ℕ) (name : GoString) : DbSession V D :=
  { s with
    queries := s.queries.insert x ((⟨s.active, dialect⟩ : SqlQueryBuilder DbExecutor).table name) }

/-- `Begin`, and the transaction as the active builder. -/
def begin (s : DbSession V D) : DbSession V D :=
  { s with txs := s.txs ++ [⟨[], false⟩], active := .tx s.txs.length }

/-- `mus.db.transaction`. The function of the script is called in protected mode; the flags say
whether `Begin`, `Commit` and `Rollback` return without an error. -/
def transaction (s : DbSession V D) (begins commits rollsBack : Bool)
    (fn : DbSession V D → DbSession V D × ScriptOutcome) : DbSession V D × TransactionResult :=
  if s.active ≠ .root then (s, .raised)
  else if begins = false then (s, .raised)
  else
    let id := s.txs.length
    let (s, outcome) := fn s.begin
    let s := { s with active := .root }
    match outcome with
    | .raised => (s.rollback id, .raised)
    | .returnedFalse => (s.rollback id, if rollsBack then .rolledBack else .raised)
    | .returned =>
      if commits then (s.commit sem id, .committed) else (s.rollback id, .raised)

end Executing

end DbSession

/-- What a script does with tables; `x` and `y` are variables. -/
inductive DbScript (V : Type) where
  | done
  | returnFalse
  /-- An error, whatever raises it; a timeout is one too. -/
  | raise
  /-- `x = mus.db.table(name)`. -/
  | table (x : ℕ) (name : GoString) (next : DbScript V)
  /-- `x = y:where(column, operator, value)`. -/
  | addWhere (x y : ℕ) (column : GoString) (operator : WhereOperator) (value : Option V)
    (next : DbScript V)
  /-- An operation through the object in `x`. -/
  | perform (x : ℕ) (ord : RangeOrder GoString) (op : SqlOperation V) (next : DbScript V)
  | transaction (begins commits rollsBack : Bool) (fn next : DbScript V)
  /-- A call of which the script catches the error, and goes on in one of two ways. -/
  | pcall (body returned raised : DbScript V)

namespace DbScript

/-- The session after the script, and how it ends. -/
def run (sem : Statement V → D → Option D) (dialect : Dialect) :
    DbScript V → DbSession V D → DbSession V D × ScriptOutcome
  | .done, s => (s, .returned)
  | .returnFalse, s => (s, .returnedFalse)
  | .raise, s => (s, .raised)
  | .table x name next, s => next.run sem dialect (s.table dialect x name)
  | .addWhere x y column operator value next, s =>
    match s.queries.lookup y with
    | none => (s, .raised)
    | some q =>
      next.run sem dialect
        { s with queries := s.queries.insert x (q.addWhere column operator value) }
  | .perform x ord op next, s =>
    match s.queries.lookup x with
    | none => (s, .raised)
    | some q =>
      match q.statement ord op with
      | .error _ => (s, .raised)
      | .ok st =>
        let result := s.execute sem q.exec st
        if result.2 then next.run sem dialect result.1 else (result.1, .raised)
  | .transaction begins commits rollsBack fn next, s =>
    let result := s.transaction sem begins commits rollsBack (fn.run sem dialect)
    if result.2 = .raised then (result.1, .raised) else next.run sem dialect result.1
  | .pcall body returned raised, s =>
    let result := body.run sem dialect s
    if result.2.failed then raised.run sem dialect result.1
    else returned.run sem dialect result.1

/-- `x` gets what is derived from `y`: of the variables in `outer`, which may hold an object of
the root connection, those that may do so then. -/
def derived (outer : Finset ℕ) (x y : ℕ) : Finset ℕ :=
  if y ∈ outer then insert x outer else outer.erase x

/-- The variables that may hold an object of the root connection when a script inside of a
transaction has returned, or has raised an error. Any operation may fail, and a transaction
inside of one does. -/
def leaves : DbScript V → Finset ℕ → (raises : Bool) → Finset ℕ
  | .done, outer, raises => if raises then ∅ else outer
  | .returnFalse, outer, raises => if raises then ∅ else outer
  | .raise, outer, raises => if raises then outer else ∅
  | .table x _ next, outer, raises => next.leaves (outer.erase x) raises
  | .addWhere x y _ _ _ next, outer, raises =>
    (if raises then outer else ∅) ∪ next.leaves (derived outer x y) raises
  | .perform _ _ _ next, outer, raises =>
    (if raises then outer else ∅) ∪ next.leaves outer raises
  | .transaction _ _ _ _ _, outer, raises => if raises then outer else ∅
  | .pcall body returned raised, outer, raises =>
    returned.leaves (body.leaves outer false) raises ∪
      raised.leaves (body.leaves outer true) raises

/-- No operation of the script goes through a variable that may hold an object of the root
connection. -/
def Confined : DbScript V → Finset ℕ → Prop
  | .done, _ => True
  | .returnFalse, _ => True
  | .raise, _ => True
  | .table x _ next, outer => next.Confined (outer.erase x)
  | .addWhere x y _ _ _ next, outer => next.Confined (derived outer x y)
  | .perform x _ _ next, outer => x ∉ outer ∧ next.Confined outer
  | .transaction _ _ _ _ _, _ => True
  | .pcall body returned raised, outer =>
    body.Confined outer ∧ returned.Confined (body.leaves outer false) ∧
      raised.Confined (body.leaves outer true)

end DbScript

/-- The variables that hold an object of the root connection. -/
def DbSession.outer (s : DbSession V D) : Finset ℕ :=
  s.queries.keys.filter fun x => (s.queries.lookup x).any (·.exec = .root)

section Tracing

/-- The operations, one after the other, lead from one database to the other. -/
inductive Traced : D → List (OperationRecord D) → D → Prop
  | nil (d : D) : Traced d [] d
  | cons {o : OperationRecord D} {ops : List (OperationRecord D)} {d : D}
    (h : Traced o.after ops d) : Traced o.before (o :: ops) d

theorem Traced.append {d d' d'' : D} {as bs : List (OperationRecord D)} (h : Traced d as d')
    (h' : Traced d' bs d'') : Traced d (as ++ bs) d'' := by
  induction h with
  | nil => exact h'
  | cons _ ih => exact .cons (ih h')

theorem Traced.eq_of_unchanged {d d' : D} {ops : List (OperationRecord D)} (h : Traced d ops d')
    (hops : ∀ o ∈ ops, o.after = o.before) : d' = d := by
  induction h with
  | nil => rfl
  | cons _ ih =>
    obtain ⟨ho, hops⟩ := List.forall_mem_cons.mp hops
    exact (ih hops).trans ho

/-- What happens to a session in a transaction: the active builder stays, the database changes by
operations only, and not by those of a transaction. -/
structure Enrolled (s t : DbSession V D) (ops : List (OperationRecord D)) : Prop where
  active : t.active = s.active
  log : t.log = s.log ++ ops
  traced : Traced s.database ops t.database
  spared : ∀ o ∈ ops, o.executor ≠ .root → o.after = o.before

variable {s t u : DbSession V D} {as bs : List (OperationRecord D)}

theorem Enrolled.refl (s : DbSession V D) : Enrolled s s [] :=
  ⟨rfl, (List.append_nil _).symm, .nil _, nofun⟩

theorem Enrolled.trans (h : Enrolled s t as) (h' : Enrolled t u bs) : Enrolled s u (as ++ bs) where
  active := h'.active.trans h.active
  log := by rw [h'.log, h.log, List.append_assoc]
  traced := h.traced.append h'.traced
  spared := List.forall_mem_append.mpr ⟨h.spared, h'.spared⟩

theorem enrolled_query (s : DbSession V D) (queries : GoMap ℕ (SqlQuery DbExecutor V)) :
    Enrolled s { s with queries := queries } [] :=
  ⟨rfl, (List.append_nil _).symm, .nil _, nofun⟩

variable (sem : Statement V → D → Option D) (dialect : Dialect)

theorem execOn_keeps {x : DbExecutor} {st : Statement V} (h : s.execOn sem st x = some t) :
    t.active = s.active ∧ t.queries = s.queries ∧ (x ≠ .root → t.database = s.database) := by
  cases x with
  | root =>
    obtain ⟨d, -, rfl⟩ := Option.map_eq_some_iff.mp h
    exact ⟨rfl, rfl, fun hne => absurd rfl hne⟩
  | tx id =>
    simp only [DbSession.execOn] at h
    split at h
    · obtain ⟨d, -, rfl⟩ := Option.map_eq_some_iff.mp h
      exact ⟨rfl, rfl, fun _ => rfl⟩
    · cases h

theorem getD_keeps (s : DbSession V D) (x : DbExecutor) (st : Statement V) :
    ((s.execOn sem st x).getD s).active = s.active ∧
      ((s.execOn sem st x).getD s).queries = s.queries ∧
      (x ≠ .root → ((s.execOn sem st x).getD s).database = s.database) := by
  cases h : s.execOn sem st x with
  | none => exact ⟨rfl, rfl, fun _ => rfl⟩
  | some t => exact execOn_keeps sem h

theorem enrolled_execute (s : DbSession V D) (x : DbExecutor) (st : Statement V) :
    Enrolled s (s.execute sem x st).1
      [⟨x, s.database, ((s.execOn sem st x).getD s).database⟩] := by
  obtain ⟨hactive, -, hdatabase⟩ := getD_keeps sem s x st
  have htraced : Traced s.database
      [⟨x, s.database, ((s.execOn sem st x).getD s).database⟩] _ :=
    Traced.cons (o := ⟨x, s.database, _⟩) (.nil _)
  exact ⟨hactive, rfl, htraced, List.forall_mem_singleton.mpr hdatabase⟩

theorem transaction_not_begun {begins : Bool} (h : s.active ≠ .root ∨ begins = false)
    (commits rollsBack : Bool) (fn : DbSession V D → DbSession V D × ScriptOutcome) :
    s.transaction sem begins commits rollsBack fn = (s, .raised) := by
  by_cases hs : s.active = .root
  · have hbegins := h.resolve_left (not_not.mpr hs)
    rw [DbSession.transaction, if_neg (not_not.mpr hs), if_pos hbegins]
  · rw [DbSession.transaction, if_pos hs]

/-- Inside a transaction no other is begun, so that nothing is committed. -/
theorem run_enrolled (script : DbScript V) (hs : s.active ≠ .root) :
    ∃ ops, Enrolled s (script.run sem dialect s).1 ops := by
  induction script generalizing s with
  | done => exact ⟨[], .refl s⟩
  | returnFalse => exact ⟨[], .refl s⟩
  | raise => exact ⟨[], .refl s⟩
  | table x name next ih =>
    obtain ⟨ops, hnext⟩ := ih (s := s.table dialect x name) hs
    exact ⟨_, (enrolled_query s _).trans hnext⟩
  | addWhere x y column operator value next ih =>
    rw [DbScript.run]
    cases s.queries.lookup y with
    | none => exact ⟨[], .refl s⟩
    | some q =>
      obtain ⟨ops, hnext⟩ :=
        ih (s := { s with queries := s.queries.insert x (q.addWhere column operator value) }) hs
      exact ⟨_, (enrolled_query s _).trans hnext⟩
  | perform x ord op next ih =>
    rw [DbScript.run]
    cases s.queries.lookup x with
    | none => exact ⟨[], .refl s⟩
    | some q =>
      dsimp only
      cases q.statement ord op with
      | error e => exact ⟨[], .refl s⟩
      | ok st =>
        have hop := enrolled_execute sem s q.exec st
        dsimp only
        split_ifs
        · obtain ⟨ops, hnext⟩ := ih (s := (s.execute sem q.exec st).1) (hop.active ▸ hs)
          exact ⟨_, hop.trans hnext⟩
        · exact ⟨_, hop⟩
  | transaction begins commits rollsBack fn next _ _ =>
    rw [DbScript.run, transaction_not_begun sem (.inl hs), if_pos rfl]
    exact ⟨[], .refl s⟩
  | pcall body returned raised ihb ihr ihe =>
    obtain ⟨ops, hbody⟩ := ihb hs
    have hactive : (body.run sem dialect s).1.active ≠ .root := hbody.active ▸ hs
    rw [DbScript.run]
    split_ifs
    · obtain ⟨ops', hnext⟩ := ihe hactive
      exact ⟨_, hbody.trans hnext⟩
    · obtain ⟨ops', hnext⟩ := ihr hactive
      exact ⟨_, hbody.trans hnext⟩

/-- The variables with an object of the root connection are among those. -/
def Covers (outer : Finset ℕ) (s : DbSession V D) : Prop :=
  ∀ x q, s.queries.lookup x = some q → q.exec = .root → x ∈ outer

theorem covers_outer (s : DbSession V D) : Covers s.outer s := by
  intro x q hx hq
  have hkey : x ∈ s.queries.keys := Finmap.mem_keys.mpr (Finmap.mem_of_lookup_eq_some hx)
  exact Finset.mem_filter.mpr ⟨hkey, by simp [hx, hq]⟩

variable {outer : Finset ℕ}

theorem Covers.congr (h : Covers outer s) (hqueries : t.queries = s.queries) : Covers outer t :=
  fun x q hx => h x q (hqueries ▸ hx)

theorem Covers.mono {outer' : Finset ℕ} (h : Covers outer s) (hsub : outer ⊆ outer') :
    Covers outer' s :=
  fun x q hx hq => hsub (h x q hx hq)

theorem Covers.table (h : Covers outer s) (hs : s.active ≠ .root) (x : ℕ) (name : GoString) :
    Covers (outer.erase x) (s.table dialect x name) := by
  intro z q hz hq
  simp only [DbSession.table, GoMap.lookup_insert_ite] at hz
  split_ifs at hz with hzx
  · obtain rfl := Option.some.inj hz
    exact absurd hq hs
  · exact Finset.mem_erase.mpr ⟨hzx, h z q hz hq⟩

theorem Covers.derived (h : Covers outer s) {x y : ℕ} {q : SqlQuery DbExecutor V}
    (hy : s.queries.lookup y = some q) (column : GoString) (operator : WhereOperator)
    (value : Option V) :
    Covers (DbScript.derived outer x y)
      { s with queries := s.queries.insert x (q.addWhere column operator value) } := by
  intro z q' hz hq'
  simp only [GoMap.lookup_insert_ite] at hz
  unfold DbScript.derived
  split_ifs at hz with hzx
  · obtain rfl := Option.some.inj hz
    rw [if_pos (h y q hy hq'), hzx]
    exact Finset.mem_insert_self x outer
  · have hzo := h z q' hz hq'
    split_ifs
    · exact Finset.mem_insert_of_mem hzo
    · exact Finset.mem_erase.mpr ⟨hzx, hzo⟩

/-- The session after a script was foreseen, whether it has raised an error or not. -/
theorem run_covers (script : DbScript V) (hs : s.active ≠ .root) (h : Covers outer s) :
    Covers (script.leaves outer (script.run sem dialect s).2.failed)
      (script.run sem dialect s).1 := by
  induction script generalizing s outer with
  | done => simpa [DbScript.run, DbScript.leaves] using h
  | returnFalse => simpa [DbScript.run, DbScript.leaves] using h
  | raise => simpa [DbScript.run, DbScript.leaves] using h
  | table x name next ih => exact ih hs (h.table dialect hs x name)
  | addWhere x y column operator value next ih =>
    rw [DbScript.run]
    cases hy : s.queries.lookup y with
    | none => exact h.mono (by simp [DbScript.leaves])
    | some q =>
      exact (ih (s := { s with queries := s.queries.insert x (q.addWhere column operator value) })
        hs (h.derived hy column operator value)).mono Finset.subset_union_right
  | perform x ord op next ih =>
    rw [DbScript.run]
    cases s.queries.lookup x with
    | none => exact h.mono (by simp [DbScript.leaves])
    | some q =>
      dsimp only
      cases q.statement ord op with
      | error e => exact h.mono (by simp [DbScript.leaves])
      | ok st =>
        obtain ⟨hactive, hqueries, -⟩ := getD_keeps sem s q.exec st
        have hop : Covers outer (s.execute sem q.exec st).1 := h.congr hqueries
        dsimp only
        split_ifs
        · exact (ih (hactive ▸ hs) hop).mono Finset.subset_union_right
        · exact hop.mono (by simp [DbScript.leaves])
  | transaction begins commits rollsBack fn next _ _ =>
    rw [DbScript.run, transaction_not_begun sem (.inl hs), if_pos rfl]
    simpa [DbScript.leaves] using h
  | pcall body returned raised ihb ihr ihe =>
    obtain ⟨ops, henrolled⟩ := run_enrolled sem dialect body hs
    have hactive : (body.run sem dialect s).1.active ≠ .root := henrolled.active ▸ hs
    have hbody := ihb hs h
    rw [DbScript.run]
    split_ifs with hraised
    · rw [hraised] at hbody
      exact (ihe hactive hbody).mono Finset.subset_union_right
    · rw [Bool.eq_false_iff.mpr hraised] at hbody
      exact (ihr hactive hbody).mono Finset.subset_union_left

/-- No operation since then was one on the pool. -/
def Aside (s t : DbSession V D) : Prop :=
  ∃ ops, t.log = s.log ++ ops ∧ ∀ o ∈ ops, o.executor ≠ .root

theorem Aside.refl (s : DbSession V D) : Aside s s := ⟨[], (List.append_nil _).symm, nofun⟩

theorem Aside.trans (h : Aside s t) (h' : Aside t u) : Aside s u := by
  obtain ⟨ops, hlog, hops⟩ := h
  obtain ⟨ops', hlog', hops'⟩ := h'
  exact ⟨ops ++ ops', by rw [hlog', hlog, List.append_assoc],
    List.forall_mem_append.mpr ⟨hops, hops'⟩⟩

/-- The operations of a confined script stay in the transaction. -/
theorem run_confined (script : DbScript V) (hs : s.active ≠ .root) (h : Covers outer s)
    (hconfined : script.Confined outer) : Aside s (script.run sem dialect s).1 := by
  induction script generalizing s outer with
  | done => exact .refl s
  | returnFalse => exact .refl s
  | raise => exact .refl s
  | table x name next ih => exact ih hs (h.table dialect hs x name) hconfined
  | addWhere x y column operator value next ih =>
    rw [DbScript.run]
    cases hy : s.queries.lookup y with
    | none => exact .refl s
    | some q => exact ih hs (h.derived hy column operator value) hconfined
  | perform x ord op next ih =>
    obtain ⟨hx, hnext⟩ := hconfined
    rw [DbScript.run]
    cases hq : s.queries.lookup x with
    | none => exact .refl s
    | some q =>
      dsimp only
      cases q.statement ord op with
      | error e => exact .refl s
      | ok st =>
        have hexec : q.exec ≠ .root := fun hroot => hx (h x q hq hroot)
        have hop : Aside s (s.execute sem q.exec st).1 :=
          ⟨_, rfl, List.forall_mem_singleton.mpr hexec⟩
        obtain ⟨hactive, hqueries, -⟩ := getD_keeps sem s q.exec st
        dsimp only
        split_ifs
        · exact hop.trans (ih (hactive ▸ hs) (h.congr hqueries) hnext)
        · exact hop
  | transaction begins commits rollsBack fn next _ _ =>
    rw [DbScript.run, transaction_not_begun sem (.inl hs), if_pos rfl]
    exact .refl s
  | pcall body returned raised ihb ihr ihe =>
    obtain ⟨hcbody, hcreturned, hcraised⟩ := hconfined
    obtain ⟨ops, henrolled⟩ := run_enrolled sem dialect body hs
    have hactive : (body.run sem dialect s).1.active ≠ .root := henrolled.active ▸ hs
    have hcovers := run_covers sem dialect body hs h
    have hbody := ihb hs h hcbody
    rw [DbScript.run]
    split_ifs with hraised
    · rw [hraised] at hcovers
      exact hbody.trans (ihe hactive hcovers hcraised)
    · rw [Bool.eq_false_iff.mpr hraised] at hcovers
      exact hbody.trans (ihr hactive hcovers hcreturned)

/-- What is left of a transaction that was begun: it was committed, or the session is that of the
function of the script but for the active builder and the transaction. -/
theorem transaction_of_root (hs : s.active = .root) (commits rollsBack : Bool)
    (fn : DbSession V D → DbSession V D × ScriptOutcome) :
    (s.transaction sem true commits rollsBack fn).1.active = .root ∧
      (s.transaction sem true commits rollsBack fn).1.log = (fn s.begin).1.log ∧
      ((s.transaction sem true commits rollsBack fn).2 ≠ .committed →
        (s.transaction sem true commits rollsBack fn).1.database = (fn s.begin).1.database) := by
  unfold DbSession.transaction
  simp only [hs, ne_eq, not_true_eq_false, if_false, Bool.true_eq_false]
  generalize fn s.begin = result
  obtain ⟨t, outcome⟩ := result
  cases outcome with
  | raised => exact ⟨rfl, rfl, fun _ => rfl⟩
  | returnedFalse => exact ⟨rfl, rfl, fun _ => rfl⟩
  | returned =>
    cases commits with
    | true => exact ⟨rfl, rfl, fun h => absurd rfl h⟩
    | false => exact ⟨rfl, rfl, fun _ => rfl⟩

theorem transaction_active (s : DbSession V D) (begins commits rollsBack : Bool)
    (fn : DbSession V D → DbSession V D × ScriptOutcome) :
    (s.transaction sem begins commits rollsBack fn).1.active = s.active := by
  by_cases h : s.active ≠ .root ∨ begins = false
  · rw [transaction_not_begun sem h]
  · obtain ⟨hs, rfl⟩ : s.active = .root ∧ begins = true := by simpa using h
    exact (transaction_of_root sem hs commits rollsBack fn).1.trans hs.symm

theorem DbScript.run_active (script : DbScript V) (s : DbSession V D) :
    (script.run sem dialect s).1.active = s.active := by
  induction script generalizing s with
  | done => rfl
  | returnFalse => rfl
  | raise => rfl
  | table x name next ih => exact ih _
  | addWhere x y column operator value next ih =>
    rw [run]
    cases s.queries.lookup y with
    | none => rfl
    | some q => exact ih _
  | perform x ord op next ih =>
    rw [run]
    cases s.queries.lookup x with
    | none => rfl
    | some q =>
      dsimp only
      cases q.statement ord op with
      | error e => rfl
      | ok st =>
        have hexecute := (getD_keeps sem s q.exec st).1
        dsimp only
        split_ifs
        · exact (ih _).trans hexecute
        · exact hexecute
  | transaction begins commits rollsBack fn next _ ihn =>
    have htransaction := transaction_active sem s begins commits rollsBack (fn.run sem dialect)
    rw [run]
    split_ifs
    · exact htransaction
    · exact (ihn _).trans htransaction
  | pcall body returned raised ihb ihr ihe =>
    rw [run]
    split_ifs
    · exact (ihe _).trans (ihb s)
    · exact (ihr _).trans (ihb s)

end Tracing

/-- After `mus.db.transaction` the active builder is the one from before. Suppose that it has not
committed. If no operation of the function goes through an object made on the root connection, or
derived from one, then none has changed the database, which is as it was. In any case none has
changed it exactly if none on the root connection has. -/
theorem db_transaction_iff (sem : Statement V → D → Option D) (dialect : Dialect)
    (s : DbSession V D) (begins commits rollsBack : Bool) (fn : DbScript V) :
    (s.transaction sem begins commits rollsBack (fn.run sem dialect)).1.active = s.active ∧
      ∃ ops, (s.transaction sem begins commits rollsBack (fn.run sem dialect)).1.log =
          s.log ++ ops ∧
        (fn.Confined s.outer → ∀ o ∈ ops, o.executor ≠ .root) ∧
        ((s.transaction sem begins commits rollsBack (fn.run sem dialect)).2 ≠ .committed →
          (fn.Confined s.outer → ∀ o ∈ ops, o.after = o.before) ∧
          ((∀ o ∈ ops, o.after = o.before) ↔
            ∀ o ∈ ops, o.executor = .root → o.after = o.before) ∧
          ((∀ o ∈ ops, o.after = o.before) →
            (s.transaction sem begins commits rollsBack (fn.run sem dialect)).1.database =
              s.database)) := by
  refine ⟨transaction_active sem s begins commits rollsBack (fn.run sem dialect), ?_⟩
  by_cases h : s.active ≠ .root ∨ begins = false
  · rw [transaction_not_begun sem h]
    exact ⟨[], (List.append_nil _).symm, fun _ _ ho => absurd ho List.not_mem_nil,
      fun _ => ⟨fun _ _ ho => absurd ho List.not_mem_nil, iff_of_true nofun nofun, fun _ => rfl⟩⟩
  · obtain ⟨hs, rfl⟩ : s.active = .root ∧ begins = true := by simpa using h
    obtain ⟨-, hlog, hdatabase⟩ :=
      transaction_of_root sem hs commits rollsBack (fn.run sem dialect)
    have hbegun : s.begin.active ≠ .root := nofun
    obtain ⟨ops, hfn⟩ := run_enrolled sem dialect fn hbegun
    have hcovers : Covers s.outer s.begin := (covers_outer s).congr rfl
    have haside : fn.Confined s.outer → ∀ o ∈ ops, o.executor ≠ .root := by
      intro hconfined
      obtain ⟨ops', hlog', hops'⟩ := run_confined sem dialect fn hbegun hcovers hconfined
      rwa [List.append_cancel_left (hfn.log.symm.trans hlog')]
    refine ⟨ops, hlog.trans hfn.log, haside, fun hnot => ⟨?_, ⟨?_, ?_⟩, ?_⟩⟩
    · exact fun hconfined o ho => hfn.spared o ho (haside hconfined o ho)
    · exact fun h o ho _ => h o ho
    · intro h o ho
      by_cases hroot : o.executor = .root
      · exact h o ho hroot
      · exact hfn.spared o ho hroot
    · exact fun h => (hdatabase hnot).trans (hfn.traced.eq_of_unchanged h)

-- `q` is there before the transaction, and another object is used in it
example : DbScript.Confined (V := Unit)
    (.table 1 (lit "t") (.perform 1 (.sorted (· ≤ ·)) .delete .returnFalse)) {0} :=
  ⟨by decide, trivial⟩

/-- How many rows a table has; a deletion without conditions takes all away. -/
def deleteAll (st : Statement Unit) (rows : ℕ) : Option ℕ :=
  some (if st.text = lit "DELETE FROM t" then 0 else rows)

/-- `local q = mus.db.table("t")`, with three rows in the table. -/
def tableBefore : DbSession Unit ℕ :=
  (⟨3, [], .root, ∅, []⟩ : DbSession Unit ℕ).table .sqlite 0 (lit "t")

/-- `mus.db.transaction(function() q:delete() return false end)`: the transaction is rolled back,
and the rows are gone. -/
theorem db_transaction_escape :
    (tableBefore.transaction deleteAll true true true
        (DbScript.run deleteAll .sqlite (.perform 0 (.sorted (· ≤ ·)) .delete .returnFalse))).2 =
        .rolledBack ∧
      (tableBefore.transaction deleteAll true true true
        (DbScript.run deleteAll .sqlite
          (.perform 0 (.sorted (· ≤ ·)) .delete .returnFalse))).1.log = [⟨.root, 3, 0⟩] ∧
      (tableBefore.transaction deleteAll true true true
        (DbScript.run deleteAll .sqlite
          (.perform 0 (.sorted (· ≤ ·)) .delete .returnFalse))).1.database = 0 := by
  decide

end Musgos.Outbound
