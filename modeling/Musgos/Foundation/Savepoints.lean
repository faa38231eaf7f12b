import Mathlib.Data.List.Basic
import Mathlib.Data.List.Induction
import Mathlib.Data.List.Nodup
import Mathlib.Data.List.TakeWhile
import Mathlib.Tactic.SplitIfs

/-!
# Transactions with savepoints

A session is inside a transaction. A savepoint keeps the content under a name: rolling back to it
brings the content back and drops the savepoints made since, releasing it drops it and those, and
leaves the content. A name stands for the innermost savepoint of that name. On some servers a
command that fails makes every later one fail, until a savepoint is rolled back to.

What is left of a history in which some marks have been undone is said without savepoints: what
was run counts, unless a mark from before it was undone after it.
-/
namespace Musgos.Foundation.Savepoints

/-- What is sent within a transaction. -/
inductive Command (N S : Type) where
  | savepoint (name : N)
  | rollbackTo (name : N)
  | release (name : N)
  | statement (st : S)

/-- The transaction as the database sees it: its own content, the open savepoints
and whether a failed statement has made it refuse everything but a rollback. -/
structure Session (N D : Type) where
  content : D
  /-- The innermost one first. -/
  savepoints : List (N × D)
  aborted : Bool

variable {N S D : Type}

/-- The content after the statements; one that fails leaves it alone. -/
def replay (sem : S → D → Option D) (sts : List S) (d : D) : D :=
  sts.foldl (fun d st => (sem st d).getD d) d

theorem replay_append (sem : S → D → Option D) (as bs : List S) (d : D) :
    replay sem (as ++ bs) d = replay sem bs (replay sem as d) :=
  List.foldl_append

/-- The content after the statements, if none of them fails. -/
def replay? (sem : S → D → Option D) : List S → D → Option D
  | [], d => some d
  | st :: sts, d => (sem st d).bind (replay? sem sts)

namespace Session

section Commands

variable [DecidableEq N] (sem : S → D → Option D) (aborts : Bool)

/-- The savepoints from the innermost one of the name outwards. -/
def from? (s : Session N D) (name : N) : List (N × D) :=
  s.savepoints.dropWhile fun p => p.1 ≠ name

def exec (s : Session N D) : Command N S → Option (Session N D)
  | .savepoint name =>
    if s.aborted then none else some { s with savepoints := (name, s.content) :: s.savepoints }
  | .release name =>
    if s.aborted then none
    else
      match s.from? name with
      | [] => none
      | _ :: outer => some { s with savepoints := outer }
  | .rollbackTo name =>
    match s.from? name with
    | [] => none
    | p :: outer => some ⟨p.2, p :: outer, false⟩
  | .statement st =>
    if s.aborted then none else (sem st s.content).map fun d => { s with content := d }

/-- The session after a command, and whether it succeeded. -/
def attempt (s : Session N D) (c : Command N S) : Session N D × Bool :=
  match s.exec sem c with
  | some t => (t, true)
  | none => ({ s with aborted := s.aborted || aborts }, false)

end Commands

section Specs

variable [DecidableEq N] {sem : S → D → Option D} {aborts : Bool} {s t : Session N D} {name : N}

theorem attempt_of_exec {c : Command N S} (h : s.exec sem c = some t) :
    s.attempt sem aborts c = (t, true) := by
  rw [attempt, h]

theorem attempt_of_none {c : Command N S} (h : s.exec sem c = none) :
    s.attempt sem aborts c = ({ s with aborted := s.aborted || aborts }, false) := by
  rw [attempt, h]

theorem from?_head (s : Session N D) (name : N) (d : D) (outer : List (N × D))
    (h : s.savepoints = (name, d) :: outer) : s.from? name = (name, d) :: outer := by
  rw [from?, h, List.dropWhile_cons_of_neg (by simp)]

theorem from?_name {p : N × D} {outer : List (N × D)} (h : s.from? name = p :: outer) :
    p.1 = name := by
  rw [from?] at h
  generalize s.savepoints = savepoints at h
  induction savepoints with
  | nil => cases h
  | cons q savepoints ih =>
    by_cases hq : q.1 = name
    · rw [List.dropWhile_cons_of_neg (by simpa using hq)] at h
      exact (List.cons.inj h).1 ▸ hq
    · rw [List.dropWhile_cons_of_pos (by simpa using hq)] at h
      exact ih h

/-- Savepoints whose names stand for marks are looked up by mark. -/
theorem from?_map {E : Type} {marks : List (ℕ × E)} {f : ℕ → N} {g : E → D} {m : ℕ}
    (h : s.savepoints = marks.map fun p => (f p.1, g p.2))
    (hf : ∀ p ∈ marks, f p.1 = f m → p.1 = m) :
    s.from? (f m) = (marks.dropWhile fun p => p.1 ≠ m).map fun p => (f p.1, g p.2) := by
  rw [from?, h]
  clear h
  induction marks with
  | nil => rfl
  | cons p marks ih =>
    by_cases hp : p.1 = m
    · rw [List.map_cons, List.dropWhile_cons_of_neg (by simp [hp]),
        List.dropWhile_cons_of_neg (by simp [hp]), List.map_cons]
    · have hne : f p.1 ≠ f m := fun heq => hp (hf p List.mem_cons_self heq)
      rw [List.map_cons, List.dropWhile_cons_of_pos (by simpa using hne),
        List.dropWhile_cons_of_pos (by simpa using hp)]
      exact ih fun q hq => hf q (List.mem_cons_of_mem _ hq)

theorem exec_savepoint (h : s.aborted = false) : s.exec sem (.savepoint name) =
    some { s with savepoints := (name, s.content) :: s.savepoints } := by
  simp [exec, h]

theorem exec_release {p : N × D} {outer : List (N × D)} (h : s.aborted = false)
    (hfrom : s.from? name = p :: outer) :
    s.exec sem (.release name) = some { s with savepoints := outer } := by
  simp [exec, h, hfrom]

theorem exec_rollbackTo {p : N × D} {outer : List (N × D)} (hfrom : s.from? name = p :: outer) :
    s.exec sem (.rollbackTo name) = some ⟨p.2, p :: outer, false⟩ := by
  simp [exec, hfrom]

theorem exec_statement {st : S} {d : D} (h : s.aborted = false) (hsem : sem st s.content = some d) :
    s.exec sem (.statement st) = some { s with content := d } := by
  simp [exec, h, hsem]

theorem exec_statement_eq_some {st : S} (h : s.exec sem (.statement st) = some t) :
    ∃ d, sem st s.content = some d ∧ { s with content := d } = t := by
  rw [exec] at h
  split_ifs at h
  exact Option.map_eq_some_iff.mp h

theorem exec_of_aborted {c : Command N S} (h : s.aborted = true)
    (hc : ∀ name, c ≠ .rollbackTo name) : s.exec sem c = none := by
  cases c with
  | savepoint name => simp [exec, h]
  | release name => simp [exec, h]
  | statement st => simp [exec, h]
  | rollbackTo name => exact absurd rfl (hc name)

end Specs

end Session

section History

/-- What happened to the content: a mark was set, a statement ran, all since a mark was undone, or
a mark was dropped and all since it kept. -/
inductive Event (S : Type) where
  | begun (mark : ℕ)
  | ran (st : S)
  | undone (mark : ℕ)
  | kept (mark : ℕ)

def begunMarks : List (Event S) → List ℕ
  | [] => []
  | .begun m :: es => m :: begunMarks es
  | .ran _ :: es | .undone _ :: es | .kept _ :: es => begunMarks es

def undoneMarks : List (Event S) → List ℕ
  | [] => []
  | .undone m :: es => m :: undoneMarks es
  | .ran _ :: es | .begun _ :: es | .kept _ :: es => undoneMarks es

/-- The marks that were undone or dropped. -/
def finishedMarks : List (Event S) → List ℕ
  | [] => []
  | .undone m :: es | .kept m :: es => m :: finishedMarks es
  | .ran _ :: es | .begun _ :: es => finishedMarks es

/-- The statements that count; the marks are those from before. -/
def surviving : List ℕ → List (Event S) → List S
  | _, [] => []
  | marks, .begun m :: later => surviving (marks ++ [m]) later
  | marks, .undone _ :: later | marks, .kept _ :: later => surviving marks later
  | marks, .ran st :: later =>
    if ∀ m ∈ marks, m ∉ undoneMarks later then st :: surviving marks later
    else surviving marks later

variable {a b : List (Event S)} {marks : List ℕ} {m : ℕ}

theorem begunMarks_append (a b : List (Event S)) :
    begunMarks (a ++ b) = begunMarks a ++ begunMarks b := by
  induction a with
  | nil => rfl
  | cons e a ih => cases e <;> simp [begunMarks, ih]

theorem undoneMarks_append (a b : List (Event S)) :
    undoneMarks (a ++ b) = undoneMarks a ++ undoneMarks b := by
  induction a with
  | nil => rfl
  | cons e a ih => cases e <;> simp [undoneMarks, ih]

/-- What comes later and undoes no earlier mark leaves the earlier statements as they are. -/
theorem surviving_append (h : ∀ m ∈ marks ++ begunMarks a, m ∉ undoneMarks b) :
    surviving marks (a ++ b) = surviving marks a ++ surviving (marks ++ begunMarks a) b := by
  induction a generalizing marks with
  | nil => rw [begunMarks, List.append_nil]; rfl
  | cons e a ih =>
    cases e with
    | begun m =>
      rw [begunMarks, List.append_cons] at h
      rw [List.cons_append, surviving, surviving, ih h, begunMarks, ← List.append_cons]
    | undone m => exact ih h
    | kept m => exact ih h
    | ran st =>
      have hold : ∀ m ∈ marks, m ∉ undoneMarks b :=
        fun m hm => h m (List.mem_append_left _ hm)
      have hsame : (∀ m ∈ marks, m ∉ undoneMarks (a ++ b)) ↔ ∀ m ∈ marks, m ∉ undoneMarks a := by
        refine forall₂_congr fun m hm => ?_
        simp [undoneMarks_append, hold m hm]
      rw [List.cons_append, surviving, surviving, ih h, begunMarks]
      simp only [hsame]
      split_ifs <;> rfl

@[simp] theorem begunMarks_map_ran (sts : List S) : begunMarks (sts.map Event.ran) = [] := by
  induction sts with
  | nil => rfl
  | cons st sts ih => exact ih

@[simp] theorem finishedMarks_map_ran (sts : List S) : finishedMarks (sts.map Event.ran) = [] := by
  induction sts with
  | nil => rfl
  | cons st sts ih => exact ih

theorem surviving_undone (hm : m ∈ marks) (b : List (Event S)) :
    surviving marks (b ++ [.undone m]) = [] := by
  induction b generalizing marks with
  | nil => rfl
  | cons e b ih =>
    cases e with
    | begun m' => exact ih (List.mem_append_left _ hm)
    | undone m' => exact ih hm
    | kept m' => exact ih hm
    | ran st =>
      rw [List.cons_append, surviving, if_neg, ih hm]
      intro hnone
      apply hnone m hm
      simp [undoneMarks_append, undoneMarks]

/-- Undoing a mark that no undoing has passed leaves what had been run before it. -/
theorem surviving_undo (hfresh : m ∉ begunMarks a)
    (hpassed : ∀ m' ∈ begunMarks a, m' ∉ undoneMarks b) :
    surviving [] (a ++ .begun m :: b ++ [.undone m]) = surviving [] a := by
  have hlater : ∀ m' ∈ [] ++ begunMarks a,
      m' ∉ undoneMarks (.begun m :: b ++ [Event.undone (S := S) m]) := by
    intro m' hm'
    have hne : m' ≠ m := fun heq => hfresh (heq ▸ hm')
    simp [undoneMarks, undoneMarks_append, hpassed m' hm', hne]
  rw [List.append_assoc, surviving_append hlater, List.cons_append, surviving,
    surviving_undone (List.mem_append_right _ (List.mem_singleton.mpr rfl)), List.append_nil]

theorem finishedMarks_append (a b : List (Event S)) :
    finishedMarks (a ++ b) = finishedMarks a ++ finishedMarks b := by
  induction a with
  | nil => rfl
  | cons e a ih => cases e <;> simp [finishedMarks, ih]

theorem mem_finishedMarks_of_mem_undoneMarks {es : List (Event S)} (h : m ∈ undoneMarks es) :
    m ∈ finishedMarks es := by
  induction es with
  | nil => exact h
  | cons e es ih =>
    cases e with
    | begun m' => exact ih h
    | ran st => exact ih h
    | kept m' => exact List.mem_cons_of_mem _ (ih h)
    | undone m' =>
      rcases List.mem_cons.mp h with rfl | h
      · exact List.mem_cons_self
      · exact List.mem_cons_of_mem _ (ih h)

end History

section Open

/-- The marks that are still there, innermost first, each with the events before it. -/
def openStep (p : List (Event S) × List (ℕ × List (Event S))) (e : Event S) :
    List (Event S) × List (ℕ × List (Event S)) :=
  (p.1 ++ [e], match e with
    | .begun m => (m, p.1) :: p.2
    | .ran _ => p.2
    | .undone m | .kept m => (p.2.dropWhile fun q => q.1 ≠ m).tail)

def openMarks (es : List (Event S)) : List (ℕ × List (Event S)) := (es.foldl openStep ([], [])).2

/-- Each mark is new when it is set, and is there when it is undone or dropped. -/
inductive Proper : List (Event S) → Prop
  | nil : Proper []
  | begun {es m} : Proper es → m ∉ begunMarks es → Proper (es ++ [.begun m])
  | ran {es st} : Proper es → Proper (es ++ [.ran st])
  | undone {es m} : Proper es → (∃ past, (m, past) ∈ openMarks es) → Proper (es ++ [.undone m])
  | kept {es m} : Proper es → (∃ past, (m, past) ∈ openMarks es) → Proper (es ++ [.kept m])

theorem openMarks_append (es : List (Event S)) (e : Event S) :
    openMarks (es ++ [e]) = (openStep (es, openMarks es) e).2 := by
  have hpast : ∀ es : List (Event S), (es.foldl openStep ([], [])).1 = es := by
    intro es
    induction es using List.reverseRecOn with
    | nil => rfl
    | append_singleton es e ih => rw [List.foldl_append]; exact congrArg (· ++ [e]) ih
  have hfold : es.foldl openStep ([], []) = (es, openMarks es) := Prod.ext (hpast es) rfl
  rw [openMarks, List.foldl_append, hfold]
  rfl

variable {es past later : List (Event S)} {m : ℕ}

@[simp] theorem openMarks_begun : openMarks (es ++ [.begun m]) = (m, es) :: openMarks es :=
  openMarks_append es _

@[simp] theorem openMarks_ran {st : S} : openMarks (es ++ [.ran st]) = openMarks es :=
  openMarks_append es _

@[simp] theorem openMarks_undone :
    openMarks (es ++ [.undone m]) = ((openMarks es).dropWhile fun q => q.1 ≠ m).tail :=
  openMarks_append es _

@[simp] theorem openMarks_kept :
    openMarks (es ++ [.kept m]) = ((openMarks es).dropWhile fun q => q.1 ≠ m).tail :=
  openMarks_append es _

/-- A mark that is there has been set, and neither it nor one from before it is finished since. -/
structure Standing (es : List (Event S)) : Prop where
  nodup : (begunMarks es).Nodup
  nested : (openMarks es).Pairwise fun p q => q.2 ++ [.begun q.1] <+: p.2
  since : ∀ p ∈ openMarks es, ∃ later, es = p.2 ++ .begun p.1 :: later ∧
    ∀ g ∈ begunMarks p.2 ++ [p.1], g ∉ finishedMarks later

theorem dropWhile_mark {stack : List (ℕ × List (Event S))} (h : (m, past) ∈ stack) :
    ∃ inner past' outer, stack = inner ++ (m, past') :: outer ∧ (∀ p ∈ inner, p.1 ≠ m) ∧
      (stack.dropWhile fun q => q.1 ≠ m) = (m, past') :: outer := by
  induction stack with
  | nil => cases h
  | cons p stack ih =>
    by_cases hp : p.1 = m
    · obtain rfl := hp
      exact ⟨[], p.2, stack, rfl, by simp, List.dropWhile_cons_of_neg (by simp)⟩
    · have hmem : (m, past) ∈ stack := by
        rcases List.mem_cons.mp h with rfl | h
        · exact absurd rfl hp
        · exact h
      obtain ⟨inner, past', outer, hstack, hinner, hdrop⟩ := ih hmem
      refine ⟨p :: inner, past', outer, by rw [hstack, List.cons_append], ?_, ?_⟩
      · simpa using ⟨hp, fun a b hab => hinner (a, b) hab⟩
      · rw [List.dropWhile_cons_of_pos (by simpa using hp), hdrop]

theorem Standing.nil : Standing ([] : List (Event S)) :=
  ⟨List.nodup_nil, List.Pairwise.nil, by simp [openMarks]⟩

theorem Standing.begun (h : Standing es) (hm : m ∉ begunMarks es) :
    Standing (es ++ [.begun m]) where
  nodup := by
    rw [begunMarks_append]
    exact List.nodup_append.mpr ⟨h.nodup, List.nodup_singleton m, by
      rintro a ha b hb rfl
      exact hm (List.mem_singleton.mp hb ▸ ha)⟩
  nested := by
    rw [openMarks_begun]
    refine List.pairwise_cons.mpr ⟨fun q hq => ?_, h.nested⟩
    obtain ⟨later, hes, -⟩ := h.since q hq
    exact ⟨later, by rw [hes]; simp⟩
  since := by
    intro p hp
    rw [openMarks_begun] at hp
    rcases List.mem_cons.mp hp with rfl | hp
    · exact ⟨[], rfl, by simp [finishedMarks]⟩
    · obtain ⟨later, hes, hfree⟩ := h.since p hp
      refine ⟨later ++ [.begun m], by rw [hes]; simp, fun g hg => ?_⟩
      simpa [finishedMarks_append, finishedMarks] using hfree g hg

theorem Standing.ran (h : Standing es) {st : S} : Standing (es ++ [.ran st]) where
  nodup := by simpa [begunMarks_append, begunMarks] using h.nodup
  nested := by simpa using h.nested
  since := by
    intro p hp
    rw [openMarks_ran] at hp
    obtain ⟨later, hes, hfree⟩ := h.since p hp
    refine ⟨later ++ [.ran st], by rw [hes]; simp, fun g hg => ?_⟩
    simpa [finishedMarks_append, finishedMarks] using hfree g hg

/-- Undoing and dropping finish a mark in the same way. -/
theorem Standing.finished (h : Standing es) (hm : ∃ past, (m, past) ∈ openMarks es) {e : Event S}
    (hbegun : begunMarks [e] = []) (hfinished : finishedMarks [e] = [m])
    (hopen : openMarks (es ++ [e]) = ((openMarks es).dropWhile fun q => q.1 ≠ m).tail) :
    Standing (es ++ [e]) := by
  obtain ⟨past, hpast⟩ := hm
  obtain ⟨inner, past', outer, hstack, -, hdrop⟩ := dropWhile_mark hpast
  rw [hdrop, List.tail_cons] at hopen
  have hnested := h.nested
  rw [hstack, List.pairwise_append, List.pairwise_cons] at hnested
  refine ⟨by simpa [begunMarks_append, hbegun] using h.nodup, hopen ▸ hnested.2.1.2, ?_⟩
  intro p hp
  rw [hopen] at hp
  obtain ⟨later, hes, hfree⟩ := h.since p (by rw [hstack]; simp [hp])
  refine ⟨later ++ [e], by rw [hes]; simp, fun g hg => ?_⟩
  have hne : g ≠ m := by
    rintro rfl
    obtain ⟨later', hes', -⟩ := h.since (g, past') (by rw [hstack]; simp)
    obtain ⟨between, hbetween⟩ := hnested.2.1.1 p hp
    have hin : g ∈ begunMarks past' := by
      rw [← show _ = past' from hbetween, begunMarks_append, begunMarks_append]
      exact List.mem_append_left _ hg
    have hnodup := h.nodup
    rw [show es = past' ++ .begun g :: later' from hes', begunMarks_append] at hnodup
    exact (List.nodup_append.mp hnodup).2.2 g hin g List.mem_cons_self rfl
  simpa [finishedMarks_append, hfinished, hne] using hfree g hg

theorem Proper.standing (h : Proper es) : Standing es := by
  induction h with
  | nil => exact Standing.nil
  | begun _ hm ih => exact ih.begun hm
  | ran _ ih => exact ih.ran
  | undone _ hm ih => exact ih.finished hm rfl rfl openMarks_undone
  | kept _ hm ih => exact ih.finished hm rfl rfl openMarks_kept

theorem Proper.of_append {e : Event S} (h : Proper (es ++ [e])) :
    Proper es ∧ ∀ m ∈ finishedMarks [e], ∃ past, (m, past) ∈ openMarks es := by
  generalize hfull : es ++ [e] = full at h
  cases h with
  | nil => simp at hfull
  | begun h hm =>
    obtain ⟨rfl, he⟩ := List.append_inj' hfull rfl
    exact ⟨h, by simp [List.singleton_inj.mp he, finishedMarks]⟩
  | ran h =>
    obtain ⟨rfl, he⟩ := List.append_inj' hfull rfl
    exact ⟨h, by simp [List.singleton_inj.mp he, finishedMarks]⟩
  | undone h hm =>
    obtain ⟨rfl, he⟩ := List.append_inj' hfull rfl
    exact ⟨h, by simpa [List.singleton_inj.mp he, finishedMarks] using hm⟩
  | kept h hm =>
    obtain ⟨rfl, he⟩ := List.append_inj' hfull rfl
    exact ⟨h, by simpa [List.singleton_inj.mp he, finishedMarks] using hm⟩

theorem Proper.begun_of_open (h : Proper es) (hm : (m, past) ∈ openMarks es) :
    m ∈ begunMarks es := by
  obtain ⟨later, hes, -⟩ := h.standing.since (m, past) hm
  rw [hes, begunMarks_append]
  exact List.mem_append_right _ List.mem_cons_self

end Open

end Musgos.Foundation.Savepoints
