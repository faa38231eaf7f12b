import Mathlib.Tactic

/-!
# Runs of a labelled transition system

A system takes one atomic action at a time. `step s a` is the state after the
action `a`, or `none` if `a` is not enabled in `s`. Concurrency is the choice of
the next action, so a statement about every interleaving is one about every run.
-/
namespace Musgos.Foundation

variable {S A : Type} (step : S → A → Option S)

/-- The state after a sequence of actions, if each was enabled in its turn. -/
def runFrom : S → List A → Option S
  | s, [] => some s
  | s, a :: as =>
    match step s a with
    | none => none
    | some s' => runFrom s' as

/-- Every action of the run is taken in a state in which `P` allows it. -/
def Along (P : S → A → Prop) : S → List A → Prop
  | _, [] => True
  | s, a :: as => P s a ∧
    match step s a with
    | none => True
    | some s' => Along P s' as

/-- Every state the run passes through satisfies `Q`. -/
def Throughout (Q : S → Prop) : S → List A → Prop
  | s, [] => Q s
  | s, a :: as => Q s ∧
    match step s a with
    | none => True
    | some s' => Throughout Q s' as

instance decidableAlong (P : S → A → Prop) [∀ s a, Decidable (P s a)] :
    ∀ s as, Decidable (Along step P s as)
  | _, [] => .isTrue trivial
  | s, a :: as =>
    have : Decidable (match step s a with
        | none => True
        | some s' => Along step P s' as) :=
      match step s a with
      | none => .isTrue trivial
      | some s' => decidableAlong P s' as
    inferInstanceAs (Decidable (_ ∧ _))

variable {step}

theorem runFrom_cons {s t : S} {a : A} {as : List A} (h : runFrom step s (a :: as) = some t) :
    ∃ s', step s a = some s' ∧ runFrom step s' as = some t := by
  unfold runFrom at h
  cases hstep : step s a with
  | none => simp [hstep] at h
  | some s' => exact ⟨s', rfl, by simpa [hstep] using h⟩

theorem exists_run (h : ∀ s a, ∃ s', step s a = some s') (s : S) (as : List A) :
    ∃ t, runFrom step s as = some t := by
  induction as generalizing s with
  | nil => exact ⟨s, rfl⟩
  | cons a as ih =>
    obtain ⟨s', hstep⟩ := h s a
    simpa only [runFrom, hstep] using ih s'

theorem exists_run_of_any {p : S → Bool} {s : S} {as : List A}
    (h : (runFrom step s as).any p = true) : ∃ t, runFrom step s as = some t ∧ p t = true := by
  cases hrun : runFrom step s as with
  | none => simp [hrun] at h
  | some t => exact ⟨t, rfl, by simpa [hrun] using h⟩

theorem Along.cons {P : S → A → Prop} {s s' : S} {a : A} {as : List A}
    (h : Along step P s (a :: as)) (hstep : step s a = some s') :
    P s a ∧ Along step P s' as := by
  unfold Along at h
  rw [hstep] at h
  exact h

theorem Along.append {P : S → A → Prop} {s t : S} {as bs : List A}
    (h : Along step P s (as ++ bs)) (hrun : runFrom step s as = some t) :
    Along step P s as ∧ Along step P t bs := by
  induction as generalizing s with
  | nil =>
    obtain rfl := Option.some.inj hrun
    exact ⟨trivial, h⟩
  | cons a as ih =>
    obtain ⟨s', ha, hrest⟩ := runFrom_cons hrun
    obtain ⟨hP, hlater⟩ := Along.cons h ha
    obtain ⟨hfirst, hsecond⟩ := ih hlater hrest
    refine ⟨?_, hsecond⟩
    unfold Along
    rw [ha]
    exact ⟨hP, hfirst⟩

theorem Along.and {P Q : S → A → Prop} {s : S} {as : List A} (hP : Along step P s as)
    (hQ : Along step Q s as) : Along step (fun s a => P s a ∧ Q s a) s as := by
  induction as generalizing s with
  | nil => trivial
  | cons a as ih =>
    unfold Along at hP hQ ⊢
    refine ⟨⟨hP.1, hQ.1⟩, ?_⟩
    cases ha : step s a with
    | none => trivial
    | some s' =>
      rw [ha] at hP hQ
      exact ih hP.2 hQ.2

/-- An invariant of the allowed steps holds in every state a run reaches. -/
theorem invariant_run {I : S → Prop} {P : S → A → Prop}
    (hstep : ∀ s a s', I s → P s a → step s a = some s' → I s') {s t : S} {as : List A}
    (hs : I s) (halong : Along step P s as) (h : runFrom step s as = some t) : I t := by
  induction as generalizing s with
  | nil =>
    obtain rfl := Option.some.inj h
    exact hs
  | cons a as ih =>
    obtain ⟨s', ha, hrest⟩ := runFrom_cons h
    obtain ⟨hP, halong'⟩ := halong.cons ha
    exact ih (hstep s a s' hs hP ha) halong' hrest

theorem along_of_forall {P : A → Prop} {as : List A} (h : ∀ a ∈ as, P a) (s : S) :
    Along step (fun _ a => P a) s as := by
  induction as generalizing s with
  | nil => trivial
  | cons a as ih =>
    unfold Along
    refine ⟨h a List.mem_cons_self, ?_⟩
    cases step s a with
    | none => trivial
    | some s' => exact ih (fun b hb => h b (List.mem_cons_of_mem a hb)) s'

/-- Two conditions that say the same in the states that satisfy `I`, which the second one
keeps, say the same of a run; `H` is assumed of the run. -/
theorem along_iff_along {I : S → Prop} {H P Q : S → A → Prop}
    (hiff : ∀ s a, I s → H s a → (P s a ↔ Q s a))
    (hinv : ∀ s a s', I s → H s a → Q s a → step s a = some s' → I s') {s : S} {as : List A}
    (hI : I s) (hH : Along step H s as) : Along step P s as ↔ Along step Q s as := by
  induction as generalizing s with
  | nil => exact Iff.rfl
  | cons a as ih =>
    unfold Along at hH ⊢
    have hhead := hiff s a hI hH.1
    cases ha : step s a with
    | none => simp only [hhead]
    | some s' =>
      rw [ha] at hH
      constructor
      · rintro ⟨hP, hlater⟩
        have hQ := hhead.mp hP
        exact ⟨hQ, (ih (hinv s a s' hI hH.1 hQ ha) hH.2).mp hlater⟩
      · rintro ⟨hQ, hlater⟩
        exact ⟨hhead.mpr hQ, (ih (hinv s a s' hI hH.1 hQ ha) hH.2).mpr hlater⟩

/-- If, in the good states that satisfy `I`, a step stays good exactly when the
condition allows it, then a run from a good state stays good throughout exactly
when it meets the condition throughout; `H` is assumed of the run. -/
theorem throughout_iff_along_of {I Q : S → Prop} {H P : S → A → Prop}
    (hstep : ∀ s a s', I s → Q s → H s a → step s a = some s' → (Q s' ↔ P s a))
    (hinv : ∀ s a s', I s → Q s → H s a → Q s' → step s a = some s' → I s') {s t : S}
    {as : List A} (hI : I s) (hQ : Q s) (hH : Along step H s as)
    (h : runFrom step s as = some t) : Throughout step Q s as ↔ Along step P s as := by
  induction as generalizing s with
  | nil => exact iff_of_true hQ trivial
  | cons a as ih =>
    obtain ⟨s', ha, hrest⟩ := runFrom_cons h
    obtain ⟨hHa, hH'⟩ := hH.cons ha
    simp only [Throughout, Along, ha]
    constructor
    · rintro ⟨-, hlater⟩
      have hQ' : Q s' := by
        cases as with
        | nil => exact hlater
        | cons _ _ => exact hlater.1
      refine ⟨(hstep s a s' hI hQ hHa ha).mp hQ', ?_⟩
      exact (ih (hinv s a s' hI hQ hHa hQ' ha) hQ' hH' hrest).mp hlater
    · rintro ⟨hP, hlater⟩
      have hQ' := (hstep s a s' hI hQ hHa ha).mpr hP
      exact ⟨hQ, (ih (hinv s a s' hI hQ hHa hQ' ha) hQ' hH' hrest).mpr hlater⟩

/-- The same without an assumption on the run. -/
theorem throughout_iff_along {I Q : S → Prop} {P : S → A → Prop}
    (hstep : ∀ s a s', I s → Q s → step s a = some s' → (Q s' ↔ P s a))
    (hinv : ∀ s a s', I s → Q s → Q s' → step s a = some s' → I s') {s t : S} {as : List A}
    (hI : I s) (hQ : Q s) (h : runFrom step s as = some t) :
    Throughout step Q s as ↔ Along step P s as :=
  throughout_iff_along_of (fun s a s' hI hQ _ => hstep s a s' hI hQ)
    (fun s a s' hI hQ _ => hinv s a s' hI hQ) hI hQ
    (along_of_forall (P := fun _ => True) (fun _ _ => trivial) s) h

section Logs

variable {E : Type} {ok : List E → E → Prop}

/-- Every event of the log is allowed by what has happened before it. -/
def ObeysFrom (ok : List E → E → Prop) : List E → List E → Prop
  | _, [] => True
  | past, e :: log => ok past e ∧ ObeysFrom ok (past ++ [e]) log

theorem obeysFrom_append {past a b : List E} :
    ObeysFrom ok past (a ++ b) ↔ ObeysFrom ok past a ∧ ObeysFrom ok (past ++ a) b := by
  induction a generalizing past with
  | nil => simp [ObeysFrom]
  | cons e a ih =>
    rw [List.cons_append, ObeysFrom, ObeysFrom, ih, List.append_assoc, and_assoc]
    rfl

theorem obeysFrom_of_forall {past log : List E} (h : ∀ e ∈ log, ∀ past, ok past e) :
    ObeysFrom ok past log := by
  induction log generalizing past with
  | nil => trivial
  | cons e log ih =>
    exact ⟨h e List.mem_cons_self past, ih fun e' he' => h e' (List.mem_cons_of_mem e he')⟩

theorem ObeysFrom.at {before after : List E} {e : E}
    (h : ObeysFrom ok [] (before ++ e :: after)) : ok before e :=
  (obeysFrom_append.mp h).2.1

end Logs

end Musgos.Foundation
