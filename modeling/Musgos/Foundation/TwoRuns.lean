import Mathlib.Tactic

/-!
# Two runs of one program

A program with a state and exceptions runs in lockstep from two related states if
both runs end the same way, with the same result or the same exception, and in
related states again. The rules below also carry what is known of the result and of
the exceptions, so that the next step can use it. Statements about what a program's
answer does not depend on are statements about its two runs. Under a relation that holds only
of a state and itself the two runs are one, and the rules are those of a single run.
-/
namespace Musgos.Foundation

variable {ε ω α β : Type}

/-- The two ends of a pair of runs. -/
inductive SameEnd (R : ω → ω → Prop) (Q : α → Prop) (E : ε → Prop) :
    EStateM.Result ε ω α → EStateM.Result ε ω α → Prop
  | ok {a : α} {w w' : ω} (ha : Q a) (hw : R w w') : SameEnd R Q E (.ok a w) (.ok a w')
  | error {e : ε} {w w' : ω} (he : E e) (hw : R w w') : SameEnd R Q E (.error e w) (.error e w')

/-- From related states both runs end alike; `Q` holds of the result, `E` of an exception. -/
def Lockstep (R : ω → ω → Prop) (x : EStateM ε ω α) (Q : α → Prop) (E : ε → Prop) : Prop :=
  ∀ w w', R w w' → SameEnd R Q E (x w) (x w')

namespace Lockstep

variable {R : ω → ω → Prop} {Q : α → Prop} {P : β → Prop} {E : ε → Prop}

theorem pure {a : α} (h : Q a) : Lockstep R (pure a : EStateM ε ω α) Q E :=
  fun _ _ hR => .ok h hR

theorem throw {e : ε} (h : E e) : Lockstep R (throw e : EStateM ε ω α) Q E :=
  fun _ _ hR => .error h hR

theorem bind {x : EStateM ε ω α} {f : α → EStateM ε ω β} (hx : Lockstep R x Q E)
    (hf : ∀ a, Q a → Lockstep R (f a) P E) : Lockstep R (x >>= f) P E := by
  intro w w' hR
  have hfirst := hx w w' hR
  simp only [Bind.bind, EStateM.bind]
  generalize x w = r, x w' = r' at hfirst
  cases hfirst with
  | ok ha hw => exact hf _ ha _ _ hw
  | error he hw => exact .error he hw

theorem mono {x : EStateM ε ω α} {Q' : α → Prop} (hx : Lockstep R x Q E)
    (h : ∀ a, Q a → Q' a) : Lockstep R x Q' E := by
  intro w w' hR
  have hrun := hx w w' hR
  generalize x w = r, x w' = r' at hrun ⊢
  cases hrun with
  | ok ha hw => exact .ok (h _ ha) hw
  | error he hw => exact .error he hw

/-- A program that reads the state goes on alike if what it makes of the two states is
the same. -/
theorem get {f : ω → EStateM ε ω α}
    (h : ∀ w w', R w w' → f w' = f w ∧ Lockstep R (f w) Q E) : Lockstep R (get >>= f) Q E := by
  intro w w' hR
  obtain ⟨hsame, hrun⟩ := h w w' hR
  have hgo := hrun w w' hR
  nth_rewrite 2 [← hsame] at hgo
  exact hgo

/-- A loop that collects results; of each it is known how it comes from its item. -/
theorem mapM {f : α → EStateM ε ω β} {P : α → β → Prop} {as : List α}
    (h : ∀ a ∈ as, Lockstep R (f a) (P a) E) :
    Lockstep R (as.mapM f) (fun bs => List.Forall₂ P as bs) E := by
  induction as with
  | nil => exact pure .nil
  | cons a as ih =>
    rw [List.mapM_cons]
    refine bind (h a List.mem_cons_self) fun b hb => ?_
    refine bind (ih fun c hc => h c (List.mem_cons_of_mem a hc)) fun bs hbs => ?_
    exact pure (.cons hb hbs)

section OneRun

/-- Under the relation the two runs are one. -/
def Diagonal (R : ω → ω → Prop) : Prop := ∀ w w', R w w' → w' = w

theorem effect (hR : Diagonal R) {x : EStateM ε ω α}
    (h : ∀ w, R w w → ∃ a w', x w = .ok a w' ∧ R w' w') : Lockstep R x (fun _ => True) E := by
  intro w w' hw
  obtain rfl := hR w w' hw
  obtain ⟨a, v, hx, hv⟩ := h _ hw
  rw [hx]
  exact .ok trivial hv

theorem read (hR : Diagonal R) {x : EStateM ε ω α} (h : ∀ w, ∃ a, x w = .ok a w) :
    Lockstep R x (fun _ => True) E := by
  refine effect hR fun w hw => ?_
  obtain ⟨a, hx⟩ := h w
  exact ⟨a, w, hx, hw⟩

theorem returns {x : EStateM ε ω α} (h : Lockstep R x Q fun _ => False) {w : ω} (hw : R w w) :
    ∃ a w', x w = .ok a w' := by
  have hend := h w w hw
  cases hx : x w with
  | ok a w' => exact ⟨a, w', rfl⟩
  | error e w' =>
    rw [hx] at hend
    cases hend with
    | error he _ => exact absurd he id

end OneRun

end Lockstep

end Musgos.Foundation
