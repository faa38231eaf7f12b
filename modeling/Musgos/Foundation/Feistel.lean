import Mathlib.Logic.Function.Basic
import Mathlib.Data.List.Basic

/-!
# Feistel networks

A round mixes one half of a block into the other through a function of its own and
exchanges the halves. Whatever these functions are, the same rounds in reverse order lead
back, if mixing a value in twice is the same as not mixing it in. A whitened network also
mixes one value into the first half before the rounds and one into the other half after them.
-/
namespace Musgos.Foundation.Feistel

variable {H : Type} (mix : H → H → H)

def rounds : List (H → H) → H × H → H × H
  | [], x => x
  | f :: fs, (l, r) => rounds fs (mix r (f l), l)

/-- The halves are left as the last round would take them for the next. -/
def whitened (before after : H) (fs : List (H → H)) (x : H × H) : H × H :=
  let y := rounds mix fs (mix x.1 before, x.2)
  (mix y.2 after, y.1)

variable {mix}

theorem rounds_append (fs gs : List (H → H)) (x : H × H) :
    rounds mix (fs ++ gs) x = rounds mix gs (rounds mix fs x) := by
  induction fs generalizing x with
  | nil => rfl
  | cons f fs ih => exact ih (mix x.2 (f x.1), x.1)

variable (hmix : ∀ a b, mix (mix a b) b = a)
include hmix

/-- The rounds in reverse order, with the halves exchanged, undo the rounds. -/
theorem rounds_reverse (fs : List (H → H)) (x : H × H) :
    rounds mix fs.reverse (rounds mix fs x).swap = x.swap := by
  induction fs generalizing x with
  | nil => rfl
  | cons f fs ih =>
    obtain ⟨l, r⟩ := x
    have hinner : rounds mix fs.reverse (rounds mix (f :: fs) (l, r)).swap = (l, mix r (f l)) :=
      ih (mix r (f l), l)
    rw [List.reverse_cons, rounds_append, hinner, rounds, rounds, hmix]
    rfl

theorem whitened_reverse (before after : H) (fs : List (H → H)) (x : H × H) :
    whitened mix after before fs.reverse (whitened mix before after fs x) = x := by
  have hback := rounds_reverse hmix fs (mix x.1 before, x.2)
  unfold whitened
  dsimp only
  generalize rounds mix fs (mix x.1 before, x.2) = y at hback ⊢
  obtain ⟨l, r⟩ := y
  rw [Prod.swap_prod_mk] at hback
  rw [hmix, hback]
  exact Prod.ext (hmix x.1 before) rfl

end Musgos.Foundation.Feistel
