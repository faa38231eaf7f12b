import Musgos.Foundation.Feistel
import Musgos.Outbound.Blowfish

/-!
# The block transform and its inverse

`DoCrypto` writes its sixteen rounds out twice, once for each direction. The stream that the
server speaks uses one direction only, so nothing else depends on the other. Both are whitened
Feistel networks over the same boxes, and the one has the rounds and the two outer words of the
other in reverse order.
-/
namespace Musgos.Outbound

open Foundation

namespace Boxes

variable (b : Boxes)

/-- What round `i` mixes into one half, from the other. -/
def roundMask (i : Fin 18) (R : UInt32) : UInt32 := b.P.get i ^^^ b.pack.mask R

/-- The network with the rounds `is` between the words `first` and `last` of `P`. -/
def network (first last : Fin 18) (is : List (Fin 18)) : Block → Block :=
  Feistel.whitened (· ^^^ ·) (b.P.get first) (b.P.get last) (is.map b.roundMask)

/-- The words of `P` between the two outer ones, in the order of encryption. -/
def middle : List (Fin 18) := (List.finRange 18).tail.dropLast

theorem rounds_eq (is : List (Fin 18)) (block : Block) :
    b.rounds is block = some (Feistel.rounds (· ^^^ ·) (is.map b.roundMask) block) := by
  induction is generalizing block with
  | nil => rfl
  | cons i is ih =>
    obtain ⟨l, r⟩ := block
    rw [rounds, b.holds_pack.blowfishEncode, Option.bind_eq_bind, Option.bind_some, ih,
      UInt32.xor_assoc]
    rfl

theorem doCrypto_forward {encrypt : ℤ} (h : encrypt ≠ 0) (block : Block) :
    b.doCrypto block encrypt = some (b.network 0 17 middle block) := by
  rw [doCrypto, if_pos h, b.rounds_eq]
  rfl

theorem doCrypto_backward (block : Block) :
    b.doCrypto block 0 = some (b.network 17 0 middle.reverse block) := by
  rw [doCrypto, if_neg (by decide), b.rounds_eq]
  rfl

theorem xor_xor (x w : UInt32) : x ^^^ w ^^^ w = x := by
  rw [UInt32.xor_assoc, UInt32.xor_self, UInt32.xor_zero]

theorem network_reverse (first last : Fin 18) (is : List (Fin 18)) :
    Function.LeftInverse (b.network last first is.reverse) (b.network first last is) := by
  intro block
  rw [network, network, List.map_reverse]
  exact Feistel.whitened_reverse xor_xor _ _ _ block

theorem backward_forward :
    Function.LeftInverse (b.network 17 0 middle.reverse) (b.network 0 17 middle) :=
  b.network_reverse 0 17 middle

theorem forward_backward :
    Function.RightInverse (b.network 17 0 middle.reverse) (b.network 0 17 middle) := by
  have hback := b.network_reverse 17 0 middle.reverse
  rwa [List.reverse_reverse] at hback

end Boxes

/-- Over any boxes the two directions of the transform are total and undo each other, so each is
a bijection of the blocks. -/
theorem block_transform_invertible (b : Boxes) {encrypt : ℤ} (hflag : encrypt ≠ 0) :
    (∀ block, ∃ block', b.doCrypto block encrypt = some block' ∧ b.doCrypto block' 0 = some block) ∧
    (∀ block, ∃ block', b.doCrypto block 0 = some block' ∧ b.doCrypto block' encrypt = some block) ∧
    ∃ enc dec : Block → Block, Function.Bijective enc ∧ Function.Bijective dec ∧
      (∀ block, b.doCrypto block encrypt = some (enc block)) ∧
      ∀ block, b.doCrypto block 0 = some (dec block) := by
  have hforward := b.doCrypto_forward hflag
  have hbackward := b.doCrypto_backward
  refine ⟨fun block => ⟨_, hforward block, ?_⟩, fun block => ⟨_, hbackward block, ?_⟩, ?_⟩
  · rw [hbackward, b.backward_forward block]
  · rw [hforward, b.forward_backward block]
  · refine ⟨_, _, ?_, ?_, hforward, hbackward⟩
    · exact ⟨b.backward_forward.injective, b.forward_backward.surjective⟩
    · exact ⟨b.forward_backward.injective, b.backward_forward.surjective⟩

/-- The boxes before any key, and the flag one. -/
theorem block_transform_invertible_initBoxes :
    (∀ block, ∃ block', initBoxes.doCrypto block 1 = some block' ∧
      initBoxes.doCrypto block' 0 = some block) ∧
    (∀ block, ∃ block', initBoxes.doCrypto block 0 = some block' ∧
      initBoxes.doCrypto block' 1 = some block) ∧
    ∃ enc dec : Block → Block, Function.Bijective enc ∧ Function.Bijective dec ∧
      (∀ block, initBoxes.doCrypto block 1 = some (enc block)) ∧
      ∀ block, initBoxes.doCrypto block 0 = some (dec block) :=
  block_transform_invertible initBoxes (by decide)

end Musgos.Outbound
