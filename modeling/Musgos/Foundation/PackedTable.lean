import Mathlib.Data.Nat.Bitwise
import Mathlib.Tactic.Ring

/-!
# Tables of words packed into a number

A table of 32-bit words is one natural number with its first word in the lowest
bits. Reading a word is a shift and replacing it an exclusive or, whatever its
index, so that a long computation over a large table can be carried out by
evaluation and transferred to the vector the number holds.
-/
namespace Musgos.Foundation.PackedTable

def word (table i : ℕ) : UInt32 := UInt32.ofNat (table >>> (32 * i))

def setWord (table i : ℕ) (w : UInt32) : ℕ :=
  table ^^^ ((word table i ^^^ w).toNat <<< (32 * i))

def pack : List UInt32 → ℕ
  | [] => 0
  | w :: words => w.toNat + pack words <<< 32

theorem word_xor (table table' i : ℕ) :
    word (table ^^^ table') i = word table i ^^^ word table' i := by
  rw [word, Nat.shiftRight_xor_distrib, UInt32.ofNat_xor]
  rfl

theorem word_shifted_self (w : UInt32) (i : ℕ) : word (w.toNat <<< (32 * i)) i = w := by
  rw [word, Nat.shiftLeft_shiftRight, UInt32.ofNat_toNat]

/-- A shifted word is invisible at every other index: below its place there are only
zeros, and above it nothing is left. -/
theorem word_shifted_ne (w : UInt32) {i j : ℕ} (h : i ≠ j) : word (w.toNat <<< (32 * i)) j = 0 := by
  obtain hlt | hgt : i < j ∨ j < i := by omega
  · obtain ⟨k, rfl⟩ := Nat.exists_eq_add_of_lt hlt
    have hsmall : w.toNat < 2 ^ (32 * (k + 1)) :=
      w.toNat_lt.trans_le (Nat.pow_le_pow_right (by decide) (by omega))
    rw [word, show 32 * (i + k + 1) = 32 * i + 32 * (k + 1) by ring, Nat.shiftRight_add,
      Nat.shiftLeft_shiftRight, Nat.shiftRight_eq_div_pow, Nat.div_eq_of_lt hsmall]
    rfl
  · obtain ⟨k, rfl⟩ := Nat.exists_eq_add_of_lt hgt
    have hzero : w.toNat <<< (32 + 32 * k) % 2 ^ 32 = 0 := by
      rw [Nat.shiftLeft_eq, pow_add, ← mul_assoc, mul_right_comm, Nat.mul_mod_left]
    rw [word, show 32 * (j + k + 1) = 32 + 32 * k + 32 * j by ring, Nat.shiftLeft_add,
      Nat.shiftLeft_shiftRight]
    exact UInt32.toNat.inj (by simpa using hzero)

theorem word_setWord_self (table i : ℕ) (w : UInt32) : word (setWord table i w) i = w := by
  rw [setWord, word_xor, word_shifted_self, ← UInt32.xor_assoc, UInt32.xor_self, UInt32.zero_xor]

theorem word_setWord_ne (table : ℕ) (w : UInt32) {i j : ℕ} (h : i ≠ j) :
    word (setWord table i w) j = word table j := by
  rw [setWord, word_xor, word_shifted_ne _ h, UInt32.xor_zero]

/-- The words of a vector stand in the table, in order. -/
def Holds {n : ℕ} (table : ℕ) (v : Vector UInt32 n) : Prop :=
  ∀ i (h : i < n), word table i = v[i]

theorem Holds.set {n table : ℕ} {v : Vector UInt32 n} (hv : Holds table v) {i : ℕ} (w : UInt32)
    (hi : i < n) : Holds (setWord table i w) (v.set i w hi) := by
  intro j hj
  by_cases hij : i = j
  · subst hij
    rw [word_setWord_self, Vector.getElem_set_self]
  · rw [word_setWord_ne table w hij, Vector.getElem_set_ne hi hj hij, hv j hj]

theorem pack_cons (w : UInt32) (words : List UInt32) :
    pack (w :: words) = 2 ^ 32 * pack words + w.toNat := by
  show w.toNat + pack words <<< 32 = _
  rw [Nat.shiftLeft_eq, Nat.add_comm, Nat.mul_comm]

theorem word_pack {words : List UInt32} {i : ℕ} (h : i < words.length) :
    word (pack words) i = words[i] := by
  induction words generalizing i with
  | nil => cases h
  | cons w words ih =>
    cases i with
    | zero =>
      apply UInt32.toNat.inj
      rw [word, pack_cons, Nat.mul_zero, Nat.shiftRight_zero, UInt32.toNat_ofNat',
        Nat.mul_add_mod, Nat.mod_eq_of_lt w.toNat_lt, List.getElem_cons_zero]
    | succ i =>
      have hrest : pack (w :: words) >>> 32 = pack words := by
        rw [pack_cons, Nat.shiftRight_eq_div_pow, Nat.mul_add_div (by decide),
          Nat.div_eq_of_lt w.toNat_lt, Nat.add_zero]
      rw [List.getElem_cons_succ, ← ih (by simpa using h), word,
        show 32 * (i + 1) = 32 + 32 * i by ring, Nat.shiftRight_add, hrest, word]

theorem holds_pack {n : ℕ} (v : Vector UInt32 n) : Holds (pack v.toList) v := by
  intro i hi
  rw [word_pack (by simpa using hi)]
  simp

end Musgos.Foundation.PackedTable
