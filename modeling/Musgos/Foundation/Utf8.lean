import Mathlib.Tactic

/-!
# UTF-8 as `encoding/json` and a range over a string see it

A Go string is an arbitrary byte sequence. `encoding/json` writes it as text,
and every byte that belongs to no valid rune becomes U+FFFD. A range over a string
visits the same runes; on the encoding of characters it visits the characters.
-/
namespace Musgos.Foundation

/-- The length of the valid UTF-8 sequence a byte string starts with, if any. -/
def runeLength : List UInt8 → Option ℕ
  | [] => none
  | b₀ :: rest =>
    let continues (lo hi : UInt8) (x : UInt8) : Bool := lo ≤ x && x ≤ hi
    if b₀ < 0x80 then some 1
    else if 0xC2 ≤ b₀ ∧ b₀ ≤ 0xDF then
      match rest with
      | b₁ :: _ => if continues 0x80 0xBF b₁ then some 2 else none
      | _ => none
    else if 0xE0 ≤ b₀ ∧ b₀ ≤ 0xEF then
      let lo := if b₀ = 0xE0 then 0xA0 else 0x80
      let hi := if b₀ = 0xED then 0x9F else 0xBF
      match rest with
      | b₁ :: b₂ :: _ => if continues lo hi b₁ && continues 0x80 0xBF b₂ then some 3 else none
      | _ => none
    else if 0xF0 ≤ b₀ ∧ b₀ ≤ 0xF4 then
      let lo := if b₀ = 0xF0 then 0x90 else 0x80
      let hi := if b₀ = 0xF4 then 0x8F else 0xBF
      match rest with
      | b₁ :: b₂ :: b₃ :: _ =>
        if continues lo hi b₁ && continues 0x80 0xBF b₂ && continues 0x80 0xBF b₃ then some 4
        else none
      | _ => none
    else none

/-- UTF-8 of U+FFFD. -/
def replacementRune : List UInt8 := [0xEF, 0xBF, 0xBD]

/-- The text `encoding/json` makes of a Go string; the first argument counts the
bytes of the current rune still to be copied. -/
def repairUtf8 : ℕ → List UInt8 → List UInt8
  | _, [] => []
  | n + 1, x :: xs => x :: repairUtf8 n xs
  | 0, x :: xs =>
    match runeLength (x :: xs) with
    | some w => x :: repairUtf8 (w - 1) xs
    | none => replacementRune ++ repairUtf8 0 xs

/-- A sequence of valid runes and nothing else. -/
inductive ValidUtf8 : List UInt8 → Prop
  | nil : ValidUtf8 []
  | rune {s : List UInt8} {w : ℕ} : runeLength s = some w → ValidUtf8 (s.drop w) → ValidUtf8 s

theorem runeLength_pos {s : List UInt8} {w : ℕ} (h : runeLength s = some w) : 0 < w := by
  unfold runeLength at h
  split at h
  · cases h
  · dsimp only at h
    split_ifs at h
    · simp at h
      omega
    all_goals
      split at h
      · split_ifs at h
        simp at h
        omega
      · cases h

/-- The rest of a rune is copied as it is. -/
theorem repairUtf8_eq_take_append (n : ℕ) (s : List UInt8) :
    repairUtf8 n s = s.take n ++ repairUtf8 0 (s.drop n) := by
  induction n generalizing s with
  | zero => rfl
  | succ n ih =>
    cases s with
    | nil => rfl
    | cons x s => simp [repairUtf8, ih s]

theorem repairUtf8_rune {s : List UInt8} {w : ℕ} (h : runeLength s = some w) :
    repairUtf8 0 s = s.take w ++ repairUtf8 0 (s.drop w) := by
  cases s with
  | nil => cases h
  | cons x s =>
    obtain ⟨k, rfl⟩ : ∃ k, w = k + 1 := ⟨w - 1, by have := runeLength_pos h; omega⟩
    rw [repairUtf8, h]
    simp [repairUtf8_eq_take_append k s]

theorem length_le_repairUtf8 (n : ℕ) (s : List UInt8) : s.length ≤ (repairUtf8 n s).length := by
  induction s generalizing n with
  | nil => simp
  | cons x s ih =>
    cases n with
    | succ n => simpa [repairUtf8] using ih n
    | zero =>
      cases h : runeLength (x :: s) with
      | some w => simpa [repairUtf8, h] using ih (w - 1)
      | none =>
        have := ih 0
        simp only [repairUtf8, h, replacementRune, List.length_append, List.length_cons,
          List.length_nil]
        omega

/-- Exactly the valid texts pass unchanged: a replacement makes the text longer. -/
theorem repairUtf8_eq_self_iff (s : List UInt8) : repairUtf8 0 s = s ↔ ValidUtf8 s := by
  constructor
  · intro h
    -- the induction is on the number of bytes that remain
    induction hn : s.length using Nat.strong_induction_on generalizing s with
    | _ n ih =>
      cases s with
      | nil => exact .nil
      | cons x s =>
        cases hrune : runeLength (x :: s) with
        | some w =>
          rw [repairUtf8_rune hrune] at h
          have hrest : repairUtf8 0 ((x :: s).drop w) = (x :: s).drop w :=
            List.append_cancel_left (h.trans (List.take_append_drop w (x :: s)).symm)
          have hpos := runeLength_pos hrune
          exact .rune hrune (ih _ (by simp [← hn]; omega) _ hrest rfl)
        | none =>
          have hlength := length_le_repairUtf8 0 s
          have := congrArg List.length h
          simp only [repairUtf8, hrune, replacementRune, List.length_append, List.length_cons,
            List.length_nil] at this
          omega
  · intro h
    induction h with
    | nil => rfl
    | rune hrune _ ih => rw [repairUtf8_rune hrune, ih, List.take_append_drop]

instance decidableValidUtf8 (s : List UInt8) : Decidable (ValidUtf8 s) :=
  decidable_of_iff _ (repairUtf8_eq_self_iff s)

section Lengths

variable {b₀ b₁ b₂ b₃ : UInt8} {rest : List UInt8}

theorem not_between {lo hi b : UInt8} (h : b.toNat < lo.toNat ∨ hi.toNat < b.toNat) :
    ¬ (lo ≤ b ∧ b ≤ hi) := by
  simp only [UInt8.le_iff_toNat_le]
  omega

theorem not_ascii (h : 0x80 ≤ b₀.toNat) : ¬ b₀ < 0x80 :=
  UInt8.not_lt.mpr (UInt8.le_iff_toNat_le.mpr h)

theorem runeLength_ascii (h₀ : b₀.toNat < 0x80) : runeLength (b₀ :: rest) = some 1 := by
  have hlead : b₀ < 0x80 := h₀
  simp only [runeLength, if_pos hlead]

theorem runeLength_two (h₀ : 0xC2 ≤ b₀.toNat ∧ b₀.toNat ≤ 0xDF)
    (h₁ : 0x80 ≤ b₁.toNat ∧ b₁.toNat ≤ 0xBF) : runeLength (b₀ :: b₁ :: rest) = some 2 := by
  have hascii : ¬ b₀ < 0x80 := not_ascii (le_trans (by decide) h₀.1)
  have hlead : 0xC2 ≤ b₀ ∧ b₀ ≤ 0xDF := h₀
  have hnext : 0x80 ≤ b₁ ∧ b₁ ≤ 0xBF := h₁
  simp [runeLength, hascii, hlead, hnext]

theorem runeLength_three (h₀ : 0xE0 ≤ b₀.toNat ∧ b₀.toNat ≤ 0xEF)
    (h₁ : 0x80 ≤ b₁.toNat ∧ b₁.toNat ≤ 0xBF) (hlow : b₀.toNat = 0xE0 → 0xA0 ≤ b₁.toNat)
    (hhigh : b₀.toNat = 0xED → b₁.toNat ≤ 0x9F) (h₂ : 0x80 ≤ b₂.toNat ∧ b₂.toNat ≤ 0xBF) :
    runeLength (b₀ :: b₁ :: b₂ :: rest) = some 3 := by
  have hascii : ¬ b₀ < 0x80 := not_ascii (le_trans (by decide) h₀.1)
  have htwo : ¬ (0xC2 ≤ b₀ ∧ b₀ ≤ 0xDF) := not_between (.inr h₀.1)
  have hlead : 0xE0 ≤ b₀ ∧ b₀ ≤ 0xEF := h₀
  have hlow' : (if b₀ = 0xE0 then 0xA0 else 0x80) ≤ b₁ := by
    split_ifs with h
    · exact hlow (congrArg UInt8.toNat h)
    · exact h₁.1
  have hhigh' : b₁ ≤ if b₀ = 0xED then 0x9F else 0xBF := by
    split_ifs with h
    · exact hhigh (congrArg UInt8.toNat h)
    · exact h₁.2
  have hlast : 0x80 ≤ b₂ ∧ b₂ ≤ 0xBF := h₂
  simp [runeLength, hascii, htwo, hlead, hlow', hhigh', hlast]

theorem runeLength_four (h₀ : 0xF0 ≤ b₀.toNat ∧ b₀.toNat ≤ 0xF4)
    (h₁ : 0x80 ≤ b₁.toNat ∧ b₁.toNat ≤ 0xBF) (hlow : b₀.toNat = 0xF0 → 0x90 ≤ b₁.toNat)
    (hhigh : b₀.toNat = 0xF4 → b₁.toNat ≤ 0x8F) (h₂ : 0x80 ≤ b₂.toNat ∧ b₂.toNat ≤ 0xBF)
    (h₃ : 0x80 ≤ b₃.toNat ∧ b₃.toNat ≤ 0xBF) :
    runeLength (b₀ :: b₁ :: b₂ :: b₃ :: rest) = some 4 := by
  have hascii : ¬ b₀ < 0x80 := not_ascii (le_trans (by decide) h₀.1)
  have htwo : ¬ (0xC2 ≤ b₀ ∧ b₀ ≤ 0xDF) := not_between (.inr (lt_of_lt_of_le (by decide) h₀.1))
  have hthree : ¬ (0xE0 ≤ b₀ ∧ b₀ ≤ 0xEF) := not_between (.inr h₀.1)
  have hlead : 0xF0 ≤ b₀ ∧ b₀ ≤ 0xF4 := h₀
  have hlow' : (if b₀ = 0xF0 then 0x90 else 0x80) ≤ b₁ := by
    split_ifs with h
    · exact hlow (congrArg UInt8.toNat h)
    · exact h₁.1
  have hhigh' : b₁ ≤ if b₀ = 0xF4 then 0x8F else 0xBF := by
    split_ifs with h
    · exact hhigh (congrArg UInt8.toNat h)
    · exact h₁.2
  have hthird : 0x80 ≤ b₂ ∧ b₂ ≤ 0xBF := h₂
  have hlast : 0x80 ≤ b₃ ∧ b₃ ≤ 0xBF := h₃
  simp [runeLength, hascii, htwo, hthree, hlead, hlow', hhigh', hthird, hlast]

end Lengths

theorem toNat_ofNat_of_lt {n : ℕ} (h : n < 256) : (UInt8.ofNat n).toNat = n := by
  rw [UInt8.toNat_ofNat', Nat.mod_eq_of_lt h]

/-- The encoding of a character is read as one rune. -/
theorem runeLength_utf8EncodeChar (c : Char) (rest : List UInt8) :
    runeLength (String.utf8EncodeChar c ++ rest) = some (String.utf8EncodeChar c).length := by
  have hvalid : c.val.toNat < 0xD800 ∨ 0xDFFF < c.val.toNat ∧ c.val.toNat < 0x110000 := c.valid
  unfold String.utf8EncodeChar
  dsimp only
  generalize c.val.toNat = v at hvalid ⊢
  split_ifs with h₁ h₂ h₃
  · apply runeLength_ascii
    rw [toNat_ofNat_of_lt (by omega)]
    omega
  · apply runeLength_two
    all_goals
      rw [toNat_ofNat_of_lt (by omega)]
      omega
  · apply runeLength_three
    all_goals
      repeat rw [toNat_ofNat_of_lt (by omega)]
      omega
  · apply runeLength_four
    all_goals
      repeat rw [toNat_ofNat_of_lt (by omega)]
      omega

/-- Nothing else is encoded as an ASCII character is. -/
theorem utf8EncodeChar_eq_iff {c d : Char} (hd : d.val.toNat ≤ 127) :
    String.utf8EncodeChar c = String.utf8EncodeChar d ↔ c = d := by
  constructor
  · intro h
    unfold String.utf8EncodeChar at h
    dsimp only at h
    rw [if_pos hd] at h
    split_ifs at h with hc
    · have hval : c.val.toNat = d.val.toNat := by
        have hbyte := congrArg UInt8.toNat (List.cons.inj h).1
        rwa [toNat_ofNat_of_lt (by omega), toNat_ofNat_of_lt (by omega)] at hbyte
      exact Char.ext (UInt32.toNat_inj.mp hval)
    all_goals simp at h
  · rintro rfl
    rfl

section Range

/-- The runes a range over a string visits, each as `WriteRune` writes it; the first argument
counts the bytes of a rune that was visited already. -/
def runesAfter : ℕ → List UInt8 → List (List UInt8)
  | _, [] => []
  | n + 1, _ :: xs => runesAfter n xs
  | 0, x :: xs =>
    match runeLength (x :: xs) with
    | some w => (x :: xs).take w :: runesAfter (w - 1) xs
    | none => replacementRune :: runesAfter 0 xs

def runes (s : List UInt8) : List (List UInt8) := runesAfter 0 s

theorem runesAfter_eq_runes (n : ℕ) (s : List UInt8) : runesAfter n s = runes (s.drop n) := by
  induction s generalizing n with
  | nil => rw [List.drop_nil, runes, runesAfter, runesAfter]
  | cons x xs ih =>
    cases n with
    | zero => rfl
    | succ n => rw [runesAfter, ih, List.drop_succ_cons]

theorem runes_append {r rest : List UInt8} (h : runeLength (r ++ rest) = some r.length) :
    runes (r ++ rest) = r :: runes rest := by
  have hpos := runeLength_pos h
  obtain ⟨x, xs, rfl⟩ := List.exists_cons_of_length_pos hpos
  rw [List.cons_append] at h ⊢
  rw [runes, runesAfter, h]
  simp [runesAfter_eq_runes]

/-- The bytes of a text. -/
def encodeUtf8 (cs : List Char) : List UInt8 := cs.flatMap String.utf8EncodeChar

theorem runes_encodeUtf8 (cs : List Char) :
    runes (encodeUtf8 cs) = cs.map String.utf8EncodeChar := by
  induction cs with
  | nil => rfl
  | cons c cs ih =>
    rw [encodeUtf8, List.flatMap_cons, runes_append (runeLength_utf8EncodeChar c _), List.map_cons]
    exact congrArg _ ih

theorem runes_ascii {s : List UInt8} (h : ∀ x ∈ s, x.toNat < 0x80) : runes s = s.map ([·]) := by
  induction s with
  | nil => rfl
  | cons x xs ih =>
    obtain ⟨hx, hxs⟩ := List.forall_mem_cons.mp h
    have hrune : runeLength ([x] ++ xs) = some [x].length := runeLength_ascii hx
    rw [List.map_cons, ← ih hxs]
    exact runes_append hrune

end Range

end Musgos.Foundation
