import Mathlib.Tactic

/-!
# Numbers as `float64` bit patterns

The conversions to and from `float64` that are exact: integers below `2^53` in
magnitude and `float32` values. A pattern is taken apart into sign, exponent
field and fraction, and a finite value is an integer times a power of two. Any other
integer is rounded to the nearest pattern, which is exact where there is one.
-/
namespace Musgos.Foundation

/-- Division rounded to nearest, ties to even. -/
def roundHalfEven (n d : ℕ) : ℕ :=
  if 2 * (n % d) < d ∨ (2 * (n % d) = d ∧ n / d % 2 = 0) then n / d else n / d + 1

theorem roundHalfEven_of_dvd {n d : ℕ} (hd : 0 < d) (h : d ∣ n) : roundHalfEven n d = n / d := by
  rw [roundHalfEven, Nat.mod_eq_zero_of_dvd h, if_pos (.inl hd)]

namespace Float64

section Fields

/-- The pattern with the given sign, exponent field and fraction. -/
def pack (negative : Bool) (field frac : ℕ) : UInt64 :=
  UInt64.ofNat ((if negative then 2 ^ 63 else 0) + field * 2 ^ 52 + frac)

def negative (bits : UInt64) : Bool := 2 ^ 63 ≤ bits.toNat

def field (bits : UInt64) : ℕ := bits.toNat / 2 ^ 52 % 2 ^ 11

def frac (bits : UInt64) : ℕ := bits.toNat % 2 ^ 52

variable {s : Bool} {e f : ℕ}

theorem toNat_pack (he : e < 2 ^ 11) (hf : f < 2 ^ 52) :
    (pack s e f).toNat = (if s then 2 ^ 63 else 0) + e * 2 ^ 52 + f := by
  rw [pack, UInt64.toNat_ofNat']
  apply Nat.mod_eq_of_lt
  split <;> omega

theorem negative_pack (he : e < 2 ^ 11) (hf : f < 2 ^ 52) : negative (pack s e f) = s := by
  rw [negative, toNat_pack he hf]
  cases s <;> simp <;> omega

theorem field_pack (he : e < 2 ^ 11) (hf : f < 2 ^ 52) : field (pack s e f) = e := by
  rw [field, toNat_pack he hf]
  split <;> omega

theorem frac_pack (he : e < 2 ^ 11) (hf : f < 2 ^ 52) : frac (pack s e f) = f := by
  rw [frac, toNat_pack he hf]
  split <;> omega

end Fields

/-- The pattern of `m * 2 ^ e`, for a value that is a normal number or zero. -/
def ofScaled (negative : Bool) (m : ℕ) (e : ℤ) : UInt64 :=
  if m = 0 then pack negative 0 0
  else
    let k := Nat.log2 m
    pack negative (k + e + 1023).toNat ((m - 2 ^ k) * 2 ^ (52 - k))

/-- `float64(n)` for `n` below `2 ^ 53` in magnitude. -/
def ofInt (n : ℤ) : UInt64 := ofScaled (n < 0) n.natAbs 0

/-- `float64(f)` of a `float32` pattern; a NaN becomes a quiet one. -/
def ofFloat32 (bits : UInt32) : UInt64 :=
  let negative : Bool := 2 ^ 31 ≤ bits.toNat
  let field := bits.toNat / 2 ^ 23 % 2 ^ 8
  let frac := bits.toNat % 2 ^ 23
  if field = 255 then
    pack negative 2047 (if frac = 0 then 0 else (frac % 2 ^ 22 + 2 ^ 22) * 2 ^ 29)
  else ofScaled negative (if field = 0 then frac else frac + 2 ^ 23) ((max field 1 : ℕ) - 150)

/-- The integer a pattern stands for: finite, and equal to its own truncation. -/
def toInt? (bits : UInt64) : Option ℤ :=
  let m := if field bits = 0 then frac bits else frac bits + 2 ^ 52
  let e := max (field bits) 1
  let signed (n : ℕ) : ℤ := if negative bits then -n else n
  if field bits = 2047 then none
  else if 1075 ≤ e then some (signed (m * 2 ^ (e - 1075)))
  else if m % 2 ^ (1075 - e) = 0 then some (signed (m / 2 ^ (1075 - e)))
  else none

theorem significand {m k : ℕ} (hk : 2 ^ k ≤ m) (hm : m < 2 ^ (k + 1)) (hle : k ≤ 52) :
    (m - 2 ^ k) * 2 ^ (52 - k) < 2 ^ 52 ∧
      (m - 2 ^ k) * 2 ^ (52 - k) + 2 ^ 52 = m * 2 ^ (52 - k) := by
  have hsplit : 2 ^ k * 2 ^ (52 - k) = 2 ^ 52 := by rw [← pow_add]; congr 1; omega
  have hpos : 0 < 2 ^ (52 - k) := by positivity
  have hlt : m - 2 ^ k < 2 ^ k := by rw [pow_succ] at hm; omega
  constructor
  · calc (m - 2 ^ k) * 2 ^ (52 - k) < 2 ^ k * 2 ^ (52 - k) := Nat.mul_lt_mul_of_pos_right hlt hpos
      _ = 2 ^ 52 := hsplit
  · rw [← hsplit, ← Nat.add_mul, Nat.sub_add_cancel hk]

theorem signed_natAbs (n : ℤ) :
    (if decide (n < 0) = true then -(n.natAbs : ℤ) else n.natAbs) = n := by
  split_ifs with hneg
  all_goals
    simp only [decide_eq_true_eq] at hneg
    omega

/-- An integer below `2 ^ 53` comes back from its pattern. -/
theorem toInt?_ofInt {n : ℤ} (hn : n.natAbs < 2 ^ 53) : toInt? (ofInt n) = some n := by
  by_cases hzero : n = 0
  · subst hzero
    have hbits : ofInt 0 = pack false 0 0 := rfl
    have hfield : 0 < 2 ^ 11 := by norm_num
    have hfrac : 0 < 2 ^ 52 := by norm_num
    simp only [hbits, toInt?, field_pack hfield hfrac, frac_pack hfield hfrac,
      negative_pack hfield hfrac, if_pos, Nat.zero_mod, Nat.zero_div]
    rfl
  obtain ⟨m, hm⟩ : ∃ m, m = n.natAbs := ⟨_, rfl⟩
  have hm0 : m ≠ 0 := by omega
  obtain ⟨k, hk⟩ : ∃ k, k = Nat.log2 m := ⟨_, rfl⟩
  have hlow : 2 ^ k ≤ m := hk ▸ Nat.log2_self_le hm0
  have hhigh : m < 2 ^ (k + 1) := hk ▸ Nat.lt_log2_self
  have hle : k ≤ 52 := by
    by_contra hgt
    have : 2 ^ 53 ≤ 2 ^ k := Nat.pow_le_pow_right (by norm_num) (by omega)
    omega
  obtain ⟨hfrac, hsig⟩ := significand hlow hhigh hle
  have hbits : ofInt n = pack (n < 0) (k + 1023) ((m - 2 ^ k) * 2 ^ (52 - k)) := by
    simp only [ofInt, ofScaled, ← hm, if_neg hm0, ← hk]
    congr 1
  have hfield : k + 1023 < 2 ^ 11 := by omega
  have hsigned : (if decide (n < 0) = true then -(m : ℤ) else m) = n := hm ▸ signed_natAbs n
  rw [hbits]
  simp only [toInt?, field_pack hfield hfrac, frac_pack hfield hfrac, negative_pack hfield hfrac]
  rw [if_neg (show k + 1023 ≠ 0 by omega), hsig, if_neg (by omega), Nat.max_eq_left (by omega)]
  have hshift : 1075 - (k + 1023) = 52 - k := by omega
  by_cases htop : k = 52
  · rw [if_pos (by omega), htop, Nat.sub_self, pow_zero, Nat.mul_one, Nat.mul_one, hsigned]
  · have hpos : 0 < 2 ^ (52 - k) := by positivity
    rw [if_neg (by omega), hshift, if_pos (Nat.mul_mod_left _ _), Nat.mul_div_cancel _ hpos,
      hsigned]

section Nearest

/-- The pattern nearest to `m`, ties to even, for `m` below `2 ^ 1024`. -/
def nearest (negative : Bool) (m : ℕ) : UInt64 :=
  let shift := Nat.log2 m - 52
  ofScaled negative (roundHalfEven m (2 ^ shift)) shift

/-- A number that a pattern stands for has 53 bits, up to a power of two. -/
theorem exists_scaled_of_toInt? {bits : UInt64} {n : ℤ} (h : toInt? bits = some n) :
    ∃ m j, n.natAbs = m * 2 ^ j ∧ m < 2 ^ 53 ∧ j ≤ 971 := by
  have hfrac : frac bits < 2 ^ 52 := Nat.mod_lt _ (by norm_num)
  have hfield : field bits < 2 ^ 11 := Nat.mod_lt _ (by norm_num)
  have habs (x : ℕ) : (if negative bits then -(x : ℤ) else x).natAbs = x := by
    split_ifs
    · rw [Int.natAbs_neg, Int.natAbs_natCast]
    · exact Int.natAbs_natCast x
  obtain ⟨m, hm⟩ : ∃ m, m = if field bits = 0 then frac bits else frac bits + 2 ^ 52 := ⟨_, rfl⟩
  have hlt : m < 2 ^ 53 := by
    rw [hm]
    split_ifs <;> omega
  unfold toInt? at h
  simp only [← hm] at h
  by_cases hinf : field bits = 2047
  · rw [if_pos hinf] at h
    cases h
  rw [if_neg hinf] at h
  by_cases hlarge : 1075 ≤ max (field bits) 1
  · have hj : max (field bits) 1 - 1075 ≤ 971 := by omega
    rw [if_pos hlarge] at h
    obtain rfl := Option.some.inj h
    exact ⟨m, _, habs _, hlt, hj⟩
  · rw [if_neg hlarge] at h
    by_cases hdiv : m % 2 ^ (1075 - max (field bits) 1) = 0
    · rw [if_pos hdiv] at h
      obtain rfl := Option.some.inj h
      refine ⟨m / 2 ^ (1075 - max (field bits) 1), 0, ?_, ?_, by omega⟩
      · rw [habs, pow_zero, Nat.mul_one]
      · exact lt_of_le_of_lt (Nat.div_le_self m _) hlt
    · rw [if_neg hdiv] at h
      cases h

theorem toInt?_ofScaled {s : Bool} {m j : ℕ} (hlow : 2 ^ 52 ≤ m) (hhigh : m < 2 ^ 53)
    (hj : j ≤ 971) :
    toInt? (ofScaled s m j) =
      some (if s then -((m * 2 ^ j : ℕ) : ℤ) else ((m * 2 ^ j : ℕ) : ℤ)) := by
  have hlog : Nat.log2 m = 52 := (Nat.log2_eq_iff (by omega)).mpr ⟨hlow, hhigh⟩
  have hbits : ofScaled s m j = pack s (j + 1075) (m - 2 ^ 52) := by
    simp only [ofScaled, if_neg (show m ≠ 0 by omega), hlog, Nat.sub_self, pow_zero, Nat.mul_one]
    congr 1
    omega
  have hfield : j + 1075 < 2 ^ 11 := by omega
  have hfrac : m - 2 ^ 52 < 2 ^ 52 := by omega
  rw [hbits]
  simp only [toInt?, field_pack hfield hfrac, frac_pack hfield hfrac, negative_pack hfield hfrac]
  rw [if_neg (show j + 1075 ≠ 0 by omega), if_neg (by omega), Nat.max_eq_left (by omega),
    if_pos (by omega), Nat.sub_add_cancel hlow, Nat.add_sub_cancel]

/-- Rounding is exact for the numbers that patterns stand for. -/
theorem toInt?_nearest {bits : UInt64} {n : ℤ} (h : toInt? bits = some n) :
    toInt? (nearest (n < 0) n.natAbs) = some n := by
  obtain ⟨m, j, hn, hm, hj⟩ := exists_scaled_of_toInt? h
  by_cases hsmall : n.natAbs < 2 ^ 53
  · have hshift : Nat.log2 n.natAbs - 52 = 0 := by
      by_cases hzero : n.natAbs = 0
      · rw [hzero]
        rfl
      · have := (Nat.log2_lt hzero).mpr hsmall
        omega
    have hnearest : nearest (n < 0) n.natAbs = ofInt n := by
      simp only [nearest, hshift, pow_zero, roundHalfEven_of_dvd one_pos (one_dvd _), Nat.div_one]
      rfl
    rw [hnearest, toInt?_ofInt hsmall]
  · obtain ⟨k, hk⟩ : ∃ k, k = Nat.log2 n.natAbs := ⟨_, rfl⟩
    have hzero : n.natAbs ≠ 0 := by omega
    have hbelow : 2 ^ k ≤ n.natAbs := hk ▸ Nat.log2_self_le hzero
    have habove : n.natAbs < 2 ^ (k + 1) := hk ▸ Nat.lt_log2_self
    have hk53 : 53 ≤ k := by
      by_contra hlt
      have : 2 ^ (k + 1) ≤ 2 ^ 53 := Nat.pow_le_pow_right (by norm_num) (by omega)
      omega
    -- the leading bit is bit `k`, so at least `k - 52` of the factors two are split off
    have hshift : k - 52 ≤ j := by
      by_contra hlt
      have hpow : 2 ^ 53 * 2 ^ j ≤ 2 ^ k := by
        rw [← pow_add]
        exact Nat.pow_le_pow_right (by norm_num) (by omega)
      have hmul : m * 2 ^ j < 2 ^ 53 * 2 ^ j := Nat.mul_lt_mul_of_pos_right hm (by positivity)
      omega
    have hdvd : 2 ^ (k - 52) ∣ n.natAbs := by
      rw [hn]
      exact (pow_dvd_pow 2 hshift).mul_left m
    obtain ⟨q, hq⟩ := hdvd
    have hsplit : 2 ^ k = 2 ^ (k - 52) * 2 ^ 52 := by
      rw [← pow_add]
      congr 1
      omega
    have hpos : 0 < 2 ^ (k - 52) := by positivity
    have hlow : 2 ^ 52 ≤ q := by
      rw [hq, hsplit] at hbelow
      exact Nat.le_of_mul_le_mul_left hbelow hpos
    have hhigh : q < 2 ^ 53 := by
      rw [hq, pow_succ, hsplit, mul_assoc] at habove
      exact Nat.lt_of_mul_lt_mul_left habove
    have hnearest : nearest (n < 0) n.natAbs = ofScaled (n < 0) q ((k - 52 : ℕ) : ℤ) := by
      simp only [nearest, ← hk]
      rw [roundHalfEven_of_dvd hpos ⟨q, hq⟩, hq, Nat.mul_div_cancel_left q hpos]
    rw [hnearest, toInt?_ofScaled hlow hhigh (hshift.trans hj), Nat.mul_comm, ← hq,
      signed_natAbs]

end Nearest

end Float64

end Musgos.Foundation
