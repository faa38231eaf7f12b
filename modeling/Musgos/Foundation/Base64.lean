import Mathlib.Tactic

/-!
# Base64

The standard alphabet with padding: three bytes as four characters of six bits each, and what is
left at the end filled up with equals signs. What is written is read back, and no character of
it has a meaning in a JSON string.
-/
namespace Musgos.Foundation.Base64

/-- The character for a number below 64. -/
def digit (n : ℕ) : UInt8 :=
  if n < 26 then UInt8.ofNat (65 + n)
  else if n < 52 then UInt8.ofNat (71 + n)
  else if n < 62 then UInt8.ofNat (n - 4)
  else if n = 62 then 43
  else 47

def value (x : UInt8) : Option ℕ :=
  if 65 ≤ x ∧ x ≤ 90 then some (x.toNat - 65)
  else if 97 ≤ x ∧ x ≤ 122 then some (x.toNat - 71)
  else if 48 ≤ x ∧ x ≤ 57 then some (x.toNat + 4)
  else if x = 43 then some 62
  else if x = 47 then some 63
  else none

def encode : List UInt8 → List UInt8
  | [] => []
  | [a] => [digit (a.toNat / 4), digit (a.toNat % 4 * 16), 61, 61]
  | [a, b] => [digit (a.toNat / 4), digit (a.toNat % 4 * 16 + b.toNat / 16),
      digit (b.toNat % 16 * 4), 61]
  | a :: b :: c :: rest => digit (a.toNat / 4) :: digit (a.toNat % 4 * 16 + b.toNat / 16) ::
      digit (b.toNat % 16 * 4 + c.toNat / 64) :: digit (c.toNat % 64) :: encode rest

def decode : List UInt8 → Option (List UInt8)
  | [] => some []
  | p :: q :: r :: s :: rest => do
    let i ← value p
    let j ← value q
    if s = 61 then
      if rest ≠ [] then none
      else if r = 61 then some [UInt8.ofNat (i * 4 + j / 16)]
      else do
        let k ← value r
        some [UInt8.ofNat (i * 4 + j / 16), UInt8.ofNat (j % 16 * 16 + k / 4)]
    else do
      let k ← value r
      let l ← value s
      let bytes ← decode rest
      some (UInt8.ofNat (i * 4 + j / 16) :: UInt8.ofNat (j % 16 * 16 + k / 4) ::
        UInt8.ofNat (k % 4 * 64 + l) :: bytes)
  | _ => none

theorem value_digit : ∀ n < 64, value (digit n) = some n := by
  decide

theorem digit_ne : ∀ n < 64, digit n ≠ 61 ∧ digit n ≠ 34 ∧ digit n ≠ 92 := by
  decide

theorem ofNat_of_eq {a : UInt8} {n : ℕ} (h : n = a.toNat) : UInt8.ofNat n = a := by
  rw [h, UInt8.ofNat_toNat]

theorem decode_encode (bytes : List UInt8) : decode (encode bytes) = some bytes := by
  fun_induction encode bytes with
  | case1 => rfl
  | case2 a =>
    have ha := a.toNat_lt
    have hfirst : UInt8.ofNat (a.toNat / 4 * 4 + a.toNat % 4 * 16 / 16) = a :=
      ofNat_of_eq (by omega)
    rw [decode, value_digit _ (by omega), value_digit _ (by omega)]
    simp only [Option.bind_eq_bind, Option.bind_some, if_true, ne_eq, not_true_eq_false, if_false,
      hfirst]
  | case3 a b =>
    have ha := a.toNat_lt
    have hb := b.toNat_lt
    have hk : b.toNat % 16 * 4 < 64 := by omega
    have hfirst : UInt8.ofNat (a.toNat / 4 * 4 + (a.toNat % 4 * 16 + b.toNat / 16) / 16) = a :=
      ofNat_of_eq (by omega)
    have hsecond : UInt8.ofNat ((a.toNat % 4 * 16 + b.toNat / 16) % 16 * 16 +
        b.toNat % 16 * 4 / 4) = b := ofNat_of_eq (by omega)
    rw [decode, value_digit _ (by omega), value_digit _ (by omega), value_digit _ hk]
    simp only [Option.bind_eq_bind, Option.bind_some, if_true, ne_eq, not_true_eq_false, if_false,
      (digit_ne _ hk).1, hfirst, hsecond]
  | case4 a b c rest ih =>
    have ha := a.toNat_lt
    have hb := b.toNat_lt
    have hc := c.toNat_lt
    have hl : c.toNat % 64 < 64 := by omega
    have hfirst : UInt8.ofNat (a.toNat / 4 * 4 + (a.toNat % 4 * 16 + b.toNat / 16) / 16) = a :=
      ofNat_of_eq (by omega)
    have hsecond : UInt8.ofNat ((a.toNat % 4 * 16 + b.toNat / 16) % 16 * 16 +
        (b.toNat % 16 * 4 + c.toNat / 64) / 4) = b := ofNat_of_eq (by omega)
    have hthird : UInt8.ofNat ((b.toNat % 16 * 4 + c.toNat / 64) % 4 * 64 + c.toNat % 64) = c :=
      ofNat_of_eq (by omega)
    rw [decode, value_digit _ (by omega), value_digit _ (by omega), value_digit _ (by omega),
      value_digit _ hl, ih]
    simp only [Option.bind_eq_bind, Option.bind_some, if_false, (digit_ne _ hl).1, hfirst, hsecond,
      hthird]

theorem ne_of_mem_encode (bytes : List UInt8) : ∀ x ∈ encode bytes, x ≠ 34 ∧ x ≠ 92 := by
  have hpad : (61 : UInt8) ≠ 34 ∧ (61 : UInt8) ≠ 92 := by decide
  have hdigit : ∀ n < 64, digit n ≠ 34 ∧ digit n ≠ 92 := fun n hn => (digit_ne n hn).2
  fun_induction encode bytes with
  | case1 => exact fun _ h => absurd h List.not_mem_nil
  | case2 a =>
    have ha := a.toNat_lt
    simp only [List.forall_mem_cons]
    exact ⟨hdigit _ (by omega), hdigit _ (by omega), hpad, hpad,
      fun _ h => absurd h List.not_mem_nil⟩
  | case3 a b =>
    have ha := a.toNat_lt
    have hb := b.toNat_lt
    simp only [List.forall_mem_cons]
    exact ⟨hdigit _ (by omega), hdigit _ (by omega), hdigit _ (by omega), hpad,
      fun _ h => absurd h List.not_mem_nil⟩
  | case4 a b c rest ih =>
    have ha := a.toNat_lt
    have hb := b.toNat_lt
    have hc := c.toNat_lt
    simp only [List.forall_mem_cons]
    exact ⟨hdigit _ (by omega), hdigit _ (by omega), hdigit _ (by omega), hdigit _ (by omega), ih⟩

end Musgos.Foundation.Base64
