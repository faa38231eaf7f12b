import Musgos.Outbound.CacheAgreement
import Musgos.Outbound.LuaJson

/-!
# Integers in the JSON of scripts

`mus.json.encode` writes a number that is an integer without a fraction, by way of an `int64`.
Whether it fits is tested in floating point, where the largest `int64` is rounded up to
`2^63`. That number passes the test and does not fit. For all others the text has the
digits of the number, and reading them, which rounds to the nearest `float64`, is exact.
-/
namespace Musgos.Outbound

open Foundation Lingo

/-- `json.Marshal` of an `int64`. -/
def marshalInt64 (v : Int64) : GoString := intText v.toInt

/-- `json.Unmarshal` of a document that is an integer; `strconv.ParseFloat` rounds it. -/
def unmarshalInteger (text : GoString) : Option JsonValue :=
  match text with
  | 45 :: digits => (digitsValue digits).map fun m => .number (Float64.nearest true m)
  | digits => (digitsValue digits).map fun m => .number (Float64.nearest false m)

section Digits

theorem digitsValue_decimal (m : ℕ) : digitsValue (decimal m) = some m := by
  have hdigits : (decimal m).all (fun d => 48 ≤ d && d ≤ 57) = true := by
    rw [List.all_eq_true]
    intro d hd
    obtain ⟨hlow, hhigh⟩ := digits_decimal m d hd
    simp only [Bool.and_eq_true, decide_eq_true_eq, UInt8.le_iff_toNat_le]
    exact ⟨hlow, hhigh⟩
  have hvalue : (decimal m).foldl (fun n d => 10 * n + (d.toNat - 48)) 0 = m := by
    rw [decimal, List.foldl_map]
    conv_rhs => rw [← Nat.ofDigitChars_ten_toDigits (n := m), Nat.ofDigitChars_eq_foldl]
    apply List.foldl_ext
    intro n c hc
    obtain ⟨-, -, hbyte⟩ :=
      toUInt8_of_isDigit (Nat.isDigit_of_mem_toDigits (by norm_num) (by norm_num) hc)
    rw [hbyte]
    rfl
  rw [digitsValue, if_pos ⟨decimal_ne_nil m, hdigits⟩, hvalue]

theorem decimal_injective : Function.Injective decimal := by
  intro m n h
  have hvalue := digitsValue_decimal m
  rw [h, digitsValue_decimal] at hvalue
  exact (Option.some.inj hvalue).symm

theorem unmarshalInteger_intText (n : ℤ) :
    unmarshalInteger (intText n) = some (.number (Float64.nearest (n < 0) n.natAbs)) := by
  unfold intText
  split_ifs with hneg
  · have htext : lit "-" ++ decimal n.natAbs = 45 :: decimal n.natAbs := rfl
    rw [htext, unmarshalInteger, digitsValue_decimal, Option.map_some, decide_eq_true hneg]
  · obtain ⟨d, ds, hd⟩ := List.exists_cons_of_ne_nil (decimal_ne_nil n.natAbs)
    have hminus : d ≠ 45 := by
      rintro rfl
      have h := digits_decimal n.natAbs 45 (by rw [hd]; exact List.mem_cons_self)
      exact absurd h.1 (by decide)
    have hplain : unmarshalInteger (decimal n.natAbs) =
        (digitsValue (decimal n.natAbs)).map fun m => .number (Float64.nearest false m) := by
      rw [hd]
      unfold unmarshalInteger
      split
      · rename_i h
        exact absurd (List.cons.inj h).1 hminus
      · rfl
    rw [hplain, digitsValue_decimal, Option.map_some, decide_eq_false hneg]

end Digits

/-- Where a number is written as an integer, its value is that of the `int64` and of the text and
comes back when the text is read, exactly if it is not `2^63`. -/
theorem json_integer_iff (marked : LuaTable LuaValue → Bool) {bits : UInt64} {n : ℤ} {v : Int64}
    (hn : Float64.toInt? bits = some n)
    (hv : luaValueToJsonable marked (.number bits) = some (.int64 v)) :
    ((-2 ^ 63 ≤ n ∧ n < 2 ^ 63) ∧ v.toInt = n ∧
      ∃ bits', (unmarshalInteger (marshalInt64 v)).map goValueToLua = some (.number bits') ∧
        Float64.toInt? bits' = some n) ↔ n ≠ 2 ^ 63 := by
  have hbounds : (-2 ^ 63 ≤ n ∧ n ≤ 2 ^ 63) ∧ v = Int64.ofInt n := by
    rw [luaValueToJsonable, Option.some_inj, numberToJsonable, hn] at hv
    dsimp only at hv
    split_ifs at hv with h
    exact ⟨h, (Jsonable.int64.inj hv).symm⟩
  obtain ⟨⟨hlow, hhigh⟩, rfl⟩ := hbounds
  constructor
  · rintro ⟨⟨-, hlt⟩, -⟩ rfl
    exact lt_irrefl _ hlt
  · intro hne
    have hlt : n < 2 ^ 63 := lt_of_le_of_ne hhigh hne
    have hint : (Int64.ofInt n).toInt = n := Int64.toInt_ofInt_of_le hlow hlt
    refine ⟨⟨hlow, hlt⟩, hint, _, ?_, Float64.toInt?_nearest hn⟩
    rw [marshalInt64, hint, unmarshalInteger_intText, Option.map_some, goValueToLua]

/-- Minus one. -/
theorem json_integer_iff_minus_one :
    ((-2 ^ 63 ≤ (-1 : ℤ) ∧ (-1 : ℤ) < 2 ^ 63) ∧ (-1 : Int64).toInt = -1 ∧
      ∃ bits', (unmarshalInteger (marshalInt64 (-1))).map goValueToLua = some (.number bits') ∧
        Float64.toInt? bits' = some (-1)) ↔ (-1 : ℤ) ≠ 2 ^ 63 := by
  have hbits : Float64.toInt? 0xBFF0000000000000 = some (-1) := by decide +kernel
  exact json_integer_iff (fun _ => false) hbits rfl

/-- `2^63` is written as `-2^63`. -/
theorem json_integer_overflow :
    Float64.toInt? 0x43E0000000000000 = some (2 ^ 63) ∧
    luaValueToJsonable (fun _ => false) (.number 0x43E0000000000000) =
      some (.int64 Int64.minValue) ∧
    marshalInt64 Int64.minValue = lit "-9223372036854775808" ∧
    (unmarshalInteger (lit "-9223372036854775808")).map goValueToLua =
      some (.number 0xC3E0000000000000) ∧
    Float64.toInt? 0xC3E0000000000000 = some (-2 ^ 63) := by
  refine ⟨?_, ?_, ?_, ?_, ?_⟩
  · decide +kernel
  · rfl
  · decide +kernel
  · rfl
  · decide +kernel

end Musgos.Outbound
