import Musgos.Foundation.Float64
import Musgos.Lingo.Value

/-!
# The text of Lingo values

`String` of the value types, down to the digits: the verbs `%d`, `%x` and `%f`
of `fmt` as they apply to the numbers these types hold. Lists, voids and media
inherit the text of `BaseLValue` and do not look at their contents. `none` is a
method call on a nil value or a property without a value.
-/
namespace Musgos.Lingo

open Foundation

section Format

/-- `%d` of a natural number. -/
def decimal (n : ℕ) : GoString := (Nat.toDigits 10 n).map Char.toUInt8

theorem toUInt8_of_isDigit {c : Char} (h : c.isDigit) :
    48 ≤ c.toUInt8.toNat ∧ c.toUInt8.toNat ≤ 57 ∧ c.toUInt8.toNat = c.toNat := by
  simp only [Char.isDigit, Bool.and_eq_true, decide_eq_true_eq] at h
  have hlow : 48 ≤ c.val.toNat := h.1
  have hhigh : c.val.toNat ≤ 57 := h.2
  have hbyte : c.toUInt8.toNat = c.val.toNat := by
    rw [Char.toUInt8, UInt32.toNat_toUInt8]
    omega
  exact ⟨by omega, by omega, hbyte⟩

theorem digits_decimal (m : ℕ) : ∀ d ∈ decimal m, 48 ≤ d.toNat ∧ d.toNat ≤ 57 := by
  intro d hd
  obtain ⟨c, hc, rfl⟩ := List.mem_map.mp hd
  obtain ⟨hlow, hhigh, -⟩ :=
    toUInt8_of_isDigit (Nat.isDigit_of_mem_toDigits (by norm_num) (by norm_num) hc)
  exact ⟨hlow, hhigh⟩

theorem decimal_ne_nil (m : ℕ) : decimal m ≠ [] := by
  rw [decimal, ne_eq, List.map_eq_nil_iff]
  exact Nat.toDigits_ne_nil

/-- `%d` of a signed number. -/
def intText (n : ℤ) : GoString :=
  if n < 0 then lit "-" ++ decimal n.natAbs else decimal n.natAbs

/-- `%x` of one byte of a byte array. -/
def hexByte (x : UInt8) : GoString :=
  [Nat.digitChar (x.toNat / 16), Nat.digitChar (x.toNat % 16)].map Char.toUInt8

/-- The exact value `m * 2 ^ e` in millionths, rounded once. -/
def millionths (m : ℕ) (e : ℤ) : ℕ :=
  if 0 ≤ e then m * 10 ^ 6 * 2 ^ e.toNat else roundHalfEven (m * 10 ^ 6) (2 ^ (-e).toNat)

/-- `%f` of an IEEE 754 bit pattern with the given field widths. -/
def fixedText (expBits fracBits bits : ℕ) : GoString :=
  let frac := bits % 2 ^ fracBits
  let field := bits / 2 ^ fracBits % 2 ^ expBits
  let negative := bits / 2 ^ (fracBits + expBits) % 2 = 1
  if field = 2 ^ expBits - 1 then
    if frac ≠ 0 then lit "NaN" else if negative then lit "-Inf" else lit "+Inf"
  else
    let mantissa := if field = 0 then frac else frac + 2 ^ fracBits
    let exponent : ℤ := max field 1 - (2 ^ (expBits - 1) - 1 + fracBits)
    let n := millionths mantissa exponent
    let point := decimal (n % 10 ^ 6)
    (if negative then lit "-" else []) ++ decimal (n / 10 ^ 6) ++ lit "." ++
      List.replicate (6 - point.length) (UInt8.ofNat 48) ++ point

/-- `%f` of a `float64`. -/
def float64Text (bits : UInt64) : GoString := fixedText 11 52 bits.toNat

/-- `%f` of a `float32`. -/
def float32Text (bits : UInt32) : GoString := fixedText 8 23 bits.toNat

/-- `strings.Join`. -/
def join (sep : GoString) : List GoString → GoString
  | [] => []
  | [s] => s
  | s :: t :: rest => s ++ sep ++ join sep (t :: rest)

end Format

namespace LValue

/-- `String` of `BaseLValue`. -/
def baseText (code : ℕ) : GoString := lit "\x7bLValue type " ++ decimal code ++ lit "\x7d"

mutual

def toString : LValue → Option GoString
  | .nil => none
  | .void => some (baseText vtVoid)
  | .integer n => some (intText n.toInt)
  | .symbol s => some s
  | .string s => some (lit "\"" ++ s ++ lit "\"")
  | .picture d => some (lit "<picture " ++ decimal d.length ++ lit " bytes>")
  | .float bits => some (float64Text bits)
  | .list _ => some (baseText vtList)
  | .point h v => do
    let hText ← toString h
    let vText ← toString v
    return lit "point(" ++ join (lit ", ") [hText, vText] ++ lit ")"
  | .rect l t r b => do
    let lText ← toString l
    let tText ← toString t
    let rText ← toString r
    let bText ← toString b
    return lit "rect(" ++ join (lit ", ") [lText, tText, rText, bText] ++ lit ")"
  | .propList ps vs => do
    let entries ← pairUp (toStringEach ps) (toStringEach vs)
    return lit "[" ++ join (lit ", ") (entries.map fun e => e.1 ++ lit ": " ++ e.2) ++ lit "]"
  | .color r g b =>
    some (lit "color(" ++ join (lit ", ") ([r, g, b].map fun x => decimal x.toNat) ++ lit ")")
  | .date d => some (lit "<date " ++ d.toList.flatMap hexByte ++ lit ">")
  | .media _ => some (baseText vtMedia)
  | .vector3d x y z =>
    some (lit "vector(" ++ join (lit ", ") ([x, y, z].map float32Text) ++ lit ")")
  | .transform3d m =>
    some (lit "transform([" ++ join (lit ", ") (m.toList.map float32Text) ++ lit "])")

def toStringEach : List LValue → List (Option GoString)
  | [] => []
  | v :: vs => toString v :: toStringEach vs

end

theorem toStringEach_eq_map (vs : List LValue) : toStringEach vs = vs.map toString := by
  induction vs with
  | nil => simp [toStringEach]
  | cons v vs ih => simp [toStringEach, ih]

/-- A well-formed value has a text. -/
theorem toString_isSome {v : LValue} (h : v.WellFormed) : v.toString.isSome := by
  induction v using childInduction with
  | node v ih =>
    replace ih : ∀ c ∈ v.children, c.toString.isSome := fun c hc => ih c hc (h.child hc)
    cases v
    case nil => exact absurd h not_wellFormed_nil
    case point hc vc =>
      obtain ⟨a, ha⟩ := Option.isSome_iff_exists.mp (ih hc (by simp [children]))
      obtain ⟨b, hb⟩ := Option.isSome_iff_exists.mp (ih vc (by simp [children]))
      simp [toString, ha, hb]
    case rect l t r bt =>
      obtain ⟨a, ha⟩ := Option.isSome_iff_exists.mp (ih l (by simp [children]))
      obtain ⟨b, hb⟩ := Option.isSome_iff_exists.mp (ih t (by simp [children]))
      obtain ⟨c, hc⟩ := Option.isSome_iff_exists.mp (ih r (by simp [children]))
      obtain ⟨d, hd⟩ := Option.isSome_iff_exists.mp (ih bt (by simp [children]))
      simp [toString, ha, hb, hc, hd]
    case propList ps vs =>
      obtain ⟨entries, hentries⟩ := Option.isSome_iff_exists.mp
        (pairUp_isSome ((wellFormed_propList ps vs).mp h).1
          (fun c hc => ih c (by simp [children, hc])) fun c hc => ih c (by simp [children, hc]))
      simp [toString, toStringEach_eq_map, hentries]
    all_goals simp [toString]

end LValue

end Musgos.Lingo
