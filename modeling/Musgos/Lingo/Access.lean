import Musgos.Lingo.Text

/-!
# Reading values

How the services read the values of a message: `ToInteger`, `StringValue`,
`ExtractString` and the lookup in a property list. A call on a nil interface
panics, which is `none`; the errors of the source are part of the result.
-/
namespace Musgos.Lingo.LValue

open Foundation

/-- `ToInteger`: zero for everything but an integer. -/
def toInteger : LValue → Option Int32
  | .nil => none
  | .integer n => some n
  | _ => some 0

/-- `StringValue`: the raw text of a string, the printed form of the rest. -/
def stringValue : LValue → Option GoString
  | .string s => some s
  | v => v.toString

mutual

/-- `ExtractString`; `none` is its error, and no case of it panics. -/
def extractString : LValue → Option GoString
  | .string s => some s
  | .symbol s => some s
  | .list vs => extractFirst vs
  | _ => none

def extractFirst : List LValue → Option GoString
  | [] => none
  | v :: _ => extractString v

end

/-- The names a lookup of `name` accepts: with and without the leading `!`. -/
def acceptedNames (name : GoString) : List GoString :=
  match name with
  | [] => [[]]
  | c :: rest => if c = 33 then [name, rest] else [33 :: name, name]

/-- `GetElement` on the two slices of a property list: `some none` is the error that
the property is missing. It panics on a property without a text before the match, and
on a match without a value. -/
def getElement : List LValue → List LValue → GoString → Option (Option LValue)
  | [], _, _ => some none
  | p :: ps, vs, name => do
    let text ← p.toString
    if text ∈ acceptedNames name then
      let value ← vs.head?
      return some value
    else getElement ps vs.tail name

theorem stringValue_isSome {v : LValue} (h : v.WellFormed) : v.stringValue.isSome := by
  cases v
  case string s => rfl
  all_goals exact toString_isSome h

theorem toInteger_isSome {v : LValue} (h : v.WellFormed) : v.toInteger.isSome := by
  cases v
  case nil => exact absurd h not_wellFormed_nil
  all_goals rfl

/-- In a well-formed property list a lookup does not panic and finds a well-formed value. -/
theorem getElement_wellFormed {ps vs : List LValue} (hlength : ps.length = vs.length)
    (hps : ∀ p ∈ ps, p.WellFormed) (hvs : ∀ v ∈ vs, v.WellFormed) (name : GoString) :
    ∃ found, getElement ps vs name = some found ∧ ∀ v ∈ found, v.WellFormed := by
  induction ps generalizing vs with
  | nil => exact ⟨none, by simp [getElement], by simp⟩
  | cons p ps ih =>
    obtain ⟨v, vs, rfl⟩ := List.exists_cons_of_length_pos (l := vs) (by simp [← hlength])
    rw [List.forall_mem_cons] at hps hvs
    obtain ⟨text, htext⟩ := Option.isSome_iff_exists.mp (toString_isSome hps.1)
    by_cases hname : text ∈ acceptedNames name
    · exact ⟨some v, by simp [getElement, htext, hname], by simpa using hvs.1⟩
    · obtain ⟨found, hfound, hwell⟩ := ih (by simpa using hlength) hps.2 hvs.2
      exact ⟨found, by simp [getElement, htext, hname, hfound], hwell⟩

end Musgos.Lingo.LValue
