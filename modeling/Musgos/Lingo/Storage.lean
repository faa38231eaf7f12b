import Musgos.Lingo.RoundTrip
import Musgos.Lingo.Codec

/-!
# Values kept in storage

A value takes one of two routes through the storage codec. Numbers, strings and
symbols become JSON values of their own, everything else is stored as the bytes
of its wire form. The second route returns whatever the wire does; the first
rewrites a text that is not valid UTF-8, so a string or symbol survives storage
exactly when its bytes are.
-/
namespace Musgos.Lingo.LValue

open Foundation

/-- The value comes back from its own wire form. -/
def WireStable (v : LValue) : Prop := ∃ b, v.getBytes = some b ∧ fromRawBytes b 0 = some v

/-- The value can be stored, and reading it gives it back. -/
def StorageStable (v : LValue) : Prop :=
  ∃ sv, v.marshalLValue = some (.ok sv) ∧ unmarshalLValue sv = some (.ok v)

/-- A value that is itself a text holds valid UTF-8. -/
def TextValid : LValue → Prop
  | .string s | .symbol s => ValidUtf8 s
  | _ => True

/-- The route through the wire form, for a type whose name stands for stored bytes. -/
theorem storageStable_of_storeBytes {v : LValue} {type : StoredType} (hwire : v.WireStable)
    (hstore : v.marshalLValue = storeBytes type v)
    (hread : ∀ b, unmarshalLValue ⟨type, some (.base64 b)⟩ = (fromRawBytes b 0).map .ok) :
    v.StorageStable := by
  obtain ⟨b, hb, hdecoded⟩ := hwire
  refine ⟨⟨type, some (.base64 b)⟩, ?_, ?_⟩
  · rw [hstore, storeBytes, hb]
    rfl
  · rw [hread, hdecoded]
    rfl

/-- The route of the two text types. -/
theorem storageStable_text_iff {mk : GoString → LValue} {type : StoredType}
    (hmk : Function.Injective mk)
    (hstore : ∀ s, (mk s).marshalLValue = some (.ok ⟨type, some (.text (repairUtf8 0 s))⟩))
    (hread : ∀ s, unmarshalLValue ⟨type, some (.text s)⟩ = some (.ok (mk s))) (s : GoString) :
    (mk s).StorageStable ↔ ValidUtf8 s := by
  rw [← repairUtf8_eq_self_iff]
  constructor
  · rintro ⟨sv, hsv, hback⟩
    rw [hstore, Option.some.injEq, Except.ok.injEq] at hsv
    rw [← hsv, hread, Option.some.injEq, Except.ok.injEq] at hback
    exact hmk hback
  · intro hvalid
    exact ⟨_, hstore s, by rw [hread, hvalid]⟩

/-- A value that survives the wire survives storage exactly when it is no text or
its text is valid UTF-8. A float has to be a number. -/
theorem storageStable_iff {v : LValue} (hwire : v.WireStable)
    (hfinite : ∀ bits, v = .float bits → isFinite bits = true) :
    v.StorageStable ↔ v.TextValid := by
  cases v
  case string s =>
    exact storageStable_text_iff (fun _ _ h => LValue.string.inj h) (fun _ => rfl) (fun _ => rfl) s
  case symbol s =>
    exact storageStable_text_iff (fun _ _ h => LValue.symbol.inj h) (fun _ => rfl) (fun _ => rfl) s
  case nil =>
    obtain ⟨b, hb, -⟩ := hwire
    cases hb
  case void => exact iff_of_true ⟨_, rfl, rfl⟩ trivial
  case integer n => exact iff_of_true ⟨_, rfl, rfl⟩ trivial
  case float bits =>
    exact iff_of_true ⟨⟨.float, some (.float bits)⟩, by simp [marshalLValue, hfinite], rfl⟩ trivial
  all_goals exact iff_of_true (storageStable_of_storeBytes hwire rfl fun _ => rfl) trivial

/-- A list that holds a text in Latin-1 is stored as bytes and survives. -/
theorem storageStable_iff_latin_list :
    (list [.string [0xE9]]).StorageStable ↔ (list [.string [0xE9]]).TextValid :=
  storageStable_iff
    ⟨(getBytes (list [.string [0xE9]])).getD [], by decide +kernel, by decide +kernel⟩
    (by simp)

/-- The same text on its own survives the wire but comes back from storage as U+FFFD. -/
theorem latin_string_replaced :
    (string [0xE9]).WireStable ∧ ¬ (string [0xE9]).StorageStable ∧
      (string [0xE9]).marshalLValue.bind
          (fun r => r.toOption.bind fun sv => (unmarshalLValue sv).bind Except.toOption) =
        some (.string replacementRune) := by
  refine ⟨⟨(getBytes (string [0xE9])).getD [], by decide +kernel, by decide +kernel⟩, ?_,
    by decide +kernel⟩
  rintro ⟨sv, hstore, hread⟩
  obtain rfl : ⟨.string, some (.text replacementRune)⟩ = sv := by
    simpa [marshalLValue, show repairUtf8 0 [0xE9] = replacementRune by decide] using hstore
  simp [unmarshalLValue, replacementRune] at hread

end Musgos.Lingo.LValue
