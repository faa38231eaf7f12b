import Musgos.Foundation.Utf8
import Musgos.Lingo.Wire

/-!
# The storage codec

`MarshalLValue` and `UnmarshalLValue` of `codec.go`. What `encoding/json` writes is kept as a value
rather than as text: a number, a string or the bytes it writes as base64. A Go
string becomes JSON text with every byte that belongs to no valid rune replaced
by U+FFFD, and a float that is no number is an error.
-/
namespace Musgos.Lingo

open Foundation

/-- The type names of `StoredLValue`. -/
inductive StoredType where
  | integer | float | string | symbol | proplist | list | point | rect | color | date
  | vector3d | transform3d | picture | media | void
  deriving DecidableEq

/-- The JSON value stored under `value`. -/
inductive RawValue where
  | integer (n : Int32)
  | float (bits : UInt64)
  | text (s : GoString)
  | base64 (data : List UInt8)
  deriving DecidableEq

/-- The JSON document a value is stored as. -/
structure StoredLValue where
  type : StoredType
  value : Option RawValue
  deriving DecidableEq

/-- The error of `json.Marshal` for an infinity or a NaN. -/
inductive MarshalError where
  | unsupportedValue (bits : UInt64)
  deriving DecidableEq

/-- The errors of `json.Unmarshal` on the stored value. A value of another kind than
the one written with its type name never comes out of `MarshalLValue`. -/
inductive UnmarshalError where
  | missingValue
  | otherKind
  deriving DecidableEq

/-- The bit pattern is neither an infinity nor a NaN. -/
def isFinite (bits : UInt64) : Bool := bits.toNat / 2 ^ 52 % 2 ^ 11 ≠ 2047

namespace LValue

/-- A container or fixed-width value: its type name with its wire bytes. -/
def storeBytes (type : StoredType) (v : LValue) : Option (Except MarshalError StoredLValue) := do
  let bytes ← v.getBytes
  return .ok ⟨type, some (.base64 bytes)⟩

/-- `MarshalLValue`; the outer `none` is a panic inside `GetBytes`. -/
def marshalLValue (value : LValue) : Option (Except MarshalError StoredLValue) :=
  match value with
  | .integer n => some (.ok ⟨.integer, some (.integer n)⟩)
  | .float bits =>
    if isFinite bits then some (.ok ⟨.float, some (.float bits)⟩)
    else some (.error (.unsupportedValue bits))
  | .string s => some (.ok ⟨.string, some (.text (repairUtf8 0 s))⟩)
  | .symbol s => some (.ok ⟨.symbol, some (.text (repairUtf8 0 s))⟩)
  | .propList .. => storeBytes .proplist value
  | .list .. => storeBytes .list value
  | .point .. => storeBytes .point value
  | .rect .. => storeBytes .rect value
  | .color .. => storeBytes .color value
  | .date .. => storeBytes .date value
  | .vector3d .. => storeBytes .vector3d value
  | .transform3d .. => storeBytes .transform3d value
  | .picture .. => storeBytes .picture value
  | .media .. => storeBytes .media value
  | .nil | .void => some (.ok ⟨.void, none⟩)

/-- `UnmarshalLValue` of a document; the outer `none` is a panic inside `FromRawBytes`. For
the ten types stored as bytes the type name plays no part. -/
def unmarshalLValue (sv : StoredLValue) : Option (Except UnmarshalError LValue) :=
  match sv.type, sv.value with
  | .void, _ => some (.ok .void)
  | _, none => some (.error .missingValue)
  | .integer, some (.integer n) => some (.ok (.integer n))
  | .float, some (.float bits) => some (.ok (.float bits))
  | .string, some (.text s) => some (.ok (.string s))
  | .symbol, some (.text s) => some (.ok (.symbol s))
  | .integer, _ | .float, _ | .string, _ | .symbol, _ => some (.error .otherKind)
  | _, some (.base64 b) => (fromRawBytes b 0).map .ok
  | _, _ => some (.error .otherKind)

/-- Storing a value panics only where encoding it does. -/
theorem marshalLValue_isSome {v : LValue} (h : v.getBytes.isSome) : v.marshalLValue.isSome := by
  obtain ⟨bytes, hbytes⟩ := Option.isSome_iff_exists.mp h
  cases v <;> simp [marshalLValue, storeBytes, hbytes]
  split <;> rfl

end LValue

end Musgos.Lingo
