import Mathlib.Data.List.DropRight
import Musgos.Foundation.Float64
import Musgos.Lingo.Text

/-!
# Values in Lua

`LValueToLua` and `LuaToLValue` of `lua_convert.go`, over tables as gopher-lua
keeps them: an array part that may hold nil, a part for string keys and a part
for all other keys. `Append` ignores nil and otherwise writes behind the last
cell that is not nil, `MaxN` is the index of that cell, and `ForEach` visits
every entry that is not nil once, in no fixed order for the two keyed parts. A
table is a tree here: scripts that tie a table into a cycle are left out.
-/
namespace Musgos.Lingo

open Foundation

/-- The keys of a Lua table that are no strings and not in its array part. -/
inductive LuaKey where
  | bool (value : Bool)
  | number (bits : UInt64)
  | object (address : ℕ)
  deriving DecidableEq

/-- A table as the interpreter keeps it: an array part, the string keys and the rest. -/
structure LuaTable (V : Type) where
  array : List V
  strdict : List (GoString × V)
  dict : List (LuaKey × V)

/-- `lua.LValue`; `object` stands for functions, user data, threads and channels. -/
inductive LuaValue where
  | nil
  | bool (value : Bool)
  | number (bits : UInt64)
  | string (value : GoString)
  | table (entries : LuaTable LuaValue)
  | object (address : ℕ)

def LuaValue.isNil : LuaValue → Bool
  | .nil => true
  | _ => false

namespace LuaTable

def new : LuaTable LuaValue := ⟨[], [], []⟩

/-- The index of the last cell of the array part that is not nil. -/
def maxN (t : LuaTable LuaValue) : ℕ := (t.array.rdropWhile (·.isNil)).length

def append (t : LuaTable LuaValue) (value : LuaValue) : LuaTable LuaValue :=
  if value.isNil then t
  else if t.maxN = t.array.length then { t with array := t.array ++ [value] }
  else { t with array := t.array.set t.maxN value }

/-- Setting a key to nil removes it. -/
def rawSetString (t : LuaTable LuaValue) (key : GoString) (value : LuaValue) : LuaTable LuaValue :=
  let rest := t.strdict.filter fun e => e.1 ≠ key
  { t with strdict := if value.isNil then rest else rest ++ [(key, value)] }

def rawGetString (t : LuaTable LuaValue) (key : GoString) : LuaValue :=
  (t.strdict.lookup key).getD .nil

/-- The number of entries `ForEach` visits. -/
def count (t : LuaTable LuaValue) : ℕ :=
  t.array.countP (!·.isNil) + t.strdict.countP (!·.2.isNil) + t.dict.countP (!·.2.isNil)

/-- The string keys `ForEach` visits, sorted. -/
def sortedKeys (t : LuaTable LuaValue) : List GoString :=
  ((t.strdict.filter (!·.2.isNil)).map Prod.fst).insertionSort (· ≤ ·)

/-- As many entries as the array part is long: no hole and no other key. -/
def isSequentialArray (t : LuaTable LuaValue) (maxN : ℕ) : Bool := t.count = maxN

/-- The loop that appends the elements of a slice. -/
def appendEach : LuaTable LuaValue → List (Option LuaValue) → Option (LuaTable LuaValue)
  | t, [] => some t
  | t, v :: vs => do appendEach (t.append (← v)) vs

/-- The loop over the two slices of a property list. -/
def setEach : LuaTable LuaValue → List (Option GoString) → List (Option LuaValue) →
    Option (LuaTable LuaValue)
  | t, [], _ => some t
  | _, _ :: _, [] => none
  | t, k :: ks, v :: vs => do setEach (t.rawSetString (← k) (← v)) ks vs

/-- The entries set one after the other in a new table. -/
def ofEntries (entries : List (GoString × LuaValue)) : LuaTable LuaValue :=
  entries.foldl (fun t e => t.rawSetString e.1 e.2) new

end LuaTable

section Binary

def lingoTagKey : GoString := lit "__lingo"
def lingoTagMedia : GoString := lit "media"
def lingoTagPicture : GoString := lit "picture"

/-- A binary value as a tagged table. -/
def binaryToLua (tag : GoString) (data : List UInt8) : LuaValue :=
  .table (.ofEntries [(lingoTagKey, .string tag), (lit "data", .string data)])

/-- The bytes of a Lua string; any other value counts as an empty one. -/
def LuaValue.stringBytes : LuaValue → List UInt8
  | .string s => s
  | _ => []

/-- The binary value of a tagged table; `none` when the table is not tagged. -/
def binaryFromLuaTable (t : LuaTable LuaValue) : Option LValue :=
  match t.rawGetString lingoTagKey with
  | .string tag =>
    let data := (t.rawGetString (lit "data")).stringBytes
    if tag = lingoTagMedia then some (.media data)
    else if tag = lingoTagPicture then some (.picture data)
    else none
  | _ => none

end Binary

mutual

/-- `LValueToLua`; `none` is a panic on the properties of a property list. -/
def lValueToLua : LValue → Option LuaValue
  | .nil | .void => some .nil
  | .integer n => some (.number (Float64.ofInt n.toInt))
  | .float bits => some (.number bits)
  | .string s => some (.string s)
  | .symbol s => some (.string s)
  | .list vs => do return .table (← LuaTable.new.appendEach (lValueToLuaEach vs))
  | .propList ps vs => do
    return .table (← LuaTable.new.setEach (ps.map LValue.toString) (lValueToLuaEach vs))
  | .point h v => do
    return .table (.ofEntries [(lit "locH", ← lValueToLua h), (lit "locV", ← lValueToLua v)])
  | .rect l t r b => do
    return .table (.ofEntries [(lit "left", ← lValueToLua l), (lit "top", ← lValueToLua t),
      (lit "right", ← lValueToLua r), (lit "bottom", ← lValueToLua b)])
  | .color r g b =>
    some (.table (.ofEntries [(lit "red", .number (Float64.ofInt r.toNat)),
      (lit "green", .number (Float64.ofInt g.toNat)),
      (lit "blue", .number (Float64.ofInt b.toNat))]))
  | .date d => some (.string d.toList)
  | .vector3d x y z =>
    some (.table (.ofEntries [(lit "x", .number (Float64.ofFloat32 x)),
      (lit "y", .number (Float64.ofFloat32 y)), (lit "z", .number (Float64.ofFloat32 z))]))
  | .transform3d m => do
    return .table (← LuaTable.new.appendEach
      (m.toList.map fun cell => some (.number (Float64.ofFloat32 cell))))
  | .picture d => some (binaryToLua lingoTagPicture d)
  | .media d => some (binaryToLua lingoTagMedia d)

def lValueToLuaEach : List LValue → List (Option LuaValue)
  | [] => []
  | v :: vs => lValueToLua v :: lValueToLuaEach vs

end

/-- A Lua number is an integer where it is one within 32 bits, and a float otherwise. -/
def numberToLValue (bits : UInt64) : LValue :=
  match Float64.toInt? bits with
  | some n => if -2 ^ 31 ≤ n ∧ n ≤ 2 ^ 31 - 1 then .integer (Int32.ofInt n) else .float bits
  | none => .float bits

mutual

def luaToLValue : LuaValue → LValue
  | .bool b => .integer (if b then 1 else 0)
  | .number bits => numberToLValue bits
  | .string s => .string s
  | .table ⟨array, strdict, dict⟩ =>
    let t : LuaTable LuaValue := ⟨array, strdict, dict⟩
    match binaryFromLuaTable t with
    | some bin => bin
    | none =>
      if 0 < t.maxN ∧ t.isSequentialArray t.maxN then
        .list ((luaToLValueEach array).take t.maxN)
      else
        let values := luaToLValueEntries strdict
        .propList (t.sortedKeys.map .symbol)
          (t.sortedKeys.map fun key => (values.lookup key).getD .void)
  | .nil | .object _ => .void

def luaToLValueEach : List LuaValue → List LValue
  | [] => []
  | v :: vs => luaToLValue v :: luaToLValueEach vs

def luaToLValueEntries : List (GoString × LuaValue) → List (GoString × LValue)
  | [] => []
  | (key, v) :: rest => (key, luaToLValue v) :: luaToLValueEntries rest

end

section Sequence

namespace LuaTable

theorem maxN_eq_length {t : LuaTable LuaValue} (h : ∀ v ∈ t.array, v.isNil = false) :
    t.maxN = t.array.length := by
  have hkeep : t.array.rdropWhile (·.isNil) = t.array := by
    rw [List.rdropWhile_eq_self_iff]
    intro hne
    simp [h _ (List.getLast_mem hne)]
  rw [maxN, hkeep]

theorem append_of_not_nil {t : LuaTable LuaValue} {value : LuaValue}
    (h : ∀ v ∈ t.array, v.isNil = false) (hvalue : value.isNil = false) :
    t.append value = { t with array := t.array ++ [value] } := by
  simp [append, hvalue, maxN_eq_length h]

theorem appendEach_values {values : List LuaValue} (hvalues : ∀ v ∈ values, v.isNil = false)
    {t : LuaTable LuaValue} (h : ∀ v ∈ t.array, v.isNil = false) :
    t.appendEach (values.map some) = some { t with array := t.array ++ values } := by
  induction values generalizing t with
  | nil => simp [appendEach]
  | cons v values ih =>
    have hv := hvalues v List.mem_cons_self
    have hrest := ih (fun w hw => hvalues w (List.mem_cons_of_mem v hw))
      (t := { t with array := t.array ++ [v] })
      (by simpa [or_imp, forall_and] using ⟨h, hv⟩)
    simp only [List.map_cons, appendEach, Option.bind_eq_bind, Option.bind_some,
      append_of_not_nil h hv, hrest]
    simp

theorem isSequentialArray_of_values {values : List LuaValue}
    (h : ∀ v ∈ values, v.isNil = false) :
    isSequentialArray ⟨values, [], []⟩ values.length = true := by
  have hall : values.countP (!·.isNil) = values.length := by
    rw [List.countP_eq_length]
    intro v hv
    simp [h v hv]
  simp [isSequentialArray, count, hall]

end LuaTable

theorem luaToLValueEach_eq_map (values : List LuaValue) :
    luaToLValueEach values = values.map luaToLValue := by
  induction values with
  | nil => rw [luaToLValueEach, List.map_nil]
  | cons v values ih => rw [luaToLValueEach, ih, List.map_cons]

theorem lValueToLuaEach_eq_map (vs : List LValue) : lValueToLuaEach vs = vs.map lValueToLua := by
  induction vs with
  | nil => rw [lValueToLuaEach, List.map_nil]
  | cons v vs ih => rw [lValueToLuaEach, ih, List.map_cons]

/-- A table that holds a non-empty sequence becomes a list. -/
theorem luaToLValue_sequence {values : List LuaValue} (hne : values ≠ [])
    (h : ∀ v ∈ values, v.isNil = false) :
    luaToLValue (.table ⟨values, [], []⟩) = .list (values.map luaToLValue) := by
  have hmax : LuaTable.maxN ⟨values, [], []⟩ = values.length := LuaTable.maxN_eq_length h
  have hseq := LuaTable.isSequentialArray_of_values h
  have hpos : 0 < values.length := List.length_pos_iff.mpr hne
  have htag : binaryFromLuaTable ⟨values, [], []⟩ = none := rfl
  simp only [luaToLValue, htag, hmax, hseq, hpos, and_self, if_true, luaToLValueEach_eq_map]
  rw [List.take_of_length_le (by simp)]

end Sequence

section Stable

/-- The value enters Lua as a value that is not nil, and reading that gives it back. -/
def LValue.LuaStable (v : LValue) : Prop :=
  ∃ l, lValueToLua v = some l ∧ l.isNil = false ∧ luaToLValue l = v

theorem luaStable_integer (n : Int32) : (LValue.integer n).LuaStable := by
  refine ⟨_, rfl, rfl, ?_⟩
  have hlow := n.le_toInt
  have hhigh := n.toInt_lt
  have hback : Float64.toInt? (Float64.ofInt n.toInt) = some n.toInt :=
    Float64.toInt?_ofInt (by omega)
  simp only [luaToLValue, numberToLValue, hback]
  rw [if_pos (by omega), Int32.ofInt_toInt]

theorem luaStable_string (s : GoString) : (LValue.string s).LuaStable := ⟨_, rfl, rfl, rfl⟩

theorem luaStable_picture (d : List UInt8) : (LValue.picture d).LuaStable := ⟨_, rfl, rfl, rfl⟩

theorem luaStable_media (d : List UInt8) : (LValue.media d).LuaStable := ⟨_, rfl, rfl, rfl⟩

theorem exists_lua_values {vs : List LValue} (h : ∀ v ∈ vs, v.LuaStable) :
    ∃ values : List LuaValue, vs.map lValueToLua = values.map some ∧
      (∀ l ∈ values, l.isNil = false) ∧ values.map luaToLValue = vs := by
  induction vs with
  | nil => exact ⟨[], rfl, by simp, rfl⟩
  | cons v vs ih =>
    obtain ⟨l, hl, hnil, hback⟩ := h v List.mem_cons_self
    obtain ⟨values, hmap, hnils, hbacks⟩ := ih fun w hw => h w (List.mem_cons_of_mem v hw)
    exact ⟨l :: values, by simp [hl, hmap], by simpa using ⟨hnil, hnils⟩, by simp [hback, hbacks]⟩

theorem luaStable_list {vs : List LValue} (hne : vs ≠ []) (h : ∀ v ∈ vs, v.LuaStable) :
    (LValue.list vs).LuaStable := by
  obtain ⟨values, hmap, hnils, hbacks⟩ := exists_lua_values h
  have hvne : values ≠ [] := by
    rintro rfl
    exact hne hbacks.symm
  have hcells : LuaTable.new.appendEach (values.map some) = some ⟨values, [], []⟩ :=
    LuaTable.appendEach_values hnils (t := LuaTable.new) (by simp [LuaTable.new])
  refine ⟨.table ⟨values, [], []⟩, ?_, rfl, ?_⟩
  · simp [lValueToLua, lValueToLuaEach_eq_map, hmap, hcells]
  · rw [luaToLValue_sequence hvne hnils, hbacks]

end Stable

end Musgos.Lingo
