import Musgos.Lingo.LuaArray

/-!
# The JSON module of scripts

`mus.json.decode` and `mus.json.encode` between documents and Lua tables. Decoding fills
arrays as `LValueToLua` fills lists, and encoding tells arrays from objects as
`LuaToLValue` tells lists from property lists, so what is true of the one conversion is
stated here for both. The entries of a document's object stand in the order in which the
range over its map comes to them.
-/
namespace Musgos.Outbound

open Foundation Lingo

/-- A document as `json.Unmarshal` leaves it in an `interface{}`. -/
inductive JsonValue where
  | null
  | bool (value : Bool)
  | number (bits : UInt64)
  | string (value : GoString)
  | array (items : List JsonValue)
  | object (entries : List (GoString × JsonValue))

mutual

def goValueToLua : JsonValue → LuaValue
  | .null => .nil
  | .bool b => .bool b
  | .number bits => .number bits
  | .string s => .string s
  | .array items => .table (LuaTable.new.appendAll (goValueToLuaEach items))
  | .object entries => .table (.ofEntries (goValueToLuaEntries entries))

def goValueToLuaEach : List JsonValue → List LuaValue
  | [] => []
  | item :: items => goValueToLua item :: goValueToLuaEach items

def goValueToLuaEntries : List (GoString × JsonValue) → List (GoString × LuaValue)
  | [] => []
  | (key, item) :: entries => (key, goValueToLua item) :: goValueToLuaEntries entries

end

def isSequentialTable (t : LuaTable LuaValue) : Bool :=
  if t.maxN = 0 then false else t.count = t.maxN

/-- What `luaValueToJsonable` hands to `json.Marshal`. -/
inductive Jsonable where
  | null
  | bool (value : Bool)
  | int64 (value : Int64)
  | float64 (bits : UInt64)
  | string (value : GoString)
  | array (items : List Jsonable)
  | object (entries : List (GoString × Jsonable))

/-- An integer within the bounds is written as one. `math.MaxInt64` is `2^63` as a float. -/
def numberToJsonable (bits : UInt64) : Jsonable :=
  match Float64.toInt? bits with
  | some n => if -2 ^ 63 ≤ n ∧ n ≤ 2 ^ 63 then .int64 (Int64.ofInt n) else .float64 bits
  | none => .float64 bits

/-- The values of a key-value loop that raises the first error. -/
def collectEntries {α : Type} : List (GoString × Option α) → Option (List (GoString × α))
  | [] => some []
  | (key, value) :: entries => do
    let v ← value
    let rest ← collectEntries entries
    return (key, v) :: rest

mutual

/-- `luaValueToJsonable`, with the tables that `mus.json.array` has marked; `none` is an
error raised in the script. -/
def luaValueToJsonable (marked : LuaTable LuaValue → Bool) : LuaValue → Option Jsonable
  | .nil => some .null
  | .bool b => some (.bool b)
  | .number bits => some (numberToJsonable bits)
  | .string s => some (.string s)
  | .table ⟨array, strdict, dict⟩ =>
    let t : LuaTable LuaValue := ⟨array, strdict, dict⟩
    if isSequentialTable t || marked t then do
      return .array (← ((luaValueToJsonableEach marked array).take t.maxN).mapM id)
    else do return .object (← collectEntries (luaValueToJsonableEntries marked strdict))
  | .object _ => none

def luaValueToJsonableEach (marked : LuaTable LuaValue → Bool) :
    List LuaValue → List (Option Jsonable)
  | [] => []
  | v :: vs => luaValueToJsonable marked v :: luaValueToJsonableEach marked vs

def luaValueToJsonableEntries (marked : LuaTable LuaValue → Bool) :
    List (GoString × LuaValue) → List (GoString × Option Jsonable)
  | [] => []
  | (key, v) :: rest =>
    if v.isNil then luaValueToJsonableEntries marked rest
    else (key, luaValueToJsonable marked v) :: luaValueToJsonableEntries marked rest

end

section Positions

theorem goValueToLuaEach_eq_map (items : List JsonValue) :
    goValueToLuaEach items = items.map goValueToLua := by
  induction items with
  | nil => rw [goValueToLuaEach, List.map_nil]
  | cons item items ih => rw [goValueToLuaEach, ih, List.map_cons]

/-- The values that are nil in Lua. -/
def IsVoid (v : LValue) : Prop := v = .void ∨ v = .nil

theorem isNil_lValueToLua {v : LValue} {l : LuaValue} (h : lValueToLua v = some l) :
    l.isNil = true ↔ IsVoid v := by
  cases v
  case list | propList | transform3d =>
    simp only [lValueToLua, Option.bind_eq_bind, Option.bind_eq_some_iff, Option.pure_def,
      Option.some.injEq] at h
    obtain ⟨t, -, rfl⟩ := h
    simp [IsVoid, LuaValue.isNil]
  case point =>
    simp only [lValueToLua, Option.bind_eq_bind, Option.bind_eq_some_iff, Option.pure_def,
      Option.some.injEq] at h
    obtain ⟨_, -, _, -, rfl⟩ := h
    simp [IsVoid, LuaValue.isNil]
  case rect =>
    simp only [lValueToLua, Option.bind_eq_bind, Option.bind_eq_some_iff, Option.pure_def,
      Option.some.injEq] at h
    obtain ⟨_, -, _, -, _, -, _, -, rfl⟩ := h
    simp [IsVoid, LuaValue.isNil]
  all_goals
    rw [lValueToLua] at h
    cases h
    simp [IsVoid, LuaValue.isNil, binaryToLua]

theorem isNil_goValueToLua (item : JsonValue) :
    (goValueToLua item).isNil = true ↔ item = .null := by
  cases item <;> simp [goValueToLua, LuaValue.isNil]

/-- A list that enters Lua, and an array that is decoded, keep the positions of their
elements exactly when nothing but voids follows a void, and nothing but nulls a null. -/
theorem array_positions_iff {vs : List LValue} {t : LuaTable LuaValue}
    (hlist : lValueToLua (.list vs) = some (.table t)) (items : List JsonValue) :
    (t.KeepsPositions (fun v l => lValueToLua v = some l) IsVoid vs ↔
      vs.Pairwise fun v w => IsVoid v → IsVoid w) ∧
    ∃ t', goValueToLua (.array items) = .table t' ∧
      (t'.KeepsPositions (fun item l => goValueToLua item = l) (· = .null) items ↔
        items.Pairwise fun x y => x = .null → y = .null) := by
  constructor
  · simp only [lValueToLua, lValueToLuaEach_eq_map, Option.bind_eq_bind, Option.bind_eq_some_iff,
      Option.pure_def, Option.some.injEq, LuaValue.table.injEq] at hlist
    obtain ⟨t, happend, rfl⟩ := hlist
    obtain ⟨values, hvalues, rfl⟩ := LuaTable.exists_appendAll happend
    apply LuaTable.keepsPositions_appendAll_iff hvalues
    · intro v l l' hl hl'
      exact Option.some.inj (hl.symm.trans hl')
    · intro v l hl
      exact isNil_lValueToLua hl
  · refine ⟨LuaTable.new.appendAll (items.map goValueToLua), ?_, ?_⟩
    · rw [goValueToLua, goValueToLuaEach_eq_map]
    apply LuaTable.keepsPositions_appendAll_iff
    · rw [List.forall₂_map_right_iff]
      exact List.forall₂_same.mpr fun _ _ => rfl
    · rintro item _ _ rfl rfl
      rfl
    · rintro item _ rfl
      exact isNil_goValueToLua item

/-- One void and one null at the end. -/
theorem array_positions_iff_trailing :
    let t := LuaTable.new.appendAll [.number (Float64.ofInt 1), .nil]
    (t.KeepsPositions (fun v l => lValueToLua v = some l) IsVoid [.integer 1, .void] ↔
      [LValue.integer 1, .void].Pairwise fun v w => IsVoid v → IsVoid w) ∧
    ∃ t', goValueToLua (.array [.bool true, .null]) = .table t' ∧
      (t'.KeepsPositions (fun item l => goValueToLua item = l) (· = .null) [.bool true, .null] ↔
        [JsonValue.bool true, .null].Pairwise fun x y => x = .null → y = .null) := by
  intro t
  have hlist : lValueToLua (.list [.integer 1, .void]) = some (.table t) := rfl
  exact array_positions_iff hlist [.bool true, .null]

/-- A void or a null in the middle moves the last element up by one. -/
theorem array_positions_shift :
    lValueToLua (.list [.string (lit "a"), .void, .string (lit "b")]) =
      some (.table ⟨[.string (lit "a"), .string (lit "b")], [], []⟩) ∧
    goValueToLua (.array [.string (lit "a"), .null, .string (lit "b")]) =
      .table ⟨[.string (lit "a"), .string (lit "b")], [], []⟩ ∧
    ¬ LuaTable.KeepsPositions (fun v l => lValueToLua v = some l) IsVoid
      [.string (lit "a"), .void, .string (lit "b")]
      ⟨[.string (lit "a"), .string (lit "b")], [], []⟩ ∧
    ¬ LuaTable.KeepsPositions (fun item l => goValueToLua item = l) (· = .null)
      [.string (lit "a"), .null, .string (lit "b")]
      ⟨[.string (lit "a"), .string (lit "b")], [], []⟩ := by
  refine ⟨rfl, rfl, fun h => ?_, fun h => ?_⟩
  · have hcell := (h 2 _ rfl).1
    cases hcell
  · have hcell := (h 2 _ rfl).1
    cases hcell

end Positions

section Detection

/-- The tests for an array are right about a table exactly when its holes are not made up
for by as many other entries. The bare count, without the caller's test of the last index,
is also wrong about the empty table. -/
theorem array_detection_iff (t : LuaTable LuaValue) :
    ((0 < t.maxN ∧ t.isSequentialArray t.maxN ↔ t.IsSequence) ↔ ¬ t.HolesFilled) ∧
      ((t.isSequentialArray t.maxN ↔ t.IsSequence) ↔ ¬ t.HolesFilled ∧ t.count ≠ 0) ∧
      ((isSequentialTable t ↔ t.IsSequence) ↔ ¬ t.HolesFilled) := by
  have hcount := t.count_eq_maxN_iff
  have hbare : t.isSequentialArray t.maxN = true ↔ t.count = t.maxN := by
    rw [LuaTable.isSequentialArray, decide_eq_true_iff]
  have hjson : isSequentialTable t = true ↔ 0 < t.maxN ∧ t.count = t.maxN := by
    unfold isSequentialTable
    split_ifs with hzero
    · simp [hzero]
    · simp [Nat.pos_of_ne_zero hzero]
  rw [hbare, hjson]
  refine ⟨hcount, ?_, hcount⟩
  rw [← hcount]
  rcases Nat.eq_zero_or_pos t.maxN with hzero | hpos
  · have hno : ¬ t.IsSequence := fun h => h.1.ne' hzero
    simp [hzero, hno]
  · have hlive : t.count ≠ 0 := by
      have hsum := t.count_add_holes
      have hlt := LuaTable.holes_lt_maxN hpos
      omega
    simp [hpos, hlive]

/-- With a hole and one string key, a table counts as an array of three: the key is dropped
and the hole becomes an element. -/
theorem array_detection_fooled :
    let t : LuaTable LuaValue :=
      ⟨[.string (lit "a"), .nil, .string (lit "c")], [(lit "name", .string (lit "ann"))], []⟩
    (0 < t.maxN ∧ t.isSequentialArray t.maxN) ∧ isSequentialTable t ∧ ¬ t.IsSequence ∧
      luaToLValue (.table t) = .list [.string (lit "a"), .void, .string (lit "c")] ∧
      luaValueToJsonable (fun _ => false) (.table t) =
        some (.array [.string (lit "a"), .null, .string (lit "c")]) := by
  intro t
  refine ⟨⟨by decide, by decide⟩, by decide, ?_, by decide +kernel, rfl⟩
  rw [LuaTable.isSequence_iff]
  decide

end Detection

end Musgos.Outbound
