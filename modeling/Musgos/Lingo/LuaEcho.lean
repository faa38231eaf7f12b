import Musgos.Lingo.Lua

/-!
# Values a script echoes

A script that hands on what it was given sends the value through `LValueToLua` and
back. Lists, property lists and binary values are all tables on the way and are told
apart afterwards by their shape: a tag, the number of entries, or neither. The trees
below come back unchanged, since no table of one kind is taken for another and the
keys of a property list stand in the order in which they are collected.
-/
namespace Musgos.Lingo

open Foundation

section Record

theorem nodup_of_ascending {keys : List GoString} (h : keys.Pairwise (· < ·)) : keys.Nodup := by
  apply h.imp
  rintro key _ hlt rfl
  exact List.lt_irrefl key hlt

variable {keys : List GoString} {values : List LuaValue}

theorem LuaTable.rawSetString_fresh {t : LuaTable LuaValue} {key : GoString} {value : LuaValue}
    (hkey : ∀ e ∈ t.strdict, e.1 ≠ key) (hvalue : value.isNil = false) :
    t.rawSetString key value = { t with strdict := t.strdict ++ [(key, value)] } := by
  have hrest : t.strdict.filter (fun e => e.1 ≠ key) = t.strdict := by
    rw [List.filter_eq_self]
    intro e he
    simpa using hkey e he
  simp only [rawSetString, hrest, hvalue, Bool.false_eq_true, if_false]

/-- Keys that are new and different fill the string part in their order. -/
theorem LuaTable.setEach_values (hkeys : keys.Nodup) (hlength : keys.length = values.length)
    (hvalues : ∀ v ∈ values, v.isNil = false) {t : LuaTable LuaValue}
    (hfresh : ∀ e ∈ t.strdict, e.1 ∉ keys) :
    t.setEach (keys.map some) (values.map some) =
      some { t with strdict := t.strdict ++ keys.zip values } := by
  induction keys generalizing values t with
  | nil => simp [setEach]
  | cons key keys ih =>
    obtain ⟨value, values, rfl⟩ :=
      List.exists_cons_of_length_pos (l := values) (by simp [← hlength])
    obtain ⟨hnotin, hkeys⟩ := List.nodup_cons.mp hkeys
    obtain ⟨hvalue, hvalues⟩ := List.forall_mem_cons.mp hvalues
    have hset : t.rawSetString key value = { t with strdict := t.strdict ++ [(key, value)] } :=
      rawSetString_fresh (fun e he heq => hfresh e he (heq ▸ List.mem_cons_self)) hvalue
    have hrest := ih hkeys (by simpa using hlength) hvalues (t := t.rawSetString key value) (by
      intro e he
      rw [hset, List.mem_append, List.mem_singleton] at he
      rcases he with he | rfl
      · exact fun hmem => hfresh e he (List.mem_cons_of_mem key hmem)
      · exact hnotin)
    rw [List.map_cons, List.map_cons, setEach, Option.bind_eq_bind, Option.bind_some,
      Option.bind_eq_bind, Option.bind_some, hrest, hset]
    simp

theorem lookup_zip_map {β : Type} {xs : List β} (hkeys : keys.Nodup)
    (hlength : keys.length = xs.length) (default : β) :
    keys.map (fun key => ((keys.zip xs).lookup key).getD default) = xs := by
  induction keys generalizing xs with
  | nil => exact (List.length_eq_zero_iff.mp hlength.symm).symm
  | cons key keys ih =>
    obtain ⟨x, xs, rfl⟩ := List.exists_cons_of_length_pos (l := xs) (by simp [← hlength])
    obtain ⟨hnotin, hkeys⟩ := List.nodup_cons.mp hkeys
    have hothers : ∀ k ∈ keys, ((key, x) :: keys.zip xs).lookup k = (keys.zip xs).lookup k := by
      intro k hk
      have hne : (k == key) = false := beq_false_of_ne fun heq => hnotin (heq ▸ hk)
      rw [List.lookup_cons, hne]
    rw [List.zip_cons_cons, List.map_cons, List.lookup_cons_self, Option.getD_some,
      List.map_congr_left fun k hk => by rw [hothers k hk], ih hkeys (by simpa using hlength)]

theorem luaToLValueEntries_zip (keys : List GoString) (values : List LuaValue) :
    luaToLValueEntries (keys.zip values) = keys.zip (values.map luaToLValue) := by
  induction keys generalizing values with
  | nil => rw [List.zip_nil_left, List.zip_nil_left, luaToLValueEntries]
  | cons key keys ih =>
    cases values with
    | nil => rw [List.zip_nil_right, List.map_nil, List.zip_nil_right, luaToLValueEntries]
    | cons value values =>
      rw [List.zip_cons_cons, luaToLValueEntries, ih, List.map_cons, List.zip_cons_cons]

theorem lookup_zip_eq_none {β : Type} {key : GoString} (h : key ∉ keys) (xs : List β) :
    (keys.zip xs).lookup key = none := by
  rw [List.lookup_eq_none_iff]
  intro e he
  have hmem := (List.of_mem_zip (a := e.1) (b := e.2) he).1
  exact bne_iff_ne.mpr fun heq => h (heq ▸ hmem)

/-- A table with ascending string keys alone, none of them the tag, becomes a property list. -/
theorem luaToLValue_record (hsorted : keys.Pairwise (· < ·)) (htag : lingoTagKey ∉ keys)
    (hlength : keys.length = values.length) (hvalues : ∀ v ∈ values, v.isNil = false) :
    luaToLValue (.table ⟨[], keys.zip values, []⟩) =
      .propList (keys.map .symbol) (values.map luaToLValue) := by
  have hnodup : keys.Nodup := nodup_of_ascending hsorted
  have huntagged : binaryFromLuaTable ⟨[], keys.zip values, []⟩ = none := by
    rw [binaryFromLuaTable, LuaTable.rawGetString, lookup_zip_eq_none htag]
    rfl
  have hall : (keys.zip values).filter (fun e => !e.2.isNil) = keys.zip values := by
    rw [List.filter_eq_self]
    intro e he
    have hmem := (List.of_mem_zip (a := e.1) (b := e.2) he).2
    rw [hvalues _ hmem]
    rfl
  have hkeys : LuaTable.sortedKeys ⟨[], keys.zip values, []⟩ = keys := by
    rw [LuaTable.sortedKeys, hall, List.map_fst_zip hlength.le]
    exact (hsorted.imp fun h => List.le_of_lt h).insertionSort_eq
  simp only [luaToLValue, huntagged, hkeys, luaToLValueEntries_zip]
  rw [if_neg (by simp [LuaTable.maxN]), lookup_zip_map hnodup (by simpa using hlength)]

end Record

/-- The trees a script can pass on: integers, strings and binary values, non-empty lists
of such trees, and property lists of them under ascending symbols other than the tag. -/
inductive LValue.Echoed : LValue → Prop
  | integer (n : Int32) : Echoed (.integer n)
  | string (s : GoString) : Echoed (.string s)
  | picture (data : List UInt8) : Echoed (.picture data)
  | media (data : List UInt8) : Echoed (.media data)
  | list {vs : List LValue} : vs ≠ [] → (∀ v ∈ vs, Echoed v) → Echoed (.list vs)
  | propList {keys : List GoString} {vs : List LValue} : keys.Pairwise (· < ·) →
      lingoTagKey ∉ keys → keys.length = vs.length → (∀ v ∈ vs, Echoed v) →
      Echoed (.propList (keys.map .symbol) vs)

/-- Values that survive on their own survive under the keys of a property list. -/
theorem luaStable_propList {keys : List GoString} {vs : List LValue}
    (hsorted : keys.Pairwise (· < ·)) (htag : lingoTagKey ∉ keys)
    (hlength : keys.length = vs.length) (h : ∀ v ∈ vs, v.LuaStable) :
    (LValue.propList (keys.map .symbol) vs).LuaStable := by
  obtain ⟨values, hmap, hnils, hbacks⟩ := exists_lua_values h
  have hnodup : keys.Nodup := nodup_of_ascending hsorted
  have hcount : keys.length = values.length := by
    rw [hlength, ← hbacks, List.length_map]
  have htexts : (keys.map LValue.symbol).map LValue.toString = keys.map some := by
    rw [List.map_map]
    rfl
  have hcells : LuaTable.new.setEach (keys.map some) (values.map some) =
      some ⟨[], keys.zip values, []⟩ :=
    LuaTable.setEach_values hnodup hcount hnils (t := LuaTable.new) (by simp [LuaTable.new])
  refine ⟨.table ⟨[], keys.zip values, []⟩, ?_, rfl, ?_⟩
  · simp [lValueToLua, htexts, lValueToLuaEach_eq_map, hmap, hcells]
  · rw [luaToLValue_record hsorted htag hcount hnils, hbacks]

/-- Echoing gives the tree back, whatever it is built from. -/
theorem LValue.Echoed.luaStable {v : LValue} (h : v.Echoed) : v.LuaStable := by
  induction h with
  | integer n => exact luaStable_integer n
  | string s => exact luaStable_string s
  | picture data => exact luaStable_picture data
  | media data => exact luaStable_media data
  | list hne _ ih => exact luaStable_list hne ih
  | propList hsorted htag hlength _ ih => exact luaStable_propList hsorted htag hlength ih

theorem echo_preserves {v : LValue} (h : v.Echoed) :
    ∃ l, lValueToLua v = some l ∧ luaToLValue l = v := by
  obtain ⟨l, hl, -, hback⟩ := h.luaStable
  exact ⟨l, hl, hback⟩

/-- A record with a picture and a list in it, under the keys `"a"` and `"b"`. -/
theorem echo_preserves_record :
    let v : LValue := .propList ([lit "a", lit "b"].map .symbol)
      [.picture [0, 255], .list [.integer (-1), .propList [] []]]
    v.Echoed ∧ ∃ l, lValueToLua v = some l ∧ luaToLValue l = v := by
  intro v
  have hempty : LValue.Echoed (.propList [] []) :=
    @LValue.Echoed.propList [] [] .nil (by simp) rfl (by simp)
  have hinner : LValue.Echoed (.list [.integer (-1), .propList [] []]) :=
    .list (by simp) (by simpa using ⟨.integer (-1), hempty⟩)
  have hv : v.Echoed :=
    .propList (by decide) (by decide) rfl (by simpa using ⟨.picture [0, 255], hinner⟩)
  exact ⟨hv, echo_preserves hv⟩

end Musgos.Lingo
