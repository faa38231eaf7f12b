import Musgos.Lingo.Lua

/-!
# Array positions and array detection

Two facts about the tables of a script that the conversions rely on. Appending skips
nil, so the elements of a slice keep their positions only as long as nothing follows a
nil. And a table counts as an array when it has as many entries as its last index says,
which is also true of a table whose holes are made up for by other keys.
-/
namespace Musgos.Lingo.LuaTable

open Foundation

section Append

/-- `RawGetInt`, which reads the array part. -/
def rawGetInt (t : LuaTable LuaValue) (i : ℕ) : LuaValue :=
  if i = 0 then .nil else t.array[i - 1]?.getD .nil

/-- The loop that appends values one after the other. -/
def appendAll (t : LuaTable LuaValue) (values : List LuaValue) : LuaTable LuaValue :=
  values.foldl append t

theorem exists_appendAll {α : Type} {f : α → Option LuaValue} {xs : List α}
    {t t' : LuaTable LuaValue} (h : t.appendEach (xs.map f) = some t') :
    ∃ values, List.Forall₂ (fun x l => f x = some l) xs values ∧ t' = t.appendAll values := by
  induction xs generalizing t with
  | nil =>
    cases h
    exact ⟨[], .nil, rfl⟩
  | cons x xs ih =>
    rw [List.map_cons, appendEach, Option.bind_eq_bind, Option.bind_eq_some_iff] at h
    obtain ⟨l, hl, hrest⟩ := h
    obtain ⟨values, hvalues, rfl⟩ := ih hrest
    exact ⟨l :: values, .cons hl hvalues, rfl⟩

/-- Appending packs what is not nil and drops the rest. -/
theorem appendAll_array {t : LuaTable LuaValue} (h : ∀ v ∈ t.array, v.isNil = false)
    (values : List LuaValue) :
    (t.appendAll values).array = t.array ++ values.filter (!·.isNil) := by
  induction values generalizing t with
  | nil => simp [appendAll]
  | cons v values ih =>
    have hstep : t.appendAll (v :: values) = (t.append v).appendAll values := rfl
    cases hv : v.isNil with
    | true =>
      have hskip : t.append v = t := by simp [append, hv]
      rw [hstep, hskip, ih h, List.filter_cons_of_neg (by simp [hv])]
    | false =>
      rw [hstep, append_of_not_nil h hv, ih (by simpa [or_imp, forall_and] using ⟨h, hv⟩),
        List.filter_cons_of_pos (by simp [hv]), List.append_assoc]
      rfl

/-- Packing keeps every position exactly when only nils follow a nil. -/
theorem filter_getElem?_iff (values : List LuaValue) :
    (∀ (k : ℕ) (v : LuaValue), values[k]? = some v →
        (values.filter (!·.isNil))[k]?.getD .nil = v) ↔
      values.Pairwise fun v w => v.isNil → w.isNil := by
  induction values with
  | nil => simp
  | cons v values ih =>
    cases hv : v.isNil with
    | false =>
      rw [List.filter_cons_of_pos (by simp [hv]), List.pairwise_cons, ← ih]
      constructor
      · intro h
        exact ⟨fun w _ hnil => by simp [hv] at hnil, fun k w hw => h (k + 1) w (by simpa using hw)⟩
      · rintro ⟨-, h⟩ k w hw
        cases k with
        | zero => simpa using hw
        | succ k => exact h k w (by simpa using hw)
    | true =>
      rw [List.filter_cons_of_neg (by simp [hv]), List.pairwise_cons]
      constructor
      · intro h
        have hempty : values.filter (!·.isNil) = [] := by
          have hfirst := h 0 v rfl
          cases hpacked : values.filter (!·.isNil) with
          | nil => rfl
          | cons w packed =>
            have hw : w ∈ values.filter (!·.isNil) := hpacked ▸ List.mem_cons_self
            rw [hpacked] at hfirst
            obtain rfl : w = v := by simpa using hfirst
            simp [hv] at hw
        rw [List.filter_eq_nil_iff] at hempty
        have hnils : ∀ w ∈ values, w.isNil = true := fun w hw => by simpa using hempty w hw
        refine ⟨fun w hw _ => hnils w hw, ?_⟩
        exact List.pairwise_of_forall_mem_list fun _ _ w hw _ => hnils w hw
      · rintro ⟨hnils, -⟩ k w hw
        have hempty : values.filter (!·.isNil) = [] := by
          rw [List.filter_eq_nil_iff]
          intro x hx
          simp [hnils x hx hv]
        have hw' : w.isNil = true := by
          rcases List.mem_cons.mp (List.mem_of_getElem? hw) with rfl | hmem
          · exact hv
          · exact hnils w hmem hv
        rw [hempty]
        cases w <;> simp_all [LuaValue.isNil]

/-- The values stand at their own positions, counted from one. -/
def Placed (t : LuaTable LuaValue) (values : List LuaValue) : Prop :=
  ∀ (k : ℕ) (v : LuaValue), values[k]? = some v → t.rawGetInt (k + 1) = v

theorem placed_appendAll_iff (values : List LuaValue) :
    (new.appendAll values).Placed values ↔ values.Pairwise fun v w => v.isNil → w.isNil := by
  have harray : (new.appendAll values).array = values.filter (!·.isNil) := by
    rw [appendAll_array (by simp [new])]
    rfl
  rw [← filter_getElem?_iff, ← harray]
  rfl

section Slice

variable {α : Type} {conv : α → LuaValue → Prop} {blank : α → Prop} {xs : List α}
  {values : List LuaValue}

/-- Every element of a slice is found converted at its own position, counted from one, and
exactly the blank ones are nil. -/
def KeepsPositions (conv : α → LuaValue → Prop) (blank : α → Prop) (xs : List α)
    (t : LuaTable LuaValue) : Prop :=
  ∀ (k : ℕ) (x : α), xs[k]? = some x →
    conv x (t.rawGetInt (k + 1)) ∧ ((t.rawGetInt (k + 1)).isNil = true ↔ blank x)

theorem keepsPositions_iff_placed (hvalues : List.Forall₂ conv xs values)
    (hconv : ∀ x l l', conv x l → conv x l' → l = l')
    (hblank : ∀ x l, conv x l → (l.isNil = true ↔ blank x)) (t : LuaTable LuaValue) :
    t.KeepsPositions conv blank xs ↔ t.Placed values := by
  have hlength := hvalues.length_eq
  have hget := (List.forall₂_iff_get.mp hvalues).2
  constructor
  · intro h k l hl
    obtain ⟨hk, rfl⟩ := List.getElem?_eq_some_iff.mp hl
    have hx : xs[k]? = some (xs.get ⟨k, by omega⟩) := List.getElem?_eq_getElem (by omega)
    exact hconv _ _ _ (h k _ hx).1 (hget k (by omega) hk)
  · intro h k x hx
    obtain ⟨hk, rfl⟩ := List.getElem?_eq_some_iff.mp hx
    have hl : values[k]? = some (values.get ⟨k, by omega⟩) := List.getElem?_eq_getElem (by omega)
    have hcell : conv xs[k] (t.rawGetInt (k + 1)) := (h k _ hl).symm ▸ hget k hk (by omega)
    exact ⟨hcell, hblank _ _ hcell⟩

theorem pairwise_isNil_iff (hvalues : List.Forall₂ conv xs values)
    (hblank : ∀ x l, conv x l → (l.isNil = true ↔ blank x)) :
    values.Pairwise (fun l l' => l.isNil → l'.isNil) ↔
      xs.Pairwise fun x y => blank x → blank y := by
  have hmem : ∀ {xs : List α} {values : List LuaValue}, List.Forall₂ conv xs values →
      ((∀ l ∈ values, l.isNil = true) ↔ ∀ x ∈ xs, blank x) := by
    intro xs values h
    induction h with
    | nil => simp
    | cons hx _ ih => simp only [List.forall_mem_cons, hblank _ _ hx, ih]
  induction hvalues with
  | nil => simp
  | @cons x l xs values hx hrest ih =>
    rw [List.pairwise_cons, List.pairwise_cons]
    apply and_congr _ ih
    by_cases hl : l.isNil = true
    · have hx' := (hblank _ _ hx).mp hl
      simpa [hl, hx'] using hmem hrest
    · have hx' : ¬ blank x := fun h => hl ((hblank _ _ hx).mpr h)
      simp [hl, hx']

/-- A slice that is appended element by element keeps its positions exactly when nothing
but blanks follows a blank. -/
theorem keepsPositions_appendAll_iff (hvalues : List.Forall₂ conv xs values)
    (hconv : ∀ x l l', conv x l → conv x l' → l = l')
    (hblank : ∀ x l, conv x l → (l.isNil = true ↔ blank x)) :
    (new.appendAll values).KeepsPositions conv blank xs ↔
      xs.Pairwise fun x y => blank x → blank y :=
  (keepsPositions_iff_placed hvalues hconv hblank _).trans
    ((placed_appendAll_iff values).trans (pairwise_isNil_iff hvalues hblank))

end Slice

end Append

section Detect

/-- The keys of a table; an index is a place in its array part. -/
inductive Key where
  | index (i : ℕ)
  | string (key : GoString)
  | other (key : LuaKey)
  deriving DecidableEq

/-- The indices from `i` on under which cells are not nil. -/
def indexKeys : ℕ → List LuaValue → List Key
  | _, [] => []
  | i, v :: vs => if v.isNil then indexKeys (i + 1) vs else .index i :: indexKeys (i + 1) vs

/-- The keys that `ForEach` visits. -/
def keys (t : LuaTable LuaValue) : List Key :=
  indexKeys 1 t.array ++ (t.strdict.filter (!·.2.isNil)).map (fun e => .string e.1) ++
    (t.dict.filter (!·.2.isNil)).map fun e => .other e.1

/-- The keys are the integers from one to the last index, and there is one. -/
def IsSequence (t : LuaTable LuaValue) : Prop :=
  0 < t.maxN ∧ ∀ k, k ∈ t.keys ↔ ∃ i, k = .index i ∧ 1 ≤ i ∧ i ≤ t.maxN

/-- The cells below the last index that are nil. -/
def holes (t : LuaTable LuaValue) : ℕ := (t.array.rdropWhile (·.isNil)).countP (·.isNil)

/-- The entries outside of the array part. -/
def extras (t : LuaTable LuaValue) : ℕ :=
  t.strdict.countP (!·.2.isNil) + t.dict.countP (!·.2.isNil)

theorem index_mem_indexKeys {n i : ℕ} {vs : List LuaValue} :
    .index i ∈ indexKeys n vs ↔ n ≤ i ∧ ∃ v, vs[i - n]? = some v ∧ v.isNil = false := by
  induction vs generalizing n with
  | nil => simp [indexKeys]
  | cons v vs ih =>
    have hmem : Key.index i ∈ indexKeys n (v :: vs) ↔
        (i = n ∧ v.isNil = false) ∨ .index i ∈ indexKeys (n + 1) vs := by
      cases hv : v.isNil <;> simp [indexKeys, hv]
    rw [hmem, ih]
    constructor
    · rintro (⟨rfl, hv⟩ | ⟨hle, w, hw, hnil⟩)
      · exact ⟨le_rfl, v, by simp, hv⟩
      · refine ⟨by omega, w, ?_, hnil⟩
        rw [show i - n = i - (n + 1) + 1 by omega, List.getElem?_cons_succ, hw]
    · rintro ⟨hle, w, hw, hnil⟩
      rcases hle.eq_or_lt with rfl | hlt
      · rw [Nat.sub_self, List.getElem?_cons_zero, Option.some.injEq] at hw
        exact .inl ⟨rfl, hw ▸ hnil⟩
      · rw [show i - n = i - (n + 1) + 1 by omega, List.getElem?_cons_succ] at hw
        exact .inr ⟨hlt, w, hw, hnil⟩

theorem not_mem_indexKeys {n : ℕ} {vs : List LuaValue} {k : Key} (h : ∀ i, k ≠ .index i) :
    k ∉ indexKeys n vs := by
  induction vs generalizing n with
  | nil => simp [indexKeys]
  | cons v vs ih => cases hv : v.isNil <;> simp [indexKeys, hv, ih, h]

/-- The array part is its cells up to the last index and then nils. -/
theorem array_eq (t : LuaTable LuaValue) : ∃ tail : List LuaValue,
    t.array = t.array.rdropWhile (·.isNil) ++ tail ∧ ∀ v ∈ tail, v.isNil = true :=
  ⟨_, List.rdropWhile_append_rtakeWhile.symm, fun _ hv => List.mem_rtakeWhile_imp hv⟩

theorem count_add_holes (t : LuaTable LuaValue) : t.count + t.holes = t.maxN + t.extras := by
  obtain ⟨tail, harray, htail⟩ := t.array_eq
  have htail' : tail.countP (!·.isNil) = 0 := by
    rw [List.countP_eq_zero]
    intro v hv
    simp [htail v hv]
  have hcells : t.array.countP (!·.isNil) =
      (t.array.rdropWhile (·.isNil)).countP (!·.isNil) := by
    conv_lhs => rw [harray, List.countP_append, htail', Nat.add_zero]
  have hsplit := List.length_eq_countP_add_countP (·.isNil) (l := t.array.rdropWhile (·.isNil))
  simp only [Bool.not_eq_true, Bool.decide_eq_false] at hsplit
  simp only [count, hcells, holes, maxN, extras]
  omega

theorem index_mem_keys {t : LuaTable LuaValue} {i : ℕ} :
    .index i ∈ t.keys ↔ 1 ≤ i ∧ ∃ v, t.array[i - 1]? = some v ∧ v.isNil = false := by
  simp [keys, index_mem_indexKeys]

theorem index_mem_keys_bounds {t : LuaTable LuaValue} {i : ℕ} (h : .index i ∈ t.keys) :
    1 ≤ i ∧ i ≤ t.maxN := by
  obtain ⟨tail, harray, htail⟩ := t.array_eq
  obtain ⟨hpos, v, hv, hlive⟩ := index_mem_keys.mp h
  refine ⟨hpos, ?_⟩
  by_contra hbeyond
  rw [harray, List.getElem?_append_right (by simp only [maxN] at hbeyond; omega)] at hv
  rw [htail v (List.mem_of_getElem? hv)] at hlive
  cases hlive

/-- Without holes every index up to the last one is a key. -/
theorem holes_eq_zero_iff {t : LuaTable LuaValue} :
    t.holes = 0 ↔ ∀ i, 1 ≤ i → i ≤ t.maxN → .index i ∈ t.keys := by
  obtain ⟨tail, harray, -⟩ := t.array_eq
  have hcell : ∀ i (hi : i < (t.array.rdropWhile (·.isNil)).length),
      t.array[i]? = some ((t.array.rdropWhile (·.isNil)).get ⟨i, hi⟩) := by
    intro i hi
    have hleft := congrArg (·[i]?) harray
    simp only [List.getElem?_append_left hi] at hleft
    exact hleft.trans (List.getElem?_eq_getElem hi)
  rw [holes, List.countP_eq_zero]
  constructor
  · intro h i hpos hmax
    have hi : i - 1 < (t.array.rdropWhile (·.isNil)).length := by
      simp only [maxN] at hmax
      omega
    exact index_mem_keys.mpr ⟨hpos, _, hcell _ hi, by simpa using h _ (List.get_mem _ ⟨i - 1, hi⟩)⟩
  · intro h v hv hnil
    obtain ⟨⟨i, hi⟩, rfl⟩ := List.mem_iff_get.mp hv
    obtain ⟨-, w, hw, hlive⟩ := index_mem_keys.mp (h (i + 1) (by omega) hi)
    obtain rfl := Option.some.inj ((hcell i hi).symm.trans hw)
    rw [hnil] at hlive
    cases hlive

/-- Without other entries every key is an index. -/
theorem extras_eq_zero_iff {t : LuaTable LuaValue} :
    t.extras = 0 ↔ ∀ k ∈ t.keys, ∃ i, k = .index i := by
  rw [extras, Nat.add_eq_zero_iff, List.countP_eq_zero, List.countP_eq_zero]
  constructor
  · rintro ⟨hstrings, hothers⟩ k hk
    by_contra hother
    simp only [keys, List.mem_append, List.mem_map, List.mem_filter,
      not_mem_indexKeys fun i hi => hother ⟨i, hi⟩, false_or] at hk
    rcases hk with ⟨e, ⟨he, hlive⟩, -⟩ | ⟨e, ⟨he, hlive⟩, -⟩
    · exact hstrings e he hlive
    · exact hothers e he hlive
  · intro h
    constructor
    · intro e he hlive
      obtain ⟨i, hi⟩ := h (.string e.1) (by simp [keys]; exact .inr ⟨e.2, he, by simpa using hlive⟩)
      cases hi
    · intro e he hlive
      obtain ⟨i, hi⟩ := h (.other e.1) (by simp [keys]; exact .inr ⟨e.2, he, by simpa using hlive⟩)
      cases hi

/-- A table is a sequence when nothing is missing below its last index and nothing is
elsewhere. -/
theorem isSequence_iff (t : LuaTable LuaValue) :
    t.IsSequence ↔ 0 < t.maxN ∧ t.holes = 0 ∧ t.extras = 0 := by
  rw [IsSequence, holes_eq_zero_iff, extras_eq_zero_iff]
  apply and_congr_right
  intro _
  constructor
  · intro h
    refine ⟨fun i hpos hmax => (h _).mpr ⟨i, rfl, hpos, hmax⟩, fun k hk => ?_⟩
    obtain ⟨i, hi, -⟩ := (h k).mp hk
    exact ⟨i, hi⟩
  · rintro ⟨hfull, honly⟩ k
    constructor
    · intro hk
      obtain ⟨i, rfl⟩ := honly k hk
      exact ⟨i, rfl, index_mem_keys_bounds hk⟩
    · rintro ⟨i, rfl, hpos, hmax⟩
      exact hfull i hpos hmax

/-- The holes of the array part, if there are any, are as many as the other entries. -/
def HolesFilled (t : LuaTable LuaValue) : Prop := 0 < t.holes ∧ t.holes = t.extras

theorem holes_lt_maxN {t : LuaTable LuaValue} (h : 0 < t.maxN) : t.holes < t.maxN := by
  have hne : t.array.rdropWhile (·.isNil) ≠ [] := List.length_pos_iff.mp h
  have hlast := List.rdropWhile_last_not (·.isNil) t.array hne
  apply lt_of_le_of_ne List.countP_le_length
  intro hall
  exact hlast (List.countP_eq_length.mp hall _ (List.getLast_mem hne))

/-- The count is right for every table but those. -/
theorem count_eq_maxN_iff (t : LuaTable LuaValue) :
    (0 < t.maxN ∧ t.count = t.maxN ↔ t.IsSequence) ↔ ¬ t.HolesFilled := by
  have hcount := t.count_add_holes
  have hle : t.holes ≤ t.maxN := List.countP_le_length
  rw [isSequence_iff, HolesFilled]
  omega

end Detect

end Musgos.Lingo.LuaTable
