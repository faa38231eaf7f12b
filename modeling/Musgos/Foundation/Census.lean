import Musgos.Foundation.GoMap

/-!
# Counting the entries of a map

How many entries of a map satisfy a predicate, and how one write changes the number.
Processes kept in a map by their number are counted by what they are doing.
-/
namespace Musgos.Foundation.GoMap

variable {K V : Type} [DecidableEq K]

def census (p : V → Bool) (m : GoMap K V) : ℕ :=
  (m.keys.filter fun k => (m.lookup k).any p).card

variable {p : V → Bool} {m : GoMap K V}

theorem mem_census_filter {k : K} :
    k ∈ m.keys.filter (fun k => (m.lookup k).any p) ↔ (m.lookup k).any p = true := by
  rw [Finset.mem_filter, and_iff_right_iff_imp, Finmap.mem_keys, ← Finmap.lookup_isSome]
  intro h
  exact Option.isSome_of_any h

/-- A write changes the number by what it replaces and what it puts there. -/
theorem census_insert (p : V → Bool) (m : GoMap K V) (k : K) (v : V) :
    census p (m.insert k v) + ((m.lookup k).any p).toNat = census p m + (p v).toNat := by
  have herase : ∀ m : GoMap K V,
      ((m.keys.filter fun a => (m.lookup a).any p).erase k).card + ((m.lookup k).any p).toNat =
        census p m := by
    intro m
    cases hk : (m.lookup k).any p with
    | true => exact Finset.card_erase_add_one (mem_census_filter.mpr hk)
    | false =>
      rw [Finset.erase_eq_of_notMem (by simp [hk])]
      rfl
  have hsame : ((m.insert k v).keys.filter fun a => ((m.insert k v).lookup a).any p).erase k =
      (m.keys.filter fun a => (m.lookup a).any p).erase k := by
    ext a
    rw [Finset.mem_erase, Finset.mem_erase, mem_census_filter, mem_census_filter,
      lookup_insert_ite]
    by_cases ha : a = k <;> simp [ha]
  have hnew := herase (m.insert k v)
  have hold := herase m
  rw [hsame] at hnew
  simp only [lookup_insert_ite, if_true, Option.any_some] at hnew
  omega

theorem census_insert_eq {k : K} {v : V} (h : (m.lookup k).any p = p v) :
    census p (m.insert k v) = census p m := by
  have hinsert := census_insert p m k v
  rw [h] at hinsert
  omega

theorem census_eq_zero_iff : census p m = 0 ↔ ∀ k v, m.lookup k = some v → p v = false := by
  rw [census, Finset.card_eq_zero, Finset.eq_empty_iff_forall_notMem]
  simp only [mem_census_filter]
  constructor
  · intro h k v hk
    simpa [hk] using h k
  · intro h k
    cases hk : m.lookup k with
    | none => simp
    | some v => simpa using h k v hk

theorem census_pos {k : K} {v : V} (hk : m.lookup k = some v) (hv : p v = true) :
    0 < census p m := by
  rw [Nat.pos_iff_ne_zero, Ne, census_eq_zero_iff]
  intro h
  simp [h k v hk] at hv

theorem eq_of_census_le_one (h : census p m ≤ 1) {j k : K} {v w : V} (hj : m.lookup j = some v)
    (hv : p v = true) (hk : m.lookup k = some w) (hw : p w = true) : j = k :=
  Finset.card_le_one.mp h j (mem_census_filter.mpr (by simp [hj, hv])) k
    (mem_census_filter.mpr (by simp [hk, hw]))

end Musgos.Foundation.GoMap
