import Mathlib.Data.Finmap
import Mathlib.Tactic

/-!
# Hash maps without an observable order

A Go map is a finite map with no order of its own, so it is represented by
Mathlib's `Finmap`. Loops over a map's keys come in two kinds. A loop whose
result does not depend on the order is a fold over the key set; a loop that
builds a slice takes the order from a `RangeOrder`, over which the results
quantify.
-/
namespace Musgos.Foundation

abbrev GoMap (K V : Type) := Finmap fun _ : K => V

namespace GoMap

variable {K V : Type} [DecidableEq K]

@[simp] theorem lookup_insert_ite (m : GoMap K V) (k a : K) (v : V) :
    (m.insert k v).lookup a = if a = k then some v else m.lookup a := by
  by_cases h : a = k
  · subst h; simp
  · simp [h, Finmap.lookup_insert_of_ne m h]

@[simp] theorem lookup_erase_ite (m : GoMap K V) (k a : K) :
    (m.erase k).lookup a = if a = k then none else m.lookup a := by
  by_cases h : a = k
  · subst h; simp
  · simp [h, Finmap.lookup_erase_ne h]

theorem lookup_of_erase {m : GoMap K V} {k a : K} {v : V}
    (h : (m.erase k).lookup a = some v) : m.lookup a = some v := by
  rw [lookup_erase_ite] at h
  split_ifs at h
  exact h

theorem keys_eq_empty_iff (m : GoMap K V) : m.keys = ∅ ↔ m = ∅ := by
  constructor
  · intro h
    apply Finmap.ext_lookup
    intro a
    have ha : a ∉ m.keys := by simp [h]
    rw [Finmap.mem_keys] at ha
    rw [Finmap.lookup_eq_none.mpr ha]
    rfl
  · rintro rfl
    rfl

/-- What holds of every entry still does after an insertion if it holds of the new one. -/
theorem forall_lookup_insert {m : GoMap K V} {P : K → V → Prop} {k : K} {v : V} (hnew : P k v)
    (hold : ∀ a w, a ≠ k → m.lookup a = some w → P a w) :
    ∀ a w, (m.insert k v).lookup a = some w → P a w := by
  intro a w hlookup
  rw [lookup_insert_ite] at hlookup
  split_ifs at hlookup with hkey
  · obtain rfl := Option.some.inj hlookup
    rwa [hkey]
  · exact hold a w hkey hlookup

/-- No two keys have the same image, also not with an entry whose image is new. -/
theorem eq_of_lookup_insert {W : Type} {m : GoMap K V} {f : V → W} {k : K} {v : V}
    (hnew : ∀ a x, m.lookup a = some x → f x ≠ f v)
    (hold : ∀ a b x y, m.lookup a = some x → m.lookup b = some y → f x = f y → a = b) :
    ∀ a b x y, (m.insert k v).lookup a = some x → (m.insert k v).lookup b = some y →
      f x = f y → a = b := by
  intro a b x y ha hb himage
  rw [lookup_insert_ite] at ha hb
  split_ifs at ha hb with hka hkb hkb
  · exact hka.trans hkb.symm
  · obtain rfl := Option.some.inj ha
    exact absurd himage.symm (hnew b y hb)
  · obtain rfl := Option.some.inj hb
    exact absurd himage (hnew a x ha)
  · exact hold a b x y ha hb himage

theorem forall_lookup_erase {m : GoMap K V} {P : K → V → Prop} {k : K}
    (h : ∀ a w, a ≠ k → m.lookup a = some w → P a w) :
    ∀ a w, (m.erase k).lookup a = some w → P a w := by
  intro a w hlookup
  rw [lookup_erase_ite] at hlookup
  split_ifs at hlookup with hkey
  exact h a w hkey hlookup

theorem keys_insert (m : GoMap K V) (k : K) (v : V) : (m.insert k v).keys = insert k m.keys := by
  ext a
  rw [Finset.mem_insert, Finmap.mem_keys, Finmap.mem_keys, Finmap.mem_insert]

/-- Rewrite the entry of one key; `none` stands for an absent entry. -/
def alter (g : Option V → Option V) (m : GoMap K V) (k : K) : GoMap K V :=
  match g (m.lookup k) with
  | none => m.erase k
  | some v => m.insert k v

@[simp] theorem lookup_alter (g : Option V → Option V) (m : GoMap K V) (k a : K) :
    (alter g m k).lookup a = if a = k then g (m.lookup k) else m.lookup a := by
  unfold alter
  cases g (m.lookup k) <;> simp

instance (g : Option V → Option V) : RightCommutative (alter (K := K) g) where
  right_comm m j k := by
    apply Finmap.ext_lookup
    intro a
    by_cases hjk : j = k
    · subst hjk; rfl
    · simp only [lookup_alter, if_neg hjk, if_neg (Ne.symm hjk)]
      split_ifs with hk hj
      · exact absurd (hj.symm.trans hk) hjk
      all_goals rfl

/-- `for k := range s`, applying the same rewrite to every key of the set. -/
def alterAll (g : Option V → Option V) (m : GoMap K V) (s : Finset K) : GoMap K V :=
  s.val.foldl (alter g) m

theorem lookup_foldl_alter (g : Option V → Option V) (ks : List K) (hks : ks.Nodup)
    (m : GoMap K V) (a : K) :
    (ks.foldl (alter g) m).lookup a = if a ∈ ks then g (m.lookup a) else m.lookup a := by
  induction ks generalizing m with
  | nil => simp
  | cons k ks ih =>
    rw [List.nodup_cons] at hks
    rw [List.foldl_cons, ih hks.2, lookup_alter]
    by_cases ha : a = k
    · subst ha; simp [hks.1]
    · simp [ha]

@[simp] theorem lookup_alterAll (g : Option V → Option V) (m : GoMap K V) (s : Finset K)
    (a : K) :
    (alterAll g m s).lookup a = if a ∈ s then g (m.lookup a) else m.lookup a := by
  obtain ⟨ks, hks⟩ := s
  induction ks using Quotient.inductionOn with
  | _ ks => exact lookup_foldl_alter g ks (Multiset.coe_nodup.mp hks) m a

/-- Two maps that are inverse to each other: a bijection between their keys. -/
def Mirrors [DecidableEq V] (m : GoMap K V) (w : GoMap V K) : Prop :=
  ∀ k v, m.lookup k = some v ↔ w.lookup v = some k

section Mirrors

variable [DecidableEq V] {m : GoMap K V} {w : GoMap V K}

theorem Mirrors.left_inj (h : Mirrors m w) {k k' : K} {v : V} (hk : m.lookup k = some v)
    (hk' : m.lookup k' = some v) : k = k' := by
  have hv := (h k v).mp hk
  rw [(h k' v).mp hk'] at hv
  exact (Option.some.inj hv).symm

theorem Mirrors.right_inj (h : Mirrors m w) {k : K} {v v' : V} (hv : w.lookup v = some k)
    (hv' : w.lookup v' = some k) : v = v' := by
  have hk := (h k v).mpr hv
  rw [(h k v').mpr hv'] at hk
  exact (Option.some.inj hk).symm

theorem Mirrors.insert (h : Mirrors m w) {k : K} {v : V} (hk : m.lookup k = none)
    (hv : w.lookup v = none) : Mirrors (m.insert k v) (w.insert v k) := by
  intro k' v'
  rw [lookup_insert_ite, lookup_insert_ite]
  have hkv : ∀ x, w.lookup x ≠ some k := fun x hx => by simp [(h k x).mpr hx] at hk
  have hvk : ∀ x, m.lookup x ≠ some v := fun x hx => by simp [(h x v).mp hx] at hv
  by_cases hk' : k' = k <;> by_cases hv' : v' = v
  · simp [hk', hv']
  · subst hk'
    simp [hv', Ne.symm hv', hkv]
  · subst hv'
    simp [hk', Ne.symm hk', hvk]
  · simpa [hk', hv'] using h k' v'

theorem Mirrors.erase (h : Mirrors m w) {k : K} {v : V} (hkv : m.lookup k = some v) :
    Mirrors (m.erase k) (w.erase v) := by
  intro k' v'
  rw [lookup_erase_ite, lookup_erase_ite]
  by_cases hk' : k' = k <;> by_cases hv' : v' = v
  · simp [hk', hv']
  · subst hk'
    have hno : w.lookup v' ≠ some k' := fun hx => hv' (h.right_inj hx ((h k' v).mp hkv))
    simp [hv', hno]
  · subst hv'
    have hno : m.lookup k' ≠ some v' := fun hx => hk' (h.left_inj hx hkv)
    simp [hk', hno]
  · simpa [hk', hv'] using h k' v'

end Mirrors

end GoMap

/-- One possible iteration order: every key of the map is visited exactly once. -/
structure RangeOrder (K : Type) where
  keys : Finset K → List K
  complete : ∀ s, (keys s : Multiset K) = s.val

namespace RangeOrder

variable {K : Type} (ord : RangeOrder K)

@[simp] theorem mem_keys (s : Finset K) (k : K) : k ∈ ord.keys s ↔ k ∈ s := by
  rw [← Multiset.mem_coe, ord.complete, Finset.mem_val]

theorem nodup_keys (s : Finset K) : (ord.keys s).Nodup := by
  rw [← Multiset.coe_nodup, ord.complete]
  exact s.nodup

theorem perm (ord' : RangeOrder K) (s : Finset K) : (ord.keys s).Perm (ord'.keys s) :=
  Multiset.coe_eq_coe.mp ((ord.complete s).trans (ord'.complete s).symm)

/-- The entries of a map as `for k, v := range m` visits them. -/
def entries {V : Type} [DecidableEq K] (m : GoMap K V) : List (K × V) :=
  (ord.keys m.keys).filterMap fun k => (m.lookup k).map (k, ·)

theorem map_fst_entries {V : Type} [DecidableEq K] (m : GoMap K V) :
    (ord.entries m).map Prod.fst = ord.keys m.keys := by
  have hfst : ∀ k ∈ ord.keys m.keys, ((m.lookup k).map (k, ·)).map Prod.fst = some k := by
    intro k hk
    obtain ⟨v, hv⟩ := Finmap.mem_iff.mp (Finmap.mem_keys.mp ((ord.mem_keys _ k).mp hk))
    rw [hv]
    rfl
  rw [entries, List.map_filterMap, List.filterMap_congr hfst, List.filterMap_some]

theorem mem_entries {V : Type} [DecidableEq K] {m : GoMap K V} {k : K} {v : V} :
    (k, v) ∈ ord.entries m ↔ m.lookup k = some v := by
  rw [entries, List.mem_filterMap]
  constructor
  · rintro ⟨k', -, hk'⟩
    obtain ⟨v', hv', hpair⟩ := Option.map_eq_some_iff.mp hk'
    obtain ⟨rfl, rfl⟩ := Prod.mk.inj hpair
    exact hv'
  · intro h
    refine ⟨k, (ord.mem_keys _ k).mpr ?_, by rw [h]; rfl⟩
    exact Finmap.mem_keys.mpr (Finmap.mem_iff.mpr ⟨v, h⟩)

/-- The order that visits the keys sorted by `r`. -/
def sorted (r : K → K → Prop) [DecidableRel r] [IsTrans K r] [Std.Antisymm r] [Std.Total r] :
    RangeOrder K where
  keys s := Quot.liftOn s.val (List.insertionSort r) fun l₁ l₂ h => by
    apply List.Perm.eq_of_pairwise (fun a b _ _ => antisymm)
      (List.pairwise_insertionSort r l₁) (List.pairwise_insertionSort r l₂)
    exact ((List.perm_insertionSort r l₁).trans h).trans (List.perm_insertionSort r l₂).symm
  complete s := by
    obtain ⟨l, hl⟩ := s
    induction l using Quotient.inductionOn with
    | _ l => exact Quotient.sound (List.perm_insertionSort r l)

end RangeOrder

end Musgos.Foundation
