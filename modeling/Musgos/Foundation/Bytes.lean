import Mathlib.Tactic

/-!
# Byte strings and big-endian words

A Go string or byte slice is a list of bytes, with no assumption that it is
valid UTF-8. Indexing outside a slice is a run-time panic, so every read is an
`Option`: `none` is the panic, and a caller that guards its reads has to be
shown never to produce it.
-/
namespace Musgos.Foundation

/-- A Go string: an arbitrary byte sequence. -/
abbrev GoString := List UInt8

instance : LawfulBEq GoString := inferInstance

/-- The bytes of a Go string literal. -/
def lit (s : String) : GoString := s.toByteArray.data.toList

/-- The `n` big-endian bytes of the low `8 * n` bits of `v`. -/
def beBytes : ℕ → ℕ → List UInt8
  | 0, _ => []
  | n + 1, v => UInt8.ofNat (v / 256 ^ n) :: beBytes n v

/-- The unsigned number a byte string spells, most significant byte first. -/
def beNat (bs : List UInt8) : ℕ := bs.foldl (fun acc x => acc * 256 + x.toNat) 0

@[simp] theorem length_beBytes (n v : ℕ) : (beBytes n v).length = n := by
  induction n with
  | zero => rfl
  | succ n ih => simp [beBytes, ih]

theorem foldl_beNat (bs : List UInt8) (acc : ℕ) :
    bs.foldl (fun acc x => acc * 256 + x.toNat) acc = acc * 256 ^ bs.length + beNat bs := by
  induction bs generalizing acc with
  | nil => simp [beNat]
  | cons x bs ih =>
    simp only [beNat, List.foldl_cons, List.length_cons, pow_succ]
    rw [ih, ih (0 * 256 + x.toNat)]
    ring

theorem beNat_cons (x : UInt8) (bs : List UInt8) :
    beNat (x :: bs) = x.toNat * 256 ^ bs.length + beNat bs := by
  simpa [beNat] using foldl_beNat bs x.toNat

theorem beNat_beBytes (n v : ℕ) : beNat (beBytes n v) = v % 256 ^ n := by
  induction n with
  | zero => simp [beBytes, beNat, Nat.mod_one]
  | succ n ih =>
    rw [beBytes, beNat_cons, ih, length_beBytes, pow_succ, Nat.mod_mul]
    simp [UInt8.toNat_ofNat']
    ring

theorem beNat_lt (bs : List UInt8) : beNat bs < 256 ^ bs.length := by
  induction bs with
  | nil => simp [beNat]
  | cons x bs ih =>
    have hx := x.toNat_lt
    rw [beNat_cons, List.length_cons, pow_succ]
    nlinarith [pow_pos (show 0 < 256 by norm_num) bs.length]

/-- `b[offset : offset+n]`. -/
def slice (b : List UInt8) (offset n : ℕ) : Option (List UInt8) :=
  if offset + n ≤ b.length then some ((b.drop offset).take n) else none

/-- `binary.BigEndian.Uint16`, `Uint32` and `Uint64` of `b[offset:]`, by width. -/
def uintAt (width : ℕ) (b : List UInt8) (offset : ℕ) : Option ℕ :=
  (slice b offset width).map beNat

theorem slice_eq_some {b : List UInt8} {offset n : ℕ} (h : offset + n ≤ b.length) :
    slice b offset n = some ((b.drop offset).take n) := if_pos h

theorem exists_uintAt (width : ℕ) (b : List UInt8) (offset : ℕ)
    (h : offset + width ≤ b.length) :
    ∃ n, uintAt width b offset = some n ∧ n < 256 ^ width := by
  refine ⟨_, by rw [uintAt, slice_eq_some h]; rfl, ?_⟩
  have hlt := beNat_lt ((b.drop offset).take width)
  have hlen : ((b.drop offset).take width).length = width := by simp; omega
  rwa [hlen] at hlt

theorem slice_take (b : List UInt8) (k offset n : ℕ) :
    slice (b.take k) offset n = if offset + n ≤ k then slice b offset n else none := by
  by_cases hwithin : offset + n ≤ k
  · have hcut : min n (k - offset) = n := by omega
    have hend : offset + n ≤ min k b.length ↔ offset + n ≤ b.length := by omega
    rw [if_pos hwithin]
    simp only [slice, List.length_take, List.drop_take, List.take_take, hcut, hend]
  · rw [if_neg hwithin, slice, List.length_take, if_neg (by omega)]

theorem uintAt_take (width : ℕ) (b : List UInt8) (k offset : ℕ) :
    uintAt width (b.take k) offset =
      if offset + width ≤ k then uintAt width b offset else none := by
  rw [uintAt, slice_take]
  split_ifs <;> rfl

theorem slice_append (p x s : List UInt8) :
    slice (p ++ (x ++ s)) p.length x.length = some x := by
  rw [slice_eq_some (by simp)]
  simp

theorem uintAt_append (width : ℕ) (p s : List UInt8) (v : ℕ) (hv : v < 256 ^ width) :
    uintAt width (p ++ (beBytes width v ++ s)) p.length = some v := by
  have h := slice_append p (beBytes width v) s
  rw [length_beBytes] at h
  rw [uintAt, h]
  simp [beNat_beBytes, Nat.mod_eq_of_lt hv]

/-- The bytes `x` stand in `b` at `offset`. -/
def StandsAt (b : List UInt8) (offset : ℕ) (x : List UInt8) : Prop :=
  ∃ p s, b = p ++ (x ++ s) ∧ p.length = offset

theorem standsAt_whole (b : List UInt8) : StandsAt b 0 b := ⟨[], [], by simp, rfl⟩

section StandsAt

variable {b x y : List UInt8} {offset : ℕ}

theorem StandsAt.left (h : StandsAt b offset (x ++ y)) : StandsAt b offset x := by
  obtain ⟨p, s, rfl, hp⟩ := h
  exact ⟨p, y ++ s, by simp, hp⟩

theorem StandsAt.right (h : StandsAt b offset (x ++ y)) : StandsAt b (offset + x.length) y := by
  obtain ⟨p, s, rfl, hp⟩ := h
  exact ⟨p ++ x, s, by simp, by simp [hp]⟩

theorem StandsAt.trans {offset' : ℕ} (hx : StandsAt b offset x) (hy : StandsAt x offset' y) :
    StandsAt b (offset + offset') y := by
  obtain ⟨p, s, rfl, rfl⟩ := hx
  obtain ⟨p', s', rfl, rfl⟩ := hy
  exact ⟨p ++ p', s' ++ s, by simp, by simp⟩

theorem StandsAt.le_length (h : StandsAt b offset x) : offset + x.length ≤ b.length := by
  obtain ⟨p, s, rfl, rfl⟩ := h
  simp

theorem StandsAt.slice_eq (h : StandsAt b offset x) : slice b offset x.length = some x := by
  obtain ⟨p, s, rfl, rfl⟩ := h
  exact slice_append p x s

theorem StandsAt.uintAt_eq {width v : ℕ} (h : StandsAt b offset (beBytes width v))
    (hv : v < 256 ^ width) : uintAt width b offset = some v := by
  obtain ⟨p, s, rfl, rfl⟩ := h
  exact uintAt_append width p s v hv

theorem StandsAt.getElem?_eq {i : ℕ} (h : StandsAt b offset x) (hi : i < x.length) :
    b[offset + i]? = x[i]? := by
  obtain ⟨p, s, rfl, rfl⟩ := h
  rw [List.getElem?_append_right (by omega), List.getElem?_append_left (by omega)]
  simp

end StandsAt

/-- The part before the first separator determines the split. -/
theorem append_cons_inj_of_notMem {α : Type} {c : α} {a b x y : List α} (ha : c ∉ a) (hb : c ∉ b)
    (h : a ++ c :: x = b ++ c :: y) : a = b ∧ x = y := by
  induction a generalizing b with
  | nil =>
    cases b with
    | nil => exact ⟨rfl, List.tail_eq_of_cons_eq h⟩
    | cons d b =>
      obtain rfl : c = d := List.head_eq_of_cons_eq h
      exact absurd List.mem_cons_self hb
  | cons d a ih =>
    cases b with
    | nil =>
      obtain rfl : d = c := List.head_eq_of_cons_eq h
      exact absurd List.mem_cons_self ha
    | cons e b =>
      obtain ⟨rfl, hrest⟩ := List.cons_eq_cons.mp h
      obtain ⟨rfl, rfl⟩ := ih (fun hc => ha (List.mem_cons_of_mem _ hc))
        (fun hc => hb (List.mem_cons_of_mem _ hc)) hrest
      exact ⟨rfl, rfl⟩

/-- More parts, each with a separator before it. -/
theorem intercalate_append {α : Type} {xs : List (List α)} (sep : List α) (hne : xs ≠ [])
    (ys : List (List α)) :
    sep.intercalate (xs ++ ys) = sep.intercalate xs ++ ys.flatMap (sep ++ ·) := by
  induction xs with
  | nil => exact absurd rfl hne
  | cons x xs ih =>
    cases xs with
    | nil =>
      rw [List.singleton_append, List.intercalate_singleton]
      induction ys generalizing x with
      | nil => rw [List.intercalate_singleton, List.flatMap_nil, List.append_nil]
      | cons y ys ih' =>
        rw [List.intercalate_cons_cons, ih' y (by simp) (by simp), List.flatMap_cons]
        simp only [List.append_assoc]
    | cons z xs =>
      have hrest := ih (List.cons_ne_nil z xs)
      rw [List.cons_append] at hrest
      rw [List.cons_append, List.cons_append, List.intercalate_cons_cons,
        List.intercalate_cons_cons, hrest]
      simp only [List.append_assoc]

end Musgos.Foundation
