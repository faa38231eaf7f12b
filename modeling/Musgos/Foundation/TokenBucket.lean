import Mathlib.Algebra.Order.Field.Basic
import Mathlib.Tactic.Linarith
import Mathlib.Tactic.Ring

/-!
# Token buckets

A bucket fills at a constant rate up to its cap, and a request that finds a whole token
takes it. Filling up is not a matter of when one looks: a look in between changes nothing.
The requests granted in a stretch of time are therefore paid for by one full bucket and
by what flows in during that time.
-/
namespace Musgos.Foundation.TokenBucket

variable {F : Type} [Field F] [LinearOrder F] (cap rate : F)

/-- What is in a bucket at time `t` that held `x` at time `s`. -/
def refill (x s t : F) : F := min cap (x + (t - s) * rate)

/-- What a request leaves of a bucket's content. -/
def spend (x : F) : F := if x < 1 then x else x - 1

/-- The answers to requests at the given times, from a bucket that held `x` at time `s`. -/
def serve (x s : F) : List F → List (F × Bool)
  | [] => []
  | t :: ts => (t, decide (1 ≤ refill cap rate x s t)) :: serve (spend (refill cap rate x s t)) t ts

/-- The number of requests granted from time `a` to time `b`. -/
def granted (a b : F) (answers : List (F × Bool)) : ℕ :=
  answers.countP fun r => r.2 && (a ≤ r.1 && r.1 ≤ b)

variable {cap rate} {x s t u a b : F} {ts : List F}

theorem refill_le_cap : refill cap rate x s t ≤ cap := min_le_left _ _

theorem refill_le : refill cap rate x s t ≤ x + (t - s) * rate := min_le_right _ _

theorem mem_serve_time {r : F × Bool} (h : r ∈ serve cap rate x s ts) : r.1 ∈ ts := by
  induction ts generalizing x s with
  | nil => simp [serve] at h
  | cons t ts ih =>
    rcases List.mem_cons.mp h with rfl | h
    · exact List.mem_cons_self
    · exact List.mem_cons_of_mem t (ih h)

/-- Requests made after `b` are not granted until `b`. -/
theorem granted_eq_zero (hbt : b < t) (hsorted : (t :: ts).Pairwise (· ≤ ·)) :
    granted a b (serve cap rate x s (t :: ts)) = 0 := by
  rw [granted, List.countP_eq_zero]
  intro r hr
  have hlate : b < r.1 := by
    rcases List.mem_cons.mp (mem_serve_time hr) with h | h
    · exact h ▸ hbt
    · exact hbt.trans_le (List.rel_of_pairwise_cons hsorted h)
  simp [hlate]

section Ordered

variable [IsStrictOrderedRing F]

theorem refill_nonneg (hrate : 0 ≤ rate) (hcap : 0 ≤ cap) (hx : 0 ≤ x) (hst : s ≤ t) :
    0 ≤ refill cap rate x s t := by
  have hflow : 0 ≤ (t - s) * rate := mul_nonneg (sub_nonneg.mpr hst) hrate
  exact le_min hcap (add_nonneg hx hflow)

theorem refill_of_cap_le (hrate : 0 ≤ rate) (hst : s ≤ t) (hx : cap ≤ x) :
    refill cap rate x s t = cap := by
  have hflow : 0 ≤ (t - s) * rate := mul_nonneg (sub_nonneg.mpr hst) hrate
  exact min_eq_left (le_add_of_le_of_nonneg hx hflow)

theorem refill_refill (hrate : 0 ≤ rate) (htu : t ≤ u) :
    refill cap rate (refill cap rate x s t) t u = refill cap rate x s u := by
  have hflow : 0 ≤ (u - t) * rate := mul_nonneg (sub_nonneg.mpr htu) hrate
  have hsum : x + (t - s) * rate + (u - t) * rate = x + (u - s) * rate := by ring
  rw [refill, refill, ← min_add_add_right, hsum, ← min_assoc,
    min_eq_left (le_add_of_nonneg_right hflow)]
  rfl

theorem spend_le (x : F) : spend x ≤ x := by
  unfold spend
  split_ifs
  · exact le_rfl
  · linarith

theorem spend_nonneg (hx : 0 ≤ x) : 0 ≤ spend x := by
  unfold spend
  split_ifs with h
  · exact hx
  · linarith

theorem serve_refill (hrate : 0 ≤ rate) (hts : ∀ t ∈ ts, u ≤ t) :
    serve cap rate (refill cap rate x s u) u ts = serve cap rate x s ts := by
  cases ts with
  | nil => rfl
  | cons t ts =>
    have htu := hts t List.mem_cons_self
    simp only [serve, refill_refill hrate htu]

/-- What is granted from `s` on is paid for by the content at `s` and what flows in. -/
theorem granted_le_content (hrate : 0 ≤ rate) (hcap : 0 ≤ cap) (hx : 0 ≤ x) (hsb : s ≤ b)
    (hfrom : ∀ t ∈ ts, s ≤ t) (hsorted : ts.Pairwise (· ≤ ·)) :
    (granted a b (serve cap rate x s ts) : F) ≤ x + (b - s) * rate := by
  induction ts generalizing x s with
  | nil =>
    have hflow : 0 ≤ (b - s) * rate := mul_nonneg (sub_nonneg.mpr hsb) hrate
    simpa [granted, serve] using add_nonneg hx hflow
  | cons t ts ih =>
    obtain ⟨hlater, hsorted'⟩ := List.pairwise_cons.mp hsorted
    have hst : s ≤ t := hfrom t List.mem_cons_self
    rcases lt_or_ge b t with hbt | htb
    · have hflow : 0 ≤ (b - s) * rate := mul_nonneg (sub_nonneg.mpr hsb) hrate
      rw [granted_eq_zero hbt hsorted, Nat.cast_zero]
      exact add_nonneg hx hflow
    · have hcontent := refill_nonneg hrate hcap hx hst
      have hrest := ih (spend_nonneg hcontent) htb hlater hsorted'
      have hin : refill cap rate x s t ≤ x + (t - s) * rate := refill_le
      -- the token of a granted request is missing in what is left
      have hstep : (granted a b (serve cap rate x s (t :: ts)) : F) ≤
          granted a b (serve cap rate (spend (refill cap rate x s t)) t ts) +
            (refill cap rate x s t - spend (refill cap rate x s t)) := by
        simp only [serve, granted, List.countP_cons, Nat.cast_add]
        apply add_le_add_right
        by_cases hwhole : refill cap rate x s t < 1
        · simp [spend, hwhole, not_le.mpr hwhole]
        · rw [spend, if_neg hwhole, sub_sub_cancel]
          split_ifs
          · exact Nat.cast_one.le
          · exact Nat.cast_zero.le.trans zero_le_one
      have hsum : x + (t - s) * rate + (b - t) * rate = x + (b - s) * rate := by ring
      linarith

/-- What is granted from `a` to `b` is at most a full bucket and what flows in. -/
theorem granted_le (hrate : 0 ≤ rate) (hcap : 0 ≤ cap) (hx : 0 ≤ x) (hab : a ≤ b)
    (hfrom : ∀ t ∈ ts, s ≤ t) (hsorted : ts.Pairwise (· ≤ ·)) :
    (granted a b (serve cap rate x s ts) : F) ≤ cap + rate * (b - a) := by
  have hflow : 0 ≤ rate * (b - a) := mul_nonneg hrate (sub_nonneg.mpr hab)
  induction ts generalizing x s with
  | nil => simpa [granted, serve] using add_nonneg hcap hflow
  | cons t ts ih =>
    obtain ⟨hlater, hsorted'⟩ := List.pairwise_cons.mp hsorted
    have hst : s ≤ t := hfrom t List.mem_cons_self
    have hcontent := refill_nonneg hrate hcap hx hst
    rcases lt_or_ge t a with hta | hat
    · have hskip : granted a b (serve cap rate x s (t :: ts)) =
          granted a b (serve cap rate (spend (refill cap rate x s t)) t ts) := by
        simp [serve, granted, hta]
      rw [hskip]
      exact ih (spend_nonneg hcontent) hlater hsorted'
    · rcases lt_or_ge b t with hbt | htb
      · rw [granted_eq_zero hbt hsorted, Nat.cast_zero]
        exact add_nonneg hcap hflow
      · have hall : ∀ r ∈ t :: ts, t ≤ r := by
          intro r hr
          rcases List.mem_cons.mp hr with rfl | hr
          · exact le_rfl
          · exact hlater r hr
        have hpaid := granted_le_content (a := a) hrate hcap hcontent htb hall hsorted
        rw [serve_refill hrate hall] at hpaid
        have hfull : refill cap rate x s t ≤ cap := refill_le_cap
        have hless : (b - t) * rate ≤ rate * (b - a) := by
          rw [mul_comm]
          exact mul_le_mul_of_nonneg_left (sub_le_sub_left hat b) hrate
        linarith

end Ordered

/-! ## One bucket a key -/

section TimesOf

variable {T K : Type} [DecidableEq K] {k : K} {r : T × K} {rs : List (T × K)}

/-- The times at which the key is asked for. -/
def timesOf (k : K) (rs : List (T × K)) : List T := (rs.filter (·.2 = k)).map Prod.fst

theorem timesOf_sublist (k : K) (rs : List (T × K)) :
    (timesOf k rs).Sublist (rs.map Prod.fst) :=
  List.filter_sublist.map Prod.fst

theorem timesOf_cons_self (t : T) : timesOf k ((t, k) :: rs) = t :: timesOf k rs := by
  simp [timesOf]

theorem timesOf_cons_ne (hk : r.2 ≠ k) : timesOf k (r :: rs) = timesOf k rs := by
  simp [timesOf, hk]

end TimesOf

/-- What every key's bucket held at one time. -/
structure Buckets (K F : Type) where
  content : K → F
  asOf : F

namespace Buckets

variable {K : Type} [DecidableEq K] (cap rate) (b : Buckets K F)

def level (t : F) (k : K) : F := refill cap rate (b.content k) b.asOf t

/-- A request at a time for a key. -/
def request (r : F × K) : Buckets K F where
  content := Function.update (b.level cap rate r.1) r.2 (spend (b.level cap rate r.1 r.2))
  asOf := r.1

def answers (b : Buckets K F) : List (F × K) → List ((F × K) × Bool)
  | [] => []
  | r :: rs => (r, decide (1 ≤ b.level cap rate r.1 r.2)) :: answers (b.request cap rate r) rs

/-- The number of the key's requests granted from time `a` to time `b`. -/
def grantedTo (k : K) (a b : F) (answers : List ((F × K) × Bool)) : ℕ :=
  answers.countP fun r => r.1.2 = k && (r.2 && (a ≤ r.1.1 && r.1.1 ≤ b))

variable {cap rate b} {k : K} {r : F × K} {rs : List (F × K)}

theorem request_content_self (t : F) :
    (b.request cap rate (t, k)).content k = spend (b.level cap rate t k) :=
  Function.update_self ..

theorem request_content_ne (hk : r.2 ≠ k) :
    (b.request cap rate r).content k = b.level cap rate r.1 k :=
  Function.update_of_ne hk.symm ..

variable [IsStrictOrderedRing F]

theorem request_content_nonneg (hrate : 0 ≤ rate) (hcap : 0 ≤ cap) (hpast : b.asOf ≤ r.1)
    (hb : ∀ k, 0 ≤ b.content k) (k : K) : 0 ≤ (b.request cap rate r).content k := by
  obtain ⟨t, k'⟩ := r
  have hlevel : 0 ≤ b.level cap rate t k := refill_nonneg hrate hcap (hb k) hpast
  by_cases hk : k' = k
  · subst hk
    rw [request_content_self]
    exact spend_nonneg hlevel
  · rw [request_content_ne hk]
    exact hlevel

/-- The requests for one key are served from its own bucket. -/
theorem grantedTo_answers (hrate : 0 ≤ rate) (hsorted : (rs.map Prod.fst).Pairwise (· ≤ ·))
    {s t : F} :
    grantedTo k s t (b.answers cap rate rs) =
      granted s t (serve cap rate (b.content k) b.asOf (timesOf k rs)) := by
  induction rs generalizing b with
  | nil => rfl
  | cons r rs ih =>
    obtain ⟨time, k'⟩ := r
    obtain ⟨hlater, hsorted'⟩ := List.pairwise_cons.mp hsorted
    have hrest := ih (b := b.request cap rate (time, k')) hsorted'
    unfold grantedTo at hrest ⊢
    rw [answers, List.countP_cons, hrest]
    by_cases hk : k' = k
    · subst hk
      rw [timesOf_cons_self, serve, request_content_self]
      simp only [granted, List.countP_cons, level, request, decide_true, Bool.true_and]
      rfl
    · have hfrom : ∀ u ∈ timesOf k rs, time ≤ u :=
        fun u hu => hlater u ((timesOf_sublist k rs).mem hu)
      rw [timesOf_cons_ne hk, request_content_ne hk]
      simp only [hk, decide_false, Bool.false_and, Bool.false_eq_true, if_false, add_zero]
      exact congrArg (granted s t) (serve_refill hrate hfrom)

theorem grantedTo_le (hrate : 0 ≤ rate) (hcap : 0 ≤ cap) (hb : ∀ k, 0 ≤ b.content k)
    (hsorted : (b.asOf :: rs.map Prod.fst).Pairwise (· ≤ ·)) {s t : F} (hst : s ≤ t) :
    (grantedTo k s t (b.answers cap rate rs) : F) ≤ cap + rate * (t - s) := by
  obtain ⟨hfrom, hsorted'⟩ := List.pairwise_cons.mp hsorted
  rw [grantedTo_answers hrate hsorted']
  apply granted_le hrate hcap (hb k) hst
  · exact fun u hu => hfrom u ((timesOf_sublist k rs).mem hu)
  · exact hsorted'.sublist (timesOf_sublist k rs)

end Buckets

end Musgos.Foundation.TokenBucket
