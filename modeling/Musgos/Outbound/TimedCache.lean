import Musgos.Outbound.CacheAgreement

/-!
# The memory cache as a timed map

An expired entry of `MemoryCache` stays in its map until some later write sweeps it out.
What the cache is for knows no sweeping: it maps a key to a value with an optional deadline,
and an entry past its deadline is not there. The answers are the same, because the two
differ only in entries that are past their deadline, and time does not go back. A sweep
reads the clock for every entry it comes to.
-/
namespace Musgos.Outbound

open Foundation Lingo

/-- The operations on the values of the cache. A lifetime is in nanoseconds. -/
inductive ValueOp where
  | set (key : GoString) (value : List UInt8) (ttl : ℤ)
  | get (key : GoString)
  | keyExists (key : GoString)
  | increment (key : GoString)
  | delete (key : GoString)

/-- An answer. `Get` tells a missing value, which is nil, from an empty one. -/
inductive ValueAnswer where
  | found (data : Option (List UInt8))
  | other (answer : CacheAnswer)
  deriving DecidableEq

/-- An operation with the readings of the clock it makes. -/
structure ValueCall where
  op : ValueOp
  start : ℕ
  finish : ℕ
  /-- The order in which a sweep comes to the keys. -/
  order : RangeOrder GoString
  /-- What the clock says when a sweep comes to a key. -/
  clock : GoString → ℕ
  clock_mem : ∀ k, start ≤ clock k ∧ clock k ≤ finish

theorem ValueCall.start_le_finish (call : ValueCall) : call.start ≤ call.finish :=
  (call.clock_mem []).1.trans (call.clock_mem []).2

/-- The clock does not go back from one call to the next. -/
def ClockRuns (calls : List ValueCall) : Prop := calls.Pairwise fun a b => a.finish ≤ b.start

section Cache

namespace MemoryCache

variable {V : Type}

/-- `sweep` with the clock as it runs: the same as `MemoryCache.sweep` while it stands still. -/
def sweepWith (c : MemoryCache V) (order : RangeOrder GoString) (clock : GoString → ℕ) :
    MemoryCache V :=
  { c with
    entries := (order.keys c.entries.keys).foldl
      (fun m k => GoMap.alter (Option.filter fun e : CacheEntry V => !e.expired (clock k)) m k)
      c.entries }

def setWith (c : MemoryCache V) (now : ℕ) (key : GoString) (value : V) (ttl : ℤ)
    (order : RangeOrder GoString) (clock : GoString → ℕ) : MemoryCache V :=
  let entry : CacheEntry V := ⟨value, if 0 < ttl then some (now + ttl.toNat) else none⟩
  let c' : MemoryCache V :=
    { c with entries := c.entries.insert key entry, writeCount := c.writeCount + 1 }
  if c'.sweepInterval ≤ c'.writeCount then sweepWith { c' with writeCount := 0 } order clock
  else c'

theorem sweepWith_const (c : MemoryCache V) (order : RangeOrder GoString) (now : ℕ) :
    c.sweepWith order (fun _ => now) = c.sweep now := by
  rw [sweepWith, sweep, GoMap.alterAll, ← Multiset.coe_foldl]
  simp only [order.complete]

theorem setWith_const (c : MemoryCache V) (now : ℕ) (key : GoString) (value : V) (ttl : ℕ)
    (order : RangeOrder GoString) :
    c.setWith now key value ttl order (fun _ => now) = c.set now key value ttl := by
  simp only [setWith, set, sweepWith_const, Int.natCast_pos, Int.toNat_natCast]

/-- The entry of a key unless it has expired. -/
def live (c : MemoryCache V) (now : ℕ) (key : GoString) : Option (CacheEntry V) :=
  (c.entries.lookup key).filter fun e => !e.expired now

variable {c : MemoryCache V} {now t : ℕ} {key : GoString}

theorem get_eq_live : c.get now key = (c.live now key).map (·.value) := by
  unfold get live
  cases c.entries.lookup key with
  | none => rfl
  | some e => by_cases h : e.expired now <;> simp [h]

theorem expired_mono {e : CacheEntry V} (hle : now ≤ t) (h : e.expired now = true) :
    e.expired t = true := by
  unfold CacheEntry.expired at h ⊢
  cases hdeadline : e.expiresAt with
  | none => simp [hdeadline] at h
  | some deadline =>
    simp only [hdeadline, Option.any_some, decide_eq_true_eq] at h ⊢
    exact h.trans_le hle

theorem live_sweepWith {order : RangeOrder GoString} {clock : GoString → ℕ}
    (hclock : ∀ k, clock k ≤ t) (key : GoString) :
    (c.sweepWith order clock).live t key = c.live t key := by
  unfold sweepWith live
  dsimp only
  generalize order.keys c.entries.keys = keys
  generalize c.entries = m
  induction keys generalizing m with
  | nil => rfl
  | cons k keys ih =>
    rw [List.foldl_cons, ih, GoMap.lookup_alter]
    split_ifs with hkey
    · subst hkey
      rw [Option.filter_filter]
      congr 1
      funext e
      by_cases hexpired : e.expired (clock key) = true
      · simp [expired_mono (hclock key) hexpired]
      · simp [hexpired]
    · rfl

theorem live_setWith {order : RangeOrder GoString} {clock : GoString → ℕ}
    (hclock : ∀ k, clock k ≤ t) (k : GoString) (value : V) (ttl : ℤ) :
    (c.setWith now key value ttl order clock).live t k =
      if k = key then
        (some ⟨value, if 0 < ttl then some (now + ttl.toNat) else none⟩ :
          Option (CacheEntry V)).filter fun e => !e.expired t
      else c.live t k := by
  unfold setWith
  dsimp only
  split
  all_goals
    try rw [live_sweepWith hclock]
    unfold live
    rw [GoMap.lookup_insert_ite]
    split_ifs <;> rfl

end MemoryCache

namespace SetCache

/-- One call of the cache. -/
def call (c : SetCache) (call : ValueCall) : ValueAnswer × SetCache :=
  match call.op with
  | .set key value ttl =>
    (.other .done,
      { c with store := c.store.setWith call.start key value ttl call.order call.clock })
  | .get key => (.found (c.store.get call.start key), c)
  | .keyExists key => (.other (.truth (c.store.get call.start key).isSome), c)
  | .increment key => (.other (c.increment call.start key).1, (c.increment call.start key).2)
  | .delete key => (.other .done, ⟨c.store.delete key, c.sets.erase key⟩)

/-- The answers to calls made one after the other. -/
def answers (c : SetCache) : List ValueCall → List ValueAnswer
  | [] => []
  | call :: calls => (c.call call).1 :: (c.call call).2.answers calls

def after (c : SetCache) (calls : List ValueCall) : SetCache :=
  calls.foldl (fun c call => (c.call call).2) c

/-- A cache before its first call, with the number of writes from one sweep to the next. -/
def empty (sweepInterval : ℕ) : SetCache := ⟨⟨∅, 0, sweepInterval⟩, ∅⟩

end SetCache

end Cache

/-- What the cache is for: a value and an optional deadline for every key. -/
abbrev TimedMap := GoString → Option (CacheEntry (List UInt8))

namespace TimedMap

/-- An entry past its deadline is absent. -/
def present (m : TimedMap) (now : ℕ) (key : GoString) : Option (CacheEntry (List UInt8)) :=
  (m key).filter fun e => e.expiresAt.all (now ≤ ·)

/-- The value and the deadline after an increment; `none` is an error. -/
def incremented (e : CacheEntry (List UInt8)) : Option (ℤ × Option ℕ) :=
  (parseInt e.value).bind fun n =>
    if n = Keyspace.maxInteger then none else some (n + 1, e.expiresAt)

/-- A live entry keeps its deadline; the key starts at 1 without one otherwise. -/
def increment (m : TimedMap) (now : ℕ) (key : GoString) : CacheAnswer × TimedMap :=
  match (m.present now key).elim (some (1, none)) incremented with
  | none => (.error, m)
  | some (n, deadline) => (.number n, Function.update m key (some ⟨intText n, deadline⟩))

def call (m : TimedMap) (now : ℕ) : ValueOp → ValueAnswer × TimedMap
  | .set key value ttl =>
    (.other .done, Function.update m key
      (some ⟨value, if 0 < ttl then some (now + ttl.toNat) else none⟩))
  | .get key => (.found ((m.present now key).map (·.value)), m)
  | .keyExists key => (.other (.truth (m.present now key).isSome), m)
  | .increment key => (.other (m.increment now key).1, (m.increment now key).2)
  | .delete key => (.other .done, Function.update m key none)

/-- The answers to calls made one after the other, each at its first reading of the clock. -/
def answers (m : TimedMap) : List ValueCall → List ValueAnswer
  | [] => []
  | call :: calls =>
    (m.call call.start call.op).1 :: answers (m.call call.start call.op).2 calls

def after (m : TimedMap) (calls : List ValueCall) : TimedMap :=
  calls.foldl (fun m call => (m.call call.start call.op).2) m

theorem present_update (m : TimedMap) (now : ℕ) (key k : GoString)
    (e : Option (CacheEntry (List UInt8))) :
    present (Function.update m key e) now k =
      if k = key then e.filter (fun e => e.expiresAt.all (now ≤ ·)) else m.present now k := by
  unfold present
  rw [Function.update_apply]
  split_ifs <;> rfl

end TimedMap

section Refinement

theorem not_expired {V : Type} (now : ℕ) :
    (fun e : CacheEntry V => !e.expired now) = fun e => e.expiresAt.all (now ≤ ·) := by
  funext e
  unfold CacheEntry.expired
  cases e.expiresAt with
  | none => rfl
  | some deadline => simp only [Option.any_some, Option.all_some, ← decide_not, not_lt]

/-- From `now` on the cache has the entries of the map. -/
structure Holds (c : SetCache) (m : TimedMap) (now : ℕ) : Prop where
  sets : c.sets = ∅
  live_eq : ∀ t, now ≤ t → ∀ k, c.store.live t k = m.present t k

variable {c : SetCache} {m : TimedMap} {now start finish : ℕ} {key : GoString}

theorem Holds.get (h : Holds c m now) (hnow : now ≤ start) :
    c.store.get start key = (m.present start key).map (·.value) := by
  rw [MemoryCache.get_eq_live, h.live_eq start hnow]

theorem Holds.mono (h : Holds c m now) (hnow : now ≤ start) : Holds c m start :=
  ⟨h.sets, fun t ht => h.live_eq t (hnow.trans ht)⟩

theorem Holds.insert (h : Holds c m now) (key : GoString) (e : CacheEntry (List UInt8)) :
    Holds { c with store.entries := c.store.entries.insert key e }
      (Function.update m key (some e)) now where
  sets := h.sets
  live_eq t ht k := by
    have hrest := h.live_eq t ht k
    rw [TimedMap.present_update, ← not_expired]
    unfold MemoryCache.live at hrest ⊢
    rw [GoMap.lookup_insert_ite, ← hrest]
    split_ifs <;> rfl

theorem Holds.delete (h : Holds c m now) (key : GoString) :
    Holds ⟨c.store.delete key, c.sets.erase key⟩ (Function.update m key none) now where
  sets := by
    rw [h.sets]
    exact Finmap.ext_lookup fun k => by simp
  live_eq t ht k := by
    have hrest := h.live_eq t ht k
    rw [TimedMap.present_update]
    unfold MemoryCache.live MemoryCache.delete at *
    rw [GoMap.lookup_erase_ite, ← hrest]
    split_ifs <;> rfl

theorem Holds.set (h : Holds c m now) (hnow : now ≤ start) {order : RangeOrder GoString}
    {clock : GoString → ℕ} (hclock : ∀ k, clock k ≤ finish) (hfinish : start ≤ finish)
    (key : GoString) (value : List UInt8) (ttl : ℤ) :
    Holds { c with store := c.store.setWith start key value ttl order clock }
      (Function.update m key
        (some ⟨value, if 0 < ttl then some (start + ttl.toNat) else none⟩)) finish where
  sets := h.sets
  live_eq t ht k := by
    rw [MemoryCache.live_setWith (fun k => (hclock k).trans ht), TimedMap.present_update,
      ← not_expired, h.live_eq t ((hnow.trans hfinish).trans ht)]

theorem SetCache.increment_of_live (hsets : c.sets = ∅) :
    c.increment now key =
      (c.store.live now key).elim (c.incrementFrom key 0 none) fun e =>
        (parseInt e.value).elim (.error, c) fun n => c.incrementFrom key n e.expiresAt := by
  unfold SetCache.increment MemoryCache.live
  rw [hsets, Finmap.lookup_empty]
  cases c.store.entries.lookup key with
  | none => rfl
  | some e =>
    by_cases hexpired : e.expired now = true
    · simp [hexpired, Option.filter]
    · cases hparse : parseInt e.value <;> simp [hexpired, hparse, Option.filter]

theorem Holds.incrementFrom (h : Holds c m now) (key : GoString) (n : ℤ) (deadline : Option ℕ)
    {result : CacheAnswer × TimedMap}
    (hresult : result = if n = Keyspace.maxInteger then (.error, m)
      else (.number (n + 1), Function.update m key (some ⟨intText (n + 1), deadline⟩))) :
    (c.incrementFrom key n deadline).1 = result.1 ∧
      Holds (c.incrementFrom key n deadline).2 result.2 now := by
  rw [hresult, SetCache.incrementFrom]
  split_ifs
  · exact ⟨rfl, h⟩
  · exact ⟨rfl, h.insert key _⟩

theorem Holds.increment (h : Holds c m now) (key : GoString) :
    (c.increment now key).1 = (m.increment now key).1 ∧
      Holds (c.increment now key).2 (m.increment now key).2 now := by
  rw [SetCache.increment_of_live h.sets, h.live_eq now le_rfl key]
  cases hpresent : m.present now key with
  | none =>
    apply h.incrementFrom key 0 none
    simp [TimedMap.increment, hpresent, Keyspace.maxInteger]
  | some e =>
    cases hparse : parseInt e.value with
    | none => simpa [TimedMap.increment, hpresent, TimedMap.incremented, hparse] using h
    | some n =>
      simp only [Option.elim_some, hparse]
      apply h.incrementFrom key n e.expiresAt
      by_cases hmax : n = Keyspace.maxInteger
      · simp [TimedMap.increment, hpresent, TimedMap.incremented, hparse, hmax]
      · simp [TimedMap.increment, hpresent, TimedMap.incremented, hparse, hmax]

/-- One call gives the same answer and keeps the two together. -/
theorem Holds.call (h : Holds c m now) {call : ValueCall} (hnow : now ≤ call.start) :
    (c.call call).1 = (m.call call.start call.op).1 ∧
      Holds (c.call call).2 (m.call call.start call.op).2 call.finish := by
  have hlater := hnow.trans call.start_le_finish
  unfold SetCache.call
  cases call.op with
  | set key value ttl =>
    exact ⟨rfl, h.set hnow (fun k => (call.clock_mem k).2) call.start_le_finish key value ttl⟩
  | get key => exact ⟨congrArg ValueAnswer.found (h.get hnow), h.mono hlater⟩
  | keyExists key =>
    have hsome : (c.store.get call.start key).isSome = (m.present call.start key).isSome := by
      rw [h.get hnow, Option.isSome_map]
    exact ⟨congrArg (ValueAnswer.other ∘ CacheAnswer.truth) hsome, h.mono hlater⟩
  | increment key =>
    obtain ⟨hanswer, hholds⟩ := (h.mono hnow).increment key
    exact ⟨congrArg ValueAnswer.other hanswer, hholds.mono call.start_le_finish⟩
  | delete key => exact ⟨rfl, (h.delete key).mono hlater⟩

/-- A run gives the same answers and keeps the two together. -/
theorem Holds.run {calls : List ValueCall} (h : Holds c m now)
    (hfrom : ∀ call ∈ calls, now ≤ call.start) (hclock : ClockRuns calls) :
    c.answers calls = m.answers calls ∧
      ∀ t, now ≤ t → (∀ call ∈ calls, call.finish ≤ t) →
        ∀ k, (c.after calls).store.live t k = (m.after calls).present t k := by
  induction calls generalizing c m now with
  | nil => exact ⟨rfl, fun t ht _ => h.live_eq t ht⟩
  | cons call calls ih =>
    obtain ⟨hlater, hclock'⟩ := List.pairwise_cons.mp hclock
    obtain ⟨hanswer, hholds⟩ := h.call (hfrom call List.mem_cons_self)
    obtain ⟨hrest, hlive⟩ := ih hholds hlater hclock'
    constructor
    · rw [SetCache.answers, TimedMap.answers, hanswer, hrest]
    · intro t _ hfinish
      rw [List.forall_mem_cons] at hfinish
      exact hlive t hfinish.1 hfinish.2

theorem holds_empty (sweepInterval now : ℕ) :
    Holds (.empty sweepInterval) (fun _ => none) now :=
  ⟨rfl, fun _ _ _ => rfl⟩

end Refinement

/-- The answers of the cache are those of a timed map that is never swept, and at any later
time it has the entries of that map, however often it sweeps. -/
theorem memory_cache_is_timed_map (sweepInterval : ℕ) (calls : List ValueCall)
    (hclock : ClockRuns calls) :
    (SetCache.empty sweepInterval).answers calls = TimedMap.answers (fun _ => none) calls ∧
      ∀ t, (∀ call ∈ calls, call.finish ≤ t) → ∀ key,
        ((SetCache.empty sweepInterval).after calls).store.live t key =
          (TimedMap.after (fun _ => none) calls).present t key := by
  obtain ⟨hanswers, hlive⟩ :=
    (holds_empty sweepInterval 0).run (fun call _ => Nat.zero_le call.start) hclock
  exact ⟨hanswers, fun t => hlive t (Nat.zero_le t)⟩

/-- A call during which the clock stands still. -/
def ValueCall.atOnce (order : RangeOrder GoString) (now : ℕ) (op : ValueOp) : ValueCall where
  op := op
  start := now
  finish := now
  order := order
  clock _ := now
  clock_mem _ := ⟨le_rfl, le_rfl⟩

/-- A counter with a lifetime of 10, incremented before and after it is over, in a cache that
sweeps at every write. -/
theorem memory_cache_is_timed_map_counter :
    ∃ calls : List ValueCall, ClockRuns calls ∧
      (SetCache.empty 1).answers calls =
        [.other .done, .other (.number 8), .found (some (lit "8")), .other .done,
          .found none, .other (.number 1), .other (.truth true)] ∧
      (SetCache.empty 1).answers calls = TimedMap.answers (fun _ => none) calls := by
  let call := ValueCall.atOnce (.sorted (· ≤ ·))
  let calls := [call 0 (.set (lit "n") (lit "7") 10), call 5 (.increment (lit "n")),
    call 10 (.get (lit "n")), call 11 (.set (lit "m") [] 0), call 12 (.get (lit "n")),
    call 13 (.increment (lit "n")), call 90 (.keyExists (lit "n"))]
  have hclock : ClockRuns calls := by simp [calls, call, ClockRuns, ValueCall.atOnce]
  exact ⟨calls, hclock, by decide +kernel, (memory_cache_is_timed_map 1 calls hclock).1⟩

end Musgos.Outbound
