import Musgos.Foundation.Bytes
import Musgos.Foundation.GoMap
import Musgos.Foundation.TokenBucket

/-!
# The rate limiter

`RateLimiter` keeps a token bucket for every client it has seen lately. A clean-up pass
drops the buckets that have filled up again, which a later call makes anew and full.
Token counts, the refill rate and times, in seconds, are rationals here. A pass reads the
clock once for every bucket it looks at.
-/
namespace Musgos.Inbound

open Foundation TokenBucket

/-- How many requests a client may make within a window. -/
structure RateLimiterConfig where
  maxRequests : ℤ
  /-- In nanoseconds. -/
  window : ℤ

/-- The tokens of one client and when they were last counted. -/
structure ClientBucket where
  tokens : ℚ
  lastCheck : ℚ

/-- The buckets, with the rate they fill at and their size. -/
structure RateLimiter where
  maxTokens : ℚ
  /-- Tokens per second. -/
  refillRate : ℚ
  clients : GoMap GoString ClientBucket

def RateLimiterConfig.windowSeconds (cfg : RateLimiterConfig) : ℚ := cfg.window / 10 ^ 9

def newRateLimiter (cfg : RateLimiterConfig) : RateLimiter where
  maxTokens := cfg.maxRequests
  refillRate := cfg.maxRequests / cfg.windowSeconds
  clients := ∅

namespace RateLimiter

/-- The limiter with its new bucket, and whether the call is let through. -/
def allow (rl : RateLimiter) (now : ℚ) (key : GoString) : RateLimiter × Bool :=
  let cb := (rl.clients.lookup key).getD { tokens := rl.maxTokens, lastCheck := now }
  let elapsed := now - cb.lastCheck
  let filled := cb.tokens + elapsed * rl.refillRate
  let tokens := if filled > rl.maxTokens then rl.maxTokens else filled
  if tokens < 1 then
    ({ rl with clients := rl.clients.insert key ⟨tokens, now⟩ }, false)
  else
    ({ rl with clients := rl.clients.insert key ⟨tokens - 1, now⟩ }, true)

/-- One turn of the loop of `cleanup`, with the clock as it is read there. -/
def cleanupKey (rl : RateLimiter) (visit : GoString × ℚ) : RateLimiter :=
  match rl.clients.lookup visit.1 with
  | none => rl
  | some cb =>
    let elapsed := visit.2 - cb.lastCheck
    let refilled := cb.tokens + elapsed * rl.refillRate
    if refilled ≥ rl.maxTokens then { rl with clients := rl.clients.erase visit.1 } else rl

/-- One pass over the clients. -/
def cleanup (rl : RateLimiter) (ord : RangeOrder GoString) (readings : List ℚ) : RateLimiter :=
  ((ord.keys rl.clients.keys).zip readings).foldl cleanupKey rl

end RateLimiter

/-- A request, or a round of the clean-up goroutine. -/
inductive LimiterEvent where
  | allow (now : ℚ) (key : GoString)
  | cleanup (ord : RangeOrder GoString) (readings : List ℚ)

/-- The readings of the clock. -/
def LimiterEvent.times : LimiterEvent → List ℚ
  | .allow now _ => [now]
  | .cleanup _ readings => readings

def LimiterEvent.isAllow : LimiterEvent → Bool
  | .allow _ _ => true
  | .cleanup _ _ => false

/-- What is asked of the buckets. -/
def LimiterEvent.request? : LimiterEvent → Option (ℚ × GoString)
  | .allow now key => some (now, key)
  | .cleanup _ _ => none

namespace RateLimiter

def step (rl : RateLimiter) : LimiterEvent → RateLimiter
  | .allow now key => (rl.allow now key).1
  | .cleanup ord readings => rl.cleanup ord readings

def after (rl : RateLimiter) (events : List LimiterEvent) : RateLimiter := events.foldl step rl

/-- Every call with its answer. -/
def answers (rl : RateLimiter) : List LimiterEvent → List ((ℚ × GoString) × Bool)
  | [] => []
  | .allow now key :: events =>
    ((now, key), (rl.allow now key).2) :: (rl.allow now key).1.answers events
  | .cleanup ord readings :: events => (rl.cleanup ord readings).answers events

/-- What the key's bucket would hold at `t`; that of an unknown key is full. -/
def level (rl : RateLimiter) (t : ℚ) (key : GoString) : ℚ :=
  (rl.clients.lookup key).elim rl.maxTokens
    fun cb => refill rl.maxTokens rl.refillRate cb.tokens cb.lastCheck t

variable {rl : RateLimiter} {now t : ℚ} {key : GoString}

theorem level_of_lookup {cb : ClientBucket} (h : rl.clients.lookup key = some cb) :
    rl.level t key = refill rl.maxTokens rl.refillRate cb.tokens cb.lastCheck t := by
  rw [level, h, Option.elim]

theorem level_of_absent (h : rl.clients.lookup key = none) : rl.level t key = rl.maxTokens := by
  rw [level, h, Option.elim]

theorem level_le (rl : RateLimiter) (t : ℚ) (key : GoString) : rl.level t key ≤ rl.maxTokens := by
  cases h : rl.clients.lookup key with
  | none => exact (level_of_absent h).le
  | some cb => exact (level_of_lookup h).trans_le refill_le_cap

theorem allow_eq (rl : RateLimiter) (now : ℚ) (key : GoString) :
    rl.allow now key =
      ({ rl with clients := rl.clients.insert key ⟨spend (rl.level now key), now⟩ },
        decide (1 ≤ rl.level now key)) := by
  have htokens : ∀ filled : ℚ,
      (if filled > rl.maxTokens then rl.maxTokens else filled) = min rl.maxTokens filled := by
    intro filled
    split_ifs with h
    · exact (min_eq_left h.le).symm
    · exact (min_eq_right (not_lt.mp h)).symm
  have hlevel : rl.level now key = min rl.maxTokens
      (((rl.clients.lookup key).getD ⟨rl.maxTokens, now⟩).tokens +
        (now - ((rl.clients.lookup key).getD ⟨rl.maxTokens, now⟩).lastCheck) * rl.refillRate) := by
    cases h : rl.clients.lookup key with
    | none => simp [level_of_absent h]
    | some cb => exact level_of_lookup h
  simp only [allow, htokens, ← hlevel]
  by_cases hwhole : rl.level now key < 1
  · simp [hwhole, spend, not_le.mpr hwhole]
  · simp [hwhole, spend, not_lt.mp hwhole]

theorem level_allow_self :
    (rl.allow now key).1.level t key =
      refill rl.maxTokens rl.refillRate (spend (rl.level now key)) now t := by
  rw [allow_eq, level_of_lookup (Finmap.lookup_insert _)]

theorem level_allow_ne {other : GoString} (h : other ≠ key) :
    (rl.allow now key).1.level t other = rl.level t other := by
  rw [allow_eq]
  simp only [level, Finmap.lookup_insert_of_ne _ h]

theorem cleanupKey_cases (rl : RateLimiter) (visit : GoString × ℚ) :
    rl.cleanupKey visit = rl ∨
      rl.cleanupKey visit = { rl with clients := rl.clients.erase visit.1 } ∧
        ∃ cb, rl.clients.lookup visit.1 = some cb ∧
          rl.maxTokens ≤ cb.tokens + (visit.2 - cb.lastCheck) * rl.refillRate := by
  unfold cleanupKey
  cases h : rl.clients.lookup visit.1 with
  | none => exact Or.inl rfl
  | some cb =>
    by_cases hfull : cb.tokens + (visit.2 - cb.lastCheck) * rl.refillRate ≥ rl.maxTokens
    · exact Or.inr ⟨if_pos hfull, cb, rfl, hfull⟩
    · exact Or.inl (if_neg hfull)

/-- A bucket that is dropped has filled up, and an unknown one counts as full. -/
theorem level_cleanupKey (hrate : 0 ≤ rl.refillRate) {visit : GoString × ℚ} (ht : visit.2 ≤ t)
    (key : GoString) : (rl.cleanupKey visit).level t key = rl.level t key := by
  rcases cleanupKey_cases rl visit with h | ⟨h, cb, hlookup, hfull⟩
  · rw [h]
  rw [h]
  by_cases hkey : key = visit.1
  · subst hkey
    have hmore : cb.tokens + (visit.2 - cb.lastCheck) * rl.refillRate ≤
        cb.tokens + (t - cb.lastCheck) * rl.refillRate := by gcongr
    rw [level_of_absent (Finmap.lookup_erase _ _), level_of_lookup hlookup]
    exact (min_eq_left (hfull.trans hmore)).symm
  · simp only [level, Finmap.lookup_erase_ne hkey]

/-- From `now` on the limiter cannot be told from the buckets. -/
structure Shows (cap rate : ℚ) (rl : RateLimiter) (b : Buckets GoString ℚ) (now : ℚ) : Prop where
  maxTokens_eq : rl.maxTokens = cap
  refillRate_eq : rl.refillRate = rate
  level_eq : ∀ key t, now ≤ t → rl.level t key = b.level cap rate t key
  past : b.asOf ≤ now
  nonneg : ∀ key, 0 ≤ b.content key

section Run

variable {cap rate : ℚ} {b : Buckets GoString ℚ} {later : List ℚ}

theorem Shows.level_nonneg (hcap : 0 ≤ cap) (hrate : 0 ≤ rate) (h : Shows cap rate rl b now)
    (ht : now ≤ t) (key : GoString) : 0 ≤ rl.level t key := by
  rw [h.level_eq key t ht]
  exact refill_nonneg hrate hcap (h.nonneg key) (h.past.trans ht)

theorem Shows.allow (hcap : 0 ≤ cap) (hrate : 0 ≤ rate) (h : Shows cap rate rl b now)
    (ht : now ≤ t) (key : GoString) :
    Shows cap rate (rl.allow t key).1 (b.request cap rate (t, key)) t where
  maxTokens_eq := by rw [allow_eq, ← h.maxTokens_eq]
  refillRate_eq := by rw [allow_eq, ← h.refillRate_eq]
  level_eq other u hu := by
    rw [Buckets.level]
    by_cases hkey : key = other
    · subst hkey
      rw [level_allow_self, Buckets.request_content_self, h.level_eq key t ht, h.maxTokens_eq,
        h.refillRate_eq]
      rfl
    · rw [level_allow_ne (Ne.symm hkey), Buckets.request_content_ne hkey,
        h.level_eq other u (ht.trans hu)]
      exact (refill_refill hrate hu).symm
  past := le_rfl
  nonneg := Buckets.request_content_nonneg hrate hcap (h.past.trans ht) h.nonneg

theorem Shows.cleanupKey (hrate : 0 ≤ rate) (h : Shows cap rate rl b now)
    {visit : GoString × ℚ} (ht : now ≤ visit.2) :
    Shows cap rate (rl.cleanupKey visit) b visit.2 := by
  have hlevel : ∀ key u, visit.2 ≤ u →
      (rl.cleanupKey visit).level u key = b.level cap rate u key := by
    intro key u hu
    rw [level_cleanupKey (h.refillRate_eq ▸ hrate) hu]
    exact h.level_eq key u (ht.trans hu)
  rcases cleanupKey_cases rl visit with hcases | ⟨hcases, -⟩
  all_goals
    rw [hcases] at hlevel ⊢
    exact ⟨h.maxTokens_eq, h.refillRate_eq, hlevel, h.past.trans ht, h.nonneg⟩

theorem Shows.visits (hrate : 0 ≤ rate) {visits : List (GoString × ℚ)}
    (h : Shows cap rate rl b now)
    (hclock : (now :: (visits.map Prod.snd ++ later)).Pairwise (· ≤ ·)) :
    ∃ now', (now' :: later).Pairwise (· ≤ ·) ∧
      Shows cap rate (visits.foldl RateLimiter.cleanupKey rl) b now' := by
  induction visits generalizing rl now with
  | nil => exact ⟨now, hclock, h⟩
  | cons visit visits ih =>
    obtain ⟨hnow, hrest⟩ := List.pairwise_cons.mp hclock
    exact ih (h.cleanupKey hrate (hnow visit.2 List.mem_cons_self)) hrest

theorem Shows.cleanup (hrate : 0 ≤ rate) (h : Shows cap rate rl b now)
    (ord : RangeOrder GoString) {readings : List ℚ}
    (hclock : (now :: (readings ++ later)).Pairwise (· ≤ ·)) :
    ∃ now', (now' :: later).Pairwise (· ≤ ·) ∧
      Shows cap rate (rl.cleanup ord readings) b now' := by
  have hread : (((ord.keys rl.clients.keys).zip readings).map Prod.snd).Sublist readings := by
    rw [List.zip_eq_zip_take_min, List.map_snd_zip (by simp)]
    exact List.take_sublist _ _
  exact h.visits hrate (hclock.sublist ((hread.append_right later).cons_cons now))

/-- Clean-up does nothing to the buckets. -/
theorem Shows.step (hcap : 0 ≤ cap) (hrate : 0 ≤ rate) (h : Shows cap rate rl b now)
    {event : LimiterEvent} (hclock : (now :: (event.times ++ later)).Pairwise (· ≤ ·)) :
    ∃ now', (now' :: later).Pairwise (· ≤ ·) ∧
      Shows cap rate (rl.step event) (event.request?.elim b (b.request cap rate)) now' := by
  cases event with
  | allow t key =>
    obtain ⟨hnow, hrest⟩ := List.pairwise_cons.mp hclock
    exact ⟨t, hrest, h.allow hcap hrate (hnow t List.mem_cons_self) key⟩
  | cleanup ord readings => exact h.cleanup hrate ord hclock

theorem Shows.after (hcap : 0 ≤ cap) (hrate : 0 ≤ rate) {events : List LimiterEvent}
    (h : Shows cap rate rl b now)
    (hclock : (now :: (events.flatMap LimiterEvent.times ++ later)).Pairwise (· ≤ ·)) :
    ∃ b' now', (now' :: later).Pairwise (· ≤ ·) ∧ Shows cap rate (rl.after events) b' now' := by
  induction events generalizing rl b now with
  | nil => exact ⟨b, now, hclock, h⟩
  | cons event events ih =>
    rw [List.flatMap_cons, List.append_assoc] at hclock
    obtain ⟨now', hclock', h'⟩ := h.step hcap hrate hclock
    exact ih h' hclock'

/-- The limiter answers as the buckets do, to which clean-up is unknown. -/
theorem Shows.answers_eq (hcap : 0 ≤ cap) (hrate : 0 ≤ rate) {events : List LimiterEvent}
    (h : Shows cap rate rl b now)
    (hclock : (now :: events.flatMap LimiterEvent.times).Pairwise (· ≤ ·)) :
    rl.answers events = b.answers cap rate (events.filterMap LimiterEvent.request?) := by
  induction events generalizing rl b now with
  | nil => rfl
  | cons event events ih =>
    obtain ⟨now', hclock', h'⟩ := h.step hcap hrate hclock
    have hrest := ih h' hclock'
    cases event with
    | allow t key =>
      have ht : now ≤ t := List.rel_of_pairwise_cons hclock List.mem_cons_self
      have hanswer : (rl.allow t key).2 = decide (1 ≤ b.level cap rate t key) := by
        rw [allow_eq, h.level_eq key t ht]
      change _ :: (rl.step (.allow t key)).answers events = _
      rw [hrest, hanswer]
      rfl
    | cleanup ord readings => exact hrest

theorem Shows.bucket_after_allow (hcap : 0 ≤ cap) (hrate : 0 ≤ rate)
    (h : Shows cap rate rl b now) (ht : now ≤ t) (key : GoString) :
    ∃ cb, (rl.allow t key).1.clients.lookup key = some cb ∧ 0 ≤ cb.tokens ∧ cb.tokens ≤ cap := by
  rw [allow_eq]
  refine ⟨_, Finmap.lookup_insert _, spend_nonneg (h.level_nonneg hcap hrate ht key), ?_⟩
  rw [← h.maxTokens_eq]
  exact (spend_le _).trans (rl.level_le t key)

end Run

section NewRateLimiter

variable {cfg : RateLimiterConfig} {events : List LimiterEvent}

theorem newRateLimiter_refillRate_nonneg (hmax : 0 ≤ cfg.maxRequests) (hwindow : 0 ≤ cfg.window) :
    0 ≤ (newRateLimiter cfg).refillRate := by
  have hseconds : 0 ≤ cfg.windowSeconds :=
    div_nonneg (Rat.intCast_nonneg.mpr hwindow) (by norm_num)
  exact div_nonneg (Rat.intCast_nonneg.mpr hmax) hseconds

/-- A new limiter shows full buckets, whatever the time. -/
theorem shows_newRateLimiter (hmax : 0 ≤ cfg.maxRequests)
    (hrate : 0 ≤ (newRateLimiter cfg).refillRate) (now : ℚ) :
    Shows (newRateLimiter cfg).maxTokens (newRateLimiter cfg).refillRate (newRateLimiter cfg)
      ⟨fun _ => (newRateLimiter cfg).maxTokens, now⟩ now where
  maxTokens_eq := rfl
  refillRate_eq := rfl
  level_eq _ _ ht := (refill_of_cap_le hrate ht le_rfl).symm
  past := le_rfl
  nonneg _ := Rat.intCast_nonneg.mpr hmax

theorem exists_start (h : (events.flatMap LimiterEvent.times).Pairwise (· ≤ ·)) :
    ∃ start, (start :: events.flatMap LimiterEvent.times).Pairwise (· ≤ ·) := by
  cases htimes : events.flatMap LimiterEvent.times with
  | nil => exact ⟨0, List.pairwise_singleton _ _⟩
  | cons t times =>
    rw [htimes] at h
    refine ⟨t, List.pairwise_cons.mpr ⟨?_, h⟩⟩
    intro u hu
    rcases List.mem_cons.mp hu with rfl | hu
    · exact le_rfl
    · exact List.rel_of_pairwise_cons h hu

theorem filterMap_request_filter (events : List LimiterEvent) :
    (events.filter LimiterEvent.isAllow).filterMap LimiterEvent.request? =
      events.filterMap LimiterEvent.request? := by
  induction events with
  | nil => rfl
  | cons event events ih =>
    cases event with
    | allow t key => exact congrArg (List.cons (t, key)) ih
    | cleanup ord readings => exact ih

theorem times_requests_sublist (events : List LimiterEvent) :
    ((events.filterMap LimiterEvent.request?).map Prod.fst).Sublist
      (events.flatMap LimiterEvent.times) := by
  induction events with
  | nil => exact List.Sublist.slnil
  | cons event events ih =>
    cases event with
    | allow t key => exact ih.cons_cons t
    | cleanup ord readings => exact ih.trans (List.sublist_append_right _ _)

theorem times_filter_sublist (events : List LimiterEvent) :
    ((events.filter LimiterEvent.isAllow).flatMap LimiterEvent.times).Sublist
      (events.flatMap LimiterEvent.times) := by
  induction events with
  | nil => exact List.Sublist.slnil
  | cons event events ih =>
    cases event with
    | allow t key => exact ih.cons_cons t
    | cleanup ord readings => exact ih.trans (List.sublist_append_right _ _)

/-- The limiter holds every client to `MaxRequests` and the refill rate, and its clean-up
cannot be noticed. -/
theorem rate_limit_bound (cfg : RateLimiterConfig) (hmax : 0 < cfg.maxRequests)
    (hwindow : 0 < cfg.window) (events : List LimiterEvent)
    (hclock : (events.flatMap LimiterEvent.times).Pairwise (· ≤ ·)) (key : GoString) :
    (∀ before now after, events = before ++ .allow now key :: after →
      ∃ cb, ((newRateLimiter cfg).after (before ++ [.allow now key])).clients.lookup key =
        some cb ∧ 0 ≤ cb.tokens ∧ cb.tokens ≤ (newRateLimiter cfg).maxTokens) ∧
    (∀ s t, s ≤ t →
      (Buckets.grantedTo key s t ((newRateLimiter cfg).answers events) : ℚ) ≤
        (newRateLimiter cfg).maxTokens + (newRateLimiter cfg).refillRate * (t - s)) ∧
    (newRateLimiter cfg).answers events =
      (newRateLimiter cfg).answers (events.filter LimiterEvent.isAllow) := by
  have hcap : 0 ≤ (newRateLimiter cfg).maxTokens := Rat.intCast_nonneg.mpr hmax.le
  have hrate := newRateLimiter_refillRate_nonneg hmax.le hwindow.le
  obtain ⟨start, hstart⟩ := exists_start hclock
  have hshows := shows_newRateLimiter hmax.le hrate start
  have hanswers := hshows.answers_eq hcap hrate hstart
  refine ⟨?_, ?_, ?_⟩
  · rintro before now after rfl
    rw [List.flatMap_append] at hstart
    obtain ⟨b, now', hlater, hbefore⟩ := hshows.after hcap hrate hstart
    have hnow : now' ≤ now := List.rel_of_pairwise_cons hlater List.mem_cons_self
    rw [RateLimiter.after, List.foldl_append]
    exact hbefore.bucket_after_allow hcap hrate hnow key
  · intro s t hst
    rw [hanswers]
    have hsorted := hstart.sublist ((times_requests_sublist events).cons_cons start)
    exact Buckets.grantedTo_le hrate hcap hshows.nonneg hsorted hst
  · have hstart' := hstart.sublist ((times_filter_sublist events).cons_cons start)
    rw [hanswers, hshows.answers_eq hcap hrate hstart', filterMap_request_filter]

/-- Two requests a second: the third at once is refused, and the bucket dropped by the pass
at second 2 would have been full. -/
theorem rate_limit_bound_two_a_second :
    (newRateLimiter ⟨2, 1000000000⟩).answers
        [.allow 0 (lit "a"), .allow 0 (lit "a"), .allow 0 (lit "a"),
          .cleanup (.sorted (· ≤ ·)) [2], .allow 2 (lit "a")] =
      [((0, lit "a"), true), ((0, lit "a"), true), ((0, lit "a"), false), ((2, lit "a"), true)] ∧
    (∀ s t, s ≤ t →
      (Buckets.grantedTo (lit "a") s t ((newRateLimiter ⟨2, 1000000000⟩).answers
        [.allow 0 (lit "a"), .allow 0 (lit "a"), .allow 0 (lit "a"),
          .cleanup (.sorted (· ≤ ·)) [2], .allow 2 (lit "a")]) : ℚ) ≤
        (newRateLimiter ⟨2, 1000000000⟩).maxTokens +
          (newRateLimiter ⟨2, 1000000000⟩).refillRate * (t - s)) := by
  have hbound := rate_limit_bound ⟨2, 1000000000⟩ (by decide) (by decide)
    [.allow 0 (lit "a"), .allow 0 (lit "a"), .allow 0 (lit "a"),
      .cleanup (.sorted (· ≤ ·)) [2], .allow 2 (lit "a")]
    (by simp [LimiterEvent.times]) (lit "a")
  exact ⟨by decide +kernel, hbound.2.1⟩

end NewRateLimiter

end RateLimiter

end Musgos.Inbound
