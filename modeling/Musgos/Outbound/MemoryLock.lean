import Musgos.Foundation.Census
import Musgos.Foundation.Transition

/-!
# The lock of the in-memory cache

`MemoryCache.AcquireLock` and the `Release` of the lease it returns, as atomic steps of
any number of calls. A lock is an object with a gate, a channel for one token, and a
count of its users; `locks` points to the lock of a key. A call takes part in a lock
between two sections under the mutex: the first finds or makes the lock and counts the
call in, the second (`unref`) counts it out and drops the entry at zero. In between it
waits for the token or for the end of its context, and who has taken the token puts it
back. Contexts may end at any moment.
-/
namespace Musgos.Outbound

open Foundation

/-- `cacheLock`; the gate is a channel of capacity one, by the number of tokens in it. -/
structure CacheLock where
  gate : ℕ
  users : ℤ
  deriving DecidableEq

/-- Why `AcquireLock` returns no lease. -/
inductive LockError where
  /-- `cache lock requires a deadline`. -/
  | noDeadline
  /-- `ctx.Err()`. -/
  | contextDone
  deriving DecidableEq

/-- Where a call of `AcquireLock` is, and then the lease it returned. The phases of a
`release` tell whether it runs for a lease or inside a call that returns an error. -/
inductive LockPhase where
  | entering
  | waiting (lock : ℕ)
  | taken (lock : ℕ)
  | holding (lock : ℕ)
  | releasing (lock : ℕ) (leased : Bool)
  | unreffing (lock : ℕ) (leased : Bool)
  | released
  | failed (e : LockError)
  deriving DecidableEq

namespace LockPhase

/-- The lock the call is counted in as a user of. -/
def lock : LockPhase → Option ℕ
  | .waiting l | .taken l | .holding l | .releasing l _ | .unreffing l _ => some l
  | .entering | .released | .failed _ => none

/-- The call has taken the token and not put it back. -/
def hasToken : LockPhase → Bool
  | .taken _ | .holding _ | .releasing _ _ => true
  | .entering | .waiting _ | .unreffing _ _ | .released | .failed _ => false

/-- The call has failed, or its lease is released. -/
def finished : LockPhase → Bool
  | .released | .failed _ => true
  | _ => false

end LockPhase

/-- One call of `AcquireLock` and the lease it returned. -/
structure LockCall (K : Type) where
  key : K
  /-- The context of the call has ended. -/
  expired : Bool
  /-- The context of the lease has been cancelled. -/
  cancelled : Bool
  phase : LockPhase
  deriving DecidableEq

/-- The locks of a `MemoryCache` with the objects and calls they are used by. -/
structure LockSystem (K : Type) where
  locks : GoMap K ℕ
  heap : GoMap ℕ CacheLock
  calls : GoMap ℕ (LockCall K)

/-- The steps of the calls, each under the mutex or at a channel. -/
inductive LockAction (K : Type) where
  /-- `AcquireLock` is called and looks at its context. -/
  | acquireLock (id : ℕ) (key : K) (hasDeadline expired : Bool)
  | expire (id : ℕ)
  /-- The first section under the mutex; `addr` is where a new lock would be allocated. -/
  | ref (id addr : ℕ)
  /-- The `select` takes the case of the ended context. -/
  | giveUp (id : ℕ)
  /-- The `select` receives from the gate. -/
  | take (id : ℕ)
  /-- `ctx.Err()` behind the gate. -/
  | proceed (id : ℕ)
  /-- `Release` of a lease is called. -/
  | release (id : ℕ)
  /-- `lock.gate <- struct{}{}`, which blocks while the gate is full. -/
  | send (id : ℕ)
  | unref (id : ℕ)

def LockAction.id {K : Type} : LockAction K → ℕ
  | .acquireLock id _ _ _ | .expire id | .ref id _ | .giveUp id | .take id | .proceed id
  | .release id | .send id | .unref id => id

namespace LockSystem

variable {K : Type}

def init : LockSystem K := ⟨∅, ∅, ∅⟩

/-- A call goes on to a phase. -/
def goOn (s : LockSystem K) (id : ℕ) (c : LockCall K) (phase : LockPhase) : LockSystem K :=
  { s with calls := s.calls.insert id { c with phase := phase } }

def setLock (s : LockSystem K) (addr : ℕ) (lock : CacheLock) : LockSystem K :=
  { s with heap := s.heap.insert addr lock }

variable [DecidableEq K]

/-- `lock := c.locks[key]`, a new one if there is none, and `lock.users++`. -/
def ref (s : LockSystem K) (id addr : ℕ) (c : LockCall K) : Option (LockSystem K) :=
  match s.locks.lookup c.key with
  | some l => do
    let lock ← s.heap.lookup l
    return (s.setLock l { lock with users := lock.users + 1 }).goOn id c (.waiting l)
  | none =>
    if addr ∈ s.heap then none
    else some (({ s with locks := s.locks.insert c.key addr }.setLock addr ⟨1, 1⟩).goOn id c
      (.waiting addr))

/-- `lock.users--`, and `delete(c.locks, key)` at zero. -/
def unref (s : LockSystem K) (id l : ℕ) (leased : Bool) (c : LockCall K) :
    Option (LockSystem K) := do
  let lock ← s.heap.lookup l
  let s' := s.setLock l { lock with users := lock.users - 1 }
  return { s' with locks := if lock.users - 1 = 0 then s.locks.erase c.key else s.locks }.goOn id c
    (if leased then .released else .failed .contextDone)

/-- What a call in its phase can do. -/
def act (s : LockSystem K) (id : ℕ) (c : LockCall K) : LockAction K → Option (LockSystem K)
  | .acquireLock _ _ _ _ => none
  | .expire _ => some { s with calls := s.calls.insert id { c with expired := true } }
  | .ref _ addr => if c.phase = .entering then s.ref id addr c else none
  | .giveUp _ =>
    match c.phase with
    | .waiting l => if c.expired then some (s.goOn id c (.unreffing l false)) else none
    | _ => none
  | .take _ =>
    match c.phase with
    | .waiting l => do
      let lock ← s.heap.lookup l
      if lock.gate = 0 then none
      else return (s.setLock l { lock with gate := lock.gate - 1 }).goOn id c (.taken l)
    | _ => none
  | .proceed _ =>
    match c.phase with
    | .taken l =>
      if c.expired then some (s.goOn id { c with cancelled := true } (.releasing l false))
      else some (s.goOn id c (.holding l))
    | _ => none
  | .release _ =>
    match c.phase with
    | .holding l => some (s.goOn id { c with cancelled := true } (.releasing l true))
    -- `once` has been entered: the call waits for its end and changes nothing
    | .releasing _ true | .unreffing _ true | .released => some s
    | _ => none
  | .send _ =>
    match c.phase with
    | .releasing l leased => do
      let lock ← s.heap.lookup l
      if lock.gate = 1 then none
      else return (s.setLock l { lock with gate := lock.gate + 1 }).goOn id c (.unreffing l leased)
    | _ => none
  | .unref _ =>
    match c.phase with
    | .unreffing l leased => s.unref id l leased c
    | _ => none

def step (s : LockSystem K) (a : LockAction K) : Option (LockSystem K) :=
  match s.calls.lookup a.id, a with
  | none, .acquireLock id key hasDeadline expired =>
    some { s with calls := s.calls.insert id ⟨key, expired, false,
      if hasDeadline = false then .failed .noDeadline
      else if expired then .failed .contextDone else .entering⟩ }
  | none, _ => none
  | some c, a => s.act a.id c a

section Effects

/-- What a step of a call can do to the locks and to the part it has in them. -/
inductive Effect (s : LockSystem K) (id : ℕ) : LockSystem K → Prop
  | nothing : Effect s id s
  | enters {c : LockCall K} (hid : s.calls.lookup id = none) (hc : c.phase.lock = none) :
    Effect s id { s with calls := s.calls.insert id c }
  | stays {c c' : LockCall K} (hid : s.calls.lookup id = some c) (hkey : c'.key = c.key)
    (hlock : c'.phase.lock = c.phase.lock) (htoken : c'.phase.hasToken = c.phase.hasToken) :
    Effect s id { s with calls := s.calls.insert id c' }
  | joins {l : ℕ} {c : LockCall K} {lock : CacheLock} (hid : s.calls.lookup id = some c)
    (hc : c.phase = .entering) (hl : s.locks.lookup c.key = some l)
    (hlock : s.heap.lookup l = some lock) :
    Effect s id ((s.setLock l { lock with users := lock.users + 1 }).goOn id c (.waiting l))
  | makes {addr : ℕ} {c : LockCall K} (hid : s.calls.lookup id = some c)
    (hc : c.phase = .entering) (hl : s.locks.lookup c.key = none)
    (haddr : s.heap.lookup addr = none) :
    Effect s id (({ s with locks := s.locks.insert c.key addr }.setLock addr ⟨1, 1⟩).goOn id c
      (.waiting addr))
  | takes {l : ℕ} {c : LockCall K} {lock : CacheLock} (hid : s.calls.lookup id = some c)
    (hc : c.phase = .waiting l) (hlock : s.heap.lookup l = some lock) (hgate : lock.gate ≠ 0) :
    Effect s id ((s.setLock l { lock with gate := lock.gate - 1 }).goOn id c (.taken l))
  | puts {l : ℕ} {c : LockCall K} {lock : CacheLock} {leased : Bool}
    (hid : s.calls.lookup id = some c) (hc : c.phase = .releasing l leased)
    (hlock : s.heap.lookup l = some lock) (hgate : lock.gate ≠ 1) :
    Effect s id ((s.setLock l { lock with gate := lock.gate + 1 }).goOn id c (.unreffing l leased))
  | leaves {l : ℕ} {c : LockCall K} {lock : CacheLock} {leased : Bool} {phase : LockPhase}
    (hid : s.calls.lookup id = some c) (hc : c.phase = .unreffing l leased)
    (hlock : s.heap.lookup l = some lock) (hphase : phase.lock = none) :
    Effect s id ({ s.setLock l { lock with users := lock.users - 1 } with
      locks := if lock.users - 1 = 0 then s.locks.erase c.key else s.locks }.goOn id c phase)

variable {s s' : LockSystem K}

theorem ref_effect {id addr : ℕ} {c : LockCall K} (hid : s.calls.lookup id = some c)
    (hc : c.phase = .entering) (h : s.ref id addr c = some s') : Effect s id s' := by
  unfold ref at h
  cases hl : s.locks.lookup c.key with
  | some l =>
    cases hlock : s.heap.lookup l with
    | none => simp [hl, hlock] at h
    | some lock =>
      simp only [hl, hlock] at h
      obtain rfl := Option.some.inj h
      exact .joins hid hc hl hlock
  | none =>
    simp only [hl] at h
    split_ifs at h with haddr
    obtain rfl := Option.some.inj h
    exact .makes hid hc hl (Finmap.lookup_eq_none.mpr haddr)

theorem unref_effect {id l : ℕ} {c : LockCall K} {leased : Bool}
    (hid : s.calls.lookup id = some c) (hc : c.phase = .unreffing l leased)
    (h : s.unref id l leased c = some s') : Effect s id s' := by
  unfold unref at h
  cases hlock : s.heap.lookup l with
  | none => simp [hlock] at h
  | some lock =>
    rw [hlock] at h
    obtain rfl := Option.some.inj h
    exact .leaves hid hc hlock (by cases leased <;> rfl)

theorem take_effect {id : ℕ} {c : LockCall K} (hid : s.calls.lookup id = some c)
    (h : s.act id c (.take id) = some s') : Effect s id s' := by
  cases hc : c.phase <;> simp only [act, hc] at h <;> try cases h
  case waiting l =>
    cases hlock : s.heap.lookup l with
    | none => simp [hlock] at h
    | some lock =>
      simp only [hlock, Option.bind_eq_bind, Option.bind_some] at h
      split_ifs at h with hgate
      obtain rfl := Option.some.inj h
      exact .takes hid hc hlock hgate

theorem send_effect {id : ℕ} {c : LockCall K} (hid : s.calls.lookup id = some c)
    (h : s.act id c (.send id) = some s') : Effect s id s' := by
  cases hc : c.phase <;> simp only [act, hc] at h <;> try cases h
  case releasing l leased =>
    cases hlock : s.heap.lookup l with
    | none => simp [hlock] at h
    | some lock =>
      simp only [hlock, Option.bind_eq_bind, Option.bind_some] at h
      split_ifs at h with hgate
      obtain rfl := Option.some.inj h
      exact .puts hid hc hlock hgate

theorem act_effect {id : ℕ} {c : LockCall K} {a : LockAction K}
    (hid : s.calls.lookup id = some c) (h : s.act id c a = some s') : Effect s id s' := by
  cases a with
  | acquireLock => cases h
  | expire =>
    obtain rfl := Option.some.inj h
    exact .stays hid rfl rfl rfl
  | ref _ addr =>
    simp only [act] at h
    split_ifs at h with hc
    exact ref_effect hid hc h
  | giveUp =>
    cases hc : c.phase <;> simp only [act, hc] at h <;> try cases h
    case waiting l =>
      split_ifs at h
      obtain rfl := Option.some.inj h
      exact .stays hid rfl (by rw [hc]; rfl) (by rw [hc]; rfl)
  | take => exact take_effect hid h
  | proceed =>
    cases hc : c.phase <;> simp only [act, hc] at h <;> try cases h
    case taken l =>
      split_ifs at h
      all_goals
        obtain rfl := Option.some.inj h
        exact .stays hid rfl (by rw [hc]; rfl) (by rw [hc]; rfl)
  | release =>
    simp only [act] at h
    split at h
    · obtain rfl := Option.some.inj h
      rename_i l hc
      exact .stays hid rfl (by rw [hc]; rfl) (by rw [hc]; rfl)
    · cases h; exact .nothing
    · cases h; exact .nothing
    · cases h; exact .nothing
    · cases h
  | send => exact send_effect hid h
  | unref =>
    cases hc : c.phase <;> simp only [act, hc] at h <;> try cases h
    case unreffing l leased => exact unref_effect hid hc h

theorem step_effect {a : LockAction K} (h : s.step a = some s') : Effect s a.id s' := by
  unfold step at h
  cases hid : s.calls.lookup a.id with
  | none =>
    rw [hid] at h
    cases a <;> try cases h
    exact .enters hid (by split_ifs <;> rfl)
  | some c =>
    rw [hid] at h
    exact act_effect hid h

theorem step_calls {a : LockAction K} (h : s.step a = some s') :
    s'.calls = s.calls ∨ ∃ c', s'.calls = s.calls.insert a.id c' ∧
      ∀ c, s.calls.lookup a.id = some c → c'.key = c.key := by
  have hkey : ∀ {c c' : LockCall K}, s.calls.lookup a.id = some c → c'.key = c.key →
      ∀ c₀, s.calls.lookup a.id = some c₀ → c'.key = c₀.key := by
    intro c c' hid hkey c₀ hid₀
    rw [hkey, Option.some.inj (hid.symm.trans hid₀)]
  cases step_effect h with
  | nothing => exact .inl rfl
  | enters hid => exact .inr ⟨_, rfl, fun c₀ hid₀ => by rw [hid] at hid₀; cases hid₀⟩
  | stays hid hkey' => exact .inr ⟨_, rfl, hkey hid hkey'⟩
  | joins hid | makes hid | takes hid | puts hid | leaves hid => exact .inr ⟨_, rfl, hkey hid rfl⟩

theorem step_acquireLock {id : ℕ} {key : K} {hasDeadline expired : Bool}
    (h : s.step (.acquireLock id key hasDeadline expired) = some s') :
    s.calls.lookup id = none ∧ ∃ c, s'.calls = s.calls.insert id c ∧ c.key = key := by
  unfold step at h
  cases hid : s.calls.lookup id with
  | none =>
    simp only [LockAction.id, hid] at h
    obtain rfl := Option.some.inj h
    exact ⟨rfl, _, rfl, rfl⟩
  | some c => simp [LockAction.id, hid, act] at h

theorem isSome_lookup_of_step {a : LockAction K} (h : s.step a = some s')
    (ha : ∀ key hasDeadline expired, a ≠ .acquireLock a.id key hasDeadline expired) :
    (s.calls.lookup a.id).isSome = true := by
  unfold step at h
  cases hid : s.calls.lookup a.id with
  | some c => rfl
  | none =>
    rw [hid] at h
    cases a <;> try cases h
    exact absurd rfl (ha _ _ _)

/-- A lease is held until its `Release` is called. -/
theorem step_holding {a : LockAction K} {c : LockCall K} {l : ℕ} (h : s.step a = some s')
    (hid : s.calls.lookup a.id = some c) (hc : c.phase = .holding l) (ha : a ≠ .release a.id) :
    ∃ c', s'.calls.lookup a.id = some c' ∧ c'.phase = .holding l := by
  unfold step at h
  rw [hid] at h
  cases a <;> simp [act, hc] at h
  case expire id =>
    obtain rfl := h
    exact ⟨_, Finmap.lookup_insert _, rfl⟩
  case release id => exact absurd rfl ha

end Effects

end LockSystem

namespace LockSystem

section Counts

variable {K : Type} {s s' : LockSystem K} {id l : ℕ} {c : LockCall K}

/-- The call is counted as a user of the lock. -/
def refersTo (l : ℕ) (c : LockCall K) : Bool := decide (c.phase.lock = some l)

/-- The call has the token of the lock. -/
def holdsToken (l : ℕ) (c : LockCall K) : Bool := refersTo l c && c.phase.hasToken

/-- How many calls take part in the lock. -/
def users (s : LockSystem K) (l : ℕ) : ℕ := s.calls.census (refersTo l)

/-- How many calls have its token. -/
def holders (s : LockSystem K) (l : ℕ) : ℕ := s.calls.census (holdsToken l)

/-- The counts of the lock are those of the calls. -/
structure Counted (s : LockSystem K) (l : ℕ) (lock : CacheLock) : Prop where
  users : lock.users = s.users l
  token : lock.gate + s.holders l = 1
  used : 0 < s.users l

theorem users_goOn (hid : s.calls.lookup id = some c) (phase : LockPhase) (l : ℕ) :
    (s.goOn id c phase).users l + (decide (c.phase.lock = some l)).toNat =
      s.users l + (decide (phase.lock = some l)).toNat := by
  have h := GoMap.census_insert (refersTo l) s.calls id { c with phase := phase }
  rwa [hid, Option.any_some] at h

theorem holders_goOn (hid : s.calls.lookup id = some c) (phase : LockPhase) (l : ℕ) :
    (s.goOn id c phase).holders l + (decide (c.phase.lock = some l) && c.phase.hasToken).toNat =
      s.holders l + (decide (phase.lock = some l) && phase.hasToken).toNat := by
  have h := GoMap.census_insert (holdsToken l) s.calls id { c with phase := phase }
  rwa [hid, Option.any_some] at h

/-- A call that keeps its part in the lock leaves the counts as they are. -/
theorem Counted.of_same {lock : CacheLock} (h : s.Counted l lock) {c' : LockCall K}
    (hcalls : s'.calls = s.calls.insert id c')
    (hrefs : (s.calls.lookup id).any (refersTo l) = refersTo l c')
    (hholds : (s.calls.lookup id).any (holdsToken l) = holdsToken l c') : s'.Counted l lock := by
  have husers : s'.users l = s.users l := by
    rw [LockSystem.users, hcalls, GoMap.census_insert_eq hrefs]
    rfl
  have hholders : s'.holders l = s.holders l := by
    rw [holders, hcalls, GoMap.census_insert_eq hholds]
    rfl
  exact ⟨by rw [husers, h.users], by rw [hholders, h.token], by rw [husers]; exact h.used⟩

theorem Counted.of_not_user {lock : CacheLock} (h : s.Counted l lock) {c' : LockCall K}
    (hcalls : s'.calls = s.calls.insert id c')
    (hold : (s.calls.lookup id).any (refersTo l) = false) (hnew : refersTo l c' = false) :
    s'.Counted l lock := by
  refine h.of_same hcalls (hold.trans hnew.symm) ?_
  cases hid : s.calls.lookup id with
  | none => simp [holdsToken, hnew]
  | some c =>
    rw [hid, Option.any_some] at hold
    simp [holdsToken, hnew, hold]

end Counts

section Invariant

variable {K : Type} [DecidableEq K] {s s' : LockSystem K} {id l : ℕ} {c : LockCall K}
  {lock : CacheLock} {phase : LockPhase}

/-- The invariant: a lock is in the map while someone uses it, and its users are counted. -/
structure Sound (s : LockSystem K) : Prop where
  /-- The lock a call takes part in is still the one of its key. -/
  entry : ∀ id c, s.calls.lookup id = some c → ∀ l, c.phase.lock = some l →
    s.locks.lookup c.key = some l
  distinct : ∀ k k' l, s.locks.lookup k = some l → s.locks.lookup k' = some l → k = k'
  counted : ∀ k l, s.locks.lookup k = some l → ∃ lock, s.heap.lookup l = some lock ∧
    s.Counted l lock

theorem init_sound : (init : LockSystem K).Sound := by
  constructor <;> simp [init]

theorem Sound.counted_eq (h : s.Sound) {k : K} (hl : s.locks.lookup k = some l)
    (hlock : s.heap.lookup l = some lock) : s.Counted l lock := by
  obtain ⟨lock', hlock', hcounted⟩ := h.counted k l hl
  obtain rfl := Option.some.inj (hlock'.symm.trans hlock)
  exact hcounted

theorem Sound.unused (h : s.Sound) (hl : s.heap.lookup l = none)
    (hid : s.calls.lookup id = some c) : refersTo l c = false := by
  rw [refersTo, decide_eq_false_iff_not]
  intro hc
  obtain ⟨lock, hlock, -⟩ := h.counted c.key l (h.entry id c hid l hc)
  simp [hl] at hlock

theorem Sound.enters (h : s.Sound) (hid : s.calls.lookup id = none) (hc : c.phase.lock = none) :
    Sound { s with calls := s.calls.insert id c } where
  entry := by
    refine GoMap.forall_lookup_insert ?_ fun id' c' _ => h.entry id' c'
    simp [hc]
  distinct := h.distinct
  counted := by
    intro k l hl
    obtain ⟨lock, hlock, hcounted⟩ := h.counted k l hl
    exact ⟨lock, hlock, hcounted.of_not_user rfl (by simp [hid]) (by simp [refersTo, hc])⟩

theorem Sound.stays (h : s.Sound) {c' : LockCall K} (hid : s.calls.lookup id = some c)
    (hkey : c'.key = c.key) (hlock : c'.phase.lock = c.phase.lock)
    (htoken : c'.phase.hasToken = c.phase.hasToken) :
    Sound { s with calls := s.calls.insert id c' } where
  entry := by
    refine GoMap.forall_lookup_insert ?_ fun id' c' _ => h.entry id' c'
    rw [hkey, hlock]
    exact h.entry id c hid
  distinct := h.distinct
  counted := by
    intro k l hl
    obtain ⟨lock, hlock', hcounted⟩ := h.counted k l hl
    refine ⟨lock, hlock', hcounted.of_same rfl ?_ ?_⟩
    · simp [hid, refersTo, hlock]
    · simp [hid, holdsToken, refersTo, hlock, htoken]

theorem Sound.update (h : s.Sound) (hid : s.calls.lookup id = some c)
    (hl : s.locks.lookup c.key = some l) (hold : ∀ l', c.phase.lock = some l' → l' = l)
    (hnew : phase.lock = some l) (hcounted : (s.goOn id c phase).Counted l lock) :
    ((s.setLock l lock).goOn id c phase).Sound where
  entry := by
    refine GoMap.forall_lookup_insert ?_ fun id' c' _ => h.entry id' c'
    intro l' hl'
    obtain rfl := Option.some.inj (hl'.symm.trans hnew)
    exact hl
  distinct := h.distinct
  counted := by
    intro k l' hk
    simp only [goOn, setLock, GoMap.lookup_insert_ite]
    split_ifs with heq
    · subst heq
      exact ⟨lock, rfl, hcounted.users, hcounted.token, hcounted.used⟩
    · obtain ⟨lock', hlock', hcounted'⟩ := h.counted k l' hk
      refine ⟨lock', hlock', hcounted'.of_not_user rfl ?_ ?_⟩
      · simpa [hid, refersTo] using fun hc => heq (hold l' hc)
      · simpa [refersTo, hnew] using Ne.symm heq

theorem Sound.joins (h : s.Sound) (hid : s.calls.lookup id = some c) (hc : c.phase = .entering)
    (hl : s.locks.lookup c.key = some l) (hlock : s.heap.lookup l = some lock) :
    ((s.setLock l { lock with users := lock.users + 1 }).goOn id c (.waiting l)).Sound := by
  obtain ⟨husers, htoken, hused⟩ := h.counted_eq hl hlock
  have husers' := users_goOn hid (.waiting l) l
  have hholders' := holders_goOn hid (.waiting l) l
  simp [hc, LockPhase.lock, LockPhase.hasToken] at husers' hholders'
  refine h.update hid hl (by simp [hc, LockPhase.lock]) rfl ⟨?_, ?_, ?_⟩
  · simp only [husers, husers']
    omega
  · simp only [hholders', htoken]
  · omega

/-- The token of a lock goes from its gate to a call that takes part in it, or back. -/
theorem Sound.exchanges (h : s.Sound) (hid : s.calls.lookup id = some c)
    (hold : c.phase.lock = some l) (hnew : phase.lock = some l)
    (hlock : s.heap.lookup l = some lock) {gate : ℕ}
    (hgate : gate + phase.hasToken.toNat = lock.gate + c.phase.hasToken.toNat) :
    ((s.setLock l { lock with gate := gate }).goOn id c phase).Sound := by
  have hl := h.entry id c hid l hold
  obtain ⟨husers, htoken, hused⟩ := h.counted_eq hl hlock
  have husers' := users_goOn hid phase l
  have hholders' := holders_goOn hid phase l
  simp only [hold, hnew, decide_true, Bool.true_and, Nat.add_right_cancel_iff]
    at husers' hholders'
  refine h.update hid hl (fun l' hl' => ?_) hnew ⟨?_, ?_, ?_⟩
  · exact Option.some.inj (hl'.symm.trans hold)
  · simp only [husers, husers']
  · dsimp only
    omega
  · omega

theorem Sound.takes (h : s.Sound) (hid : s.calls.lookup id = some c) (hc : c.phase = .waiting l)
    (hlock : s.heap.lookup l = some lock) (hgate : lock.gate ≠ 0) :
    ((s.setLock l { lock with gate := lock.gate - 1 }).goOn id c (.taken l)).Sound := by
  refine h.exchanges hid (by rw [hc]; rfl) rfl hlock ?_
  rw [hc]
  exact Nat.succ_pred hgate

theorem Sound.puts (h : s.Sound) {leased : Bool} (hid : s.calls.lookup id = some c)
    (hc : c.phase = .releasing l leased) (hlock : s.heap.lookup l = some lock) :
    ((s.setLock l { lock with gate := lock.gate + 1 }).goOn id c (.unreffing l leased)).Sound := by
  refine h.exchanges hid (by rw [hc]; rfl) rfl hlock ?_
  rw [hc]
  rfl

theorem Sound.makes (h : s.Sound) {addr : ℕ} (hid : s.calls.lookup id = some c)
    (hc : c.phase = .entering) (hl : s.locks.lookup c.key = none)
    (haddr : s.heap.lookup addr = none) :
    (({ s with locks := s.locks.insert c.key addr }.setLock addr ⟨1, 1⟩).goOn id c
      (.waiting addr)).Sound := by
  have hfresh : ∀ k, s.locks.lookup k ≠ some addr := by
    intro k hk
    obtain ⟨lock, hlock, -⟩ := h.counted k addr hk
    simp [haddr] at hlock
  have husers : s.users addr = 0 := GoMap.census_eq_zero_iff.mpr fun _ _ => h.unused haddr
  have hholders : s.holders addr = 0 := GoMap.census_eq_zero_iff.mpr fun id' c' hid' => by
    rw [holdsToken, h.unused haddr hid', Bool.false_and]
  have husers' := users_goOn hid (.waiting addr) addr
  have hholders' := holders_goOn hid (.waiting addr) addr
  simp [hc, LockPhase.lock, LockPhase.hasToken, husers, hholders] at husers' hholders'
  constructor
  case entry =>
    refine GoMap.forall_lookup_insert ?_ ?_
    · intro l hlock
      obtain rfl := Option.some.inj hlock
      exact Finmap.lookup_insert _
    · intro id' c' _ hid' l hlock
      have hentry := h.entry id' c' hid' l hlock
      have hkey : c'.key ≠ c.key := by
        intro hkey
        rw [← hkey, hentry] at hl
        cases hl
      simpa [goOn, setLock, hkey] using hentry
  case distinct =>
    intro k k' l hk hk'
    exact GoMap.eq_of_lookup_insert (f := fun l => l)
      (fun k l hk (heq : l = addr) => hfresh k (heq ▸ hk))
      (fun k k' l l' hk hk' (heq : l = l') => h.distinct k k' l hk (heq ▸ hk'))
      k k' l l hk hk' rfl
  case counted =>
    intro k l hk
    simp only [goOn, setLock, GoMap.lookup_insert_ite] at hk ⊢
    split_ifs at hk with hkey
    · obtain rfl := Option.some.inj hk
      refine ⟨⟨1, 1⟩, if_pos rfl, ?_, ?_, ?_⟩
      · exact congrArg Nat.cast husers'.symm
      · exact congrArg (1 + ·) hholders'
      · exact husers'.symm ▸ Nat.one_pos
    · have hne : l ≠ addr := fun heq => hfresh k (heq ▸ hk)
      obtain ⟨lock, hlock, hcounted⟩ := h.counted k l hk
      refine ⟨lock, by simp [hne, hlock], hcounted.of_not_user rfl ?_ ?_⟩
      · simp [hid, refersTo, hc, LockPhase.lock]
      · simpa [refersTo, LockPhase.lock] using hne.symm

theorem lookup_of_leaves {k : K} {l' : ℕ}
    (hk : (if lock.users - 1 = 0 then s.locks.erase c.key else s.locks).lookup k = some l') :
    s.locks.lookup k = some l' ∧ (lock.users - 1 = 0 → k ≠ c.key) := by
  split_ifs at hk with hzero
  · rw [GoMap.lookup_erase_ite] at hk
    split_ifs at hk with hkey
    exact ⟨hk, fun _ => hkey⟩
  · exact ⟨hk, fun hzero' => absurd hzero' hzero⟩

/-- The last user leaves the lock, so a call that is in one is in another one. -/
theorem Sound.key_ne_of_leaves (h : s.Sound) (hl : s.locks.lookup c.key = some l)
    (hnone : (s.goOn id c phase).users l = 0) {id' : ℕ} {c' : LockCall K} (hne : id' ≠ id)
    (hid' : s.calls.lookup id' = some c') {l' : ℕ} (hl' : c'.phase.lock = some l') :
    c'.key ≠ c.key := by
  intro hkey
  have hentry := h.entry id' c' hid' l' hl'
  obtain rfl : l = l' := Option.some.inj (hl.symm.trans (hkey ▸ hentry))
  have hstays : (s.goOn id c phase).calls.lookup id' = some c' := by
    rw [goOn, GoMap.lookup_insert_ite, if_neg hne]
    exact hid'
  have hpos : 0 < (s.goOn id c phase).users l :=
    GoMap.census_pos hstays (by simp [refersTo, hl'])
  omega

theorem Sound.leaves (h : s.Sound) {leased : Bool} (hid : s.calls.lookup id = some c)
    (hc : c.phase = .unreffing l leased) (hlock : s.heap.lookup l = some lock)
    (hphase : phase.lock = none) :
    ({ s.setLock l { lock with users := lock.users - 1 } with
      locks := if lock.users - 1 = 0 then s.locks.erase c.key else s.locks }.goOn id c
        phase).Sound := by
  have hl := h.entry id c hid l (by rw [hc]; rfl)
  obtain ⟨husers, htoken, hused⟩ := h.counted_eq hl hlock
  have husers' := users_goOn hid phase l
  have hholders' := holders_goOn hid phase l
  rw [hc, hphase] at husers' hholders'
  simp [LockPhase.lock, LockPhase.hasToken] at husers' hholders'
  constructor
  case entry =>
    refine GoMap.forall_lookup_insert ?_ ?_
    · intro l' hl'
      rw [hphase] at hl'
      cases hl'
    · intro id' c' hne hid' l' hl'
      have hentry := h.entry id' c' hid' l' hl'
      simp only [goOn, setLock]
      split_ifs with hzero
      · have hnone : (s.goOn id c phase).users l = 0 := by omega
        simpa [h.key_ne_of_leaves hl hnone hne hid' hl'] using hentry
      · exact hentry
  case distinct =>
    intro k k' l' hk hk'
    exact h.distinct k k' l' (lookup_of_leaves hk).1 (lookup_of_leaves hk').1
  case counted =>
    intro k l' hk
    obtain ⟨hk', hzero⟩ := lookup_of_leaves hk
    by_cases heq : l' = l
    · subst heq
      have hnonzero : lock.users - 1 ≠ 0 := fun hz => hzero hz (h.distinct k c.key l' hk' hl)
      refine ⟨_, Finmap.lookup_insert _, ?_, ?_, ?_⟩
      · change lock.users - 1 = ((s.goOn id c phase).users l' : ℤ)
        omega
      · change lock.gate + (s.goOn id c phase).holders l' = 1
        omega
      · change 0 < (s.goOn id c phase).users l'
        omega
    · obtain ⟨lock', hlock', hcounted⟩ := h.counted k l' hk'
      refine ⟨lock', by simp [goOn, setLock, heq, hlock'], hcounted.of_not_user rfl ?_ ?_⟩
      · simpa [hid, refersTo, hc, LockPhase.lock] using Ne.symm heq
      · simp [refersTo, hphase]

theorem Sound.step (h : s.Sound) {a : LockAction K} (hstep : s.step a = some s') : s'.Sound := by
  cases step_effect hstep with
  | nothing => exact h
  | enters hid hc => exact h.enters hid hc
  | stays hid hkey hlock htoken => exact h.stays hid hkey hlock htoken
  | joins hid hc hl hlock => exact h.joins hid hc hl hlock
  | makes hid hc hl haddr => exact h.makes hid hc hl haddr
  | takes hid hc hlock hgate => exact h.takes hid hc hlock hgate
  | puts hid hc hlock _ => exact h.puts hid hc hlock
  | leaves hid hc hlock hphase => exact h.leaves hid hc hlock hphase

theorem sound_of_run {acts : List (LockAction K)} (hrun : runFrom step init acts = some s) :
    s.Sound :=
  invariant_run (P := fun _ _ => True) (fun _ _ _ h _ hstep => h.step hstep) init_sound
    (along_of_forall (fun _ _ => trivial) _) hrun

end Invariant

section Exclusion

variable {K : Type} [DecidableEq K] {s s' : LockSystem K} {l : ℕ}

/-- The call has the token of the key's lock: it has a lease that is not released, or is about
to return one or to put the token back. -/
def Holds (s : LockSystem K) (key : K) (id : ℕ) : Prop :=
  ∃ c, s.calls.lookup id = some c ∧ c.key = key ∧ c.phase.hasToken = true

/-- The call waits for the token of the lock or has it. -/
def HoldsOrWaits (s : LockSystem K) (l id : ℕ) : Prop :=
  ∃ c, s.calls.lookup id = some c ∧ c.phase.lock = some l ∧
    (c.phase = .waiting l ∨ c.phase.hasToken = true)

theorem exists_lock_of_hasToken {phase : LockPhase} (h : phase.hasToken = true) :
    ∃ l, phase.lock = some l := by
  cases phase <;> simp_all [LockPhase.hasToken, LockPhase.lock]

theorem Sound.exclusive (h : s.Sound) {key : K} {id id' : ℕ} (hid : s.Holds key id)
    (hid' : s.Holds key id') : id = id' := by
  obtain ⟨c, hc, rfl, htoken⟩ := hid
  obtain ⟨c', hc', hkey, htoken'⟩ := hid'
  obtain ⟨l, hl⟩ := exists_lock_of_hasToken htoken
  obtain ⟨l', hl'⟩ := exists_lock_of_hasToken htoken'
  have hentry := h.entry id c hc l hl
  obtain rfl : l = l' := Option.some.inj (hentry.symm.trans (hkey ▸ h.entry id' c' hc' l' hl'))
  obtain ⟨lock, -, hcounted⟩ := h.counted c.key l hentry
  have hone : s.holders l ≤ 1 := by
    have htoken := hcounted.token
    omega
  exact GoMap.eq_of_census_le_one hone hc (by simp [holdsToken, refersTo, hl, htoken]) hc'
    (by simp [holdsToken, refersTo, hl', htoken'])

/-- Who puts the token back finds the gate empty. -/
theorem Sound.send_isSome (h : s.Sound) {id : ℕ} {c : LockCall K} {leased : Bool}
    (hid : s.calls.lookup id = some c) (hc : c.phase = .releasing l leased) :
    (s.step (.send id)).isSome = true := by
  have hl := h.entry id c hid l (by rw [hc]; rfl)
  obtain ⟨lock, hlock, hcounted⟩ := h.counted c.key l hl
  have hpos : 0 < s.holders l := GoMap.census_pos hid
    (by simp [holdsToken, refersTo, hc, LockPhase.lock, LockPhase.hasToken])
  have hgate : lock.gate ≠ 1 := by
    have htoken := hcounted.token
    omega
  simp [LockSystem.step, LockAction.id, hid, act, hc, hlock, hgate]

/-- An entry is dropped by the last of its users, which has put the token back. -/
theorem Sound.unused_of_removed (h : s.Sound) {a : LockAction K} (hstep : s.step a = some s')
    {key : K} (hl : s.locks.lookup key = some l) (hgone : s'.locks.lookup key ≠ some l) (id : ℕ) :
    ¬ s.HoldsOrWaits l id := by
  cases step_effect hstep with
  | nothing | enters | stays | joins | takes | puts => exact absurd hl hgone
  | @makes addr c hid hc hnone haddr =>
    have hkey : key ≠ c.key := by
      rintro rfl
      rw [hnone] at hl
      cases hl
    exact absurd (by simpa [goOn, setLock, hkey] using hl) hgone
  | @leaves l' c lock leased phase hid hc hlock hphase =>
    have hl' := h.entry a.id c hid l' (by rw [hc]; rfl)
    simp only [goOn, setLock] at hgone
    split_ifs at hgone with hzero
    · rw [GoMap.lookup_erase_ite] at hgone
      split_ifs at hgone with hkey
      · subst hkey
        obtain rfl := Option.some.inj (hl.symm.trans hl')
        have husers := (h.counted_eq hl hlock).users
        rintro ⟨c', hid'', hlock', hphase'⟩
        obtain rfl : id = a.id := GoMap.eq_of_census_le_one (p := refersTo l)
          (show s.users l ≤ 1 by omega) hid'' (by simp [refersTo, hlock']) hid
          (by simp [refersTo, hc, LockPhase.lock])
        obtain rfl := Option.some.inj (hid.symm.trans hid'')
        rw [hc] at hphase'
        simp [LockPhase.hasToken] at hphase'
      · exact absurd hl hgone
    · exact absurd hl hgone

theorem Sound.locks_eq_empty (h : s.Sound)
    (hdone : ∀ id c, s.calls.lookup id = some c → c.phase.finished = true) : s.locks = ∅ := by
  apply Finmap.ext_lookup
  intro key
  cases hl : s.locks.lookup key with
  | none => rfl
  | some l =>
    obtain ⟨lock, -, hcounted⟩ := h.counted key l hl
    have hzero : s.users l = 0 := by
      refine GoMap.census_eq_zero_iff.mpr fun id c hid => ?_
      have hfinished := hdone id c hid
      cases hc : c.phase <;> simp [hc, LockPhase.finished] at hfinished <;>
        simp [refersTo, hc, LockPhase.lock]
    exact absurd hzero hcounted.used.ne'

/-- In every state of every run at most one call holds a lease of a key, the gate of an entry
and the holders of its lock make one token, an entry goes only when nobody holds the lock or
waits for it, and none is left when every call has failed or released its lease. -/
theorem lock_exclusive {acts : List (LockAction K)} (hrun : runFrom step init acts = some s) :
    (∀ key id id', s.Holds key id → s.Holds key id' → id = id') ∧
      (∀ key l, s.locks.lookup key = some l → ∃ lock, s.heap.lookup l = some lock ∧
        lock.gate + s.holders l = 1) ∧
      (∀ a s', s.step a = some s' → ∀ key l, s.locks.lookup key = some l →
        s'.locks.lookup key ≠ some l → ∀ id, ¬ s.HoldsOrWaits l id) ∧
      ((∀ id c, s.calls.lookup id = some c → c.phase.finished = true) → s.locks = ∅) := by
  have h := sound_of_run hrun
  refine ⟨fun _ _ _ => h.exclusive, ?_, ?_, h.locks_eq_empty⟩
  · intro key l hl
    obtain ⟨lock, hlock, hcounted⟩ := h.counted key l hl
    exact ⟨lock, hlock, hcounted.token⟩
  · intro a s' hstep key l hl hgone
    exact h.unused_of_removed hstep hl hgone

/-- The deadline of a waiting call passes in the instant the gate opens: it takes the token and
puts it back, after a double release of the lease before. -/
theorem lock_exclusive_handover : ∃ s : LockSystem ℕ,
    runFrom step init [.acquireLock 0 7 true false, .ref 0 0, .take 0, .acquireLock 1 7 true false,
      .ref 1 0, .proceed 0, .release 0, .send 0, .release 0, .expire 1, .take 1, .unref 0,
      .proceed 1, .send 1, .unref 1] = some s ∧ s.locks = ∅ := by
  have hany : (runFrom step (init : LockSystem ℕ) [.acquireLock 0 7 true false, .ref 0 0, .take 0,
      .acquireLock 1 7 true false, .ref 1 0, .proceed 0, .release 0, .send 0, .release 0,
      .expire 1, .take 1, .unref 0, .proceed 1, .send 1, .unref 1]).any
      (fun s => decide (∀ id ∈ s.calls.keys, (s.calls.lookup id).all (·.phase.finished) = true)) =
        true := by decide +kernel
  obtain ⟨s, hrun, hs⟩ := exists_run_of_any hany
  refine ⟨s, hrun, (lock_exclusive hrun).2.2.2 ?_⟩
  intro id c hid
  have hmem : id ∈ s.calls.keys := Finmap.mem_keys.mpr (Finmap.mem_of_lookup_eq_some hid)
  have hall := of_decide_eq_true hs id hmem
  rw [hid] at hall
  exact hall

end Exclusion

end LockSystem

end Musgos.Outbound
