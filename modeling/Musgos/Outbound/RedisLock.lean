import Musgos.Foundation.Leases
import Musgos.Outbound.CacheAgreement
import Musgos.Outbound.MemoryLock

/-!
# The lock of the Redis cache

`RedisCache.AcquireLock` takes two locks. The first is the in-memory lock of the
process, `redisExecutionLocks`; the second is a lease in Redis under a token of its
own, which a background renewer prolongs until the lease is released. They are given
back in the other order, so the process keeps its lock while the lease in Redis may be
lost. All processes share one server. A command whose caller no longer waits for the
answer may still reach the server at any later moment, or never.
-/
namespace Musgos.Outbound

open Foundation

/-- Where a call of `AcquireLock` is, and then the lease it returned. As in `LockPhase`, the
phases of a release tell whether it runs for a lease or in a call that returns an error. -/
inductive RedisLockPhase where
  /-- In `AcquireLock` of the lock of the process. -/
  | locking
  /-- At the head of the loop. -/
  | trying
  | setting
  | pausing
  /-- The lease is taken and the renewer started. -/
  | acquired
  | leased
  /-- `close(stop)` is done, and `<-done` is waited for. -/
  | stopping (leased : Bool)
  | scripting (leased : Bool)
  /-- The lock of the process is being released. -/
  | unlocking (leased : Bool)
  | released
  | failed
  deriving DecidableEq

/-- The goroutine of `maintainLock`. -/
inductive Renewer where
  | off
  | idle
  | evaluating
  | done
  deriving DecidableEq

/-- One call of `AcquireLock` and the lease it returned, with the goroutine that renews it. -/
structure RedisLockCall where
  cache : RedisCache
  key : GoString
  /-- `uuid.NewString()`, once it is drawn. -/
  token : Option GoString
  phase : RedisLockPhase
  renewer : Renewer
  /-- The context of the lease has been cancelled. -/
  cancelled : Bool
  /-- `renewalErr != nil`. -/
  renewalFailed : Bool
  /-- `releaseErr != nil`. -/
  releaseFailed : Bool

/-- The commands sent to the server: `SetNX` and the two scripts. -/
inductive LeaseCmd where
  | setNX
  | renew
  | release
  deriving DecidableEq

namespace RedisLockPhase

/-- The call has the lock of the process and has not begun to release it. -/
def locked : RedisLockPhase → Bool
  | .trying | .setting | .pausing | .acquired | .leased | .stopping _ | .scripting _ => true
  | .locking | .unlocking _ | .released | .failed => false

/-- The lease in Redis was taken, and `Release` has not got to the lock of the process. -/
def unreleased : RedisLockPhase → Bool
  | .acquired | .leased | .stopping _ | .scripting _ => true
  | _ => false

end RedisLockPhase

namespace RedisLockCall

/-- The key of the lock of the process. -/
def localKey (c : RedisLockCall) : GoString := c.cache.key c.key

def lockKey (c : RedisLockCall) : GoString := c.cache.key (lit "lock:" ++ c.key)

/-- `30*time.Second`, and `30000` milliseconds. -/
def leaseTime : ℤ := 30000000000

/-- What the server makes of a command of the call, and its answer. -/
def serve (c : RedisLockCall) (now : ℤ) (token : GoString) (leases : Leases GoString GoString) :
    LeaseCmd → Bool × Leases GoString GoString
  | .setNX => leases.setNX c.lockKey token (now + leaseTime)
  | .renew => leases.renew c.lockKey token (now + leaseTime)
  | .release => leases.release c.lockKey token

/-- `cancelOperation()`, with `renewalErr` set. -/
def failRenewal (c : RedisLockCall) : RedisLockCall :=
  { c with renewer := .idle, renewalFailed := true, cancelled := true }

end RedisLockCall

/-- The processes, by their number, and the server. -/
structure RedisLocks where
  /-- `redisExecutionLocks` of each process. -/
  locals : ℕ → LockSystem GoString
  leases : Leases GoString GoString
  now : ℤ
  /-- The calls, by process and number; the call has the same number in the lock of the
  process. -/
  calls : GoMap (ℕ × ℕ) RedisLockCall
  /-- Commands that no caller waits for any more. -/
  inFlight : List ((ℕ × ℕ) × LeaseCmd)

/-- What a call, its lease or its renewer does next. -/
inductive LeaseMove where
  /-- The lock of the process is held, and the token is drawn. -/
  | enter (token : GoString)
  /-- `AcquireLock` of the lock of the process has failed. -/
  | refuse
  /-- `ctx.Err()` at the head of the loop. -/
  | check
  /-- `SetNX`, answered or not. -/
  | setNX (answered : Bool)
  /-- The timer of the pause fires. -/
  | resume
  /-- The context ends the pause. -/
  | giveUp
  /-- `ctx.Err()` behind the acquisition. -/
  | proceed
  /-- `Release` of a lease is called. -/
  | release
  | tick
  /-- The renew script, answered or not. -/
  | renew (answered : Bool)
  /-- The renewer finds `stop` closed and returns. -/
  | stop
  /-- `<-done`. -/
  | done
  /-- The release script, answered or not. -/
  | evalRelease (answered : Bool)
  /-- `local.Release()` has returned. -/
  | leave

/-- The steps of all processes, of the network and of time. -/
inductive RedisLockAction where
  | acquireLock (p id : ℕ) (cache : RedisCache) (key : GoString) (hasDeadline expired : Bool)
  /-- A step of the lock of a process, or the end of a context. -/
  | inner (p : ℕ) (a : LockAction GoString)
  | move (x : ℕ × ℕ) (m : LeaseMove)
  /-- A command in flight reaches the server. -/
  | deliver (i : ℕ)
  | advance (time : ℤ)

namespace RedisLocks

def init (now : ℤ) : RedisLocks := ⟨fun _ => .init, ∅, now, ∅, []⟩

def goOn (s : RedisLocks) (x : ℕ × ℕ) (c : RedisLockCall) : RedisLocks :=
  { s with calls := s.calls.insert x c }

/-- The call in the lock of the process. -/
def localCall (s : RedisLocks) (x : ℕ × ℕ) : Option (LockCall GoString) :=
  (s.locals x.1).calls.lookup x.2

def localPhase (s : RedisLocks) (x : ℕ × ℕ) : Option LockPhase := (s.localCall x).map (·.phase)

/-- `ctx.Err() != nil`; the lock of the process is asked with the same context. -/
def expired (s : RedisLocks) (x : ℕ × ℕ) : Bool := (s.localCall x).any (·.expired)

/-- The lock of the process makes a step. -/
def setLocal (s : RedisLocks) (p : ℕ) (a : LockAction GoString) : Option RedisLocks :=
  ((s.locals p).step a).map fun l => { s with locals := Function.update s.locals p l }

/-- The token was not drawn before. -/
def Fresh (s : RedisLocks) (token : GoString) : Prop :=
  ∀ x ∈ s.calls.keys, (s.calls.lookup x).all fun c => c.token ≠ some token

instance decidableFresh (s : RedisLocks) (token : GoString) : Decidable (s.Fresh token) :=
  inferInstanceAs (Decidable (∀ x ∈ s.calls.keys, _))

/-- A command is sent. Its answer tells how the call goes on; without one the call sees an error,
and the command stays in flight. -/
def ask (s : RedisLocks) (x : ℕ × ℕ) (c : RedisLockCall) (cmd : LeaseCmd) (answered : Bool)
    (onAnswer : Bool → RedisLockCall) (onError : RedisLockCall) : Option RedisLocks := do
  let token ← c.token
  if answered then
    let result := c.serve s.now token s.leases cmd
    return { s with leases := result.2 }.goOn x (onAnswer result.1)
  else return { s with inFlight := (x, cmd) :: s.inFlight }.goOn x onError

/-- The steps of the lock of a process are its own; only `Release` is called from here. -/
def innerEnabled (s : RedisLocks) (p : ℕ) : LockAction GoString → Bool
  | .acquireLock _ _ _ _ => false
  | .release id => (s.calls.lookup (p, id)).any fun c =>
    match c.phase with
    | .unlocking _ | .released | .failed => true
    | _ => false
  | _ => true

def act (s : RedisLocks) (x : ℕ × ℕ) (c : RedisLockCall) : LeaseMove → Option RedisLocks
  | .enter token =>
    match c.phase, s.localPhase x with
    | .locking, some (.holding _) =>
      if s.Fresh token then some (s.goOn x { c with token := some token, phase := .trying })
      else none
    | _, _ => none
  | .refuse =>
    match c.phase, s.localPhase x with
    | .locking, some (.failed _) => some (s.goOn x { c with phase := .failed })
    | _, _ => none
  | .check =>
    match c.phase with
    | .trying =>
      some (s.goOn x { c with phase := if s.expired x then .unlocking false else .setting })
    | _ => none
  | .setNX answered =>
    match c.phase with
    | .setting => s.ask x c .setNX answered
      (fun acquired => if acquired then { c with phase := .acquired, renewer := .idle }
        else { c with phase := .pausing })
      { c with phase := .unlocking false }
    | _ => none
  | .resume =>
    match c.phase with
    | .pausing => some (s.goOn x { c with phase := .trying })
    | _ => none
  | .giveUp =>
    match c.phase with
    | .pausing =>
      if s.expired x then some (s.goOn x { c with phase := .unlocking false }) else none
    | _ => none
  | .proceed =>
    match c.phase with
    | .acquired =>
      if s.expired x then some (s.goOn x { c with phase := .stopping false, cancelled := true })
      else some (s.goOn x { c with phase := .leased })
    | _ => none
  | .release =>
    match c.phase with
    | .leased => some (s.goOn x { c with phase := .stopping true, cancelled := true })
    -- `once` has been entered: the call waits for its end and changes nothing
    | .stopping true | .scripting true | .unlocking true | .released => some s
    | _ => none
  | .tick =>
    if c.renewer = .idle then some (s.goOn x { c with renewer := .evaluating }) else none
  | .renew answered =>
    if c.renewer = .evaluating then s.ask x c .renew answered
      (fun renewed => if renewed then { c with renewer := .idle } else c.failRenewal) c.failRenewal
    else none
  | .stop =>
    match c.phase with
    | .stopping _ =>
      if c.renewer = .idle then some (s.goOn x { c with renewer := .done }) else none
    | _ => none
  | .done =>
    match c.phase with
    | .stopping leased =>
      if c.renewer = .done then some (s.goOn x { c with phase := .scripting leased }) else none
    | _ => none
  | .evalRelease answered =>
    match c.phase with
    | .scripting leased => s.ask x c .release answered
      (fun _ => { c with phase := .unlocking leased, releaseFailed := c.renewalFailed })
      { c with phase := .unlocking leased, releaseFailed := true }
    | _ => none
  | .leave =>
    match c.phase, s.localPhase x with
    | .unlocking leased, some .released =>
      some (s.goOn x { c with phase := if leased then .released else .failed })
    | _, _ => none

def step (s : RedisLocks) : RedisLockAction → Option RedisLocks
  | .acquireLock p id cache key hasDeadline expired =>
    match s.calls.lookup (p, id) with
    | some _ => none
    | none =>
      if hasDeadline = false then
        some (s.goOn (p, id) ⟨cache, key, none, .failed, .off, false, false, false⟩)
      else (s.setLocal p (.acquireLock id (cache.key key) hasDeadline expired)).map fun s' =>
        s'.goOn (p, id) ⟨cache, key, none, .locking, .off, false, false, false⟩
  | .inner p a => if s.innerEnabled p a then s.setLocal p a else none
  | .move x m => do
    let c ← s.calls.lookup x
    s.act x c m
  | .deliver i => do
    let (x, cmd) ← s.inFlight[i]?
    let c ← s.calls.lookup x
    let token ← c.token
    return { s with
      leases := (c.serve s.now token s.leases cmd).2
      inFlight := s.inFlight.eraseIdx i }
  | .advance time =>
    if s.now ≤ time then some { s with now := time, leases := s.leases.elapse time } else none

/-- The caller whose renew or release script the server runs in this step. -/
def script (s : RedisLocks) : RedisLockAction → Option (ℕ × ℕ)
  | .move x (.renew true) | .move x (.evalRelease true) => some x
  | .deliver i =>
    match s.inFlight[i]? with
    | some (x, .renew) | some (x, .release) => some x
    | _ => none
  | _ => none

end RedisLocks

namespace RedisLocks

section Effects

/-- A call goes on, and has the lock of the process only if it had it. -/
structure Continues (c c' : RedisLockCall) : Prop where
  key : c'.localKey = c.localKey
  token : c'.token = c.token
  locked : c'.phase.locked = true → c.phase.locked = true

/-- What a step can do to the leases on behalf of the call `x`. -/
inductive Serves (s : RedisLocks) (a : RedisLockAction) (x : ℕ × ℕ) (c : RedisLockCall) :
    Leases GoString GoString → Prop
  | nothing : Serves s a x c s.leases
  | runs {token : GoString} {cmd : LeaseCmd} (htoken : c.token = some token)
    (hscript : cmd = .setNX ∨ s.script a = some x) :
    Serves s a x c (c.serve s.now token s.leases cmd).2

/-- What a step can do. -/
inductive Effect (s : RedisLocks) : RedisLockAction → RedisLocks → Prop
  | nothing {a : RedisLockAction} : Effect s a s
  | advances {time : ℤ} :
    Effect s (.advance time) { s with now := time, leases := s.leases.elapse time }
  | delivers {a : RedisLockAction} {x : ℕ × ℕ} {c : RedisLockCall}
    {leases : Leases GoString GoString} {inFlight : List ((ℕ × ℕ) × LeaseCmd)}
    (hx : s.calls.lookup x = some c) (hleases : Serves s a x c leases) :
    Effect s a { s with leases := leases, inFlight := inFlight }
  | refused {a : RedisLockAction} {x : ℕ × ℕ} {c : RedisLockCall} (hx : s.calls.lookup x = none)
    (htoken : c.token = none) (hphase : c.phase.locked = false) : Effect s a (s.goOn x c)
  | begins {a : RedisLockAction} {p id : ℕ} {key : GoString} {l : LockSystem GoString}
    {c : RedisLockCall} {hasDeadline expired : Bool} (hx : s.calls.lookup (p, id) = none)
    (hl : (s.locals p).step (.acquireLock id key hasDeadline expired) = some l)
    (htoken : c.token = none) (hkey : c.localKey = key) (hphase : c.phase.locked = false) :
    Effect s a ({ s with locals := Function.update s.locals p l }.goOn (p, id) c)
  | inner {p : ℕ} {a : LockAction GoString} {l : LockSystem GoString}
    (ha : s.innerEnabled p a = true) (hl : (s.locals p).step a = some l) :
    Effect s (.inner p a) { s with locals := Function.update s.locals p l }
  | enters {a : RedisLockAction} {x : ℕ × ℕ} {c : RedisLockCall} {token : GoString} {lock : ℕ}
    (hx : s.calls.lookup x = some c) (hlocal : s.localPhase x = some (.holding lock))
    (hfresh : s.Fresh token) :
    Effect s a (s.goOn x { c with token := some token, phase := .trying })
  | goes {a : RedisLockAction} {x : ℕ × ℕ} {c c' : RedisLockCall}
    {leases : Leases GoString GoString} {inFlight : List ((ℕ × ℕ) × LeaseCmd)}
    (hx : s.calls.lookup x = some c) (hc : Continues c c') (hleases : Serves s a x c leases) :
    Effect s a ({ s with leases := leases, inFlight := inFlight }.goOn x c')

variable {s s' : RedisLocks} {x : ℕ × ℕ} {c : RedisLockCall}

theorem ask_effect {a : RedisLockAction} {cmd : LeaseCmd} {answered : Bool}
    {onAnswer : Bool → RedisLockCall} {onError : RedisLockCall} (hx : s.calls.lookup x = some c)
    (h : s.ask x c cmd answered onAnswer onError = some s')
    (hscript : answered = true → cmd = .setNX ∨ s.script a = some x)
    (hanswer : ∀ b, Continues c (onAnswer b)) (herror : Continues c onError) : Effect s a s' := by
  unfold ask at h
  cases htoken : c.token with
  | none => simp [htoken] at h
  | some token =>
    simp only [htoken, Option.bind_eq_bind, Option.bind_some] at h
    split_ifs at h with hanswered
    · obtain rfl := Option.some.inj h
      exact .goes hx (hanswer (c.serve s.now token s.leases cmd).1)
        (.runs htoken (hscript hanswered))
    · obtain rfl := Option.some.inj h
      exact .goes hx herror .nothing

theorem Continues.of_locked {c' : RedisLockCall} (h : c.phase.locked = true)
    (hkey : c'.localKey = c.localKey) (htoken : c'.token = c.token) : Continues c c' :=
  ⟨hkey, htoken, fun _ => h⟩

section Moves

variable (hx : s.calls.lookup x = some c)
include hx

theorem enter_effect {token : GoString} (h : s.act x c (.enter token) = some s') :
    Effect s (.move x (.enter token)) s' := by
  simp only [act] at h
  split at h
  · rename_i lock hphase hlocal
    split_ifs at h with hfresh
    obtain rfl := Option.some.inj h
    exact .enters hx hlocal hfresh
  · cases h

theorem refuse_effect (h : s.act x c .refuse = some s') : Effect s (.move x .refuse) s' := by
  simp only [act] at h
  split at h
  · obtain rfl := Option.some.inj h
    exact .goes hx ⟨rfl, rfl, by simp [RedisLockPhase.locked]⟩ .nothing
  · cases h

theorem check_effect (h : s.act x c .check = some s') : Effect s (.move x .check) s' := by
  cases hc : c.phase <;> simp only [act, hc] at h <;> try contradiction
  obtain rfl := Option.some.inj h
  exact .goes hx (.of_locked (by rw [hc]; rfl) rfl rfl) .nothing

theorem setNX_effect {answered : Bool} (h : s.act x c (.setNX answered) = some s') :
    Effect s (.move x (.setNX answered)) s' := by
  cases hc : c.phase <;> simp only [act, hc] at h <;> try contradiction
  have hlocked : c.phase.locked = true := by rw [hc]; rfl
  refine ask_effect hx h (fun _ => .inl rfl) (fun b => ?_) (.of_locked hlocked rfl rfl)
  cases b <;> exact .of_locked hlocked rfl rfl

theorem resume_effect (h : s.act x c .resume = some s') : Effect s (.move x .resume) s' := by
  cases hc : c.phase <;> simp only [act, hc] at h <;> try contradiction
  obtain rfl := Option.some.inj h
  exact .goes hx (.of_locked (by rw [hc]; rfl) rfl rfl) .nothing

theorem giveUp_effect (h : s.act x c .giveUp = some s') : Effect s (.move x .giveUp) s' := by
  cases hc : c.phase <;> simp only [act, hc] at h <;> try contradiction
  split_ifs at h
  obtain rfl := Option.some.inj h
  exact .goes hx (.of_locked (by rw [hc]; rfl) rfl rfl) .nothing

theorem proceed_effect (h : s.act x c .proceed = some s') : Effect s (.move x .proceed) s' := by
  cases hc : c.phase <;> simp only [act, hc] at h <;> try contradiction
  split_ifs at h
  all_goals
    obtain rfl := Option.some.inj h
    exact .goes hx (.of_locked (by rw [hc]; rfl) rfl rfl) .nothing

theorem release_effect (h : s.act x c .release = some s') : Effect s (.move x .release) s' := by
  simp only [act] at h
  split at h
  · rename_i hc
    obtain rfl := Option.some.inj h
    exact .goes hx (.of_locked (by rw [hc]; rfl) rfl rfl) .nothing
  all_goals
    cases h
    try exact .nothing

theorem tick_effect (h : s.act x c .tick = some s') : Effect s (.move x .tick) s' := by
  simp only [act] at h
  split_ifs at h
  obtain rfl := Option.some.inj h
  exact .goes hx ⟨rfl, rfl, id⟩ .nothing

theorem renew_effect {answered : Bool} (h : s.act x c (.renew answered) = some s') :
    Effect s (.move x (.renew answered)) s' := by
  simp only [act] at h
  split_ifs at h
  refine ask_effect hx h (fun hanswered => .inr (by rw [hanswered]; rfl)) (fun b => ?_)
    ⟨rfl, rfl, id⟩
  cases b <;> exact ⟨rfl, rfl, id⟩

theorem stop_effect (h : s.act x c .stop = some s') : Effect s (.move x .stop) s' := by
  cases hc : c.phase <;> simp only [act, hc] at h <;> try contradiction
  split_ifs at h
  obtain rfl := Option.some.inj h
  exact .goes hx (.of_locked (by rw [hc]; rfl) rfl rfl) .nothing

theorem done_effect (h : s.act x c .done = some s') : Effect s (.move x .done) s' := by
  cases hc : c.phase <;> simp only [act, hc] at h <;> try contradiction
  split_ifs at h
  obtain rfl := Option.some.inj h
  exact .goes hx (.of_locked (by rw [hc]; rfl) rfl rfl) .nothing

theorem evalRelease_effect {answered : Bool} (h : s.act x c (.evalRelease answered) = some s') :
    Effect s (.move x (.evalRelease answered)) s' := by
  cases hc : c.phase <;> simp only [act, hc] at h <;> try contradiction
  have hlocked : c.phase.locked = true := by rw [hc]; rfl
  exact ask_effect hx h (fun hanswered => .inr (by rw [hanswered]; rfl))
    (fun _ => .of_locked hlocked rfl rfl) (.of_locked hlocked rfl rfl)

theorem leave_effect (h : s.act x c .leave = some s') : Effect s (.move x .leave) s' := by
  simp only [act] at h
  split at h
  · rename_i leased _ _
    obtain rfl := Option.some.inj h
    refine .goes hx ⟨rfl, rfl, ?_⟩ .nothing
    cases leased <;> simp [RedisLockPhase.locked]
  · cases h

theorem act_effect {m : LeaseMove} (h : s.act x c m = some s') : Effect s (.move x m) s' := by
  cases m with
  | enter token => exact enter_effect hx h
  | refuse => exact refuse_effect hx h
  | check => exact check_effect hx h
  | setNX answered => exact setNX_effect hx h
  | resume => exact resume_effect hx h
  | giveUp => exact giveUp_effect hx h
  | proceed => exact proceed_effect hx h
  | release => exact release_effect hx h
  | tick => exact tick_effect hx h
  | renew answered => exact renew_effect hx h
  | stop => exact stop_effect hx h
  | done => exact done_effect hx h
  | evalRelease answered => exact evalRelease_effect hx h
  | leave => exact leave_effect hx h

end Moves

theorem step_effect {a : RedisLockAction} (h : s.step a = some s') : Effect s a s' := by
  cases a with
  | acquireLock p id cache key hasDeadline expired =>
    simp only [step] at h
    cases hx : s.calls.lookup (p, id) with
    | some c => simp [hx] at h
    | none =>
      simp only [hx] at h
      split_ifs at h with hdeadline
      · obtain rfl := Option.some.inj h
        exact .refused hx rfl rfl
      · obtain ⟨s₁, hs₁, rfl⟩ := Option.map_eq_some_iff.mp h
        obtain ⟨l, hl, rfl⟩ := Option.map_eq_some_iff.mp hs₁
        exact .begins hx hl rfl rfl rfl
  | inner p a =>
    simp only [step] at h
    split_ifs at h with ha
    obtain ⟨l, hl, rfl⟩ := Option.map_eq_some_iff.mp h
    exact .inner ha hl
  | move x m =>
    simp only [step] at h
    obtain ⟨c, hx, hact⟩ := Option.bind_eq_some_iff.mp h
    exact act_effect hx hact
  | deliver i =>
    simp only [step] at h
    obtain ⟨⟨x, cmd⟩, hi, h⟩ := Option.bind_eq_some_iff.mp h
    obtain ⟨c, hx, h⟩ := Option.bind_eq_some_iff.mp h
    obtain ⟨token, htoken, h⟩ := Option.bind_eq_some_iff.mp h
    obtain rfl := Option.some.inj h
    refine .delivers hx (.runs htoken ?_)
    cases cmd <;> simp [script, hi]
  | advance time =>
    simp only [step] at h
    split_ifs at h
    obtain rfl := Option.some.inj h
    exact .advances

end Effects

section Leases

variable {s s' : RedisLocks} {a : RedisLockAction} {x : ℕ × ℕ} {c : RedisLockCall}
  {k owner : GoString}
  {d : ℤ}

theorem serve_keeps {now : ℤ} {token : GoString} {leases : Leases GoString GoString}
    {cmd : LeaseCmd} (hk : leases.lookup k = some (owner, d)) (h : cmd = .setNX ∨ owner ≠ token) :
    (c.serve now token leases cmd).2.lookup k = some (owner, d) := by
  cases cmd with
  | setNX => exact Leases.lookup_setNX hk
  | renew => exact Leases.lookup_renew hk (h.resolve_left nofun)
  | release => exact Leases.lookup_release hk (h.resolve_left nofun)

theorem Serves.keeps {leases : Leases GoString GoString} (h : Serves s a x c leases)
    (hk : s.leases.lookup k = some (owner, d))
    (hscript : s.script a = some x → c.token ≠ some owner) :
    leases.lookup k = some (owner, d) := by
  cases h with
  | nothing => exact hk
  | runs htoken hrun =>
    refine serve_keeps hk (hrun.imp_right fun hx => ?_)
    rintro rfl
    exact hscript hx htoken

/-- Before its deadline a lease is changed by nothing but a script of the call with its token. -/
theorem lease_kept (h : s.step a = some s') (hk : s.leases.lookup k = some (owner, d))
    (htime : ∀ time, a = .advance time → time < d)
    (hscript : ∀ x c, s.script a = some x → s.calls.lookup x = some c → c.token ≠ some owner) :
    s'.leases.lookup k = some (owner, d) := by
  cases step_effect h with
  | nothing | refused | begins | inner | enters => exact hk
  | advances => exact Leases.lookup_elapse hk (htime _ rfl)
  | delivers hx hleases => exact hleases.keeps hk fun hrun => hscript _ _ hrun hx
  | goes hx _ hleases => exact hleases.keeps hk fun hrun => hscript _ _ hrun hx

end Leases

section Invariant

variable {s s' : RedisLocks} {x : ℕ × ℕ} {c : RedisLockCall} {p : ℕ} {l : LockSystem GoString}

/-- The invariant: who has a key on the server holds the lock of its process, and no
two calls have one token. -/
structure Sound (s : RedisLocks) : Prop where
  locals : ∀ p, (s.locals p).Sound
  /-- The lock of a process is asked for by these calls only, under their keys. -/
  known : ∀ x lc, s.localCall x = some lc → ∃ c, s.calls.lookup x = some c ∧ lc.key = c.localKey
  held : ∀ x c, s.calls.lookup x = some c → c.phase.locked = true →
    ∃ lock, s.localPhase x = some (.holding lock)
  tokens : ∀ x c, s.calls.lookup x = some c → ∀ token, c.token = some token →
    ∀ y c', s.calls.lookup y = some c' → c'.token = some token → x = y

theorem init_sound (now : ℤ) : (init now).Sound where
  locals _ := LockSystem.init_sound
  known := by simp [init, localCall, LockSystem.init]
  held := by simp [init]
  tokens := by simp [init]

theorem localCall_update (x : ℕ × ℕ) :
    localCall { s with locals := Function.update s.locals p l } x =
      if x.1 = p then l.calls.lookup x.2 else s.localCall x := by
  dsimp only [localCall]
  split_ifs with hp
  · rw [hp, Function.update_self]
  · rw [Function.update_of_ne hp]

theorem Sound.insert (h : s.Sound) {c' : RedisLockCall}
    (hcalls : s'.calls = s.calls.insert x c') (hlocals : s'.locals = s.locals)
    (hkey : ∀ lc, s.localCall x = some lc → lc.key = c'.localKey)
    (hheld : c'.phase.locked = true → ∃ lock, s.localPhase x = some (.holding lock))
    (htokens : ∀ token, c'.token = some token → ∀ y c, s.calls.lookup y = some c →
      c.token = some token → x = y) : s'.Sound := by
  have hcall : s'.localCall = s.localCall := by
    funext y
    rw [localCall, hlocals]
    rfl
  have hphase : s'.localPhase = s.localPhase := by
    funext y
    rw [localPhase, hcall]
    rfl
  constructor
  case locals => exact hlocals ▸ h.locals
  case known =>
    intro y lc hy
    rw [hcall] at hy
    rw [hcalls, GoMap.lookup_insert_ite]
    split_ifs with hyx
    · exact ⟨c', rfl, hkey lc (hyx ▸ hy)⟩
    · exact h.known y lc hy
  case held =>
    rw [hcalls, hphase]
    exact GoMap.forall_lookup_insert hheld fun y c _ => h.held y c
  case tokens =>
    rw [hcalls]
    refine GoMap.forall_lookup_insert ?_ fun y c _ hy => ?_
    · intro token htoken
      exact GoMap.forall_lookup_insert (fun _ => rfl) fun y c _ => htokens token htoken y c
    · intro token htoken
      exact GoMap.forall_lookup_insert (fun htoken' => (htokens token htoken' y c hy htoken).symm)
        fun z c' _ => h.tokens y c hy token htoken z c'

/-- The lock of a process moves on; what it does to the call of the step has to be known. -/
theorem Sound.update (h : s.Sound) {a : LockAction GoString} (hl : (s.locals p).step a = some l)
    (hx : s.calls.lookup (p, a.id) = some c)
    (hkey : ∀ lc, l.calls.lookup a.id = some lc → lc.key = c.localKey)
    (hheld : c.phase.locked = true →
      ∃ lc lock, l.calls.lookup a.id = some lc ∧ lc.phase = .holding lock) :
    Sound { s with locals := Function.update s.locals p l } := by
  have hother : ∀ id, id ≠ a.id → l.calls.lookup id = s.localCall (p, id) := by
    intro id hid
    obtain hcalls | ⟨lc, hcalls, -⟩ := LockSystem.step_calls hl
    · rw [hcalls]
      rfl
    · rw [hcalls, GoMap.lookup_insert_ite, if_neg hid]
      rfl
  constructor
  case locals =>
    intro q
    dsimp only
    by_cases hq : q = p
    · rw [hq, Function.update_self]
      exact (h.locals p).step hl
    · rw [Function.update_of_ne hq]
      exact h.locals q
  case known =>
    rintro ⟨q, id⟩ lc hlc
    rw [localCall_update] at hlc
    split_ifs at hlc with hq
    · obtain rfl : q = p := hq
      by_cases hid : id = a.id
      · subst hid
        exact ⟨c, hx, hkey lc hlc⟩
      · rw [hother id hid] at hlc
        exact h.known _ lc hlc
    · exact h.known _ lc hlc
  case held =>
    rintro ⟨q, id⟩ c' hc' hlocked
    rw [localPhase, localCall_update]
    split_ifs with hq
    · obtain rfl : q = p := hq
      by_cases hid : id = a.id
      · subst hid
        obtain rfl := Option.some.inj (hx.symm.trans hc')
        obtain ⟨lc, lock, hlc, hphase⟩ := hheld hlocked
        exact ⟨lock, by simp [hlc, hphase]⟩
      · rw [hother id hid]
        exact h.held _ c' hc' hlocked
    · exact h.held _ c' hc' hlocked
  case tokens => exact h.tokens

theorem Sound.inner (h : s.Sound) {a : LockAction GoString} (ha : s.innerEnabled p a = true)
    (hl : (s.locals p).step a = some l) :
    Sound { s with locals := Function.update s.locals p l } := by
  have hsome := LockSystem.isSome_lookup_of_step hl (by
    intro key hasDeadline expired heq
    rw [heq] at ha
    cases ha)
  obtain ⟨lc, hlc⟩ := Option.isSome_iff_exists.mp hsome
  obtain ⟨c, hx, hkey⟩ := h.known (p, a.id) lc hlc
  refine h.update hl hx ?_ ?_
  · intro lc' hlc'
    obtain hcalls | ⟨lc'', hcalls, hkey'⟩ := LockSystem.step_calls hl
    · rw [hcalls, hlc] at hlc'
      obtain rfl := Option.some.inj hlc'
      exact hkey
    · rw [hcalls, Finmap.lookup_insert] at hlc'
      obtain rfl := Option.some.inj hlc'
      rw [hkey' lc hlc, hkey]
  · intro hlocked
    obtain ⟨lock, hphase⟩ := h.held (p, a.id) c hx hlocked
    have hlock : lc.phase = .holding lock := by
      simpa [localPhase, show s.localCall (p, a.id) = some lc from hlc] using hphase
    have hrelease : a ≠ .release a.id := by
      intro heq
      rw [heq] at ha
      simp only [innerEnabled, hx, Option.any_some] at ha
      cases hc : c.phase <;> simp [hc, RedisLockPhase.locked] at ha hlocked
    obtain ⟨lc', hlc', hphase'⟩ := LockSystem.step_holding hl hlc hlock hrelease
    exact ⟨lc', lock, hlc', hphase'⟩

theorem Sound.step (h : s.Sound) {a : RedisLockAction} (hstep : s.step a = some s') : s'.Sound := by
  cases step_effect hstep with
  | nothing => exact h
  | advances => exact ⟨h.locals, h.known, h.held, h.tokens⟩
  | delivers => exact ⟨h.locals, h.known, h.held, h.tokens⟩
  | @refused _ x c hx htoken hphase =>
    refine h.insert rfl rfl ?_ (by simp [hphase]) (by simp [htoken])
    intro lc hlc
    obtain ⟨c', hc', -⟩ := h.known x lc hlc
    rw [hx] at hc'
    cases hc'
  | @begins _ p id key l c hasDeadline expired hx hl htoken hkey hphase =>
    obtain ⟨hid, lc, hcalls, hkey'⟩ := LockSystem.step_acquireLock hl
    have hgo : (s.goOn (p, id) c).Sound := by
      refine h.insert rfl rfl ?_ (by simp [hphase]) (by simp [htoken])
      intro lc hlc
      obtain ⟨c', hc', -⟩ := h.known (p, id) lc hlc
      rw [hx] at hc'
      cases hc'
    refine hgo.update hl (Finmap.lookup_insert _) ?_ (by simp [hphase])
    intro lc' hlc'
    rw [hcalls, LockAction.id, Finmap.lookup_insert] at hlc'
    obtain rfl := Option.some.inj hlc'
    rw [hkey', hkey]
  | inner ha hl => exact h.inner ha hl
  | @enters _ x c token lock hx hlocal hfresh =>
    refine h.insert rfl rfl ?_ (fun _ => ⟨lock, hlocal⟩) ?_
    · intro lc hlc
      obtain ⟨c', hc', hkey⟩ := h.known x lc hlc
      obtain rfl := Option.some.inj (hx.symm.trans hc')
      exact hkey
    · intro token' htoken' y c' hy hc'
      obtain rfl := Option.some.inj htoken'
      have hmem : y ∈ s.calls.keys := Finmap.mem_keys.mpr (Finmap.mem_of_lookup_eq_some hy)
      have hne := hfresh y hmem
      simp [hy, hc'] at hne
  | @goes _ x c c' leases inFlight hx hc hleases =>
    refine h.insert rfl rfl ?_ (fun hlocked => h.held x c hx (hc.locked hlocked)) ?_
    · intro lc hlc
      obtain ⟨c₀, hc₀, hkey⟩ := h.known x lc hlc
      obtain rfl := Option.some.inj (hx.symm.trans hc₀)
      rw [hkey, hc.key]
    · intro token htoken
      rw [hc.token] at htoken
      exact h.tokens x c hx token htoken

theorem sound_of_run {now : ℤ} {acts : List RedisLockAction}
    (hrun : runFrom RedisLocks.step (init now) acts = some s) : s.Sound :=
  invariant_run (P := fun _ _ => True) (fun _ _ _ h _ hstep => h.step hstep) (init_sound now)
    (along_of_forall (fun _ _ => trivial) _) hrun

end Invariant

section Ownership

variable {s : RedisLocks}

/-- The call has a lease of the key that is not released, whatever has become of it in Redis. -/
def Unreleased (s : RedisLocks) (p : ℕ) (cache : RedisCache) (key : GoString) (id : ℕ) : Prop :=
  ∃ c, s.calls.lookup (p, id) = some c ∧ c.cache = cache ∧ c.key = key ∧
    c.phase.unreleased = true

theorem locked_of_unreleased {phase : RedisLockPhase} (h : phase.unreleased = true) :
    phase.locked = true := by
  cases phase <;> first | rfl | cases h

theorem Sound.holds (h : s.Sound) {p id : ℕ} {cache : RedisCache} {key : GoString}
    (hid : s.Unreleased p cache key id) : (s.locals p).Holds (cache.key key) id := by
  obtain ⟨c, hc, rfl, rfl, hphase⟩ := hid
  obtain ⟨lock, hlock⟩ := h.held (p, id) c hc (locked_of_unreleased hphase)
  obtain ⟨lc, hlc, hphase'⟩ := Option.map_eq_some_iff.mp hlock
  obtain ⟨c', hc', hkey⟩ := h.known (p, id) lc hlc
  obtain rfl := Option.some.inj (hc.symm.trans hc')
  exact ⟨lc, hlc, hkey, by rw [hphase']; rfl⟩

/-- In every state of every run, a renewal or a release leaves a lease under another token as it
is, no two calls have the same token, and of the calls of one process at most one has a lease
of a key that is not released. -/
theorem lease_ownership {now : ℤ} {acts : List RedisLockAction}
    (hrun : runFrom step (init now) acts = some s) :
    (∀ a s' x c k owner d, s.step a = some s' → s.script a = some x →
        s.calls.lookup x = some c → s.leases.lookup k = some (owner, d) →
        c.token ≠ some owner → s'.leases.lookup k = some (owner, d)) ∧
      (∀ x c, s.calls.lookup x = some c → ∀ token, c.token = some token →
        ∀ y c', s.calls.lookup y = some c' → c'.token = some token → x = y) ∧
      ∀ p cache key id id', s.Unreleased p cache key id → s.Unreleased p cache key id' →
        id = id' := by
  have h := sound_of_run hrun
  refine ⟨?_, h.tokens, ?_⟩
  · intro a s' x c k owner d hstep hscript hx hk hne
    refine lease_kept hstep hk ?_ ?_
    · rintro time rfl
      cases hscript
    · intro y c' hy hc'
      obtain rfl := Option.some.inj (hscript.symm.trans hy)
      obtain rfl := Option.some.inj (hx.symm.trans hc')
      exact hne
  · intro p cache key id id' hid hid'
    exact (h.locals p).exclusive (h.holds hid) (h.holds hid')

/-- The steps of a call that finds both locks free. -/
def undisturbed (p : ℕ) (cache : RedisCache) (key token : GoString) : List RedisLockAction :=
  [.acquireLock p 0 cache key true false, .inner p (.ref 0 0), .inner p (.take 0),
    .inner p (.proceed 0), .move (p, 0) (.enter token), .move (p, 0) .check,
    .move (p, 0) (.setNX true), .move (p, 0) .proceed]

/-- A lease runs out and another process takes the key: the release of the first owner comes
late and leaves the lease of the second. -/
theorem lease_ownership_late_release : ∃ s s' : RedisLocks,
    runFrom step (init 0) (undisturbed 0 ⟨lit "fsos"⟩ (lit "k") (lit "a") ++
      .advance 30000000000 :: undisturbed 1 ⟨lit "fsos"⟩ (lit "k") (lit "b") ++
      [.move (0, 0) .release, .move (0, 0) .stop, .move (0, 0) .done]) = some s ∧
    s.step (.move (0, 0) (.evalRelease true)) = some s' ∧
    s'.leases.lookup (lit "fsos:lock:k") = some (lit "b", 60000000000) := by
  have hany : (runFrom step (init 0) (undisturbed 0 ⟨lit "fsos"⟩ (lit "k") (lit "a") ++
      .advance 30000000000 :: undisturbed 1 ⟨lit "fsos"⟩ (lit "k") (lit "b") ++
      [.move (0, 0) .release, .move (0, 0) .stop, .move (0, 0) .done])).any
      (fun s => decide ((s.calls.lookup (0, 0)).map (·.token) = some (some (lit "a")) ∧
        s.leases.lookup (lit "fsos:lock:k") = some (lit "b", 60000000000) ∧
        (s.step (.move (0, 0) (.evalRelease true))).isSome = true)) = true := by
    decide +kernel
  obtain ⟨s, hrun, hs⟩ := exists_run_of_any hany
  obtain ⟨htoken, hlease, hsome⟩ := of_decide_eq_true hs
  obtain ⟨c, hc, htoken⟩ := Option.map_eq_some_iff.mp htoken
  obtain ⟨s', hstep⟩ := Option.isSome_iff_exists.mp hsome
  refine ⟨s, s', hrun, hstep, ?_⟩
  refine (lease_ownership hrun).1 _ _ _ _ _ _ _ hstep rfl hc hlease ?_
  rw [htoken]
  decide

end Ownership

end RedisLocks

end Musgos.Outbound
