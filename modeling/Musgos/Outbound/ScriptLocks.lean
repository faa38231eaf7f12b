import Musgos.Foundation.Bytes
import Musgos.Foundation.GoMap
import Musgos.Foundation.Transition

/-!
# The locks of a script

`mus.cache.lock` keeps a lease until the script ends, `mus.cache.withLock` for the time of a
callback. Both share a map of leases, a count of the callbacks that are running and the
context of the Lua state, and an error can leave any of them at any depth. What a script does
is a tree of such calls. Whether the cache grants a lease, where an error is raised and where
one is caught are part of it, so that a statement about every tree is one about every script.
The log has what happens to the cache, to the context and to the callbacks, in its order.
-/
namespace Musgos.Outbound

open Foundation

/-- The context of the Lua state: that of the execution or of a lease. -/
inductive ScriptContext where
  | execution
  | lease (id : ℕ)
  deriving DecidableEq

/-- What a script's use of locks leaves behind, in order. -/
inductive LockEvent where
  /-- `cache.AcquireLock` is called. -/
  | asked (key : GoString)
  | acquired (id : ℕ) (key : GoString)
  /-- The lease's `Release` is called. -/
  | released (id : ℕ)
  | setContext (context : ScriptContext)
  /-- A callback of `withLock` starts, with the lease that was acquired for it, if any. -/
  | began (own : Option ℕ)
  | ended (own : Option ℕ)
  deriving DecidableEq

/-- What the functions of the module share. Leases are numbered. -/
structure LockState where
  locks : GoMap GoString ℕ
  scopedDepth : ℕ
  context : ScriptContext
  nextLease : ℕ
  log : List LockEvent

namespace LockState

def emit (s : LockState) (events : List LockEvent) : LockState := { s with log := s.log ++ events }

/-- `L.SetContext`. -/
def setContext (s : LockState) (context : ScriptContext) : LockState :=
  { s.emit [.setContext context] with context := context }

/-- `cache.AcquireLock`: the lease, or `none` for an error. -/
def acquireLock (s : LockState) (key : GoString) (granted : Bool) : Option ℕ × LockState :=
  if granted then
    (some s.nextLease,
      { s.emit [.asked key, .acquired s.nextLease key] with nextLease := s.nextLease + 1 })
  else (none, s.emit [.asked key])

/-- The callback starts. -/
def enter (s : LockState) (own : Option ℕ) : LockState :=
  { s.emit [.began own] with scopedDepth := s.scopedDepth + 1 }

/-- The callback ends. -/
def leave (s : LockState) (own : Option ℕ) : LockState :=
  { s.emit [.ended own] with scopedDepth := s.scopedDepth - 1 }

/-- `mus.cache.lock`; `false` is an error raised to the caller. -/
def lock (s : LockState) (key : GoString) (granted : Bool) : LockState × Bool :=
  if (s.locks.lookup key).isSome then (s, true)
  else if s.scopedDepth > 0 then (s, false)
  else
    match s.acquireLock key granted with
    | (none, s) => (s, false)
    | (some lease, s) =>
      (({ s with locks := s.locks.insert key lease } : LockState).setContext (.lease lease), true)

/-- `mus.cache.withLock`. The callback is called in protected mode; `releases` says whether
`Release` returns without an error. -/
def withLock (s : LockState) (key : GoString) (granted releases : Bool)
    (callback : LockState → LockState × Bool) : LockState × Bool :=
  let previousContext := s.context
  match s.locks.lookup key with
  | some _ =>
    let (s, returned) := callback (s.enter none)
    (s.leave none, returned)
  | none =>
    if s.scopedDepth > 0 then (s, false)
    else
      match s.acquireLock key granted with
      | (none, s) => (s, false)
      | (some lease, s) =>
        let s := ({ s with locks := s.locks.insert key lease } : LockState).setContext
          (.lease lease)
        let (s, returned) := callback (s.enter (some lease))
        let s := (s.leave (some lease)).emit [.released lease]
        let s := ({ s with locks := s.locks.erase key } : LockState).setContext previousContext
        (s, returned && releases)

end LockState

/-- What a script does, as far as its locks are concerned. -/
inductive LockScript where
  | done
  /-- An error, whatever raises it. -/
  | raise
  | lock (key : GoString) (granted : Bool) (next : LockScript)
  | withLock (key : GoString) (granted releases : Bool) (callback next : LockScript)
  /-- A call of which the script catches the error. -/
  | pcall (body next : LockScript)

namespace LockScript

/-- An error skips the rest. -/
def andThen (result : LockState × Bool) (next : LockState → LockState × Bool) :
    LockState × Bool :=
  if result.2 then next result.1 else result

/-- The state after the script and whether it returns. -/
def run : LockScript → LockState → LockState × Bool
  | .done, s => (s, true)
  | .raise, s => (s, false)
  | .lock key granted next, s => andThen (s.lock key granted) next.run
  | .withLock key granted releases callback next, s =>
    andThen (s.withLock key granted releases callback.run) next.run
  | .pcall body next, s => next.run (body.run s).1

end LockScript

namespace LockState

/-- Before the script runs. -/
def start : LockState := ⟨∅, 0, .execution, 0, []⟩

/-- The deferred release of everything in the map. -/
def releaseLocks (s : LockState) (order : RangeOrder GoString) : LockState :=
  s.emit ((order.keys s.locks.keys).filterMap fun key => (s.locks.lookup key).map .released)

end LockState

/-- `Execute`. -/
def execute (order : RangeOrder GoString) (script : LockScript) : LockState :=
  (script.run .start).1.releaseLocks order

section Logs

def LockEvent.isBegan : LockEvent → Bool
  | .began _ => true
  | _ => false

def LockEvent.isEnded : LockEvent → Bool
  | .ended _ => true
  | _ => false

/-- As many callbacks have ended as have begun. -/
def Idle (log : List LockEvent) : Prop :=
  log.countP LockEvent.isBegan = log.countP LockEvent.isEnded

/-- The context after a log that starts in `context`. -/
def contextAfter (context : ScriptContext) : List LockEvent → ScriptContext
  | [] => context
  | .setContext context' :: log => contextAfter context' log
  | _ :: log => contextAfter context log

/-- No lease of the key is held. -/
def Unheld (log : List LockEvent) (key : GoString) : Prop :=
  ∀ id, .acquired id key ∈ log → .released id ∈ log

/-- What may happen after `past`: the cache is asked for no key that is held, and grants no
lease while a callback is running. -/
def Allowed (past : List LockEvent) : LockEvent → Prop
  | .asked key => Unheld past key
  | .acquired _ _ => Idle past
  | _ => True

/-- The lease of a callback is acquired just before it; the callback ends, the lease is
released and the context is what it was before. -/
def ScopesClose (log : List LockEvent) : Prop :=
  ∀ (before : List LockEvent) (id : ℕ) (after : List LockEvent),
    log = before ++ LockEvent.began (some id) :: after →
    ∃ (past : List LockEvent) (key : GoString) (inner rest : List LockEvent),
      before = past ++ [.asked key, .acquired id key, .setContext (.lease id)] ∧
      after = inner ++ .ended (some id) :: .released id ::
        .setContext (contextAfter .execution past) :: rest ∧ Idle inner

/-- The log of a script that runs inside a callback: all it can do is to enter locks that are
held. -/
def Nested (log : List LockEvent) : Prop :=
  (∀ e ∈ log, e = .began none ∨ e = .ended none) ∧ Idle log

theorem Idle.append {a b : List LockEvent} (ha : Idle a) (hb : Idle b) : Idle (a ++ b) := by
  unfold Idle at *
  rw [List.countP_append, List.countP_append, ha, hb]

theorem nested_nil : Nested [] := ⟨nofun, rfl⟩

theorem Nested.append {a b : List LockEvent} (ha : Nested a) (hb : Nested b) : Nested (a ++ b) :=
  ⟨List.forall_mem_append.mpr ⟨ha.1, hb.1⟩, ha.2.append hb.2⟩

theorem Nested.bracket {inner : List LockEvent} (h : Nested inner) :
    Nested (.began none :: inner ++ [.ended none]) := by
  constructor
  · intro e he
    simp only [List.cons_append, List.mem_cons, List.mem_append, List.not_mem_nil, or_false] at he
    rcases he with rfl | he | rfl
    · exact Or.inl rfl
    · exact h.1 e he
    · exact Or.inr rfl
  · have hidle := h.2
    unfold Idle at hidle ⊢
    simp [List.countP_cons, LockEvent.isBegan, LockEvent.isEnded, hidle]

theorem Nested.notMem {inner : List LockEvent} (h : Nested inner) {e : LockEvent}
    (hbegan : e ≠ .began none) (hended : e ≠ .ended none) : e ∉ inner := by
  intro he
  rcases h.1 e he with rfl | rfl
  · exact hbegan rfl
  · exact hended rfl

theorem contextAfter_append (context : ScriptContext) (a b : List LockEvent) :
    contextAfter context (a ++ b) = contextAfter (contextAfter context a) b := by
  induction a generalizing context with
  | nil => rfl
  | cons e a ih => cases e <;> exact ih _

theorem Nested.contextAfter {inner : List LockEvent} (h : Nested inner) (context : ScriptContext) :
    contextAfter context inner = context := by
  have hevents := h.1
  clear h
  induction inner with
  | nil => rfl
  | cons e inner ih =>
    obtain ⟨he, hinner⟩ := List.forall_mem_cons.mp hevents
    rcases he with rfl | rfl
    all_goals exact ih hinner

/-- What the log has of a `withLock` that acquires a lease and of its callback. -/
def scopeLog (key : GoString) (id : ℕ) (previous : ScriptContext) (inner : List LockEvent) :
    List LockEvent :=
  let opening : List LockEvent := [.asked key, .acquired id key, .setContext (.lease id)]
  let closing : List LockEvent := [.ended (some id), .released id, .setContext previous]
  opening ++ .began (some id) :: (inner ++ closing)

section ScopeLog

variable {key key' : GoString} {id id' : ℕ} {previous : ScriptContext} {inner : List LockEvent}

theorem acquired_mem_scopeLog (hinner : Nested inner) :
    .acquired id' key' ∈ scopeLog key id previous inner ↔ id' = id ∧ key' = key := by
  have hnot : .acquired id' key' ∉ inner := hinner.notMem nofun nofun
  simp [scopeLog, hnot]

theorem released_mem_scopeLog (hinner : Nested inner) :
    .released id' ∈ scopeLog key id previous inner ↔ id' = id := by
  have hnot : .released id' ∉ inner := hinner.notMem nofun nofun
  simp [scopeLog, hnot]

theorem began_mem_scopeLog (hinner : Nested inner) :
    .began (some id') ∈ scopeLog key id previous inner ↔ id' = id := by
  have hnot : .began (some id') ∉ inner := hinner.notMem nofun nofun
  simp [scopeLog, hnot]

theorem idle_scopeLog (hinner : Nested inner) : Idle (scopeLog key id previous inner) := by
  have hcount := hinner.2
  unfold Idle at hcount ⊢
  simp [scopeLog, List.countP_cons, LockEvent.isBegan, LockEvent.isEnded, hcount]

theorem contextAfter_scopeLog (context : ScriptContext) :
    contextAfter context (scopeLog key id previous inner) = previous := by
  simp only [scopeLog, contextAfter_append, contextAfter]

theorem obeysFrom_scopeLog (hinner : Nested inner) {past : List LockEvent}
    (hkey : Unheld past key) (hidle : Idle past) :
    ObeysFrom Allowed past (scopeLog key id previous inner) := by
  have hrest : ∀ e ∈ LockEvent.began (some id) :: (inner ++
      [.ended (some id), .released id, .setContext previous]), ∀ past, Allowed past e := by
    intro e he past
    simp only [List.mem_cons, List.mem_append, List.not_mem_nil, or_false] at he
    rcases he with rfl | he | rfl | rfl | rfl
    · trivial
    · rcases hinner.1 e he with rfl | rfl
      all_goals trivial
    all_goals trivial
  apply obeysFrom_append.mpr ⟨?_, obeysFrom_of_forall hrest⟩
  exact ⟨hkey, hidle.append rfl, trivial, trivial⟩

/-- Its own callback is the only one it has with a lease. -/
theorem scopeLog_split (hinner : Nested inner) {before after : List LockEvent}
    (h : scopeLog key id previous inner = before ++ LockEvent.began (some id') :: after) :
    id' = id ∧ before = [.asked key, .acquired id key, .setContext (.lease id)] ∧
      after = inner ++ [.ended (some id), .released id, .setContext previous] := by
  have hid : id' = id := (began_mem_scopeLog hinner).mp (by rw [h]; simp)
  subst hid
  have hnot : .began (some id') ∉ inner := hinner.notMem nofun nofun
  have hbefore : .began (some id') ∉ before := by
    have hcount := congrArg (List.count (.began (some id'))) h
    simp [scopeLog, List.count_append, List.count_eq_zero_of_not_mem hnot] at hcount
    exact List.count_eq_zero.mp (by omega)
  obtain ⟨rfl, rfl⟩ := append_cons_inj_of_notMem (by simp) hbefore h
  exact ⟨rfl, rfl, rfl⟩

end ScopeLog

end Logs

section Moves

namespace LockState

/-- The state with a new lease of the key, in the lease's context. -/
def holding (s : LockState) (key : GoString) : LockState :=
  { s with
    locks := s.locks.insert key s.nextLease
    context := .lease s.nextLease
    nextLease := s.nextLease + 1
    log := s.log ++ [.asked key, .acquired s.nextLease key, .setContext (.lease s.nextLease)] }

/-- What one call does to a state in which no callback is running. -/
inductive Move (s : LockState) : LockState → Prop
  | refused {key : GoString} (hkey : s.locks.lookup key = none) : Move s (s.emit [.asked key])
  | locked {key : GoString} (hkey : s.locks.lookup key = none) : Move s (s.holding key)
  | enclosed {key : GoString} {inner : List LockEvent} (hkey : s.locks.lookup key = none)
    (hinner : Nested inner) :
    Move s
      { s with
        nextLease := s.nextLease + 1
        log := s.log ++ scopeLog key s.nextLease s.context inner }
  | reentered {inner : List LockEvent} (hinner : Nested inner) :
    Move s (s.emit (.began none :: inner ++ [.ended none]))

variable {s : LockState} {callback : LockState → LockState × Bool}

theorem emit_nil (s : LockState) : s.emit [] = s := by
  rw [emit, List.append_nil]

theorem emit_emit (s : LockState) (a b : List LockEvent) : (s.emit a).emit b = s.emit (a ++ b) := by
  rw [emit, emit, emit, List.append_assoc]

/-- A callback that keeps to what it may do inside a callback. -/
def NestedOnly (callback : LockState → LockState × Bool) : Prop :=
  ∀ t : LockState, 0 < t.scopedDepth → ∃ inner, Nested inner ∧ (callback t).1 = t.emit inner

theorem enter_leave (s : LockState) (own : Option ℕ) (inner : List LockEvent) :
    ((s.enter own).emit inner).leave own = s.emit (.began own :: inner ++ [.ended own]) := by
  simp [enter, leave, emit]

theorem lock_nested (hdepth : 0 < s.scopedDepth) (key : GoString) (granted : Bool) :
    (s.lock key granted).1 = s := by
  unfold lock
  rw [if_pos hdepth]
  split_ifs <;> rfl

theorem withLock_nested (hdepth : 0 < s.scopedDepth) (hcallback : NestedOnly callback)
    (key : GoString) (granted releases : Bool) :
    ∃ inner, Nested inner ∧ (s.withLock key granted releases callback).1 = s.emit inner := by
  unfold withLock
  cases s.locks.lookup key with
  | none => exact ⟨[], nested_nil, by simp [hdepth, emit_nil]⟩
  | some lease =>
    obtain ⟨inner, hinner, hcall⟩ := hcallback (s.enter none) (Nat.succ_pos _)
    refine ⟨_, hinner.bracket, ?_⟩
    dsimp only
    rw [hcall, enter_leave]

theorem lock_move (hdepth : s.scopedDepth = 0) (key : GoString) (granted : Bool) :
    (s.lock key granted).1 = s ∨ Move s (s.lock key granted).1 := by
  cases hkey : s.locks.lookup key with
  | some lease => exact Or.inl (by simp [lock, hkey])
  | none =>
    right
    cases granted with
    | false =>
      have hrefused := Move.refused hkey
      simpa [lock, hkey, hdepth, acquireLock] using hrefused
    | true =>
      have hlocked := Move.locked hkey
      simpa [lock, hkey, hdepth, acquireLock, setContext, emit, holding] using hlocked

theorem withLock_granted (hdepth : s.scopedDepth = 0) {key : GoString}
    (hkey : s.locks.lookup key = none) (releases : Bool)
    (callback : LockState → LockState × Bool) {t : LockState}
    (ht : (callback ((s.holding key).enter (some s.nextLease))).1 = t) :
    (s.withLock key true releases callback).1 =
      ({ (t.leave (some s.nextLease)).emit [.released s.nextLease] with
          locks := t.locks.erase key } : LockState).setContext s.context := by
  have hholding : ({ s.emit [.asked key, .acquired s.nextLease key] with
      nextLease := s.nextLease + 1
      locks := s.locks.insert key s.nextLease } : LockState).setContext (.lease s.nextLease) =
        s.holding key := by
    simp [emit, setContext, holding]
  unfold withLock
  rw [hkey, ← ht, ← hholding]
  simp [hdepth, acquireLock, leave, emit]

theorem erase_insert_locks (s : LockState) {key : GoString} (hkey : s.locks.lookup key = none)
    (lease : ℕ) : (s.locks.insert key lease).erase key = s.locks := by
  apply Finmap.ext_lookup
  intro k
  rw [GoMap.lookup_erase_ite, GoMap.lookup_insert_ite]
  split_ifs with hk
  · rw [hk, hkey]
  · rfl

theorem withLock_move (hdepth : s.scopedDepth = 0) (hcallback : NestedOnly callback)
    (key : GoString) (granted releases : Bool) :
    Move s (s.withLock key granted releases callback).1 := by
  cases hkey : s.locks.lookup key with
  | some lease =>
    obtain ⟨inner, hinner, hcall⟩ := hcallback (s.enter none) (Nat.succ_pos _)
    have hreentered := Move.reentered (s := s) hinner
    rw [← enter_leave, ← hcall] at hreentered
    simpa [withLock, hkey] using hreentered
  | none =>
    cases granted with
    | false =>
      have hrefused := Move.refused hkey
      simpa [withLock, hkey, hdepth, acquireLock] using hrefused
    | true =>
      obtain ⟨inner, hinner, hcall⟩ :=
        hcallback ((s.holding key).enter (some s.nextLease)) (Nat.succ_pos _)
      have henclosed := Move.enclosed hkey hinner
      rw [withLock_granted hdepth hkey releases callback hcall]
      simpa [enter, leave, emit, holding, setContext, s.erase_insert_locks hkey, scopeLog]
        using henclosed

theorem Move.scopedDepth {t : LockState} (h : Move s t) : t.scopedDepth = s.scopedDepth := by
  cases h <;> rfl

end LockState

end Moves

section Run

open LockState Relation

namespace LockScript

theorem andThen_nested {t : LockState} {result : LockState × Bool}
    {next : LockState → LockState × Bool} {inner : List LockEvent} (hnext : NestedOnly next)
    (ht : 0 < t.scopedDepth) (hinner : Nested inner) (hresult : result.1 = t.emit inner) :
    ∃ inner', Nested inner' ∧ (andThen result next).1 = t.emit inner' := by
  unfold andThen
  split_ifs
  · obtain ⟨rest, hrest, hlog⟩ := hnext (t.emit inner) ht
    refine ⟨inner ++ rest, hinner.append hrest, ?_⟩
    rw [hresult, hlog, emit_emit]
  · exact ⟨inner, hinner, hresult⟩

/-- Inside a callback nothing is asked of the cache. -/
theorem run_nested (script : LockScript) : NestedOnly script.run := by
  induction script with
  | done => exact fun t _ => ⟨[], nested_nil, (t.emit_nil).symm⟩
  | raise => exact fun t _ => ⟨[], nested_nil, (t.emit_nil).symm⟩
  | lock key granted next ih =>
    intro t ht
    have hlock := (lock_nested ht key granted).trans (t.emit_nil).symm
    exact andThen_nested ih ht nested_nil hlock
  | withLock key granted releases callback next ihc ihn =>
    intro t ht
    obtain ⟨inner, hinner, hcall⟩ := withLock_nested ht ihc key granted releases
    exact andThen_nested ihn ht hinner hcall
  | pcall body next ihb ihn =>
    intro t ht
    obtain ⟨inner, hinner, hbody⟩ := ihb t ht
    obtain ⟨rest, hrest, hnext⟩ := ihn (t.emit inner) ht
    refine ⟨inner ++ rest, hinner.append hrest, ?_⟩
    rw [run, hbody, hnext, emit_emit]

theorem moves_scopedDepth {s t : LockState} (hs : s.scopedDepth = 0) (h : ReflTransGen Move s t) :
    t.scopedDepth = 0 := by
  induction h with
  | refl => exact hs
  | tail _ hmove ih => rw [hmove.scopedDepth, ih]

/-- Outside callbacks a script makes such moves and no others. -/
theorem run_moves (script : LockScript) {s : LockState} (hdepth : s.scopedDepth = 0) :
    ReflTransGen Move s (script.run s).1 := by
  induction script generalizing s with
  | done => exact .refl
  | raise => exact .refl
  | lock key granted next ih =>
    have hlock : ReflTransGen Move s (s.lock key granted).1 := by
      rcases lock_move hdepth key granted with hsame | hmove
      · rw [hsame]
      · exact .single hmove
    rw [run, andThen]
    split_ifs
    · exact hlock.trans (ih (moves_scopedDepth hdepth hlock))
    · exact hlock
  | withLock key granted releases callback next _ ihn =>
    have hcall := withLock_move hdepth callback.run_nested key granted releases
    rw [run, andThen]
    split_ifs
    · exact ReflTransGen.head hcall (ihn (moves_scopedDepth hdepth (.single hcall)))
    · exact .single hcall
  | pcall body next ihb ihn =>
    have hbody := ihb hdepth
    exact hbody.trans (ihn (moves_scopedDepth hdepth hbody))

end LockScript

/-- What holds whenever no callback is running. -/
structure Disciplined (s : LockState) : Prop where
  context : contextAfter .execution s.log = s.context
  held : ∀ key id, s.locks.lookup key = some id ↔
    .acquired id key ∈ s.log ∧ .released id ∉ s.log
  acquired_lt : ∀ id key, .acquired id key ∈ s.log → id < s.nextLease
  released_lt : ∀ id, .released id ∈ s.log → id < s.nextLease
  idle : Idle s.log
  allowed : ObeysFrom Allowed [] s.log
  closed : ScopesClose s.log

theorem disciplined_start : Disciplined .start where
  context := rfl
  held key id := by simp [start]
  acquired_lt := nofun
  released_lt := nofun
  idle := rfl
  allowed := trivial
  closed before id after h := by simp [start] at h

theorem ScopesClose.append {log new : List LockEvent} (h : ScopesClose log)
    (hnew : ∀ (before : List LockEvent) (id : ℕ) (after : List LockEvent),
      new = before ++ LockEvent.began (some id) :: after →
      ∃ (past : List LockEvent) (key : GoString) (inner rest : List LockEvent),
        log ++ before = past ++ [.asked key, .acquired id key, .setContext (.lease id)] ∧
        after = inner ++ .ended (some id) :: .released id ::
          .setContext (contextAfter .execution past) :: rest ∧ Idle inner) :
    ScopesClose (log ++ new) := by
  intro before id after hsplit
  rcases List.append_eq_append_iff.mp hsplit with ⟨c, rfl, hc⟩ | ⟨c, hlog, hc⟩
  · exact hnew c id after hc
  · cases c with
    | nil =>
      rw [List.append_nil] at hlog
      subst hlog
      simpa using hnew [] id after hc.symm
    | cons e c =>
      obtain ⟨rfl, rfl⟩ := List.cons.inj hc
      obtain ⟨past, key, inner, rest, hpast, rfl, hidle⟩ := h before id c hlog
      exact ⟨past, key, inner, rest ++ new, hpast, by simp, hidle⟩

theorem ScopesClose.append_of_notMem {log new : List LockEvent} (h : ScopesClose log)
    (hnew : ∀ id, .began (some id) ∉ new) : ScopesClose (log ++ new) := by
  apply h.append
  rintro before id after rfl
  exact absurd (by simp) (hnew id)

namespace Disciplined

variable {s t : LockState} {key : GoString} {inner : List LockEvent}

theorem unheld (h : Disciplined s) (hkey : s.locks.lookup key = none) : Unheld s.log key := by
  intro id hid
  by_contra hreleased
  have hsome := (h.held key id).mpr ⟨hid, hreleased⟩
  rw [hkey] at hsome
  cases hsome

theorem refused (h : Disciplined s) (hkey : s.locks.lookup key = none) :
    Disciplined (s.emit [.asked key]) where
  context := by rw [emit, contextAfter_append, h.context]; rfl
  held key' id := by simpa [emit] using h.held key' id
  acquired_lt id key' hid := h.acquired_lt id key' (by simpa [emit] using hid)
  released_lt id hid := h.released_lt id (by simpa [emit] using hid)
  idle := h.idle.append rfl
  allowed := obeysFrom_append.mpr ⟨h.allowed, h.unheld hkey, trivial⟩
  closed := h.closed.append_of_notMem (by simp)

theorem reentered (h : Disciplined s) (hinner : Nested inner) :
    Disciplined (s.emit (.began none :: inner ++ [.ended none])) := by
  have hnested := hinner.bracket
  generalize .began none :: inner ++ [.ended none] = new at hnested ⊢
  have hacquired : ∀ id key, .acquired id key ∉ new := fun id key => hnested.notMem nofun nofun
  have hreleased : ∀ id, .released id ∉ new := fun id => hnested.notMem nofun nofun
  have hevents : ∀ e ∈ new, ∀ past, Allowed past e := by
    intro e he past
    rcases hnested.1 e he with rfl | rfl
    all_goals trivial
  constructor
  case context => rw [emit, contextAfter_append, h.context, hnested.contextAfter]
  case held => intro key id; simpa [emit, hacquired, hreleased] using h.held key id
  case acquired_lt =>
    intro id key hid
    exact h.acquired_lt id key (by simpa [emit, hacquired] using hid)
  case released_lt => intro id hid; exact h.released_lt id (by simpa [emit, hreleased] using hid)
  case idle => exact h.idle.append hnested.2
  case allowed => exact obeysFrom_append.mpr ⟨h.allowed, obeysFrom_of_forall hevents⟩
  case closed => exact h.closed.append_of_notMem fun id => hnested.notMem nofun nofun

theorem not_released_next (h : Disciplined s) : .released s.nextLease ∉ s.log :=
  fun hmem => lt_irrefl _ (h.released_lt _ hmem)

theorem not_acquired_next (h : Disciplined s) (key : GoString) :
    .acquired s.nextLease key ∉ s.log :=
  fun hmem => lt_irrefl _ (h.acquired_lt _ _ hmem)

theorem locked (h : Disciplined s) (hkey : s.locks.lookup key = none) :
    Disciplined (s.holding key) := by
  constructor
  case context => rw [holding, contextAfter_append]; rfl
  case held =>
    intro key' id
    have hheld := h.held key' id
    have hnext := h.not_released_next
    simp only [holding, GoMap.lookup_insert_ite, List.mem_append, List.mem_cons,
      LockEvent.acquired.injEq, reduceCtorEq, List.not_mem_nil, or_false, false_or]
    by_cases hkey' : key' = key
    · subst hkey'
      rw [hkey] at hheld
      by_cases hid : id = s.nextLease
      · simp [hid, hnext]
      · simpa [hid, Ne.symm hid] using hheld
    · simpa [hkey'] using hheld
  case acquired_lt =>
    intro id key' hid
    simp only [holding, List.mem_append, List.mem_cons, LockEvent.acquired.injEq, reduceCtorEq,
      List.not_mem_nil, or_false, false_or] at hid ⊢
    rcases hid with hid | ⟨rfl, -⟩
    · exact (h.acquired_lt id key' hid).trans (Nat.lt_succ_self _)
    · exact Nat.lt_succ_self _
  case released_lt =>
    intro id hid
    have hold : .released id ∈ s.log := by simpa [holding] using hid
    exact (h.released_lt id hold).trans (Nat.lt_succ_self _)
  case idle => exact h.idle.append rfl
  case allowed =>
    exact obeysFrom_append.mpr ⟨h.allowed, h.unheld hkey, h.idle.append rfl, trivial, trivial⟩
  case closed => exact h.closed.append_of_notMem (by simp)

theorem enclosed (h : Disciplined s) (hkey : s.locks.lookup key = none) (hinner : Nested inner) :
    Disciplined
      { s with
        nextLease := s.nextLease + 1
        log := s.log ++ scopeLog key s.nextLease s.context inner } := by
  constructor
  case context => exact (contextAfter_append ..).trans (contextAfter_scopeLog _)
  case held =>
    intro key' id
    have hheld := h.held key' id
    have hnext := h.not_acquired_next key'
    simp only [List.mem_append, acquired_mem_scopeLog hinner, released_mem_scopeLog hinner]
    by_cases hid : id = s.nextLease
    · subst hid
      simpa [hnext] using hheld
    · simpa [hid] using hheld
  case acquired_lt =>
    intro id key' hid
    rcases List.mem_append.mp hid with hid | hid
    · exact (h.acquired_lt id key' hid).trans (Nat.lt_succ_self _)
    · exact ((acquired_mem_scopeLog hinner).mp hid).1 ▸ Nat.lt_succ_self _
  case released_lt =>
    intro id hid
    rcases List.mem_append.mp hid with hid | hid
    · exact (h.released_lt id hid).trans (Nat.lt_succ_self _)
    · exact (released_mem_scopeLog hinner).mp hid ▸ Nat.lt_succ_self _
  case idle => exact h.idle.append (idle_scopeLog hinner)
  case allowed =>
    exact obeysFrom_append.mpr ⟨h.allowed, obeysFrom_scopeLog hinner (h.unheld hkey) h.idle⟩
  case closed =>
    apply h.closed.append
    intro before id after hsplit
    obtain ⟨rfl, rfl, rfl⟩ := scopeLog_split hinner hsplit
    exact ⟨s.log, key, inner, [], rfl, by rw [h.context], hinner.2⟩

theorem move (h : Disciplined s) (hmove : Move s t) : Disciplined t := by
  cases hmove with
  | refused hkey => exact h.refused hkey
  | locked hkey => exact h.locked hkey
  | enclosed hkey hinner => exact h.enclosed hkey hinner
  | reentered hinner => exact h.reentered hinner

theorem moves (h : Disciplined s) (hmoves : ReflTransGen Move s t) : Disciplined t := by
  induction hmoves with
  | refl => exact h
  | tail _ hmove ih => exact ih.move hmove

theorem released_of_acquired (h : Disciplined s) (order : RangeOrder GoString) {id : ℕ}
    (hid : .acquired id key ∈ (s.releaseLocks order).log) :
    .released id ∈ (s.releaseLocks order).log := by
  have hold : .acquired id key ∈ s.log := by simpa [releaseLocks, emit] using hid
  by_cases hreleased : .released id ∈ s.log
  · exact List.mem_append_left _ hreleased
  · have hlookup := (h.held key id).mpr ⟨hold, hreleased⟩
    have hkey : key ∈ order.keys s.locks.keys := by
      rw [RangeOrder.mem_keys, Finmap.mem_keys]
      exact Finmap.mem_of_lookup_eq_some hlookup
    apply List.mem_append_right
    exact List.mem_filterMap.mpr ⟨key, hkey, by rw [hlookup]; rfl⟩

end Disciplined

end Run

/-- Whatever a script does: the cache is never asked for a key whose lease is held, the lease
of a `withLock` is released and the context restored when its callback ends, no lease is
acquired while a callback is running, and every lease is released when `Execute` returns. -/
theorem script_lock_discipline (order : RangeOrder GoString) (script : LockScript) :
    (∀ before key after, (execute order script).log = before ++ .asked key :: after →
      Unheld before key) ∧
    ScopesClose (execute order script).log ∧
    (∀ before id key after, (execute order script).log = before ++ .acquired id key :: after →
      Idle before) ∧
    ∀ id key, .acquired id key ∈ (execute order script).log →
      .released id ∈ (execute order script).log := by
  have hrun := disciplined_start.moves (script.run_moves rfl)
  have hevents : ∀ e ∈ ((order.keys (script.run .start).1.locks.keys).filterMap fun key =>
      ((script.run .start).1.locks.lookup key).map LockEvent.released), ∃ id, e = .released id := by
    intro e he
    obtain ⟨key, -, hkey⟩ := List.mem_filterMap.mp he
    obtain ⟨id, -, rfl⟩ := Option.map_eq_some_iff.mp hkey
    exact ⟨id, rfl⟩
  have hallowed : ObeysFrom Allowed [] (execute order script).log := by
    refine obeysFrom_append.mpr ⟨hrun.allowed, obeysFrom_of_forall ?_⟩
    intro e he past
    obtain ⟨id, rfl⟩ := hevents e he
    trivial
  refine ⟨?_, ?_, ?_, ?_⟩
  · intro before key after hlog
    exact ObeysFrom.at (hlog ▸ hallowed)
  · apply hrun.closed.append_of_notMem
    intro id hid
    obtain ⟨id', hid'⟩ := hevents _ hid
    cases hid'
  · intro before id key after hlog
    exact ObeysFrom.at (hlog ▸ hallowed)
  · exact fun id key => hrun.released_of_acquired order

/-- In the callback the lock that is held is entered and another one refused; the error is
caught, and the second lock is released after the error that ends the script. -/
example :
    (execute (.sorted (· ≤ ·))
      (.pcall (.withLock (lit "a") true true (.lock (lit "a") true (.lock (lit "b") true .done))
        .done) (.lock (lit "b") true .raise))).log =
      [.asked (lit "a"), .acquired 0 (lit "a"), .setContext (.lease 0), .began (some 0),
        .ended (some 0), .released 0, .setContext .execution,
        .asked (lit "b"), .acquired 1 (lit "b"), .setContext (.lease 1), .released 1] := by
  decide +kernel

end Musgos.Outbound
