import Musgos.Outbound.ScriptLocks

/-!
# Locks that are to last until the script ends

`mus.cache.lock` does nothing if the key is in the map of leases already. It does not matter to
it how the lease got there: one that an enclosing `withLock` has acquired is released when the
callback ends, and with it what `lock` has promised. For every call that returns the log at
that moment is kept, and compared with the logs from there to the end of the script.
-/
namespace Musgos.Outbound

open Foundation Relation

namespace LockState

/-- The state in which `withLock` calls its callback, if it does. -/
def callbackStart (s : LockState) (key : GoString) (granted : Bool) : Option LockState :=
  if (s.locks.lookup key).isSome then some (s.enter none)
  else if s.scopedDepth > 0 then none
  else if granted then some ((s.holding key).enter (some s.nextLease))
  else none

variable {s t : LockState} {key : GoString} {granted : Bool}

theorem callbackStart_of_held {id : ℕ} (hkey : s.locks.lookup key = some id) :
    s.callbackStart key granted = some (s.enter none) := by
  simp [callbackStart, hkey]

/-- A key that is not held starts a callback with a new lease, outside of callbacks only. -/
theorem callbackStart_of_free (hkey : s.locks.lookup key = none)
    (h : s.callbackStart key granted = some t) :
    s.scopedDepth = 0 ∧ granted = true ∧ t = (s.holding key).enter (some s.nextLease) := by
  rw [callbackStart, hkey] at h
  split_ifs at h with hsome hdepth hgranted
  · cases hsome
  · exact ⟨Nat.eq_zero_of_not_pos hdepth, hgranted, (Option.some.inj h).symm⟩

/-- `withLock` calls its callback in this state, and goes on after what it has logged. -/
theorem withLock_log_extends (releases : Bool) (callback : LockState → LockState × Bool)
    (h : s.callbackStart key granted = some t) :
    (callback t).1.log <+: (s.withLock key granted releases callback).1.log := by
  cases hkey : s.locks.lookup key with
  | some id =>
    obtain rfl := Option.some.inj ((callbackStart_of_held hkey).symm.trans h)
    simp [withLock, hkey, leave, emit]
  | none =>
    obtain ⟨hdepth, rfl, rfl⟩ := callbackStart_of_free hkey h
    rw [withLock_granted hdepth hkey releases callback rfl]
    simp [setContext, leave, emit]

end LockState

/-- The calls of `mus.cache.lock` that return without an error: the log at that moment and the
key. -/
def LockScript.returns : LockScript → LockState → List (List LockEvent × GoString)
  | .done, _ => []
  | .raise, _ => []
  | .lock key granted next, s =>
    let result := s.lock key granted
    if result.2 then (result.1.log, key) :: next.returns result.1 else []
  | .withLock key granted releases callback next, s =>
    let result := s.withLock key granted releases callback.run
    (s.callbackStart key granted).elim [] callback.returns ++
      if result.2 then next.returns result.1 else []
  | .pcall body next, s => body.returns s ++ next.returns (body.run s).1

/-- The lease of the key that is held was acquired for a callback of `withLock`. -/
def ScopedLease (log : List LockEvent) (key : GoString) : Prop :=
  ∃ id, .acquired id key ∈ log ∧ .released id ∉ log ∧ .began (some id) ∈ log

section Prefixes

open LockState LockScript

variable {s t : LockState}

theorem LockState.Move.log_extends (h : Move s t) : s.log <+: t.log := by
  cases h <;> exact List.prefix_append _ _

theorem moves_log_extends (h : ReflTransGen Move s t) : s.log <+: t.log := by
  induction h with
  | refl => exact List.prefix_rfl
  | tail _ hmove ih => exact ih.trans hmove.log_extends

theorem run_log_extends (script : LockScript) (s : LockState) : s.log <+: (script.run s).1.log := by
  rcases Nat.eq_zero_or_pos s.scopedDepth with hdepth | hdepth
  · exact moves_log_extends (script.run_moves hdepth)
  · obtain ⟨inner, -, hlog⟩ := script.run_nested s hdepth
    rw [hlog]
    exact List.prefix_append _ _

theorem LockState.Move.lookup {key : GoString} {id : ℕ} (h : Move s t)
    (hkey : s.locks.lookup key = some id) : t.locks.lookup key = some id := by
  cases h with
  | refused _ => exact hkey
  | locked hfree =>
    rename_i key'
    have hne : key ≠ key' := by
      rintro rfl
      cases hkey.symm.trans hfree
    rw [holding, GoMap.lookup_insert_ite, if_neg hne, hkey]
  | enclosed _ _ => exact hkey
  | reentered _ => exact hkey

/-- Outside callbacks a lease stays in the map. -/
theorem moves_lookup {key : GoString} {id : ℕ} (h : ReflTransGen Move s t)
    (hkey : s.locks.lookup key = some id) : t.locks.lookup key = some id := by
  induction h with
  | refl => exact hkey
  | tail _ hmove ih => exact hmove.lookup ih

end Prefixes

section Returns

open LockState LockScript

variable {s : LockState} {past : List LockEvent} {key key' : GoString} {granted releases : Bool}
  {callback next : LockScript}

theorem mem_returns_lock (h : (past, key) ∈ (LockScript.lock key' granted next).returns s) :
    (s.lock key' granted).2 = true ∧
      ((past = (s.lock key' granted).1.log ∧ key = key') ∨
        (past, key) ∈ next.returns (s.lock key' granted).1) := by
  rw [returns] at h
  split_ifs at h with hreturned
  · refine ⟨hreturned, ?_⟩
    rcases List.mem_cons.mp h with h | h
    · exact .inl (Prod.mk.inj h)
    · exact .inr h
  · cases h

theorem mem_returns_withLock
    (h : (past, key) ∈ (LockScript.withLock key' granted releases callback next).returns s) :
    (∃ t, s.callbackStart key' granted = some t ∧ (past, key) ∈ callback.returns t) ∨
      ((s.withLock key' granted releases callback.run).2 = true ∧
        (past, key) ∈ next.returns (s.withLock key' granted releases callback.run).1) := by
  rw [returns] at h
  rcases List.mem_append.mp h with h | h
  · cases hstart : s.callbackStart key' granted with
    | none =>
      rw [hstart] at h
      cases h
    | some t =>
      rw [hstart] at h
      exact .inl ⟨t, rfl, h⟩
  · split_ifs at h with hreturned
    · exact .inr ⟨hreturned, h⟩
    · cases h

/-- `lock` returns only with the key in the map. -/
theorem lookup_of_lock (h : (s.lock key granted).2 = true) :
    ∃ id, (s.lock key granted).1.locks.lookup key = some id := by
  cases hkey : s.locks.lookup key with
  | some id => exact ⟨id, by simp [LockState.lock, hkey]⟩
  | none =>
    unfold LockState.lock at h ⊢
    rw [hkey] at h ⊢
    by_cases hdepth : s.scopedDepth > 0
    · simp [hdepth] at h
    · cases granted with
      | false => simp [hdepth, acquireLock] at h
      | true => exact ⟨s.nextLease, by simp [hdepth, acquireLock, setContext, emit]⟩

end Returns

section Nested

open LockState LockScript

variable {t : LockState} {past : List LockEvent} {key : GoString}

theorem andThen_log_extends (result : LockState × Bool) (next : LockScript) :
    result.1.log <+: (andThen result next.run).1.log := by
  unfold andThen
  split_ifs
  · exact run_log_extends next result.1
  · exact List.prefix_rfl

/-- Inside a callback `lock` returns only for a key that is in the map. -/
theorem returns_nested (script : LockScript) (ht : 0 < t.scopedDepth)
    (h : (past, key) ∈ script.returns t) :
    t.log <+: past ∧ past <+: (script.run t).1.log ∧ ∃ id, t.locks.lookup key = some id := by
  induction script generalizing t with
  | done => cases h
  | raise => cases h
  | lock key' granted next ih =>
    obtain ⟨hreturned, hmem⟩ := mem_returns_lock h
    have hsame := lock_nested ht key' granted
    rw [run, andThen, if_pos hreturned, hsame]
    rcases hmem with ⟨rfl, rfl⟩ | hmem
    · have hkey := lookup_of_lock hreturned
      rw [hsame] at hkey ⊢
      exact ⟨List.prefix_rfl, run_log_extends next t, hkey⟩
    · rw [hsame] at hmem
      exact ih ht hmem
  | withLock key' granted releases callback next ihc ihn =>
    obtain ⟨inner, -, hlog⟩ := withLock_nested ht callback.run_nested key' granted releases
    rcases mem_returns_withLock h with ⟨t', hstart, hmem⟩ | ⟨hreturned, hmem⟩
    · cases hkey' : t.locks.lookup key' with
      | none => exact absurd (callbackStart_of_free hkey' hstart).1 (Nat.ne_of_gt ht)
      | some id =>
        obtain rfl := Option.some.inj ((callbackStart_of_held hkey').symm.trans hstart)
        obtain ⟨hbefore, hafter, hkey⟩ := ihc (Nat.succ_pos _) hmem
        refine ⟨(List.prefix_append _ _).trans hbefore, ?_, hkey⟩
        exact (hafter.trans (withLock_log_extends releases callback.run hstart)).trans
          (andThen_log_extends _ next)
    · rw [hlog] at hmem
      obtain ⟨hbefore, hafter, hkey⟩ := ihn (t := t.emit inner) ht hmem
      rw [run, andThen, if_pos hreturned, hlog]
      exact ⟨(List.prefix_append _ _).trans hbefore, hafter, hkey⟩
  | pcall body next ihb ihn =>
    rcases List.mem_append.mp h with hmem | hmem
    · obtain ⟨hbefore, hafter, hkey⟩ := ihb ht hmem
      exact ⟨hbefore, hafter.trans (run_log_extends next _), hkey⟩
    · obtain ⟨inner, -, hlog⟩ := body.run_nested t ht
      rw [hlog] at hmem
      obtain ⟨hbefore, hafter, hkey⟩ := ihn (t := t.emit inner) ht hmem
      rw [run, hlog]
      exact ⟨(List.prefix_append _ _).trans hbefore, hafter, hkey⟩

end Nested

section Fate

open LockState LockScript

variable {s t : LockState} {past : List LockEvent} {key : GoString}

/-- What becomes of the lease that `lock` has relied on, up to a state outside of callbacks: if
it was acquired for a callback the key is free at some moment, otherwise it stays in the
map. -/
structure Fate (past : List LockEvent) (key : GoString) (t : LockState) : Prop where
  within : past <+: t.log
  lost : ScopedLease past key → ∃ later, past <+: later ∧ later <+: t.log ∧ Unheld later key
  kept : ¬ ScopedLease past key → ∃ id, .acquired id key ∈ past ∧ t.locks.lookup key = some id

theorem Fate.moves (h : Fate past key s) (hmoves : ReflTransGen Move s t) : Fate past key t where
  within := h.within.trans (moves_log_extends hmoves)
  lost hscoped := by
    obtain ⟨later, hpast, hlater, hunheld⟩ := h.lost hscoped
    exact ⟨later, hpast, hlater.trans (moves_log_extends hmoves), hunheld⟩
  kept hnot := by
    obtain ⟨id, hid, hlookup⟩ := h.kept hnot
    exact ⟨id, hid, moves_lookup hmoves hlookup⟩

theorem Disciplined.released_of_began (h : Disciplined s) {id : ℕ}
    (hid : .began (some id) ∈ s.log) : .released id ∈ s.log := by
  obtain ⟨before, after, hlog⟩ := List.append_of_mem hid
  obtain ⟨past, key, inner, rest, -, hafter, -⟩ := h.closed before id after hlog
  rw [hlog, hafter]
  simp

/-- While a callback is running its lease is the only one that was acquired for one. -/
theorem Disciplined.not_scopedLease (h : Disciplined s) {new : List LockEvent}
    (hacquired : ∀ id, .acquired id key ∉ new)
    (hbegan : ∀ id, .began (some id) ∈ new → s.nextLease ≤ id) :
    ¬ ScopedLease (s.log ++ new) key := by
  rintro ⟨id, hid, hreleased, hown⟩
  have hid : .acquired id key ∈ s.log := (List.mem_append.mp hid).resolve_right (hacquired id)
  rcases List.mem_append.mp hown with hown | hown
  · exact hreleased (List.mem_append_left _ (h.released_of_began hown))
  · exact absurd (h.acquired_lt id key hid) (Nat.not_lt.mpr (hbegan id hown))

/-- A lease that is in the map outside of callbacks, relied on there or in a callback. -/
theorem Disciplined.fate (h : Disciplined s) {id : ℕ} (hkey : s.locks.lookup key = some id)
    {new : List LockEvent} (hacquired : ∀ id, .acquired id key ∉ new)
    (hbegan : ∀ id, .began (some id) ∈ new → s.nextLease ≤ id) (hmoves : ReflTransGen Move s t)
    (hwithin : s.log ++ new <+: t.log) : Fate (s.log ++ new) key t where
  within := hwithin
  lost hscoped := absurd hscoped (h.not_scopedLease hacquired hbegan)
  kept _ :=
    ⟨id, List.mem_append_left _ ((h.held key id).mp hkey).1, moves_lookup hmoves hkey⟩

/-- A moment inside a callback, by what was logged before it and since. -/
theorem exists_inner {script : LockScript} (ht : 0 < t.scopedDepth) (hbefore : t.log <+: past)
    (hafter : past <+: (script.run t).1.log) :
    ∃ inner, past = t.log ++ inner ∧ ∀ e ∈ inner, e = LockEvent.began none ∨ e = .ended none := by
  obtain ⟨inner, hnested, hlog⟩ := script.run_nested t ht
  obtain ⟨first, rfl⟩ := hbefore
  refine ⟨first, rfl, fun e he => hnested.1 e ?_⟩
  rw [hlog, emit, List.prefix_append_right_inj] at hafter
  exact hafter.subset he

/-- A lock that is held is entered and left. -/
theorem Disciplined.fate_reentered (h : Disciplined s) {callback : LockScript}
    (hkey : ∃ id, s.locks.lookup key = some id) (hbefore : (s.enter none).log <+: past)
    (hafter : past <+: (callback.run (s.enter none)).1.log) (hmoves : ReflTransGen Move s t)
    (hwithin : past <+: t.log) : Fate past key t := by
  obtain ⟨id, hkey⟩ := hkey
  obtain ⟨inner, rfl, hinner⟩ := exists_inner (Nat.succ_pos _) hbefore hafter
  have hevents : ∀ e ∈ [LockEvent.began none] ++ inner, e = .began none ∨ e = .ended none :=
    List.forall_mem_append.mpr ⟨by simp, hinner⟩
  have hlog : (s.enter none).log ++ inner = s.log ++ ([.began none] ++ inner) :=
    List.append_assoc ..
  rw [hlog] at hwithin ⊢
  refine h.fate hkey (fun id hid => ?_) (fun id hid => ?_) hmoves hwithin
  · rcases hevents _ hid with he | he <;> cases he
  · rcases hevents _ hid with he | he <;> cases he

/-- The callback of a `withLock` that has acquired a lease for it. -/
theorem Disciplined.fate_enclosed (h : Disciplined s) {callback : LockScript} {own : GoString}
    (hown : s.locks.lookup own = none)
    (hkey : ∃ id, ((s.holding own).enter (some s.nextLease)).locks.lookup key = some id)
    (hbefore : ((s.holding own).enter (some s.nextLease)).log <+: past)
    (hafter : past <+: (callback.run ((s.holding own).enter (some s.nextLease))).1.log)
    (hmove : Move s t) (hlocks : t.locks = s.locks) (hwithin : past <+: t.log) :
    Fate past key t := by
  obtain ⟨inner, rfl, hinner⟩ := exists_inner (Nat.succ_pos _) hbefore hafter
  have hnot : ∀ e, e ≠ LockEvent.began none → e ≠ .ended none → e ∉ inner := by
    intro e hbegan hended he
    rcases hinner e he with rfl | rfl
    · exact hbegan rfl
    · exact hended rfl
  have hlog : ((s.holding own).enter (some s.nextLease)).log ++ inner =
      s.log ++ ([.asked own, .acquired s.nextLease own, .setContext (.lease s.nextLease),
        .began (some s.nextLease)] ++ inner) := by
    simp [holding, enter, emit]
  rw [hlog] at hwithin ⊢
  by_cases hsame : key = own
  · subst hsame
    refine ⟨hwithin, fun _ => ⟨t.log, hwithin, List.prefix_rfl, ?_⟩, fun hscoped => ?_⟩
    · exact (h.move hmove).unheld (by rw [hlocks, hown])
    · refine absurd ⟨s.nextLease, by simp, ?_, by simp⟩ hscoped
      have hinner := hnot (.released s.nextLease) (by simp) (by simp)
      simp [h.not_released_next, hinner]
  · obtain ⟨id, hkey⟩ := hkey
    have hkey : s.locks.lookup key = some id := by
      simpa [holding, enter, emit, hsame] using hkey
    refine h.fate hkey (fun id hid => ?_) (fun id hid => ?_) (.single hmove) hwithin
    · have hinner := hnot (.acquired id key) (by simp) (by simp)
      simp [hinner, hsame] at hid
    · have hinner := hnot (.began (some id)) (by simp) (by simp)
      simp only [List.mem_append, hinner, or_false, List.mem_cons, reduceCtorEq, false_or,
        LockEvent.began.injEq, Option.some.injEq, List.not_mem_nil] at hid
      exact hid.ge

theorem withLock_locks (hdepth : s.scopedDepth = 0) (hkey : s.locks.lookup key = none)
    (releases : Bool) (callback : LockScript) :
    (s.withLock key true releases callback.run).1.locks = s.locks := by
  obtain ⟨inner, -, hcall⟩ :=
    callback.run_nested ((s.holding key).enter (some s.nextLease)) (Nat.succ_pos _)
  rw [withLock_granted hdepth hkey releases callback.run hcall]
  exact s.erase_insert_locks hkey s.nextLease

/-- The callback of `withLock`, outside of other callbacks. -/
theorem Disciplined.fate_withLock (h : Disciplined s) (hdepth : s.scopedDepth = 0)
    {callback : LockScript} {own : GoString} {granted : Bool} (releases : Bool) {t : LockState}
    (hstart : s.callbackStart own granted = some t) (hmem : (past, key) ∈ callback.returns t) :
    Fate past key (s.withLock own granted releases callback.run).1 := by
  have hmove := withLock_move hdepth callback.run_nested own granted releases
  have hlog := withLock_log_extends releases callback.run hstart
  cases hown : s.locks.lookup own with
  | some id =>
    obtain rfl := Option.some.inj ((callbackStart_of_held hown).symm.trans hstart)
    obtain ⟨hbefore, hafter, hkey⟩ := returns_nested callback (Nat.succ_pos _) hmem
    exact h.fate_reentered hkey hbefore hafter (.single hmove) (hafter.trans hlog)
  | none =>
    obtain ⟨-, rfl, rfl⟩ := callbackStart_of_free hown hstart
    obtain ⟨hbefore, hafter, hkey⟩ := returns_nested callback (Nat.succ_pos _) hmem
    exact h.fate_enclosed hown hkey hbefore hafter hmove
      (withLock_locks hdepth hown releases callback) (hafter.trans hlog)

theorem fate_of_returns (script : LockScript) (h : Disciplined s) (hdepth : s.scopedDepth = 0)
    (hmem : (past, key) ∈ script.returns s) : Fate past key (script.run s).1 := by
  induction script generalizing s with
  | done => cases hmem
  | raise => cases hmem
  | lock key' granted next ih =>
    obtain ⟨hreturned, hmem⟩ := mem_returns_lock hmem
    have hlock : ReflTransGen Move s (s.lock key' granted).1 := by
      rcases lock_move hdepth key' granted with hsame | hmove
      · rw [hsame]
      · exact .single hmove
    have hthere := h.moves hlock
    have hidle : (s.lock key' granted).1.scopedDepth = 0 := moves_scopedDepth hdepth hlock
    rw [run, andThen, if_pos hreturned]
    rcases hmem with ⟨rfl, rfl⟩ | hmem
    · obtain ⟨id, hkey⟩ := lookup_of_lock hreturned
      have hfate := hthere.fate hkey (fun _ => List.not_mem_nil)
        (fun _ hid => absurd hid List.not_mem_nil) (next.run_moves hidle)
        (by rw [List.append_nil]; exact run_log_extends next _)
      rwa [List.append_nil] at hfate
    · exact ih hthere hidle hmem
  | withLock own granted releases callback next _ ihn =>
    have hmove := withLock_move hdepth callback.run_nested own granted releases
    have hidle : (s.withLock own granted releases callback.run).1.scopedDepth = 0 :=
      hmove.scopedDepth.trans hdepth
    rw [run, andThen]
    rcases mem_returns_withLock hmem with ⟨t, hstart, hmem⟩ | ⟨hreturned, hmem⟩
    · have hfate := h.fate_withLock hdepth releases hstart hmem
      split_ifs
      · exact hfate.moves (next.run_moves hidle)
      · exact hfate
    · rw [if_pos hreturned]
      exact ihn (h.move hmove) hidle hmem
  | pcall body next ihb ihn =>
    have hbody := body.run_moves hdepth
    have hidle : (body.run s).1.scopedDepth = 0 := moves_scopedDepth hdepth hbody
    rcases List.mem_append.mp hmem with hmem | hmem
    · exact (ihb h hdepth hmem).moves (next.run_moves hidle)
    · exact ihn (h.moves hbody) hidle hmem

end Fate

/-- Where `mus.cache.lock` has returned, the execution holds the lease of the key at every moment
from there to its exit, exactly if that lease was not acquired for a callback of `withLock`. -/
theorem script_long_lock_iff (script : LockScript) {past : List LockEvent} {key : GoString}
    (h : (past, key) ∈ script.returns .start) :
    past <+: (script.run .start).1.log ∧
      ((∀ later, past <+: later → later <+: (script.run .start).1.log → ¬ Unheld later key) ↔
        ¬ ScopedLease past key) := by
  have hfate := fate_of_returns script disciplined_start rfl h
  have hrun := disciplined_start.moves (script.run_moves rfl)
  refine ⟨hfate.within, fun hheld hscoped => ?_, fun hnot later hpast hlater hunheld => ?_⟩
  · obtain ⟨later, hpast, hlater, hunheld⟩ := hfate.lost hscoped
    exact hheld later hpast hlater hunheld
  · obtain ⟨id, hacquired, hlookup⟩ := hfate.kept hnot
    have hreleased := hunheld id (hpast.subset hacquired)
    exact ((hrun.held key id).mp hlookup).2 (hlater.subset hreleased)

/-- A script that locks `a` and later enters and leaves a scoped lock on `b`. -/
def lockThenScope : LockScript :=
  .lock (lit "a") true (.withLock (lit "b") true true .done .done)

theorem script_long_lock_iff_scope :
    ([LockEvent.asked (lit "a"), .acquired 0 (lit "a"), .setContext (.lease 0)], lit "a") ∈
        lockThenScope.returns .start ∧
      ∀ later,
        [LockEvent.asked (lit "a"), .acquired 0 (lit "a"), .setContext (.lease 0)] <+: later →
        later <+: (lockThenScope.run .start).1.log → ¬ Unheld later (lit "a") := by
  have hmem :
      ([LockEvent.asked (lit "a"), .acquired 0 (lit "a"), .setContext (.lease 0)], lit "a") ∈
      lockThenScope.returns .start := by decide
  refine ⟨hmem, (script_long_lock_iff lockThenScope hmem).2.mpr ?_⟩
  rintro ⟨id, -, -, hbegan⟩
  simp at hbegan

/-- `mus.cache.withLock("a", function() mus.cache.lock("a") end)`: the inner call returns, and the
lease is released with the callback. -/
theorem script_long_lock_lost :
    ∃ past later, (past, lit "a") ∈
        (LockScript.withLock (lit "a") true true
          (.lock (lit "a") true .done) .done).returns .start ∧
      past <+: later ∧
      later <+: ((LockScript.withLock (lit "a") true true (.lock (lit "a") true .done) .done).run
        .start).1.log ∧ Unheld later (lit "a") := by
  refine ⟨[.asked (lit "a"), .acquired 0 (lit "a"), .setContext (.lease 0), .began (some 0)],
    [.asked (lit "a"), .acquired 0 (lit "a"), .setContext (.lease 0), .began (some 0),
      .ended (some 0), .released 0], by decide, by decide, by decide, fun id hid => ?_⟩
  obtain rfl : id = 0 := by simpa using hid
  decide

end Musgos.Outbound
