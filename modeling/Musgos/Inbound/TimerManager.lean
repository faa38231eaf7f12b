import Musgos.Foundation.Bytes
import Musgos.Foundation.GoMap
import Musgos.Foundation.Transition

/-!
# Kill timers

`SetUserKillTimer` starts a timer whose callback takes the mutex to delete the user's entry and
then, without it, removes and disconnects the user. Stopping a timer that has fired does not
stop its callback, and the callback deletes whatever entry the user has by then. The callbacks
of any number of timers and the calls of the manager take their steps in any order.
-/
namespace Musgos.Inbound

open Foundation

/-- What a timer or its callback does next. -/
inductive KillStage where
  | pending
  | stopped
  /-- The callback has been started and waits for the mutex. -/
  | fired
  | leaveAllRooms
  | unregisterConnection
  | disconnectClient
  | finished
  deriving DecidableEq

/-- A timer of `time.AfterFunc`, for a user or, with no target, for the server. -/
structure KillTimer where
  target : Option GoString
  stage : KillStage
  deriving DecidableEq

/-- `Timer.Stop`, which does nothing to a timer that has fired. -/
def KillTimer.stop (t : KillTimer) : KillTimer :=
  if t.stage = .pending then { t with stage := .stopped } else t

/-- The callback of a timer, step by step. -/
def KillTimer.next : KillTimer → Option KillStage
  | ⟨none, .fired⟩ => some .finished
  | ⟨some _, .fired⟩ => some .leaveAllRooms
  | ⟨some _, .leaveAllRooms⟩ => some .unregisterConnection
  | ⟨some _, .unregisterConnection⟩ => some .disconnectClient
  | ⟨some _, .disconnectClient⟩ => some .finished
  | _ => none

/-- What the callbacks of the timers do to the rest of the server. -/
inductive KillEffect where
  | shutdown
  | leaveAllRooms (clientID : GoString)
  | unregisterConnection (clientID : GoString)
  | disconnectClient (clientID : GoString)
  deriving DecidableEq

/-- What a step of a callback does outside of the manager; `connWriter` may be `nil`. -/
def KillTimer.effect (hasConnWriter : Bool) : KillTimer → Option KillEffect
  | ⟨none, .fired⟩ => some .shutdown
  | ⟨some clientID, .leaveAllRooms⟩ => some (.leaveAllRooms clientID)
  | ⟨some clientID, .unregisterConnection⟩ => some (.unregisterConnection clientID)
  | ⟨some clientID, .disconnectClient⟩ =>
    if hasConnWriter then some (.disconnectClient clientID) else none
  | _ => none

/-- The manager, with every timer that has been made; a timer is referred to by its index. -/
structure TimerManager where
  serverTimer : Option ℕ
  userTimers : GoMap GoString ℕ
  timers : List KillTimer

namespace TimerManager

def initial : TimerManager := ⟨none, ∅, []⟩

def stopTimer (tm : TimerManager) (id : ℕ) : TimerManager :=
  { tm with timers := tm.timers.modify id KillTimer.stop }

/-- `time.AfterFunc`; the new timer has the next index. -/
def afterFunc (tm : TimerManager) (target : Option GoString) : TimerManager :=
  { tm with timers := tm.timers ++ [⟨target, .pending⟩] }

def stopExisting (tm : TimerManager) (existing : Option ℕ) : TimerManager :=
  existing.elim tm tm.stopTimer

def setServerKillTimer (tm : TimerManager) : TimerManager :=
  { (tm.stopExisting tm.serverTimer).afterFunc none with serverTimer := some tm.timers.length }

def cancelServerKillTimer (tm : TimerManager) : TimerManager :=
  { tm.stopExisting tm.serverTimer with serverTimer := none }

def setUserKillTimer (tm : TimerManager) (clientID : GoString) : TimerManager :=
  { (tm.stopExisting (tm.userTimers.lookup clientID)).afterFunc (some clientID) with
    userTimers := tm.userTimers.insert clientID tm.timers.length }

def cancelUserKillTimer (tm : TimerManager) (clientID : GoString) : TimerManager :=
  { tm.stopExisting (tm.userTimers.lookup clientID) with
    userTimers := tm.userTimers.erase clientID }

/-- The body of the loop in `Stop`. -/
def stopEntry (tm : TimerManager) (entry : GoString × ℕ) : TimerManager :=
  { tm.stopTimer entry.2 with userTimers := tm.userTimers.erase entry.1 }

def stop (tm : TimerManager) (ord : RangeOrder GoString) : TimerManager :=
  (ord.entries tm.userTimers).foldl stopEntry tm.cancelServerKillTimer

/-- The callback of a user's timer begins with the deletion of the user's entry. -/
def entriesAfter (tm : TimerManager) : KillTimer → GoMap GoString ℕ
  | ⟨some clientID, .fired⟩ => tm.userTimers.erase clientID
  | _ => tm.userTimers

end TimerManager

/-- A call of the manager, the firing of a timer, or a step of its callback. -/
inductive TimerAction where
  | setServerKillTimer
  | cancelServerKillTimer
  | setUserKillTimer (clientID : GoString)
  | cancelUserKillTimer (clientID : GoString)
  | stop (ord : RangeOrder GoString)
  | fire (id : ℕ)
  | callback (id : ℕ)

namespace TimerManager

def step (tm : TimerManager) : TimerAction → Option TimerManager
  | .setServerKillTimer => some tm.setServerKillTimer
  | .cancelServerKillTimer => some tm.cancelServerKillTimer
  | .setUserKillTimer clientID => some (tm.setUserKillTimer clientID)
  | .cancelUserKillTimer clientID => some (tm.cancelUserKillTimer clientID)
  | .stop ord => some (tm.stop ord)
  | .fire id =>
    match tm.timers[id]? with
    | some ⟨target, .pending⟩ => some { tm with timers := tm.timers.set id ⟨target, .fired⟩ }
    | _ => none
  | .callback id =>
    match tm.timers[id]? with
    | none => none
    | some t => t.next.map fun stage =>
        { tm with timers := tm.timers.set id ⟨t.target, stage⟩, userTimers := tm.entriesAfter t }

/-- The step is the first one of a callback that removes or disconnects the user. -/
def Begins (hasConnWriter : Bool) (u : GoString) (tm : TimerManager) (a : TimerAction) : Prop :=
  ∃ id t, a = .callback id ∧ tm.timers[id]? = some t ∧
    t.effect hasConnWriter = some (.leaveAllRooms u)

/-- From here on no callback begins to remove the user before a new timer is set. -/
def Final (hasConnWriter : Bool) (u : GoString) (tm : TimerManager) : Prop :=
  ∀ as, (∀ a ∈ as, a ≠ .setUserKillTimer u) →
    Along step (fun tm a => ¬ Begins hasConnWriter u tm a) tm as

end TimerManager

section Live

/-- The stages from which a callback may still begin. -/
def KillStage.mayBegin : KillStage → Bool
  | .pending | .fired | .leaveAllRooms => true
  | .stopped | .unregisterConnection | .disconnectClient | .finished => false

namespace TimerManager

/-- The timer is there and its callback may still begin. -/
def Live (tm : TimerManager) (id : ℕ) (t : KillTimer) : Prop :=
  tm.timers[id]? = some t ∧ t.stage.mayBegin = true

variable {tm tm' : TimerManager} {i j : ℕ} {t : KillTimer} {u : GoString}

theorem stop_eq_of_mayBegin {x t : KillTimer} (ht : t.stage.mayBegin = true) :
    x.stop = t ↔ x = t ∧ t.stage ≠ .pending := by
  unfold KillTimer.stop
  split_ifs with hx
  · constructor
    · rintro rfl
      cases ht
    · rintro ⟨rfl, hne⟩
      exact absurd hx hne
  · constructor
    · rintro rfl
      exact ⟨rfl, hx⟩
    · exact And.left

theorem live_stopTimer :
    (tm.stopTimer i).Live j t ↔ tm.Live j t ∧ ¬ (i = j ∧ t.stage = .pending) := by
  rw [Live, stopTimer, Live]
  by_cases hij : i = j
  · subst hij
    rw [List.getElem?_modify_eq]
    cases hx : tm.timers[i]? with
    | none => simp
    | some x =>
      constructor
      · rintro ⟨hstop, ht⟩
        obtain ⟨rfl, hne⟩ := (stop_eq_of_mayBegin ht).mp (Option.some.inj hstop)
        exact ⟨⟨rfl, ht⟩, fun h => hne h.2⟩
      · rintro ⟨⟨hx, ht⟩, hne⟩
        have hstop := (stop_eq_of_mayBegin ht).mpr ⟨Option.some.inj hx, fun h => hne ⟨rfl, h⟩⟩
        exact ⟨congrArg some hstop, ht⟩
  · rw [List.getElem?_modify_ne _ _ hij]
    simp [hij]

theorem live_stopExisting {existing : Option ℕ} :
    (tm.stopExisting existing).Live j t ↔
      tm.Live j t ∧ ¬ (existing = some j ∧ t.stage = .pending) := by
  cases existing with
  | none => simp [stopExisting]
  | some i => simp [stopExisting, live_stopTimer]

theorem live_afterFunc {target : Option GoString} :
    (tm.afterFunc target).Live j t ↔
      tm.Live j t ∨ (j = tm.timers.length ∧ t = ⟨target, .pending⟩) := by
  rw [Live, afterFunc, Live]
  rcases lt_trichotomy j tm.timers.length with hlt | rfl | hgt
  · rw [List.getElem?_append_left hlt]
    simp [hlt.ne]
  · rw [List.getElem?_append_right le_rfl, Nat.sub_self, List.getElem?_eq_none le_rfl]
    simp only [List.getElem?_cons_zero, reduceCtorEq, false_and, false_or, true_and,
      Option.some.injEq]
    constructor
    · exact fun h => h.1.symm
    · rintro rfl
      exact ⟨rfl, rfl⟩
  · rw [List.getElem?_eq_none (by simp; omega), List.getElem?_eq_none hgt.le]
    simp [hgt.ne']

theorem length_stopExisting (existing : Option ℕ) :
    (tm.stopExisting existing).timers.length = tm.timers.length := by
  cases existing with
  | none => rfl
  | some i => exact List.length_modify ..

theorem live_setUserKillTimer :
    (tm.setUserKillTimer u).Live j t ↔
      (tm.Live j t ∧ ¬ (tm.userTimers.lookup u = some j ∧ t.stage = .pending)) ∨
        (j = tm.timers.length ∧ t = ⟨some u, .pending⟩) := by
  rw [← live_stopExisting, ← length_stopExisting (tm.userTimers.lookup u), ← live_afterFunc]
  rfl

theorem live_setServerKillTimer :
    tm.setServerKillTimer.Live j t ↔
      (tm.Live j t ∧ ¬ (tm.serverTimer = some j ∧ t.stage = .pending)) ∨
        (j = tm.timers.length ∧ t = ⟨none, .pending⟩) := by
  rw [← live_stopExisting, ← length_stopExisting tm.serverTimer, ← live_afterFunc]
  rfl

theorem live_cancelUserKillTimer :
    (tm.cancelUserKillTimer u).Live j t ↔
      tm.Live j t ∧ ¬ (tm.userTimers.lookup u = some j ∧ t.stage = .pending) := by
  rw [← live_stopExisting]
  rfl

theorem live_cancelServerKillTimer :
    tm.cancelServerKillTimer.Live j t ↔
      tm.Live j t ∧ ¬ (tm.serverTimer = some j ∧ t.stage = .pending) := by
  rw [← live_stopExisting]
  rfl

theorem live_foldl_stopEntry (entries : List (GoString × ℕ)) :
    (entries.foldl stopEntry tm).Live j t ↔
      tm.Live j t ∧ ¬ ((∃ v, (v, j) ∈ entries) ∧ t.stage = .pending) := by
  induction entries generalizing tm with
  | nil => simp
  | cons entry entries ih =>
    have hentry : (tm.stopEntry entry).Live j t ↔ (tm.stopTimer entry.2).Live j t := Iff.rfl
    obtain ⟨v, i⟩ := entry
    rw [List.foldl_cons, ih, hentry, live_stopTimer, and_assoc, ← not_or, ← or_and_right]
    have hmem : (i = j ∨ ∃ w, (w, j) ∈ entries) ↔ ∃ w, (w, j) ∈ (v, i) :: entries := by
      constructor
      · rintro (rfl | ⟨w, hw⟩)
        · exact ⟨v, List.mem_cons_self⟩
        · exact ⟨w, List.mem_cons_of_mem _ hw⟩
      · rintro ⟨w, hw⟩
        rcases List.mem_cons.mp hw with hw | hw
        · exact .inl (Prod.mk.inj hw).2.symm
        · exact .inr ⟨w, hw⟩
    rw [hmem]

theorem live_stop (ord : RangeOrder GoString) :
    (tm.stop ord).Live j t ↔ tm.Live j t ∧
      ¬ ((tm.serverTimer = some j ∨ ∃ v, tm.userTimers.lookup v = some j) ∧
        t.stage = .pending) := by
  rw [stop, live_foldl_stopEntry, live_cancelServerKillTimer, and_assoc, ← not_or, ← or_and_right]
  simp only [ord.mem_entries]

theorem step_fire (h : tm.step (.fire i) = some tm') : ∃ target,
    tm.timers[i]? = some ⟨target, .pending⟩ ∧
      tm' = { tm with timers := tm.timers.set i ⟨target, .fired⟩ } := by
  simp only [step] at h
  split at h
  · rename_i target htimer
    exact ⟨target, htimer, (Option.some.inj h).symm⟩
  · cases h

theorem step_callback (h : tm.step (.callback i) = some tm') : ∃ t stage,
    tm.timers[i]? = some t ∧ t.next = some stage ∧
      tm' = { tm with timers := tm.timers.set i ⟨t.target, stage⟩,
                      userTimers := tm.entriesAfter t } := by
  simp only [step] at h
  split at h
  · cases h
  · rename_i t htimer
    obtain ⟨stage, hstage, rfl⟩ := Option.map_eq_some_iff.mp h
    exact ⟨t, stage, htimer, hstage, rfl⟩

theorem getElem?_set_of_some {x : KillTimer} (hx : tm.timers[i]? = some x) (y : KillTimer) :
    (tm.timers.set i y)[j]? = if i = j then some y else tm.timers[j]? := by
  obtain ⟨hlt, -⟩ := List.getElem?_eq_some_iff.mp hx
  rw [List.getElem?_set, if_pos hlt]

theorem mayBegin_of_next {t : KillTimer} {stage : KillStage} (h : t.next = some stage)
    (hbegin : stage.mayBegin = true) :
    stage = .leaveAllRooms ∧ t.stage = .fired := by
  obtain ⟨target, st⟩ := t
  cases target <;> cases st <;> cases h <;> first | exact ⟨rfl, rfl⟩ | cases hbegin

/-- A timer that may begin after a step could before, unless the step has set it. -/
theorem live_of_step {a : TimerAction} (h : tm.step a = some tm') (hlive : tm'.Live j t) :
    (∃ t₀, tm.Live j t₀ ∧ t₀.target = t.target) ∨ t.target = none ∨
      ∃ v, a = .setUserKillTimer v ∧ t.target = some v := by
  cases a with
  | setServerKillTimer =>
    obtain rfl := Option.some.inj h
    rcases live_setServerKillTimer.mp hlive with ⟨hlive, -⟩ | ⟨-, rfl⟩
    · exact .inl ⟨t, hlive, rfl⟩
    · exact .inr (.inl rfl)
  | cancelServerKillTimer =>
    obtain rfl := Option.some.inj h
    exact .inl ⟨t, (live_cancelServerKillTimer.mp hlive).1, rfl⟩
  | setUserKillTimer v =>
    obtain rfl := Option.some.inj h
    rcases live_setUserKillTimer.mp hlive with ⟨hlive, -⟩ | ⟨-, rfl⟩
    · exact .inl ⟨t, hlive, rfl⟩
    · exact .inr (.inr ⟨v, rfl, rfl⟩)
  | cancelUserKillTimer v =>
    obtain rfl := Option.some.inj h
    exact .inl ⟨t, (live_cancelUserKillTimer.mp hlive).1, rfl⟩
  | stop ord =>
    obtain rfl := Option.some.inj h
    exact .inl ⟨t, ((live_stop ord).mp hlive).1, rfl⟩
  | fire i =>
    obtain ⟨target, htimer, rfl⟩ := step_fire h
    rw [Live, getElem?_set_of_some htimer] at hlive
    split_ifs at hlive with hij
    · subst hij
      obtain rfl := Option.some.inj hlive.1
      exact .inl ⟨_, ⟨htimer, rfl⟩, rfl⟩
    · exact .inl ⟨t, hlive, rfl⟩
  | callback i =>
    obtain ⟨t₀, stage, htimer, hnext, rfl⟩ := step_callback h
    rw [Live, getElem?_set_of_some htimer] at hlive
    split_ifs at hlive with hij
    · subst hij
      obtain rfl := Option.some.inj hlive.1
      obtain ⟨-, hfired⟩ := mayBegin_of_next hnext hlive.2
      exact .inl ⟨t₀, ⟨htimer, by rw [hfired]; rfl⟩, rfl⟩
    · exact .inl ⟨t, hlive, rfl⟩

end TimerManager

end Live

section Finality

namespace TimerManager

variable {hasConnWriter : Bool} {tm tm' : TimerManager} {u : GoString}

/-- No callback of a timer of the user may begin any more. -/
def Quiet (u : GoString) (tm : TimerManager) : Prop :=
  ∀ id t, tm.Live id t → t.target ≠ some u

/-- The only timer of the user whose callback may still begin is pending and recorded. -/
def Settled (u : GoString) (tm : TimerManager) : Prop :=
  ∀ id t, tm.Live id t → t.target = some u →
    t.stage = .pending ∧ tm.userTimers.lookup u = some id

theorem Quiet.step {a : TimerAction} (hquiet : tm.Quiet u) (ha : a ≠ .setUserKillTimer u)
    (h : tm.step a = some tm') : tm'.Quiet u := by
  intro id t hlive htarget
  rcases live_of_step h hlive with ⟨t₀, hlive₀, heq⟩ | hnone | ⟨v, rfl, hv⟩
  · exact hquiet id t₀ hlive₀ (heq.trans htarget)
  · rw [hnone] at htarget
    cases htarget
  · obtain rfl := Option.some.inj (hv.symm.trans htarget)
    exact ha rfl

theorem begins_iff {a : TimerAction} :
    Begins hasConnWriter u tm a ↔
      ∃ id, a = .callback id ∧ tm.timers[id]? = some ⟨some u, .leaveAllRooms⟩ := by
  constructor
  · rintro ⟨id, ⟨target, stage⟩, rfl, htimer, heffect⟩
    refine ⟨id, rfl, ?_⟩
    rw [htimer]
    cases target <;> cases stage <;> simp [KillTimer.effect] at heffect
    rw [heffect]
  · rintro ⟨id, rfl, htimer⟩
    exact ⟨id, _, rfl, htimer, rfl⟩

theorem Quiet.not_begins {a : TimerAction} (hquiet : tm.Quiet u) :
    ¬ Begins hasConnWriter u tm a := by
  intro hbegins
  obtain ⟨id, -, htimer⟩ := begins_iff.mp hbegins
  exact hquiet id _ ⟨htimer, rfl⟩ rfl

theorem Quiet.final (hquiet : tm.Quiet u) : Final hasConnWriter u tm := by
  intro as has
  induction as generalizing tm with
  | nil => trivial
  | cons a as ih =>
    obtain ⟨ha, has⟩ := List.forall_mem_cons.mp has
    unfold Along
    refine ⟨hquiet.not_begins, ?_⟩
    cases hstep : tm.step a with
    | none => trivial
    | some tm' => exact ih (hquiet.step ha hstep) has

/-- A callback that waits for its first call begins with it. -/
theorem not_final_of_leaveAllRooms {id : ℕ} (h : tm.timers[id]? = some ⟨some u, .leaveAllRooms⟩) :
    ¬ Final hasConnWriter u tm := by
  intro hfinal
  have hnot := (hfinal [.callback id] (by simp)).1
  exact hnot (begins_iff.mpr ⟨id, rfl, h⟩)

/-- What is not final after a step of a timer was not before. -/
theorem not_final_of_step {a : TimerAction} (h : tm.step a = some tm')
    (ha : a ≠ .setUserKillTimer u) (hnot : ¬ Final hasConnWriter u tm') :
    ¬ Final hasConnWriter u tm := by
  intro hfinal
  apply hnot
  intro as has
  exact ((hfinal (a :: as) (List.forall_mem_cons.mpr ⟨ha, has⟩)).cons h).2

theorem not_final_of_fired {id : ℕ} (h : tm.timers[id]? = some ⟨some u, .fired⟩) :
    ¬ Final hasConnWriter u tm := by
  have hstep : tm.step (.callback id) = some { tm with
      timers := tm.timers.set id ⟨some u, .leaveAllRooms⟩,
      userTimers := tm.userTimers.erase u } := by
    simp only [step, h]
    rfl
  have hnext : (tm.timers.set id ⟨some u, .leaveAllRooms⟩)[id]? =
      some ⟨some u, .leaveAllRooms⟩ := by
    rw [getElem?_set_of_some h, if_pos rfl]
  exact not_final_of_step hstep nofun (not_final_of_leaveAllRooms hnext)

theorem not_final_of_pending {id : ℕ} (h : tm.timers[id]? = some ⟨some u, .pending⟩) :
    ¬ Final hasConnWriter u tm := by
  have hstep : tm.step (.fire id) = some { tm with
      timers := tm.timers.set id ⟨some u, .fired⟩ } := by
    simp only [step, h]
  have hnext : (tm.timers.set id ⟨some u, .fired⟩)[id]? = some ⟨some u, .fired⟩ := by
    rw [getElem?_set_of_some h, if_pos rfl]
  exact not_final_of_step hstep nofun (not_final_of_fired hnext)

theorem final_iff_quiet : Final hasConnWriter u tm ↔ tm.Quiet u := by
  refine ⟨fun hfinal id t hlive htarget => ?_, Quiet.final⟩
  obtain ⟨target, stage⟩ := t
  obtain ⟨htimer, hbegin⟩ := hlive
  obtain rfl : target = some u := htarget
  cases stage with
  | pending => exact not_final_of_pending htimer hfinal
  | fired => exact not_final_of_fired htimer hfinal
  | leaveAllRooms => exact not_final_of_leaveAllRooms htimer hfinal
  | stopped => cases hbegin
  | unregisterConnection => cases hbegin
  | disconnectClient => cases hbegin
  | finished => cases hbegin

theorem quiet_cancelUserKillTimer : (tm.cancelUserKillTimer u).Quiet u ↔ tm.Settled u := by
  constructor
  · intro hquiet id t hlive htarget
    by_contra hnot
    exact hquiet id t (live_cancelUserKillTimer.mpr ⟨hlive, fun h => hnot h.symm⟩) htarget
  · intro hsettled id t hlive htarget
    obtain ⟨hlive, hnot⟩ := live_cancelUserKillTimer.mp hlive
    exact hnot (hsettled id t hlive htarget).symm

end TimerManager

end Finality

section Sound

namespace TimerManager

variable {tm tm' : TimerManager}

def targets (tm : TimerManager) : List (Option GoString) := tm.timers.map (·.target)

/-- What is recorded are timers of the server and of the user. -/
structure Sound (tm : TimerManager) : Prop where
  server : ∀ id, tm.serverTimer = some id → tm.targets[id]? = some none
  user : ∀ u id, tm.userTimers.lookup u = some id → tm.targets[id]? = some (some u)

theorem targets_stopTimer (tm : TimerManager) (id : ℕ) :
    (tm.stopTimer id).targets = tm.targets := by
  have hstop : ∀ t : KillTimer, t.stop.target = t.target := by
    intro t
    unfold KillTimer.stop
    split_ifs <;> rfl
  apply List.ext_getElem?
  intro j
  rw [targets, targets, List.getElem?_map, List.getElem?_map]
  by_cases hij : id = j
  · subst hij
    rw [stopTimer, List.getElem?_modify_eq]
    cases tm.timers[id]? with
    | none => rfl
    | some t => exact congrArg some (hstop t)
  · rw [stopTimer, List.getElem?_modify_ne _ _ hij]

theorem targets_stopExisting (existing : Option ℕ) :
    (tm.stopExisting existing).targets = tm.targets := by
  cases existing with
  | none => rfl
  | some id => exact tm.targets_stopTimer id

theorem userTimers_stopExisting (existing : Option ℕ) :
    (tm.stopExisting existing).userTimers = tm.userTimers := by
  cases existing <;> rfl

theorem userTimers_setServerKillTimer : tm.setServerKillTimer.userTimers = tm.userTimers :=
  userTimers_stopExisting _

theorem userTimers_cancelServerKillTimer : tm.cancelServerKillTimer.userTimers = tm.userTimers :=
  userTimers_stopExisting _

theorem serverTimer_stopExisting (existing : Option ℕ) :
    (tm.stopExisting existing).serverTimer = tm.serverTimer := by
  cases existing <;> rfl

theorem targets_afterFunc (target : Option GoString) :
    (tm.afterFunc target).targets = tm.targets ++ [target] :=
  List.map_append

theorem targets_set {i : ℕ} {t : KillTimer} (ht : tm.timers[i]? = some t) (stage : KillStage) :
    (tm.timers.set i ⟨t.target, stage⟩).map (·.target) = tm.targets := by
  apply List.ext_getElem?
  intro j
  rw [targets, List.getElem?_map, List.getElem?_map, getElem?_set_of_some ht]
  split_ifs with hij
  · rw [← hij, ht]
    rfl
  · rfl

theorem targets_foldl_stopEntry (entries : List (GoString × ℕ)) :
    (entries.foldl stopEntry tm).targets = tm.targets ∧
      (entries.foldl stopEntry tm).serverTimer = tm.serverTimer ∧
      ∀ u id, (entries.foldl stopEntry tm).userTimers.lookup u = some id →
        tm.userTimers.lookup u = some id := by
  induction entries generalizing tm with
  | nil => exact ⟨rfl, rfl, fun _ _ h => h⟩
  | cons entry entries ih =>
    obtain ⟨htargets, hserver, huser⟩ := @ih (tm.stopEntry entry)
    refine ⟨htargets.trans (tm.targets_stopTimer entry.2), hserver, fun u id h => ?_⟩
    exact GoMap.lookup_of_erase (huser u id h)

/-- A step that only adds timers and records only what was recorded or what it has added. -/
theorem Sound.extend (h : tm.Sound) (htargets : tm.targets <+: tm'.targets)
    (hserver : ∀ id, tm'.serverTimer = some id →
      tm.serverTimer = some id ∨ tm'.targets[id]? = some none)
    (huser : ∀ u id, tm'.userTimers.lookup u = some id →
      tm.userTimers.lookup u = some id ∨ tm'.targets[id]? = some (some u)) : tm'.Sound := by
  obtain ⟨added, hadded⟩ := htargets
  have hkeeps : ∀ (id : ℕ) (x : Option GoString), tm.targets[id]? = some x →
      tm'.targets[id]? = some x := by
    intro id x hx
    obtain ⟨hlt, -⟩ := List.getElem?_eq_some_iff.mp hx
    rw [← hadded, List.getElem?_append_left hlt, hx]
  constructor
  · intro id hid
    rcases hserver id hid with hid | hnew
    · exact hkeeps id none (h.server id hid)
    · exact hnew
  · intro u id hid
    rcases huser u id hid with hid | hnew
    · exact hkeeps id (some u) (h.user u id hid)
    · exact hnew

theorem targets_append_length (target : Option GoString) :
    (tm.targets ++ [target])[tm.timers.length]? = some target := by
  have hlength : tm.targets.length = tm.timers.length := List.length_map _
  rw [← hlength, List.getElem?_append_right le_rfl, Nat.sub_self]
  rfl

theorem targets_replace (existing : Option ℕ) (target : Option GoString) :
    ((tm.stopExisting existing).afterFunc target).targets = tm.targets ++ [target] := by
  rw [targets_afterFunc, targets_stopExisting]

theorem Sound.setServerKillTimer (h : tm.Sound) : tm.setServerKillTimer.Sound := by
  have htargets : tm.setServerKillTimer.targets = tm.targets ++ [none] := targets_replace _ none
  refine h.extend ⟨[none], htargets.symm⟩ (fun id hid => .inr ?_) fun u id hid => .inl ?_
  · obtain rfl := Option.some.inj hid
    rw [htargets, targets_append_length]
  · rwa [userTimers_setServerKillTimer] at hid

theorem Sound.cancelServerKillTimer (h : tm.Sound) : tm.cancelServerKillTimer.Sound := by
  have htargets : tm.cancelServerKillTimer.targets = tm.targets := targets_stopExisting _
  refine h.extend ⟨[], by rw [htargets, List.append_nil]⟩ nofun fun u id hid => .inl ?_
  rwa [userTimers_cancelServerKillTimer] at hid

theorem Sound.setUserKillTimer (h : tm.Sound) (v : GoString) : (tm.setUserKillTimer v).Sound := by
  have htargets : (tm.setUserKillTimer v).targets = tm.targets ++ [some v] :=
    targets_replace _ (some v)
  refine h.extend ⟨[some v], htargets.symm⟩ (fun id hid => .inl ?_) fun u id hid => ?_
  · exact (serverTimer_stopExisting _).symm.trans hid
  · rw [TimerManager.setUserKillTimer, GoMap.lookup_insert_ite] at hid
    split_ifs at hid with huv
    · obtain rfl := Option.some.inj hid
      rw [huv, htargets, targets_append_length]
      exact .inr rfl
    · exact .inl hid

theorem Sound.cancelUserKillTimer (h : tm.Sound) (v : GoString) :
    (tm.cancelUserKillTimer v).Sound := by
  have htargets : (tm.cancelUserKillTimer v).targets = tm.targets := targets_stopExisting _
  refine h.extend ⟨[], by rw [htargets, List.append_nil]⟩ (fun id hid => .inl ?_)
    fun u id hid => .inl ?_
  · exact (serverTimer_stopExisting _).symm.trans hid
  · exact GoMap.lookup_of_erase hid

theorem Sound.stop (h : tm.Sound) (ord : RangeOrder GoString) : (tm.stop ord).Sound := by
  obtain ⟨htargets, hserver, huser⟩ :=
    @targets_foldl_stopEntry tm.cancelServerKillTimer (ord.entries tm.userTimers)
  have htargets : (tm.stop ord).targets = tm.targets :=
    htargets.trans (targets_stopExisting _)
  refine h.extend ⟨[], by rw [htargets, List.append_nil]⟩ (fun id hid => ?_)
    fun u id hid => .inl ?_
  · cases hserver.symm.trans hid
  · rw [← userTimers_cancelServerKillTimer]
    exact huser u id hid

theorem Sound.step {a : TimerAction} (h : tm.Sound) (hstep : tm.step a = some tm') : tm'.Sound := by
  cases a with
  | setServerKillTimer =>
    obtain rfl := Option.some.inj hstep
    exact h.setServerKillTimer
  | cancelServerKillTimer =>
    obtain rfl := Option.some.inj hstep
    exact h.cancelServerKillTimer
  | setUserKillTimer v =>
    obtain rfl := Option.some.inj hstep
    exact h.setUserKillTimer v
  | cancelUserKillTimer v =>
    obtain rfl := Option.some.inj hstep
    exact h.cancelUserKillTimer v
  | stop ord =>
    obtain rfl := Option.some.inj hstep
    exact h.stop ord
  | fire i =>
    obtain ⟨target, htimer, rfl⟩ := step_fire hstep
    refine h.extend ⟨[], ?_⟩ (fun _ hid => .inl hid) fun _ _ hid => .inl hid
    exact (List.append_nil _).trans (targets_set htimer .fired).symm
  | callback i =>
    obtain ⟨t, stage, htimer, -, rfl⟩ := step_callback hstep
    refine h.extend ⟨[], ?_⟩ (fun _ hid => .inl hid) fun u id hid => .inl ?_
    · exact (List.append_nil _).trans (targets_set htimer stage).symm
    · unfold entriesAfter at hid
      split at hid
      · exact GoMap.lookup_of_erase hid
      · exact hid

theorem sound_initial : initial.Sound := ⟨nofun, fun _ _ h => nomatch h⟩

theorem sound_of_run {as : List TimerAction} (h : runFrom TimerManager.step initial as = some tm) :
    tm.Sound :=
  invariant_run (P := fun _ _ => True) (fun _ _ _ hsound _ hstep => hsound.step hstep)
    sound_initial (along_of_forall (P := fun _ => True) (fun _ _ => trivial) _) h

theorem quiet_stop {u : GoString} (hsound : tm.Sound) (ord : RangeOrder GoString) :
    (tm.stop ord).Quiet u ↔ tm.Settled u := by
  constructor
  · intro hquiet id t hlive htarget
    by_contra hnot
    refine hquiet id t ((live_stop ord).mpr ⟨hlive, ?_⟩) htarget
    rintro ⟨hrecorded, hpending⟩
    have hid : tm.targets[id]? = some (some u) := by
      rw [targets, List.getElem?_map, hlive.1, ← htarget]
      rfl
    rcases hrecorded with hserver | ⟨v, hv⟩
    · cases (hsound.server id hserver).symm.trans hid
    · obtain rfl := Option.some.inj (Option.some.inj ((hsound.user v id hv).symm.trans hid))
      exact hnot ⟨hpending, hv⟩
  · intro hsettled id t hlive htarget
    obtain ⟨hlive, hnot⟩ := (live_stop ord).mp hlive
    obtain ⟨hpending, hlookup⟩ := hsettled id t hlive htarget
    exact hnot ⟨.inr ⟨u, hlookup⟩, hpending⟩

end TimerManager

end Sound

section Records

namespace TimerManager

variable {tm tm' : TimerManager}

/-- Each pending timer of a user is the one that is recorded. -/
def Recorded (tm : TimerManager) : Prop :=
  ∀ u id, tm.timers[id]? = some ⟨some u, .pending⟩ → tm.userTimers.lookup u = some id

/-- A callback does not delete the entry of a timer that is pending. -/
def SparesPending (tm : TimerManager) (a : TimerAction) : Prop :=
  ∀ id u, a = .callback id → tm.timers[id]? = some ⟨some u, .fired⟩ →
    ∀ j, tm.userTimers.lookup u = some j → tm.timers[j]? ≠ some ⟨some u, .pending⟩

theorem recorded_iff : tm.Recorded ↔ ∀ u id, tm.Live id ⟨some u, .pending⟩ →
    tm.userTimers.lookup u = some id :=
  forall_congr' fun _ => forall_congr' fun _ =>
    ⟨fun h hlive => h hlive.1, fun h htimer => h ⟨htimer, rfl⟩⟩

theorem lookup_entriesAfter {t : KillTimer} {u : GoString} (h : t ≠ ⟨some u, .fired⟩) :
    (tm.entriesAfter t).lookup u = tm.userTimers.lookup u := by
  unfold entriesAfter
  split
  · rename_i v
    have huv : u ≠ v := fun huv => h (by rw [huv])
    rw [GoMap.lookup_erase_ite, if_neg huv]
  · rfl

theorem recorded_callback_iff {i : ℕ} (h : tm.Recorded)
    (hstep : tm.step (.callback i) = some tm') :
    tm'.Recorded ↔ tm.SparesPending (.callback i) := by
  obtain ⟨t, stage, htimer, hnext, rfl⟩ := step_callback hstep
  constructor
  · intro hrecorded id u hid hfired j hj hpending
    obtain rfl := TimerAction.callback.inj hid
    obtain rfl := Option.some.inj (htimer.symm.trans hfired)
    have hne : i ≠ j := by
      rintro rfl
      cases hfired.symm.trans hpending
    have hlookup := hrecorded u j (by rw [getElem?_set_of_some htimer, if_neg hne, hpending])
    rw [entriesAfter, GoMap.lookup_erase_ite, if_pos rfl] at hlookup
    cases hlookup
  · intro hspares u k hk
    rw [getElem?_set_of_some htimer] at hk
    split_ifs at hk with hik
    · obtain rfl : stage = .pending := (KillTimer.mk.inj (Option.some.inj hk)).2
      cases (mayBegin_of_next hnext rfl).1
    · have hlookup := h u k hk
      rw [lookup_entriesAfter ?_, hlookup]
      rintro rfl
      exact hspares i u rfl htimer k hlookup hk

theorem ne_of_not_recorded {u v : GoString} {id : ℕ} {t : KillTimer}
    (hu : tm.userTimers.lookup u = some id) (hpending : t.stage = .pending)
    (hnot : ¬ (tm.userTimers.lookup v = some id ∧ t.stage = .pending)) : u ≠ v := by
  rintro rfl
  exact hnot ⟨hu, hpending⟩

/-- The calls of the manager and the firing of a timer keep the record. -/
theorem Recorded.step_of_ne_callback {a : TimerAction} (h : tm.Recorded)
    (ha : ∀ i, a ≠ .callback i) (hstep : tm.step a = some tm') : tm'.Recorded := by
  have hlive := recorded_iff.mp h
  refine recorded_iff.mpr fun u id hid => ?_
  cases a with
  | callback i => exact absurd rfl (ha i)
  | setServerKillTimer =>
    obtain rfl := Option.some.inj hstep
    rw [userTimers_setServerKillTimer]
    rcases live_setServerKillTimer.mp hid with ⟨hid, -⟩ | ⟨-, hnew⟩
    · exact hlive u id hid
    · cases hnew
  | cancelServerKillTimer =>
    obtain rfl := Option.some.inj hstep
    rw [userTimers_cancelServerKillTimer]
    exact hlive u id (live_cancelServerKillTimer.mp hid).1
  | setUserKillTimer v =>
    obtain rfl := Option.some.inj hstep
    rw [setUserKillTimer, GoMap.lookup_insert_ite]
    rcases live_setUserKillTimer.mp hid with ⟨hid, hnot⟩ | ⟨rfl, hnew⟩
    · have hlookup := hlive u id hid
      rw [if_neg (ne_of_not_recorded hlookup rfl hnot), hlookup]
    · obtain rfl := Option.some.inj (KillTimer.mk.inj hnew).1
      rw [if_pos rfl]
  | cancelUserKillTimer v =>
    obtain rfl := Option.some.inj hstep
    obtain ⟨hid, hnot⟩ := live_cancelUserKillTimer.mp hid
    have hlookup := hlive u id hid
    rw [cancelUserKillTimer, GoMap.lookup_erase_ite,
      if_neg (ne_of_not_recorded hlookup rfl hnot), hlookup]
  | stop ord =>
    obtain rfl := Option.some.inj hstep
    obtain ⟨hid, hnot⟩ := (live_stop ord).mp hid
    exact absurd ⟨.inr ⟨u, hlive u id hid⟩, rfl⟩ hnot
  | fire i =>
    obtain ⟨target, htimer, rfl⟩ := step_fire hstep
    have hpending := hid.1
    rw [getElem?_set_of_some htimer] at hpending
    split_ifs at hpending
    · cases hpending
    · exact h u id hpending

/-- A step other than of a callback keeps the record, a callback does if it spares a pending
timer. -/
theorem recorded_step_iff {a : TimerAction} (h : tm.Recorded) (hstep : tm.step a = some tm') :
    tm'.Recorded ↔ tm.SparesPending a := by
  by_cases ha : ∃ i, a = .callback i
  · obtain ⟨i, rfl⟩ := ha
    exact recorded_callback_iff h hstep
  · rw [not_exists] at ha
    exact iff_of_true (h.step_of_ne_callback ha hstep) fun i _ hi => absurd hi (ha i)

theorem recorded_initial : initial.Recorded := fun _ _ h => nomatch h

theorem recorded_throughout_iff {as : List TimerAction}
    (h : runFrom TimerManager.step initial as = some tm) :
    Throughout TimerManager.step Recorded initial as ↔
      Along TimerManager.step SparesPending initial as :=
  throughout_iff_along (I := fun _ => True)
    (fun _ _ _ _ hrecorded hstep => recorded_step_iff hrecorded hstep)
    (fun _ _ _ _ _ _ _ => trivial) trivial recorded_initial h

end TimerManager

end Records

open TimerManager

/-- After any run: cancelling is final exactly if no callback of the user is under way before it
begins and each pending timer of the user is recorded, and so is stopping. During the run, each
pending timer is recorded exactly if no callback deletes the entry of one. -/
theorem kill_timer_cancel_iff (hasConnWriter : Bool) {as : List TimerAction} {tm : TimerManager}
    (h : runFrom step initial as = some tm) :
    (∀ u, Final hasConnWriter u (tm.cancelUserKillTimer u) ↔ tm.Settled u) ∧
      (∀ u ord, Final hasConnWriter u (tm.stop ord) ↔ tm.Settled u) ∧
      (Throughout step Recorded initial as ↔ Along step SparesPending initial as) :=
  ⟨fun _ => final_iff_quiet.trans quiet_cancelUserKillTimer,
    fun _ ord => final_iff_quiet.trans (quiet_stop (sound_of_run h) ord),
    recorded_throughout_iff h⟩

theorem settled_single (u : GoString) : (initial.setUserKillTimer u).Settled u := by
  intro id t hlive _
  rcases live_setUserKillTimer.mp hlive with ⟨⟨hnone, -⟩, -⟩ | ⟨rfl, rfl⟩
  · cases hnone
  · refine ⟨rfl, ?_⟩
    rw [setUserKillTimer, GoMap.lookup_insert_ite, if_pos rfl]

theorem kill_timer_cancel_iff_single :
    runFrom step initial [.setUserKillTimer (lit "a")] =
        some (initial.setUserKillTimer (lit "a")) ∧
      Final true (lit "a")
        ((initial.setUserKillTimer (lit "a")).cancelUserKillTimer (lit "a")) := by
  have hrun : runFrom step initial [.setUserKillTimer (lit "a")] =
      some (initial.setUserKillTimer (lit "a")) := rfl
  exact ⟨hrun, ((kill_timer_cancel_iff true hrun).1 (lit "a")).mpr (settled_single (lit "a"))⟩

/-- A callback that has fired begins after the cancellation, or after `Stop`. A callback of a
timer that has been replaced deletes the entry of the new one, which then runs unrecorded. -/
theorem kill_timer_cancel_race :
    (∃ tm, runFrom step initial [.setUserKillTimer (lit "a"), .fire 0,
        .cancelUserKillTimer (lit "a"), .callback 0] = some tm ∧
      Begins true (lit "a") tm (.callback 0)) ∧
    (∃ tm, runFrom step initial [.setUserKillTimer (lit "a"), .fire 0,
        .stop (.sorted (· ≤ ·)), .callback 0] = some tm ∧
      Begins true (lit "a") tm (.callback 0)) ∧
    ∃ tm, runFrom step initial [.setUserKillTimer (lit "a"), .fire 0,
        .setUserKillTimer (lit "a"), .callback 0] = some tm ∧
      tm.timers[1]? = some ⟨some (lit "a"), .pending⟩ ∧ tm.userTimers.lookup (lit "a") = none := by
  refine ⟨?_, ?_, ?_⟩
  · have hany : (runFrom step initial [.setUserKillTimer (lit "a"), .fire 0,
        .cancelUserKillTimer (lit "a"), .callback 0]).any
          (fun tm => tm.timers[0]? = some ⟨some (lit "a"), .leaveAllRooms⟩) = true := by decide
    obtain ⟨tm, hrun, htimer⟩ := exists_run_of_any hany
    exact ⟨tm, hrun, begins_iff.mpr ⟨0, rfl, of_decide_eq_true htimer⟩⟩
  · have hany : (runFrom step initial [.setUserKillTimer (lit "a"), .fire 0,
        .stop (.sorted (· ≤ ·)), .callback 0]).any
          (fun tm => tm.timers[0]? = some ⟨some (lit "a"), .leaveAllRooms⟩) = true := by decide
    obtain ⟨tm, hrun, htimer⟩ := exists_run_of_any hany
    exact ⟨tm, hrun, begins_iff.mpr ⟨0, rfl, of_decide_eq_true htimer⟩⟩
  · have hany : (runFrom step initial [.setUserKillTimer (lit "a"), .fire 0,
        .setUserKillTimer (lit "a"), .callback 0]).any
          (fun tm => tm.timers[1]? = some ⟨some (lit "a"), .pending⟩ ∧
            tm.userTimers.lookup (lit "a") = none) = true := by decide
    obtain ⟨tm, hrun, hrace⟩ := exists_run_of_any hany
    exact ⟨tm, hrun, of_decide_eq_true hrace⟩

end Musgos.Inbound
