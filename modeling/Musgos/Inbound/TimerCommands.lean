import Musgos.Inbound.TimerManager
import Musgos.Mus.Commands

/-!
# The commands for kill timers

The handlers see of a timer manager only which entries it has; `World` keeps these, with the time
and the duration of each. Every run of one of the four commands is a call of the manager or none,
and leaves the entries that the manager has then.
-/
namespace Musgos.Inbound

open Foundation Lingo Mus Services Smus

variable {π σ δ τ ε α : Type}

section Readers

/-- However it ends, the code changes nothing. -/
def Reads (x : EStateM ε (World π σ δ τ) α) : Prop := ∀ w, endState (x w) = w

theorem Reads.bind {β : Type} {x : EStateM ε (World π σ δ τ) α}
    {f : α → EStateM ε (World π σ δ τ) β} (hx : Reads x) (hf : ∀ a, Reads (f a)) :
    Reads (x >>= f) := by
  intro w
  have hfirst := hx w
  cases h : x w with
  | ok a w' =>
    rw [h] at hfirst
    rw [bind_of_ok h, hf a w']
    exact hfirst
  | error e w' =>
    rw [h] at hfirst
    rw [bind_of_error h]
    exact hfirst

theorem reads_orPanic (a : Option α) : Reads (orPanic a : Body π σ δ τ α) := by
  cases a <;> exact fun _ => rfl

theorem reads_requireLevel (ctx : Context π σ δ τ) (senderID command : GoString) :
    Reads (requireLevel ctx senderID command) := by
  refine Reads.bind (fun _ => rfl) fun w => (reads_orPanic _).bind fun allowed => ?_
  cases allowed <;> exact fun _ => rfl

theorem reads_requireFields (content : LValue) (names : List GoString) :
    Reads (requireFields content names : Body π σ δ τ Fields) := by
  unfold requireFields
  split
  · induction names with
    | nil => exact fun _ => rfl
    | cons name names ih =>
      rw [List.mapM_cons]
      refine Reads.bind ((reads_orPanic _).bind fun value => ?_) fun _ => ih.bind fun _ _ => rfl
      cases value <;> exact fun _ => rfl
  · exact fun _ => rfl

theorem reads_requireString (content : LValue) :
    Reads (requireString content : Body π σ δ τ GoString) := by
  unfold requireString
  split <;> exact fun _ => rfl

end Readers

section Calls

/-- What the handlers see of a call of the manager. -/
inductive Enters (w : World π σ δ τ) : TimerAction → World π σ δ τ → Prop
  | setServer (t : ArmedTimer) : Enters w .setServerKillTimer { w with serverTimer := some t }
  | cancelServer : Enters w .cancelServerKillTimer { w with serverTimer := none }
  | setUser (clientID : GoString) (t : ArmedTimer) : Enters w (.setUserKillTimer clientID)
      { w with userTimers := w.userTimers.insert clientID t }
  | cancelUser (clientID : GoString) : Enters w (.cancelUserKillTimer clientID)
      { w with userTimers := w.userTimers.erase clientID }

/-- However it ends, the code has called the manager once or has changed nothing. -/
def Drives (x : EStateM ε (World π σ δ τ) α) : Prop :=
  ∀ w, endState (x w) = w ∨ ∃ a, Enters w a (endState (x w))

theorem Reads.bind_drives {β : Type} {x : EStateM ε (World π σ δ τ) α}
    {f : α → EStateM ε (World π σ δ τ) β} (hx : Reads x) (hf : ∀ a, Drives (f a)) :
    Drives (x >>= f) := by
  intro w
  have hfirst := hx w
  cases h : x w with
  | ok a w' =>
    rw [h] at hfirst
    obtain rfl : w' = w := hfirst
    rw [bind_of_ok h]
    exact hf a w'
  | error e w' =>
    rw [h] at hfirst
    rw [bind_of_error h]
    exact .inl hfirst

theorem Drives.respond {body : Body π σ δ τ LValue} (h : Drives body) (now : ℤ)
    (senderID : GoString) (msg : MUSMessage) : Drives (respond now senderID msg body) := by
  intro w
  have hbody := h w
  cases hrun : body w with
  | ok content w' =>
    rw [hrun] at hbody
    rw [respond_of_ok hrun]
    exact hbody
  | error stop w' =>
    rw [hrun] at hbody
    cases stop with
    | reply code =>
      rw [respond_of_reply hrun]
      exact hbody
    | panic =>
      have hpanic : Mus.respond now senderID msg body w = .error .panic w' := by
        simp only [Mus.respond, hrun]
      rw [hpanic]
      exact hbody

theorem Drives.unless {c : Prop} [Decidable c] {code : Int32} {f : Unit → Body π σ δ τ LValue}
    {x : Body π σ δ τ LValue} (hx : Drives x) :
    Drives (if c then reply code >>= f else x) := by
  split_ifs
  · exact fun _ => .inl rfl
  · exact hx

variable (ctx : Context π σ δ τ) (now : ℤ) (senderID : GoString) (msg : MUSMessage)

theorem drives_serverSetKillTimer : Drives (handleServerSetKillTimer ctx now senderID msg) := by
  refine Drives.respond ?_ now senderID msg
  refine (reads_requireLevel _ _ _).bind_drives fun _ => Drives.unless ?_
  refine (reads_orPanic _).bind_drives fun minutes => Drives.unless ?_
  exact fun w => .inr ⟨_, .setServer _⟩

theorem drives_serverCancelKillTimer :
    Drives (handleServerCancelKillTimer ctx now senderID msg) := by
  refine Drives.respond ?_ now senderID msg
  refine (reads_requireLevel _ _ _).bind_drives fun _ => Drives.unless ?_
  exact fun w => .inr ⟨_, .cancelServer⟩

theorem drives_userSetKillTimer : Drives (handleUserSetKillTimer ctx now senderID msg) := by
  refine Drives.respond ?_ now senderID msg
  refine (reads_requireLevel _ _ _).bind_drives fun _ => Drives.unless ?_
  refine (reads_requireFields _ _).bind_drives fun f => (reads_orPanic _).bind_drives fun _ => ?_
  refine (reads_requireFields _ _).bind_drives fun f => (reads_orPanic _).bind_drives fun _ => ?_
  exact Drives.unless fun w => .inr ⟨_, .setUser _ _⟩

theorem drives_userCancelKillTimer : Drives (handleUserCancelKillTimer ctx now senderID msg) := by
  refine Drives.respond ?_ now senderID msg
  refine (reads_requireLevel _ _ _).bind_drives fun _ => Drives.unless ?_
  refine (reads_requireString _).bind_drives fun targetUserID => ?_
  exact fun w => .inr ⟨_, .cancelUser _⟩

end Calls

section Manager

/-- The manager has the entries that the handlers see. -/
structure TimerManager.Shows (tm : TimerManager) (w : World π σ δ τ) : Prop where
  server : tm.serverTimer.isSome = w.serverTimer.isSome
  users : ∀ u, (tm.userTimers.lookup u).isSome = (w.userTimers.lookup u).isSome

namespace TimerManager

variable {tm : TimerManager} {w w' : World π σ δ τ}

theorem Shows.step {a : TimerAction} (h : tm.Shows w) (ha : Enters w a w') :
    ∃ tm', tm.step a = some tm' ∧ tm'.Shows w' := by
  cases ha with
  | setServer t =>
    refine ⟨_, rfl, rfl, fun u => ?_⟩
    rw [userTimers_setServerKillTimer]
    exact h.users u
  | cancelServer =>
    refine ⟨_, rfl, rfl, fun u => ?_⟩
    rw [userTimers_cancelServerKillTimer]
    exact h.users u
  | setUser clientID t =>
    refine ⟨_, rfl, ?_, fun u => ?_⟩
    · exact (congrArg Option.isSome (serverTimer_stopExisting _)).trans h.server
    · rw [setUserKillTimer, GoMap.lookup_insert_ite, GoMap.lookup_insert_ite]
      split_ifs
      · rfl
      · exact h.users u
  | cancelUser clientID =>
    refine ⟨_, rfl, ?_, fun u => ?_⟩
    · exact (congrArg Option.isSome (serverTimer_stopExisting _)).trans h.server
    · rw [cancelUserKillTimer, GoMap.lookup_erase_ite, GoMap.lookup_erase_ite]
      split_ifs
      · rfl
      · exact h.users u

/-- Every run of a handler that drives the manager is a run of the manager. -/
theorem Shows.run {x : Run π σ δ τ MUSMessage} (hx : Drives x) (h : tm.Shows w) :
    ∃ as tm', runFrom TimerManager.step tm as = some tm' ∧ tm'.Shows (endState (x w)) := by
  rcases hx w with hsame | ⟨a, ha⟩
  · refine ⟨[], tm, rfl, ?_⟩
    rw [hsame]
    exact h
  · obtain ⟨tm', hstep, hshows⟩ := h.step ha
    refine ⟨[a], tm', ?_, hshows⟩
    simp only [runFrom, hstep]

end TimerManager

/-- The commands are runs of the manager, whatever they answer. -/
theorem timer_commands_refine (ctx : Context π σ δ τ) (now : ℤ) (senderID : GoString)
    (msg : MUSMessage) {x : Run π σ δ τ MUSMessage}
    (hx : x ∈ [handleServerSetKillTimer ctx now senderID msg,
      handleServerCancelKillTimer ctx now senderID msg, handleUserSetKillTimer ctx now senderID msg,
      handleUserCancelKillTimer ctx now senderID msg])
    {tm : TimerManager} {w : World π σ δ τ} (h : tm.Shows w) :
    ∃ as tm', runFrom TimerManager.step tm as = some tm' ∧ tm'.Shows (endState (x w)) := by
  have hdrives : Drives x := by
    simp only [List.mem_cons, List.not_mem_nil, or_false] at hx
    rcases hx with rfl | rfl | rfl | rfl
    · exact drives_serverSetKillTimer ctx now senderID msg
    · exact drives_serverCancelKillTimer ctx now senderID msg
    · exact drives_userSetKillTimer ctx now senderID msg
    · exact drives_userCancelKillTimer ctx now senderID msg
  exact TimerManager.Shows.run hdrives h

end Manager

end Musgos.Inbound
