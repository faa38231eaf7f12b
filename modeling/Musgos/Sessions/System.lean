import Musgos.Services.Session
import Musgos.Inbound.ConnPool
import Musgos.Foundation.Transition

/-!
# Connections, logons and removals as a transition system

Every connection is served by its own goroutine: it registers in the pool and in
the session store, runs logons, and when its read loop ends it is torn down.
Forced removals (an administrator's delete, a kill timer, the idle checker) run
beside them. Each call on the pool or the session store is one atomic step, and
any goroutine may take the next one.
-/
namespace Musgos.Sessions

open Foundation Domain Inbound Services

/-- The calls of `establishSession` still to come, first one next. -/
inductive Stage where
  | guard
  | remap
  | lookup
  | unregister (ip : GoString)
  | register (ip : GoString)
  | stamp
  deriving DecidableEq

/-- A logon attempt that was authenticated, and how far it has come. -/
structure Attempt where
  connectionID : GoString
  userID : GoString
  level : ℤ
  stage : Stage
  deriving DecidableEq

/-- Where the goroutine of a connection stands. -/
inductive Ctrl where
  | absent
  /-- In the pool, before the session store knows the connection. -/
  | registering
  | idle
  | logon (a : Attempt)
  /-- Out of the pool with the id it had; `hook` is true once `onDisconnect` has run. -/
  | torn (id : GoString) (hook : Bool)
  | gone
  deriving DecidableEq

/-- The calls of a forced removal still to come, first one next. -/
inductive RemovalStage where
  | leaveAllRooms
  | unregister
  | disconnect
  deriving DecidableEq

/-- The pool and the session store, with the goroutine of every connection and the
forced removals. -/
structure Server (C σ : Type) where
  pool : ConnPool C
  sessions : σ
  ctrl : C → Ctrl
  /-- The socket has been accepted and not closed. -/
  live : C → Bool
  /-- The userID and level of the latest `LogonOK`. -/
  lastOK : C → Option (GoString × ℤ)
  /-- The result of the latest finished attempt. -/
  outcome : C → Option LogonCode
  /-- The forced removals under way, with their targets. -/
  removals : GoMap ℕ (GoString × RemovalStage)

/-- The next step of the system. `proceed` makes the next call of a logon, `teardown`
that of a teardown, and `removal` that of a forced removal. -/
inductive Action (C : Type) where
  | connect (c : C)
  | registerSession (c : C) (now : ℤ)
  | startLogon (c : C) (userID : GoString) (level : ℤ)
  | proceed (c : C) (now : ℤ)
  | close (c : C)
  | endLoop (c : C)
  | teardown (c : C)
  | startRemoval (r : ℕ) (target : GoString)
  | removal (r : ℕ)

variable {C σ : Type} [DecidableEq C]

namespace Server

def setCtrl (s : Server C σ) (c : C) (k : Ctrl) : Server C σ :=
  { s with ctrl := Function.update s.ctrl c k }

/-- The attempt of `c` ends in `LogonRefused`. -/
def refuse (s : Server C σ) (c : C) : Server C σ :=
  { s.setCtrl c .idle with outcome := Function.update s.outcome c (some .refused) }

/-- The attempt of `c` ends in `LogonOK`. -/
def accept (s : Server C σ) (c : C) (userID : GoString) (level : ℤ) : Server C σ :=
  { s.setCtrl c .idle with
    outcome := Function.update s.outcome c (some .ok)
    lastOK := Function.update s.lastOK c (some (userID, level)) }

/-- Closing the socket of a connection, if there is one. -/
def closeSocket (s : Server C σ) : Option C → Server C σ
  | none => s
  | some c => { s with live := Function.update s.live c false }

/-- No connection has been accepted and nothing is stored. -/
def init (empty : σ) : Server C σ where
  pool := .new
  sessions := empty
  ctrl _ := .absent
  live _ := false
  lastOK _ := none
  outcome _ := none
  removals := ∅

end Server

variable (store : SessionStore σ) (addr : C → GoString)

/-- The next call of the attempt of `c`. -/
def attemptStep (s : Server C σ) (c : C) (a : Attempt) (now : ℤ) : Server C σ :=
  match a.stage with
  | .guard =>
    if guardRefuses store s.sessions a.connectionID a.userID then s.refuse c
    else s.setCtrl c (.logon { a with stage := .remap })
  | .remap =>
    let r := s.pool.remapClientID a.connectionID a.userID
    if r.2 then { s.setCtrl c (.logon { a with stage := .lookup }) with pool := r.1 }
    else s.refuse c
  | .lookup =>
    s.setCtrl c (.logon { a with
      stage := .unregister (preservedIP store s.sessions a.connectionID) })
  | .unregister ip =>
    { s.setCtrl c (.logon { a with stage := .register ip }) with
      sessions := (store.unregisterConnection a.connectionID s.sessions).2 }
  | .register ip =>
    { s.setCtrl c (.logon { a with stage := .stamp }) with
      sessions := (store.registerConnection now a.userID ip s.sessions).2 }
  | .stamp =>
    { s.accept c a.userID a.level with
      sessions := stampLevel store a.userID a.level s.sessions }

/-- The next call of the teardown of `c`, which left the pool as `id`. The script
run by `onDisconnect` touches neither the pool nor the sessions. -/
def teardownStep (s : Server C σ) (c : C) (id : GoString) (hook : Bool) : Server C σ :=
  if hook then
    { s.setCtrl c .gone with sessions := (store.unregisterConnection id s.sessions).2 }
  else s.setCtrl c (.torn id true)

/-- The next call of the removal `r`. -/
def removalStep (s : Server C σ) (r : ℕ) (target : GoString) : RemovalStage → Server C σ
  | .leaveAllRooms =>
    { s with
      sessions := (store.leaveAllRooms target s.sessions).2
      removals := s.removals.insert r (target, .unregister) }
  | .unregister =>
    { s with
      sessions := (store.unregisterConnection target s.sessions).2
      removals := s.removals.insert r (target, .disconnect) }
  | .disconnect =>
    { s.closeSocket (s.pool.clients.lookup target) with removals := s.removals.erase r }

def step (s : Server C σ) : Action C → Option (Server C σ)
  | .connect c =>
    match s.ctrl c with
    | .absent =>
      -- connections in the pool have distinct remote addresses
      if ∀ d ∈ s.pool.connToID.keys, addr d ≠ addr c then
        some { s.setCtrl c .registering with
          pool := s.pool.register c (addr c)
          live := Function.update s.live c true }
      else none
    | _ => none
  | .registerSession c now =>
    match s.ctrl c with
    | .registering =>
      some { s.setCtrl c .idle with
        sessions := (store.registerConnection now (addr c) (addr c) s.sessions).2 }
    | _ => none
  | .startLogon c userID level =>
    match s.ctrl c with
    | .idle => some (s.setCtrl c (.logon ⟨s.pool.currentID c, userID, level, .guard⟩))
    | _ => none
  | .proceed c now =>
    match s.ctrl c with
    | .logon a => some (attemptStep store s c a now)
    | _ => none
  | .close c => if s.live c then some (s.closeSocket (some c)) else none
  | .endLoop c =>
    match s.ctrl c with
    | .idle =>
      some { s.setCtrl c (.torn (s.pool.unregister c).2 false) with
        pool := (s.pool.unregister c).1
        live := Function.update s.live c false }
    | _ => none
  | .teardown c =>
    match s.ctrl c with
    | .torn id hook => some (teardownStep store s c id hook)
    | _ => none
  | .startRemoval r target =>
    match s.removals.lookup r with
    | none => some { s with removals := s.removals.insert r (target, .leaveAllRooms) }
    | some _ => none
  | .removal r =>
    match s.removals.lookup r with
    | none => none
    | some (target, stage) => some (removalStep store s r target stage)

/-- What a step can do, one case for each call of the source. -/
inductive Step (s : Server C σ) : Action C → Server C σ → Prop
  | connect {c} : s.ctrl c = .absent → (∀ d ∈ s.pool.connToID.keys, addr d ≠ addr c) →
      Step s (.connect c) { s.setCtrl c .registering with
        pool := s.pool.register c (addr c)
        live := Function.update s.live c true }
  | registerSession {c now} : s.ctrl c = .registering →
      Step s (.registerSession c now) { s.setCtrl c .idle with
        sessions := (store.registerConnection now (addr c) (addr c) s.sessions).2 }
  | startLogon {c userID level} : s.ctrl c = .idle →
      Step s (.startLogon c userID level)
        (s.setCtrl c (.logon ⟨s.pool.currentID c, userID, level, .guard⟩))
  | guardRefused {c now old new level} : s.ctrl c = .logon ⟨old, new, level, .guard⟩ →
      guardRefuses store s.sessions old new = true → Step s (.proceed c now) (s.refuse c)
  | guardPassed {c now old new level} : s.ctrl c = .logon ⟨old, new, level, .guard⟩ →
      guardRefuses store s.sessions old new = false →
      Step s (.proceed c now) (s.setCtrl c (.logon ⟨old, new, level, .remap⟩))
  | remapRefused {c now old new level} : s.ctrl c = .logon ⟨old, new, level, .remap⟩ →
      (s.pool.remapClientID old new).2 = false → Step s (.proceed c now) (s.refuse c)
  | remapped {c now old new level} : s.ctrl c = .logon ⟨old, new, level, .remap⟩ →
      (s.pool.remapClientID old new).2 = true →
      Step s (.proceed c now) { s.setCtrl c (.logon ⟨old, new, level, .lookup⟩) with
        pool := (s.pool.remapClientID old new).1 }
  | lookup {c now old new level} : s.ctrl c = .logon ⟨old, new, level, .lookup⟩ →
      Step s (.proceed c now) (s.setCtrl c
        (.logon ⟨old, new, level, .unregister (preservedIP store s.sessions old)⟩))
  | unregisterOld {c now old new level ip} :
      s.ctrl c = .logon ⟨old, new, level, .unregister ip⟩ →
      Step s (.proceed c now) { s.setCtrl c (.logon ⟨old, new, level, .register ip⟩) with
        sessions := (store.unregisterConnection old s.sessions).2 }
  | registerNew {c now old new level ip} : s.ctrl c = .logon ⟨old, new, level, .register ip⟩ →
      Step s (.proceed c now) { s.setCtrl c (.logon ⟨old, new, level, .stamp⟩) with
        sessions := (store.registerConnection now new ip s.sessions).2 }
  | stamp {c now old new level} : s.ctrl c = .logon ⟨old, new, level, .stamp⟩ →
      Step s (.proceed c now) { s.accept c new level with
        sessions := stampLevel store new level s.sessions }
  | close {c} : s.live c = true → Step s (.close c) (s.closeSocket (some c))
  | endLoop {c} : s.ctrl c = .idle →
      Step s (.endLoop c) { s.setCtrl c (.torn (s.pool.unregister c).2 false) with
        pool := (s.pool.unregister c).1
        live := Function.update s.live c false }
  | onDisconnect {c id} : s.ctrl c = .torn id false →
      Step s (.teardown c) (s.setCtrl c (.torn id true))
  | sessionUnregister {c id} : s.ctrl c = .torn id true →
      Step s (.teardown c) { s.setCtrl c .gone with
        sessions := (store.unregisterConnection id s.sessions).2 }
  | startRemoval {r target} : s.removals.lookup r = none →
      Step s (.startRemoval r target)
        { s with removals := s.removals.insert r (target, .leaveAllRooms) }
  | leaveAllRooms {r target} : s.removals.lookup r = some (target, .leaveAllRooms) →
      Step s (.removal r) { s with
        sessions := (store.leaveAllRooms target s.sessions).2
        removals := s.removals.insert r (target, .unregister) }
  | removeSession {r target} : s.removals.lookup r = some (target, .unregister) →
      Step s (.removal r) { s with
        sessions := (store.unregisterConnection target s.sessions).2
        removals := s.removals.insert r (target, .disconnect) }
  | disconnect {r target} : s.removals.lookup r = some (target, .disconnect) →
      Step s (.removal r)
        { s.closeSocket (s.pool.clients.lookup target) with removals := s.removals.erase r }

variable {store addr}

section Cases

variable {s s' : Server C σ} {c : C} {now : ℤ}

theorem connect_cases (h : step store addr s (.connect c) = some s') :
    Step store addr s (.connect c) s' := by
  cases hc : s.ctrl c <;> simp only [step, hc] at h <;> try contradiction
  split_ifs at h with haddr
  obtain rfl := Option.some.inj h
  exact .connect hc haddr

theorem registerSession_cases (h : step store addr s (.registerSession c now) = some s') :
    Step store addr s (.registerSession c now) s' := by
  cases hc : s.ctrl c <;> simp only [step, hc] at h <;> try contradiction
  obtain rfl := Option.some.inj h
  exact .registerSession hc

theorem startLogon_cases {userID : GoString} {level : ℤ}
    (h : step store addr s (.startLogon c userID level) = some s') :
    Step store addr s (.startLogon c userID level) s' := by
  cases hc : s.ctrl c <;> simp only [step, hc] at h <;> try contradiction
  obtain rfl := Option.some.inj h
  exact .startLogon hc

theorem attemptStep_cases {a : Attempt} (hc : s.ctrl c = .logon a) :
    Step store addr s (.proceed c now) (attemptStep store s c a now) := by
  obtain ⟨old, new, level, stage⟩ := a
  cases stage with
  | guard =>
    simp only [attemptStep]
    split_ifs with hguard
    · exact .guardRefused hc hguard
    · exact .guardPassed hc (by simpa using hguard)
  | remap =>
    simp only [attemptStep]
    split_ifs with hremap
    · exact .remapped hc hremap
    · exact .remapRefused hc (by simpa using hremap)
  | lookup => exact .lookup hc
  | unregister ip => exact .unregisterOld hc
  | register ip => exact .registerNew hc
  | stamp => exact .stamp hc

theorem proceed_cases (h : step store addr s (.proceed c now) = some s') :
    Step store addr s (.proceed c now) s' := by
  cases hc : s.ctrl c <;> simp only [step, hc] at h <;> try contradiction
  obtain rfl := Option.some.inj h
  exact attemptStep_cases hc

theorem close_cases (h : step store addr s (.close c) = some s') :
    Step store addr s (.close c) s' := by
  simp only [step] at h
  split_ifs at h with hlive
  obtain rfl := Option.some.inj h
  exact .close hlive

theorem endLoop_cases (h : step store addr s (.endLoop c) = some s') :
    Step store addr s (.endLoop c) s' := by
  cases hc : s.ctrl c <;> simp only [step, hc] at h <;> try contradiction
  obtain rfl := Option.some.inj h
  exact .endLoop hc

theorem teardown_cases (h : step store addr s (.teardown c) = some s') :
    Step store addr s (.teardown c) s' := by
  cases hc : s.ctrl c <;> simp only [step, hc] at h <;> try contradiction
  rename_i id hook
  obtain rfl := Option.some.inj h
  cases hook with
  | false => exact .onDisconnect hc
  | true => exact .sessionUnregister hc

theorem startRemoval_cases {r : ℕ} {target : GoString}
    (h : step store addr s (.startRemoval r target) = some s') :
    Step store addr s (.startRemoval r target) s' := by
  cases hr : s.removals.lookup r <;> simp only [step, hr] at h <;> try contradiction
  obtain rfl := Option.some.inj h
  exact .startRemoval hr

theorem removal_cases {r : ℕ} (h : step store addr s (.removal r) = some s') :
    Step store addr s (.removal r) s' := by
  cases hr : s.removals.lookup r <;> simp only [step, hr] at h <;> try contradiction
  rename_i entry
  obtain ⟨target, stage⟩ := entry
  obtain rfl := Option.some.inj h
  cases stage with
  | leaveAllRooms => exact .leaveAllRooms hr
  | unregister => exact .removeSession hr
  | disconnect => exact .disconnect hr

theorem step_cases {a : Action C} (h : step store addr s a = some s') :
    Step store addr s a s' := by
  cases a with
  | connect c => exact connect_cases h
  | registerSession c now => exact registerSession_cases h
  | startLogon c userID level => exact startLogon_cases h
  | proceed c now => exact proceed_cases h
  | close c => exact close_cases h
  | endLoop c => exact endLoop_cases h
  | teardown c => exact teardown_cases h
  | startRemoval r target => exact startRemoval_cases h
  | removal r => exact removal_cases h

end Cases

/-- Taken without interruption, the calls of an attempt are `establishSession`, run
with a connection writer that remaps in the pool. -/
theorem proceed_establishSession {writer : ConnectionWriter (ConnPool C)}
    (hwriter : ∀ old new p, writer.remapClientID old new p = p.remapClientID old new)
    {s : Server C σ} {c : C} {old new : GoString} {level : ℤ}
    (hc : s.ctrl c = .logon ⟨old, new, level, .guard⟩) (now : ℤ) (movieID : GoString) :
    ∃ k t, runFrom (step store addr) s (List.replicate k (.proceed c now)) = some t ∧
      t.ctrl c = .idle ∧
      (some (establishSession store (some writer) now old new movieID level s.pool
          s.sessions).1.code,
        (establishSession store (some writer) now old new movieID level s.pool s.sessions).2) =
      (t.outcome c, t.pool, t.sessions) := by
  by_cases hguard : guardRefuses store s.sessions old new = true
  · refine ⟨1, s.refuse c, ?_, ?_, ?_⟩
    · simp [runFrom, step, attemptStep, hc, hguard]
    · simp [Server.refuse, Server.setCtrl]
    · simp [establishSession, hguard, Server.refuse, Server.setCtrl, LogonResult.failed]
  · by_cases hremap : (s.pool.remapClientID old new).2 = true
    · refine ⟨6, ?_⟩
      simp [List.replicate, runFrom, step, attemptStep, hc, hguard, hremap, Server.setCtrl,
        Server.accept, establishSession, remapConnection, hwriter]
    · refine ⟨2, ?_⟩
      have hsame : (s.pool.remapClientID old new).1 = s.pool := by
        obtain ⟨hfalse, -⟩ | ⟨conn, -, -, hok, -⟩ := s.pool.remapClientID_cases old new
        · rw [hfalse]
        · exact absurd hok hremap
      simp [List.replicate, runFrom, step, attemptStep, hc, hguard, hremap, Server.setCtrl,
        Server.refuse, establishSession, remapConnection, hwriter, hsame, LogonResult.failed]

section Placement

/-- The id a connection in a logon is bound to: the old one up to the remap. -/
def Attempt.boundID (a : Attempt) : GoString :=
  match a.stage with
  | .guard | .remap => a.connectionID
  | .lookup | .unregister _ | .register _ | .stamp => a.userID

/-- How a goroutine's place determines the pool's entry for its connection. -/
def Ctrl.BoundTo (k : Ctrl) (id : Option GoString) : Prop :=
  match k with
  | .absent | .torn _ _ | .gone => id = none
  | .registering | .idle => id.isSome
  | .logon a => id = some a.boundID

/-- The pool is a bijection and agrees with where the goroutines stand. -/
structure Placed (pool : ConnPool C) (ctrl : C → Ctrl) : Prop where
  bijective : pool.Bijective
  bound : ∀ c, (ctrl c).BoundTo (pool.connToID.lookup c)

theorem Placed.update {pool pool' : ConnPool C} {ctrl : C → Ctrl} (h : Placed pool ctrl) {c : C}
    {k : Ctrl} (hb : pool'.Bijective) (hc : k.BoundTo (pool'.connToID.lookup c))
    (hother : ∀ d, d ≠ c → pool'.connToID.lookup d = pool.connToID.lookup d) :
    Placed pool' (Function.update ctrl c k) := by
  refine ⟨hb, fun d => ?_⟩
  by_cases hd : d = c
  · subst hd
    simpa using hc
  · rw [Function.update_of_ne hd, hother d hd]
    exact h.bound d

theorem Placed.move {pool : ConnPool C} {ctrl : C → Ctrl} (h : Placed pool ctrl) {c : C} {k : Ctrl}
    (hc : k.BoundTo (pool.connToID.lookup c)) : Placed pool (Function.update ctrl c k) :=
  h.update h.bijective hc fun _ _ => rfl

theorem Placed.lookup_of_logon {pool : ConnPool C} {ctrl : C → Ctrl} (h : Placed pool ctrl) {c : C}
    {a : Attempt} (hc : ctrl c = .logon a) : pool.connToID.lookup c = some a.boundID := by
  have hbound := h.bound c
  rwa [hc] at hbound

theorem Placed.isSome_of_idle {pool : ConnPool C} {ctrl : C → Ctrl} (h : Placed pool ctrl) {c : C}
    (hc : ctrl c = .idle) : (pool.connToID.lookup c).isSome := by
  have hbound := h.bound c
  rwa [hc] at hbound

theorem Placed.advance {pool : ConnPool C} {ctrl : C → Ctrl} (h : Placed pool ctrl) {c : C}
    {a a' : Attempt} (hc : ctrl c = .logon a) (hid : a'.boundID = a.boundID) :
    Placed pool (Function.update ctrl c (.logon a')) := by
  apply h.move
  have hbound := h.lookup_of_logon hc
  rwa [← hid] at hbound

theorem Placed.finish {pool : ConnPool C} {ctrl : C → Ctrl} (h : Placed pool ctrl) {c : C}
    {a : Attempt} (hc : ctrl c = .logon a) : Placed pool (Function.update ctrl c .idle) :=
  h.move (by simp [Ctrl.BoundTo, h.lookup_of_logon hc])

theorem Placed.lookup_eq_none {pool : ConnPool C} {ctrl : C → Ctrl} (h : Placed pool ctrl) {c : C}
    {id : GoString} {hook : Bool} (hc : ctrl c = .torn id hook) :
    pool.connToID.lookup c = none := by
  have hbound := h.bound c
  rwa [hc] at hbound

theorem placed_init (empty : σ) :
    Placed (Server.init empty : Server C σ).pool (Server.init empty : Server C σ).ctrl :=
  ⟨ConnPool.new_bijective, fun c => by simp [Server.init, ConnPool.new, Ctrl.BoundTo]⟩

@[simp] theorem closeSocket_pool (s : Server C σ) (c : Option C) :
    (s.closeSocket c).pool = s.pool := by
  cases c <;> rfl

@[simp] theorem closeSocket_ctrl (s : Server C σ) (c : Option C) :
    (s.closeSocket c).ctrl = s.ctrl := by
  cases c <;> rfl

@[simp] theorem closeSocket_sessions (s : Server C σ) (c : Option C) :
    (s.closeSocket c).sessions = s.sessions := by
  cases c <;> rfl

@[simp] theorem closeSocket_lastOK (s : Server C σ) (c : Option C) :
    (s.closeSocket c).lastOK = s.lastOK := by
  cases c <;> rfl

/-- Every step keeps the pool a bijection that agrees with the goroutines, provided
that a new connection finds its address unbound. -/
theorem Placed.step {s s' : Server C σ} {a : Action C} (h : Placed s.pool s.ctrl)
    (hs : Step store addr s a s')
    (hconnect : ∀ c, a = .connect c → s.pool.clients.lookup (addr c) = none) :
    Placed s'.pool s'.ctrl := by
  cases hs with
  | @connect c hc haddr =>
    have hnone : s.pool.connToID.lookup c = none := by
      have hbound := h.bound c
      rwa [hc] at hbound
    refine h.update (h.bijective.register hnone (hconnect c rfl)) ?_ ?_
    · simp [Ctrl.BoundTo]
    · intro d hd
      simp [hd]
  | @registerSession c now hc =>
    have hbound := h.bound c
    rw [hc] at hbound
    exact h.move hbound
  | startLogon hc =>
    obtain ⟨id, hid⟩ := Option.isSome_iff_exists.mp (h.isSome_of_idle hc)
    apply h.move
    simp [Ctrl.BoundTo, Attempt.boundID, ConnPool.currentID, hid]
  | guardRefused hc _ => exact h.finish hc
  | guardPassed hc _ => exact h.advance hc rfl
  | remapRefused hc _ => exact h.finish hc
  | remapped hc hok =>
    have hbound := h.lookup_of_logon hc
    have hids := ConnPool.remapClientID_connToID h.bijective hbound hok
    simp only [Attempt.boundID] at hids
    refine h.update (h.bijective.remapClientID _ _) ?_ ?_
    · simp [Ctrl.BoundTo, Attempt.boundID, hids]
    · intro d hd
      simp [hids, hd]
  | lookup hc => exact h.advance hc rfl
  | unregisterOld hc => exact h.advance hc rfl
  | registerNew hc => exact h.advance hc rfl
  | stamp hc => exact h.finish hc
  | close _ => simpa using h
  | endLoop hc =>
    refine h.update (h.bijective.unregister (h.isSome_of_idle hc)) ?_ ?_
    · simp [Ctrl.BoundTo]
    · intro d hd
      simp [hd]
  | onDisconnect hc => exact h.move (h.lookup_eq_none hc)
  | sessionUnregister hc => exact h.move (h.lookup_eq_none hc)
  | startRemoval _ => exact h
  | leaveAllRooms _ => exact h
  | removeSession _ => exact h
  | disconnect _ => simpa using h

/-- A connection that has not served a message yet has no `LogonOK` either. -/
def Unlogged (ctrl : C → Ctrl) (lastOK : C → Option (GoString × ℤ)) : Prop :=
  ∀ c, ctrl c = .absent ∨ ctrl c = .registering → lastOK c = none

omit [DecidableEq C] in
theorem unlogged_init (empty : σ) :
    Unlogged (Server.init empty : Server C σ).ctrl (Server.init empty : Server C σ).lastOK :=
  fun _ _ => rfl

theorem Unlogged.update {ctrl : C → Ctrl} {lastOK lastOK' : C → Option (GoString × ℤ)}
    (h : Unlogged ctrl lastOK) {c : C} {k : Ctrl} (hk : k ≠ .absent ∧ k ≠ .registering)
    (hother : ∀ d, d ≠ c → lastOK' d = lastOK d) :
    Unlogged (Function.update ctrl c k) lastOK' := by
  intro d hd
  by_cases hdc : d = c
  · subst hdc
    rw [Function.update_self] at hd
    exact absurd hd (not_or.mpr hk)
  · rw [Function.update_of_ne hdc] at hd
    rw [hother d hdc]
    exact h d hd

theorem Unlogged.step {s s' : Server C σ} {a : Action C} (h : Unlogged s.ctrl s.lastOK)
    (hs : Step store addr s a s') : Unlogged s'.ctrl s'.lastOK := by
  cases hs with
  | @connect c hc _ =>
    intro d hd
    by_cases hdc : d = c
    · subst hdc
      exact h d (.inl hc)
    · simp only [Server.setCtrl, Function.update_of_ne hdc] at hd
      exact h d hd
  | stamp _ => exact h.update (by simp) (fun d hd => by simp [Server.accept, hd])
  | close _ => simpa using h
  | disconnect _ => simpa using h
  | startRemoval _ => exact h
  | leaveAllRooms _ => exact h
  | removeSession _ => exact h
  | _ => exact h.update (by simp) (fun _ _ => rfl)

end Placement

end Musgos.Sessions
