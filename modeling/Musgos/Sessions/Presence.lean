import Musgos.Sessions.Takeover

/-!
# Session presence

The pool says who is connected under a name, the session store says with which
level, and four kinds of goroutines update the two in different orders. In a quiet
state the stores should agree. They can disagree: a teardown or a second logon
removes the session of a name it gave up in the pool earlier, and somebody else may
have logged on under that name since. Runs in which these late removals spare the
sessions of others keep the stores in agreement.
-/
namespace Musgos.Sessions

open Foundation Domain Inbound Services

section Store

variable {σ : Type} (store : SessionStore σ)

def Registered (m : σ) (u : GoString) : Prop := (existing store m u).isSome

/-- The session attribute that authorization reads has this level. -/
def Carries (m : σ) (u : GoString) (level : ℤ) : Prop :=
  store.getUserAttribute u userLevelAttribute m = .ok (levelValue level)

/-- The change from `m` to `m'` leaves the session of `u` alone. -/
structure Keeps (m m' : σ) (u : GoString) : Prop where
  registered : Registered store m u → Registered store m' u
  level : store.getUserAttribute u userLevelAttribute m' =
    store.getUserAttribute u userLevelAttribute m

/-- What a session store whose operations succeed is for, as far as presence goes. -/
structure LawfulSessions : Prop where
  register : ∀ now id ip m, Registered store (store.registerConnection now id ip m).2 id
  register_keeps : ∀ now id ip m u, Keeps store m (store.registerConnection now id ip m).2 u
  unregister_keeps : ∀ id m u, u ≠ id → Keeps store m (store.unregisterConnection id m).2 u
  leaveAllRooms_keeps : ∀ id m u, Keeps store m (store.leaveAllRooms id m).2 u
  stamp : ∀ id level m, Carries store (stampLevel store id level m) id level
  stamp_registered : ∀ id level m u, Registered store m u →
    Registered store (stampLevel store id level m) u
  stamp_keeps : ∀ id level m u, u ≠ id → Keeps store m (stampLevel store id level m) u

end Store

open Outbound in
theorem memorySessionStore_lawful (ord : RangeOrder GoString) :
    LawfulSessions (MemorySessionStore.port ord) where
  register now id ip m := by
    simp [Registered, existing, MemorySessionStore.port, MemorySessionStore.getConnection,
      MemorySessionStore.registerConnection]
  register_keeps now id ip m u := by
    refine ⟨?_, rfl⟩
    simp only [Registered, existing, MemorySessionStore.port, MemorySessionStore.getConnection,
      MemorySessionStore.registerConnection, GoMap.lookup_insert_ite]
    split_ifs <;> simp
  unregister_keeps id m u hne := by
    refine ⟨?_, ?_⟩
    · simp [Registered, existing, MemorySessionStore.port, MemorySessionStore.getConnection, hne]
    · simp [MemorySessionStore.port, MemorySessionStore.getUserAttribute_unregister, hne]
  leaveAllRooms_keeps id m u := by
    refine ⟨?_, ?_⟩
    · simp [Registered, existing, MemorySessionStore.port, MemorySessionStore.getConnection]
    · simp [MemorySessionStore.port, MemorySessionStore.getUserAttribute]
  stamp id level m := by
    simp [Carries, stampLevel, MemorySessionStore.port, MemorySessionStore.getUserAttribute_set]
  stamp_registered id level m u h := h
  stamp_keeps id level m u hne := by
    refine ⟨fun h => h, ?_⟩
    simp [stampLevel, MemorySessionStore.port, MemorySessionStore.getUserAttribute_set, hne]

variable {C σ : Type} [DecidableEq C] {store : SessionStore σ} {addr : C → GoString}

/-- No logon, forced removal or teardown is pending; a closed connection whose read
loop has not ended yet still has its teardown to come. -/
structure Quiet (s : Server C σ) : Prop where
  logon : ∀ c a, s.ctrl c ≠ .logon a
  torn : ∀ c id hook, s.ctrl c ≠ .torn id hook
  closed : ∀ c, s.ctrl c = .registering ∨ s.ctrl c = .idle → s.live c = true
  removals : ∀ r, s.removals.lookup r = none

/-- Every open connection that is bound to the name of its latest `LogonOK` has a
session under it, with the level of that logon. -/
def SessionsPresent (store : SessionStore σ) (s : Server C σ) : Prop :=
  ∀ c u n, s.live c = true → s.lastOK c = some (u, n) → s.pool.connToID.lookup c = some u →
    Registered store s.sessions u ∧ Carries store s.sessions u n

/-- The connection is open and has logged on under the name, or has registered its session and
is about to stamp it. -/
def Server.reliesOn (s : Server C σ) (c : C) (name : GoString) : Bool :=
  s.live c && match s.ctrl c with
    | .idle => (s.lastOK c).any (·.1 = name)
    | .logon a => a.stage = .stamp ||
      (a.stage = .guard || a.stage = .remap) && (s.lastOK c).any (·.1 = name)
    | _ => false

/-- A new connection finds its address unbound, and a goroutine that removes the
session of a name it gave up in the pool finds nobody else there who relies on it. -/
def spares (addr : C → GoString) (s : Server C σ) : Action C → Bool
  | .connect c => (s.pool.clients.lookup (addr c)).isNone
  | .proceed c _ =>
    match s.ctrl c with
    | .logon ⟨old, _, _, .unregister _⟩ =>
      (s.pool.clients.lookup old).all fun d => d = c || !s.reliesOn d old
    | _ => true
  | .teardown c =>
    match s.ctrl c with
    | .torn id true => (s.pool.clients.lookup id).all fun d => d = c || !s.reliesOn d id
    | _ => true
  | _ => true

/-- A removal has deleted the session and is about to close the connection. -/
def Doomed (removals : GoMap ℕ (GoString × RemovalStage)) (id : Option GoString) : Prop :=
  ∃ u r, id = some u ∧ removals.lookup r = some (u, .disconnect)

theorem Doomed.insert {removals : GoMap ℕ (GoString × RemovalStage)} {id : Option GoString}
    (h : Doomed removals id) {r : ℕ} (hr : ∀ u, removals.lookup r ≠ some (u, .disconnect))
    (x : GoString × RemovalStage) : Doomed (removals.insert r x) id := by
  obtain ⟨u, r', hu, hr'⟩ := h
  have hne : r' ≠ r := by
    rintro rfl
    exact hr u hr'
  exact ⟨u, r', hu, by simpa [hne] using hr'⟩

/-- What the session store owes a connection at its goroutine's place. -/
structure Owed (store : SessionStore σ) (id : Option GoString) (k : Ctrl)
    (ok : Option (GoString × ℤ)) (m : σ) : Prop where
  settled : k.Settled → ∀ u n, ok = some (u, n) → id = some u →
    Registered store m u ∧ Carries store m u n
  stamping : ∀ a, k = .logon a → a.stage = .stamp → ∀ u, id = some u → Registered store m u

namespace Owed

variable {id : Option GoString} {k : Ctrl} {ok : Option (GoString × ℤ)} {m m' : σ}

theorem mono (h : Owed store id k ok m) (hkeeps : ∀ u, id = some u → Keeps store m m' u) :
    Owed store id k ok m' := by
  refine ⟨?_, ?_⟩
  · intro hk u n hok hu
    obtain ⟨hreg, hcarries⟩ := h.settled hk u n hok hu
    exact ⟨(hkeeps u hu).registered hreg, (hkeeps u hu).level.trans hcarries⟩
  · intro a ha hstage u hu
    exact (hkeeps u hu).registered (h.stamping a ha hstage u hu)

theorem resettle (h : Owed store id k ok m) (hk : k.Settled) {k' : Ctrl} (hk' : k'.Settled) :
    Owed store id k' ok m := by
  refine ⟨fun _ => h.settled hk, ?_⟩
  rintro a rfl hstage
  rcases hk' with hguard | hremap
  · rw [hstage] at hguard
    cases hguard
  · rw [hstage] at hremap
    cases hremap

theorem of_unsettled (hk : ¬ k.Settled) (hstamp : ∀ a, k = .logon a → a.stage ≠ .stamp) :
    Owed store id k ok m :=
  ⟨fun h => absurd h hk, fun a ha hstage => absurd hstage (hstamp a ha)⟩

omit [DecidableEq C] in
/-- A connection that does not rely on the name it is bound to is owed nothing. -/
theorem of_not_reliesOn {s : Server C σ} {c : C} {u : GoString} (hlive : s.live c = true)
    (hrelies : s.reliesOn c u = false) : Owed store (some u) (s.ctrl c) (s.lastOK c) m := by
  simp only [Server.reliesOn, hlive, Bool.true_and] at hrelies
  cases hk : s.ctrl c with
  | idle =>
    rw [hk] at hrelies
    refine ⟨fun _ u' n hok hu => ?_, by simp⟩
    simp [hok, Option.some.inj hu] at hrelies
  | logon a =>
    simp only [hk, Bool.or_eq_false_iff, decide_eq_false_iff_not] at hrelies
    refine ⟨fun hsettled u' n hok hu => ?_, ?_⟩
    · rcases hsettled with hstage | hstage <;> simp [hstage, hok, Option.some.inj hu] at hrelies
    · intro a' ha' hstage
      obtain rfl := Ctrl.logon.inj ha'
      exact absurd hstage hrelies.1
  | absent | registering | torn | gone => exact of_unsettled id (by simp)

/-- Registering the name an attempt is bound to is what its stamping relies on. -/
theorem register (hstore : LawfulSessions store) {old new : GoString} {level : ℤ}
    (hid : id = some new) (now : ℤ) (ip : GoString) :
    Owed store id (.logon ⟨old, new, level, .stamp⟩) ok
      (store.registerConnection now new ip m).2 := by
  refine ⟨by simp [Ctrl.Settled], ?_⟩
  intro a _ _ u hu
  rw [hid] at hu
  obtain rfl := Option.some.inj hu
  exact hstore.register _ _ _ _

/-- The stamp completes what the connection is owed for its `LogonOK`. -/
theorem stamp (hstore : LawfulSessions store) {old new : GoString} {level : ℤ}
    (h : Owed store id (.logon ⟨old, new, level, .stamp⟩) ok m) :
    Owed store id .idle (some (new, level)) (stampLevel store new level m) := by
  refine ⟨?_, by simp⟩
  intro _ u n hok hid
  obtain ⟨rfl, rfl⟩ := Prod.mk.inj (Option.some.inj hok)
  exact ⟨hstore.stamp_registered _ _ _ _ (h.stamping _ rfl rfl _ hid), hstore.stamp _ _ _⟩

end Owed

/-- Every open connection has what it is owed, or is about to be closed. -/
def Served (store : SessionStore σ) (s : Server C σ) : Prop :=
  ∀ c, s.live c = true → Doomed s.removals (s.pool.connToID.lookup c) ∨
    Owed store (s.pool.connToID.lookup c) (s.ctrl c) (s.lastOK c) s.sessions

/-- The connections are served, where the pool and the goroutines agree. -/
structure Attended (store : SessionStore σ) (s : Server C σ) : Prop where
  placed : Placed s.pool s.ctrl
  unlogged : Unlogged s.ctrl s.lastOK
  owed : Served store s

theorem attended_init (empty : σ) : Attended store (Server.init empty : Server C σ) :=
  ⟨placed_init empty, unlogged_init empty, fun c hc => by simp [Server.init] at hc⟩

namespace Attended

variable {s : Server C σ}

/-- What a step does to the sessions is of no matter to the connection. -/
def Spared (store : SessionStore σ) (s : Server C σ) (m : σ) (d : C) : Prop :=
  ∀ u, s.pool.connToID.lookup d = some u → Keeps store s.sessions m u ∨ s.reliesOn d u = false

theorem spared_same {d : C} : Spared store s s.sessions d :=
  fun _ _ => .inl ⟨fun hreg => hreg, rfl⟩

theorem owed_of_spared (h : Attended store s) {m : σ} {d : C} (hd : s.live d = true)
    (hspared : Spared store s m d) :
    Doomed s.removals (s.pool.connToID.lookup d) ∨
      Owed store (s.pool.connToID.lookup d) (s.ctrl d) (s.lastOK d) m := by
  cases hu : s.pool.connToID.lookup d with
  | none => exact .inr ⟨by simp, by simp⟩
  | some u =>
    rcases hspared u hu with hkeeps | hrelies
    · rw [← hu]
      refine (h.owed d hd).imp_right fun howed => howed.mono fun u' hu' => ?_
      obtain rfl := Option.some.inj (hu.symm.trans hu')
      exact hkeeps
    · exact .inr (Owed.of_not_reliesOn hd hrelies)

/-- The goroutine of `c` moves to `k`; the others keep what they are owed because the
step leaves their bindings and logons alone and spares their sessions. -/
theorem update (h : Attended store s) {pool : ConnPool C} {c : C} {k : Ctrl} {live : C → Bool}
    {lastOK : C → Option (GoString × ℤ)} {m : σ}
    (hc : live c = true → Doomed s.removals (pool.connToID.lookup c) ∨
      Owed store (pool.connToID.lookup c) k (lastOK c) m)
    (hother : ∀ d, d ≠ c → pool.connToID.lookup d = s.pool.connToID.lookup d ∧
      lastOK d = s.lastOK d ∧ live d = s.live d)
    (hspared : ∀ d, d ≠ c → Spared store s m d) (d : C) (hd : live d = true) :
    Doomed s.removals (pool.connToID.lookup d) ∨
      Owed store (pool.connToID.lookup d) (Function.update s.ctrl c k d) (lastOK d) m := by
  by_cases hdc : d = c
  · subst hdc
    rw [Function.update_self]
    exact hc hd
  · obtain ⟨hpool, hok, hlive⟩ := hother d hdc
    rw [Function.update_of_ne hdc, hpool, hok]
    rw [hlive] at hd
    exact h.owed_of_spared hd (hspared d hdc)

/-- The goroutine moves on and the session store changes. -/
theorem moveStore (h : Attended store s) {c : C} {k : Ctrl} {m : σ}
    (hc : s.live c = true → Doomed s.removals (s.pool.connToID.lookup c) ∨
      Owed store (s.pool.connToID.lookup c) k (s.lastOK c) m)
    (hspared : ∀ d, d ≠ c → Spared store s m d) (d : C) (hd : s.live d = true) :
    Doomed s.removals (s.pool.connToID.lookup d) ∨
      Owed store (s.pool.connToID.lookup d) (Function.update s.ctrl c k d) (s.lastOK d) m :=
  h.update hc (fun _ _ => ⟨rfl, rfl, rfl⟩) hspared d hd

theorem move (h : Attended store s) {c : C} {k : Ctrl}
    (hc : s.live c = true → Doomed s.removals (s.pool.connToID.lookup c) ∨
      Owed store (s.pool.connToID.lookup c) k (s.lastOK c) s.sessions) (d : C)
    (hd : s.live d = true) :
    Doomed s.removals (s.pool.connToID.lookup d) ∨
      Owed store (s.pool.connToID.lookup d) (Function.update s.ctrl c k d) (s.lastOK d)
        s.sessions :=
  h.moveStore hc (fun _ _ => spared_same) d hd

theorem resettle (h : Attended store s) {c : C} {k k' : Ctrl} (hc : s.ctrl c = k) (hk : k.Settled)
    (hk' : k'.Settled) (d : C) (hd : s.live d = true) :
    Doomed s.removals (s.pool.connToID.lookup d) ∨
      Owed store (s.pool.connToID.lookup d) (Function.update s.ctrl c k' d) (s.lastOK d)
        s.sessions := by
  subst hc
  exact h.move (fun hlive => (h.owed c hlive).imp_right fun howed => howed.resettle hk hk') d hd

/-- Removing the session of a name that nobody but `c` relies on spares the others. -/
theorem unregister_spares (hstore : LawfulSessions store) (h : Attended store s) {c : C}
    {id : GoString}
    (hspares : ((s.pool.clients.lookup id).all fun d => d = c || !s.reliesOn d id) = true) (d : C)
    (hdc : d ≠ c) : Spared store s (store.unregisterConnection id s.sessions).2 d := by
  intro u hu
  by_cases hid : u = id
  · subst hid
    have hclient : s.pool.clients.lookup u = some d := (h.placed.bijective.mirror u d).mpr hu
    rw [hclient] at hspares
    exact .inr (by simpa [hdc] using hspares)
  · exact .inl (hstore.unregister_keeps _ _ _ hid)

/-- The removal `r` has deleted the session of its target. Whoever is bound to the
target is doomed now. -/
theorem removeSession_owed (hstore : LawfulSessions store) (h : Attended store s) {r : ℕ}
    {target : GoString} (hr : s.removals.lookup r = some (target, .unregister)) (d : C)
    (hd : s.live d = true) :
    Doomed (s.removals.insert r (target, .disconnect)) (s.pool.connToID.lookup d) ∨
      Owed store (s.pool.connToID.lookup d) (s.ctrl d) (s.lastOK d)
        (store.unregisterConnection target s.sessions).2 := by
  by_cases htarget : s.pool.connToID.lookup d = some target
  · exact .inl ⟨target, r, htarget, by simp⟩
  · rcases h.owed d hd with hdoomed | howed
    · exact .inl (hdoomed.insert (by simp [hr]) _)
    · refine .inr (howed.mono fun u hu => hstore.unregister_keeps _ _ _ ?_)
      rintro rfl
      exact htarget hu

/-- The removal `r` ends by closing the socket that is bound to its target, so a
connection it had doomed is not open any more. -/
theorem disconnect_owed (h : Attended store s) {r : ℕ} {target : GoString}
    (hr : s.removals.lookup r = some (target, .disconnect)) (d : C)
    (hd : (s.closeSocket (s.pool.clients.lookup target)).live d = true) :
    Doomed (s.removals.erase r) (s.pool.connToID.lookup d) ∨
      Owed store (s.pool.connToID.lookup d) (s.ctrl d) (s.lastOK d) s.sessions := by
  have hlive : s.live d = true ∧ s.pool.clients.lookup target ≠ some d := by
    cases hclient : s.pool.clients.lookup target with
    | none => simpa [hclient, Server.closeSocket] using hd
    | some e =>
      rw [hclient] at hd
      by_cases hde : d = e
      · simp [Server.closeSocket, hde] at hd
      · simp only [Server.closeSocket, Function.update_of_ne hde] at hd
        exact ⟨hd, fun heq => hde (Option.some.inj heq).symm⟩
  rcases h.owed d hlive.1 with ⟨u, r', hu, hr'⟩ | howed
  · have hne : r' ≠ r := by
      rintro rfl
      rw [hr] at hr'
      obtain rfl : target = u := by simpa using hr'
      exact hlive.2 ((h.placed.bijective.mirror _ _).mpr hu)
    exact .inl ⟨u, r', hu, by simpa [hne] using hr'⟩
  · exact .inr howed

section Steps

variable {s' : Server C σ} {c : C} {now : ℤ} {r : ℕ} {target : GoString}

theorem connect_served (h : Attended store s) (hs : Step store addr s (.connect c) s') :
    Served store s' := by
  cases hs with
  | connect hc haddr =>
    apply h.update
    · exact fun _ => .inr (Owed.of_unsettled id (by simp))
    · intro d hd
      exact ⟨by simp [hd], rfl, by simp [hd]⟩
    · exact fun _ _ => spared_same

theorem registerSession_served (hstore : LawfulSessions store) (h : Attended store s)
    (hs : Step store addr s (.registerSession c now) s') : Served store s' := by
  cases hs with
  | registerSession hc =>
    have hnone := h.unlogged c (.inr hc)
    apply h.moveStore
    · exact fun _ => .inr ⟨by simp [hnone], by simp⟩
    · exact fun _ _ u _ => .inl (hstore.register_keeps _ _ _ _ u)

theorem remapped_owed (h : Attended store s) {old new : GoString} {level : ℤ}
    (hc : s.ctrl c = .logon ⟨old, new, level, .remap⟩)
    (hok : (s.pool.remapClientID old new).2 = true) (d : C) (hd : s.live d = true) :
    Doomed s.removals ((s.pool.remapClientID old new).1.connToID.lookup d) ∨
      Owed store ((s.pool.remapClientID old new).1.connToID.lookup d)
        (Function.update s.ctrl c (.logon ⟨old, new, level, .lookup⟩) d) (s.lastOK d)
        s.sessions := by
  have hids :=
    ConnPool.remapClientID_connToID h.placed.bijective (h.placed.lookup_of_logon hc) hok
  simp only [Attempt.boundID] at hids
  apply h.update
  · exact fun _ => .inr (Owed.of_unsettled (by simp [Ctrl.Settled]) (by simp))
  · intro d hd
    exact ⟨by rw [hids, if_neg hd], rfl, rfl⟩
  · exact fun _ _ => spared_same
  · exact hd

theorem stamp_owed (hstore : LawfulSessions store) (h : Attended store s) {old new : GoString}
    {level : ℤ} (hc : s.ctrl c = .logon ⟨old, new, level, .stamp⟩) (d : C)
    (hd : s.live d = true) :
    Doomed s.removals (s.pool.connToID.lookup d) ∨
      Owed store (s.pool.connToID.lookup d) (Function.update s.ctrl c .idle d)
        (Function.update s.lastOK c (some (new, level)) d)
        (stampLevel store new level s.sessions) := by
  have hbound := h.placed.lookup_of_logon hc
  simp only [Attempt.boundID] at hbound
  apply h.update
  · intro hlive
    have howed := h.owed c hlive
    rw [hc] at howed
    rw [Function.update_self]
    exact howed.imp_right fun howed => howed.stamp hstore
  · intro d hd
    exact ⟨rfl, by simp [hd], rfl⟩
  · intro d hd u hu
    refine .inl (hstore.stamp_keeps _ _ _ _ ?_)
    rintro rfl
    exact hd (h.placed.bijective.mirror.right_inj hu hbound)
  · exact hd

theorem proceed_served (hstore : LawfulSessions store) (h : Attended store s)
    (hspares : spares addr s (.proceed c now) = true)
    (hs : Step store addr s (.proceed c now) s') : Served store s' := by
  cases hs with
  | guardRefused hc _ => exact h.resettle hc (.inl rfl) trivial
  | guardPassed hc _ => exact h.resettle hc (.inl rfl) (.inr rfl)
  | remapRefused hc _ => exact h.resettle hc (.inr rfl) trivial
  | remapped hc hok => exact h.remapped_owed hc hok
  | lookup hc =>
    exact h.move fun _ => .inr (Owed.of_unsettled (by simp [Ctrl.Settled]) (by simp))
  | unregisterOld hc =>
    apply h.moveStore
    · exact fun _ => .inr (Owed.of_unsettled (by simp [Ctrl.Settled]) (by simp))
    · exact h.unregister_spares hstore (by simpa [spares, hc] using hspares)
  | @registerNew _ _ old new level ip hc =>
    apply h.moveStore
    · exact fun _ => .inr (.register hstore (h.placed.lookup_of_logon hc) now ip)
    · exact fun _ _ u _ => .inl (hstore.register_keeps _ _ _ _ u)
  | stamp hc => exact h.stamp_owed hstore hc

theorem close_served (h : Attended store s) (hs : Step store addr s (.close c) s') :
    Served store s' := by
  cases hs with
  | close hlive =>
    intro d hd
    simp only [closeSocket_pool, closeSocket_ctrl, closeSocket_lastOK]
    apply h.owed d
    by_cases hdc : d = c
    · simp [Server.closeSocket, hdc] at hd
    · simpa [Server.closeSocket, hdc] using hd

theorem endLoop_served (h : Attended store s) (hs : Step store addr s (.endLoop c) s') :
    Served store s' := by
  cases hs with
  | endLoop hc =>
    apply h.update
    · exact fun _ => .inr (Owed.of_unsettled (fun hs => hs) (by simp))
    · intro d hd
      exact ⟨by simp [hd], rfl, by simp [hd]⟩
    · exact fun _ _ => spared_same

theorem teardown_served (hstore : LawfulSessions store) (h : Attended store s)
    (hspares : spares addr s (.teardown c) = true) (hs : Step store addr s (.teardown c) s') :
    Served store s' := by
  cases hs with
  | onDisconnect hc => exact h.move fun _ => .inr (Owed.of_unsettled (fun hs => hs) (by simp))
  | sessionUnregister hc =>
    apply h.moveStore
    · exact fun _ => .inr (Owed.of_unsettled (fun hs => hs) (by simp))
    · exact h.unregister_spares hstore (by simpa [spares, hc] using hspares)

theorem startRemoval_served (h : Attended store s)
    (hs : Step store addr s (.startRemoval r target) s') : Served store s' := by
  cases hs with
  | startRemoval hr =>
    intro d hd
    exact (h.owed d hd).imp_left fun hdoomed => hdoomed.insert (by simp [hr]) _

theorem removal_served (hstore : LawfulSessions store) (h : Attended store s)
    (hs : Step store addr s (.removal r) s') : Served store s' := by
  cases hs with
  | leaveAllRooms hr =>
    intro d hd
    exact (h.owed d hd).imp (fun hdoomed => hdoomed.insert (by simp [hr]) _)
      fun howed => howed.mono fun u _ => hstore.leaveAllRooms_keeps _ _ u
  | removeSession hr => exact h.removeSession_owed hstore hr
  | disconnect hr =>
    intro d hd
    simpa using h.disconnect_owed hr d hd

theorem step {a : Action C} (hstore : LawfulSessions store) (h : Attended store s)
    (hspares : spares addr s a = true) (hs : Step store addr s a s') : Attended store s' := by
  have hplaced : Placed s'.pool s'.ctrl := by
    apply h.placed.step hs
    rintro c rfl
    simpa [spares] using hspares
  refine ⟨hplaced, h.unlogged.step hs, ?_⟩
  cases a with
  | connect c => exact h.connect_served hs
  | registerSession c now => exact h.registerSession_served hstore hs
  | startLogon c userID level =>
    cases hs with
    | startLogon hc => exact h.resettle hc trivial (.inl rfl)
  | proceed c now => exact h.proceed_served hstore hspares hs
  | close c => exact h.close_served hs
  | endLoop c => exact h.endLoop_served hs
  | teardown c => exact h.teardown_served hstore hspares hs
  | startRemoval r target => exact h.startRemoval_served hs
  | removal r => exact h.removal_served hstore hs

end Steps

end Attended

/-- In every run whose late removals spare the sessions of others, and in every quiet
state such a run reaches, each open connection that is bound to the name of its latest
`LogonOK` has a session under that name with the level of that logon. -/
theorem sessions_present_of_spares (hstore : LawfulSessions store) {empty : σ}
    {as : List (Action C)} {s : Server C σ}
    (hspares : Along (step store addr) (fun t a => spares addr t a = true) (Server.init empty) as)
    (hrun : runFrom (step store addr) (Server.init empty) as = some s) (hquiet : Quiet s) :
    SessionsPresent store s := by
  have hattended : Attended store s :=
    invariant_run (fun _ _ _ h hP hstep => h.step hstore hP (step_cases hstep))
      (attended_init empty) hspares hrun
  intro c u n hlive hok hbound
  rcases hattended.owed c hlive with ⟨u', r, -, hr⟩ | howed
  · rw [hquiet.removals r] at hr
    cases hr
  · have hidle : (s.ctrl c).Settled := by
      have hplaced := hattended.placed.bound c
      have hunlogged := hattended.unlogged c
      cases hctrl : s.ctrl c with
      | idle => trivial
      | logon a => exact absurd hctrl (hquiet.logon c a)
      | torn id hook => exact absurd hctrl (hquiet.torn c id hook)
      | absent => simp [hunlogged (.inl hctrl)] at hok
      | registering => simp [hunlogged (.inr hctrl)] at hok
      | gone => simp [hctrl, Ctrl.BoundTo, hbound] at hplaced
    exact howed.settled hidle u n hok hbound

section Runs

/-- The connection logs on as bob, is removed by force, and has just left the pool. -/
def forcedOut {C : Type} (c : C) : List (Action C) :=
  [.connect c, .registerSession c 0, .startLogon c (lit "bob") 20, .proceed c 0, .proceed c 0,
    .proceed c 0, .proceed c 0, .proceed c 0, .proceed c 0, .startRemoval 0 (lit "bob"),
    .removal 0, .removal 0, .removal 0, .endLoop c]

/-- Another connection logs on as bob. -/
def newBob {C : Type} (c : C) : List (Action C) :=
  [.connect c, .registerSession c 0, .startLogon c (lit "bob") 30, .proceed c 0, .proceed c 0,
    .proceed c 0, .proceed c 0, .proceed c 0, .proceed c 0]

/-- The rest of the teardown of a connection: `onDisconnect`, then its session. -/
def lateTeardown {C : Type} (c : C) : List (Action C) := [.teardown c, .teardown c]

def remoteAddr : Fin 2 → GoString := ![lit "10.0.0.1:50", lit "10.0.0.2:60"]

private theorem quiet_of_gone_idle {s : Server (Fin 2) σ} (hgone : s.ctrl 0 = .gone)
    (hidle : s.ctrl 1 = .idle) (hlive : s.live 1 = true) (hremovals : s.removals = ∅) :
    Quiet s where
  logon := by simp [Fin.forall_fin_two, hgone, hidle]
  torn := by simp [Fin.forall_fin_two, hgone, hidle]
  closed := by simp [Fin.forall_fin_two, hgone, hidle, hlive]
  removals := by simp [hremovals]

/-- When the teardown ends before the name is taken again, the new session stays. -/
theorem sessions_present_after_teardown :
    ∃ s, runFrom (step (Outbound.MemorySessionStore.port (.sorted (· ≤ ·))) remoteAddr)
        (Server.init .new) (forcedOut 0 ++ lateTeardown 0 ++ newBob 1) = some s ∧
      s.live 1 = true ∧ s.lastOK 1 = some (lit "bob", 30) ∧
      SessionsPresent (Outbound.MemorySessionStore.port (.sorted (· ≤ ·))) s := by
  have hany : (runFrom (step (Outbound.MemorySessionStore.port (.sorted (· ≤ ·))) remoteAddr)
      (Server.init .new) (forcedOut 0 ++ lateTeardown 0 ++ newBob 1)).any (fun s =>
        decide (s.ctrl 0 = .gone ∧ s.ctrl 1 = .idle ∧ s.live 1 = true ∧ s.removals = ∅ ∧
          s.lastOK 1 = some (lit "bob", 30))) = true := by
    decide +kernel
  obtain ⟨s, hrun, hs⟩ := exists_run_of_any hany
  simp only [decide_eq_true_eq] at hs
  obtain ⟨hgone, hidle, hlive, hremovals, hok⟩ := hs
  refine ⟨s, hrun, hlive, hok, ?_⟩
  exact sessions_present_of_spares (memorySessionStore_lawful _) (by decide +kernel) hrun
    (quiet_of_gone_idle hgone hidle hlive hremovals)

/-- When the name is taken again first, the late teardown deletes the new session. -/
theorem sessions_lost_to_late_teardown :
    ∃ s, runFrom (step (Outbound.MemorySessionStore.port (.sorted (· ≤ ·))) remoteAddr)
        (Server.init .new) (forcedOut 0 ++ newBob 1 ++ lateTeardown 0) = some s ∧
      Quiet s ∧ ¬ SessionsPresent (Outbound.MemorySessionStore.port (.sorted (· ≤ ·))) s := by
  have hany : (runFrom (step (Outbound.MemorySessionStore.port (.sorted (· ≤ ·))) remoteAddr)
      (Server.init .new) (forcedOut 0 ++ newBob 1 ++ lateTeardown 0)).any (fun s =>
        decide (s.ctrl 0 = .gone ∧ s.ctrl 1 = .idle ∧ s.live 1 = true ∧ s.removals = ∅ ∧
          s.lastOK 1 = some (lit "bob", 30) ∧ s.pool.connToID.lookup 1 = some (lit "bob") ∧
          s.sessions.connections.lookup (lit "bob") = none)) = true := by
    decide +kernel
  obtain ⟨s, hrun, hs⟩ := exists_run_of_any hany
  simp only [decide_eq_true_eq] at hs
  obtain ⟨hgone, hidle, hlive, hremovals, hok, hbound, hlost⟩ := hs
  refine ⟨s, hrun, quiet_of_gone_idle hgone hidle hlive hremovals, fun hpresent => ?_⟩
  have hreg := (hpresent 1 (lit "bob") 30 hlive hok hbound).1
  simp [Registered, existing, Outbound.MemorySessionStore.port,
    Outbound.MemorySessionStore.getConnection, hlost] at hreg

end Runs

end Musgos.Sessions
