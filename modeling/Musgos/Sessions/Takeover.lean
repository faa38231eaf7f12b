import Musgos.Sessions.System
import Musgos.Outbound.SessionStore

/-!
# No session takeover

A userID belongs to at most one connection at a time, whatever the session store
answers and however the calls of concurrent logons interleave. The claim is made
in the pool, by `RemapClientID`; the guard before it only refuses earlier. What
the pool cannot see is a new connection whose remote address is a name somebody
logged on under, so the requested names must avoid the addresses of others.
-/
namespace Musgos.Sessions

open Foundation Domain Inbound Services

variable {C σ : Type} [DecidableEq C] {store : SessionStore σ} {addr : C → GoString}

/-- No requested userID is the transient id of another connection. -/
def AvoidsAddresses (addr : C → GoString) : Action C → Prop
  | .startLogon c userID _ => ∀ d, d ≠ c → addr d ≠ userID
  | _ => True

/-- In the pool, and not remapped since the latest finished logon. -/
def Ctrl.Settled : Ctrl → Prop
  | .idle => True
  | .logon a => a.stage = .guard ∨ a.stage = .remap
  | _ => False

/-- One connection as the pool, its goroutine and its latest `LogonOK` describe it. -/
structure Claimed (addr : C → GoString) (c : C) (id : Option GoString) (k : Ctrl)
    (ok : Option (GoString × ℤ)) : Prop where
  name : ∀ i, id = some i → i = addr c ∨ ∀ d, d ≠ c → addr d ≠ i
  request : ∀ a, k = .logon a → ∀ d, d ≠ c → addr d ≠ a.userID
  keeps : ∀ u n, ok = some (u, n) → k.Settled → id = some u

namespace Claimed

variable {c : C} {id : Option GoString} {k : Ctrl} {ok : Option (GoString × ℤ)}

omit [DecidableEq C] in
theorem settle (h : Claimed addr c id k ok) {k' : Ctrl} (hk : k.Settled)
    (hk' : k' = .idle ∨ ∃ a, k' = .logon a ∧ ∀ d, d ≠ c → addr d ≠ a.userID) :
    Claimed addr c id k' ok := by
  refine ⟨h.name, ?_, fun u n hu _ => h.keeps u n hu hk⟩
  rintro a rfl
  obtain hidle | ⟨a', ha', havoid⟩ := hk'
  · cases hidle
  · obtain rfl := Ctrl.logon.inj ha'
    exact havoid

omit [DecidableEq C] in
/-- Leaving the settled states: nothing is promised of the binding for now. -/
theorem unsettle {k' : Ctrl} {id' : Option GoString} (hk' : ¬ k'.Settled)
    (hname : ∀ i, id' = some i → i = addr c ∨ ∀ d, d ≠ c → addr d ≠ i)
    (hrequest : ∀ a, k' = .logon a → ∀ d, d ≠ c → addr d ≠ a.userID) :
    Claimed addr c id' k' ok :=
  ⟨hname, hrequest, fun _ _ _ hs => absurd hs hk'⟩

end Claimed

/-- The pool is placed, and every connection has a claim to the id it is bound to. -/
structure Guarded (addr : C → GoString) (s : Server C σ) : Prop where
  placed : Placed s.pool s.ctrl
  unlogged : Unlogged s.ctrl s.lastOK
  claimed : ∀ c, Claimed addr c (s.pool.connToID.lookup c) (s.ctrl c) (s.lastOK c)

theorem guarded_init (empty : σ) : Guarded addr (Server.init empty : Server C σ) := by
  refine ⟨placed_init empty, unlogged_init empty, fun c => Claimed.unsettle id ?_ ?_⟩
  · simp [Server.init, ConnPool.new]
  · intro a ha
    simp [Server.init] at ha

/-- Under the invariant a new connection finds its address unbound: whoever had it
either has that address as well, or requested a name it was told to avoid. -/
theorem Guarded.address_unbound {s : Server C σ} (h : Guarded addr s) {c : C}
    (hc : s.ctrl c = .absent) (haddr : ∀ d ∈ s.pool.connToID.keys, addr d ≠ addr c) :
    s.pool.clients.lookup (addr c) = none := by
  rw [Option.eq_none_iff_forall_not_mem]
  intro d hd
  have hbound : s.pool.connToID.lookup d = some (addr c) := (h.placed.bijective.mirror _ _).mp hd
  have hne : c ≠ d := by
    rintro rfl
    have habsent := h.placed.bound c
    simp [hc, Ctrl.BoundTo, hbound] at habsent
  rcases (h.claimed d).name _ hbound with hown | havoid
  · refine haddr d ?_ hown.symm
    rw [Finmap.mem_keys]
    exact Finmap.mem_of_lookup_eq_some hbound
  · exact havoid c hne rfl

theorem Guarded.claimed_of {s : Server C σ} (h : Guarded addr s) {c : C} {k : Ctrl}
    (hc : s.ctrl c = k) : Claimed addr c (s.pool.connToID.lookup c) k (s.lastOK c) := by
  subst hc
  exact h.claimed c

theorem Guarded.update {s : Server C σ} (h : Guarded addr s) {pool : ConnPool C} {c : C} {k : Ctrl}
    {lastOK : C → Option (GoString × ℤ)}
    (hc : Claimed addr c (pool.connToID.lookup c) k (lastOK c))
    (hother : ∀ d, d ≠ c →
      pool.connToID.lookup d = s.pool.connToID.lookup d ∧ lastOK d = s.lastOK d) (d : C) :
    Claimed addr d (pool.connToID.lookup d) (Function.update s.ctrl c k d) (lastOK d) := by
  by_cases hd : d = c
  · subst hd
    simpa using hc
  · rw [Function.update_of_ne hd, (hother d hd).1, (hother d hd).2]
    exact h.claimed d

theorem Guarded.move {s : Server C σ} (h : Guarded addr s) {c : C} {k : Ctrl}
    (hc : Claimed addr c (s.pool.connToID.lookup c) k (s.lastOK c)) (d : C) :
    Claimed addr d (s.pool.connToID.lookup d) (Function.update s.ctrl c k d) (s.lastOK d) :=
  h.update hc (fun _ _ => ⟨rfl, rfl⟩) d

theorem Guarded.advance {s : Server C σ} (h : Guarded addr s) {c : C} {a a' : Attempt}
    (hc : s.ctrl c = .logon a) (hrequest : a'.userID = a.userID)
    (hstage : ¬ (Ctrl.logon a').Settled) (d : C) :
    Claimed addr d (s.pool.connToID.lookup d) (Function.update s.ctrl c (.logon a') d)
      (s.lastOK d) := by
  apply h.move
  refine Claimed.unsettle hstage (h.claimed c).name ?_
  intro a'' ha''
  obtain rfl := Ctrl.logon.inj ha''
  rw [hrequest]
  exact (h.claimed c).request a hc

theorem Guarded.remapped {s : Server C σ} (h : Guarded addr s) {c : C} {old new : GoString}
    {level : ℤ} (hc : s.ctrl c = .logon ⟨old, new, level, .remap⟩)
    (hok : (s.pool.remapClientID old new).2 = true) (d : C) :
    Claimed addr d ((s.pool.remapClientID old new).1.connToID.lookup d)
      (Function.update s.ctrl c (.logon ⟨old, new, level, .lookup⟩) d) (s.lastOK d) := by
  have hrequest := (h.claimed c).request _ hc
  have hids :=
    ConnPool.remapClientID_connToID h.placed.bijective (h.placed.lookup_of_logon hc) hok
  simp only [Attempt.boundID] at hids
  apply h.update
  · refine Claimed.unsettle (by simp [Ctrl.Settled]) ?_ ?_
    · intro i hi
      rw [hids, if_pos rfl] at hi
      obtain rfl := Option.some.inj hi
      exact .inr hrequest
    · intro a ha
      obtain rfl := Ctrl.logon.inj ha
      exact hrequest
  · intro d hd
    exact ⟨by rw [hids, if_neg hd], rfl⟩

theorem Guarded.accept {s : Server C σ} (h : Guarded addr s) {c : C} {old new : GoString}
    {level : ℤ} (hc : s.ctrl c = .logon ⟨old, new, level, .stamp⟩) (d : C) :
    Claimed addr d (s.pool.connToID.lookup d) (Function.update s.ctrl c .idle d)
      (Function.update s.lastOK c (some (new, level)) d) := by
  have hbound := h.placed.lookup_of_logon hc
  apply h.update
  · refine ⟨(h.claimed c).name, by simp, ?_⟩
    intro u n hok _
    simp only [Function.update_self, Option.some.injEq, Prod.mk.injEq] at hok
    rw [← hok.1]
    exact hbound
  · intro d hd
    exact ⟨rfl, by simp [hd]⟩

theorem Guarded.proceed {s s' : Server C σ} {c : C} {now : ℤ} (h : Guarded addr s)
    (hs : Step store addr s (.proceed c now) s') :
    ∀ d, Claimed addr d (s'.pool.connToID.lookup d) (s'.ctrl d) (s'.lastOK d) := by
  cases hs with
  | guardRefused hc _ => exact h.move ((h.claimed_of hc).settle (.inl rfl) (.inl rfl))
  | guardPassed hc _ =>
    have hrequest := (h.claimed c).request _ hc
    exact h.move ((h.claimed_of hc).settle (.inl rfl) (.inr ⟨_, rfl, hrequest⟩))
  | remapRefused hc _ => exact h.move ((h.claimed_of hc).settle (.inr rfl) (.inl rfl))
  | remapped hc hok => exact h.remapped hc hok
  | lookup hc => exact h.advance hc rfl (by simp [Ctrl.Settled])
  | unregisterOld hc => exact h.advance hc rfl (by simp [Ctrl.Settled])
  | registerNew hc => exact h.advance hc rfl (by simp [Ctrl.Settled])
  | stamp hc => exact h.accept hc

/-- A connection that comes, or one whose loop has ended, has no name it could keep. -/
theorem Guarded.rebind {s : Server C σ} (h : Guarded addr s) {pool : ConnPool C} {c : C} {k : Ctrl}
    (hk : ¬ k.Settled) (hlogon : ∀ a, k ≠ .logon a)
    (hname : ∀ i, pool.connToID.lookup c = some i → i = addr c)
    (hother : ∀ d, d ≠ c → pool.connToID.lookup d = s.pool.connToID.lookup d) (d : C) :
    Claimed addr d (pool.connToID.lookup d) (Function.update s.ctrl c k d) (s.lastOK d) := by
  apply h.update
  · exact Claimed.unsettle hk (fun i hi => .inl (hname i hi)) fun a ha => absurd ha (hlogon a)
  · exact fun d hd => ⟨hother d hd, rfl⟩

theorem Guarded.step {s s' : Server C σ} {a : Action C} (h : Guarded addr s)
    (hreq : AvoidsAddresses addr a) (hs : Step store addr s a s') : Guarded addr s' := by
  have hplaced : Placed s'.pool s'.ctrl := by
    apply h.placed.step hs
    rintro c rfl
    cases hs with
    | connect hc haddr => exact h.address_unbound hc haddr
  refine ⟨hplaced, h.unlogged.step hs, ?_⟩
  cases a with
  | connect c =>
    cases hs
    exact h.rebind id (by simp) (by simp) fun d hd => by simp [hd]
  | registerSession c now =>
    cases hs with
    | registerSession hc =>
      have hnone := h.unlogged c (.inr hc)
      exact h.move ⟨(h.claimed c).name, by simp, by simp [hnone]⟩
  | startLogon c userID level =>
    cases hs with
    | startLogon hc => exact h.move ((h.claimed_of hc).settle trivial (.inr ⟨_, rfl, hreq⟩))
  | proceed c now => exact h.proceed hs
  | endLoop c =>
    cases hs
    exact h.rebind id (by simp) (by simp) fun d hd => by simp [hd]
  | teardown c =>
    cases hs <;> exact h.move (Claimed.unsettle (fun hs => hs) (h.claimed c).name (by simp))
  | close c | startRemoval r target | removal r => cases hs <;> simpa using h.claimed

/-- A connection loses its binding only by its own remap or its own unregistration. -/
theorem Placed.binding_step {s s' : Server C σ} {a : Action C} (h : Placed s.pool s.ctrl)
    (hs : Step store addr s a s') {c : C} {u : GoString}
    (hu : s.pool.connToID.lookup c = some u) :
    s'.pool.connToID.lookup c = some u ∨ a = .endLoop c ∨
      ∃ now att, a = .proceed c now ∧ s.ctrl c = .logon att ∧ att.stage = .remap := by
  cases hs with
  | @connect d hd haddr =>
    have hne : c ≠ d := by
      rintro rfl
      have habsent := h.bound c
      simp [hd, Ctrl.BoundTo, hu] at habsent
    exact .inl (by simpa [hne] using hu)
  | @remapped d now old new level hd hok =>
    by_cases hcd : c = d
    · subst hcd
      exact .inr (.inr ⟨now, _, rfl, hd, rfl⟩)
    · have hids := ConnPool.remapClientID_connToID h.bijective (h.lookup_of_logon hd) hok c
      rw [if_neg hcd] at hids
      exact .inl (hids.trans hu)
  | @endLoop d hd =>
    by_cases hcd : c = d
    · subst hcd
      exact .inr (.inl rfl)
    · exact .inl (by simpa [hcd] using hu)
  | close _ => exact .inl (by simpa using hu)
  | disconnect _ => exact .inl (by simpa using hu)
  | _ => exact .inl hu

/-- A remap onto a name that another connection holds ends the attempt in
`LogonRefused` and leaves the pool alone. -/
theorem Placed.remap_refused {s s' : Server C σ} (h : Placed s.pool s.ctrl) {c d : C}
    {att : Attempt} {now : ℤ} (hd : s.ctrl d = .logon att) (hstage : att.stage = .remap)
    (hc : s.pool.clients.lookup att.userID = some c) (hne : c ≠ d)
    (hs : Sessions.step store addr s (.proceed d now) = some s') :
    s'.pool = s.pool ∧ s'.outcome d = some .refused ∧ s'.ctrl d = .idle := by
  obtain ⟨old, new, level, stage⟩ := att
  subst hstage
  have hbound := h.lookup_of_logon hd
  have htaken := ConnPool.remapClientID_taken h.bijective hbound hc hne
  simp only [Attempt.boundID] at htaken
  simp only [Sessions.step, hd, attemptStep, htaken, Bool.false_eq_true, if_false,
    Option.some.injEq] at hs
  subst hs
  simp [Server.refuse, Server.setCtrl]

/-- No session takeover, in any state that any interleaving of any number of
connections reaches: a userID is bound to at most one connection; a connection
keeps the name of its latest `LogonOK` as long as it is settled, and loses a
binding only by its own remap or unregistration; an attempt that reaches its
remap while another connection has the name is refused and changes nothing. -/
theorem logon_noTakeover {empty : σ} {as : List (Action C)} {s : Server C σ}
    (hreq : ∀ a ∈ as, AvoidsAddresses addr a)
    (hrun : runFrom (step store addr) (Server.init empty) as = some s) :
    (∀ u c d, s.pool.connToID.lookup c = some u → s.pool.connToID.lookup d = some u → c = d) ∧
    (∀ u c, s.pool.clients.lookup u = some c ↔ s.pool.connToID.lookup c = some u) ∧
    (∀ c u n, s.lastOK c = some (u, n) → (s.ctrl c).Settled →
      s.pool.connToID.lookup c = some u) ∧
    (∀ a s' c u, step store addr s a = some s' → s.pool.connToID.lookup c = some u →
      s'.pool.connToID.lookup c = some u ∨ a = .endLoop c ∨
        ∃ now att, a = .proceed c now ∧ s.ctrl c = .logon att ∧ att.stage = .remap) ∧
    (∀ c d att now s', s.ctrl d = .logon att → att.stage = .remap →
      s.pool.clients.lookup att.userID = some c → c ≠ d →
      step store addr s (.proceed d now) = some s' →
      s'.pool = s.pool ∧ s'.outcome d = some .refused ∧ s'.ctrl d = .idle) := by
  have hguarded : Guarded addr s :=
    invariant_run (fun _ _ _ h hP hstep => h.step hP (step_cases hstep)) (guarded_init empty)
      (along_of_forall hreq _) hrun
  refine ⟨?_, ?_, ?_, ?_, ?_⟩
  · intro u c d hc hd
    exact hguarded.placed.bijective.mirror.right_inj hc hd
  · exact hguarded.placed.bijective.mirror
  · intro c u n hok hsettled
    exact (hguarded.claimed c).keeps u n hok hsettled
  · intro a s' c u hstep hu
    exact hguarded.placed.binding_step (step_cases hstep) hu
  · intro c d att now s' hd hstage hc hne hstep
    exact hguarded.placed.remap_refused hd hstage hc hne hstep

/-- Two connections ask for the same name at once; both pass the guard. -/
def rivals {C : Type} (c d : C) : List (Action C) :=
  [.connect c, .registerSession c 0, .connect d, .registerSession d 0,
    .startLogon c (lit "bob") 20, .startLogon d (lit "bob") 80, .proceed c 0, .proceed d 0,
    .proceed c 0, .proceed c 0, .proceed c 0, .proceed c 0, .proceed c 0]

/-- The first to reach its remap gets the name, the other is refused. -/
theorem logon_noTakeover_rivals :
    let store := Outbound.MemorySessionStore.port (.sorted (· ≤ ·))
    let addr : Fin 2 → GoString := ![lit "10.0.0.1:50", lit "10.0.0.2:60"]
    ∃ s s', runFrom (step store addr) (Server.init .new) (rivals 0 1) = some s ∧
      s.lastOK 0 = some (lit "bob", 20) ∧ s.pool.connToID.lookup 0 = some (lit "bob") ∧
      step store addr s (.proceed 1 0) = some s' ∧ s'.pool = s.pool ∧
      s'.outcome 1 = some .refused := by
  intro store addr
  have hany : (runFrom (step store addr) (Server.init .new) (rivals 0 1)).any (fun s =>
      decide (s.lastOK 0 = some (lit "bob", 20) ∧ s.ctrl 0 = .idle ∧
        s.ctrl 1 = .logon ⟨lit "10.0.0.2:60", lit "bob", 80, .remap⟩ ∧
        s.pool.clients.lookup (lit "bob") = some 0)) = true := by
    decide +kernel
  obtain ⟨s, hrun, hs⟩ := exists_run_of_any hany
  simp only [decide_eq_true_eq] at hs
  obtain ⟨hok, hidle, hlogon, hbob⟩ := hs
  have hnames : ∀ d, addr d ≠ lit "bob" := by decide +kernel
  have hreq : ∀ a ∈ rivals 0 1, AvoidsAddresses addr a := by
    simp [rivals, AvoidsAddresses, hnames]
  obtain ⟨-, -, hkeeps, -, hrefused⟩ := logon_noTakeover hreq hrun
  have hstep : step store addr s (.proceed 1 0) =
      some (attemptStep store s 1 ⟨lit "10.0.0.2:60", lit "bob", 80, .remap⟩ 0) := by
    simp [step, hlogon]
  obtain ⟨hpool, houtcome, -⟩ := hrefused 0 1 _ 0 _ hlogon rfl hbob (by decide) hstep
  exact ⟨s, _, hrun, hok, hkeeps 0 _ _ hok (by simp [hidle, Ctrl.Settled]), hstep, hpool, houtcome⟩

end Musgos.Sessions
