import Musgos.Foundation.GoMap
import Musgos.Foundation.Bytes
import Musgos.Foundation.Transition

/-!
# The connection pool

The three maps of `ConnPool` and its operations, each of which holds the pool's
mutex and is therefore one atomic step. `C` is the type of connection objects,
compared by identity. Ids are client-chosen strings once a connection has logged
on and remote addresses before that, and both live in one map.
-/
namespace Musgos.Inbound

open Foundation

/-- The three maps of the pool, which its mutex guards together. -/
structure ConnPool (C : Type) where
  clients : GoMap GoString C
  connToID : GoMap C GoString
  /-- The connections that have a write mutex. -/
  writeMu : Finset C

namespace ConnPool

variable {C : Type} [DecidableEq C]

def new : ConnPool C := ⟨∅, ∅, ∅⟩

def register (p : ConnPool C) (conn : C) (clientID : GoString) : ConnPool C :=
  { clients := p.clients.insert clientID conn
    connToID := p.connToID.insert conn clientID
    writeMu := insert conn p.writeMu }

/-- The id of a connection, empty for one that is not in the pool. -/
def currentID (p : ConnPool C) (conn : C) : GoString := (p.connToID.lookup conn).getD []

/-- The new pool and the id the connection had. -/
def unregister (p : ConnPool C) (conn : C) : ConnPool C × GoString :=
  ({ clients := p.clients.erase (p.currentID conn)
     connToID := p.connToID.erase conn
     writeMu := p.writeMu.erase conn }, p.currentID conn)

/-- The new pool and whether the binding was made. -/
def remapClientID (p : ConnPool C) (oldID newID : GoString) : ConnPool C × Bool :=
  match p.clients.lookup oldID with
  | none => (p, false)
  | some conn =>
    if (p.clients.lookup newID).any (· ≠ conn) then (p, false)
    else
      ({ p with
         clients := (p.clients.erase oldID).insert newID conn
         connToID := p.connToID.insert conn newID }, true)

/-- Where a write to a client goes. A connection in `clients` without a mutex
makes `wmu.Lock()` dereference nil. -/
inductive WriteTarget (C : Type) where
  | notConnected
  | nilMutex
  | conn (c : C)
  deriving DecidableEq

def writeTarget (p : ConnPool C) (clientID : GoString) : WriteTarget C :=
  match p.clients.lookup clientID with
  | none => .notConnected
  | some c => if c ∈ p.writeMu then .conn c else .nilMutex

/-- The two maps mirror each other, and every reachable connection can be written to. -/
structure Bijective (p : ConnPool C) : Prop where
  mirror : GoMap.Mirrors p.clients p.connToID
  mutex : ∀ id conn, p.clients.lookup id = some conn → conn ∈ p.writeMu

theorem new_bijective : (new : ConnPool C).Bijective :=
  ⟨fun id conn => by simp [new], fun id conn h => by simp [new] at h⟩

section Lookup

variable {p : ConnPool C}

@[simp] theorem register_clients (conn : C) (clientID id : GoString) :
    (p.register conn clientID).clients.lookup id =
      if id = clientID then some conn else p.clients.lookup id := by
  simp [register]

@[simp] theorem register_connToID (conn c : C) (clientID : GoString) :
    (p.register conn clientID).connToID.lookup c =
      if c = conn then some clientID else p.connToID.lookup c := by
  simp [register]

@[simp] theorem unregister_clients (conn : C) (id : GoString) :
    (p.unregister conn).1.clients.lookup id =
      if id = p.currentID conn then none else p.clients.lookup id := by
  simp [unregister]

@[simp] theorem unregister_connToID (conn c : C) :
    (p.unregister conn).1.connToID.lookup c =
      if c = conn then none else p.connToID.lookup c := by
  simp [unregister]

/-- A remap either changes nothing, or moves one connection to an id that is
free or already its own. -/
theorem remapClientID_cases (p : ConnPool C) (oldID newID : GoString) :
    (p.remapClientID oldID newID = (p, false) ∧
      ∀ conn, p.clients.lookup oldID = some conn →
        ∃ other, p.clients.lookup newID = some other ∧ other ≠ conn) ∨
    ∃ conn, p.clients.lookup oldID = some conn ∧
      (p.clients.lookup newID = none ∨ p.clients.lookup newID = some conn) ∧
      (p.remapClientID oldID newID).2 = true ∧
      (p.remapClientID oldID newID).1.writeMu = p.writeMu ∧
      (∀ id, (p.remapClientID oldID newID).1.clients.lookup id =
        if id = newID then some conn else if id = oldID then none else p.clients.lookup id) ∧
      ∀ c, (p.remapClientID oldID newID).1.connToID.lookup c =
        if c = conn then some newID else p.connToID.lookup c := by
  unfold remapClientID
  cases hold : p.clients.lookup oldID with
  | none => exact .inl ⟨rfl, by simp⟩
  | some conn =>
    cases hnew : p.clients.lookup newID with
    | none => exact .inr ⟨conn, rfl, .inl rfl, rfl, rfl, by simp, by simp⟩
    | some other =>
      by_cases hother : other = conn
      · subst hother
        exact .inr ⟨other, rfl, .inr rfl, by simp, by simp, by simp, by simp⟩
      · refine .inl ⟨by simp [hother], ?_⟩
        rintro _ ⟨rfl⟩
        exact ⟨other, rfl, hother⟩

end Lookup

/-- A successful remap moves the connection that had the old id, and no other. -/
theorem remapClientID_connToID {p : ConnPool C} (h : p.Bijective) {c : C} {oldID newID : GoString}
    (hc : p.connToID.lookup c = some oldID) (hok : (p.remapClientID oldID newID).2 = true) (d : C) :
    (p.remapClientID oldID newID).1.connToID.lookup d =
      if d = c then some newID else p.connToID.lookup d := by
  obtain ⟨hsame, -⟩ | ⟨e, hold, -, -, -, -, hids⟩ := p.remapClientID_cases oldID newID
  · rw [hsame] at hok
    cases hok
  · obtain rfl : e = c := h.mirror.right_inj ((h.mirror _ _).mp hold) hc
    exact hids d

theorem remapClientID_taken {p : ConnPool C} (h : p.Bijective) {c d : C} {oldID newID : GoString}
    (hc : p.connToID.lookup c = some oldID) (hd : p.clients.lookup newID = some d) (hne : d ≠ c) :
    p.remapClientID oldID newID = (p, false) := by
  obtain ⟨hsame, -⟩ | ⟨e, hold, hnew, -⟩ := p.remapClientID_cases oldID newID
  · exact hsame
  · obtain rfl : e = c := h.mirror.right_inj ((h.mirror _ _).mp hold) hc
    rw [hd] at hnew
    rcases hnew with hnew | hnew
    · cases hnew
    · exact absurd (Option.some.inj hnew) hne

section Runs

/-- The operations of a run: each names the connection it is about. -/
inductive PoolOp (C : Type) where
  | register (conn : C)
  | remapClientID (conn : C) (newID : GoString)
  | unregister (conn : C)

/-- The pool, with the connections that are open and those ever registered. -/
structure PoolState (C : Type) where
  pool : ConnPool C
  opened : Finset C
  seen : Finset C

variable (addr : C → GoString)

/-- One operation. A connection object is registered once, under its remote
address, while no other open connection has that address; only open connections
are remapped, from the id they have, or unregistered. -/
def poolStep (s : PoolState C) : PoolOp C → Option (PoolState C)
  | .register c =>
    if c ∉ s.seen ∧ ∀ d ∈ s.opened, addr d ≠ addr c then
      some ⟨s.pool.register c (addr c), insert c s.opened, insert c s.seen⟩
    else none
  | .remapClientID c newID =>
    if c ∈ s.opened then
      some { s with pool := (s.pool.remapClientID (s.pool.currentID c) newID).1 }
    else none
  | .unregister c =>
    if c ∈ s.opened then
      some { s with pool := (s.pool.unregister c).1, opened := s.opened.erase c }
    else none

def PoolState.init : PoolState C := ⟨new, ∅, ∅⟩

/-- A registration finds its address unbound. -/
def FindsUnbound (s : PoolState C) : PoolOp C → Prop
  | .register c => s.pool.clients.lookup (addr c) = none
  | _ => True

instance (s : PoolState C) : DecidablePred (FindsUnbound addr s)
  | .register c => inferInstanceAs (Decidable (s.pool.clients.lookup (addr c) = none))
  | .remapClientID _ _ | .unregister _ => .isTrue trivial

/-- Exactly the open connections have an id. -/
structure Tracked (s : PoolState C) : Prop where
  opened_seen : s.opened ⊆ s.seen
  opened_iff : ∀ c, c ∈ s.opened ↔ (s.pool.connToID.lookup c).isSome

theorem Bijective.register {p : ConnPool C} (h : p.Bijective) {c : C} {id : GoString}
    (hc : p.connToID.lookup c = none) (hid : p.clients.lookup id = none) :
    (p.register c id).Bijective := by
  refine ⟨h.mirror.insert hid hc, ?_⟩
  intro x d hx
  rw [register_clients] at hx
  split_ifs at hx
  · obtain rfl := Option.some.inj hx
    exact Finset.mem_insert_self c _
  · exact Finset.mem_insert_of_mem (h.mutex x d hx)

theorem Bijective.unregister {p : ConnPool C} (h : p.Bijective) {c : C}
    (hc : (p.connToID.lookup c).isSome) : (p.unregister c).1.Bijective := by
  obtain ⟨id, hid⟩ := Option.isSome_iff_exists.mp hc
  have hcur : p.currentID c = id := by simp [currentID, hid]
  have hcid := (h.mirror id c).mpr hid
  refine ⟨by simpa [ConnPool.unregister, hcur] using h.mirror.erase hcid, ?_⟩
  intro x d hx
  rw [unregister_clients, hcur] at hx
  split_ifs at hx with hne
  refine Finset.mem_erase.mpr ⟨?_, h.mutex x d hx⟩
  rintro rfl
  exact hne (h.mirror.left_inj hx hcid)

theorem Bijective.remapClientID {p : ConnPool C} (h : p.Bijective) (oldID newID : GoString) :
    (p.remapClientID oldID newID).1.Bijective := by
  obtain ⟨hsame, -⟩ | ⟨c, hold, hnew, -, hmu, hclients, hids⟩ := p.remapClientID_cases oldID newID
  · rw [hsame]
    exact h
  have hfree : (p.clients.erase oldID).lookup newID = none := by
    rcases hnew with hnew | hnew
    · simp [hnew]
    · simp [h.mirror.left_inj hnew hold]
  have hmoved := (h.mirror.erase hold).insert hfree (Finmap.lookup_erase c _)
  constructor
  · intro x d
    have hxd := hmoved x d
    simp only [GoMap.lookup_insert_ite, GoMap.lookup_erase_ite] at hxd
    rw [hclients, hids, hxd]
    by_cases hd : d = c <;> simp [hd]
  · intro x d hx
    rw [hmu]
    rw [hclients] at hx
    split_ifs at hx
    · obtain rfl := Option.some.inj hx
      exact h.mutex oldID c hold
    · exact h.mutex x d hx

theorem Tracked.fresh {s : PoolState C} (h : Tracked s) {c : C} (hc : c ∉ s.seen) :
    s.pool.connToID.lookup c = none := by
  have hopened : c ∉ s.opened := fun hmem => hc (h.opened_seen hmem)
  rw [h.opened_iff] at hopened
  simpa using hopened

theorem Tracked.step {s s' : PoolState C} {op : PoolOp C} (h : Tracked s) (hb : s.pool.Bijective)
    (hstep : poolStep addr s op = some s') : Tracked s' := by
  cases op with
  | register c =>
    simp only [poolStep, Option.ite_none_right_eq_some, Option.some.injEq] at hstep
    obtain ⟨-, rfl⟩ := hstep
    refine ⟨Finset.insert_subset_insert c h.opened_seen, fun d => ?_⟩
    by_cases hd : d = c <;> simp [hd, h.opened_iff]
  | remapClientID c newID =>
    simp only [poolStep, Option.ite_none_right_eq_some, Option.some.injEq] at hstep
    obtain ⟨-, rfl⟩ := hstep
    refine ⟨h.opened_seen, fun d => ?_⟩
    obtain ⟨hsame, -⟩ | ⟨e, hold, -, -, -, -, hids⟩ :=
      s.pool.remapClientID_cases (s.pool.currentID c) newID
    · simp [hsame, h.opened_iff]
    · have he := (hb.mirror _ _).mp hold
      by_cases hd : d = e <;> simp [hids, hd, h.opened_iff, he]
  | unregister c =>
    simp only [poolStep, Option.ite_none_right_eq_some, Option.some.injEq] at hstep
    obtain ⟨-, rfl⟩ := hstep
    refine ⟨(Finset.erase_subset c _).trans h.opened_seen, fun d => ?_⟩
    by_cases hd : d = c <;> simp [hd, h.opened_iff]

/-- A step from a bijective pool keeps it bijective exactly when a registration
finds its address unbound: otherwise the connection that was bound to the address
keeps pointing at it. -/
theorem poolStep_bijective_iff {s s' : PoolState C} {op : PoolOp C} (h : Tracked s)
    (hb : s.pool.Bijective) (hstep : poolStep addr s op = some s') :
    s'.pool.Bijective ↔ FindsUnbound addr s op := by
  cases op with
  | register c =>
    simp only [poolStep, Option.ite_none_right_eq_some, Option.some.injEq] at hstep
    obtain ⟨⟨hseen, -⟩, rfl⟩ := hstep
    have hc := h.fresh hseen
    constructor
    · intro hb'
      cases hbound : s.pool.clients.lookup (addr c) with
      | none => exact hbound
      | some d =>
        have hd := (hb.mirror _ _).mp hbound
        have hdc : d ≠ c := by
          rintro rfl
          rw [hc] at hd
          cases hd
        have hd' : (s.pool.register c (addr c)).connToID.lookup d = some (addr c) := by
          simp [hdc, hd]
        have hclient := (hb'.mirror _ _).mpr hd'
        rw [register_clients, if_pos rfl] at hclient
        exact absurd (Option.some.inj hclient).symm hdc
    · exact fun hid => hb.register hc hid
  | remapClientID c newID =>
    simp only [poolStep, Option.ite_none_right_eq_some, Option.some.injEq] at hstep
    obtain ⟨-, rfl⟩ := hstep
    exact iff_of_true (hb.remapClientID _ _) trivial
  | unregister c =>
    simp only [poolStep, Option.ite_none_right_eq_some, Option.some.injEq] at hstep
    obtain ⟨hopen, rfl⟩ := hstep
    exact iff_of_true (hb.unregister ((h.opened_iff c).mp hopen)) trivial

/-- In a run from the empty pool, the pool is a bijection in every state exactly
when every registration finds its address unbound. -/
theorem pool_bijective_throughout_iff {ops : List (PoolOp C)}
    (hrun : (runFrom (poolStep addr) PoolState.init ops).isSome) :
    Throughout (poolStep addr) (fun s => s.pool.Bijective) PoolState.init ops ↔
      Along (poolStep addr) (FindsUnbound addr) PoolState.init ops := by
  obtain ⟨t, ht⟩ := Option.isSome_iff_exists.mp hrun
  have hinit : Tracked (PoolState.init : PoolState C) :=
    ⟨Finset.Subset.refl _, fun c => by simp [PoolState.init, new]⟩
  have hnew : (PoolState.init : PoolState C).pool.Bijective := new_bijective
  exact throughout_iff_along (I := Tracked) (Q := fun s => s.pool.Bijective)
    (fun s op s' hI hQ hs => poolStep_bijective_iff addr hI hQ hs)
    (fun s op s' hI hQ _ hs => hI.step addr hQ hs) hinit hnew ht

/-- Remote addresses of two connections. -/
def twoAddresses : Fin 2 → GoString := ![lit "1.2.3.4:50", lit "5.6.7.8:90"]

/-- Registering, logging on under a name and disconnecting. -/
theorem pool_bijective_logon :
    Throughout (poolStep twoAddresses) (fun s => s.pool.Bijective) PoolState.init
        [.register 0, .remapClientID 0 (lit "alice"), .register 1, .unregister 0] ↔
      Along (poolStep twoAddresses) (FindsUnbound twoAddresses) PoolState.init
        [.register 0, .remapClientID 0 (lit "alice"), .register 1, .unregister 0] :=
  pool_bijective_throughout_iff twoAddresses (by decide +kernel)

/-- The first connection takes the second one's address as its name. When the
second registers, both claim the id, and the pool finds only the second. -/
theorem pool_address_as_name :
    ∃ s, runFrom (poolStep twoAddresses) PoolState.init
        [.register 0, .remapClientID 0 (lit "5.6.7.8:90"), .register 1] = some s ∧
      s.pool.connToID.lookup 0 = some (lit "5.6.7.8:90") ∧
      s.pool.clients.lookup (lit "5.6.7.8:90") = some 1 ∧ ¬ s.pool.Bijective := by
  have hrun : (runFrom (poolStep twoAddresses) PoolState.init
      [.register 0, .remapClientID 0 (lit "5.6.7.8:90"), .register 1]).any (fun s =>
        s.pool.connToID.lookup 0 = some (lit "5.6.7.8:90") ∧
          s.pool.clients.lookup (lit "5.6.7.8:90") = some 1) = true := by
    decide +kernel
  obtain ⟨s, hs, hids⟩ := exists_run_of_any hrun
  simp only [decide_eq_true_eq] at hids
  refine ⟨s, hs, hids.1, hids.2, fun hb => ?_⟩
  have hclient := (hb.mirror _ _).mpr hids.1
  rw [hids.2] at hclient
  exact absurd hclient (by decide)

end Runs

end ConnPool

end Musgos.Inbound
