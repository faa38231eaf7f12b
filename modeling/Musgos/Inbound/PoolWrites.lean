import Musgos.Inbound.ConnPool
import Musgos.Inbound.TcpFraming

/-!
# Writing to connections

Any number of goroutines call `WriteToClient` while connections come, go and change their ids. A
call looks its client up under the mutex of the pool and lets go of it; then it waits for the
write mutex of the connection, writes, and returns. `conn.Write` hands the bytes over in pieces,
and it ends early only on a connection that takes no more bytes. Calls are numbered, and the
number says what is called: `request k` is the client and the data of call `k`.
-/
namespace Musgos.Inbound

open Foundation Smus

/-- Where a call of `WriteToClient` stands. -/
inductive WriteStage (C : Type) where
  | idle
  /-- The connection is found, the write mutex is not yet held. -/
  | found (conn : C)
  /-- The write mutex is held, and so many bytes have been written. -/
  | writing (conn : C) (sent : ℕ)
  | wrote (conn : C)
  | failed (conn : C)
  | notConnected
  /-- `wmu.Lock()` on a nil mutex. -/
  | panicked
  deriving DecidableEq

/-- The call has not returned. -/
def WriteStage.pending {C : Type} : WriteStage C → Bool
  | .idle | .found _ | .writing _ _ | .panicked => true
  | .wrote _ | .failed _ | .notConnected => false

/-- The call has held the write mutex of the connection. -/
def WriteStage.Touches {C : Type} (stage : WriteStage C) (c : C) : Prop :=
  (∃ sent, stage = .writing c sent) ∨ stage = .wrote c ∨ stage = .failed c

/-- The pool with the calls of `WriteToClient` that are under way, by number. -/
structure Delivery (C : Type) where
  pool : ConnPool C
  /-- The connections that were ever registered. -/
  seen : Finset C
  /-- The connections that take no more bytes: closed on either side, or broken. -/
  closed : Finset C
  /-- Who holds the write mutex of a connection. -/
  mutex : C → Option ℕ
  stage : ℕ → WriteStage C
  /-- The calls that have returned, in the order in which they did. -/
  returned : List ℕ
  /-- The bytes that a connection has taken. -/
  wire : C → List UInt8

/-- The steps: what the pool does besides, and the four moves of a call. -/
inductive DeliveryOp (C : Type) where
  | register (conn : C) (clientID : GoString)
  | remapClientID (oldID newID : GoString)
  | unregister (conn : C)
  | close (conn : C)
  | lookup (k : ℕ)
  | lock (k : ℕ)
  | write (k n : ℕ)
  | unlock (k : ℕ)

namespace Delivery

variable {C : Type} [DecidableEq C]

def init : Delivery C := ⟨ConnPool.new, ∅, ∅, fun _ => none, fun _ => .idle, [], fun _ => []⟩

def setStage (s : Delivery C) (k : ℕ) (stage : WriteStage C) : Delivery C :=
  { s with stage := Function.update s.stage k stage }

/-- The call returns. -/
def finish (s : Delivery C) (k : ℕ) (stage : WriteStage C) : Delivery C :=
  { s with stage := Function.update s.stage k stage, returned := s.returned ++ [k] }

def unlocked (s : Delivery C) (conn : C) : Delivery C :=
  { s with mutex := Function.update s.mutex conn none }

variable (request : ℕ → GoString × List UInt8)

/-- One step. A connection object is registered once; nothing else is assumed of the ids. -/
def step (s : Delivery C) : DeliveryOp C → Option (Delivery C)
  | .register c id =>
    if c ∈ s.seen then none
    else some { s with pool := s.pool.register c id, seen := insert c s.seen }
  | .remapClientID oldID newID => some { s with pool := (s.pool.remapClientID oldID newID).1 }
  | .unregister c => some { s with pool := (s.pool.unregister c).1 }
  | .close c => some { s with closed := insert c s.closed }
  | .lookup k =>
    match s.stage k with
    | .idle =>
      match s.pool.writeTarget (request k).1 with
      | .notConnected => some (s.finish k .notConnected)
      | .nilMutex => some (s.setStage k .panicked)
      | .conn c => some (s.setStage k (.found c))
    | _ => none
  | .lock k =>
    match s.stage k with
    | .found c =>
      if s.mutex c = none then
        some { s.setStage k (.writing c 0) with mutex := Function.update s.mutex c (some k) }
      else none
    | _ => none
  | .write k n =>
    match s.stage k with
    | .writing c sent =>
      if c ∉ s.closed ∧ sent + n ≤ (request k).2.length then
        some { s.setStage k (.writing c (sent + n)) with
          wire := Function.update s.wire c (s.wire c ++ ((request k).2.drop sent).take n) }
      else none
    | _ => none
  | .unlock k =>
    match s.stage k with
    | .writing c sent =>
      if sent = (request k).2.length ∧ (c ∈ s.closed → sent ≠ 0) then
        some ((s.finish k (.wrote c)).unlocked c)
      else if c ∈ s.closed then some ((s.finish k (.failed c)).unlocked c)
      else none
    | _ => none

/-- The calls that have written all of their data to the connection, in the order in which they
returned. -/
def wroteTo (s : Delivery C) (conn : C) : List ℕ :=
  s.returned.filter fun k => s.stage k = .wrote conn

def data (ks : List ℕ) : List UInt8 := (ks.map fun k => (request k).2).flatten

/-- The beginning of a message that was cut off when the connection was closed. -/
def Cut (s : Delivery C) (c : C) (part : List UInt8) : Prop :=
  c ∈ s.closed ∧ ∃ k, s.stage k = .failed c ∧ part <+: (request k).2 ∧
    (part = (request k).2 → part = [])

/-- What may follow the whole messages: what the holder of the mutex has written, or what was cut
off, and then the holder writes nothing more. -/
def Tail (s : Delivery C) (c : C) (part : List UInt8) : Prop :=
  (∃ k sent, s.mutex c = some k ∧ s.stage k = .writing c sent ∧ part = (request k).2.take sent) ∨
  ((∀ k, s.mutex c = some k → s.stage k = .writing c 0) ∧ (part = [] ∨ Cut request s c part))

/-- What an id is bound to knows the id and has a mutex. Unlike the other direction, this needs
nothing of the addresses. -/
def Bound (p : ConnPool C) (seen : Finset C) : Prop :=
  ∀ id c, p.clients.lookup id = some c →
    p.connToID.lookup c = some id ∧ c ∈ p.writeMu ∧ c ∈ seen

/-- The invariant: what is on the line is whole messages and part of one more, whose
writer holds the mutex. -/
structure Intact (s : Delivery C) : Prop where
  bound : Bound s.pool s.seen
  mutex : ∀ c k, s.mutex c = some k ↔ ∃ sent, s.stage k = .writing c sent
  alive : ∀ k, s.stage k ≠ .panicked
  pending : ∀ k, (s.stage k).pending = true → k ∉ s.returned
  once : s.returned.Nodup
  within : ∀ k c sent, s.stage k = .writing c sent → sent ≤ (request k).2.length
  line : ∀ c, ∃ part, s.wire c = data request (s.wroteTo c) ++ part ∧ Tail request s c part

section Tails

omit [DecidableEq C]

variable {request} {s t : Delivery C} {k : ℕ}

/-- What is behind the whole messages of a connection does not depend on the calls that neither
write to it nor have failed on it. -/
theorem Tail.frame {c : C} {part : List UInt8} (h : Tail request s c part)
    (hmutex : t.mutex c = s.mutex c) (hclosed : s.closed ⊆ t.closed)
    (hstage : ∀ j, (s.stage j = .failed c ∨ ∃ sent, s.stage j = .writing c sent) →
      t.stage j = s.stage j) : Tail request t c part := by
  rcases h with ⟨j, sent, hj, hwriting, hpart⟩ | ⟨hholder, hpart⟩
  · exact .inl ⟨j, sent, hmutex.trans hj, (hstage j (.inr ⟨sent, hwriting⟩)).trans hwriting, hpart⟩
  · refine .inr ⟨fun j hj => ?_, hpart.imp_right ?_⟩
    · have hwriting := hholder j (hmutex ▸ hj)
      exact (hstage j (.inr ⟨0, hwriting⟩)).trans hwriting
    · rintro ⟨hc, j, hfailed, hle⟩
      exact ⟨hclosed hc, j, (hstage j (.inl hfailed)).trans hfailed, hle⟩

/-- What the holder of the mutex has written so far, unless something was cut off before. -/
theorem Tail.of_writing {c : C} {part : List UInt8} {sent : ℕ} (h : Tail request s c part)
    (hmutex : s.mutex c = some k) (hstage : s.stage k = .writing c sent) :
    part = (request k).2.take sent ∨ (sent = 0 ∧ Cut request s c part) := by
  rcases h with ⟨j, sent', hj, hwriting, hpart⟩ | ⟨hholder, hpart⟩
  · obtain rfl : k = j := Option.some.inj (hmutex.symm.trans hj)
    obtain rfl : sent = sent' := by simpa using hstage.symm.trans hwriting
    exact .inl hpart
  · obtain rfl : sent = 0 := by simpa using hstage.symm.trans (hholder k hmutex)
    rcases hpart with rfl | hcut
    · exact .inl rfl
    · exact .inr ⟨rfl, hcut⟩

theorem Tail.of_free {c : C} {part : List UInt8} (h : Tail request s c part)
    (hmutex : s.mutex c = none) : part = [] ∨ Cut request s c part := by
  rcases h with ⟨j, -, hj, -⟩ | ⟨-, hpart⟩
  · rw [hmutex] at hj
    cases hj
  · exact hpart

theorem touches_writing {c c₀ : C} {sent : ℕ} (h : (WriteStage.writing c₀ sent).Touches c) :
    c = c₀ := by
  simpa [WriteStage.Touches, eq_comm] using h

end Tails

section Pool

variable {p : ConnPool C}

theorem Bound.register {seen : Finset C} (h : Bound p seen) {c : C} (hc : c ∉ seen)
    (id : GoString) :
    Bound (p.register c id) (insert c seen) := by
  intro x d hx
  rw [ConnPool.register_clients] at hx
  split_ifs at hx with hid
  · obtain rfl := Option.some.inj hx
    simp [hid, ConnPool.register]
  · obtain ⟨hconn, hmu, hseen⟩ := h x d hx
    have hne : d ≠ c := fun heq => hc (heq ▸ hseen)
    simp [hne, hconn, ConnPool.register, hmu, hseen]

theorem Bound.unregister {seen : Finset C} (h : Bound p seen) (c : C) :
    Bound (p.unregister c).1 seen := by
  intro x d hx
  rw [ConnPool.unregister_clients] at hx
  split_ifs at hx with hid
  obtain ⟨hconn, hmu, hseen⟩ := h x d hx
  have hne : d ≠ c := by
    rintro rfl
    exact hid (by simp [ConnPool.currentID, hconn])
  simp [hne, hconn, ConnPool.unregister, hmu, hseen]

theorem Bound.remapClientID {seen : Finset C} (h : Bound p seen) (oldID newID : GoString) :
    Bound (p.remapClientID oldID newID).1 seen := by
  obtain ⟨hsame, -⟩ | ⟨c, hold, -, -, hmu, hclients, hids⟩ := p.remapClientID_cases oldID newID
  · rw [hsame]
    exact h
  obtain ⟨hconn, hcmu, hcseen⟩ := h oldID c hold
  intro x d hx
  rw [hclients] at hx
  rw [hids, hmu]
  split_ifs at hx with hnew hx'
  · obtain rfl := Option.some.inj hx
    exact ⟨by simp [hnew], hcmu, hcseen⟩
  · obtain ⟨hd, hdmu, hdseen⟩ := h x d hx
    have hne : d ≠ c := by
      rintro rfl
      exact hx' (Option.some.inj (hd.symm.trans hconn))
    exact ⟨by simp [hne, hd], hdmu, hdseen⟩

end Pool

section Steps

variable {request} {s t : Delivery C} {k : ℕ}

theorem wroteTo_setStage (hk : k ∉ s.returned) (stage : WriteStage C) (c : C) :
    (s.setStage k stage).wroteTo c = s.wroteTo c := by
  refine List.filter_congr fun j hj => ?_
  have hne : j ≠ k := fun heq => hk (heq ▸ hj)
  simp only [setStage, Function.update_of_ne hne]

theorem wroteTo_finish (hk : k ∉ s.returned) (stage : WriteStage C) (c : C) :
    (s.finish k stage).wroteTo c = s.wroteTo c ++ if stage = .wrote c then [k] else [] := by
  have hold : s.returned.filter (fun j => Function.update s.stage k stage j = .wrote c) =
      s.wroteTo c := wroteTo_setStage hk stage c
  rw [wroteTo, finish, List.filter_append, hold]
  by_cases hstage : stage = .wrote c <;> simp [hstage]

theorem Intact.env (h : Intact request s) {p : ConnPool C} {seen closed : Finset C}
    (hbound : Bound p seen) (hclosed : s.closed ⊆ closed) :
    Intact request { s with pool := p, seen := seen, closed := closed } :=
  { h with
    bound := hbound
    line := fun c => by
      obtain ⟨part, hwire, htail⟩ := h.line c
      exact ⟨part, hwire, htail.frame rfl hclosed fun _ _ => rfl⟩ }

theorem wroteTo_advance {stage : WriteStage C} {c : C} (hk : k ∉ s.returned)
    (hstage : t.stage = Function.update s.stage k stage) (hnot : stage ≠ .wrote c)
    (hreturned : t.returned = s.returned ∨ t.returned = s.returned ++ [k]) :
    t.wroteTo c = s.wroteTo c := by
  rcases hreturned with hret | hret
  · rw [← wroteTo_setStage hk stage c, wroteTo, wroteTo, hret, hstage, setStage]
  · have hfinish := wroteTo_finish hk stage c
    rw [if_neg hnot, List.append_nil] at hfinish
    rw [← hfinish, wroteTo, wroteTo, hret, hstage, finish]

theorem Intact.pending_advance (h : Intact request s) {stage : WriteStage C}
    (hpending : (s.stage k).pending = true) (hstage : t.stage = Function.update s.stage k stage)
    (hreturned : (t.returned = s.returned ∧ stage.pending = true) ∨
      (t.returned = s.returned ++ [k] ∧ stage.pending = false)) (j : ℕ)
    (hj : (t.stage j).pending = true) : j ∉ t.returned := by
  rw [hstage] at hj
  by_cases hjk : j = k
  · subst hjk
    rw [Function.update_self] at hj
    rcases hreturned with ⟨hsame, -⟩ | ⟨-, hdone⟩
    · rw [hsame]
      exact h.pending j hpending
    · rw [hdone] at hj
      cases hj
  · rw [Function.update_of_ne hjk] at hj
    rcases hreturned with ⟨hsame, -⟩ | ⟨happend, -⟩
    · rw [hsame]
      exact h.pending j hj
    · simp [happend, h.pending j hj, hjk]

/-- A connection that the call does not touch keeps its mutex and its line. -/
theorem Intact.quiet (h : Intact request s) {stage : WriteStage C} {c : C}
    (hother : ∀ j ≠ k, t.stage j = s.stage j) (hself : t.stage k = stage)
    (hclosed : t.closed = s.closed) (hbefore : ¬ (s.stage k).Touches c)
    (hafter : ¬ stage.Touches c) (hmutex : t.mutex c = s.mutex c) (hwire : t.wire c = s.wire c)
    (hwrote : t.wroteTo c = s.wroteTo c) :
    (∀ j, t.mutex c = some j ↔ ∃ sent, t.stage j = .writing c sent) ∧
      ∃ part, t.wire c = data request (t.wroteTo c) ++ part ∧ Tail request t c part := by
  constructor
  · intro j
    rw [hmutex, h.mutex]
    by_cases hj : j = k
    · subst hj
      rw [hself]
      exact iff_of_false (fun hw => hbefore (.inl hw)) (fun hw => hafter (.inl hw))
    · rw [hother j hj]
  · obtain ⟨part, hline, htail⟩ := h.line c
    refine ⟨part, by rw [hwire, hwrote, hline], htail.frame hmutex hclosed.ge fun j hj => ?_⟩
    refine hother j fun heq => hbefore ?_
    rw [← heq]
    exact hj.elim (fun hf => .inr (.inr hf)) .inl

/-- One call takes a step. Only the connections whose mutex it holds, or takes or gives back, have
to be looked at. -/
theorem Intact.advance (h : Intact request s) {stage : WriteStage C}
    (hpending : (s.stage k).pending = true) (hstage : t.stage = Function.update s.stage k stage)
    (hpool : t.pool = s.pool ∧ t.seen = s.seen ∧ t.closed = s.closed)
    (hsane : stage ≠ .panicked ∧ ∀ c sent, stage = .writing c sent → sent ≤ (request k).2.length)
    (hreturned : (t.returned = s.returned ∧ stage.pending = true) ∨
      (t.returned = s.returned ++ [k] ∧ stage.pending = false))
    (hquiet : ∀ c, ¬ (s.stage k).Touches c → ¬ stage.Touches c →
      t.mutex c = s.mutex c ∧ t.wire c = s.wire c)
    (htouched : ∀ c, (s.stage k).Touches c ∨ stage.Touches c →
      (∀ j, t.mutex c = some j ↔ ∃ sent, t.stage j = .writing c sent) ∧
      ∃ part, t.wire c = data request (t.wroteTo c) ++ part ∧ Tail request t c part) :
    Intact request t := by
  have hk := h.pending k hpending
  have hother : ∀ j ≠ k, t.stage j = s.stage j := fun j hj => by
    rw [hstage, Function.update_of_ne hj]
  have hself : t.stage k = stage := by rw [hstage, Function.update_self]
  have hall : ∀ c, (∀ j, t.mutex c = some j ↔ ∃ sent, t.stage j = .writing c sent) ∧
      ∃ part, t.wire c = data request (t.wroteTo c) ++ part ∧ Tail request t c part := by
    intro c
    by_cases htouch : (s.stage k).Touches c ∨ stage.Touches c
    · exact htouched c htouch
    · rw [not_or] at htouch
      obtain ⟨hmutex, hwire⟩ := hquiet c htouch.1 htouch.2
      have hnot : stage ≠ .wrote c := fun heq => htouch.2 (.inr (.inl heq))
      exact h.quiet hother hself hpool.2.2 htouch.1 htouch.2 hmutex hwire
        (wroteTo_advance hk hstage hnot (hreturned.imp And.left And.left))
  refine ⟨hpool.1 ▸ hpool.2.1 ▸ h.bound, fun c => (hall c).1, fun j => ?_,
    h.pending_advance hpending hstage hreturned, ?_, fun j c sent hj => ?_, fun c => (hall c).2⟩
  · by_cases hj : j = k
    · rw [hj, hself]
      exact hsane.1
    · rw [hother j hj]
      exact h.alive j
  · rcases hreturned with ⟨hsame, -⟩ | ⟨happend, -⟩
    · rw [hsame]
      exact h.once
    · rw [happend]
      exact List.nodup_append_comm.mp (List.nodup_cons.mpr ⟨hk, h.once⟩)
  · by_cases hjk : j = k
    · subst hjk
      exact hsane.2 c sent (hself.symm.trans hj)
    · exact h.within j c sent ((hother j hjk).symm.trans hj)

theorem Intact.lookup (h : Intact request s) (hstep : step request s (.lookup k) = some t) :
    Intact request t := by
  cases hstage : s.stage k with
  | idle =>
    have hnone : ∀ c, ¬ (s.stage k).Touches c := by simp [hstage, WriteStage.Touches]
    simp only [step, hstage] at hstep
    rw [ConnPool.writeTarget] at hstep
    cases hconn : s.pool.clients.lookup (request k).1 with
    | none =>
      simp only [hconn, Option.some.injEq] at hstep
      subst hstep
      exact h.advance (by rw [hstage]; rfl) rfl ⟨rfl, rfl, rfl⟩ ⟨by simp, by simp⟩ (.inr ⟨rfl, rfl⟩)
        (fun c _ _ => ⟨rfl, rfl⟩) fun c hc => by
          simp [hstage, WriteStage.Touches] at hc
    | some c =>
      have hmu := (h.bound _ _ hconn).2.1
      simp only [hconn, hmu, if_true, Option.some.injEq] at hstep
      subst hstep
      exact h.advance (by rw [hstage]; rfl) rfl ⟨rfl, rfl, rfl⟩ ⟨by simp, by simp⟩ (.inl ⟨rfl, rfl⟩)
        (fun c _ _ => ⟨rfl, rfl⟩) fun c hc => by
          simp [hstage, WriteStage.Touches] at hc
  | _ => simp [step, hstage] at hstep

theorem Intact.lock (h : Intact request s) (hstep : step request s (.lock k) = some t) :
    Intact request t := by
  cases hstage : s.stage k with
  | found c₀ =>
    simp only [step, hstage, Option.ite_none_right_eq_some, Option.some.injEq] at hstep
    obtain ⟨hfree, rfl⟩ := hstep
    have hk : (s.stage k).pending = true := by rw [hstage]; rfl
    refine h.advance hk rfl ⟨rfl, rfl, rfl⟩ ⟨by simp, by simp⟩ (.inl ⟨rfl, rfl⟩)
      (fun c _ hc => ⟨Function.update_of_ne ?_ _ _, rfl⟩) fun c hc => ?_
    · rintro rfl
      exact hc (.inl ⟨0, rfl⟩)
    · obtain rfl : c = c₀ := by
        rcases hc with hc | hc
        · simp [hstage, WriteStage.Touches] at hc
        · exact touches_writing hc
      have hnobody : ∀ j sent, s.stage j ≠ .writing c sent := fun j sent hj => by
        have hheld := (h.mutex c j).mpr ⟨sent, hj⟩
        rw [hfree] at hheld
        cases hheld
      constructor
      · intro j
        simp only [setStage, Function.update_self, Option.some.injEq]
        by_cases hj : j = k
        · simp [hj]
        · simp [hj, Ne.symm hj, Function.update_of_ne, hnobody]
      · obtain ⟨part, hwire, htail⟩ := h.line c
        refine ⟨part, ?_, .inr ⟨?_, (htail.of_free hfree).imp_right ?_⟩⟩
        · have hwrote := wroteTo_setStage (h.pending k hk) (.writing c 0) c
          exact hwire.trans (congrArg (data request · ++ part) hwrote.symm)
        · intro j hj
          obtain rfl : k = j := by simpa using hj
          simp [setStage]
        · rintro ⟨hclosed, j, hfailed, hle⟩
          have hj : j ≠ k := by
            rintro rfl
            rw [hstage] at hfailed
            cases hfailed
          exact ⟨hclosed, j, by simpa [setStage, Function.update_of_ne hj] using hfailed, hle⟩
  | _ => simp [step, hstage] at hstep

theorem Intact.write (h : Intact request s) {n : ℕ}
    (hstep : step request s (.write k n) = some t) : Intact request t := by
  cases hstage : s.stage k with
  | writing c₀ sent =>
    simp only [step, hstage, Option.ite_none_right_eq_some, Option.some.injEq] at hstep
    obtain ⟨⟨hopen, hfits⟩, rfl⟩ := hstep
    have hk : (s.stage k).pending = true := by rw [hstage]; rfl
    have hheld : s.mutex c₀ = some k := (h.mutex c₀ k).mpr ⟨sent, hstage⟩
    have hwithin : ∀ c sent', WriteStage.writing c₀ (sent + n) = .writing c sent' →
        sent' ≤ (request k).2.length := by
      rintro c sent' ⟨⟩
      exact hfits
    refine h.advance hk rfl ⟨rfl, rfl, rfl⟩ ⟨by simp, hwithin⟩ (.inl ⟨rfl, rfl⟩)
      (fun c _ hc => ⟨rfl, Function.update_of_ne ?_ _ _⟩) fun c hc => ?_
    · rintro rfl
      exact hc (.inl ⟨_, rfl⟩)
    · obtain rfl : c = c₀ := by
        rcases hc with hc | hc
        · exact touches_writing (hstage ▸ hc)
        · exact touches_writing hc
      constructor
      · intro j
        by_cases hj : j = k
        · simp [hj, setStage, hheld]
        · simp [setStage, Function.update_of_ne hj, h.mutex]
      · obtain ⟨part, hwire, htail⟩ := h.line c
        have hpart : part = (request k).2.take sent := by
          rcases htail.of_writing hheld hstage with hpart | ⟨-, hcut⟩
          · exact hpart
          · exact absurd hcut.1 hopen
        refine ⟨(request k).2.take (sent + n), ?_, .inl ⟨k, sent + n, hheld, ?_, rfl⟩⟩
        · have hwrote := wroteTo_setStage (h.pending k hk) (.writing c (sent + n)) c
          have hall : s.wire c ++ ((request k).2.drop sent).take n =
              data request (s.wroteTo c) ++ (request k).2.take (sent + n) := by
            rw [hwire, hpart, List.append_assoc, ← List.take_add]
          rw [← hwrote] at hall
          exact (Function.update_self c _ s.wire).trans hall
        · simp [setStage]
  | _ => simp [step, hstage] at hstep

theorem Intact.release (h : Intact request s) {c₀ : C} {sent : ℕ} {stage : WriteStage C}
    (hstage : s.stage k = .writing c₀ sent) (hnew : stage = .wrote c₀ ∨ stage = .failed c₀)
    (hline : ∃ part, s.wire c₀ = data request ((s.finish k stage).wroteTo c₀) ++ part ∧
      (part = [] ∨ Cut request (s.finish k stage) c₀ part)) :
    Intact request ((s.finish k stage).unlocked c₀) := by
  have hheld : s.mutex c₀ = some k := (h.mutex c₀ k).mpr ⟨sent, hstage⟩
  have hdone : stage.pending = false ∧ (stage ≠ .panicked ∧ ∀ c sent, stage ≠ .writing c sent) ∧
      ∀ c, stage.Touches c → c = c₀ := by
    rcases hnew with rfl | rfl <;> simp [WriteStage.pending, WriteStage.Touches, eq_comm]
  refine h.advance (by rw [hstage]; rfl) rfl ⟨rfl, rfl, rfl⟩
    ⟨hdone.2.1.1, fun c sent heq => absurd heq (hdone.2.1.2 c sent)⟩ (.inr ⟨rfl, hdone.1⟩)
    (fun c hc _ => ⟨Function.update_of_ne ?_ _ _, rfl⟩) fun c hc => ?_
  · rintro rfl
    exact hc (.inl ⟨sent, hstage⟩)
  · obtain rfl : c = c₀ := hc.elim (fun hc => touches_writing (hstage ▸ hc)) (hdone.2.2 c)
    have hfree : ((s.finish k stage).unlocked c).mutex c = none := Function.update_self _ _ _
    constructor
    · intro j
      rw [hfree]
      refine iff_of_false (by simp) ?_
      rintro ⟨sent', hj⟩
      by_cases hjk : j = k
      · subst hjk
        exact hdone.2.1.2 c sent' (by simpa [unlocked, finish] using hj)
      · have hother : s.stage j = .writing c sent' := by
          simpa [unlocked, finish, Function.update_of_ne hjk] using hj
        have hheld' := (h.mutex c j).mpr ⟨sent', hother⟩
        exact hjk (Option.some.inj (hheld'.symm.trans hheld))
    · obtain ⟨part, hwire, htail⟩ := hline
      refine ⟨part, hwire, .inr ⟨fun j hj => ?_, htail⟩⟩
      rw [hfree] at hj
      cases hj

theorem Intact.unlock (h : Intact request s) (hstep : step request s (.unlock k) = some t) :
    Intact request t := by
  cases hstage : s.stage k with
  | writing c sent =>
    have hk : k ∉ s.returned := h.pending k (by rw [hstage]; rfl)
    obtain ⟨part, hwire, htail⟩ := h.line c
    have hpart := htail.of_writing ((h.mutex c k).mpr ⟨sent, hstage⟩) hstage
    simp only [step, hstage] at hstep
    split_ifs at hstep with hall hclosed
    · obtain rfl := Option.some.inj hstep
      refine h.release hstage (.inl rfl) ⟨[], ?_, .inl rfl⟩
      have hwhole : part = (request k).2 := by
        rcases hpart with rfl | ⟨hzero, hcut⟩
        · rw [hall.1, List.take_length]
        · exact absurd hzero (hall.2 hcut.1)
      rw [wroteTo_finish hk, if_pos rfl, hwire, hwhole]
      simp [data]
    · obtain rfl := Option.some.inj hstep
      refine h.release hstage (.inr rfl) ⟨part, ?_, ?_⟩
      · rw [wroteTo_finish hk, if_neg (by simp), List.append_nil, hwire]
      · rcases hpart with rfl | ⟨-, -, j, hfailed, hle⟩
        · refine .inr ⟨hclosed, k, by simp [finish], List.take_prefix _ _, fun hwhole => ?_⟩
          have hle : sent ≤ (request k).2.length := h.within k c sent hstage
          have hlen : sent = (request k).2.length := by
            rw [List.take_eq_self_iff] at hwhole
            omega
          have hzero : sent = 0 := by
            by_contra hpos
            exact hall ⟨hlen, fun _ => hpos⟩
          rw [hzero, List.take_zero]
        · have hj : j ≠ k := by
            rintro rfl
            rw [hstage] at hfailed
            cases hfailed
          exact .inr ⟨hclosed, j, by simpa [finish, Function.update_of_ne hj] using hfailed, hle⟩
  | _ => simp [step, hstage] at hstep

theorem Intact.step (h : Intact request s) {op : DeliveryOp C}
    (hstep : Delivery.step request s op = some t) : Intact request t := by
  cases op with
  | register c id =>
    simp only [Delivery.step, Option.ite_none_left_eq_some, Option.some.injEq] at hstep
    obtain ⟨hfresh, rfl⟩ := hstep
    exact h.env (h.bound.register hfresh id) subset_rfl
  | remapClientID oldID newID =>
    obtain rfl := Option.some.inj hstep
    exact h.env (h.bound.remapClientID oldID newID) subset_rfl
  | unregister c =>
    obtain rfl := Option.some.inj hstep
    exact h.env (h.bound.unregister c) subset_rfl
  | close c =>
    obtain rfl := Option.some.inj hstep
    exact h.env h.bound (Finset.subset_insert c s.closed)
  | lookup k => exact h.lookup hstep
  | lock k => exact h.lock hstep
  | write k n => exact h.write hstep
  | unlock k => exact h.unlock hstep

theorem intact_init : Intact request (init : Delivery C) where
  bound := fun id c h => by simp [init, ConnPool.new] at h
  mutex := by simp [init]
  alive := by simp [init]
  pending := by simp [init]
  once := List.nodup_nil
  within := by simp [init]
  line := fun c => ⟨[], by simp [init, wroteTo, data], .inr ⟨by simp [init], .inl rfl⟩⟩

theorem intact_run {ops : List (DeliveryOp C)}
    (hrun : runFrom (Delivery.step request) init ops = some t) : Intact request t :=
  invariant_run (P := fun _ _ => True) (fun _ _ _ h _ hstep => h.step hstep) intact_init
    (along_of_forall (fun _ _ => trivial) _) hrun

end Steps

section Peer

variable {request} {t : Delivery C} {ops : List (DeliveryOp C)}

/-- However the calls of `WriteToClient` and the changes of the pool are interleaved, no call
finds a nil mutex, and every connection has taken the data of the calls that returned without an
error: each once, whole, in the order in which they returned, with at most the beginning of one
more behind them. -/
theorem wire_whole (hrun : runFrom (step request) init ops = some t) (c : C) :
    (∀ k, t.stage k ≠ .panicked) ∧ (t.wroteTo c).Nodup ∧
    ∃ part, t.wire c = data request (t.wroteTo c) ++ part ∧
      (part = [] ∨ ∃ k, k ∉ t.wroteTo c ∧ (t.stage k).Touches c ∧ part <+: (request k).2) := by
  have h := intact_run hrun
  obtain ⟨part, hwire, htail⟩ := h.line c
  refine ⟨h.alive, h.once.filter _, part, hwire, ?_⟩
  have hnot : ∀ k, t.stage k ≠ .wrote c → k ∉ t.wroteTo c := fun k hk hin => by
    simp [wroteTo, hk] at hin
  rcases htail with ⟨k, sent, -, hwriting, rfl⟩ | ⟨-, hpart⟩
  · exact .inr ⟨k, hnot k (by simp [hwriting]), .inl ⟨sent, hwriting⟩, List.take_prefix _ _⟩
  · refine hpart.imp_right ?_
    rintro ⟨-, k, hfailed, hle, -⟩
    exact ⟨k, hnot k (by simp [hfailed]), .inr (.inr hfailed), hle⟩

/-- Two calls for one client, a longer message first. -/
def twoCalls (k : ℕ) : GoString × List UInt8 := (lit "a", frameBytes (if k = 0 then [5] else []))

/-- The second call finds the connection before the first has written, and the client changes its
id in between; the connection is closed in the middle of the second message. -/
def twoCallsOps : List (DeliveryOp Unit) :=
  [.register () (lit "a"), .lookup 0, .lookup 1, .lock 0, .write 0 3,
    .remapClientID (lit "a") (lit "b"), .write 0 4, .unlock 0, .lock 1, .write 1 2, .close ()]

theorem wire_whole_two_calls : ∃ t : Delivery Unit,
    runFrom (step twoCalls) init twoCallsOps = some t ∧ t.wroteTo () = [0] ∧
      ∃ part, t.wire () = data twoCalls (t.wroteTo ()) ++ part := by
  have hrun : (runFrom (step twoCalls) init twoCallsOps).any
      (fun t => t.wroteTo () = [0]) = true := by
    decide +kernel
  obtain ⟨t, ht, hwrote⟩ := exists_run_of_any hrun
  obtain ⟨-, -, part, hwire, -⟩ := wire_whole ht ()
  exact ⟨t, ht, by simpa using hwrote, part, hwire⟩

/-- A message that a reader with this limit takes. -/
def IsFrame (maxSize : ℕ) (bytes : List UInt8) : Prop :=
  ∃ payload : List UInt8, payload.length < 2 ^ 32 ∧ (frameBytes payload).length ≤ maxSize ∧
    bytes = frameBytes payload

theorem IsFrame.next {maxSize : ℕ} {bytes : List UInt8} (h : IsFrame maxSize bytes)
    (more : List UInt8) : nextFrame maxSize (bytes ++ more) = .emit bytes more := by
  obtain ⟨payload, hlen, hmax, rfl⟩ := h
  exact nextFrame_frameBytes maxSize hlen hmax more

/-- The reader waits for the rest of a message. -/
theorem IsFrame.need {maxSize : ℕ} {bytes part : List UInt8} (h : IsFrame maxSize bytes)
    (hle : part <+: bytes) (hne : part ≠ bytes) : nextFrame maxSize part = .need := by
  obtain ⟨more, rfl⟩ := hle
  have hwhole := h.next []
  rw [List.append_nil] at hwhole
  cases hpart : nextFrame maxSize part with
  | need => rfl
  | fail error =>
    rw [nextFrame_fail hpart more] at hwhole
    cases hwhole
  | emit frame rest =>
    rw [(nextFrame_emit hpart).2.2 more, Split.emit.injEq] at hwhole
    obtain ⟨-, hmore⟩ := List.append_eq_nil_iff.mp hwhole.2
    exact absurd (by rw [hmore, List.append_nil]) hne

/-- Whoever reads a connection with the framing of this server, in whatever pieces, with a handler
that returns and responses that can be written, is handed the messages of the calls that returned
without an error, whole, once and in order, at most one more that is written and about to return,
and no other. -/
theorem peer_frames {maxSize : ℕ} (hframes : ∀ k, IsFrame maxSize (request k).2)
    (hrun : runFrom (step request) init ops = some t) (c : C) {σ : Type} (peer : FrameServer σ)
    (hreturns : ∀ s frame, (peer.handleRawMessage s frame).2.isSome = true)
    (hwrites : ∀ s response, (peer.writeToClient s response).2 = true) (s : σ)
    {reads : List (List UInt8)} (hreads : reads.flatten = t.wire c) :
    ∃ last, (readLoop peer maxSize s reads).frames =
        (t.wroteTo c ++ last).map (fun k => (request k).2) ∧
      (readLoop peer maxSize s reads).ended = none ∧
      (last = [] ∨ ∃ k, last = [k] ∧ t.stage k = .writing c (request k).2.length) := by
  have h := intact_run hrun
  obtain ⟨part, hwire, htail⟩ := h.line c
  have hread : ∀ ks : List ℕ, ∀ rest : List UInt8, t.wire c = data request ks ++ rest →
      nextFrame maxSize rest = .need →
      (readLoop peer maxSize s reads).frames = ks.map (fun k => (request k).2) ∧
        (readLoop peer maxSize s reads).ended = none := by
    intro ks rest hks hrest
    have hcontinues : ∀ s frame, (peer.onFrame s frame).2 = true := fun s frame =>
      (onFrame_continues_iff peer hwrites s frame).mpr fun _ => hreturns _ _
    refine Reader.run_frames_append (S := musSplitter maxSize) hcontinues rfl
      _ (fun f hf more => ?_) hrest s (hreads.trans hks)
    obtain ⟨k, -, rfl⟩ := List.mem_map.mp hf
    exact (hframes k).next more
  by_cases hwhole : ∃ k, t.stage k = .writing c (request k).2.length ∧ part = (request k).2
  · obtain ⟨k, hstage, rfl⟩ := hwhole
    have hks : t.wire c = data request (t.wroteTo c ++ [k]) ++ [] := by
      rw [hwire]
      simp [data]
    obtain ⟨hfr, hend⟩ := hread _ _ hks rfl
    exact ⟨[k], hfr, hend, .inr ⟨k, rfl, hstage⟩⟩
  · have hneed : nextFrame maxSize part = .need := by
      rcases htail with ⟨k, sent, -, hstage, rfl⟩ | ⟨-, rfl | ⟨-, k, -, hle, hnot⟩⟩
      · refine (hframes k).need (List.take_prefix _ _) fun heq => hwhole ⟨k, ?_, heq⟩
        have hlen : sent = (request k).2.length := by
          have hle := h.within k c sent hstage
          rw [List.take_eq_self_iff] at heq
          omega
        rw [← hlen, hstage]
      · rfl
      · by_cases heq : part = (request k).2
        · rw [hnot heq]
          rfl
        · exact (hframes k).need hle heq
    obtain ⟨hfr, hend⟩ := hread _ _ hwire hneed
    exact ⟨[], by rw [hfr, List.append_nil], hend, .inl rfl⟩

theorem isFrame_twoCalls (k : ℕ) : IsFrame 7 (twoCalls k).2 := by
  by_cases hk : k = 0
  · exact ⟨[5], by decide, by decide, by rw [twoCalls, if_pos hk]⟩
  · exact ⟨[], by decide, by decide, by rw [twoCalls, if_neg hk]⟩

theorem peer_frames_two_calls : ∃ t : Delivery Unit,
    runFrom (step twoCalls) init twoCallsOps = some t ∧
      ∃ last, (readLoop silentServer 7 () [t.wire ()]).frames =
        (t.wroteTo () ++ last).map fun k => (twoCalls k).2 := by
  have hrun : (runFrom (step twoCalls) init twoCallsOps).any (fun _ => true) = true := by
    decide +kernel
  obtain ⟨t, ht, -⟩ := exists_run_of_any hrun
  have hreads : [t.wire ()].flatten = t.wire () := by simp
  obtain ⟨last, hframes, -⟩ :=
    peer_frames isFrame_twoCalls ht () silentServer (fun _ _ => rfl) (fun _ _ => rfl) () hreads
  exact ⟨t, ht, last, hframes⟩

end Peer

end Delivery

end Musgos.Inbound
