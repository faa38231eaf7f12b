import Musgos.Foundation.Transition
import Musgos.Outbound.TimedCache

/-!
# Bans of addresses

`IsIPBanned` is asked for every connection and every datagram. It looks into the cache, asks the
database if there is nothing, and stores the answer for thirty seconds. Between these three
steps of a call come those of other calls, other users of the cache, and the bans themselves
change. So an answer may be old when it is given, and older still when it is stored. Once no
call is left that has asked before, it is the stored answers alone that can be old, and they
last for thirty seconds.
-/
namespace Musgos.Inbound

open Foundation Outbound

section System

def banKeyStart : GoString := lit "ban:ip:"

def banKey (host : GoString) : GoString := banKeyStart ++ host

def banText (banned : Bool) : List UInt8 := if banned then lit "1" else lit "0"

/-- Thirty seconds in nanoseconds. -/
def banTTL : ℕ := 30 * 10 ^ 9

/-- Where a call of `IsIPBanned` is: not begun, before it asks the database, or before it stores
the answer. -/
inductive BanCall where
  | idle
  | missed (host : GoString)
  | answered (host : GoString) (banned : Bool)
  deriving DecidableEq

/-- One answer of `IsBanned` and when it was given. -/
structure BanDecision where
  host : GoString
  time : ℕ
  banned : Bool
  deriving DecidableEq

/-- The cache and the calls that are under way. -/
structure BanSystem where
  cache : SetCache
  now : ℕ
  calls : ℕ → BanCall
  /-- What the calls returned, a history that no code reads. -/
  decisions : List BanDecision

def BanSystem.init : BanSystem := ⟨.empty 1000, 0, fun _ => .idle, []⟩

def valueKey : ValueOp → GoString
  | .set key _ _ | .get key | .keyExists key | .increment key | .delete key => key

/-- The steps, with the readings of the clock that those on the cache make. -/
inductive BanOp where
  | lookUp (i : ℕ) (host : GoString) (reading : ValueCall)
  | ask (i : ℕ) (time : ℕ) (fails : Bool)
  | store (i : ℕ) (reading : ValueCall)
  /-- Another user of the cache. -/
  | other (call : ValueCall)

def BanOp.fails : BanOp → Bool
  | .ask _ _ fails => fails
  | _ => false

-- Whether a host has an active ban, at each moment.
variable (active : ℕ → GoString → Bool)

namespace BanSystem

def setCall (s : BanSystem) (i : ℕ) (call : BanCall) : BanSystem :=
  { s with calls := Function.update s.calls i call }

def step (s : BanSystem) : BanOp → Option BanSystem
  | .lookUp i host reading =>
    if s.now ≤ reading.start ∧ s.calls i = .idle then
      match (s.cache.call { reading with op := .get (banKey host) }).1 with
      | .found (some val) =>
        some { s with
          now := reading.finish
          decisions := s.decisions ++ [⟨host, reading.start, val = lit "1"⟩] }
      | _ => some { s.setCall i (.missed host) with now := reading.finish }
    else none
  | .ask i time fails =>
    match s.calls i with
    | .missed host =>
      -- an error counts as no ban
      if s.now ≤ time then
        some { s.setCall i (.answered host (!fails && active time host)) with now := time }
      else none
    | _ => none
  | .store i reading =>
    match s.calls i with
    | .answered host banned =>
      if s.now ≤ reading.start then
        some { s.setCall i .idle with
          cache := (s.cache.call
            { reading with op := .set (banKey host) (banText banned) banTTL }).2
          now := reading.finish
          decisions := s.decisions ++ [⟨host, reading.finish, banned⟩] }
      else none
    | _ => none
  | .other call =>
    -- the keys of the bans are used for nothing else
    if s.now ≤ call.start ∧ ¬ banKeyStart <+: valueKey call.op then
      some { s with cache := (s.cache.call call).2, now := call.finish }
    else none

end BanSystem

end System

section Entries

theorem banKey_injective : Function.Injective banKey := by
  intro a b h
  exact List.append_cancel_left h

theorem valueKey_ne_banKey {op : ValueOp} (h : ¬ banKeyStart <+: valueKey op) (host : GoString) :
    banKey host ≠ valueKey op := by
  intro heq
  exact h (heq ▸ List.prefix_append banKeyStart host)

theorem call_other_key (m : TimedMap) (now : ℕ) {op : ValueOp} {key : GoString}
    (h : key ≠ valueKey op) : (m.call now op).2 key = m key := by
  cases op with
  | set k value ttl => exact Function.update_of_ne h _ _
  | get k => rfl
  | keyExists k => rfl
  | delete k => exact Function.update_of_ne h _ _
  | increment k =>
    rw [TimedMap.call, TimedMap.increment]
    cases (m.present now k).elim (some (1, none)) TimedMap.incremented with
    | none => rfl
    | some p => exact Function.update_of_ne h _ _

end Entries

section Steps

variable {active : ℕ → GoString → Bool} {s s' : BanSystem} {m : TimedMap} {op : BanOp}

/-- What a step can do, told by the map that the cache stands for. -/
inductive Effect (active : ℕ → GoString → Bool) (s s' : BanSystem) (op : BanOp) (m : TimedMap) :
    TimedMap → Prop
  | found (host : GoString) (time : ℕ) (e : CacheEntry (List UInt8))
    (hentry : m (banKey host) = some e) (hlive : ∀ deadline ∈ e.expiresAt, time ≤ deadline)
    (htime : time ≤ s'.now) (hcalls : s'.calls = s.calls)
    (hdecisions : s'.decisions = s.decisions ++ [⟨host, time, e.value = lit "1"⟩]) :
    Effect active s s' op m m
  | missed (i : ℕ) (host : GoString) (hcalls : s'.calls = Function.update s.calls i (.missed host))
    (hdecisions : s'.decisions = s.decisions) : Effect active s s' op m m
  | asked (i : ℕ) (host : GoString) (htime : s.now ≤ s'.now)
    (hcalls : s'.calls = Function.update s.calls i
      (.answered host (!op.fails && active s'.now host)))
    (hdecisions : s'.decisions = s.decisions) : Effect active s s' op m m
  | stored (i : ℕ) (host : GoString) (banned : Bool) (time : ℕ) (htime : time ≤ s'.now)
    (hcall : s.calls i = .answered host banned)
    (hcalls : s'.calls = Function.update s.calls i .idle)
    (hdecisions : s'.decisions = s.decisions ++ [⟨host, s'.now, banned⟩]) :
    Effect active s s' op m
      (Function.update m (banKey host) (some ⟨banText banned, some (time + banTTL)⟩))
  | other (m' : TimedMap) (hentries : ∀ host, m' (banKey host) = m (banKey host))
    (hcalls : s'.calls = s.calls) (hdecisions : s'.decisions = s.decisions) :
    Effect active s s' op m m'

theorem effect_of_lookUp {i : ℕ} {host : GoString} {reading : ValueCall}
    (hstep : s.step active (.lookUp i host reading) = some s') (hholds : Holds s.cache m s.now) :
    s.now ≤ s'.now ∧ ∃ m', Holds s'.cache m' s'.now ∧
      Effect active s s' (.lookUp i host reading) m m' := by
  rw [BanSystem.step] at hstep
  split_ifs at hstep with hready
  let call : ValueCall := { reading with op := .get (banKey host) }
  have hlater : s.now ≤ reading.finish := hready.1.trans call.start_le_finish
  have hanswer : (s.cache.call call).1 =
      .found ((m.present reading.start (banKey host)).map (·.value)) :=
    (hholds.call (show s.now ≤ call.start from hready.1)).1
  rw [hanswer] at hstep
  cases hpresent : m.present reading.start (banKey host) with
  | none =>
    rw [hpresent] at hstep
    obtain rfl := Option.some.inj hstep
    exact ⟨hlater, m, hholds.mono hlater, .missed i host rfl rfl⟩
  | some e =>
    rw [hpresent] at hstep
    obtain rfl := Option.some.inj hstep
    obtain ⟨hentry, hlive⟩ := Option.filter_eq_some_iff.mp hpresent
    refine ⟨hlater, m, hholds.mono hlater, .found host reading.start e hentry ?_
      call.start_le_finish rfl rfl⟩
    intro deadline hdeadline
    rw [Option.mem_def.mp hdeadline] at hlive
    exact of_decide_eq_true hlive

theorem effect_of_step (hstep : s.step active op = some s') (hholds : Holds s.cache m s.now) :
    s.now ≤ s'.now ∧ ∃ m', Holds s'.cache m' s'.now ∧ Effect active s s' op m m' := by
  cases op with
  | lookUp i host reading => exact effect_of_lookUp hstep hholds
  | ask i time fails =>
    rw [BanSystem.step] at hstep
    cases hcall : s.calls i with
    | missed host =>
      rw [hcall] at hstep
      split_ifs at hstep with htime
      obtain rfl := Option.some.inj hstep
      exact ⟨htime, m, hholds.mono htime, .asked i host htime rfl rfl⟩
    | idle | answered =>
      rw [hcall] at hstep
      cases hstep
  | store i reading =>
    rw [BanSystem.step] at hstep
    cases hcall : s.calls i with
    | answered host banned =>
      rw [hcall] at hstep
      split_ifs at hstep with htime
      obtain rfl := Option.some.inj hstep
      let call : ValueCall := { reading with op := .set (banKey host) (banText banned) banTTL }
      have hset : Holds (s.cache.call call).2 (m.call call.start call.op).2 call.finish :=
        (hholds.call (show s.now ≤ call.start from htime)).2
      exact ⟨htime.trans call.start_le_finish, _, hset,
        .stored i host banned reading.start call.start_le_finish hcall rfl rfl⟩
    | idle | missed =>
      rw [hcall] at hstep
      cases hstep
  | other call =>
    rw [BanSystem.step] at hstep
    split_ifs at hstep with hready
    obtain rfl := Option.some.inj hstep
    refine ⟨hready.1.trans call.start_le_finish, _, (hholds.call hready.1).2,
      .other _ (fun host => ?_) rfl rfl⟩
    exact call_other_key m call.start (valueKey_ne_banKey hready.2 host)

end Steps

section Age

variable {active : ℕ → GoString → Bool} {s s' : BanSystem} {op : BanOp}

/-- Every stored answer is gone in thirty seconds, and no decision is of the future. -/
structure ShortLived (s : BanSystem) : Prop where
  entries : ∃ m, Holds s.cache m s.now ∧ ∀ host e, m (banKey host) = some e →
    ∃ deadline, e.expiresAt = some deadline ∧ deadline ≤ s.now + banTTL
  decided : ∀ d ∈ s.decisions, d.time ≤ s.now

theorem shortLived_init : ShortLived .init where
  entries := ⟨fun _ => none, holds_empty 1000 0, fun _ _ h => by cases h⟩
  decided _ h := absurd h List.not_mem_nil

theorem ShortLived.step (h : ShortLived s) (hstep : s.step active op = some s') :
    ShortLived s' := by
  obtain ⟨m, hholds, hentries⟩ := h.entries
  obtain ⟨hnow, m', hholds', heffect⟩ := effect_of_step hstep hholds
  have hlater : ∀ {deadline}, deadline ≤ s.now + banTTL → deadline ≤ s'.now + banTTL :=
    fun hle => hle.trans (Nat.add_le_add_right hnow _)
  have hkept : ∀ host e, m (banKey host) = some e →
      ∃ deadline, e.expiresAt = some deadline ∧ deadline ≤ s'.now + banTTL := by
    intro host e he
    obtain ⟨deadline, hdeadline, hle⟩ := hentries host e he
    exact ⟨deadline, hdeadline, hlater hle⟩
  have hold : ∀ d ∈ s.decisions, d.time ≤ s'.now := fun d hd => (h.decided d hd).trans hnow
  have hnew : ∀ d : BanDecision, d.time ≤ s'.now → ∀ d' ∈ s.decisions ++ [d], d'.time ≤ s'.now := by
    intro d hd d' hd'
    rcases List.mem_append.mp hd' with hd' | hd'
    · exact hold d' hd'
    · rw [List.mem_singleton.mp hd']
      exact hd
  cases heffect with
  | found host time e hentry hlive htime hcalls hdecisions =>
    exact ⟨⟨m, hholds', hkept⟩, hdecisions ▸ hnew _ htime⟩
  | missed i host hcalls hdecisions => exact ⟨⟨m, hholds', hkept⟩, hdecisions ▸ hold⟩
  | asked i host htime hcalls hdecisions => exact ⟨⟨m, hholds', hkept⟩, hdecisions ▸ hold⟩
  | stored i host banned time htime hcall hcalls hdecisions =>
    refine ⟨⟨_, hholds', fun other e he => ?_⟩, hdecisions ▸ hnew _ le_rfl⟩
    rw [Function.update_apply] at he
    split_ifs at he
    · obtain rfl := Option.some.inj he
      exact ⟨_, rfl, Nat.add_le_add_right htime _⟩
    · exact hkept other e he
  | other m' hsame hcalls hdecisions =>
    refine ⟨⟨m', hholds', fun host e he => hkept host e ?_⟩, hdecisions ▸ hold⟩
    rwa [← hsame host]

end Age

section Settling

variable {active : ℕ → GoString → Bool} {s s' : BanSystem} {op : BanOp}
variable {host : GoString} {b : Bool}

/-- The answer for a host has been `b` since `since`: no call has another one to store, and what
is stored of another is gone after thirty seconds. -/
structure Settling (host : GoString) (b : Bool) (since : ℕ) (s : BanSystem) : Prop where
  later : since ≤ s.now
  pending : ∀ i banned, s.calls i = .answered host banned → banned = b
  entries : ∃ m, Holds s.cache m s.now ∧ ∀ e, m (banKey host) = some e →
    e.value = banText b ∨ ∃ deadline, e.expiresAt = some deadline ∧ deadline ≤ since + banTTL
  decided : ∀ d ∈ s.decisions, d.host = host → since + banTTL < d.time → d.banned = b

theorem Settling.pending_update {since : ℕ} (h : Settling host b since s) (i : ℕ) {call : BanCall}
    (hcall : ∀ banned, call = .answered host banned → banned = b) (j : ℕ) (banned : Bool)
    (hj : Function.update s.calls i call j = .answered host banned) : banned = b := by
  rw [Function.update_apply] at hj
  split_ifs at hj
  · exact hcall banned hj
  · exact h.pending j banned hj

theorem Settling.decided_append {since : ℕ} (h : Settling host b since s) {d : BanDecision}
    (hd : d.host = host → since + banTTL < d.time → d.banned = b) :
    ∀ d' ∈ s.decisions ++ [d], d'.host = host → since + banTTL < d'.time → d'.banned = b :=
  List.forall_mem_append.mpr ⟨h.decided, List.forall_mem_singleton.mpr hd⟩

theorem Settling.step {since : ℕ} (h : Settling host b since s)
    (hactive : ∀ t, since ≤ t → active t host = b) (hfails : op.fails = false)
    (hstep : s.step active op = some s') : Settling host b since s' := by
  obtain ⟨m, hholds, hentries⟩ := h.entries
  obtain ⟨hnow, m', hholds', heffect⟩ := effect_of_step hstep hholds
  have hlater := h.later.trans hnow
  cases heffect with
  | found host' time e hentry hlive htime hcalls hdecisions =>
    refine ⟨hlater, hcalls ▸ h.pending, ⟨m, hholds', hentries⟩,
      hdecisions ▸ h.decided_append ?_⟩
    rintro rfl hlate
    rcases hentries e hentry with hvalue | ⟨deadline, hdeadline, hle⟩
    · rw [hvalue]
      cases b <;> rfl
    · have := hlive deadline hdeadline
      dsimp only at hlate
      omega
  | missed i host' hcalls hdecisions =>
    exact ⟨hlater, hcalls ▸ h.pending_update i (by simp), ⟨m, hholds', hentries⟩,
      hdecisions ▸ h.decided⟩
  | asked i host' htime hcalls hdecisions =>
    refine ⟨hlater, hcalls ▸ h.pending_update i fun banned hbanned => ?_, ⟨m, hholds', hentries⟩,
      hdecisions ▸ h.decided⟩
    obtain ⟨rfl, rfl⟩ := BanCall.answered.inj hbanned
    rw [hfails, hactive s'.now hlater]
    rfl
  | stored i host' banned time htime hcall hcalls hdecisions =>
    refine ⟨hlater, hcalls ▸ h.pending_update i (by simp), ⟨_, hholds', fun e he => ?_⟩,
      hdecisions ▸ h.decided_append ?_⟩
    · rw [Function.update_apply] at he
      split_ifs at he with hkey
      · obtain rfl := banKey_injective hkey
        obtain rfl := Option.some.inj he
        rw [h.pending i banned hcall]
        exact .inl rfl
      · exact hentries e he
    · rintro rfl -
      exact h.pending i banned hcall
  | other m' hsame hcalls hdecisions =>
    refine ⟨hlater, hcalls ▸ h.pending, ⟨m', hholds', fun e he => hentries e ?_⟩,
      hdecisions ▸ h.decided⟩
    rwa [← hsame host]

/-- A ban, or its end, takes effect. From some moment on the database says `b` of a host and
every question is answered, and no call is left with another answer to store. Then whoever
asks more than thirty seconds later gets `b`, in every order of the steps of the calls, of the
other users of the cache, and of its sweeps. -/
theorem ban_takes_effect (active : ℕ → GoString → Bool) (before after : List BanOp)
    (s t : BanSystem) (host : GoString) (b : Bool)
    (hbefore : runFrom (BanSystem.step active) .init before = some s)
    (hafter : runFrom (BanSystem.step active) s after = some t)
    (hpending : ∀ i banned, s.calls i = .answered host banned → banned = b)
    (hactive : ∀ time, s.now ≤ time → active time host = b)
    (hanswered : ∀ op ∈ after, op.fails = false) :
    ∀ d ∈ t.decisions, d.host = host → s.now + 30 * 10 ^ 9 < d.time → d.banned = b := by
  have hshort : ShortLived s :=
    invariant_run (P := fun _ _ => True) (fun _ _ _ h _ hstep => ShortLived.step h hstep)
      shortLived_init (along_of_forall (P := fun _ => True) (fun _ _ => trivial) _) hbefore
  have hstart : Settling host b s.now s := by
    obtain ⟨m, hholds, hentries⟩ := hshort.entries
    refine ⟨le_rfl, hpending, ⟨m, hholds, fun e he => .inr (hentries host e he)⟩, ?_⟩
    intro d hd _ hlate
    have := hshort.decided d hd
    omega
  have hend : Settling host b s.now t :=
    invariant_run (fun _ _ _ h hfails hstep => Settling.step h hactive hfails hstep) hstart
      (along_of_forall hanswered s) hafter
  exact hend.decided

/-- A reading of the clock while it stands still. -/
def readAt (ord : RangeOrder GoString) (time : ℕ) : ValueCall := .atOnce ord time (.get [])

/-- The host is banned at 5, when the cache still says that it is not. -/
def bannedAtFive (time : ℕ) (_ : GoString) : Bool := 5 ≤ time

def beforeBan (ord : RangeOrder GoString) : List BanOp :=
  [.lookUp 0 (lit "h") (readAt ord 0), .ask 0 1 false, .store 0 (readAt ord 2),
    .other (readAt ord 6)]

/-- At first the old answer is found, and later there is none any more. -/
def afterBan (ord : RangeOrder GoString) : List BanOp :=
  [.lookUp 0 (lit "h") (readAt ord 7), .lookUp 1 (lit "h") (readAt ord (31 * 10 ^ 9)),
    .ask 1 (31 * 10 ^ 9) false, .store 1 (readAt ord (31 * 10 ^ 9))]

theorem ban_takes_effect_at_five : ∃ s t,
    runFrom (BanSystem.step bannedAtFive) .init (beforeBan (.sorted (· ≤ ·))) = some s ∧
      runFrom (BanSystem.step bannedAtFive) s (afterBan (.sorted (· ≤ ·))) = some t ∧
      t.decisions = [⟨lit "h", 2, false⟩, ⟨lit "h", 7, false⟩, ⟨lit "h", 31 * 10 ^ 9, true⟩] ∧
      ∀ d ∈ t.decisions, d.host = lit "h" → s.now + 30 * 10 ^ 9 < d.time → d.banned = true := by
  have hbefore : (runFrom (BanSystem.step bannedAtFive) .init
      (beforeBan (.sorted (· ≤ ·)))).any (fun s => s.now = 6 &&
        (runFrom (BanSystem.step bannedAtFive) s (afterBan (.sorted (· ≤ ·)))).any (fun t =>
        t.decisions = [⟨lit "h", 2, false⟩, ⟨lit "h", 7, false⟩,
          ⟨lit "h", 31 * 10 ^ 9, true⟩])) = true := by
    decide +kernel
  have hcalls : (runFrom (BanSystem.step bannedAtFive) .init
      (beforeBan (.sorted (· ≤ ·)))).map BanSystem.calls =
      some (Function.update (Function.update (Function.update (fun _ => .idle) 0
        (.missed (lit "h"))) 0 (.answered (lit "h") false)) 0 .idle) := rfl
  obtain ⟨s, hs, hlater⟩ := exists_run_of_any hbefore
  rw [Bool.and_eq_true, decide_eq_true_eq] at hlater
  obtain ⟨t, ht, hdecisions⟩ := exists_run_of_any hlater.2
  rw [hs, Option.map_some, Function.update_idem, Function.update_idem] at hcalls
  refine ⟨s, t, hs, ht, of_decide_eq_true hdecisions, ?_⟩
  refine ban_takes_effect bannedAtFive _ _ s t (lit "h") true hs ht ?_ ?_ ?_
  · intro i banned hi
    rw [Option.some.inj hcalls, Function.update_apply] at hi
    split_ifs at hi
  · intro time htime
    rw [hlater.1] at htime
    exact decide_eq_true (by omega)
  · intro op hop
    simp only [afterBan, List.mem_cons, List.not_mem_nil, or_false] at hop
    rcases hop with rfl | rfl | rfl | rfl <;> rfl

end Settling

end Musgos.Inbound
