import Musgos.Foundation.Base64
import Musgos.Foundation.Bytes
import Musgos.Foundation.Transition

/-!
# The queue on Redis

`Publish` pushes a message to the left end of the list of its topic. Every `Subscribe` starts a
loop that pops from the right end and calls its handler. The queue keeps one cancel function for
a topic, so a second subscription leaves the first loop running beside its own; then the loops of
a topic share the messages.

Each command of Redis and each section under the mutex is one step, and the steps of the callers
and the loops come in any order. A reply of Redis may be lost with the connection: then the client
sends an `LPush` again, and a message that a `BRPop` has taken from the list is lost. `published`,
`pushed`, `popped` and `handled` are histories that no code reads.
-/
namespace Musgos.Outbound

open Foundation

/-! The message as `json.Marshal` writes it. -/
section Messages

/-- What a handler gets. -/
structure QueueMessage where
  topic : GoString
  /-- `none` is a nil slice. -/
  payload : Option (List UInt8)
  deriving DecidableEq

def payloadNull : GoString := lit "\x7b\"payload\":null\x7d"

def payloadOpening : GoString := lit "\x7b\"payload\":\""

def payloadClosing : GoString := lit "\"\x7d"

def marshalMessage : Option (List UInt8) → GoString
  | none => payloadNull
  | some bytes => payloadOpening ++ Base64.encode bytes ++ payloadClosing

/-- `json.Unmarshal`, for a document with this one field and nothing to skip. -/
def unmarshalMessage (text : GoString) : Option (Option (List UInt8)) :=
  if text = payloadNull then some none
  else if payloadOpening <+: text then
    let body := text.drop payloadOpening.length
    let chars := body.takeWhile (· ≠ 34)
    if body.dropWhile (· ≠ 34) = payloadClosing ∧ 92 ∉ chars then
      (Base64.decode chars).map some
    else none
  else none

theorem unmarshal_marshal (payload : Option (List UInt8)) :
    unmarshalMessage (marshalMessage payload) = some payload := by
  cases payload with
  | none => rfl
  | some bytes =>
    have hplain := Base64.ne_of_mem_encode bytes
    have hchars : ∀ x ∈ Base64.encode bytes, decide (x ≠ 34) = true :=
      fun x hx => decide_eq_true (hplain x hx).1
    have hbackslash : 92 ∉ Base64.encode bytes := fun hmem => (hplain 92 hmem).2 rfl
    have hnull : marshalMessage (some bytes) ≠ payloadNull := by
      intro h
      have hbyte := congrArg (·[11]?) h
      simp only [marshalMessage, List.append_assoc] at hbyte
      rw [List.getElem?_append_left (by decide)] at hbyte
      exact absurd hbyte (by decide)
    have hbody : (marshalMessage (some bytes)).drop payloadOpening.length =
        Base64.encode bytes ++ payloadClosing := by
      rw [marshalMessage, List.append_assoc, List.drop_left]
    have hopening : payloadOpening <+: marshalMessage (some bytes) := by
      rw [marshalMessage, List.append_assoc]
      exact List.prefix_append _ _
    have htake : (Base64.encode bytes ++ payloadClosing).takeWhile (· ≠ 34) =
        Base64.encode bytes := by
      rw [List.takeWhile_append_of_pos hchars]
      exact List.append_nil _
    have hdrop : (Base64.encode bytes ++ payloadClosing).dropWhile (· ≠ 34) = payloadClosing := by
      rw [List.dropWhile_append_of_pos hchars]
      rfl
    rw [unmarshalMessage, if_neg hnull, if_pos hopening]
    simp only [hbody, htake, hdrop]
    rw [if_pos ⟨trivial, hbackslash⟩, Base64.decode_encode, Option.map_some]

end Messages

section System

/-- Where a loop is: before it looks at its context, in `BRPop`, or with what it has popped. -/
inductive LoopPhase where
  | head
  | waiting
  | holding (data : GoString)
  | ended
  deriving DecidableEq

/-- A run of `consumeLoop`. -/
structure ConsumeLoop where
  topic : GoString
  cancelled : Bool
  phase : LoopPhase
  deriving DecidableEq

/-- An element that Redis took from a list. -/
structure Pop where
  /-- The loop that has got it; `none` if the reply was lost. -/
  loop : Option ℕ
  topic : GoString
  data : GoString

/-- The queue with Redis, its loops and the calls of `Publish` that are under way. -/
structure RedisQueue where
  /-- The lists of Redis by their keys, from left to right. -/
  lists : GoString → List GoString
  /-- The loop that the cancel function of a topic belongs to. -/
  cancels : GoString → Option ℕ
  closed : Bool
  loops : List ConsumeLoop
  /-- Calls of `Publish` that have found the queue open. -/
  publishing : List (GoString × Option (List UInt8))
  published : List (GoString × Option (List UInt8))
  pushed : List (GoString × Option (List UInt8))
  popped : List Pop
  handled : List (ℕ × QueueMessage)

def RedisQueue.init : RedisQueue :=
  { lists := fun _ => [], cancels := fun _ => none, closed := false, loops := [], publishing := []
    published := [], pushed := [], popped := [], handled := [] }

/-- A step of a caller, of a loop or of Redis. -/
inductive QueueOp where
  | publish (topic : GoString) (payload : Option (List UInt8))
  /-- Redis carries out the `LPush` of the call that is `i`-th in line, perhaps not the first
  time. -/
  | push (i : ℕ)
  /-- That call returns, with an error or without. -/
  | returns (i : ℕ)
  | subscribe (topic : GoString)
  | unsubscribe (topic : GoString)
  | close
  /-- A loop looks at its context. -/
  | check (i : ℕ)
  | pop (i : ℕ)
  /-- `BRPop` gives an error or times out. -/
  | popFails (i : ℕ)
  /-- Redis takes an element for a loop, and the reply does not arrive. The loop may have given up
  waiting by then. -/
  | popLost (i : ℕ)
  | handle (i : ℕ)

variable (keyPrefix : GoString)

def topicKey (topic : GoString) : GoString := keyPrefix ++ lit ":" ++ topic

/-- The message that a loop makes of an element; `none` if it is no message. -/
def message (topic data : GoString) : Option QueueMessage :=
  (unmarshalMessage data).map fun payload => ⟨topic, payload⟩

namespace RedisQueue

def setLoop (s : RedisQueue) (i : ℕ) (l : ConsumeLoop) : RedisQueue :=
  { s with loops := s.loops.set i l }

/-- `BRPop` of an element, if there is one: it and the lists without it. -/
def brpop (s : RedisQueue) (topic : GoString) : Option (GoString × (GoString → List GoString)) :=
  ((s.lists (topicKey keyPrefix topic)).getLast?).map fun data =>
    (data, Function.update s.lists (topicKey keyPrefix topic)
      (s.lists (topicKey keyPrefix topic)).dropLast)

/-- The context of the loop that the cancel function belongs to is done. -/
def cancel (s : RedisQueue) (i : ℕ) : List ConsumeLoop :=
  s.loops.modify i fun l => { l with cancelled := true }

def step (s : RedisQueue) : QueueOp → Option RedisQueue
  | .publish topic payload =>
    if s.closed then some s
    else some { s with
      publishing := s.publishing ++ [(topic, payload)]
      published := s.published ++ [(topic, payload)] }
  | .push i =>
    s.publishing[i]?.map fun p =>
      { s with
        lists := Function.update s.lists (topicKey keyPrefix p.1)
          (marshalMessage p.2 :: s.lists (topicKey keyPrefix p.1))
        pushed := s.pushed ++ [p] }
  | .returns i => some { s with publishing := s.publishing.eraseIdx i }
  | .subscribe topic =>
    if s.closed then some s
    else some { s with
      cancels := Function.update s.cancels topic (some s.loops.length)
      loops := s.loops ++ [⟨topic, false, .head⟩] }
  | .unsubscribe topic =>
    if s.closed then some s
    else some { s with
      cancels := Function.update s.cancels topic none
      loops := (s.cancels topic).elim s.loops s.cancel }
  | .close =>
    some { s with
      closed := true
      cancels := fun _ => none
      loops := s.loops.mapIdx fun i l =>
        if s.cancels l.topic = some i then { l with cancelled := true } else l }
  | .check i =>
    s.loops[i]?.bind fun l =>
      if l.phase = .head then
        some (s.setLoop i { l with phase := if l.cancelled then .ended else .waiting })
      else none
  | .pop i =>
    s.loops[i]?.bind fun l =>
      if l.phase = .waiting then
        (s.brpop keyPrefix l.topic).map fun p =>
          { s.setLoop i { l with phase := .holding p.1 } with
            lists := p.2, popped := s.popped ++ [⟨some i, l.topic, p.1⟩] }
      else none
  | .popFails i =>
    s.loops[i]?.bind fun l =>
      if l.phase = .waiting then
        some (s.setLoop i { l with phase := if l.cancelled then .ended else .head })
      else none
  | .popLost i =>
    s.loops[i]?.bind fun l =>
      (s.brpop keyPrefix l.topic).map fun p =>
        { s with lists := p.2, popped := s.popped ++ [⟨none, l.topic, p.1⟩] }
  | .handle i =>
    s.loops[i]?.bind fun l =>
      match l.phase with
      | .holding data =>
        some { s.setLoop i { l with phase := .head } with
          handled := s.handled ++ ((message l.topic data).map fun m => (i, m)).toList }
      | _ => none

end RedisQueue

end System

section Histories

/-- The message that a loop has popped and not handled. -/
def ConsumeLoop.held (l : ConsumeLoop) : List QueueMessage :=
  match l.phase with
  | .holding data => (message l.topic data).toList
  | _ => []

def Pop.message (p : Pop) : Option QueueMessage := Outbound.message p.topic p.data

namespace RedisQueue

variable (keyPrefix : GoString) (s : RedisQueue) (topic : GoString)

def pushedTo : List (Option (List UInt8)) :=
  (s.pushed.filter fun p => p.1 = topic).map Prod.snd

def handledOf : List (Option (List UInt8)) :=
  (s.handled.filter fun h => h.2.topic = topic).map fun h => h.2.payload

def heldOf : List (Option (List UInt8)) :=
  ((s.loops.flatMap ConsumeLoop.held).filter fun m => m.topic = topic).map QueueMessage.payload

/-- What was lost with a reply. -/
def lostOf : List (Option (List UInt8)) :=
  ((s.popped.filter fun p => p.loop = none).filter fun p => p.topic = topic).filterMap fun p =>
    unmarshalMessage p.data

/-- What is in the list of a topic, the oldest first. -/
def waitingFor : List (Option (List UInt8)) :=
  (s.lists (topicKey keyPrefix topic)).reverse.filterMap unmarshalMessage

/-- What one of the loops has handled. -/
def handledBy (i : ℕ) : List (Option (List UInt8)) :=
  (s.handled.filter fun h => h.1 = i).map fun h => h.2.payload

end RedisQueue

end Histories

section Invariant

variable (keyPrefix : GoString)

theorem topicKey_injective : Function.Injective (topicKey keyPrefix) := by
  intro a b h
  exact List.append_cancel_left h

/-- What the other steps look at of a loop. -/
def ConsumeLoop.view (l : ConsumeLoop) : GoString × List QueueMessage := (l.topic, l.held)

/-- The histories agree with the lists and the loops. -/
structure Accounts (s : RedisQueue) : Prop where
  sent : ∀ p ∈ s.publishing ++ s.pushed, p ∈ s.published
  /-- What was pushed was popped or is in the list. -/
  lined : ∀ topic, (s.pushed.filter fun p => p.1 = topic).map (fun p => marshalMessage p.2) =
    (s.popped.filter fun p => p.topic = topic).map Pop.data ++
      (s.lists (topicKey keyPrefix topic)).reverse
  owned : ∀ p ∈ s.popped, ∀ i, p.loop = some i →
    (s.loops.map ConsumeLoop.view)[i]?.map Prod.fst = some p.topic
  known : ∀ h ∈ s.handled, h.1 < (s.loops.map ConsumeLoop.view).length
  served : ∀ i v, (s.loops.map ConsumeLoop.view)[i]? = some v →
    (s.popped.filter fun p => p.loop = some i).filterMap Pop.message =
      ((s.handled.filter fun h => h.1 = i).map Prod.snd) ++ v.2
  counted : ((s.popped.filter fun p => p.loop ≠ none).filterMap Pop.message).Perm
    (s.handled.map Prod.snd ++ (s.loops.map ConsumeLoop.view).flatMap Prod.snd)

variable {keyPrefix} {s s' : RedisQueue}

theorem accounts_init : Accounts keyPrefix RedisQueue.init where
  sent _ h := absurd h List.not_mem_nil
  lined _ := rfl
  owned _ h := absurd h List.not_mem_nil
  known _ h := absurd h List.not_mem_nil
  served i v h := by cases h
  counted := .refl _

theorem Accounts.of_same (h : Accounts keyPrefix s)
    (hsent : ∀ p ∈ s'.publishing ++ s'.pushed, p ∈ s'.published) (hlists : s'.lists = s.lists)
    (hviews : s'.loops.map ConsumeLoop.view = s.loops.map ConsumeLoop.view)
    (hpushed : s'.pushed = s.pushed) (hpopped : s'.popped = s.popped)
    (hhandled : s'.handled = s.handled) : Accounts keyPrefix s' where
  sent := hsent
  lined := by
    rw [hpushed, hpopped, hlists]
    exact h.lined
  owned := by
    rw [hpopped, hviews]
    exact h.owned
  known := by
    rw [hhandled, hviews]
    exact h.known
  served := by
    rw [hpopped, hviews, hhandled]
    exact h.served
  counted := by
    rw [hpopped, hviews, hhandled]
    exact h.counted

theorem map_view_set {loops : List ConsumeLoop} {i : ℕ} {l l' : ConsumeLoop}
    (hl : loops[i]? = some l) (hview : l'.view = l.view) :
    (loops.set i l').map ConsumeLoop.view = loops.map ConsumeLoop.view := by
  have hget : (loops.map ConsumeLoop.view)[i]? = some l.view := by
    rw [List.getElem?_map, hl, Option.map_some]
  obtain ⟨hi, hself⟩ := List.getElem?_eq_some_iff.mp hget
  rw [List.map_set, hview, ← hself, List.set_getElem_self hi]

theorem map_view_modify (loops : List ConsumeLoop) (i : ℕ) :
    (loops.modify i fun l => { l with cancelled := true }).map ConsumeLoop.view =
      loops.map ConsumeLoop.view := by
  apply List.ext_getElem?
  intro j
  rw [List.getElem?_map, List.getElem?_map, List.getElem?_modify, Option.map_eq_map, Option.map_map]
  refine Option.map_congr fun l _ => ?_
  rw [Function.comp_apply]
  split_ifs <;> rfl

theorem map_view_mapIdx (loops : List ConsumeLoop) (c : ℕ → ConsumeLoop → Prop)
    [∀ i l, Decidable (c i l)] :
    (loops.mapIdx fun i l => if c i l then { l with cancelled := true } else l).map
      ConsumeLoop.view = loops.map ConsumeLoop.view := by
  apply List.ext_getElem?
  intro j
  rw [List.getElem?_map, List.getElem?_map, List.getElem?_mapIdx, Option.map_map]
  refine Option.map_congr fun l _ => ?_
  rw [Function.comp_apply]
  split_ifs <;> rfl

theorem flatMap_set_perm {α β : Type} (f : α → List β) {l : List α} {i : ℕ} {a : α}
    (ha : l[i]? = some a) (b : α) :
    ((l.set i b).flatMap f ++ f a).Perm (l.flatMap f ++ f b) := by
  induction l generalizing i with
  | nil => cases ha
  | cons x xs ih =>
    cases i with
    | zero =>
      obtain rfl := Option.some.inj ha
      rw [List.set_cons_zero, List.flatMap_cons, List.flatMap_cons, List.append_assoc]
      exact List.perm_append_comm.trans (List.perm_append_comm.append_right (f b))
    | succ i =>
      simp only [List.set_cons_succ, List.flatMap_cons, List.append_assoc]
      exact (ih ha).append_left (f x)

theorem filterMap_pop (p : Pop) : [p].filterMap Pop.message = p.message.toList := by
  cases hm : p.message with
  | none => simp [hm]
  | some m => simp [hm]

theorem Accounts.publish (h : Accounts keyPrefix s) {topic : GoString}
    {payload : Option (List UInt8)}
    (hstep : s.step keyPrefix (.publish topic payload) = some s') : Accounts keyPrefix s' := by
  rw [RedisQueue.step] at hstep
  split_ifs at hstep
  · obtain rfl := Option.some.inj hstep
    exact h
  · obtain rfl := Option.some.inj hstep
    refine h.of_same (fun p hp => ?_) rfl rfl rfl rfl rfl
    have hold := h.sent p
    simp only [List.mem_append] at hp hold ⊢
    tauto

theorem Accounts.push (h : Accounts keyPrefix s) {i : ℕ}
    (hstep : s.step keyPrefix (.push i) = some s') : Accounts keyPrefix s' := by
  obtain ⟨p, hp, rfl⟩ := Option.map_eq_some_iff.mp hstep
  refine ⟨fun q hq => ?_, fun topic => ?_, h.owned, h.known, h.served, h.counted⟩
  · rw [← List.append_assoc, List.mem_append, List.mem_singleton] at hq
    rcases hq with hq | rfl
    · exact h.sent q hq
    · exact h.sent q (List.mem_append_left _ (List.mem_of_getElem? hp))
  · have hlined := h.lined topic
    by_cases htopic : p.1 = topic
    · subst htopic
      simp only [Function.update_self, List.reverse_cons, List.filter_append, List.map_append]
      rw [hlined, List.append_assoc]
      simp
    · have hkey : topicKey keyPrefix topic ≠ topicKey keyPrefix p.1 :=
        fun heq => htopic (topicKey_injective keyPrefix heq).symm
      simpa [Function.update_of_ne hkey, List.filter_append, htopic] using hlined

theorem Accounts.returns (h : Accounts keyPrefix s) {i : ℕ}
    (hstep : s.step keyPrefix (.returns i) = some s') : Accounts keyPrefix s' := by
  obtain rfl := Option.some.inj hstep
  refine h.of_same (fun p hp => h.sent p ?_) rfl rfl rfl rfl rfl
  refine (List.Sublist.append_right ?_ _).subset hp
  exact List.eraseIdx_sublist s.publishing i

theorem Accounts.unsubscribe (h : Accounts keyPrefix s) {topic : GoString}
    (hstep : s.step keyPrefix (.unsubscribe topic) = some s') : Accounts keyPrefix s' := by
  rw [RedisQueue.step] at hstep
  split_ifs at hstep
  · obtain rfl := Option.some.inj hstep
    exact h
  · obtain rfl := Option.some.inj hstep
    refine h.of_same h.sent rfl ?_ rfl rfl rfl
    cases s.cancels topic with
    | none => rfl
    | some i => exact map_view_modify s.loops i

theorem Accounts.close (h : Accounts keyPrefix s)
    (hstep : s.step keyPrefix .close = some s') : Accounts keyPrefix s' := by
  obtain rfl := Option.some.inj hstep
  refine h.of_same h.sent rfl ?_ rfl rfl rfl
  exact map_view_mapIdx s.loops fun i l => s.cancels l.topic = some i

theorem Accounts.turn (h : Accounts keyPrefix s) {i : ℕ} {l l' : ConsumeLoop}
    (hl : s.loops[i]? = some l) (hview : l'.view = l.view) :
    Accounts keyPrefix (s.setLoop i l') :=
  h.of_same h.sent rfl (map_view_set hl hview) rfl rfl rfl

theorem Accounts.check (h : Accounts keyPrefix s) {i : ℕ}
    (hstep : s.step keyPrefix (.check i) = some s') : Accounts keyPrefix s' := by
  obtain ⟨l, hl, hstep⟩ := Option.bind_eq_some_iff.mp hstep
  split_ifs at hstep with hphase
  all_goals
    obtain rfl := Option.some.inj hstep
    exact h.turn hl (by simp [ConsumeLoop.view, ConsumeLoop.held, hphase])

theorem Accounts.popFails (h : Accounts keyPrefix s) {i : ℕ}
    (hstep : s.step keyPrefix (.popFails i) = some s') : Accounts keyPrefix s' := by
  obtain ⟨l, hl, hstep⟩ := Option.bind_eq_some_iff.mp hstep
  split_ifs at hstep with hphase
  all_goals
    obtain rfl := Option.some.inj hstep
    exact h.turn hl (by simp [ConsumeLoop.view, ConsumeLoop.held, hphase])

theorem getElem?_view_set {loops : List ConsumeLoop} {i : ℕ} {l : ConsumeLoop}
    (hl : loops[i]? = some l) (l' : ConsumeLoop) (j : ℕ) :
    ((loops.set i l').map ConsumeLoop.view)[j]? =
      if i = j then some l'.view else (loops.map ConsumeLoop.view)[j]? := by
  have hi : i < (loops.map ConsumeLoop.view).length := by
    rw [List.length_map]
    exact (List.getElem?_eq_some_iff.mp hl).1
  rw [List.map_set, List.getElem?_set]
  split_ifs <;> rfl

theorem getElem?_view {loops : List ConsumeLoop} {i : ℕ} {l : ConsumeLoop}
    (hl : loops[i]? = some l) : (loops.map ConsumeLoop.view)[i]? = some l.view := by
  rw [List.getElem?_map, hl, Option.map_some]

theorem Accounts.owned_set (h : Accounts keyPrefix s) {i : ℕ} {l : ConsumeLoop}
    (hl : s.loops[i]? = some l) (phase : LoopPhase) {p : Pop} (hp : p ∈ s.popped) {j : ℕ}
    (hj : p.loop = some j) :
    ((s.loops.set i { l with phase := phase }).map ConsumeLoop.view)[j]?.map Prod.fst =
      some p.topic := by
  have howned := h.owned p hp j hj
  rw [getElem?_view_set hl]
  split_ifs with hloop
  · rw [← hloop, getElem?_view hl] at howned
    exact howned
  · exact howned

/-- One element moves from a list to the history of what was popped. -/
theorem lined_brpop (h : Accounts keyPrefix s) {i : Option ℕ} {topic data : GoString}
    {lists : GoString → List GoString} (hpop : s.brpop keyPrefix topic = some (data, lists))
    (t : GoString) :
    (s.pushed.filter fun p => p.1 = t).map (fun p => marshalMessage p.2) =
      ((s.popped ++ [(⟨i, topic, data⟩ : Pop)]).filter fun p => p.topic = t).map Pop.data ++
        (lists (topicKey keyPrefix t)).reverse := by
  obtain ⟨data', hdata, heq⟩ := Option.map_eq_some_iff.mp hpop
  obtain ⟨rfl, rfl⟩ := Prod.mk.injEq _ _ _ _ ▸ heq
  have hlined := h.lined t
  by_cases htopic : topic = t
  · subst htopic
    rw [← List.dropLast_append_getLast? _ hdata, List.reverse_append] at hlined
    simpa [List.filter_append] using hlined
  · have hkey : topicKey keyPrefix t ≠ topicKey keyPrefix topic :=
      fun heq => htopic (topicKey_injective keyPrefix heq).symm
    simpa [Function.update_of_ne hkey, List.filter_append, htopic] using hlined

theorem Accounts.hold (h : Accounts keyPrefix s) {i : ℕ} {l : ConsumeLoop}
    (hl : s.loops[i]? = some l) (hphase : l.phase = .waiting) {data : GoString}
    {lists : GoString → List GoString} (hpop : s.brpop keyPrefix l.topic = some (data, lists)) :
    Accounts keyPrefix { s.setLoop i { l with phase := .holding data } with
      lists := lists
      popped := s.popped ++ [⟨some i, l.topic, data⟩] } where
  sent := h.sent
  lined := lined_brpop h hpop
  owned p hp j hj := by
    rcases List.mem_append.mp hp with hp | hp
    · exact h.owned_set hl _ hp hj
    · rw [List.mem_singleton.mp hp] at hj ⊢
      rw [RedisQueue.setLoop, getElem?_view_set hl, if_pos (Option.some.inj hj)]
      rfl
  known := by
    simpa [RedisQueue.setLoop] using h.known
  served j v hv := by
    rw [RedisQueue.setLoop, getElem?_view_set hl] at hv
    split_ifs at hv with hj
    · subst hj
      obtain rfl := Option.some.inj hv
      have hserved := h.served i l.view (getElem?_view hl)
      have hheld : l.view.2 = [] := by simp [ConsumeLoop.view, ConsumeLoop.held, hphase]
      rw [hheld, List.append_nil] at hserved
      rw [List.filter_append, List.filterMap_append, hserved]
      simp only [decide_true, List.filter_cons_of_pos, List.filter_nil]
      rw [filterMap_pop]
      rfl
    · have hserved := h.served j v hv
      simpa [RedisQueue.setLoop, List.filter_append, hj] using hserved
  counted := by
    have hheld : l.view.2 = [] := by simp [ConsumeLoop.view, ConsumeLoop.held, hphase]
    have hset := flatMap_set_perm Prod.snd (getElem?_view hl)
      (l.topic, (message l.topic data).toList)
    rw [hheld, List.append_nil] at hset
    have hnew : ([(⟨some i, l.topic, data⟩ : Pop)].filter fun p => p.loop ≠ none).filterMap
        Pop.message = (message l.topic data).toList := filterMap_pop _
    rw [List.filter_append, List.filterMap_append, hnew, RedisQueue.setLoop, List.map_set]
    refine (h.counted.append_right _).trans ?_
    rw [List.append_assoc]
    exact hset.symm.append_left _

theorem Accounts.pop (h : Accounts keyPrefix s) {i : ℕ}
    (hstep : s.step keyPrefix (.pop i) = some s') : Accounts keyPrefix s' := by
  obtain ⟨l, hl, hstep⟩ := Option.bind_eq_some_iff.mp hstep
  split_ifs at hstep with hphase
  obtain ⟨p, hpop, rfl⟩ := Option.map_eq_some_iff.mp hstep
  exact h.hold hl hphase hpop

theorem Accounts.popLost (h : Accounts keyPrefix s) {i : ℕ}
    (hstep : s.step keyPrefix (.popLost i) = some s') : Accounts keyPrefix s' := by
  obtain ⟨l, hl, hstep⟩ := Option.bind_eq_some_iff.mp hstep
  obtain ⟨p, hpop, rfl⟩ := Option.map_eq_some_iff.mp hstep
  refine ⟨h.sent, lined_brpop h hpop, fun q hq j hj => ?_, h.known, fun j v hv => ?_, ?_⟩
  · rcases List.mem_append.mp hq with hq | hq
    · exact h.owned q hq j hj
    · rw [List.mem_singleton.mp hq] at hj
      cases hj
  · simpa [List.filter_append] using h.served j v hv
  · simpa [List.filter_append] using h.counted

theorem Accounts.release (h : Accounts keyPrefix s) {i : ℕ} {l : ConsumeLoop}
    (hl : s.loops[i]? = some l) {data : GoString} (hphase : l.phase = .holding data) :
    Accounts keyPrefix { s.setLoop i { l with phase := .head } with
      handled := s.handled ++ ((message l.topic data).map fun m => (i, m)).toList } where
  sent := h.sent
  lined := h.lined
  owned _ hp _ hj := h.owned_set hl _ hp hj
  known e he := by
    rw [RedisQueue.setLoop, List.length_map, List.length_set, ← List.length_map ConsumeLoop.view]
    rcases List.mem_append.mp he with he | he
    · exact h.known e he
    · obtain ⟨m, -, rfl⟩ := Option.map_eq_some_iff.mp (Option.mem_toList.mp he)
      rw [List.length_map]
      exact (List.getElem?_eq_some_iff.mp hl).1
  served j v hv := by
    rw [RedisQueue.setLoop, getElem?_view_set hl] at hv
    split_ifs at hv with hj
    · subst hj
      obtain rfl := Option.some.inj hv
      have hserved := h.served i l.view (getElem?_view hl)
      have hheld : l.view.2 = (message l.topic data).toList := by
        simp [ConsumeLoop.view, ConsumeLoop.held, hphase]
      rw [hheld] at hserved
      refine hserved.trans ?_
      cases message l.topic data with
      | none => simp [ConsumeLoop.view, ConsumeLoop.held]
      | some m => simp [ConsumeLoop.view, ConsumeLoop.held, List.filter_append]
    · refine (h.served j v hv).trans ?_
      cases message l.topic data with
      | none => simp
      | some m => simp [List.filter_append, hj]
  counted := by
    have hheld : l.view.2 = (message l.topic data).toList := by
      simp [ConsumeLoop.view, ConsumeLoop.held, hphase]
    have hset := flatMap_set_perm Prod.snd (getElem?_view hl) (l.topic, [])
    have hnew : (((message l.topic data).map fun m => (i, m)).toList).map Prod.snd =
        (message l.topic data).toList := by
      cases message l.topic data <;> rfl
    rw [hheld, List.append_nil] at hset
    rw [RedisQueue.setLoop, List.map_set, List.map_append, hnew, List.append_assoc]
    refine h.counted.trans (List.Perm.append_left _ ?_)
    exact hset.symm.trans List.perm_append_comm

theorem Accounts.handle (h : Accounts keyPrefix s) {i : ℕ}
    (hstep : s.step keyPrefix (.handle i) = some s') : Accounts keyPrefix s' := by
  obtain ⟨l, hl, hstep⟩ := Option.bind_eq_some_iff.mp hstep
  cases hphase : l.phase with
  | holding data =>
    rw [hphase] at hstep
    obtain rfl := Option.some.inj hstep
    exact h.release hl hphase
  | head | waiting | ended =>
    rw [hphase] at hstep
    cases hstep

theorem histories_fresh (h : Accounts keyPrefix s) {i : ℕ}
    (hi : ¬ i < (s.loops.map ConsumeLoop.view).length) :
    (s.popped.filter fun p => p.loop = some i) = [] ∧
      (s.handled.filter fun e => e.1 = i) = [] := by
  constructor
  · refine List.filter_eq_nil_iff.mpr fun p hp hloop => hi ?_
    obtain ⟨w, hw, -⟩ := Option.map_eq_some_iff.mp (h.owned p hp i (of_decide_eq_true hloop))
    exact (List.getElem?_eq_some_iff.mp hw).1
  · refine List.filter_eq_nil_iff.mpr fun e he hloop => hi ?_
    rw [← of_decide_eq_true hloop]
    exact h.known e he

theorem Accounts.begin (h : Accounts keyPrefix s) (topic : GoString)
    (cancels : GoString → Option ℕ) :
    Accounts keyPrefix { s with
      cancels := cancels, loops := s.loops ++ [⟨topic, false, .head⟩] } where
  sent := h.sent
  lined := h.lined
  owned p hp i hi := by
    have howned := h.owned p hp i hi
    obtain ⟨v, hv, htopic⟩ := Option.map_eq_some_iff.mp howned
    have hlength := (List.getElem?_eq_some_iff.mp hv).1
    rw [List.map_append, List.getElem?_append_left hlength]
    exact howned
  known e he := by
    have hknown := h.known e he
    rw [List.map_append, List.length_append]
    exact Nat.lt_add_right _ hknown
  served i v hv := by
    rw [List.map_append] at hv
    by_cases hi : i < (s.loops.map ConsumeLoop.view).length
    · rw [List.getElem?_append_left hi] at hv
      exact h.served i v hv
    · obtain ⟨hpopped, hhandled⟩ := histories_fresh h hi
      rw [List.getElem?_append_right (Nat.le_of_not_lt hi)] at hv
      have hv' : v = (topic, []) := List.mem_singleton.mp (List.mem_of_getElem? hv)
      simp only [hpopped, hhandled, hv']
      rfl
  counted := by
    rw [List.map_append, List.flatMap_append]
    simpa [ConsumeLoop.view, ConsumeLoop.held] using h.counted

theorem Accounts.subscribe (h : Accounts keyPrefix s) {topic : GoString}
    (hstep : s.step keyPrefix (.subscribe topic) = some s') : Accounts keyPrefix s' := by
  rw [RedisQueue.step] at hstep
  split_ifs at hstep
  · obtain rfl := Option.some.inj hstep
    exact h
  · obtain rfl := Option.some.inj hstep
    exact h.begin topic _

theorem Accounts.step (h : Accounts keyPrefix s) {op : QueueOp}
    (hstep : s.step keyPrefix op = some s') : Accounts keyPrefix s' := by
  cases op with
  | publish topic payload => exact h.publish hstep
  | push i => exact h.push hstep
  | returns i => exact h.returns hstep
  | subscribe topic => exact h.subscribe hstep
  | unsubscribe topic => exact h.unsubscribe hstep
  | close => exact h.close hstep
  | check i => exact h.check hstep
  | pop i => exact h.pop hstep
  | popFails i => exact h.popFails hstep
  | popLost i => exact h.popLost hstep
  | handle i => exact h.handle hstep

/-- Only a lost reply adds to what is lost. -/
theorem popped_step {op : QueueOp} (hop : ∀ i, op ≠ .popLost i)
    (hstep : s.step keyPrefix op = some s') (h : ∀ p ∈ s.popped, p.loop ≠ none) :
    ∀ p ∈ s'.popped, p.loop ≠ none := by
  cases op with
  | publish | subscribe | unsubscribe =>
    rw [RedisQueue.step] at hstep
    split_ifs at hstep
    all_goals
      obtain rfl := Option.some.inj hstep
      exact h
  | returns | close =>
    obtain rfl := Option.some.inj hstep
    exact h
  | push i =>
    obtain ⟨p, -, rfl⟩ := Option.map_eq_some_iff.mp hstep
    exact h
  | check i | popFails i =>
    obtain ⟨l, -, hstep⟩ := Option.bind_eq_some_iff.mp hstep
    split_ifs at hstep
    all_goals
      obtain rfl := Option.some.inj hstep
      exact h
  | pop i =>
    obtain ⟨l, -, hstep⟩ := Option.bind_eq_some_iff.mp hstep
    split_ifs at hstep
    obtain ⟨p, -, rfl⟩ := Option.map_eq_some_iff.mp hstep
    refine List.forall_mem_append.mpr ⟨h, List.forall_mem_singleton.mpr ?_⟩
    exact Option.some_ne_none i
  | popLost i => exact absurd rfl (hop i)
  | handle i =>
    obtain ⟨l, -, hstep⟩ := Option.bind_eq_some_iff.mp hstep
    split at hstep
    · obtain rfl := Option.some.inj hstep
      exact h
    · cases hstep

end Invariant

section Delivery

variable {keyPrefix : GoString} {s : RedisQueue}

theorem accounts_run {ops : List QueueOp}
    (hrun : runFrom (RedisQueue.step keyPrefix) .init ops = some s) : Accounts keyPrefix s :=
  invariant_run (P := fun _ _ => True) (fun _ _ _ h _ hstep => Accounts.step h hstep) accounts_init
    (along_of_forall (P := fun _ => True) (fun _ _ => trivial) _) hrun

theorem payloads_popped (ps : List Pop) (topic : GoString) :
    ((ps.filterMap Pop.message).filter fun m => m.topic = topic).map QueueMessage.payload =
      (ps.filter fun p => p.topic = topic).filterMap fun p => unmarshalMessage p.data := by
  induction ps with
  | nil => rfl
  | cons p ps ih =>
    cases hread : unmarshalMessage p.data with
    | none =>
      have hmessage : p.message = none := by rw [Pop.message, message, hread, Option.map_none]
      by_cases htopic : p.topic = topic <;> simp [hmessage, htopic, hread, ih]
    | some payload =>
      have hmessage : p.message = some ⟨p.topic, payload⟩ := by
        rw [Pop.message, message, hread, Option.map_some]
      by_cases htopic : p.topic = topic <;> simp [hmessage, htopic, hread, ih]

theorem pushedTo_eq (h : Accounts keyPrefix s) (topic : GoString) :
    s.pushedTo topic = ((s.popped.filter fun p => p.topic = topic).filterMap fun p =>
      unmarshalMessage p.data) ++ s.waitingFor keyPrefix topic := by
  have hlined := congrArg (List.filterMap unmarshalMessage) (h.lined topic)
  rw [List.filterMap_append, List.filterMap_map, List.filterMap_map] at hlined
  have hread : ((s.pushed.filter fun p => p.1 = topic).filterMap
      (unmarshalMessage ∘ fun p => marshalMessage p.2)) = s.pushedTo topic := by
    rw [RedisQueue.pushedTo, ← List.filterMap_eq_map]
    refine List.filterMap_congr fun p _ => ?_
    exact unmarshal_marshal p.2
  rw [hread] at hlined
  exact hlined

/-- Each loop handles its share in the order in which the messages were pushed. -/
theorem handledBy_sublist (h : Accounts keyPrefix s) {i : ℕ} {l : ConsumeLoop}
    (hl : s.loops[i]? = some l) : (s.handledBy i).Sublist (s.pushedTo l.topic) := by
  have hview : (s.loops.map ConsumeLoop.view)[i]? = some l.view := by
    rw [List.getElem?_map, hl, Option.map_some]
  have hown : ∀ p ∈ s.popped, p.loop = some i → p.topic = l.topic := by
    intro p hp hloop
    have howned := h.owned p hp i hloop
    rw [hview] at howned
    exact (Option.some.inj howned).symm
  have hshare : (s.popped.filter fun p => p.loop = some i).Sublist
      (s.popped.filter fun p => p.topic = l.topic) := by
    have hfilter : (s.popped.filter fun p => p.loop = some i) =
        (s.popped.filter fun p => p.topic = l.topic).filter fun p => p.loop = some i := by
      rw [List.filter_filter]
      refine List.filter_congr fun p hp => ?_
      by_cases hloop : p.loop = some i
      · simp [hloop, hown p hp hloop]
      · simp [hloop]
    rw [hfilter]
    exact List.filter_sublist
  have hserved := congrArg (List.map QueueMessage.payload) (h.served i _ hview)
  have hread : ∀ p : Pop, p.message.map QueueMessage.payload = unmarshalMessage p.data := by
    intro p
    rw [Pop.message, message, Option.map_map]
    exact Option.map_id'
  rw [List.map_filterMap, List.map_append, List.map_map] at hserved
  simp only [hread] at hserved
  have hfirst : (s.handledBy i).Sublist
      ((s.popped.filter fun p => p.loop = some i).filterMap fun p => unmarshalMessage p.data) := by
    rw [hserved]
    exact List.sublist_append_left _ _
  rw [pushedTo_eq h]
  exact (hfirst.trans (hshare.filterMap _)).trans (List.sublist_append_left _ _)

/-- What was popped was handled, is held by a loop or was lost. -/
theorem popped_perm (h : Accounts keyPrefix s) (topic : GoString) :
    ((s.popped.filter fun p => p.topic = topic).filterMap fun p => unmarshalMessage p.data).Perm
      (s.handledOf topic ++ s.heldOf topic ++ s.lostOf topic) := by
  have hcounted := (h.counted.filter fun m => m.topic = topic).map QueueMessage.payload
  rw [payloads_popped, List.filter_append, List.map_append, List.filter_map, List.map_map,
    List.flatMap_map] at hcounted
  have hsplit := List.filter_append_perm (fun p : Pop => decide (p.loop ≠ none)) s.popped
  have hread := (hsplit.symm.filter fun p => p.topic = topic).filterMap fun p =>
    unmarshalMessage p.data
  rw [List.filter_append, List.filterMap_append] at hread
  refine hread.trans ((hcounted.append_right _).trans ?_)
  rw [RedisQueue.lostOf]
  simp only [ne_eq, decide_not, Bool.not_not]
  exact .refl _

/-- In every order of the steps, the messages that were pushed to a topic are, each as often as
it was pushed, those that its handlers got, those that the loops are about to hand over, those
whose reply was lost, and those in the list. Every message arrives with the payload and the topic
that it was published with, and each loop handles its share in the order in which the messages
were pushed. As long as no reply to a `BRPop` is lost, no message is. -/
theorem queue_delivery (keyPrefix : GoString) (ops : List QueueOp) (s : RedisQueue)
    (hrun : runFrom (RedisQueue.step keyPrefix) .init ops = some s) (topic : GoString) :
    (s.pushedTo topic).Perm (s.handledOf topic ++ s.heldOf topic ++ s.lostOf topic ++
        s.waitingFor keyPrefix topic) ∧
      (∀ payload ∈ s.pushedTo topic, (topic, payload) ∈ s.published) ∧
      (∀ i l, s.loops[i]? = some l → l.topic = topic →
        (s.handledBy i).Sublist (s.pushedTo topic)) ∧
      ((∀ op ∈ ops, ∀ i, op ≠ .popLost i) → s.lostOf topic = []) := by
  have haccounts := accounts_run hrun
  refine ⟨?_, fun payload hpayload => ?_, fun i l hl htopic => ?_, fun hops => ?_⟩
  · rw [pushedTo_eq haccounts]
    exact (popped_perm haccounts topic).append_right _
  · obtain ⟨p, hp, rfl⟩ := List.mem_map.mp hpayload
    obtain ⟨hp, htopic⟩ := List.mem_filter.mp hp
    rw [← of_decide_eq_true htopic]
    exact haccounts.sent p (List.mem_append_right _ hp)
  · rw [← htopic]
    exact handledBy_sublist haccounts hl
  · have hnone : ∀ p ∈ s.popped, p.loop ≠ none :=
      invariant_run (P := fun _ op => ∀ i, op ≠ .popLost i)
        (fun _ _ _ h hop hstep => popped_step hop hstep h) (fun _ h => absurd h List.not_mem_nil)
        (along_of_forall (P := fun op => ∀ i, op ≠ QueueOp.popLost i) hops _) hrun
    have hlost : (s.popped.filter fun p => p.loop = none) = [] :=
      List.filter_eq_nil_iff.mpr fun p hp h => hnone p hp (of_decide_eq_true h)
    rw [RedisQueue.lostOf, hlost]
    rfl

/-- Two subscriptions to one topic share its messages. The first is pushed twice, as its reply is
lost, and of the two one is lost; the later message is handled. -/
def sharedTopic : List QueueOp :=
  [.subscribe (lit "t"), .subscribe (lit "t"), .publish (lit "t") (some [1]),
    .publish (lit "t") (some [2]), .push 0, .push 0, .push 1, .returns 0, .check 0, .check 1,
    .pop 1, .popLost 0, .pop 0, .handle 0]

theorem queue_delivery_shared : ∃ s,
    runFrom (RedisQueue.step (lit "queue")) .init sharedTopic = some s ∧
      s.handledOf (lit "t") = [some [2]] ∧ s.lostOf (lit "t") = [some [1]] ∧
      (s.pushedTo (lit "t")).Perm
        (s.handledOf (lit "t") ++ s.heldOf (lit "t") ++ s.lostOf (lit "t") ++
          s.waitingFor (lit "queue") (lit "t")) := by
  have hrun : (runFrom (RedisQueue.step (lit "queue")) .init sharedTopic).any (fun s =>
      s.handledOf (lit "t") = [some [2]] && s.lostOf (lit "t") = [some [1]]) = true := by
    decide
  obtain ⟨s, hs, hfacts⟩ := exists_run_of_any hrun
  rw [Bool.and_eq_true, decide_eq_true_eq, decide_eq_true_eq] at hfacts
  exact ⟨s, hs, hfacts.1, hfacts.2, (queue_delivery (lit "queue") sharedTopic s hs (lit "t")).1⟩

end Delivery

end Musgos.Outbound
