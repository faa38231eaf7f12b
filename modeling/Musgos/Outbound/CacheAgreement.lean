import Musgos.Foundation.RedisKeyspace
import Musgos.Lingo.Text
import Musgos.Outbound.TokenStore

/-!
# The two caches side by side

`MemoryCache` keeps values and sets in two maps, `RedisCache` in the one space of
keys of a Redis server. The same operations are applied to both and the answers
compared, up to the order of members and nil against empty, while nothing expires. A
key that is used both ways is where the answers part, and so is a number that only
Go's parser accepts. A set that a value has replaced in Redis lives on in memory
without being seen, until the key is deleted.
-/
namespace Musgos.Outbound

open Foundation Lingo

section Numbers

/-- The number that decimal digits stand for. -/
def digitsValue (digits : List UInt8) : Option ℕ :=
  if digits ≠ [] ∧ digits.all (fun d => 48 ≤ d && d ≤ 57) then
    some (digits.foldl (fun n d => 10 * n + (d.toNat - 48)) 0)
  else none

/-- `strconv.ParseInt(text, 10, 64)`. -/
def parseInt (text : List UInt8) : Option ℤ :=
  match text with
  | 45 :: digits => (digitsValue digits).bind fun n => if n ≤ 2 ^ 63 then some (-n) else none
  | 43 :: digits => (digitsValue digits).bind fun n => if n < 2 ^ 63 then some n else none
  | digits => (digitsValue digits).bind fun n => if n < 2 ^ 63 then some n else none

/-- What Redis takes for a number: only the text it writes for one itself. -/
def redisInt (text : List UInt8) : Option ℤ :=
  (parseInt text).filter fun n => intText n = text

/-- What an increment makes of the text of a key, with a reader of numbers; `none` is an
error. -/
def incremented (read : List UInt8 → Option ℤ) : Option (List UInt8) → Option ℤ
  | none => some 1
  | some text => (read text).bind fun n => if n = Keyspace.maxInteger then none else some (n + 1)

end Numbers

/-- The operations of `ports.Cache`, without locks and without closing it. -/
inductive CacheOp where
  | get (key : GoString)
  | set (key : GoString) (value : List UInt8) (ttl : ℕ)
  | delete (key : GoString)
  | increment (key : GoString)
  | keyExists (key : GoString)
  | setAdd (key member : GoString)
  | setAddOnce (key member : GoString)
  | setRemove (key member : GoString)
  | setMembers (key : GoString)
  | setIsMember (key member : GoString)

/-- An answer as far as it is compared: which error it is does not matter, a missing value
reads as an empty one, and a slice of members as a set. -/
inductive CacheAnswer where
  | error
  | done
  | value (data : List UInt8)
  | number (n : ℤ)
  | truth (b : Bool)
  | members (s : Finset GoString)
  deriving DecidableEq

/-- The answer of an increment. -/
def CacheAnswer.ofNumber : Option ℤ → CacheAnswer
  | none => .error
  | some n => .number n

theorem CacheAnswer.ofNumber_injective : Function.Injective CacheAnswer.ofNumber := by
  intro a b h
  cases a <;> cases b <;> simp_all [CacheAnswer.ofNumber]

def CacheOp.key : CacheOp → GoString
  | .get key | .set key _ _ | .delete key | .increment key | .keyExists key | .setAdd key _
  | .setAddOnce key _ | .setRemove key _ | .setMembers key | .setIsMember key _ => key

section Memory

/-- `MemoryCache` with its sets. -/
structure SetCache where
  store : MemoryCache (List UInt8)
  sets : GoMap GoString (Finset GoString)

namespace SetCache

def new : SetCache := ⟨.new, ∅⟩

variable (c : SetCache) (now : ℕ)

/-- The end of `Increment`, for the number that is there and the deadline that goes with it. -/
def incrementFrom (key : GoString) (n : ℤ) (expiresAt : Option ℕ) : CacheAnswer × SetCache :=
  if n = Keyspace.maxInteger then (.error, c)
  else
    (.number (n + 1),
      { c with store.entries := c.store.entries.insert key ⟨intText (n + 1), expiresAt⟩ })

def increment (key : GoString) : CacheAnswer × SetCache :=
  if (c.sets.lookup key).isSome then (.error, c)
  else
    match c.store.entries.lookup key with
    | none => c.incrementFrom key 0 none
    | some e =>
      if e.expired now then c.incrementFrom key 0 none
      else
        match parseInt e.value with
        | none => (.error, c)
        | some n => c.incrementFrom key n e.expiresAt

def setAddOnce (key member : GoString) : Bool × SetCache :=
  let s := (c.sets.lookup key).getD ∅
  if member ∈ s then (false, c) else (true, { c with sets := c.sets.insert key (insert member s) })

def setRemove (key member : GoString) : SetCache :=
  match c.sets.lookup key with
  | none => c
  | some s =>
    if s.erase member = ∅ then { c with sets := c.sets.erase key }
    else { c with sets := c.sets.insert key (s.erase member) }

/-- One operation at a moment of the clock. -/
def apply : CacheOp → CacheAnswer × SetCache
  | .get key => (.value ((c.store.get now key).getD []), c)
  | .set key value ttl => (.done, { c with store := c.store.set now key value ttl })
  | .delete key => (.done, ⟨c.store.delete key, c.sets.erase key⟩)
  | .increment key => c.increment now key
  | .keyExists key => (.truth (c.store.get now key).isSome, c)
  | .setAdd key member => (.done, (c.setAddOnce key member).2)
  | .setAddOnce key member => (.truth (c.setAddOnce key member).1, (c.setAddOnce key member).2)
  | .setRemove key member => (.done, c.setRemove key member)
  | .setMembers key => (.members ((c.sets.lookup key).getD ∅), c)
  | .setIsMember key member => (.truth (member ∈ (c.sets.lookup key).getD ∅), c)

/-- No deadline has passed. -/
def Fresh : Prop := ∀ k e, c.store.entries.lookup k = some e → e.expired now = false

/-- What a key holds as a value. -/
def valueAt (k : GoString) : Option (List UInt8) := (c.store.entries.lookup k).map (·.value)

variable {c now}

theorem Fresh.get (h : c.Fresh now) (k : GoString) : c.store.get now k = c.valueAt k := by
  unfold MemoryCache.get valueAt
  cases hk : c.store.entries.lookup k with
  | none => rfl
  | some e => simp [h k e hk]

/-- Sweeping entries none of which has expired does nothing. -/
theorem lookup_sweep {store : MemoryCache (List UInt8)}
    (h : ∀ k e, store.entries.lookup k = some e → e.expired now = false) (k : GoString) :
    (store.sweep now).entries.lookup k = store.entries.lookup k := by
  simp only [MemoryCache.sweep, GoMap.lookup_alterAll]
  split_ifs
  · cases hk : store.entries.lookup k with
    | none => rfl
    | some e => simp [Option.filter, h k e hk]
  · rfl

theorem Fresh.lookup_set (h : c.Fresh now) (key k : GoString) (value : List UInt8) (ttl : ℕ) :
    (c.store.set now key value ttl).entries.lookup k =
      if k = key then some ⟨value, if 0 < ttl then some (now + ttl) else none⟩
      else c.store.entries.lookup k := by
  rw [← GoMap.lookup_insert_ite]
  unfold MemoryCache.set
  dsimp only
  split
  · apply lookup_sweep
    refine GoMap.forall_lookup_insert ?_ fun a e _ ha => h a e ha
    by_cases httl : 0 < ttl <;> simp [CacheEntry.expired, httl]
  · rfl

theorem Fresh.valueAt_set (h : c.Fresh now) (key k : GoString) (value : List UInt8) (ttl : ℕ) :
    valueAt { c with store := c.store.set now key value ttl } k =
      if k = key then some value else c.valueAt k := by
  rw [valueAt, h.lookup_set]
  split_ifs <;> rfl

/-- What `Increment` gives: an error where the key has a set. -/
def incrementOf (c : SetCache) (key : GoString) : Option ℤ :=
  if (c.sets.lookup key).isSome then none else incremented parseInt (c.valueAt key)

theorem Fresh.increment (h : c.Fresh now) (key : GoString) :
    (c.increment now key).1 = .ofNumber (c.incrementOf key) ∧
      (c.increment now key).2.valueAt key =
        (c.incrementOf key).elim (c.valueAt key) (fun n => some (intText n)) := by
  unfold SetCache.increment incrementOf
  by_cases hset : (c.sets.lookup key).isSome = true
  · simp [hset, CacheAnswer.ofNumber]
  · rw [if_neg hset, if_neg hset]
    cases hkey : c.store.entries.lookup key with
    | none =>
      simp [incrementFrom, valueAt, hkey, incremented, CacheAnswer.ofNumber, Keyspace.maxInteger]
    | some e =>
      have hlive := h key e hkey
      cases hparse : parseInt e.value with
      | none => simp [valueAt, hkey, hlive, hparse, incremented, CacheAnswer.ofNumber]
      | some n =>
        by_cases hmax : n = Keyspace.maxInteger <;>
          simp [incrementFrom, valueAt, hkey, hlive, hparse, incremented, CacheAnswer.ofNumber,
            hmax]

theorem increment_sets (key : GoString) : (c.increment now key).2.sets = c.sets := by
  unfold increment incrementFrom
  repeat' split
  all_goals rfl

theorem increment_valueAt_of_ne {key k : GoString} (hk : ¬ k = key) :
    (c.increment now key).2.valueAt k = c.valueAt k := by
  unfold increment incrementFrom valueAt
  repeat' split
  all_goals simp [hk]

theorem setAddOnce_fst (key member : GoString) :
    (c.setAddOnce key member).1 = decide (member ∉ (c.sets.lookup key).getD ∅) := by
  unfold setAddOnce
  by_cases hmember : member ∈ (c.sets.lookup key).getD ∅ <;> simp [hmember]

theorem setAddOnce_store (key member : GoString) :
    (c.setAddOnce key member).2.store = c.store := by
  unfold setAddOnce
  dsimp only
  split_ifs <;> rfl

theorem setAddOnce_sets (key member k : GoString) :
    (c.setAddOnce key member).2.sets.lookup k =
      if k = key then some (insert member ((c.sets.lookup key).getD ∅)) else c.sets.lookup k := by
  unfold setAddOnce
  cases hkey : c.sets.lookup key with
  | none => simp
  | some s =>
    by_cases hmember : member ∈ s
    · by_cases hk : k = key
      · subst hk
        simp [hmember, hkey]
      · simp [hmember, hk]
    · simp [hmember]

theorem setRemove_store (key member : GoString) : (c.setRemove key member).store = c.store := by
  unfold setRemove
  repeat' split
  all_goals rfl

theorem setRemove_sets (key member k : GoString) :
    (c.setRemove key member).sets.lookup k =
      if k = key then (c.sets.lookup key).bind fun s =>
        if s.erase member = ∅ then none else some (s.erase member)
      else c.sets.lookup k := by
  unfold setRemove
  cases hkey : c.sets.lookup key with
  | none =>
    by_cases hk : k = key
    · subst hk
      simp [hkey]
    · simp [hk]
  | some s => by_cases hlast : s.erase member = ∅ <;> simp [hlast]

theorem Fresh.apply_of_ne (h : c.Fresh now) {op : CacheOp} {k : GoString} (hk : ¬ k = op.key) :
    (c.apply now op).2.valueAt k = c.valueAt k ∧
      (c.apply now op).2.sets.lookup k = c.sets.lookup k := by
  cases op <;> simp only [CacheOp.key] at hk
  case set key value ttl => exact ⟨(h.valueAt_set key k value ttl).trans (if_neg hk), rfl⟩
  case delete key => simp [apply, valueAt, MemoryCache.delete, hk]
  case increment key => exact ⟨increment_valueAt_of_ne hk, by rw [apply, increment_sets]⟩
  case setAdd key member | setAddOnce key member =>
    simp [apply, valueAt, setAddOnce_store, setAddOnce_sets, hk]
  case setRemove key member => simp [apply, valueAt, setRemove_store, setRemove_sets, hk]
  all_goals exact ⟨rfl, rfl⟩

/-- No entry has a deadline. -/
def Timeless (c : SetCache) : Prop :=
  ∀ k e, c.store.entries.lookup k = some e → e.expiresAt = none

theorem Timeless.fresh (h : c.Timeless) (now : ℕ) : c.Fresh now := fun k e hk => by
  simp [CacheEntry.expired, h k e hk]

theorem Timeless.incrementFrom (h : c.Timeless) (key : GoString) (n : ℤ) :
    (c.incrementFrom key n none).2.Timeless := by
  unfold SetCache.incrementFrom
  split_ifs
  · exact h
  · exact GoMap.forall_lookup_insert rfl fun a e _ ha => h a e ha

theorem Timeless.increment (h : c.Timeless) (key : GoString) :
    (c.increment now key).2.Timeless := by
  unfold SetCache.increment
  split_ifs
  · exact h
  · cases hkey : c.store.entries.lookup key with
    | none => exact h.incrementFrom key 0
    | some e =>
      cases hparse : parseInt e.value with
      | none => simpa [h.fresh now key e hkey, hparse] using h
      | some n => simpa [h.fresh now key e hkey, hparse, h key e hkey] using h.incrementFrom key n

theorem Timeless.apply (h : c.Timeless) {op : CacheOp}
    (hop : ∀ key value ttl, op = .set key value ttl → ttl = 0) :
    (c.apply now op).2.Timeless := by
  cases op
  case set key value ttl =>
    obtain rfl := hop key value ttl rfl
    intro k e hk
    rw [SetCache.apply, (h.fresh now).lookup_set, if_neg (Nat.lt_irrefl 0)] at hk
    split_ifs at hk
    · obtain rfl := Option.some.inj hk
      rfl
    · exact h k e hk
  case delete key => exact GoMap.forall_lookup_erase fun a e _ ha => h a e ha
  case increment key => exact h.increment key
  case setAdd key member | setAddOnce key member =>
    simpa only [SetCache.apply, Timeless, setAddOnce_store] using h
  case setRemove key member => simpa only [SetCache.apply, Timeless, setRemove_store] using h
  all_goals exact h

end SetCache

end Memory

section Redis

/-- `RedisCache` with the server's keys. -/
structure RedisCache where
  keyPrefix : GoString

namespace RedisCache

variable (r : RedisCache) (db : Keyspace GoString GoString)

def key (k : GoString) : GoString := r.keyPrefix ++ lit ":" ++ k

/-- An answer or an error of the server. -/
def answer {α : Type} (f : α → CacheAnswer) : Except KeyspaceError α → CacheAnswer
  | .error _ => .error
  | .ok a => f a

def apply : CacheOp → CacheAnswer × Keyspace GoString GoString
  | .get k => (answer (fun data => .value (data.getD [])) (db.get (r.key k)), db)
  | .set k value _ => (.done, db.set (r.key k) value)
  | .delete k => (.done, db.del (r.key k))
  | .increment k =>
    let reply := db.incr (r.key k) redisInt intText
    (answer .number reply.1, reply.2)
  | .keyExists k => (.truth (db.keyExists (r.key k)), db)
  | .setAdd k member =>
    let reply := db.sadd (r.key k) member
    (answer (fun _ => .done) reply.1, reply.2)
  | .setAddOnce k member =>
    let reply := db.sadd (r.key k) member
    (answer .truth reply.1, reply.2)
  | .setRemove k member =>
    let reply := db.srem (r.key k) member
    (answer (fun _ => .done) reply.1, reply.2)
  | .setMembers k => (answer .members (db.smembers (r.key k)), db)
  | .setIsMember k member => (answer .truth (db.sismember (r.key k) member), db)

theorem incr_eq {j : GoString} {text : Option (List UInt8)}
    (h : db.lookup j = text.map StringOrSet.string) :
    answer .number (db.incr j redisInt intText).1 = .ofNumber (incremented redisInt text) ∧
      (db.incr j redisInt intText).2.lookup j =
        (incremented redisInt text).elim (text.map .string)
          (fun n => some (.string (intText n))) := by
  unfold Keyspace.incr
  rw [h]
  cases text with
  | none => simp [incremented, answer, CacheAnswer.ofNumber]
  | some text =>
    cases hread : redisInt text with
    | none => simp [hread, incremented, answer, CacheAnswer.ofNumber, h]
    | some n =>
      by_cases hmax : n = Keyspace.maxInteger <;>
        simp [hread, incremented, answer, CacheAnswer.ofNumber, hmax, h]

theorem key_injective : Function.Injective r.key := fun _ _ h => List.append_cancel_left h

theorem apply_of_ne {op : CacheOp} {j : GoString} (hj : ¬ j = r.key op.key) :
    (r.apply db op).2.lookup j = db.lookup j := by
  cases op <;> simp only [CacheOp.key] at hj
  case set k value ttl => simp [apply, Keyspace.set, hj]
  case delete k => simp [apply, Keyspace.del, hj]
  case increment k =>
    simp only [apply, Keyspace.incr]
    repeat' split
    all_goals simp [hj]
  case setAdd k member | setAddOnce k member =>
    simp only [apply, Keyspace.sadd]
    split <;> simp [hj]
  case setRemove k member =>
    simp only [apply, Keyspace.srem]
    repeat' split
    all_goals simp [hj]
  all_goals rfl

end RedisCache

end Redis

section Agreement

/-- How a key stands in the two caches: what memory has as a value and as a set, against
what Redis has. A value in Redis may hide a set in memory. -/
def KeyAgrees (value : Option (List UInt8)) (members : Option (Finset GoString)) :
    Option (StringOrSet GoString) → Prop
  | none => value = none ∧ members = none
  | some (.string text) => value = some text
  | some (.set s) => value = none ∧ members = some s

section Reads

variable {value : Option (List UInt8)} {members : Option (Finset GoString)}
  {db : Keyspace GoString GoString} {j : GoString}

/-- Redis reads the value that memory has, unless it has a set. -/
theorem KeyAgrees.get (h : KeyAgrees value members (db.lookup j)) :
    ((∃ s, db.lookup j = some (.set s)) ∧ value = none ∧ db.get j = .error .wrongType) ∨
      ((∀ s, db.lookup j ≠ some (.set s)) ∧ db.lookup j = value.map .string ∧
        db.get j = .ok value) := by
  unfold Keyspace.get
  generalize db.lookup j = held at h ⊢
  rcases held with _ | text | s
  · obtain ⟨rfl, -⟩ := h
    exact .inr ⟨by simp, rfl, rfl⟩
  · obtain rfl : value = some text := h
    exact .inr ⟨by simp, rfl, rfl⟩
  · exact .inl ⟨⟨s, rfl⟩, h.1, rfl⟩

/-- Redis reads the set that memory has, unless it has a value. -/
theorem KeyAgrees.smembers (h : KeyAgrees value members (db.lookup j)) :
    ((∃ text, db.lookup j = some (.string text)) ∧ db.smembers j = .error .wrongType) ∨
      ((∀ text, db.lookup j ≠ some (.string text)) ∧ value = none ∧
        db.smembers j = .ok (members.getD ∅)) := by
  unfold Keyspace.smembers
  generalize db.lookup j = held at h ⊢
  rcases held with _ | text | s
  · obtain ⟨rfl, rfl⟩ := h
    exact .inr ⟨by simp, rfl, rfl⟩
  · exact .inl ⟨⟨text, rfl⟩, rfl⟩
  · obtain ⟨rfl, rfl⟩ := h
    exact .inr ⟨by simp, rfl, rfl⟩

end Reads

/-- `Increment` of a text ends alike on both sides. With a hidden set memory fails, so
Redis has to; otherwise a number that Go reads and can increment has to be in the form
that Redis reads. -/
def IncrementsAlike (hidden : Option (Finset GoString)) (text : List UInt8) : Prop :=
  if hidden.isSome then ∀ n, redisInt text = some n → n = Keyspace.maxInteger
  else ∀ n, parseInt text = some n → n ≠ Keyspace.maxInteger → intText n = text

theorem incrementsAlike_iff (hidden : Option (Finset GoString)) (text : List UInt8) :
    (if hidden.isSome then none else incremented parseInt (some text)) =
      incremented redisInt (some text) ↔ IncrementsAlike hidden text := by
  unfold IncrementsAlike
  split_ifs
  · cases hread : redisInt text with
    | none => simp [incremented, hread]
    | some n => by_cases hmax : n = Keyspace.maxInteger <;> simp [incremented, hread, hmax]
  · cases hparse : parseInt text with
    | none => simp [incremented, redisInt, hparse]
    | some n =>
      by_cases hform : intText n = text
      · simp [incremented, redisInt, hparse, hform, Option.filter]
      · rcases eq_or_ne n Keyspace.maxInteger with rfl | hmax
        · simp [incremented, redisInt, hparse, hform, Option.filter]
        · simp [incremented, redisInt, hparse, hform, Option.filter, hmax]

/-- The operation suits what its key holds: no read of a value where Redis has a set, no set
operation where it has a value, and no increment that ends differently. -/
def CacheOp.Suits (hidden : Option (Finset GoString)) (held : Option (StringOrSet GoString)) :
    CacheOp → Prop
  | .get _ | .keyExists _ => ∀ s, held ≠ some (.set s)
  | .setAdd _ _ | .setAddOnce _ _ | .setRemove _ _ | .setMembers _ | .setIsMember _ _ =>
    ∀ text, held ≠ some (.string text)
  | .increment _ => ∀ text, held = some (.string text) → IncrementsAlike hidden text
  | .set _ _ _ | .delete _ => True

/-- The two caches, each with the contents of its own. -/
structure Caches where
  memory : SetCache
  redis : Keyspace GoString GoString

/-- An operation at a moment of the clock. -/
structure CacheCall where
  now : ℕ
  op : CacheOp

namespace Caches

variable (r : RedisCache)

def new : Caches := ⟨.new, ∅⟩

def step (s : Caches) (a : CacheCall) : Option Caches :=
  some ⟨(s.memory.apply a.now a.op).2, (r.apply s.redis a.op).2⟩

def SameAnswer (s : Caches) (a : CacheCall) : Prop :=
  (s.memory.apply a.now a.op).1 = (r.apply s.redis a.op).1

/-- Nothing in the memory cache has expired when the operation is made. -/
def NothingExpired (s : Caches) (a : CacheCall) : Prop := s.memory.Fresh a.now

def Suits (s : Caches) (a : CacheCall) : Prop :=
  a.op.Suits (s.memory.sets.lookup a.op.key) (s.redis.lookup (r.key a.op.key))

def Agree (s : Caches) : Prop :=
  ∀ k, KeyAgrees (s.memory.valueAt k) (s.memory.sets.lookup k) (s.redis.lookup (r.key k))

variable {r} {s : Caches} {a : CacheCall}

theorem Agree.incrementOf_eq_iff (h : s.Agree r) {key : GoString}
    (hlookup : s.redis.lookup (r.key key) = (s.memory.valueAt key).map .string) :
    s.memory.incrementOf key = incremented redisInt (s.memory.valueAt key) ↔
      ∀ text, s.redis.lookup (r.key key) = some (.string text) →
        IncrementsAlike (s.memory.sets.lookup key) text := by
  cases htext : s.memory.valueAt key with
  | some text => simp [SetCache.incrementOf, htext, hlookup, incrementsAlike_iff]
  | none =>
    have hkey := h key
    rw [hlookup, htext] at hkey
    refine iff_of_true ?_ (by simp [hlookup, htext])
    simp [SetCache.incrementOf, htext, hkey.2, incremented]

theorem sameAnswer_iff (h : s.Agree r) (hfresh : s.NothingExpired a) :
    s.SameAnswer r a ↔ s.Suits r a := by
  obtain ⟨now, op⟩ := a
  have hget := hfresh.get op.key
  have hvalue := (h op.key).get
  have hset := (h op.key).smembers
  unfold SameAnswer Suits
  cases op <;> simp only [CacheOp.key, CacheOp.Suits, SetCache.apply, RedisCache.apply] at *
  case get key =>
    rw [hget]
    obtain ⟨⟨m, hm⟩, -, hread⟩ | ⟨hno, -, hread⟩ := hvalue
    · exact iff_of_false (by simp [hread, RedisCache.answer]) fun hno => hno m hm
    · exact iff_of_true (by rw [hread]; rfl) hno
  case keyExists key =>
    rw [hget, Keyspace.keyExists]
    obtain ⟨⟨m, hm⟩, hnone, -⟩ | ⟨hno, hlookup, -⟩ := hvalue
    · exact iff_of_false (by simp [hm, hnone]) fun hno => hno m hm
    · exact iff_of_true (by simp [hlookup]) hno
  case increment key =>
    rw [(hfresh.increment key).1]
    obtain ⟨⟨m, hm⟩, -, -⟩ | ⟨-, hlookup, -⟩ := hvalue
    · have hkey := h key
      rw [hm] at hkey
      refine iff_of_true ?_ (by simp [hm])
      simp [SetCache.incrementOf, hkey.2, CacheAnswer.ofNumber, Keyspace.incr, hm,
        RedisCache.answer]
    · rw [(RedisCache.incr_eq _ hlookup).1, CacheAnswer.ofNumber_injective.eq_iff]
      exact h.incrementOf_eq_iff hlookup
  all_goals
    obtain ⟨⟨text, htext⟩, hread⟩ | ⟨hno, -, hread⟩ := hset
    · refine iff_of_false ?_ fun hno => hno text htext
      simp [Keyspace.sadd, Keyspace.srem, Keyspace.sismember, hread, RedisCache.answer, Except.map]
    · refine iff_of_true ?_ hno
      simp [Keyspace.sadd, Keyspace.srem, Keyspace.sismember, hread, RedisCache.answer, Except.map,
        SetCache.setAddOnce_fst]

/-- An operation that suits its key leaves the caches in agreement. -/
theorem Agree.step (h : s.Agree r) (hfresh : s.NothingExpired a) (hsuits : s.Suits r a)
    {s' : Caches} (hstep : s.step r a = some s') : s'.Agree r := by
  obtain rfl := Option.some.inj hstep
  obtain ⟨now, op⟩ := a
  intro k
  by_cases hk : k = op.key
  · subst hk
    have hkey := h op.key
    have hvalue := hkey.get
    have hset := hkey.smembers
    unfold Suits at hsuits
    cases op <;> simp only [CacheOp.key, CacheOp.Suits, SetCache.apply, RedisCache.apply] at *
    case get | keyExists | setMembers | setIsMember => exact hkey
    case set key value ttl =>
      rw [hfresh.valueAt_set, Keyspace.set, GoMap.lookup_insert_ite, if_pos rfl, if_pos rfl]
      exact rfl
    case delete key =>
      simp [Keyspace.del, SetCache.valueAt, MemoryCache.delete, KeyAgrees]
    case increment key =>
      rw [SetCache.increment_sets, (hfresh.increment key).2]
      obtain ⟨⟨m, hm⟩, hnone, -⟩ | ⟨-, hlookup, -⟩ := hvalue
      · rw [hm] at hkey
        simp [Keyspace.incr, hm, SetCache.incrementOf, hkey.2, hnone, KeyAgrees]
      · rw [(RedisCache.incr_eq _ hlookup).2, (h.incrementOf_eq_iff hlookup).mpr hsuits]
        cases incremented redisInt (s.memory.valueAt key) with
        | none => exact hlookup ▸ hkey
        | some n => exact rfl
    case setAdd key member | setAddOnce key member =>
      obtain ⟨⟨text, htext⟩, -⟩ | ⟨-, hnone, hread⟩ := hset
      · exact absurd htext (hsuits text)
      · simp only [SetCache.valueAt, SetCache.setAddOnce_store, SetCache.setAddOnce_sets,
          Keyspace.sadd, hread, GoMap.lookup_insert_ite, if_true]
        exact ⟨hnone, rfl⟩
    case setRemove key member =>
      obtain ⟨⟨text, htext⟩, -⟩ | ⟨-, hnone, hread⟩ := hset
      · exact absurd htext (hsuits text)
      · simp only [SetCache.valueAt, SetCache.setRemove_store, SetCache.setRemove_sets,
          Keyspace.srem, hread, if_true]
        cases hmembers : s.memory.sets.lookup key with
        | none => simpa [KeyAgrees, SetCache.valueAt] using hnone
        | some m =>
          by_cases hlast : m.erase member = ∅ <;>
            simpa [hlast, KeyAgrees, SetCache.valueAt] using hnone
  · have hj : ¬ r.key k = r.key op.key := fun heq => hk (r.key_injective heq)
    obtain ⟨hvalue, hsets⟩ := hfresh.apply_of_ne hk
    simp only [hvalue, hsets, r.apply_of_ne s.redis hj]
    exact h k

theorem new_agree (r : RedisCache) : new.Agree r := fun _ => ⟨rfl, rfl⟩

/-- While nothing expires the two caches give the same answers to a sequence of operations
exactly when every operation suits what its key holds. -/
theorem sameAnswers_iff_suits (r : RedisCache) {calls : List CacheCall}
    (hexpired : Along (step r) NothingExpired new calls) :
    Along (step r) (SameAnswer r) new calls ↔ Along (step r) (Suits r) new calls := by
  refine along_iff_along (I := Agree r) ?_ ?_ (new_agree r) hexpired
  · exact fun s a hI hfresh => sameAnswer_iff hI hfresh
  · exact fun s a s' hI hfresh hsuits hstep => hI.step hfresh hsuits hstep

/-- Without times to live nothing expires. -/
theorem nothingExpired_of_timeless (r : RedisCache) {calls : List CacheCall}
    (h : ∀ a ∈ calls, ∀ key value ttl, a.op = .set key value ttl → ttl = 0) {s : Caches}
    (hs : s.memory.Timeless) : Along (step r) NothingExpired s calls := by
  induction calls generalizing s with
  | nil => trivial
  | cons a calls ih =>
    rw [List.forall_mem_cons] at h
    exact ⟨hs.fresh a.now, ih h.2 (hs.apply h.1)⟩

/-- A counter and a set under keys of their own. -/
theorem sameAnswers_iff_suits_apart :
    let calls : List CacheCall := [⟨0, .set (lit "hits") (lit "7") 0⟩, ⟨1, .increment (lit "hits")⟩,
      ⟨2, .setAdd (lit "names") (lit "ann")⟩, ⟨3, .setMembers (lit "names")⟩]
    Along (step ⟨lit "fsos"⟩) (SameAnswer ⟨lit "fsos"⟩) new calls ↔
      Along (step ⟨lit "fsos"⟩) (Suits ⟨lit "fsos"⟩) new calls :=
  sameAnswers_iff_suits ⟨lit "fsos"⟩ (nothingExpired_of_timeless _ (by simp) (by simp [new,
    SetCache.new, SetCache.Timeless, MemoryCache.new]))

/-- A key with a set exists in Redis and not in memory; a number with a plus sign can be
incremented in memory and not in Redis. -/
theorem caches_differ :
    let r : RedisCache := ⟨lit "fsos"⟩
    let calls : List CacheCall :=
      [⟨0, .setAdd (lit "names") (lit "ann")⟩, ⟨1, .keyExists (lit "names")⟩]
    let numbers : List CacheCall :=
      [⟨0, .set (lit "hits") (lit "+7") 0⟩, ⟨1, .increment (lit "hits")⟩]
    (∃ s, runFrom (step r) new (calls.take 1) = some s ∧
      (s.memory.apply 1 (.keyExists (lit "names"))).1 = .truth false ∧
      (r.apply s.redis (.keyExists (lit "names"))).1 = .truth true) ∧
    (∃ s, runFrom (step r) new (numbers.take 1) = some s ∧
      (s.memory.apply 1 (.increment (lit "hits"))).1 = .number 8 ∧
      (r.apply s.redis (.increment (lit "hits"))).1 = .error) ∧
    Along (step r) NothingExpired new calls ∧ ¬ Along (step r) (SameAnswer r) new calls := by
  intro r calls numbers
  refine ⟨⟨_, rfl, by decide +kernel, by decide +kernel⟩,
    ⟨_, rfl, by decide +kernel, by decide +kernel⟩,
    nothingExpired_of_timeless r (by simp [calls]) (by simp [new, SetCache.new, SetCache.Timeless,
      MemoryCache.new]), ?_⟩
  rintro ⟨-, hsame, -⟩
  exact absurd hsame (by unfold SameAnswer; decide +kernel)

end Caches

end Agreement

end Musgos.Outbound
