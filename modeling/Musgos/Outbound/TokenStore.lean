import Musgos.Foundation.GoMap
import Musgos.Foundation.Utf8
import Musgos.Foundation.Transition
import Musgos.Domain.Ports

/-!
# Single-use login tokens

`CacheTokenStore` over any cache whose operations are atomic, as those of `MemoryCache` and
`RedisCache` are. `Validate` reads the token's entry and deletes it in a second cache
operation, the error of which it drops; each operation is atomic, but the two are not. The
calls of any number of clients are therefore modelled as a transition system whose steps are
the cache operations, each of which may also fail. What `json.Marshal` writes for a token is
kept as the record itself.
-/
namespace Musgos.Outbound

open Foundation Domain

section Cache

/-- A value with its deadline. -/
structure CacheEntry (V : Type) where
  value : V
  /-- Absent for the zero time, which never expires. -/
  expiresAt : Option ℕ

/-- `time.Now().After(e.expiresAt)`. -/
def CacheEntry.expired {V : Type} (e : CacheEntry V) (now : ℕ) : Bool :=
  e.expiresAt.any (· < now)

/-- The key-value part of `MemoryCache`; its sets and locks are not used here. -/
structure MemoryCache (V : Type) where
  entries : GoMap GoString (CacheEntry V)
  writeCount : ℕ
  sweepInterval : ℕ

namespace MemoryCache

variable {V : Type}

def new : MemoryCache V := ⟨∅, 0, 1000⟩

def get (c : MemoryCache V) (now : ℕ) (key : GoString) : Option V :=
  match c.entries.lookup key with
  | none => none
  | some e => if e.expired now then none else some e.value

/-- Dropping every entry that has expired. -/
def sweep (c : MemoryCache V) (now : ℕ) : MemoryCache V :=
  let live := Option.filter fun e : CacheEntry V => !e.expired now
  { c with entries := GoMap.alterAll live c.entries c.entries.keys }

def set (c : MemoryCache V) (now : ℕ) (key : GoString) (value : V) (ttl : ℕ) : MemoryCache V :=
  let entry : CacheEntry V := ⟨value, if 0 < ttl then some (now + ttl) else none⟩
  let c' : MemoryCache V :=
    { c with entries := c.entries.insert key entry, writeCount := c.writeCount + 1 }
  if c'.sweepInterval ≤ c'.writeCount then sweep { c' with writeCount := 0 } now else c'

def delete (c : MemoryCache V) (key : GoString) : MemoryCache V :=
  { c with entries := c.entries.erase key }

theorem get_isSome {c : MemoryCache V} {now : ℕ} {key : GoString} {v : V}
    (h : c.get now key = some v) : (c.entries.lookup key).isSome := by
  unfold get at h
  cases hkey : c.entries.lookup key with
  | none => simp [hkey] at h
  | some e => rfl

theorem sweep_isSome {c : MemoryCache V} {now : ℕ} {k : GoString}
    (h : ((c.sweep now).entries.lookup k).isSome) : (c.entries.lookup k).isSome := by
  simp only [sweep, GoMap.lookup_alterAll] at h
  split_ifs at h
  · exact Option.isSome_of_isSome_filter _ _ h
  · exact h

/-- Setting a key adds no other key, whether or not the cache is swept. -/
theorem set_isSome {c : MemoryCache V} {now ttl : ℕ} {key k : GoString} {value : V}
    (h : ((c.set now key value ttl).entries.lookup k).isSome) :
    k = key ∨ (c.entries.lookup k).isSome := by
  by_cases hk : k = key
  · exact .inl hk
  · right
    unfold set at h
    by_cases hsweep : c.sweepInterval ≤ c.writeCount + 1
    · rw [if_pos hsweep] at h
      simpa [hk] using sweep_isSome h
    · rw [if_neg hsweep] at h
      simpa [hk] using h

end MemoryCache

/-- The strings of a Redis server, with the deadline of each. -/
abbrev RedisStrings (V : Type) := GoMap GoString (CacheEntry V)

namespace RedisStrings

variable {V : Type} (keyPrefix : GoString)

/-- `RedisCache.key`. -/
def key (k : GoString) : GoString := keyPrefix ++ lit ":" ++ k

theorem key_injective : Function.Injective (key keyPrefix) := fun _ _ h =>
  List.append_cancel_left h

/-- A key is gone at its deadline. -/
def get (db : RedisStrings V) (now : ℕ) (k : GoString) : Option V :=
  ((db.lookup (key keyPrefix k)).filter fun e => !e.expiresAt.any (· ≤ now)).map (·.value)

/-- The server takes whole milliseconds; the client rounds down, but not to none. -/
def lifetime (ttl : ℕ) : ℕ := max 1 (ttl / 10 ^ 6) * 10 ^ 6

def set (db : RedisStrings V) (now : ℕ) (k : GoString) (value : V) (ttl : ℕ) : RedisStrings V :=
  db.insert (key keyPrefix k) ⟨value, if 0 < ttl then some (now + lifetime ttl) else none⟩

def delete (db : RedisStrings V) (k : GoString) : RedisStrings V := db.erase (key keyPrefix k)

end RedisStrings

/-- A cache whose operations are atomic. An entry may be there without being found by `get`,
after its deadline. -/
structure AtomicCache (χ V : Type) where
  new : χ
  get : χ → ℕ → GoString → Option V
  set : χ → ℕ → GoString → V → ℕ → χ
  delete : χ → GoString → χ
  has : χ → GoString → Prop
  not_has_new : ∀ key, ¬ has new key
  has_of_get : ∀ {c now key v}, get c now key = some v → has c key
  has_of_set : ∀ {c now key v ttl k}, has (set c now key v ttl) k → k = key ∨ has c k
  has_of_delete : ∀ {c key k}, has (delete c key) k → k ≠ key ∧ has c k

variable {V : Type}

/-- `MemoryCache`, each operation of which holds the mutex. -/
def memoryCache : AtomicCache (MemoryCache V) V where
  new := .new
  get c now key := c.get now key
  set c now key value ttl := c.set now key value ttl
  delete c key := c.delete key
  has c key := (c.entries.lookup key).isSome
  not_has_new key := by simp [MemoryCache.new]
  has_of_get h := MemoryCache.get_isSome h
  has_of_set h := MemoryCache.set_isSome h
  has_of_delete {c key k} h := by
    by_cases hk : k = key
    · simp [MemoryCache.delete, hk] at h
    · exact ⟨hk, by simpa [MemoryCache.delete, hk] using h⟩

/-- `RedisCache`, each operation of which is one command. -/
def redisCache (keyPrefix : GoString) : AtomicCache (RedisStrings V) V where
  new := ∅
  get db now key := db.get keyPrefix now key
  set db now key value ttl := db.set keyPrefix now key value ttl
  delete db key := db.delete keyPrefix key
  has db key := (db.lookup (RedisStrings.key keyPrefix key)).isSome
  not_has_new key := by simp
  has_of_get h := by
    obtain ⟨e, he, -⟩ := Option.map_eq_some_iff.mp h
    rw [(Option.filter_eq_some_iff.mp he).1]
    rfl
  has_of_set {db now key v ttl k} h := by
    by_cases hk : k = key
    · exact .inl hk
    · have hne := (RedisStrings.key_injective keyPrefix).ne hk
      simp only [RedisStrings.set, GoMap.lookup_insert_ite, if_neg hne] at h
      exact .inr h
  has_of_delete {db key k} h := by
    simp only [RedisStrings.delete, GoMap.lookup_erase_ite] at h
    split_ifs at h with hk
    · cases h
    · exact ⟨fun hkey => hk (congrArg _ hkey), h⟩

end Cache

/-- What a cache entry holds: the JSON of a token record, or bytes that are none. -/
inductive TokenValue where
  | record (r : TokenPayload)
  | corrupt (data : List UInt8)
  deriving DecidableEq

def tokenKeyPrefix : GoString := lit "authtoken:"

/-- `DefaultTokenTTL`, five minutes in nanoseconds. -/
def defaultTokenTTL : ℕ := 5 * 60 * 10 ^ 9

/-- `NewCacheTokenStore` replaces a lifetime that is not positive. -/
def tokenTTL (ttl : ℤ) : ℕ := if ttl ≤ 0 then defaultTokenTTL else ttl.toNat

/-- `json.Marshal` of the record. -/
def marshalToken (p : TokenPayload) : TokenValue :=
  .record { p with characterName := repairUtf8 0 p.characterName }

/-- `json.Unmarshal` of an entry. -/
def unmarshalToken : TokenValue → Option TokenPayload
  | .record r => some r
  | .corrupt _ => none

section Store

variable {χ : Type} (C : AtomicCache χ TokenValue)

def issue (c : χ) (now : ℕ) (ttl : ℤ) (token : GoString) (payload : TokenPayload) : χ :=
  C.set c now (tokenKeyPrefix ++ token) (marshalToken payload) (tokenTTL ttl)

/-- `Validate` run without interruption and without a failure: `none` is `ErrTokenInvalid`. -/
def validate (c : χ) (now : ℕ) (token : GoString) : χ × Option TokenPayload :=
  if token = [] then (c, none)
  else
    match C.get c now (tokenKeyPrefix ++ token) with
    | none => (c, none)
    | some data => (C.delete c (tokenKeyPrefix ++ token), unmarshalToken data)

end Store

section Calls

/-- Where one call of `Validate` stands. -/
inductive Phase where
  | called
  /-- The `Get` found the entry; the `Delete` is still to come. -/
  | found (data : TokenValue)
  /-- The call has returned; `none` is `ErrTokenInvalid`. -/
  | returned (result : Option TokenPayload)
  deriving DecidableEq

/-- The call stands between its `Get` and its `Delete`. -/
def Phase.isFound : Phase → Bool
  | .found _ => true
  | _ => false

/-- A call of `Validate`. -/
structure Call where
  token : GoString
  phase : Phase
  deriving DecidableEq

/-- The cache, the clock, the tokens issued so far and all calls ever made. -/
structure TokenState (χ : Type) where
  cache : χ
  now : ℕ
  issued : Finset GoString
  calls : GoMap ℕ Call

/-- The atomic steps: the cache operations of `Issue` and `Validate`, a client entering
`Validate`, and the passing of time. An operation that fails may have done its work, as when the
answer of the server is lost. -/
inductive TokenAction where
  | issue (token : GoString) (payload : TokenPayload)
  | issueFails (token : GoString) (payload : TokenPayload) (stored : Bool)
  | call (i : ℕ) (token : GoString)
  | get (i : ℕ)
  | getFails (i : ℕ)
  | delete (i : ℕ)
  | deleteFails (i : ℕ) (removed : Bool)
  | tick

variable {χ : Type} (C : AtomicCache χ TokenValue) (ttl : ℤ)

namespace TokenState

def init : TokenState χ := ⟨C.new, 0, ∅, ∅⟩

/-- An issued token is random, so it was never issued before. -/
def issueToken (s : TokenState χ) (token : GoString) (payload : TokenPayload) (stored : Bool) :
    Option (TokenState χ) :=
  if token ∈ s.issued then none
  else some
    { s with
      cache := if stored then Outbound.issue C s.cache s.now ttl token payload else s.cache
      issued := insert token s.issued }

/-- The answer of the `Get` of a call; an error is the end of it, as a missing entry is. -/
def answerGet (s : TokenState χ) (i : ℕ) (answer : GoString → Option TokenValue) :
    Option (TokenState χ) :=
  match s.calls.lookup i with
  | some ⟨token, .called⟩ =>
    let phase := match answer token with
      | none => .returned none
      | some data => .found data
    some { s with calls := s.calls.insert i ⟨token, phase⟩ }
  | _ => none

/-- After its `Delete` a call returns what it has found, whether or not the entry was removed. -/
def answerDelete (s : TokenState χ) (i : ℕ) (removed : Bool) : Option (TokenState χ) :=
  match s.calls.lookup i with
  | some ⟨token, .found data⟩ => some
    { s with
      cache := if removed then C.delete s.cache (tokenKeyPrefix ++ token) else s.cache
      calls := s.calls.insert i ⟨token, .returned (unmarshalToken data)⟩ }
  | _ => none

end TokenState

def tokenStep (s : TokenState χ) : TokenAction → Option (TokenState χ)
  | .issue token payload => s.issueToken C ttl token payload true
  | .issueFails token payload stored => s.issueToken C ttl token payload stored
  | .call i token =>
    match s.calls.lookup i with
    | some _ => none
    | none =>
      let phase := if token = [] then .returned none else .called
      some { s with calls := s.calls.insert i ⟨token, phase⟩ }
  | .get i => s.answerGet i fun token => C.get s.cache s.now (tokenKeyPrefix ++ token)
  | .getFails i => s.answerGet i fun _ => none
  | .delete i => s.answerDelete C i true
  | .deleteFails i removed => s.answerDelete C i removed
  | .tick => some { s with now := s.now + 1 }

/-- A call that nothing interrupts and in which nothing fails computes `validate`. -/
theorem runFrom_uninterrupted (s : TokenState χ) {i : ℕ} (hi : s.calls.lookup i = none)
    (token : GoString) :
    ∃ as s', runFrom (tokenStep C ttl) s as = some s' ∧
      s'.cache = (validate C s.cache s.now token).1 ∧
      s'.calls.lookup i = some ⟨token, .returned (validate C s.cache s.now token).2⟩ := by
  by_cases hempty : token = []
  · refine ⟨[.call i token], _, by simp [runFrom, tokenStep, hi]; rfl, ?_⟩
    simp [validate, hempty]
  · cases hget : C.get s.cache s.now (tokenKeyPrefix ++ token) with
    | none =>
      refine ⟨[.call i token, .get i], _,
        by simp [runFrom, tokenStep, TokenState.answerGet, hi, hempty]; rfl, ?_⟩
      simp [validate, hempty, hget]
    | some data =>
      refine ⟨[.call i token, .get i, .delete i], _,
        by
          simp [runFrom, tokenStep, TokenState.answerGet, TokenState.answerDelete, hi, hempty, hget]
          rfl, ?_⟩
      simp [validate, hempty, hget]

/-- The call has seen the token's entry, or has returned its payload. -/
def Call.Holds (c : Call) : Prop :=
  match c.phase with
  | .called => False
  | .found _ => True
  | .returned r => r.isSome

/-- No other call on the token stands between its `Get` and its `Delete` when a
`Get` finds the token. -/
def GetsAlone (s : TokenState χ) : TokenAction → Prop
  | .get i => ∀ c ∈ s.calls.lookup i, (C.get s.cache s.now (tokenKeyPrefix ++ c.token)).isSome →
      ∀ j ∈ s.calls.keys, ∀ d ∈ s.calls.lookup j, d.token = c.token →
        d.phase.isFound = false
  | _ => True

/-- A `Delete` removes the entry, also if its answer is lost. -/
def Removes : TokenAction → Prop
  | .deleteFails _ removed => removed = true
  | _ => True

instance (s : TokenState χ) : DecidablePred (GetsAlone C s)
  | .get i => inferInstanceAs (Decidable (∀ c ∈ s.calls.lookup i,
      (C.get s.cache s.now (tokenKeyPrefix ++ c.token)).isSome →
      ∀ j ∈ s.calls.keys, ∀ d ∈ s.calls.lookup j, d.token = c.token → d.phase.isFound = false))
  | .issue _ _ | .issueFails _ _ _ | .call _ _ | .getFails _ | .delete _ | .deleteFails _ _
  | .tick => .isTrue trivial

instance : DecidablePred Removes
  | .deleteFails _ removed => inferInstanceAs (Decidable (removed = true))
  | .issue _ _ | .issueFails _ _ _ | .call _ _ | .get _ | .getFails _ | .delete _
  | .tick => .isTrue trivial

/-- At most one call holds a token. Once it has returned the payload, the entry is
gone, and it cannot come back, because the token is not issued again. -/
structure TokenInv (s : TokenState χ) : Prop where
  holder_unique : ∀ {i j c d}, s.calls.lookup i = some c → s.calls.lookup j = some d →
    c.Holds → d.Holds → c.token = d.token → i = j
  consumed : ∀ {i c p}, s.calls.lookup i = some c → c.phase = .returned (some p) →
    ¬ C.has s.cache (tokenKeyPrefix ++ c.token)
  holder_issued : ∀ {i c}, s.calls.lookup i = some c → c.Holds → c.token ∈ s.issued
  entry_issued : ∀ {token}, C.has s.cache (tokenKeyPrefix ++ token) → token ∈ s.issued

variable {C} {s s' : TokenState χ}

theorem tokenInv_init : TokenInv C (TokenState.init C) where
  holder_unique h := by simp [TokenState.init] at h
  consumed h := by simp [TokenState.init] at h
  holder_issued h := by simp [TokenState.init] at h
  entry_issued h := absurd h (C.not_has_new _)

/-- Replacing one call by one with the same token that holds it only if it did, or
if nobody did. -/
theorem TokenInv.setCall (h : TokenInv C s) {i : ℕ} {c : Call}
    (hholds : c.Holds → c.token ∈ s.issued ∧
      ∀ j d, s.calls.lookup j = some d → d.Holds → d.token = c.token → j = i)
    (hreturned : ∀ p, c.phase = .returned (some p) →
      ¬ C.has s.cache (tokenKeyPrefix ++ c.token)) :
    TokenInv C { s with calls := s.calls.insert i c } where
  holder_unique := by
    intro j k d e hj hk hd he htok
    simp only [GoMap.lookup_insert_ite] at hj hk
    split_ifs at hj hk with hji hki hki
    · rw [hji, hki]
    · obtain rfl := Option.some.inj hj
      rw [hji, (hholds hd).2 k e hk he htok.symm]
    · obtain rfl := Option.some.inj hk
      rw [hki, (hholds he).2 j d hj hd htok]
    · exact h.holder_unique hj hk hd he htok
  consumed := by
    intro j d p hj hd
    simp only [GoMap.lookup_insert_ite] at hj
    split_ifs at hj
    · obtain rfl := Option.some.inj hj
      exact hreturned p hd
    · exact h.consumed hj hd
  holder_issued := by
    intro j d hj hd
    simp only [GoMap.lookup_insert_ite] at hj
    split_ifs at hj
    · obtain rfl := Option.some.inj hj
      exact (hholds hd).1
    · exact h.holder_issued hj hd
  entry_issued := h.entry_issued

theorem TokenInv.deleteEntry (h : TokenInv C s) (key : GoString) :
    TokenInv C { s with cache := C.delete s.cache key } where
  holder_unique := h.holder_unique
  consumed hi hp hback := h.consumed hi hp (C.has_of_delete hback).2
  holder_issued := h.holder_issued
  entry_issued htoken := h.entry_issued (C.has_of_delete htoken).2

theorem TokenInv.storeToken (h : TokenInv C s) {token : GoString} (hfresh : token ∉ s.issued)
    (payload : TokenPayload) :
    TokenInv C
      { s with
        cache := Outbound.issue C s.cache s.now ttl token payload
        issued := insert token s.issued } where
  holder_unique := h.holder_unique
  consumed := by
    intro i c p hi hp hback
    have hissued := h.holder_issued hi (by simp [Call.Holds, hp])
    rcases C.has_of_set hback with hkey | hold
    · obtain rfl := List.append_cancel_left hkey
      exact hfresh hissued
    · exact h.consumed hi hp hold
  holder_issued := fun hi hc => Finset.mem_insert_of_mem (h.holder_issued hi hc)
  entry_issued := by
    intro token' htoken
    rcases C.has_of_set htoken with hkey | hold
    · rw [List.append_cancel_left hkey]
      exact Finset.mem_insert_self token _
    · exact Finset.mem_insert_of_mem (h.entry_issued hold)

theorem TokenInv.issueToken (h : TokenInv C s) {token : GoString} {payload : TokenPayload}
    {stored : Bool} (hstep : s.issueToken C ttl token payload stored = some s') :
    TokenInv C s' := by
  simp only [TokenState.issueToken, Option.ite_none_left_eq_some, Option.some.injEq] at hstep
  obtain ⟨hfresh, rfl⟩ := hstep
  cases stored with
  | true => exact h.storeToken ttl hfresh payload
  | false =>
    exact ⟨h.holder_unique, h.consumed,
      fun hi hc => Finset.mem_insert_of_mem (h.holder_issued hi hc),
      fun htoken => Finset.mem_insert_of_mem (h.entry_issued htoken)⟩

/-- While the entry is in the cache, only a call that has found it can hold the token. -/
theorem TokenInv.not_holds_of_entry (h : TokenInv C s) {token : GoString}
    (hentry : C.has s.cache (tokenKeyPrefix ++ token)) {j : ℕ} {d : Call}
    (hj : s.calls.lookup j = some d) (htok : d.token = token) (hnot : d.phase.isFound = false) :
    ¬ d.Holds := by
  intro hd
  cases hphase : d.phase with
  | called => simp [Call.Holds, hphase] at hd
  | found data => simp [hphase, Phase.isFound] at hnot
  | returned r =>
    cases r with
    | none => simp [Call.Holds, hphase] at hd
    | some p => exact h.consumed hj hphase (htok ▸ hentry)

/-- The `Get` of a call finds nothing, or an entry that no other call has found. -/
theorem TokenInv.answerGet (h : TokenInv C s) {i : ℕ} {answer : GoString → Option TokenValue}
    (halone : ∀ token data, s.calls.lookup i = some ⟨token, .called⟩ → answer token = some data →
      C.has s.cache (tokenKeyPrefix ++ token) ∧
        ∀ j d, s.calls.lookup j = some d → d.token = token → d.phase.isFound = false)
    (hstep : s.answerGet i answer = some s') : TokenInv C s' := by
  unfold TokenState.answerGet at hstep
  split at hstep
  · rename_i token hi
    obtain rfl := Option.some.inj hstep
    cases hanswer : answer token with
    | none => exact h.setCall (fun hc => by simp [Call.Holds] at hc) (fun p hp => by simp at hp)
    | some data =>
      obtain ⟨hentry, hothers⟩ := halone token data hi hanswer
      refine h.setCall (fun _ => ⟨h.entry_issued hentry, fun j d hj hd htok => ?_⟩)
        (fun p hp => by simp at hp)
      exact absurd hd (h.not_holds_of_entry hentry hj htok (hothers j d hj htok))
  · cases hstep

theorem TokenInv.answerDelete (h : TokenInv C s) {i : ℕ}
    (hstep : s.answerDelete C i true = some s') : TokenInv C s' := by
  unfold TokenState.answerDelete at hstep
  split at hstep
  · rename_i token data hi
    obtain rfl := Option.some.inj hstep
    have hholds : (⟨token, .found data⟩ : Call).Holds := trivial
    have hissued := h.holder_issued hi hholds
    apply (h.deleteEntry (tokenKeyPrefix ++ token)).setCall
    · exact fun _ => ⟨hissued, fun j d hj hd htok => h.holder_unique hj hi hd hholds htok⟩
    · exact fun _ _ hback => (C.has_of_delete hback).1 rfl
  · cases hstep

theorem TokenInv.step {a : TokenAction} (h : TokenInv C s) (halone : GetsAlone C s a)
    (hremoves : Removes a) (hstep : tokenStep C ttl s a = some s') : TokenInv C s' := by
  cases a with
  | issue token payload => exact h.issueToken ttl hstep
  | issueFails token payload stored => exact h.issueToken ttl hstep
  | call i token =>
    simp only [tokenStep] at hstep
    split at hstep
    · cases hstep
    · obtain rfl := Option.some.inj hstep
      by_cases hempty : token = []
      · exact h.setCall (by simp [Call.Holds, hempty]) (by simp [hempty])
      · exact h.setCall (by simp [Call.Holds, hempty]) (by simp [hempty])
  | get i =>
    refine h.answerGet (fun token data hi hget => ⟨C.has_of_get hget, fun j d hj htok => ?_⟩) hstep
    exact halone ⟨token, .called⟩ hi (by simp [hget]) j
      (Finmap.mem_keys.mpr (Finmap.mem_of_lookup_eq_some hj)) d hj htok
  | getFails i =>
    have hnothing : s.answerGet i (fun _ => none) = some s' := hstep
    exact h.answerGet (fun _ _ _ hget => by cases hget) hnothing
  | delete i => exact h.answerDelete hstep
  | deleteFails i removed =>
    obtain rfl : removed = true := hremoves
    exact h.answerDelete hstep
  | tick =>
    simp only [tokenStep, Option.some.injEq] at hstep
    subst hstep
    exact ⟨h.holder_unique, h.consumed, h.holder_issued, h.entry_issued⟩

/-- Every token was honoured at most once: two calls on one token that both
returned a payload are the same call. -/
def HonouredOnce (s : TokenState χ) : Prop :=
  ∀ i j c d p q, s.calls.lookup i = some c → s.calls.lookup j = some d → c.token = d.token →
    c.phase = .returned (some p) → d.phase = .returned (some q) → i = j

/-- In every run over an atomic cache in which no `Get` finds a token while another call on it
stands between its own `Get` and `Delete`, and every `Delete` removes the entry, every token is
honoured at most once. -/
theorem token_honouredOnce (C : AtomicCache χ TokenValue) {as : List TokenAction}
    {s : TokenState χ}
    (hsafe : Along (tokenStep C ttl) (fun s a => GetsAlone C s a ∧ Removes a) (.init C) as)
    (hrun : runFrom (tokenStep C ttl) (.init C) as = some s) : HonouredOnce s := by
  have hinv : TokenInv C s :=
    invariant_run (fun _ _ _ hI hP hs => hI.step ttl hP.1 hP.2 hs) tokenInv_init hsafe hrun
  intro i j c d p q hi hj htoken hc hd
  exact hinv.holder_unique hi hj (by simp [Call.Holds, hc]) (by simp [Call.Holds, hd]) htoken

def bobPayload : TokenPayload := ⟨lit "bob", 20, 7⟩

/-- Two calls, the second of which reads after the first has deleted; its answer is lost. -/
def inTurn : List TokenAction :=
  [.issue (lit "7f") bobPayload, .call 0 (lit "7f"), .call 1 (lit "7f"), .get 0,
    .deleteFails 0 true, .get 1]

/-- The first call has the payload and the second has not. -/
def HonouredFirst (s : TokenState χ) : Prop :=
  s.calls.lookup 0 = some ⟨lit "7f", .returned (some bobPayload)⟩ ∧
    s.calls.lookup 1 = some ⟨lit "7f", .returned none⟩

instance (s : TokenState χ) : Decidable (HonouredFirst s) := inferInstanceAs (Decidable (_ ∧ _))

theorem token_honouredOnce_sequential :
    (∃ s, runFrom (tokenStep memoryCache 0) (.init memoryCache) inTurn = some s ∧
      HonouredOnce s ∧ HonouredFirst s) ∧
    ∃ s, runFrom (tokenStep (redisCache (lit "mus")) 0) (.init (redisCache (lit "mus"))) inTurn =
      some s ∧ HonouredOnce s ∧ HonouredFirst s := by
  have hmemory : (runFrom (tokenStep memoryCache 0) (.init memoryCache) inTurn).any
      (fun s => HonouredFirst s) = true := by
    decide +kernel
  have hredis : (runFrom (tokenStep (redisCache (lit "mus")) 0)
      (.init (redisCache (lit "mus"))) inTurn).any (fun s => HonouredFirst s) = true := by
    decide +kernel
  obtain ⟨s, hs, hfirst⟩ := exists_run_of_any hmemory
  obtain ⟨t, ht, hfirst'⟩ := exists_run_of_any hredis
  exact ⟨⟨s, hs, token_honouredOnce 0 memoryCache (by decide +kernel) hs, of_decide_eq_true hfirst⟩,
    t, ht, token_honouredOnce 0 (redisCache (lit "mus")) (by decide +kernel) ht,
    of_decide_eq_true hfirst'⟩

/-- Two calls that both read before either deletes: both return the payload. -/
theorem token_honoured_twice :
    ∃ s, runFrom (tokenStep memoryCache 0) (.init memoryCache)
        [.issue (lit "7f") bobPayload, .call 0 (lit "7f"), .call 1 (lit "7f"), .get 0, .get 1,
          .delete 0, .delete 1] = some s ∧
      s.calls.lookup 0 = some ⟨lit "7f", .returned (some bobPayload)⟩ ∧
      s.calls.lookup 1 = some ⟨lit "7f", .returned (some bobPayload)⟩ ∧ ¬ HonouredOnce s := by
  have hrun : (runFrom (tokenStep memoryCache 0) (.init memoryCache)
      [.issue (lit "7f") bobPayload, .call 0 (lit "7f"), .call 1 (lit "7f"), .get 0, .get 1,
        .delete 0, .delete 1]).any (fun s =>
          s.calls.lookup 0 = some ⟨lit "7f", .returned (some bobPayload)⟩ ∧
            s.calls.lookup 1 = some ⟨lit "7f", .returned (some bobPayload)⟩) = true := by
    decide +kernel
  obtain ⟨s, hs, hcalls⟩ := exists_run_of_any hrun
  simp only [decide_eq_true_eq] at hcalls
  refine ⟨s, hs, hcalls.1, hcalls.2, fun honce => ?_⟩
  exact absurd (honce 0 1 _ _ _ _ hcalls.1 hcalls.2 rfl rfl rfl) (by decide)

end Calls

end Musgos.Outbound
