import Musgos.Foundation.Redis

/-!
# Keys with a time to live

When the clock of a Redis server reaches a key's deadline, the key is gone with
its value and its deadline. A write to a key that is there keeps the deadline;
a write that creates the key leaves it without one.
-/
namespace Musgos.Foundation.Redis

variable {K N F : Type} [DecidableEq K]

section Elapse

def expiredKeys (now : ℤ) (db : Redis K N F) : Finset K :=
  db.expiry.keys.filter fun k => (db.expiry.lookup k).any fun deadline => deadline ≤ now

/-- The database once the clock has reached `now`. -/
def elapse (now : ℤ) (db : Redis K N F) : Redis K N F :=
  ⟨GoMap.alterAll (fun _ => none) db.values (db.expiredKeys now),
    GoMap.alterAll (fun _ => none) db.expiry (db.expiredKeys now)⟩

variable (db : Redis K N F) (now : ℤ) (k : K)

theorem mem_expiredKeys :
    k ∈ db.expiredKeys now ↔ ∃ deadline, db.expiry.lookup k = some deadline ∧ deadline ≤ now := by
  rw [expiredKeys, Finset.mem_filter, Finmap.mem_keys, ← Finmap.lookup_isSome]
  cases db.expiry.lookup k <;> simp

@[simp] theorem hashAt_elapse :
    (db.elapse now).hashAt k = if k ∈ db.expiredKeys now then .ok ∅ else db.hashAt k := by
  split_ifs with h <;> simp [hashAt, elapse, h]

@[simp] theorem setAt_elapse :
    (db.elapse now).setAt k = if k ∈ db.expiredKeys now then .ok ∅ else db.setAt k := by
  split_ifs with h <;> simp [setAt, elapse, h]

@[simp] theorem expiry_elapse :
    (db.elapse now).expiry.lookup k =
      if k ∈ db.expiredKeys now then none else db.expiry.lookup k :=
  GoMap.lookup_alterAll _ _ _ _

end Elapse

section Views

variable {J : Type} {name : J → K} {isHash : J → Bool} {db : Redis K N F} {v : View J N F}

/-- The contents that are left when the clock has reached `now`. -/
def View.elapse (name : J → K) (db : Redis K N F) (now : ℤ) (v : View J N F) : View J N F :=
  ⟨fun j => if name j ∈ db.expiredKeys now then ∅ else v.hashes j,
    fun j => if name j ∈ db.expiredKeys now then ∅ else v.sets j⟩

theorem Shows.elapse (h : Shows name isHash db v) (now : ℤ) :
    Shows name isHash (db.elapse now) (v.elapse name db now) := by
  refine ⟨fun j hj => ?_, fun j hj => ?_⟩
  · simp only [hashAt_elapse, View.elapse, h.hash j hj]
    split_ifs <;> rfl
  · simp only [setAt_elapse, View.elapse, h.set j hj]
    split_ifs <;> rfl

end Views

section Deadlines

variable {db db' : Redis K N F} {key k : K}

theorem mem_of_hashAt {fields : GoMap N F} (h : db.hashAt key = .ok fields) (hne : fields ≠ ∅) :
    key ∈ db.values := by
  rw [← Finmap.lookup_isSome]
  unfold hashAt at h
  cases hlookup : db.values.lookup key with
  | none =>
    rw [hlookup] at h
    exact absurd (Except.ok.inj h).symm hne
  | some value => rfl

@[simp] theorem expiry_delete :
    (db.delete key).expiry.lookup k = if k = key then none else db.expiry.lookup k :=
  GoMap.lookup_erase_ite _ _ _

variable [DecidableEq N]

theorem expiry_putHash_of_ne (h : k ≠ key) (fields : GoMap N F) :
    (db.putHash key fields).expiry.lookup k = db.expiry.lookup k := by
  unfold putHash
  split_ifs <;> simp [h]

theorem expiry_putSet_of_ne (h : k ≠ key) (members : Finset N) :
    (db.putSet key members).expiry.lookup k = db.expiry.lookup k := by
  unfold putSet
  split_ifs <;> simp [h]

theorem expiry_putHash_of_nonempty {fields : GoMap N F} (h : fields ≠ ∅) :
    (db.putHash key fields).expiry = db.expiry := by
  rw [putHash, if_neg (mt (GoMap.keys_eq_empty_iff fields).mp h)]

theorem exec_expire {fields : GoMap N F} (h : db.hashAt key = .ok fields) (hne : fields ≠ ∅)
    (deadline : ℤ) : db.exec (.expire key deadline) =
      .ok { db with expiry := db.expiry.insert key deadline } := by
  rw [exec, if_pos (mem_of_hashAt h hne)]
  rfl

/-- A command that succeeds writes a collection, deletes its key or sets a deadline. -/
theorem exec_cases {cmd : RedisCmd K N F} (h : db.exec cmd = .ok db') :
    (∃ fields, db' = db.putHash cmd.key fields) ∨ (∃ members, db' = db.putSet cmd.key members) ∨
      db' = db.delete cmd.key ∨ ∃ deadline, cmd = .expire cmd.key deadline ∧
        db' = if cmd.key ∈ db.values
          then { db with expiry := db.expiry.insert cmd.key deadline } else db := by
  cases cmd with
  | hset key fields =>
    cases hread : db.hashAt key with
    | error e => simp [exec, hread] at h
    | ok old => exact .inl ⟨_, Except.ok.inj (h.symm.trans (exec_hset hread fields))⟩
  | hdel key field =>
    cases hread : db.hashAt key with
    | error e => simp [exec, hread] at h
    | ok old => exact .inl ⟨_, Except.ok.inj (h.symm.trans (exec_hdel hread field))⟩
  | sadd key member =>
    cases hread : db.setAt key with
    | error e => simp [exec, hread] at h
    | ok old => exact .inr (.inl ⟨_, Except.ok.inj (h.symm.trans (exec_sadd hread member))⟩)
  | srem key member =>
    cases hread : db.setAt key with
    | error e => simp [exec, hread] at h
    | ok old => exact .inr (.inl ⟨_, Except.ok.inj (h.symm.trans (exec_srem hread member))⟩)
  | del key => exact .inr (.inr (.inl (Except.ok.inj h).symm))
  | expire key deadline => exact .inr (.inr (.inr ⟨deadline, rfl, (Except.ok.inj h).symm⟩))

/-- A command changes no deadline but that of its own key, and only `EXPIRE` sets one. -/
theorem expiry_exec {cmd : RedisCmd K N F} (h : db.exec cmd = .ok db') (k : K) :
    db'.expiry.lookup k = db.expiry.lookup k ∨ k = cmd.key ∧
      (db'.expiry.lookup k = none ∨ ∃ deadline, cmd = .expire k deadline) := by
  by_cases hk : k = cmd.key
  · subst hk
    obtain ⟨fields, rfl⟩ | ⟨members, rfl⟩ | rfl | ⟨deadline, hcmd, rfl⟩ := exec_cases h
    · unfold putHash
      split_ifs
      · exact .inr ⟨rfl, .inl (by simp)⟩
      · exact .inl rfl
    · unfold putSet
      split_ifs
      · exact .inr ⟨rfl, .inl (by simp)⟩
      · exact .inl rfl
    · exact .inr ⟨rfl, .inl (by simp)⟩
    · exact .inr ⟨rfl, .inr ⟨deadline, hcmd⟩⟩
  · left
    obtain ⟨fields, rfl⟩ | ⟨members, rfl⟩ | rfl | ⟨deadline, hcmd, rfl⟩ := exec_cases h
    · exact expiry_putHash_of_ne hk fields
    · exact expiry_putSet_of_ne hk members
    · rw [expiry_delete, if_neg hk]
    · split_ifs
      · rw [GoMap.lookup_insert_ite, if_neg hk]
      · rfl

theorem expiry_exec_of_ne {cmd : RedisCmd K N F} (h : db.exec cmd = .ok db') (hk : k ≠ cmd.key) :
    db'.expiry.lookup k = db.expiry.lookup k :=
  (expiry_exec h k).resolve_right fun hkey => hk hkey.1

end Deadlines

end Musgos.Foundation.Redis
