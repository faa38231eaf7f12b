import Musgos.Foundation.GoMap

/-!
# A Redis server

The commands on hashes and sets with their documented meaning. A key holds one
kind of value, and a command for the other kind fails and changes nothing. A
collection that becomes empty is removed with its key, so an absent key reads as
an empty collection of either kind. A pipeline sends its commands one after the
other; it is no transaction, and a failing command does not stop the next.
-/
namespace Musgos.Foundation

/-- What a key can hold: a hash or a set. -/
inductive RedisValue (N F : Type) where
  | hash (fields : GoMap N F)
  | set (members : Finset N)

/-- Keys in `K`, hash fields and set members in `N`, the contents of hash fields in `F`. -/
structure Redis (K N F : Type) where
  values : GoMap K (RedisValue N F)
  /-- The deadline of a key with a time to live. -/
  expiry : GoMap K ℤ

/-- `WRONGTYPE Operation against a key holding the wrong kind of value`. -/
inductive RedisError where
  | wrongType
  deriving DecidableEq

/-- The write commands that are used of the server. -/
inductive RedisCmd (K N F : Type) where
  | hset (key : K) (fields : List (N × F))
  | hdel (key : K) (field : N)
  | sadd (key : K) (member : N)
  | srem (key : K) (member : N)
  | del (key : K)
  | expire (key : K) (deadline : ℤ)

/-- The same command under other keys. -/
def RedisCmd.mapKey {J K N F : Type} (f : J → K) : RedisCmd J N F → RedisCmd K N F
  | .hset key fields => .hset (f key) fields
  | .hdel key field => .hdel (f key) field
  | .sadd key member => .sadd (f key) member
  | .srem key member => .srem (f key) member
  | .del key => .del (f key)
  | .expire key deadline => .expire (f key) deadline

/-- The key the command is about. -/
@[simp] def RedisCmd.key {K N F : Type} : RedisCmd K N F → K
  | .hset key _ | .hdel key _ | .sadd key _ | .srem key _ | .del key | .expire key _ => key

namespace Redis

variable {K N F : Type} [DecidableEq K]

def empty : Redis K N F := ⟨∅, ∅⟩

/-- `HGETALL`. -/
def hashAt (db : Redis K N F) (key : K) : Except RedisError (GoMap N F) :=
  match db.values.lookup key with
  | none => .ok ∅
  | some (.hash fields) => .ok fields
  | some (.set _) => .error .wrongType

/-- `SMEMBERS`. -/
def setAt (db : Redis K N F) (key : K) : Except RedisError (Finset N) :=
  match db.values.lookup key with
  | none => .ok ∅
  | some (.set members) => .ok members
  | some (.hash _) => .error .wrongType

def delete (key : K) (db : Redis K N F) : Redis K N F :=
  ⟨db.values.erase key, db.expiry.erase key⟩

section Reads

variable (db : Redis K N F) (key k : K)

@[simp] theorem hashAt_empty : (empty : Redis K N F).hashAt key = .ok ∅ := rfl

@[simp] theorem setAt_empty : (empty : Redis K N F).setAt key = .ok ∅ := rfl

@[simp] theorem hashAt_delete :
    (db.delete key).hashAt k = if k = key then .ok ∅ else db.hashAt k := by
  by_cases h : k = key <;> simp [hashAt, delete, h]

@[simp] theorem setAt_delete :
    (db.delete key).setAt k = if k = key then .ok ∅ else db.setAt k := by
  by_cases h : k = key <;> simp [setAt, delete, h]

end Reads

section Contents

variable {J : Type}

/-- What the keys of a database hold, when each key is used for one kind of value. -/
structure View (J N F : Type) where
  hashes : J → GoMap N F
  sets : J → Finset N

/-- The command is used on a key of its kind; `isHash` tells the kinds apart. -/
def Fitting (isHash : J → Bool) : RedisCmd J N F → Prop
  | .hset key _ | .hdel key _ => isHash key = true
  | .sadd key _ | .srem key _ => isHash key = false
  | .del _ | .expire _ _ => True

/-- The database holds these contents under the names `name` gives to the keys. -/
structure Shows (name : J → K) (isHash : J → Bool) (db : Redis K N F) (v : View J N F) : Prop where
  hash : ∀ j, isHash j = true → db.hashAt (name j) = .ok (v.hashes j)
  set : ∀ j, isHash j = false → db.setAt (name j) = .ok (v.sets j)

variable {name : J → K} {isHash : J → Bool} {db db' : Redis K N F} {v : View J N F}

theorem Shows.of_values_eq (h : Shows name isHash db v)
    (hvalues : db'.values = db.values) : Shows name isHash db' v := by
  refine ⟨fun j hj => ?_, fun j hj => ?_⟩
  · rw [hashAt, hvalues]
    exact h.hash j hj
  · rw [setAt, hvalues]
    exact h.set j hj

variable [DecidableEq J]

theorem Shows.delete (hname : Function.Injective name) (h : Shows name isHash db v) (key : J) :
    Shows name isHash (db.delete (name key))
      ⟨Function.update v.hashes key ∅, Function.update v.sets key ∅⟩ := by
  refine ⟨fun j hj => ?_, fun j hj => ?_⟩
  · rw [hashAt_delete]
    by_cases hjk : j = key <;> simp [hname.eq_iff, hjk, h.hash j hj]
  · rw [setAt_delete]
    by_cases hjk : j = key <;> simp [hname.eq_iff, hjk, h.set j hj]

end Contents

variable [DecidableEq N]

def putHash (key : K) (fields : GoMap N F) (db : Redis K N F) : Redis K N F :=
  if fields.keys = ∅ then db.delete key
  else { db with values := db.values.insert key (.hash fields) }

def putSet (key : K) (members : Finset N) (db : Redis K N F) : Redis K N F :=
  if members = ∅ then db.delete key
  else { db with values := db.values.insert key (.set members) }

def exec (db : Redis K N F) : RedisCmd K N F → Except RedisError (Redis K N F)
  | .hset key fields => do
    return db.putHash key (fields.foldl (fun h e => h.insert e.1 e.2) (← db.hashAt key))
  | .hdel key field => do return db.putHash key ((← db.hashAt key).erase field)
  | .sadd key member => do return db.putSet key (insert member (← db.setAt key))
  | .srem key member => do return db.putSet key ((← db.setAt key).erase member)
  | .del key => return db.delete key
  | .expire key deadline =>
    return if key ∈ db.values then { db with expiry := db.expiry.insert key deadline } else db

/-- The database after a command, whether it failed or not. -/
def after (db : Redis K N F) (cmd : RedisCmd K N F) : Redis K N F :=
  match db.exec cmd with
  | .ok db' => db'
  | .error _ => db

/-- A pipeline: the database after all its commands, and the first error. -/
def pipeline (db : Redis K N F) : List (RedisCmd K N F) → Redis K N F × Option RedisError
  | [] => (db, none)
  | cmd :: cmds =>
    match db.exec cmd with
    | .ok db' => db'.pipeline cmds
    | .error e => ((db.pipeline cmds).1, some e)

section Views

variable (db : Redis K N F) (key k : K)

@[simp] theorem hashAt_putHash (fields : GoMap N F) :
    (db.putHash key fields).hashAt k = if k = key then .ok fields else db.hashAt k := by
  unfold putHash
  split_ifs with hempty hk hk
  · simp [hk, (GoMap.keys_eq_empty_iff fields).mp hempty]
  · simp [hk]
  · simp [hashAt, hk]
  · simp [hashAt, hk]

@[simp] theorem setAt_putSet (members : Finset N) :
    (db.putSet key members).setAt k = if k = key then .ok members else db.setAt k := by
  unfold putSet
  split_ifs with hempty hk hk
  · simp [hk, hempty]
  · simp [hk]
  · simp [setAt, hk]
  · simp [setAt, hk]

variable {db key k}

theorem setAt_putHash_of_ne (h : k ≠ key) (fields : GoMap N F) :
    (db.putHash key fields).setAt k = db.setAt k := by
  unfold putHash
  split_ifs
  · simp [h]
  · simp [setAt, h]

theorem hashAt_putSet_of_ne (h : k ≠ key) (members : Finset N) :
    (db.putSet key members).hashAt k = db.hashAt k := by
  unfold putSet
  split_ifs
  · simp [h]
  · simp [hashAt, h]

end Views

section Commands

variable {db : Redis K N F} {key : K}

theorem exec_hset {fields : GoMap N F} (h : db.hashAt key = .ok fields) (entries : List (N × F)) :
    db.exec (.hset key entries) =
      .ok (db.putHash key (entries.foldl (fun h e => h.insert e.1 e.2) fields)) := by
  rw [exec, h]
  rfl

theorem exec_hdel {fields : GoMap N F} (h : db.hashAt key = .ok fields) (field : N) :
    db.exec (.hdel key field) = .ok (db.putHash key (fields.erase field)) := by
  rw [exec, h]
  rfl

theorem exec_sadd {members : Finset N} (h : db.setAt key = .ok members) (member : N) :
    db.exec (.sadd key member) = .ok (db.putSet key (insert member members)) := by
  rw [exec, h]
  rfl

theorem exec_srem {members : Finset N} (h : db.setAt key = .ok members) (member : N) :
    db.exec (.srem key member) = .ok (db.putSet key (members.erase member)) := by
  rw [exec, h]
  rfl

@[simp] theorem exec_del (key : K) : db.exec (.del key) = .ok (db.delete key) := rfl

theorem pipeline_cons {cmd : RedisCmd K N F} {db' : Redis K N F} (h : db.exec cmd = .ok db')
    (cmds : List (RedisCmd K N F)) : db.pipeline (cmd :: cmds) = db'.pipeline cmds := by
  rw [pipeline, h]

theorem pipeline_fst (db : Redis K N F) (cmds : List (RedisCmd K N F)) :
    (db.pipeline cmds).1 = cmds.foldl after db := by
  induction cmds generalizing db with
  | nil => rfl
  | cons cmd cmds ih =>
    rw [pipeline, List.foldl_cons, after]
    cases db.exec cmd with
    | ok db' => exact ih db'
    | error e => exact ih db

theorem after_eq {cmd : RedisCmd K N F} {db' : Redis K N F} (h : db.exec cmd = .ok db') :
    db.after cmd = db' := by
  rw [after, h]

end Commands

section Typed

variable {J : Type} [DecidableEq J]

/-- The effect of a command on the contents. -/
def View.after (v : View J N F) : RedisCmd J N F → View J N F
  | .hset key fields =>
    let fields := fields.foldl (fun h e => h.insert e.1 e.2) (v.hashes key)
    { v with hashes := Function.update v.hashes key fields }
  | .hdel key field =>
    { v with hashes := Function.update v.hashes key ((v.hashes key).erase field) }
  | .sadd key member => { v with sets := Function.update v.sets key (insert member (v.sets key)) }
  | .srem key member => { v with sets := Function.update v.sets key ((v.sets key).erase member) }
  | .del key => ⟨Function.update v.hashes key ∅, Function.update v.sets key ∅⟩
  | .expire _ _ => v

theorem View.sets_after_of_ne (v : View J N F) {cmd : RedisCmd J N F} {key : J}
    (h : key ≠ cmd.key) : (v.after cmd).sets key = v.sets key := by
  cases cmd with
  | hset | hdel | expire => rfl
  | sadd | srem | del => exact Function.update_of_ne h _ _

theorem View.hashes_after_of_ne (v : View J N F) {cmd : RedisCmd J N F} {key : J}
    (h : key ≠ cmd.key) : (v.after cmd).hashes key = v.hashes key := by
  cases cmd with
  | sadd | srem | expire => rfl
  | hset | hdel | del => exact Function.update_of_ne h _ _

variable {name : J → K} {isHash : J → Bool} {db : Redis K N F} {v : View J N F}

theorem Shows.putHash (hname : Function.Injective name) (h : Shows name isHash db v) {key : J}
    (hkey : isHash key = true) (fields : GoMap N F) :
    Shows name isHash (db.putHash (name key) fields)
      { v with hashes := Function.update v.hashes key fields } := by
  refine ⟨fun j hj => ?_, fun j hj => ?_⟩
  · rw [hashAt_putHash]
    by_cases hjk : j = key <;> simp [hname.eq_iff, hjk, h.hash j hj]
  · have hjk : j ≠ key := by
      rintro rfl
      simp [hj] at hkey
    rw [setAt_putHash_of_ne (hname.ne hjk)]
    exact h.set j hj

theorem Shows.putSet (hname : Function.Injective name) (h : Shows name isHash db v) {key : J}
    (hkey : isHash key = false) (members : Finset N) :
    Shows name isHash (db.putSet (name key) members)
      { v with sets := Function.update v.sets key members } := by
  refine ⟨fun j hj => ?_, fun j hj => ?_⟩
  · have hjk : j ≠ key := by
      rintro rfl
      simp [hj] at hkey
    rw [hashAt_putSet_of_ne (hname.ne hjk)]
    exact h.hash j hj
  · rw [setAt_putSet]
    by_cases hjk : j = key <;> simp [hname.eq_iff, hjk, h.set j hj]

/-- A fitting command succeeds and has its effect, if no two keys share a name. -/
theorem Shows.exec (hname : Function.Injective name) (h : Shows name isHash db v)
    {cmd : RedisCmd J N F} (hcmd : Fitting isHash cmd) :
    ∃ db', db.exec (cmd.mapKey name) = .ok db' ∧ Shows name isHash db' (v.after cmd) := by
  cases cmd with
  | hset key fields => exact ⟨_, exec_hset (h.hash key hcmd) fields, h.putHash hname hcmd _⟩
  | hdel key field => exact ⟨_, exec_hdel (h.hash key hcmd) field, h.putHash hname hcmd _⟩
  | sadd key member => exact ⟨_, exec_sadd (h.set key hcmd) member, h.putSet hname hcmd _⟩
  | srem key member => exact ⟨_, exec_srem (h.set key hcmd) member, h.putSet hname hcmd _⟩
  | del key => exact ⟨_, rfl, h.delete hname key⟩
  | expire key deadline =>
    refine ⟨_, rfl, h.of_values_eq ?_⟩
    split_ifs <;> rfl

/-- A pipeline of fitting commands has their effects in order and no error. -/
theorem Shows.pipeline (hname : Function.Injective name) {cmds : List (RedisCmd J N F)}
    (hcmds : ∀ cmd ∈ cmds, Fitting isHash cmd) (h : Shows name isHash db v) :
    ∃ db', db.pipeline (cmds.map (·.mapKey name)) = (db', none) ∧
      Shows name isHash db' (cmds.foldl View.after v) := by
  induction cmds generalizing db v with
  | nil => exact ⟨db, rfl, h⟩
  | cons cmd cmds ih =>
    obtain ⟨db₁, hexec, h₁⟩ := h.exec hname (hcmds cmd List.mem_cons_self)
    obtain ⟨db₂, hrest, h₂⟩ := ih (fun c hc => hcmds c (List.mem_cons_of_mem cmd hc)) h₁
    exact ⟨db₂, by rw [List.map_cons, pipeline_cons hexec, hrest], h₂⟩

/-- What every command of a pipeline keeps, the pipeline keeps. -/
theorem Shows.pipeline_keeps {P : Redis K N F → View J N F → Prop}
    (hname : Function.Injective name) {cmds : List (RedisCmd J N F)}
    (hcmds : ∀ cmd ∈ cmds, Fitting isHash cmd)
    (hstep : ∀ cmd ∈ cmds, ∀ db v db', Shows name isHash db v → P db v →
      db.exec (cmd.mapKey name) = .ok db' → P db' (v.after cmd))
    (h : Shows name isHash db v) (hP : P db v) :
    ∃ v', Shows name isHash (db.pipeline (cmds.map (·.mapKey name))).1 v' ∧
      P (db.pipeline (cmds.map (·.mapKey name))).1 v' := by
  induction cmds generalizing db v with
  | nil => exact ⟨v, h, hP⟩
  | cons cmd cmds ih =>
    obtain ⟨db₁, hexec, h₁⟩ := h.exec hname (hcmds cmd List.mem_cons_self)
    rw [List.map_cons, pipeline_cons hexec]
    exact ih (fun c hc => hcmds c (List.mem_cons_of_mem cmd hc))
      (fun c hc => hstep c (List.mem_cons_of_mem cmd hc)) h₁
      (hstep cmd List.mem_cons_self db v db₁ h hP hexec)

end Typed

end Redis

end Musgos.Foundation
