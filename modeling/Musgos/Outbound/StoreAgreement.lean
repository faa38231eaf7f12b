import Musgos.Foundation.Transition
import Musgos.Lingo.Storage
import Musgos.Outbound.RedisSessionStore

/-!
# The two session stores side by side

The same operations are applied to the memory store and to the Redis store, and
the answers of their queries are compared. As long as the contents of the
database represent the memory store the answers agree. One operation breaks the
representation: `UpdateLastActivity` on a client that is not registered does
nothing in memory, but creates the client's connection hash in Redis.
-/
namespace Musgos.Outbound

open Foundation Lingo Domain

/-- An integer, or a string of valid UTF-8. -/
def PlainAttribute : LValue → Prop
  | .integer _ => True
  | .string s => ValidUtf8 s
  | _ => False

theorem PlainAttribute.storageStable {value : LValue} (h : PlainAttribute value) :
    value.StorageStable := by
  cases value <;> try exact h.elim
  case integer n => exact ⟨_, rfl, rfl⟩
  case string s =>
    refine ⟨_, rfl, ?_⟩
    rw [(repairUtf8_eq_self_iff s).mpr h]
    rfl

/-- Only plain attribute values are set. -/
def SessionOp.Plain : SessionOp → Prop
  | .setUserAttribute _ _ value => PlainAttribute value
  | _ => True

/-- An operation together with the order in which Redis lists a set while it runs. -/
structure PlainOp where
  op : SessionOp
  ord : RangeOrder GoString
  plain : op.Plain

/-- What a caller compares of a connection. -/
def shown (info : ConnectionInfo) : GoString × GoString := (info.clientID, info.ip)

/-- The two stores side by side. -/
structure Stores where
  memory : MemorySessionStore
  redis : SessionDb

namespace Stores

def new : Stores := ⟨.new, .empty⟩

/-- One operation on both stores; `none` if it panics. -/
def step (r : RedisSessionStore) (s : Stores) (a : PlainOp) : Option Stores :=
  (r.apply a.ord s.redis a.op).map fun result => ⟨s.memory.apply a.op, result.1⟩

/-- Every query has the same answer on both stores, in whatever orders they list it. -/
structure SameAnswers (r : RedisSessionStore) (s : Stores) : Prop where
  connection : ∀ c, (r.getConnection s.redis c).map (·.map shown) =
    .ok ((s.memory.getConnection c).map shown)
  connections : ∀ ordR ordM, ∃ conns, r.getAllConnections ordR s.redis = .ok conns ∧
    (conns.map shown).Perm ((s.memory.getAllConnections ordM).map shown)
  connected : ∀ c, r.isConnected s.redis c = .ok (s.memory.isConnected c)
  attributes : ∀ c name, r.getUserAttribute s.redis c name =
    some (.ok (s.memory.getUserAttribute c name))
  names : ∀ ordR ordM c, ∃ names, r.getUserAttributeNames ordR s.redis c = .ok names ∧
    names.Perm (s.memory.getUserAttributeNames ordM c)
  members : ∀ ordR ordM room, ∃ clients, r.getRoomMembers ordR s.redis room = .ok clients ∧
    clients.Perm (s.memory.getRoomMembers ordM room)
  rooms : ∀ ordR ordM c, ∃ rooms, r.getClientRooms ordR s.redis c = .ok rooms ∧
    rooms.Perm (s.memory.getClientRooms ordM c)

end Stores

section Representation

/-- A connection hash is empty for an absent client, and holds the address of a present one. -/
def ConnAgrees (clientID : GoString) (fields : GoMap GoString SessionField) :
    Option ConnectionInfo → Prop
  | none => fields = ∅
  | some info => info.clientID = clientID ∧ fields.lookup (lit "ip") = some (.text info.ip)

/-- The field is read as the value. -/
def StoredAs : SessionField → LValue → Prop
  | .json document, value => LValue.unmarshalLValue document = some (.ok value)
  | _, _ => False

/-- The contents of the database stand for the memory store. -/
structure Represents (m : MemorySessionStore) (v : StoreView) : Prop where
  conn : ∀ c, ConnAgrees c (v.hashes (.conn c)) (m.connections.lookup c)
  conns : v.sets .conns = m.connections.keys
  attrs : ∀ c name, Option.Rel StoredAs ((v.hashes (.attr c)).lookup name)
    (((m.attributes.lookup c).getD ∅).lookup name)
  members : ∀ room, v.sets (.room room) = m.members room
  rooms : ∀ c, v.sets (.rooms c) = m.roomsOf c

theorem new_represents : Represents .new ⟨fun _ => ∅, fun _ => ∅⟩ :=
  ⟨fun _ => rfl, rfl, fun _ _ => .none, fun _ => rfl, fun _ => rfl⟩

end Representation

section Answers

variable {r : RedisSessionStore} {s : Stores} {v : StoreView}

theorem ConnAgrees.map_shown {clientID : GoString} {fields : GoMap GoString SessionField}
    {info : Option ConnectionInfo} (h : ConnAgrees clientID fields info) :
    (RedisSessionStore.connectionOf clientID fields).map shown = info.map shown := by
  cases info with
  | none =>
    obtain rfl : fields = ∅ := h
    rfl
  | some info =>
    obtain ⟨rfl, hip⟩ := h
    have hkeys : fields.keys ≠ ∅ := by
      rw [Ne, GoMap.keys_eq_empty_iff]
      rintro rfl
      simp at hip
    simp [RedisSessionStore.connectionOf, hkeys, shown, RedisSessionStore.textField, hip]

theorem readAttribute_eq {field : Option SessionField} {value : Option LValue}
    (h : Option.Rel StoredAs field value) :
    RedisSessionStore.readAttribute field = some (.ok (value.getD .void)) := by
  cases h with
  | none => rfl
  | @some field value h =>
    cases field <;> try exact h.elim
    case json document =>
      have hread : LValue.unmarshalLValue document = some (.ok value) := h
      rw [RedisSessionStore.readAttribute, hread]
      rfl

theorem isSome_eq_of_rel {α β : Type} {R : α → β → Prop} {a : Option α} {b : Option β}
    (h : Option.Rel R a b) : a.isSome = b.isSome := by
  cases h <;> rfl

theorem Represents.keys_attrs {m : MemorySessionStore} (h : Represents m v) (c : GoString) :
    (v.hashes (.attr c)).keys = ((m.attributes.lookup c).getD ∅).keys := by
  ext name
  rw [Finmap.mem_keys, Finmap.mem_keys, ← Finmap.lookup_isSome, ← Finmap.lookup_isSome,
    isSome_eq_of_rel (h.attrs c name)]

theorem getUserAttributeNames_eq (m : MemorySessionStore) (ord : RangeOrder GoString)
    (c : GoString) :
    m.getUserAttributeNames ord c = ord.keys ((m.attributes.lookup c).getD ∅).keys := by
  unfold MemorySessionStore.getUserAttributeNames
  cases m.attributes.lookup c with
  | none => exact (List.eq_nil_iff_forall_not_mem.mpr fun _ h => by simp at h).symm
  | some attrs => rfl

theorem getUserAttribute_eq (m : MemorySessionStore) (c name : GoString) :
    m.getUserAttribute c name = (((m.attributes.lookup c).getD ∅).lookup name).getD .void := by
  unfold MemorySessionStore.getUserAttribute
  cases m.attributes.lookup c <;> rfl

/-- A store whose contents represent the memory store answers as it does. -/
theorem Represents.sameAnswers (h : Represents s.memory v) (hdb : r.Holds s.redis v) :
    s.SameAnswers r := by
  constructor
  case connection =>
    intro c
    rw [hdb.getConnection]
    exact congrArg Except.ok (h.conn c).map_shown
  case connections =>
    intro ordR ordM
    refine ⟨_, hdb.getAllConnections ordR, ?_⟩
    simp only [MemorySessionStore.getAllConnections, List.map_filterMap, (h.conn _).map_shown,
      h.conns]
    exact (ordR.perm ordM _).filterMap _
  case connected =>
    intro c
    rw [RedisSessionStore.isConnected, hdb.set .conns rfl, h.conns]
    refine congrArg Except.ok ?_
    rw [MemorySessionStore.isConnected, Bool.eq_iff_iff, decide_eq_true_iff, Finmap.lookup_isSome,
      Finmap.mem_keys]
  case attributes =>
    intro c name
    rw [RedisSessionStore.getUserAttribute, hdb.hash (.attr c) rfl, getUserAttribute_eq]
    exact readAttribute_eq (h.attrs c name)
  case names =>
    intro ordR ordM c
    refine ⟨_, by rw [RedisSessionStore.getUserAttributeNames, hdb.hash (.attr c) rfl]; rfl, ?_⟩
    rw [getUserAttributeNames_eq, h.keys_attrs]
    exact ordR.perm ordM _
  case members =>
    intro ordR ordM room
    refine ⟨_, by rw [RedisSessionStore.getRoomMembers, hdb.set (.room room) rfl]; rfl, ?_⟩
    rw [h.members]
    exact ordR.perm ordM _
  case rooms =>
    intro ordR ordM c
    refine ⟨_, by rw [RedisSessionStore.getClientRooms, hdb.set (.rooms c) rfl]; rfl, ?_⟩
    rw [h.rooms]
    exact ordR.perm ordM _

end Answers

section Operations

variable {m : MemorySessionStore} {v : StoreView}

/-- The `SREM` commands that take a client out of its rooms touch the rooms' sets only. -/
theorem foldl_srem_rooms (clientID : GoString) (rooms : List GoString) (v : StoreView) :
    ((rooms.map fun room => .srem (.room room) clientID).foldl Redis.View.after v) =
      ⟨v.hashes, fun key => if key ∈ rooms.map .room then (v.sets key).erase clientID
        else v.sets key⟩ := by
  induction rooms generalizing v with
  | nil => simp
  | cons room rooms ih =>
    rw [List.map_cons, List.foldl_cons, ih]
    simp only [Redis.View.after, List.map_cons, List.mem_cons, Redis.View.mk.injEq, true_and]
    funext key
    by_cases hkey : key = .room room <;> simp [hkey]

theorem foldl_registerPipe (r : RedisSessionStore) (now : ℤ) (c ip : GoString) (v : StoreView) :
    (r.registerPipe now c ip).foldl Redis.View.after v =
      ([.hset (.conn c) [(lit "ip", .text ip),
          (lit "connected_at", RedisSessionStore.formatTime now),
          (lit "last_activity", RedisSessionStore.formatTime now)],
        .sadd .conns c].foldl Redis.View.after v) := by
  unfold RedisSessionStore.registerPipe
  split_ifs <;> rfl

theorem Represents.register (h : Represents m v) (now : ℤ) (c ip : GoString)
    (r : RedisSessionStore) :
    Represents (m.registerConnection now c ip)
      ((r.registerPipe now c ip).foldl Redis.View.after v) := by
  have hip : lit "ip" ≠ lit "connected_at" ∧ lit "ip" ≠ lit "last_activity" := by decide
  rw [foldl_registerPipe]
  constructor
  case conn =>
    intro c'
    by_cases hc : c' = c
    · subst hc
      simp [Redis.View.after, MemorySessionStore.registerConnection, ConnAgrees, hip]
    · simpa [Redis.View.after, MemorySessionStore.registerConnection, hc] using h.conn c'
  case conns =>
    simp [Redis.View.after, MemorySessionStore.registerConnection, h.conns, GoMap.keys_insert]
  case attrs => exact h.attrs
  case members => exact h.members
  case rooms => exact h.rooms

theorem Represents.updateLastActivity (h : Represents m v) (now : ℤ) {c : GoString}
    {conn : ConnectionInfo} (hconn : m.connections.lookup c = some conn) :
    Represents (m.updateLastActivity now c)
      (v.after (.hset (.conn c) [(lit "last_activity", RedisSessionStore.formatTime now)])) := by
  have hip : lit "ip" ≠ lit "last_activity" := by decide
  rw [MemorySessionStore.updateLastActivity, hconn]
  constructor
  case conn =>
    intro c'
    have hagrees := h.conn c'
    by_cases hc : c' = c
    · subst hc
      rw [hconn] at hagrees
      simpa [Redis.View.after, ConnAgrees, hip] using hagrees
    · simpa [Redis.View.after, hc] using hagrees
  case conns =>
    have hmem : c ∈ m.connections.keys := by
      rw [Finmap.mem_keys, ← Finmap.lookup_isSome, hconn]
      rfl
    simp [Redis.View.after, h.conns, GoMap.keys_insert, hmem]
  case attrs => exact h.attrs
  case members => exact h.members
  case rooms => exact h.rooms

theorem Represents.setUserAttribute (h : Represents m v) (c name : GoString) {value : LValue}
    {document : StoredLValue} (hstored : LValue.unmarshalLValue document = some (.ok value)) :
    Represents (m.setUserAttribute c name value)
      (v.after (.hset (.attr c) [(name, .json document)])) := by
  refine ⟨h.conn, h.conns, ?_, h.members, h.rooms⟩
  intro c' name'
  have hagrees := h.attrs c' name'
  by_cases hc : c' = c
  · subst hc
    by_cases hname : name' = name
    · subst hname
      simpa [Redis.View.after, MemorySessionStore.setUserAttribute] using
        Option.Rel.some (show StoredAs (.json document) value from hstored)
    · simpa [Redis.View.after, MemorySessionStore.setUserAttribute, hname] using hagrees
  · simpa [Redis.View.after, MemorySessionStore.setUserAttribute, hc] using hagrees

theorem Represents.deleteUserAttribute (h : Represents m v) (c name : GoString) :
    Represents (m.deleteUserAttribute c name) (v.after (.hdel (.attr c) name)) := by
  refine ⟨h.conn, h.conns, ?_, h.members, h.rooms⟩
  intro c' name'
  have hagrees := h.attrs c' name'
  by_cases hc : c' = c
  · subst hc
    by_cases hname : name' = name
    · subst hname
      cases hattrs : m.attributes.lookup c' <;>
        simp [Redis.View.after, MemorySessionStore.deleteUserAttribute, hattrs]
    · cases hattrs : m.attributes.lookup c' <;>
        simpa [Redis.View.after, MemorySessionStore.deleteUserAttribute, hattrs, hname] using
          hagrees
  · simpa [Redis.View.after, MemorySessionStore.deleteUserAttribute, hc] using hagrees

theorem Represents.joinRoom (h : Represents m v) (room c : GoString) :
    Represents (m.joinRoom room c)
      ((RedisSessionStore.joinRoomPipe room c).foldl Redis.View.after v) := by
  refine ⟨h.conn, h.conns, h.attrs, ?_, ?_⟩
  · intro room'
    by_cases hroom : room' = room <;>
      simp [RedisSessionStore.joinRoomPipe, Redis.View.after, hroom, h.members]
  · intro c'
    by_cases hc : c' = c <;> simp [RedisSessionStore.joinRoomPipe, Redis.View.after, hc, h.rooms]

theorem Represents.leaveRoom (h : Represents m v) (room c : GoString) :
    Represents (m.leaveRoom room c)
      ((RedisSessionStore.leaveRoomPipe room c).foldl Redis.View.after v) := by
  refine ⟨h.conn, h.conns, h.attrs, ?_, ?_⟩
  · intro room'
    by_cases hroom : room' = room <;>
      simp [RedisSessionStore.leaveRoomPipe, Redis.View.after, hroom, h.members]
  · intro c'
    by_cases hc : c' = c <;> simp [RedisSessionStore.leaveRoomPipe, Redis.View.after, hc, h.rooms]

theorem Represents.leaveAllRooms (h : Represents m v) (ord : RangeOrder GoString) (c : GoString) :
    Represents (m.leaveAllRooms c)
      ((RedisSessionStore.leaveAllRoomsPipe c (ord.keys (v.sets (.rooms c)))).foldl
        Redis.View.after v) := by
  rw [RedisSessionStore.leaveAllRoomsPipe, List.foldl_append, foldl_srem_rooms, h.rooms]
  constructor
  case conn => simpa [Redis.View.after] using h.conn
  case conns => simpa [Redis.View.after] using h.conns
  case attrs => simpa [Redis.View.after] using h.attrs
  case members =>
    intro room
    simp [Redis.View.after, MemorySessionStore.members_leaveAllRooms_ite, h.members]
  case rooms =>
    intro c'
    by_cases hc : c' = c <;> simp [Redis.View.after, hc, h.rooms]

theorem Represents.unregister (h : Represents m v) (ord : RangeOrder GoString) (c : GoString) :
    Represents (m.unregisterConnection c)
      ((RedisSessionStore.unregisterPipe c (ord.keys (v.sets (.rooms c)))).foldl
        Redis.View.after v) := by
  rw [RedisSessionStore.unregisterPipe, List.foldl_append, foldl_srem_rooms, h.rooms]
  constructor
  case conn =>
    intro c'
    by_cases hc : c' = c
    · simp [Redis.View.after, hc, ConnAgrees]
    · simpa [Redis.View.after, hc] using h.conn c'
  case conns => simp [Redis.View.after, h.conns]
  case attrs =>
    intro c' name
    by_cases hc : c' = c
    · simp [Redis.View.after, hc]
    · simpa [Redis.View.after, hc] using h.attrs c' name
  case members =>
    intro room
    have hmembers : (m.unregisterConnection c).members room =
        if room ∈ m.roomsOf c then (m.members room).erase c else m.members room :=
      MemorySessionStore.members_leaveAllRooms_ite _ c room
    simp [Redis.View.after, h.members, hmembers]
  case rooms =>
    intro c'
    by_cases hc : c' = c <;> simp [Redis.View.after, hc, h.rooms]

end Operations

namespace Stores

variable {r : RedisSessionStore} {s : Stores} {v : StoreView}

/-- The contents of the database represent the memory store. -/
def Agree (r : RedisSessionStore) (s : Stores) : Prop :=
  ∃ v, r.Holds s.redis v ∧ Represents s.memory v

/-- `UpdateLastActivity` is called for a registered client. -/
def ActivityRegistered (s : Stores) (a : PlainOp) : Prop :=
  match a.op with
  | .updateLastActivity _ clientID => s.memory.isConnected clientID = true
  | _ => True

theorem new_agree (r : RedisSessionStore) : new.Agree r := ⟨_, r.holds_empty, new_represents⟩

theorem Agree.sameAnswers (h : s.Agree r) : s.SameAnswers r := by
  obtain ⟨v, hdb, hrep⟩ := h
  exact hrep.sameAnswers hdb

/-- The stores agree after an operation whose pipeline brings about what memory does. -/
theorem agree_runPipe (hdb : r.Holds s.redis v) {cmds : List StoreCmd} {m : MemorySessionStore}
    (hcmds : RedisSessionStore.AllFitting cmds)
    (hrep : Represents m (cmds.foldl Redis.View.after v)) :
    Agree r ⟨m, (r.runPipe s.redis cmds).1⟩ := by
  obtain ⟨db', hrun, hdb'⟩ := hdb.runPipe hcmds
  exact ⟨_, by rwa [hrun], hrep⟩

theorem step_isSome (r : RedisSessionStore) (s : Stores) (a : PlainOp) :
    ∃ s', step r s a = some s' := by
  obtain ⟨op, ord, hplain⟩ := a
  cases op with
  | setUserAttribute c name value =>
    obtain ⟨document, hstore, -⟩ := PlainAttribute.storageStable hplain
    exact ⟨_, by rw [step, RedisSessionStore.apply, hstore]; rfl⟩
  | _ => exact ⟨_, rfl⟩

/-- The one command of `UpdateLastActivity`. -/
abbrev activityPipe (now : ℤ) (clientID : GoString) : List StoreCmd :=
  [.hset (.conn clientID) [(lit "last_activity", RedisSessionStore.formatTime now)]]

theorem allFitting_activityPipe (now : ℤ) (clientID : GoString) :
    RedisSessionStore.AllFitting (activityPipe now clientID) := by
  simp [RedisSessionStore.AllFitting, Redis.Fitting, StoreKey.isHash]

theorem Agree.step (h : s.Agree r) {a : PlainOp} {s' : Stores} (hstep : s.step r a = some s')
    (ha : s.ActivityRegistered a) : s'.Agree r := by
  obtain ⟨v, hdb, hrep⟩ := h
  obtain ⟨op, ord, hplain⟩ := a
  cases op with
  | registerConnection now c ip =>
    obtain rfl := Option.some.inj hstep
    exact agree_runPipe hdb (r.allFitting_registerPipe now c ip) (hrep.register now c ip r)
  | unregisterConnection c =>
    obtain rfl := Option.some.inj hstep
    rw [hdb.afterReadingRooms]
    exact agree_runPipe hdb (RedisSessionStore.allFitting_unregisterPipe c _)
      (hrep.unregister ord c)
  | updateLastActivity now c =>
    obtain rfl := Option.some.inj hstep
    obtain ⟨conn, hconn⟩ := Option.isSome_iff_exists.mp ha
    exact agree_runPipe hdb (allFitting_activityPipe now c) (hrep.updateLastActivity now hconn)
  | setUserAttribute c name value =>
    obtain ⟨document, hstore, hread⟩ := PlainAttribute.storageStable hplain
    rw [Stores.step, RedisSessionStore.apply, hstore] at hstep
    obtain rfl := Option.some.inj hstep
    refine agree_runPipe hdb ?_ (hrep.setUserAttribute c name hread)
    simp [RedisSessionStore.AllFitting, Redis.Fitting, StoreKey.isHash]
  | deleteUserAttribute c name =>
    obtain rfl := Option.some.inj hstep
    refine agree_runPipe hdb ?_ (hrep.deleteUserAttribute c name)
    simp [RedisSessionStore.AllFitting, Redis.Fitting, StoreKey.isHash]
  | joinRoom room c =>
    obtain rfl := Option.some.inj hstep
    exact agree_runPipe hdb (RedisSessionStore.allFitting_joinRoomPipe room c)
      (hrep.joinRoom room c)
  | leaveRoom room c =>
    obtain rfl := Option.some.inj hstep
    exact agree_runPipe hdb (RedisSessionStore.allFitting_leaveRoomPipe room c)
      (hrep.leaveRoom room c)
  | leaveAllRooms c =>
    obtain rfl := Option.some.inj hstep
    rw [hdb.afterReadingRooms]
    exact agree_runPipe hdb (RedisSessionStore.allFitting_leaveAllRoomsPipe c _)
      (hrep.leaveAllRooms ord c)

/-- The hash that `UpdateLastActivity` writes to is a connection in Redis, so the client
has to be one in memory. -/
theorem Agree.activity_of_sameAnswers (h : s.Agree r) {a : PlainOp} {s' : Stores}
    (hstep : s.step r a = some s') (hsame : s'.SameAnswers r) : s.ActivityRegistered a := by
  obtain ⟨v, hdb, hrep⟩ := h
  obtain ⟨op, ord, hplain⟩ := a
  cases op with
  | updateLastActivity now c =>
    obtain rfl := Option.some.inj hstep
    obtain ⟨db', hrun, hdb'⟩ := hdb.runPipe (allFitting_activityPipe now c)
    have hanswer := hsame.connection c
    simp only [hrun] at hanswer
    rw [hdb'.getConnection] at hanswer
    cases hconn : s.memory.connections.lookup c with
    | some conn => simp [ActivityRegistered, MemorySessionStore.isConnected, hconn]
    | none =>
      simp only [Except.map, MemorySessionStore.apply, MemorySessionStore.updateLastActivity, hconn,
        MemorySessionStore.getConnection, Except.ok.injEq, Option.map_none,
        Option.map_eq_none_iff, RedisSessionStore.connectionOf_eq_none_iff] at hanswer
      have hfield := congrArg (Finmap.lookup (lit "last_activity")) hanswer
      simp [activityPipe, Redis.View.after] at hfield
  | _ => trivial

/-- In every sequence of operations the stores answer alike throughout exactly when
`UpdateLastActivity` is only called for clients that are registered. -/
theorem sameAnswers_throughout_iff (r : RedisSessionStore) (ops : List PlainOp) :
    (∃ s, runFrom (step r) new ops = some s) ∧
      (Throughout (step r) (SameAnswers r) new ops ↔
        Along (step r) ActivityRegistered new ops) := by
  obtain ⟨s, hrun⟩ := exists_run (step_isSome r) new ops
  refine ⟨⟨s, hrun⟩, ?_⟩
  refine throughout_iff_along (I := Agree r) ?_ ?_ (new_agree r) (new_agree r).sameAnswers hrun
  · intro s a s' hI _ hstep
    exact ⟨hI.activity_of_sameAnswers hstep, fun ha => (hI.step hstep ha).sameAnswers⟩
  · intro s a s' hI _ hsame hstep
    exact hI.step hstep (hI.activity_of_sameAnswers hstep hsame)

/-- Activity recorded for a client that has been unregistered, as after a logon that moved
its connection to another id: Redis has a connection again, with no address. -/
theorem activity_after_unregister_differs :
    ∃ s, runFrom (step ⟨lit "fsos", 0⟩) new
        [⟨.registerConnection 0 (lit "tmp") (lit "10.0.0.1"), .sorted (· ≤ ·), trivial⟩,
          ⟨.unregisterConnection (lit "tmp"), .sorted (· ≤ ·), trivial⟩,
          ⟨.updateLastActivity 0 (lit "tmp"), .sorted (· ≤ ·), trivial⟩] = some s ∧
      s.memory.getConnection (lit "tmp") = none ∧
      RedisSessionStore.getConnection ⟨lit "fsos", 0⟩ s.redis (lit "tmp") =
        .ok (some ⟨lit "tmp", [], -62135596800 * 10 ^ 9, 0⟩) ∧
      ¬ s.SameAnswers ⟨lit "fsos", 0⟩ := by
  refine ⟨_, rfl, by decide +kernel, rfl, ?_⟩
  intro hsame
  exact Option.some_ne_none _ (Except.ok.inj (hsame.connection (lit "tmp")))

end Stores

end Musgos.Outbound
