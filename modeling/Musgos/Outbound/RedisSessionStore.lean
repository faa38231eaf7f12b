import Musgos.Foundation.Redis
import Musgos.Lingo.Codec
import Musgos.Outbound.SessionOps

/-!
# The Redis session store

`RedisSessionStore` over the Redis server of `Foundation.Redis`: a hash per
connection and per client's attributes, the set of connected clients, a set of
members per room and a set of rooms per client. An operation is a pipeline of
commands; `UnregisterConnection` and `LeaveAllRooms` read the client's rooms
first and build the pipeline from what they read.
-/
namespace Musgos.Outbound

open Foundation Lingo Domain

/-- What a hash field holds: a text, a time written with seconds, or a stored value. -/
inductive SessionField where
  | text (value : GoString)
  | time (seconds : ℤ)
  | json (document : StoredLValue)
  deriving DecidableEq

abbrev SessionDb := Redis GoString GoString SessionField

/-- Why a call of the store fails. -/
inductive SessionError where
  | redis (e : RedisError)
  | marshal (e : MarshalError)
  | unmarshal (e : UnmarshalError)
  /-- The field is no JSON document. -/
  | notJson
  deriving DecidableEq

/-- The keys the store uses, by what they hold. -/
inductive StoreKey where
  | conn (clientID : GoString)
  | conns
  | attr (clientID : GoString)
  | room (roomName : GoString)
  | rooms (clientID : GoString)
  deriving DecidableEq

/-- Connections and attributes are hashes, everything else is a set. -/
def StoreKey.isHash : StoreKey → Bool
  | .conn _ | .attr _ => true
  | .conns | .room _ | .rooms _ => false

/-- A command on one of the store's keys; it is sent under the key's name. -/
abbrev StoreCmd := RedisCmd StoreKey GoString SessionField

/-- What the store's keys hold. -/
abbrev StoreView := Redis.View StoreKey GoString SessionField

/-- The settings of the store. Its content is on the server. -/
structure RedisSessionStore where
  keyPrefix : GoString
  /-- In nanoseconds; no expiry unless positive. -/
  connTTL : ℤ

namespace RedisSessionStore

variable (r : RedisSessionStore)

section Keys

def key : StoreKey → GoString
  | .conn clientID => r.keyPrefix ++ (lit ":conn:" ++ clientID)
  | .conns => r.keyPrefix ++ lit ":conns"
  | .attr clientID => r.keyPrefix ++ (lit ":attr:" ++ clientID)
  | .room roomName => r.keyPrefix ++ (lit ":room:" ++ roomName)
  | .rooms clientID => r.keyPrefix ++ (lit ":rooms:" ++ clientID)

abbrev connKey (clientID : GoString) : GoString := r.key (.conn clientID)
abbrev connsKey : GoString := r.key .conns
abbrev attrKey (clientID : GoString) : GoString := r.key (.attr clientID)
abbrev roomKey (roomName : GoString) : GoString := r.key (.room roomName)
abbrev clientRoomsKey (clientID : GoString) : GoString := r.key (.rooms clientID)

/-- No two keys collide, whatever bytes names and prefix are made of. -/
theorem key_injective : Function.Injective r.key := by
  have hconn : lit ":conn:" = [58, 99, 111, 110, 110, 58] := by decide
  have hconns : lit ":conns" = [58, 99, 111, 110, 110, 115] := by decide
  have hattr : lit ":attr:" = [58, 97, 116, 116, 114, 58] := by decide
  have hroom : lit ":room:" = [58, 114, 111, 111, 109, 58] := by decide
  have hrooms : lit ":rooms:" = [58, 114, 111, 111, 109, 115, 58] := by decide
  intro a b h
  cases a <;> cases b <;> simp_all [key]

@[simp] theorem key_inj {a b : StoreKey} : r.key a = r.key b ↔ a = b := r.key_injective.eq_iff

end Keys

section Operations

/-- `Format(time.RFC3339)` of a time in nanoseconds. -/
def formatTime (now : ℤ) : SessionField := .time (now / 10 ^ 9)

def registerPipe (now : ℤ) (clientID ip : GoString) : List StoreCmd :=
  .hset (.conn clientID) [(lit "ip", .text ip), (lit "connected_at", formatTime now),
      (lit "last_activity", formatTime now)] ::
    ((if 0 < r.connTTL then [.expire (.conn clientID) (now + r.connTTL)] else []) ++
      [.sadd .conns clientID])

def unregisterPipe (clientID : GoString) (rooms : List GoString) : List StoreCmd :=
  [.del (.conn clientID), .del (.attr clientID), .del (.rooms clientID), .srem .conns clientID] ++
    rooms.map fun room => .srem (.room room) clientID

def joinRoomPipe (roomName clientID : GoString) : List StoreCmd :=
  [.sadd (.room roomName) clientID, .sadd (.rooms clientID) roomName]

def leaveRoomPipe (roomName clientID : GoString) : List StoreCmd :=
  [.srem (.room roomName) clientID, .srem (.rooms clientID) roomName]

def leaveAllRoomsPipe (clientID : GoString) (rooms : List GoString) : List StoreCmd :=
  (rooms.map fun room => .srem (.room room) clientID) ++ [.del (.rooms clientID)]

/-- A pipeline as an operation: the database afterwards and the error it returns. -/
def runPipe (db : SessionDb) (cmds : List StoreCmd) : SessionDb × Option SessionError :=
  let result := db.pipeline (cmds.map (·.mapKey r.key))
  (result.1, result.2.map .redis)

/-- `SMEMBERS` of the client's rooms, and the pipeline built from the answer. -/
def afterReadingRooms (ord : RangeOrder GoString) (clientID : GoString)
    (pipe : List GoString → List StoreCmd) (db : SessionDb) : SessionDb × Option SessionError :=
  match db.setAt (r.clientRoomsKey clientID) with
  | .error e => (db, some (.redis e))
  | .ok rooms => r.runPipe db (pipe (ord.keys rooms))

/-- The mutating operations; the outer `none` is a panic while a value is stored. -/
def apply (ord : RangeOrder GoString) (db : SessionDb) :
    SessionOp → Option (SessionDb × Option SessionError)
  | .registerConnection now clientID ip => some (r.runPipe db (r.registerPipe now clientID ip))
  | .unregisterConnection clientID =>
    some (r.afterReadingRooms ord clientID (unregisterPipe clientID) db)
  | .updateLastActivity now clientID =>
    some (r.runPipe db [.hset (.conn clientID) [(lit "last_activity", formatTime now)]])
  | .setUserAttribute clientID attrName value => do
    match ← value.marshalLValue with
    | .error e => return (db, some (.marshal e))
    | .ok data => return r.runPipe db [.hset (.attr clientID) [(attrName, .json data)]]
  | .deleteUserAttribute clientID attrName =>
    some (r.runPipe db [.hdel (.attr clientID) attrName])
  | .joinRoom roomName clientID => some (r.runPipe db (joinRoomPipe roomName clientID))
  | .leaveRoom roomName clientID => some (r.runPipe db (leaveRoomPipe roomName clientID))
  | .leaveAllRooms clientID =>
    some (r.afterReadingRooms ord clientID (leaveAllRoomsPipe clientID) db)

end Operations

section Queries

variable (ord : RangeOrder GoString) (db : SessionDb)

/-- `result["…"]` of a text field; a missing one reads as empty. -/
def textField (result : GoMap GoString SessionField) (name : GoString) : GoString :=
  match result.lookup name with
  | some (.text s) => s
  | _ => []

/-- `time.Parse` of a field, with the error ignored: the zero time is 1 January of year 1. -/
def timeField (result : GoMap GoString SessionField) (name : GoString) : ℤ :=
  match result.lookup name with
  | some (.time t) => t * 10 ^ 9
  | _ => -62135596800 * 10 ^ 9

/-- The connection a hash stands for. -/
def connectionOf (clientID : GoString) (result : GoMap GoString SessionField) :
    Option ConnectionInfo :=
  if result.keys = ∅ then none
  else some ⟨clientID, textField result (lit "ip"), timeField result (lit "connected_at"),
    timeField result (lit "last_activity")⟩

def getConnection (clientID : GoString) : Except RedisError (Option ConnectionInfo) := do
  return connectionOf clientID (← db.hashAt (r.connKey clientID))

/-- The connected clients whose hash is there. -/
def getAllConnections : Except RedisError (List ConnectionInfo) := do
  let clientIDs ← db.setAt r.connsKey
  let conns ← (ord.keys clientIDs).mapM fun id => r.getConnection db id
  return conns.filterMap id

def isConnected (clientID : GoString) : Except RedisError Bool := do
  return decide (clientID ∈ (← db.setAt r.connsKey))

/-- The value a field stands for; an absent one (`redis.Nil`) is void. The outer `none` is a
panic while the value is read. -/
def readAttribute : Option SessionField → Option (Except SessionError LValue)
  | none => some (.ok .void)
  | some (.json document) => do return (← LValue.unmarshalLValue document).mapError .unmarshal
  | some _ => some (.error .notJson)

def getUserAttribute (clientID attrName : GoString) : Option (Except SessionError LValue) :=
  match db.hashAt (r.attrKey clientID) with
  | .error e => some (.error (.redis e))
  | .ok attrs => readAttribute (attrs.lookup attrName)

def getUserAttributeNames (clientID : GoString) : Except RedisError (List GoString) := do
  return ord.keys (← db.hashAt (r.attrKey clientID)).keys

def getRoomMembers (roomName : GoString) : Except RedisError (List GoString) := do
  return ord.keys (← db.setAt (r.roomKey roomName))

def getClientRooms (clientID : GoString) : Except RedisError (List GoString) := do
  return ord.keys (← db.setAt (r.clientRoomsKey clientID))

end Queries

section Contents

/-- The database has these contents under the store's keys. -/
abbrev Holds (db : SessionDb) (v : StoreView) : Prop := Redis.Shows r.key StoreKey.isHash db v

theorem holds_empty : r.Holds Redis.empty ⟨fun _ => ∅, fun _ => ∅⟩ :=
  ⟨fun _ _ => rfl, fun _ _ => rfl⟩

/-- Every command is used on a key of its kind. -/
abbrev AllFitting (cmds : List StoreCmd) : Prop :=
  ∀ cmd ∈ cmds, Redis.Fitting StoreKey.isHash cmd

theorem allFitting_registerPipe (now : ℤ) (clientID ip : GoString) :
    AllFitting (r.registerPipe now clientID ip) := by
  unfold registerPipe
  split_ifs <;> simp [AllFitting, Redis.Fitting, StoreKey.isHash]

theorem allFitting_unregisterPipe (clientID : GoString) (rooms : List GoString) :
    AllFitting (unregisterPipe clientID rooms) := by
  simp [AllFitting, unregisterPipe, Redis.Fitting, StoreKey.isHash]

theorem allFitting_joinRoomPipe (roomName clientID : GoString) :
    AllFitting (joinRoomPipe roomName clientID) := by
  simp [AllFitting, joinRoomPipe, Redis.Fitting, StoreKey.isHash]

theorem allFitting_leaveRoomPipe (roomName clientID : GoString) :
    AllFitting (leaveRoomPipe roomName clientID) := by
  simp [AllFitting, leaveRoomPipe, Redis.Fitting, StoreKey.isHash]

theorem allFitting_leaveAllRoomsPipe (clientID : GoString) (rooms : List GoString) :
    AllFitting (leaveAllRoomsPipe clientID rooms) := by
  rw [AllFitting, leaveAllRoomsPipe, List.forall_mem_append]
  simp [Redis.Fitting, StoreKey.isHash]

variable {r} {db : SessionDb} {v : StoreView}

theorem Holds.runPipe (h : r.Holds db v) {cmds : List StoreCmd}
    (hcmds : AllFitting cmds) :
    ∃ db', r.runPipe db cmds = (db', none) ∧ r.Holds db' (cmds.foldl Redis.View.after v) := by
  obtain ⟨db', hrun, h'⟩ := Redis.Shows.pipeline r.key_injective hcmds h
  exact ⟨db', by rw [RedisSessionStore.runPipe, hrun]; rfl, h'⟩

theorem Holds.afterReadingRooms (h : r.Holds db v) (ord : RangeOrder GoString)
    (clientID : GoString) (pipe : List GoString → List StoreCmd) :
    r.afterReadingRooms ord clientID pipe db =
      r.runPipe db (pipe (ord.keys (v.sets (.rooms clientID)))) := by
  rw [RedisSessionStore.afterReadingRooms, h.set (.rooms clientID) rfl]

theorem connectionOf_eq_none_iff {clientID : GoString} {result : GoMap GoString SessionField} :
    connectionOf clientID result = none ↔ result = ∅ := by
  rw [← GoMap.keys_eq_empty_iff, connectionOf]
  split_ifs with hkeys <;> simp [hkeys]

theorem Holds.getConnection (h : r.Holds db v) (clientID : GoString) :
    r.getConnection db clientID = .ok (connectionOf clientID (v.hashes (.conn clientID))) := by
  rw [RedisSessionStore.getConnection, h.hash (.conn clientID) rfl]
  rfl

theorem Holds.getAllConnections (h : r.Holds db v) (ord : RangeOrder GoString) :
    r.getAllConnections ord db = .ok ((ord.keys (v.sets .conns)).filterMap fun id =>
      connectionOf id (v.hashes (.conn id))) := by
  have hread : (fun id => r.getConnection db id) =
      fun id => pure (connectionOf id (v.hashes (.conn id))) := funext h.getConnection
  rw [RedisSessionStore.getAllConnections, h.set .conns rfl, hread]
  simp [List.filterMap_map]

end Contents

end RedisSessionStore

end Musgos.Outbound
