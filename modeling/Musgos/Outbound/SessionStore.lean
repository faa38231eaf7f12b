import Musgos.Foundation.GoMap
import Musgos.Domain.Ports

/-!
# The in-memory session store

`MemorySessionStore`: connections, session attributes, and rooms kept as two
maps that mirror each other. Every method holds the store's mutex and is one
atomic step. The slices that `GetRoomMembers`, `GetClientRooms` and
`GetAllConnections` build come in the order in which Go iterates over a map,
which is a parameter of the adapter.
-/
namespace Musgos.Outbound

open Foundation Lingo Domain

/-- The four maps, which the mutex of the store guards together. -/
structure MemorySessionStore where
  connections : GoMap GoString ConnectionInfo
  attributes : GoMap GoString (GoMap GoString LValue)
  rooms : GoMap GoString (Finset GoString)
  clientRooms : GoMap GoString (Finset GoString)

namespace MemorySessionStore

def new : MemorySessionStore := ⟨∅, ∅, ∅, ∅⟩

def registerConnection (now : ℤ) (clientID ip : GoString) (m : MemorySessionStore) :
    MemorySessionStore :=
  { m with connections := m.connections.insert clientID ⟨clientID, ip, now, now⟩ }

/-- `delete(members, clientID)`, and the room with its last member. -/
def dropMember (clientID : GoString) : Option (Finset GoString) → Option (Finset GoString)
  | none => none
  | some members =>
    let rest := members.erase clientID
    if rest = ∅ then none else some rest

/-- The loop of `LeaveAllRooms`, which `UnregisterConnection` repeats. -/
def leaveAllRooms (clientID : GoString) (m : MemorySessionStore) : MemorySessionStore :=
  match m.clientRooms.lookup clientID with
  | none => m
  | some rooms =>
    { m with
      rooms := GoMap.alterAll (dropMember clientID) m.rooms rooms
      clientRooms := m.clientRooms.erase clientID }

def unregisterConnection (clientID : GoString) (m : MemorySessionStore) : MemorySessionStore :=
  leaveAllRooms clientID
    { m with
      connections := m.connections.erase clientID
      attributes := m.attributes.erase clientID }

def getConnection (clientID : GoString) (m : MemorySessionStore) : Option ConnectionInfo :=
  m.connections.lookup clientID

def getAllConnections (ord : RangeOrder GoString) (m : MemorySessionStore) :
    List ConnectionInfo :=
  (ord.keys m.connections.keys).filterMap m.connections.lookup

def updateLastActivity (now : ℤ) (clientID : GoString) (m : MemorySessionStore) :
    MemorySessionStore :=
  match m.connections.lookup clientID with
  | none => m
  | some conn =>
    { m with connections := m.connections.insert clientID { conn with lastActivityAt := now } }

def isConnected (clientID : GoString) (m : MemorySessionStore) : Bool :=
  (m.connections.lookup clientID).isSome

def setUserAttribute (clientID attrName : GoString) (value : LValue) (m : MemorySessionStore) :
    MemorySessionStore :=
  let attrs := (m.attributes.lookup clientID).getD ∅
  { m with attributes := m.attributes.insert clientID (attrs.insert attrName value) }

def getUserAttribute (clientID attrName : GoString) (m : MemorySessionStore) : LValue :=
  match m.attributes.lookup clientID with
  | none => .void
  | some attrs => (attrs.lookup attrName).getD .void

def getUserAttributeNames (ord : RangeOrder GoString) (clientID : GoString)
    (m : MemorySessionStore) : List GoString :=
  match m.attributes.lookup clientID with
  | none => []
  | some attrs => ord.keys attrs.keys

def deleteUserAttribute (clientID attrName : GoString) (m : MemorySessionStore) :
    MemorySessionStore :=
  { m with attributes := GoMap.alter (Option.map (·.erase attrName)) m.attributes clientID }

def joinRoom (roomName clientID : GoString) (m : MemorySessionStore) : MemorySessionStore :=
  { m with
    rooms := m.rooms.insert roomName (insert clientID ((m.rooms.lookup roomName).getD ∅))
    clientRooms := m.clientRooms.insert clientID
      (insert roomName ((m.clientRooms.lookup clientID).getD ∅)) }

def leaveRoom (roomName clientID : GoString) (m : MemorySessionStore) : MemorySessionStore :=
  { m with
    rooms := GoMap.alter (dropMember clientID) m.rooms roomName
    clientRooms := GoMap.alter (Option.map (·.erase roomName)) m.clientRooms clientID }

/-- The members of a room; a room that is not in the map has none. -/
def members (m : MemorySessionStore) (roomName : GoString) : Finset GoString :=
  (m.rooms.lookup roomName).getD ∅

/-- The rooms a client is in. -/
def roomsOf (m : MemorySessionStore) (clientID : GoString) : Finset GoString :=
  (m.clientRooms.lookup clientID).getD ∅

def getRoomMembers (ord : RangeOrder GoString) (roomName : GoString) (m : MemorySessionStore) :
    List GoString :=
  ord.keys (m.members roomName)

def getClientRooms (ord : RangeOrder GoString) (clientID : GoString) (m : MemorySessionStore) :
    List GoString :=
  ord.keys (m.roomsOf clientID)

/-- The store as a port: its operations never fail. -/
def port (ord : RangeOrder GoString) : SessionStore MemorySessionStore where
  registerConnection now clientID ip m := (.ok (), m.registerConnection now clientID ip)
  unregisterConnection clientID m := (.ok (), m.unregisterConnection clientID)
  getConnection clientID m := .ok (m.getConnection clientID)
  getAllConnections m := .ok (m.getAllConnections ord)
  setUserAttribute clientID attrName value m := (.ok (), m.setUserAttribute clientID attrName value)
  getUserAttribute clientID attrName m := .ok (m.getUserAttribute clientID attrName)
  joinRoom roomName clientID m := (.ok (), m.joinRoom roomName clientID)
  leaveRoom roomName clientID m := (.ok (), m.leaveRoom roomName clientID)
  getRoomMembers roomName m := .ok (m.getRoomMembers ord roomName)
  getClientRooms clientID m := .ok (m.getClientRooms ord clientID)
  leaveAllRooms clientID m := (.ok (), m.leaveAllRooms clientID)

section Connections

variable (m : MemorySessionStore)

@[simp] theorem leaveAllRooms_connections (clientID : GoString) :
    (m.leaveAllRooms clientID).connections = m.connections := by
  unfold leaveAllRooms
  split <;> rfl

@[simp] theorem leaveAllRooms_attributes (clientID : GoString) :
    (m.leaveAllRooms clientID).attributes = m.attributes := by
  unfold leaveAllRooms
  split <;> rfl

@[simp] theorem unregisterConnection_connections (clientID : GoString) :
    (m.unregisterConnection clientID).connections = m.connections.erase clientID :=
  leaveAllRooms_connections _ _

@[simp] theorem unregisterConnection_attributes (clientID : GoString) :
    (m.unregisterConnection clientID).attributes = m.attributes.erase clientID :=
  leaveAllRooms_attributes _ _

theorem getUserAttribute_set (clientID attrName c name : GoString) (value : LValue) :
    (m.setUserAttribute clientID attrName value).getUserAttribute c name =
      if c = clientID ∧ name = attrName then value else m.getUserAttribute c name := by
  by_cases hc : c = clientID
  · subst hc
    cases hattrs : m.attributes.lookup c <;> by_cases hname : name = attrName <;>
      simp [setUserAttribute, getUserAttribute, hattrs, hname]
  · simp [setUserAttribute, getUserAttribute, hc]

theorem getUserAttribute_unregister (clientID c name : GoString) :
    (m.unregisterConnection clientID).getUserAttribute c name =
      if c = clientID then .void else m.getUserAttribute c name := by
  by_cases hc : c = clientID <;> simp [getUserAttribute, hc]

end Connections

section Rooms

variable (m : MemorySessionStore)

/-- The two room maps mirror each other. -/
def RoomsMirror : Prop := ∀ room client, client ∈ m.members room ↔ room ∈ m.roomsOf client

theorem new_roomsMirror : new.RoomsMirror := fun room client => by simp [members, roomsOf, new]

theorem getD_dropMember (clientID : GoString) (s : Option (Finset GoString)) :
    (dropMember clientID s).getD ∅ = (s.getD ∅).erase clientID := by
  cases s with
  | none => simp [dropMember]
  | some members =>
    simp only [dropMember, Option.getD_some]
    split_ifs with hempty
    · rw [hempty]
      rfl
    · rfl

@[simp] theorem members_joinRoom (roomName clientID room : GoString) :
    (m.joinRoom roomName clientID).members room =
      if room = roomName then insert clientID (m.members room) else m.members room := by
  by_cases h : room = roomName
  · subst h
    simp [members, joinRoom]
  · simp [members, joinRoom, h]

@[simp] theorem roomsOf_joinRoom (roomName clientID client : GoString) :
    (m.joinRoom roomName clientID).roomsOf client =
      if client = clientID then insert roomName (m.roomsOf client) else m.roomsOf client := by
  by_cases h : client = clientID
  · subst h
    simp [roomsOf, joinRoom]
  · simp [roomsOf, joinRoom, h]

@[simp] theorem members_leaveRoom (roomName clientID room : GoString) :
    (m.leaveRoom roomName clientID).members room =
      if room = roomName then (m.members room).erase clientID else m.members room := by
  by_cases h : room = roomName
  · subst h
    simp [members, leaveRoom, getD_dropMember]
  · simp [members, leaveRoom, h]

@[simp] theorem roomsOf_leaveRoom (roomName clientID client : GoString) :
    (m.leaveRoom roomName clientID).roomsOf client =
      if client = clientID then (m.roomsOf client).erase roomName else m.roomsOf client := by
  by_cases h : client = clientID
  · subst h
    cases hrooms : m.clientRooms.lookup client <;> simp [roomsOf, leaveRoom, hrooms]
  · simp [roomsOf, leaveRoom, h]

@[simp] theorem roomsOf_leaveAllRooms (clientID client : GoString) :
    (m.leaveAllRooms clientID).roomsOf client =
      if client = clientID then ∅ else m.roomsOf client := by
  unfold leaveAllRooms
  cases hrooms : m.clientRooms.lookup clientID with
  | none =>
    by_cases h : client = clientID
    · subst h
      simp [roomsOf, hrooms]
    · simp [h]
  | some rooms => by_cases h : client = clientID <;> simp [roomsOf, h]

theorem members_leaveAllRooms_ite (clientID room : GoString) :
    (m.leaveAllRooms clientID).members room =
      if room ∈ m.roomsOf clientID then (m.members room).erase clientID else m.members room := by
  unfold leaveAllRooms
  cases hrooms : m.clientRooms.lookup clientID with
  | none => simp [roomsOf, hrooms]
  | some rooms =>
    by_cases hin : room ∈ rooms <;> simp [members, roomsOf, hrooms, hin, getD_dropMember]

theorem members_leaveAllRooms (hmirror : m.RoomsMirror) (clientID room : GoString) :
    (m.leaveAllRooms clientID).members room = (m.members room).erase clientID := by
  rw [members_leaveAllRooms_ite]
  split_ifs with hroom
  · rfl
  · exact (Finset.erase_eq_of_notMem fun hmem => hroom ((hmirror room clientID).mp hmem)).symm

theorem members_unregisterConnection (hmirror : m.RoomsMirror) (clientID room : GoString) :
    (m.unregisterConnection clientID).members room = (m.members room).erase clientID := by
  have hmirror' : RoomsMirror { m with
      connections := m.connections.erase clientID
      attributes := m.attributes.erase clientID } := hmirror
  exact members_leaveAllRooms _ hmirror' clientID room

@[simp] theorem roomsOf_unregisterConnection (clientID client : GoString) :
    (m.unregisterConnection clientID).roomsOf client =
      if client = clientID then ∅ else m.roomsOf client :=
  roomsOf_leaveAllRooms _ clientID client

variable {m}

theorem RoomsMirror.joinRoom (h : m.RoomsMirror) (roomName clientID : GoString) :
    (m.joinRoom roomName clientID).RoomsMirror := by
  intro room client
  rw [members_joinRoom, roomsOf_joinRoom]
  by_cases hroom : room = roomName <;> by_cases hclient : client = clientID <;>
    simp [hroom, hclient, h room client, ← h roomName client, ← h room clientID]

theorem RoomsMirror.leaveRoom (h : m.RoomsMirror) (roomName clientID : GoString) :
    (m.leaveRoom roomName clientID).RoomsMirror := by
  intro room client
  rw [members_leaveRoom, roomsOf_leaveRoom]
  by_cases hroom : room = roomName <;> by_cases hclient : client = clientID <;>
    simp [hroom, hclient, h room client, ← h roomName client, ← h room clientID]

theorem RoomsMirror.leaveAllRooms (h : m.RoomsMirror) (clientID : GoString) :
    (m.leaveAllRooms clientID).RoomsMirror := by
  intro room client
  rw [members_leaveAllRooms m h, roomsOf_leaveAllRooms]
  by_cases hclient : client = clientID <;> simp [hclient, h room client]

theorem RoomsMirror.unregisterConnection (h : m.RoomsMirror) (clientID : GoString) :
    (m.unregisterConnection clientID).RoomsMirror := by
  intro room client
  rw [members_unregisterConnection m h, roomsOf_unregisterConnection]
  by_cases hclient : client = clientID <;> simp [hclient, h room client]

end Rooms

end MemorySessionStore

end Musgos.Outbound
