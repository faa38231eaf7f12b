import Musgos.Outbound.SessionStore

/-!
# Sequences of session store operations

`SessionOp` lists the operations of `ports.SessionStore` that change the store;
the queries do not. The memory store keeps rooms in two maps, from a room to its
members and from a client to its rooms, and both are kept in step by hand in
every operation. `Consistent` is what they promise each other after any sequence
of operations, on registered clients or not.
-/
namespace Musgos.Outbound

open Foundation Lingo Domain

/-- The mutating operations. `now` is the clock of the call. -/
inductive SessionOp where
  | registerConnection (now : ℤ) (clientID ip : GoString)
  | unregisterConnection (clientID : GoString)
  | updateLastActivity (now : ℤ) (clientID : GoString)
  | setUserAttribute (clientID attrName : GoString) (value : LValue)
  | deleteUserAttribute (clientID attrName : GoString)
  | joinRoom (roomName clientID : GoString)
  | leaveRoom (roomName clientID : GoString)
  | leaveAllRooms (clientID : GoString)

namespace MemorySessionStore

def apply (m : MemorySessionStore) : SessionOp → MemorySessionStore
  | .registerConnection now clientID ip => m.registerConnection now clientID ip
  | .unregisterConnection clientID => m.unregisterConnection clientID
  | .updateLastActivity now clientID => m.updateLastActivity now clientID
  | .setUserAttribute clientID attrName value => m.setUserAttribute clientID attrName value
  | .deleteUserAttribute clientID attrName => m.deleteUserAttribute clientID attrName
  | .joinRoom roomName clientID => m.joinRoom roomName clientID
  | .leaveRoom roomName clientID => m.leaveRoom roomName clientID
  | .leaveAllRooms clientID => m.leaveAllRooms clientID

/-- The store after a sequence of operations. -/
def applyAll (ops : List SessionOp) (m : MemorySessionStore) : MemorySessionStore :=
  ops.foldl apply m

/-- The room maps mirror each other and no room without members is kept. -/
structure Consistent (m : MemorySessionStore) : Prop where
  mirror : ∀ room client, client ∈ m.members room ↔ room ∈ m.roomsOf client
  occupied : ∀ room members, m.rooms.lookup room = some members → members.Nonempty

/-- Nothing in the store mentions the client. -/
structure Forgets (m : MemorySessionStore) (clientID : GoString) : Prop where
  connection : m.connections.lookup clientID = none
  attributes : m.attributes.lookup clientID = none
  clientRooms : m.clientRooms.lookup clientID = none
  rooms : ∀ room members, m.rooms.lookup room = some members → clientID ∉ members

/-- What the store holds about a client is the same. -/
structure SameFor (clientID : GoString) (m m' : MemorySessionStore) : Prop where
  connection : m'.connections.lookup clientID = m.connections.lookup clientID
  attributes : m'.attributes.lookup clientID = m.attributes.lookup clientID
  clientRooms : m'.clientRooms.lookup clientID = m.clientRooms.lookup clientID
  rooms : ∀ room, clientID ∈ m'.members room ↔ clientID ∈ m.members room

section Consistent

variable {m m' : MemorySessionStore}

theorem new_consistent : new.Consistent := by
  refine ⟨new_roomsMirror, ?_⟩
  intro room members h
  simp [new] at h

theorem Consistent.of_rooms_eq (h : m.Consistent) (hrooms : m'.rooms = m.rooms)
    (hclient : m'.clientRooms = m.clientRooms) : m'.Consistent := by
  refine ⟨?_, ?_⟩
  · intro room client
    simp only [members, roomsOf, hrooms, hclient]
    exact h.mirror room client
  · rw [hrooms]
    exact h.occupied

theorem dropMember_nonempty {clientID : GoString} {s : Option (Finset GoString)}
    {rest : Finset GoString} (h : dropMember clientID s = some rest) : rest.Nonempty := by
  cases s with
  | none => cases h
  | some members =>
    simp only [dropMember] at h
    split_ifs at h with hempty
    obtain rfl := Option.some.inj h
    exact Finset.nonempty_iff_ne_empty.mpr hempty

theorem Consistent.joinRoom (h : m.Consistent) (roomName clientID : GoString) :
    (m.joinRoom roomName clientID).Consistent := by
  refine ⟨RoomsMirror.joinRoom h.mirror roomName clientID, ?_⟩
  intro room members hroom
  simp only [MemorySessionStore.joinRoom, GoMap.lookup_insert_ite] at hroom
  split_ifs at hroom with hname
  · obtain rfl := Option.some.inj hroom
    exact Finset.insert_nonempty _ _
  · exact h.occupied room members hroom

theorem Consistent.leaveRoom (h : m.Consistent) (roomName clientID : GoString) :
    (m.leaveRoom roomName clientID).Consistent := by
  refine ⟨RoomsMirror.leaveRoom h.mirror roomName clientID, ?_⟩
  intro room members hroom
  simp only [MemorySessionStore.leaveRoom, GoMap.lookup_alter] at hroom
  split_ifs at hroom with hname
  · exact dropMember_nonempty hroom
  · exact h.occupied room members hroom

theorem Consistent.leaveAllRooms (h : m.Consistent) (clientID : GoString) :
    (m.leaveAllRooms clientID).Consistent := by
  refine ⟨RoomsMirror.leaveAllRooms h.mirror clientID, ?_⟩
  intro room members hroom
  unfold MemorySessionStore.leaveAllRooms at hroom
  cases hrooms : m.clientRooms.lookup clientID with
  | none =>
    rw [hrooms] at hroom
    exact h.occupied room members hroom
  | some rooms =>
    simp only [hrooms, GoMap.lookup_alterAll] at hroom
    split_ifs at hroom with hin
    · exact dropMember_nonempty hroom
    · exact h.occupied room members hroom

theorem Consistent.apply (h : m.Consistent) (op : SessionOp) : (m.apply op).Consistent := by
  cases op with
  | registerConnection now clientID ip => exact h.of_rooms_eq rfl rfl
  | unregisterConnection clientID =>
    have h' : Consistent { m with
        connections := m.connections.erase clientID
        attributes := m.attributes.erase clientID } := h.of_rooms_eq rfl rfl
    exact h'.leaveAllRooms clientID
  | updateLastActivity now clientID =>
    simp only [MemorySessionStore.apply, updateLastActivity]
    cases m.connections.lookup clientID with
    | none => exact h
    | some conn => exact h.of_rooms_eq rfl rfl
  | setUserAttribute clientID attrName value => exact h.of_rooms_eq rfl rfl
  | deleteUserAttribute clientID attrName => exact h.of_rooms_eq rfl rfl
  | joinRoom roomName clientID => exact h.joinRoom roomName clientID
  | leaveRoom roomName clientID => exact h.leaveRoom roomName clientID
  | leaveAllRooms clientID => exact h.leaveAllRooms clientID

theorem Consistent.applyAll (h : m.Consistent) (ops : List SessionOp) :
    (m.applyAll ops).Consistent := by
  induction ops generalizing m with
  | nil => exact h
  | cons op ops ih => exact ih (h.apply op)

end Consistent

section Unregister

variable {m : MemorySessionStore} (h : m.Consistent) (clientID : GoString)

theorem clientRooms_leaveAllRooms (m : MemorySessionStore) (client : GoString) :
    (m.leaveAllRooms clientID).clientRooms.lookup client =
      if client = clientID then none else m.clientRooms.lookup client := by
  unfold leaveAllRooms
  cases hrooms : m.clientRooms.lookup clientID with
  | none =>
    split_ifs with hclient
    · rw [hclient, hrooms]
    · rfl
  | some rooms => exact GoMap.lookup_erase_ite _ _ _

include h

theorem Consistent.unregister_forgets : (m.unregisterConnection clientID).Forgets clientID := by
  constructor
  case connection => simp
  case attributes => simp
  case clientRooms => simp [unregisterConnection, clientRooms_leaveAllRooms]
  case rooms =>
    intro room members hroom
    have hmembers := members_unregisterConnection m h.mirror clientID room
    simp only [MemorySessionStore.members, hroom, Option.getD_some] at hmembers
    rw [hmembers]
    exact Finset.notMem_erase _ _

theorem Consistent.unregister_sameFor {client : GoString} (hne : client ≠ clientID) :
    SameFor client m (m.unregisterConnection clientID) := by
  constructor
  case connection => simp [hne]
  case attributes => simp [hne]
  case clientRooms => simp [unregisterConnection, clientRooms_leaveAllRooms, hne]
  case rooms =>
    intro room
    rw [members_unregisterConnection m h.mirror, Finset.mem_erase]
    exact and_iff_right hne

end Unregister

/-- After any sequence of operations the room maps mirror each other, no kept room is empty,
and unregistering a client removes every trace of it and of no one else. -/
theorem applyAll_representation (ops : List SessionOp) :
    (new.applyAll ops).Consistent ∧
      ∀ clientID, ((new.applyAll ops).unregisterConnection clientID).Forgets clientID ∧
        ∀ client, client ≠ clientID →
          SameFor client (new.applyAll ops) ((new.applyAll ops).unregisterConnection clientID) := by
  have h : (new.applyAll ops).Consistent := new_consistent.applyAll ops
  refine ⟨h, fun clientID => ⟨h.unregister_forgets clientID, ?_⟩⟩
  intro client hne
  exact h.unregister_sameFor clientID hne

/-- Of two members of a room, the one that stays keeps its place. -/
theorem applyAll_representation_two_members :
    SameFor (lit "bob")
      (new.applyAll [.joinRoom (lit "r") (lit "ann"), .joinRoom (lit "r") (lit "bob")])
      ((new.applyAll [.joinRoom (lit "r") (lit "ann"), .joinRoom (lit "r") (lit "bob")])
        |>.unregisterConnection (lit "ann")) :=
  ((applyAll_representation _).2 (lit "ann")).2 (lit "bob") (by decide)

end MemorySessionStore

end Musgos.Outbound
