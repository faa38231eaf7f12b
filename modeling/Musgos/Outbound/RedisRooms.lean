import Musgos.Foundation.Transition
import Musgos.Outbound.RedisSessionStore

/-!
# Concurrent calls on the room index of the Redis store

Any number of goroutines and server instances call `JoinRoom`, `LeaveRoom`,
`LeaveAllRooms` and `UnregisterConnection` on one database. The commands of a
pipeline reach Redis in order, but those of other calls may come in between, and
the two calls that start with `SMEMBERS` build their pipeline from what they read
then. A step of the system is the start of a call, its read, one command of its
pipeline, or its return.
-/
namespace Musgos.Outbound

open Foundation Lingo Domain

/-- The calls that change the rooms. -/
inductive RoomCall where
  | joinRoom (roomName clientID : GoString)
  | leaveRoom (roomName clientID : GoString)
  | leaveAllRooms (clientID : GoString)
  | unregisterConnection (clientID : GoString)
  deriving DecidableEq

namespace RoomCall

def clientID : RoomCall → GoString
  | .joinRoom _ clientID | .leaveRoom _ clientID => clientID
  | .leaveAllRooms clientID | .unregisterConnection clientID => clientID

/-- The one room the call is about; `none` for all rooms of the client. -/
def room : RoomCall → Option GoString
  | .joinRoom roomName _ | .leaveRoom roomName _ => some roomName
  | .leaveAllRooms _ | .unregisterConnection _ => none

/-- The call puts the client into a room; the others take it out. -/
def adds : RoomCall → Bool
  | .joinRoom .. => true
  | _ => false

/-- The call may change whether the client is in the room. -/
def Covers (call : RoomCall) (roomName client : GoString) : Prop :=
  call.clientID = client ∧ ∀ r ∈ call.room, r = roomName

/-- One of the calls puts a client into a room that the other may take it out of. -/
def conflicts (a b : RoomCall) : Bool :=
  a.adds != b.adds && decide (a.clientID = b.clientID) &&
    decide (∀ r ∈ a.room, ∀ r' ∈ b.room, r = r')

/-- The pipeline, given the rooms that were read; the first two calls read nothing. -/
def pipe : RoomCall → List GoString → List StoreCmd
  | .joinRoom roomName clientID, _ => RedisSessionStore.joinRoomPipe roomName clientID
  | .leaveRoom roomName clientID, _ => RedisSessionStore.leaveRoomPipe roomName clientID
  | .leaveAllRooms clientID, rooms => RedisSessionStore.leaveAllRoomsPipe clientID rooms
  | .unregisterConnection clientID, rooms => RedisSessionStore.unregisterPipe clientID rooms

/-- What is left to send when the call starts; `none` if it first has to read. -/
def initialTodo (call : RoomCall) : Option (List StoreCmd) :=
  if call.room.isSome then some (call.pipe []) else none

end RoomCall

/-- A call and the commands it still has to send. -/
structure PendingCall where
  call : RoomCall
  /-- The commands not sent yet, or `none` before `SMEMBERS`. -/
  todo : Option (List StoreCmd)

namespace PendingCall

/-- The next command is the first one of the call. -/
def begins (p : PendingCall) : Bool :=
  match p.todo with
  | none => true
  | some (_ :: _ :: _) => p.call.room.isSome
  | _ => false

/-- The call has sent its first command and not its last. -/
def underWay (p : PendingCall) : Bool :=
  match p.todo with
  | none => false
  | some [] => false
  | some (_ :: rest) => p.call.room.isNone || rest.isEmpty

theorem begins_or_underWay (call : RoomCall) (cmd : StoreCmd) (rest : List StoreCmd) :
    (⟨call, some (cmd :: rest)⟩ : PendingCall).begins = true ∨
      (⟨call, some (cmd :: rest)⟩ : PendingCall).underWay = true := by
  cases rest <;> cases hroom : call.room <;> simp [begins, underWay, hroom]

theorem not_underWay_initialTodo (call : RoomCall) :
    (⟨call, call.initialTodo⟩ : PendingCall).underWay = false := by
  cases call <;> rfl

end PendingCall

/-- The server and the pending calls. -/
structure RoomSystem where
  db : SessionDb
  calls : GoMap ℕ PendingCall

/-- A call starts, reads the rooms of its client or sends its next command. -/
inductive RoomAction where
  | start (id : ℕ) (call : RoomCall)
  | read (id : ℕ) (ord : RangeOrder GoString)
  | exec (id : ℕ)

namespace RoomSystem

def init : RoomSystem := ⟨.empty, ∅⟩

def step (r : RedisSessionStore) (s : RoomSystem) : RoomAction → Option RoomSystem
  | .start id call =>
    if id ∈ s.calls then none
    else some { s with calls := s.calls.insert id ⟨call, call.initialTodo⟩ }
  | .read id ord =>
    match s.calls.lookup id with
    | some ⟨call, none⟩ =>
      match s.db.setAt (r.clientRoomsKey call.clientID) with
      | .ok rooms =>
        some { s with calls := s.calls.insert id ⟨call, some (call.pipe (ord.keys rooms))⟩ }
      | .error _ => some { s with calls := s.calls.erase id }
    | _ => none
  | .exec id =>
    match s.calls.lookup id with
    | some ⟨call, some (cmd :: rest)⟩ =>
      some ⟨s.db.after (cmd.mapKey r.key), s.calls.insert id ⟨call, some rest⟩⟩
    -- the pipeline is through and the call returns
    | some ⟨_, some []⟩ => some { s with calls := s.calls.erase id }
    | _ => none

/-- A client is in the set of a room if and only if the room is in the client's set. -/
def Symmetric (r : RedisSessionStore) (s : RoomSystem) : Prop :=
  ∀ roomName client, ∃ members rooms, s.db.setAt (r.roomKey roomName) = .ok members ∧
    s.db.setAt (r.clientRoomsKey client) = .ok rooms ∧ (client ∈ members ↔ roomName ∈ rooms)

/-- No call that conflicts with this one has sent its first command and not its last. -/
def free (s : RoomSystem) (call : RoomCall) : Bool :=
  decide (∀ id ∈ s.calls.keys, (s.calls.lookup id).all fun p =>
    !(p.underWay && p.call.conflicts call))

/-- A call only sends its first command while none is under way that conflicts with it. -/
def separate (s : RoomSystem) : RoomAction → Bool
  | .start _ _ => true
  | .read id _ | .exec id => (s.calls.lookup id).all fun p => !p.begins || s.free p.call

end RoomSystem

section Index

/-- The room's set holds the client. -/
def InRoom (v : StoreView) (room client : GoString) : Prop := client ∈ v.sets (.room room)

/-- The client's set holds the room. -/
def Listed (v : StoreView) (room client : GoString) : Prop := room ∈ v.sets (.rooms client)

variable (v : StoreView) (r c room client : GoString)

@[simp] theorem inRoom_sadd_room : InRoom (v.after (.sadd (.room r) c)) room client ↔
    (room = r ∧ client = c) ∨ InRoom v room client := by
  by_cases h : room = r <;> simp [InRoom, Redis.View.after, h]

@[simp] theorem inRoom_srem_room : InRoom (v.after (.srem (.room r) c)) room client ↔
    ¬ (room = r ∧ client = c) ∧ InRoom v room client := by
  by_cases h : room = r <;> simp [InRoom, Redis.View.after, h]

@[simp] theorem listed_sadd_rooms : Listed (v.after (.sadd (.rooms c) r)) room client ↔
    (room = r ∧ client = c) ∨ Listed v room client := by
  by_cases h : client = c <;> simp [Listed, Redis.View.after, h]

@[simp] theorem listed_srem_rooms : Listed (v.after (.srem (.rooms c) r)) room client ↔
    ¬ (room = r ∧ client = c) ∧ Listed v room client := by
  by_cases h : client = c <;> simp [Listed, Redis.View.after, h]

@[simp] theorem listed_del_rooms : Listed (v.after (.del (.rooms c))) room client ↔
    client ≠ c ∧ Listed v room client := by
  by_cases h : client = c <;> simp [Listed, Redis.View.after, h]

-- a command on another key leaves the set alone

@[simp] theorem inRoom_after_of_ne {cmd : StoreCmd} (h : ¬ .room room = cmd.key) :
    InRoom (v.after cmd) room client ↔ InRoom v room client := by
  rw [InRoom, v.sets_after_of_ne h, InRoom]

@[simp] theorem listed_after_of_ne {cmd : StoreCmd} (h : ¬ .rooms client = cmd.key) :
    Listed (v.after cmd) room client ↔ Listed v room client := by
  rw [Listed, v.sets_after_of_ne h, Listed]

end Index

namespace RoomCall

variable {call : RoomCall} {cmd : StoreCmd}

/-- The commands a call may send. -/
def Sends : RoomCall → StoreCmd → Prop
  | .joinRoom r c, cmd => cmd = .sadd (.room r) c ∨ cmd = .sadd (.rooms c) r
  | .leaveRoom r c, cmd => cmd = .srem (.room r) c ∨ cmd = .srem (.rooms c) r
  | .leaveAllRooms c, cmd => cmd = .del (.rooms c) ∨ ∃ r, cmd = .srem (.room r) c
  | .unregisterConnection c, cmd => cmd = .del (.conn c) ∨ cmd = .del (.attr c) ∨
      cmd = .del (.rooms c) ∨ cmd = .srem .conns c ∨ ∃ r, cmd = .srem (.room r) c

theorem Sends.fitting (h : call.Sends cmd) : Redis.Fitting StoreKey.isHash cmd := by
  cases call with
  | joinRoom r c => obtain rfl | rfl := h <;> rfl
  | leaveRoom r c => obtain rfl | rfl := h <;> rfl
  | leaveAllRooms c => obtain rfl | ⟨r, rfl⟩ := h <;> trivial
  | unregisterConnection c => obtain rfl | rfl | rfl | rfl | ⟨r, rfl⟩ := h <;> trivial

/-- What one command of a call can do to the index. -/
structure Affects (call : RoomCall) (v v' : StoreView) : Prop where
  elsewhere : ∀ room client, ¬ call.Covers room client →
    (InRoom v' room client ↔ InRoom v room client) ∧ (Listed v' room client ↔ Listed v room client)
  grows : call.adds = true → ∀ room client,
    (InRoom v room client → InRoom v' room client) ∧ (Listed v room client → Listed v' room client)
  shrinks : call.adds = false → ∀ room client,
    (InRoom v' room client → InRoom v room client) ∧ (Listed v' room client → Listed v room client)

theorem Sends.affects (h : call.Sends cmd) (v : StoreView) : call.Affects v (v.after cmd) := by
  cases call with
  | joinRoom r c =>
    obtain rfl | rfl := h <;> constructor <;> simp [adds, Covers, clientID, room] <;> grind
  | leaveRoom r c =>
    obtain rfl | rfl := h <;> constructor <;> simp [adds, Covers, clientID, room] <;> grind
  | leaveAllRooms c =>
    obtain rfl | ⟨r, rfl⟩ := h <;> constructor <;> simp [adds, Covers, clientID, room] <;> grind
  | unregisterConnection c =>
    obtain rfl | rfl | rfl | rfl | ⟨r, rfl⟩ := h <;> constructor <;>
      simp [adds, Covers, clientID, room] <;> grind

theorem conflicts_self (call : RoomCall) : call.conflicts call = false := by simp [conflicts]

theorem conflicts_comm (a b : RoomCall) : a.conflicts b = b.conflicts a := by
  have hrooms : (∀ r ∈ a.room, ∀ r' ∈ b.room, r = r') ↔ ∀ r ∈ b.room, ∀ r' ∈ a.room, r = r' :=
    ⟨fun h r hr r' hr' => (h r' hr' r hr).symm, fun h r hr r' hr' => (h r' hr' r hr).symm⟩
  simp only [conflicts, hrooms, eq_comm, bne_comm]

theorem not_covers_of_not_conflicts {a b : RoomCall} (h : a.conflicts b = false)
    (hadds : a.adds ≠ b.adds) {room client : GoString} (hb : b.Covers room client) :
    ¬ a.Covers room client := by
  intro ha
  have hclient : a.clientID = b.clientID := ha.1.trans hb.1.symm
  have hroom : ∀ r ∈ a.room, ∀ r' ∈ b.room, r = r' := fun r hr r' hr' =>
    (ha.2 r hr).trans (hb.2 r' hr').symm
  rw [conflicts, decide_eq_true hclient, decide_eq_true hroom] at h
  simp [hadds] at h

theorem adds_of_room_eq_none (h : call.room = none) : call.adds = false := by
  cases call <;> first | rfl | cases h

section Affects

variable {other : RoomCall} {v v' : StoreView} {room client : GoString}

theorem Affects.keeps (h : other.Affects v v') (hother : other.conflicts call = false)
    (hadds : call.adds = true) (hcovers : call.Covers room client) (hin : InRoom v room client) :
    InRoom v' room client := by
  cases hadds' : other.adds with
  | true => exact (h.grows hadds' room client).1 hin
  | false =>
    have hne : other.adds ≠ call.adds := by rw [hadds, hadds']; exact Bool.false_ne_true
    exact (h.elsewhere room client (not_covers_of_not_conflicts hother hne hcovers)).1.mpr hin

theorem Affects.keeps_out (h : other.Affects v v') (hother : other.conflicts call = false)
    (hadds : call.adds = false) (hcovers : call.Covers room client) :
    (InRoom v' room client → InRoom v room client) ∧
      (Listed v' room client → Listed v room client) := by
  cases hadds' : other.adds with
  | true =>
    have hne : other.adds ≠ call.adds := by rw [hadds, hadds']; exact Bool.false_ne_true.symm
    have hsame := h.elsewhere room client (not_covers_of_not_conflicts hother hne hcovers)
    exact ⟨hsame.1.mp, hsame.2.mp⟩
  | false => exact h.shrinks hadds' room client

end Affects

/-- How far a pending call has come, by the commands left to send. The two calls that clear
all rooms share one invariant: as long as a room is listed the deletion is to come, and as
long as the client is also in it so is its removal from there. -/
inductive Progress (v : StoreView) : RoomCall → List StoreCmd → Prop
  | entering (r c : GoString) : Progress v (.joinRoom r c) (RedisSessionStore.joinRoomPipe r c)
  | enlisting (r c : GoString) (entered : InRoom v r c) :
      Progress v (.joinRoom r c) [.sadd (.rooms c) r]
  | leaving (r c : GoString) : Progress v (.leaveRoom r c) (RedisSessionStore.leaveRoomPipe r c)
  | delisting (r c : GoString) (gone : ¬ InRoom v r c) :
      Progress v (.leaveRoom r c) [.srem (.rooms c) r]
  | done (call : RoomCall) : Progress v call []
  | clearing (call : RoomCall) (cmds : List StoreCmd) (all : call.room = none)
      (sends : ∀ cmd ∈ cmds, call.Sends cmd)
      (removes : ∀ room, InRoom v room call.clientID → Listed v room call.clientID →
        .srem (.room room) call.clientID ∈ cmds)
      (deletes : ∀ room, Listed v room call.clientID → .del (.rooms call.clientID) ∈ cmds) :
      Progress v call cmds

section Progress

variable {v v' : StoreView} {cmds rest : List StoreCmd} {room client : GoString}

theorem progress_pipe {rooms : List GoString}
    (h : call.room = none → ∀ r, Listed v r call.clientID → r ∈ rooms) :
    Progress v call (call.pipe rooms) := by
  cases call with
  | joinRoom r c => exact .entering r c
  | leaveRoom r c => exact .leaving r c
  | leaveAllRooms c =>
    refine .clearing _ _ rfl ?_ ?_ ?_
    · intro cmd hcmd
      rw [pipe, RedisSessionStore.leaveAllRoomsPipe, List.mem_append, List.mem_map,
        List.mem_singleton] at hcmd
      obtain ⟨r, -, rfl⟩ | rfl := hcmd
      · exact .inr ⟨r, rfl⟩
      · exact .inl rfl
    · intro r _ hlisted
      have hr := h rfl r hlisted
      simpa [pipe, RedisSessionStore.leaveAllRoomsPipe, clientID] using hr
    · intro r _
      simp [pipe, RedisSessionStore.leaveAllRoomsPipe, clientID]
  | unregisterConnection c =>
    refine .clearing _ _ rfl ?_ ?_ ?_
    · simp [pipe, RedisSessionStore.unregisterPipe, Sends]
    · intro r _ hlisted
      have hr := h rfl r hlisted
      simpa [pipe, RedisSessionStore.unregisterPipe, clientID] using hr
    · intro r _
      simp [pipe, RedisSessionStore.unregisterPipe, clientID]

theorem Progress.sends (h : Progress v call (cmd :: rest)) : call.Sends cmd := by
  cases h with
  | entering r c => exact .inl rfl
  | enlisting r c => exact .inr rfl
  | leaving r c => exact .inl rfl
  | delisting r c => exact .inr rfl
  | clearing _ _ all sends => exact sends cmd List.mem_cons_self

theorem Progress.next (h : Progress v call (cmd :: rest)) :
    Progress (v.after cmd) call rest := by
  have haffects := h.sends.affects v
  cases h with
  | entering r c => exact .enlisting r c (by simp)
  | enlisting r c => exact .done _
  | leaving r c => exact .delisting r c (by simp)
  | delisting r c => exact .done _
  | clearing _ _ all sends removes deletes =>
    have hshrinks := haffects.shrinks (adds_of_room_eq_none all)
    refine .clearing _ _ all (fun c hc => sends c (List.mem_cons_of_mem cmd hc)) ?_ ?_
    · intro room hin hlisted
      have hmem := removes room ((hshrinks room _).1 hin) ((hshrinks room _).2 hlisted)
      refine List.mem_of_ne_of_mem ?_ hmem
      rintro rfl
      simp at hin
    · intro room hlisted
      refine List.mem_of_ne_of_mem ?_ (deletes room ((hshrinks room _).2 hlisted))
      rintro rfl
      simp at hlisted

/-- A call keeps its place while another one sends a command that does not conflict, unless this
one is not under way. -/
theorem Progress.affected {other : RoomCall} (h : Progress v call cmds)
    (hother : (⟨call, some cmds⟩ : PendingCall).underWay = true → other.conflicts call = false)
    (haffects : other.Affects v v') : Progress v' call cmds := by
  cases h with
  | entering r c => exact .entering r c
  | enlisting r c entered =>
    have hcovers : (joinRoom r c).Covers r c := ⟨rfl, by simp [RoomCall.room]⟩
    exact .enlisting r c (haffects.keeps (hother rfl) rfl hcovers entered)
  | leaving r c => exact .leaving r c
  | delisting r c gone =>
    have hcovers : (leaveRoom r c).Covers r c := ⟨rfl, by simp [RoomCall.room]⟩
    exact .delisting r c fun hin => gone ((haffects.keeps_out (hother rfl) rfl hcovers).1 hin)
  | done => exact .done call
  | clearing _ _ all sends removes deletes =>
    rcases cmds with _ | ⟨cmd, rest⟩
    · exact .done call
    have hapart := hother (by simp [PendingCall.underWay, all])
    have hback : ∀ room, (InRoom v' room call.clientID → InRoom v room call.clientID) ∧
        (Listed v' room call.clientID → Listed v room call.clientID) := fun room =>
      haffects.keeps_out hapart (adds_of_room_eq_none all) ⟨rfl, by simp [all]⟩
    refine .clearing _ _ all sends ?_ ?_
    · exact fun room hin hlisted => removes room ((hback room).1 hin) ((hback room).2 hlisted)
    · exact fun room hlisted => deletes room ((hback room).2 hlisted)

/-- The command makes up for a client in a room that is not listed. -/
def Enlists (room client : GoString) (cmd : StoreCmd) : Prop :=
  cmd = .sadd (.rooms client) room ∨ cmd = .srem (.room room) client

/-- The command makes up for a listed room without the client. -/
def Delists (room client : GoString) (cmd : StoreCmd) : Prop :=
  cmd = .srem (.rooms client) room ∨ cmd = .del (.rooms client)

theorem Enlists.settles (h : Enlists room client cmd) (hin : InRoom (v.after cmd) room client) :
    Listed (v.after cmd) room client := by
  obtain rfl | rfl := h
  · simp
  · simp at hin

theorem Delists.settles (h : Delists room client cmd) :
    ¬ Listed (v.after cmd) room client := by
  obtain rfl | rfl := h <;> simp

/-- A command leaves a client in a room that is not listed only if that was so before, or if
the same call will make up for it. -/
theorem Progress.enlists (h : Progress v call (cmd :: rest))
    (hin : InRoom (v.after cmd) room client) (hlisted : ¬ Listed (v.after cmd) room client) :
    (∃ cmd' ∈ rest, Enlists room client cmd') ∨
      (InRoom v room client ∧ ¬ Listed v room client) := by
  have haffects := h.sends.affects v
  cases h with
  | entering r c =>
    rw [inRoom_sadd_room] at hin
    obtain ⟨rfl, rfl⟩ | hin := hin
    · exact .inl ⟨_, List.mem_cons_self, .inl rfl⟩
    · exact .inr ⟨hin, by simpa using hlisted⟩
  | enlisting r c entered =>
    rw [listed_sadd_rooms, not_or] at hlisted
    exact .inr ⟨hin, hlisted.2⟩
  | leaving r c =>
    rw [inRoom_srem_room] at hin
    exact .inr ⟨hin.2, hlisted⟩
  | delisting r c gone =>
    rw [inRoom_after_of_ne v _ _ (by simp)] at hin
    refine .inr ⟨hin, fun hbefore => hlisted ?_⟩
    rw [listed_srem_rooms]
    refine ⟨?_, hbefore⟩
    rintro ⟨rfl, rfl⟩
    exact gone hin
  | clearing _ _ all sends removes deletes =>
    have hshrinks := haffects.shrinks (adds_of_room_eq_none all) room client
    by_cases hcovers : call.Covers room client
    · obtain rfl := hcovers.1
      by_cases hbefore : Listed v room call.clientID
      · refine .inl ⟨_, List.mem_of_ne_of_mem ?_ (removes room (hshrinks.1 hin) hbefore), .inr rfl⟩
        rintro rfl
        simp at hin
      · exact .inr ⟨hshrinks.1 hin, hbefore⟩
    · have hsame := haffects.elsewhere room client hcovers
      exact .inr ⟨hsame.1.mp hin, fun hbefore => hlisted (hsame.2.mpr hbefore)⟩

/-- A command leaves a listed room without the client only if that was so before, or if the
same call will make up for it. -/
theorem Progress.delists (h : Progress v call (cmd :: rest))
    (hlisted : Listed (v.after cmd) room client) (hin : ¬ InRoom (v.after cmd) room client) :
    (∃ cmd' ∈ rest, Delists room client cmd') ∨
      (Listed v room client ∧ ¬ InRoom v room client) := by
  have haffects := h.sends.affects v
  cases h with
  | entering r c =>
    rw [inRoom_sadd_room, not_or] at hin
    exact .inr ⟨hlisted, hin.2⟩
  | enlisting r c entered =>
    rw [inRoom_after_of_ne v _ _ (by simp)] at hin
    rw [listed_sadd_rooms] at hlisted
    obtain ⟨rfl, rfl⟩ | hlisted := hlisted
    · exact absurd entered hin
    · exact .inr ⟨hlisted, hin⟩
  | leaving r c =>
    by_cases hpair : room = r ∧ client = c
    · obtain ⟨rfl, rfl⟩ := hpair
      exact .inl ⟨_, List.mem_cons_self, .inl rfl⟩
    · exact .inr ⟨hlisted, fun hbefore => hin ((inRoom_srem_room ..).mpr ⟨hpair, hbefore⟩)⟩
  | delisting r c gone =>
    rw [listed_srem_rooms] at hlisted
    exact .inr ⟨hlisted.2, hin⟩
  | clearing _ _ all sends removes deletes =>
    have hshrinks := haffects.shrinks (adds_of_room_eq_none all) room client
    by_cases hcovers : call.Covers room client
    · obtain rfl := hcovers.1
      refine .inl ⟨_, List.mem_of_ne_of_mem ?_ (deletes room (hshrinks.2 hlisted)), .inr rfl⟩
      rintro rfl
      simp at hlisted
    · have hsame := haffects.elsewhere room client hcovers
      exact .inr ⟨hsame.2.mp hlisted, fun hbefore => hin (hsame.1.mpr hbefore)⟩

end Progress

end RoomCall

section Alone

/-- The operation of the store that the call is. -/
def RoomCall.op : RoomCall → SessionOp
  | .joinRoom roomName clientID => .joinRoom roomName clientID
  | .leaveRoom roomName clientID => .leaveRoom roomName clientID
  | .leaveAllRooms clientID => .leaveAllRooms clientID
  | .unregisterConnection clientID => .unregisterConnection clientID

variable (r : RedisSessionStore) (db : SessionDb) {calls : GoMap ℕ PendingCall} {id : ℕ}

theorem erase_insert_of_lookup (hid : calls.lookup id = none) (p : PendingCall) :
    (calls.insert id p).erase id = calls := by
  apply Finmap.ext_lookup
  intro id'
  rw [GoMap.lookup_erase_ite, GoMap.lookup_insert_ite]
  split_ifs with h
  · rw [h, hid]
  · rfl

theorem run_exec (hid : calls.lookup id = none) (call : RoomCall) (cmds : List StoreCmd) :
    runFrom (RoomSystem.step r) ⟨db, calls.insert id ⟨call, some cmds⟩⟩
        (List.replicate (cmds.length + 1) (.exec id)) = some ⟨(r.runPipe db cmds).1, calls⟩ := by
  rw [RedisSessionStore.runPipe, Redis.pipeline_fst]
  induction cmds generalizing db with
  | nil =>
    simp [runFrom, RoomSystem.step, erase_insert_of_lookup hid]
  | cons cmd cmds ih =>
    rw [List.length_cons, List.replicate_succ, runFrom]
    simp only [RoomSystem.step, Finmap.lookup_insert, Finmap.insert_insert]
    rw [ih]
    rfl

theorem apply_of_room_isSome (ord : RangeOrder GoString) {call : RoomCall}
    (h : call.room.isSome = true) :
    r.apply ord db call.op = some (r.runPipe db (call.pipe [])) := by
  cases call <;> first | rfl | cases h

theorem apply_of_room_eq_none (ord : RangeOrder GoString) {call : RoomCall}
    (h : ¬ call.room.isSome = true) :
    r.apply ord db call.op = some (r.afterReadingRooms ord call.clientID call.pipe db) := by
  cases call <;> first | rfl | exact absurd rfl h

/-- A call that no other interrupts has the effect of the store's operation. -/
theorem run_alone (hid : calls.lookup id = none) (ord : RangeOrder GoString) (call : RoomCall) :
    ∃ acts db' err, r.apply ord db call.op = some (db', err) ∧
      runFrom (RoomSystem.step r) ⟨db, calls⟩ (.start id call :: acts) = some ⟨db', calls⟩ := by
  have hmem : id ∉ calls := Finmap.lookup_eq_none.mp hid
  by_cases hroom : call.room.isSome
  · refine ⟨List.replicate ((call.pipe []).length + 1) (.exec id), _, _,
      apply_of_room_isSome r db ord hroom, ?_⟩
    simp only [runFrom, RoomSystem.step, if_neg hmem, RoomCall.initialTodo, if_pos hroom]
    exact run_exec r db hid call _
  · rw [apply_of_room_eq_none r db ord hroom, RedisSessionStore.afterReadingRooms]
    cases hrooms : db.setAt (r.clientRoomsKey call.clientID) with
    | error e =>
      refine ⟨[.read id ord], _, _, rfl, ?_⟩
      simp only [runFrom, RoomSystem.step, if_neg hmem, RoomCall.initialTodo, if_neg hroom,
        Finmap.lookup_insert, hrooms, erase_insert_of_lookup hid]
    | ok rooms =>
      refine ⟨.read id ord :: List.replicate ((call.pipe (ord.keys rooms)).length + 1) (.exec id),
        _, _, rfl, ?_⟩
      simp only [runFrom, RoomSystem.step, if_neg hmem, RoomCall.initialTodo, if_neg hroom,
        Finmap.lookup_insert, hrooms, Finmap.insert_insert]
      exact run_exec r db hid call _

end Alone

namespace RoomSystem

open RoomCall

variable {r : RedisSessionStore} {s s' : RoomSystem} {v : StoreView} {calls : GoMap ℕ PendingCall}

/-- Some pending call has a command of this kind still to send. -/
def Awaits (calls : GoMap ℕ PendingCall) (P : StoreCmd → Prop) : Prop :=
  ∃ id call cmds, calls.lookup id = some ⟨call, some cmds⟩ ∧ ∃ cmd ∈ cmds, P cmd

/-- No two calls that are under way conflict. -/
def Apart (calls : GoMap ℕ PendingCall) : Prop :=
  ∀ id id' p p', calls.lookup id = some p → calls.lookup id' = some p' → p.underWay = true →
    p'.underWay = true → p.call.conflicts p'.call = false

/-- The database, the pending calls and the index fit together: no two calls under way
conflict, and wherever the two sides of the index differ a pending call will even it out. -/
structure Sound (r : RedisSessionStore) (s : RoomSystem) (v : StoreView) : Prop where
  holds : r.Holds s.db v
  progress : ∀ id call cmds, s.calls.lookup id = some ⟨call, some cmds⟩ → Progress v call cmds
  apart : Apart s.calls
  enlisted : ∀ room client, InRoom v room client → ¬ Listed v room client →
    Awaits s.calls (Enlists room client)
  delisted : ∀ room client, Listed v room client → ¬ InRoom v room client →
    Awaits s.calls (Delists room client)

theorem init_sound (r : RedisSessionStore) : Sound r init ⟨fun _ => ∅, fun _ => ∅⟩ where
  holds := r.holds_empty
  progress _ _ _ h := by simp [init] at h
  apart _ _ _ _ h := by simp [init] at h
  enlisted _ _ h := by simp [InRoom] at h
  delisted _ _ h := by simp [Listed] at h

theorem Sound.symmetric (h : Sound r s v) (hdone : s.calls = ∅) : s.Symmetric r := by
  have hnone : ∀ P, ¬ Awaits s.calls P := by
    rintro P ⟨id, call, cmds, hlookup, -⟩
    simp [hdone] at hlookup
  intro room client
  refine ⟨_, _, h.holds.set (.room room) rfl, h.holds.set (.rooms client) rfl, ?_, ?_⟩
  · intro hin
    by_contra hlisted
    exact hnone _ (h.enlisted room client hin hlisted)
  · intro hlisted
    by_contra hin
    exact hnone _ (h.delisted room client hlisted hin)

/-- What a step can do. -/
theorem step_cases {a : RoomAction} (h : s.step r a = some s') :
    (∃ id call, a = .start id call ∧ s.calls.lookup id = none ∧
      s' = { s with calls := s.calls.insert id ⟨call, call.initialTodo⟩ }) ∨
    (∃ id ord call rooms, a = .read id ord ∧ s.calls.lookup id = some ⟨call, none⟩ ∧
      s.db.setAt (r.clientRoomsKey call.clientID) = .ok rooms ∧
      s' = { s with calls := s.calls.insert id ⟨call, some (call.pipe (ord.keys rooms))⟩ }) ∨
    (∃ id, (∀ call cmds, s.calls.lookup id = some ⟨call, some cmds⟩ → cmds = []) ∧
      s' = { s with calls := s.calls.erase id }) ∨
    (∃ id call cmd rest, a = .exec id ∧ s.calls.lookup id = some ⟨call, some (cmd :: rest)⟩ ∧
      s' = ⟨s.db.after (cmd.mapKey r.key), s.calls.insert id ⟨call, some rest⟩⟩) := by
  cases a with
  | start id call =>
    rw [step] at h
    split_ifs at h with hid
    exact .inl ⟨id, call, rfl, Finmap.lookup_eq_none.mpr hid, (Option.some.inj h).symm⟩
  | read id ord =>
    cases hlookup : s.calls.lookup id with
    | none => simp [step, hlookup] at h
    | some p =>
      obtain ⟨call, _ | cmds⟩ := p
      · cases hrooms : s.db.setAt (r.clientRoomsKey call.clientID) with
        | error e =>
          simp only [step, hlookup, hrooms, Option.some.injEq] at h
          exact .inr (.inr (.inl ⟨id, by simp [hlookup], h.symm⟩))
        | ok rooms =>
          simp only [step, hlookup, hrooms, Option.some.injEq] at h
          exact .inr (.inl ⟨id, ord, call, rooms, rfl, hlookup, hrooms, h.symm⟩)
      · simp [step, hlookup] at h
  | exec id =>
    cases hlookup : s.calls.lookup id with
    | none => simp [step, hlookup] at h
    | some p =>
      obtain ⟨call, _ | _ | ⟨cmd, rest⟩⟩ := p
      · simp [step, hlookup] at h
      · simp only [step, hlookup, Option.some.injEq] at h
        exact .inr (.inr (.inl ⟨id, by simp [hlookup], h.symm⟩))
      · simp only [step, hlookup, Option.some.injEq] at h
        exact .inr (.inr (.inr ⟨id, call, cmd, rest, rfl, hlookup, h.symm⟩))

section Awaits

variable {P : StoreCmd → Prop} {id : ℕ}

theorem Awaits.insert (h : Awaits calls P) {p : PendingCall}
    (hkeep : ∀ call cmds, calls.lookup id = some ⟨call, some cmds⟩ → (∃ cmd ∈ cmds, P cmd) →
      ∃ cmds', p.todo = some cmds' ∧ ∃ cmd ∈ cmds', P cmd) : Awaits (calls.insert id p) P := by
  obtain ⟨id', call, cmds, hlookup, hcmd⟩ := h
  by_cases hid : id' = id
  · subst hid
    obtain ⟨cmds', htodo, hcmd'⟩ := hkeep call cmds hlookup hcmd
    exact ⟨id', p.call, cmds', by simp [← htodo], hcmd'⟩
  · exact ⟨id', call, cmds, by simpa [hid] using hlookup, hcmd⟩

theorem Awaits.exec (h : Awaits calls P) {call : RoomCall} {cmd : StoreCmd} {rest : List StoreCmd}
    (hlookup : calls.lookup id = some ⟨call, some (cmd :: rest)⟩) (hcmd : ¬ P cmd) :
    Awaits (calls.insert id ⟨call, some rest⟩) P := by
  refine h.insert fun call' cmds hlookup' hcmds => ⟨rest, rfl, ?_⟩
  obtain ⟨cmd', hmem, hP⟩ := hcmds
  simp only [hlookup, Option.some.injEq, PendingCall.mk.injEq] at hlookup'
  rw [← hlookup'.2] at hmem
  refine ⟨cmd', List.mem_of_ne_of_mem ?_ hmem, hP⟩
  rintro rfl
  exact hcmd hP

theorem Awaits.erase (h : Awaits calls P)
    (hdone : ∀ call cmds, calls.lookup id = some ⟨call, some cmds⟩ → cmds = []) :
    Awaits (calls.erase id) P := by
  obtain ⟨id', call, cmds, hlookup, hcmd⟩ := h
  by_cases hid : id' = id
  · subst hid
    simp [hdone call cmds hlookup] at hcmd
  · exact ⟨id', call, cmds, by simpa [hid] using hlookup, hcmd⟩

end Awaits

theorem Apart.insert (h : Apart calls) {id : ℕ} {p : PendingCall}
    (hp : p.underWay = true → ∀ id' p', id' ≠ id → calls.lookup id' = some p' →
      p'.underWay = true → p'.call.conflicts p.call = false) :
    Apart (calls.insert id p) := by
  intro i j q q' hi hj hq hq'
  rw [GoMap.lookup_insert_ite] at hi hj
  split_ifs at hi hj with hid hjd hjd
  · obtain rfl := Option.some.inj hi
    obtain rfl := Option.some.inj hj
    exact conflicts_self _
  · obtain rfl := Option.some.inj hi
    rw [conflicts_comm]
    exact hp hq j q' hjd hj hq'
  · obtain rfl := Option.some.inj hj
    exact hp hq' i q hid hi hq
  · exact h i j q q' hi hj hq hq'

theorem Apart.erase (h : Apart calls) (id : ℕ) : Apart (calls.erase id) := by
  intro i j q q' hi hj
  exact h i j q q' (GoMap.lookup_of_erase hi) (GoMap.lookup_of_erase hj)

theorem conflicts_of_free {call : RoomCall} (h : s.free call = true) {id : ℕ} {p : PendingCall}
    (hp : s.calls.lookup id = some p) (hway : p.underWay = true) :
    p.call.conflicts call = false := by
  have hkey : id ∈ s.calls.keys := by
    rw [Finmap.mem_keys, ← Finmap.lookup_isSome, hp]
    rfl
  simpa [hp, hway] using of_decide_eq_true h id hkey

/-- The calls under way do not conflict with the one that sends its next command. -/
theorem Apart.conflicts_of_separate (h : Apart s.calls) {id : ℕ} {call : RoomCall}
    {cmd : StoreCmd} {rest : List StoreCmd}
    (hid : s.calls.lookup id = some ⟨call, some (cmd :: rest)⟩)
    (hsep : s.separate (.exec id) = true) {id' : ℕ} {p' : PendingCall}
    (hp' : s.calls.lookup id' = some p') (hway : p'.underWay = true) :
    p'.call.conflicts call = false := by
  rcases PendingCall.begins_or_underWay call cmd rest with hbegins | hown
  · simp only [separate, hid, Option.all_some, hbegins, Bool.not_true, Bool.false_or] at hsep
    exact conflicts_of_free hsep hp' hway
  · exact h id' id p' _ hp' hid hway hown

theorem Sound.insert (h : Sound r s v) {id : ℕ} {p : PendingCall}
    (hfresh : ∀ call cmds, s.calls.lookup id ≠ some ⟨call, some cmds⟩)
    (hprogress : ∀ cmds, p.todo = some cmds → Progress v p.call cmds)
    (hapart : p.underWay = true → ∀ id' p', id' ≠ id → s.calls.lookup id' = some p' →
      p'.underWay = true → p'.call.conflicts p.call = false) :
    Sound r { s with calls := s.calls.insert id p } v where
  holds := h.holds
  progress id' call cmds hlookup := by
    rw [GoMap.lookup_insert_ite] at hlookup
    split_ifs at hlookup
    · obtain rfl := Option.some.inj hlookup
      exact hprogress cmds rfl
    · exact h.progress id' call cmds hlookup
  apart := h.apart.insert hapart
  enlisted room client hin hlisted :=
    (h.enlisted room client hin hlisted).insert fun call cmds hc => absurd hc (hfresh call cmds)
  delisted room client hlisted hin :=
    (h.delisted room client hlisted hin).insert fun call cmds hc => absurd hc (hfresh call cmds)

theorem Sound.erase (h : Sound r s v) {id : ℕ}
    (hdone : ∀ call cmds, s.calls.lookup id = some ⟨call, some cmds⟩ → cmds = []) :
    Sound r { s with calls := s.calls.erase id } v where
  holds := h.holds
  progress id' call cmds hlookup := h.progress id' call cmds (GoMap.lookup_of_erase hlookup)
  apart := h.apart.erase id
  enlisted room client hin hlisted := (h.enlisted room client hin hlisted).erase hdone
  delisted room client hlisted hin := (h.delisted room client hlisted hin).erase hdone

/-- The one command a call sends moves it on, and the others stay where they are. -/
theorem Sound.exec (h : Sound r s v) {id : ℕ} {call : RoomCall} {cmd : StoreCmd}
    {rest : List StoreCmd} (hlookup : s.calls.lookup id = some ⟨call, some (cmd :: rest)⟩)
    (hsep : s.separate (.exec id) = true) :
    Sound r ⟨s.db.after (cmd.mapKey r.key), s.calls.insert id ⟨call, some rest⟩⟩ (v.after cmd) := by
  have hprogress := h.progress id call _ hlookup
  have hsends := hprogress.sends
  constructor
  case holds =>
    obtain ⟨db', hexec, hholds⟩ := h.holds.exec r.key_injective hsends.fitting
    rwa [Redis.after_eq hexec]
  case progress =>
    intro id' call' cmds hlookup'
    rw [GoMap.lookup_insert_ite] at hlookup'
    split_ifs at hlookup'
    · simp only [Option.some.injEq, PendingCall.mk.injEq] at hlookup'
      obtain ⟨rfl, rfl⟩ := hlookup'
      exact hprogress.next
    · refine (h.progress id' call' cmds hlookup').affected (fun hway => ?_) (hsends.affects v)
      rw [conflicts_comm]
      exact h.apart.conflicts_of_separate hlookup hsep hlookup' hway
  case apart =>
    exact h.apart.insert fun _ id' p' _ hp' hway =>
      h.apart.conflicts_of_separate hlookup hsep hp' hway
  case enlisted =>
    intro room client hin hlisted
    obtain hrest | ⟨hin₀, hlisted₀⟩ := hprogress.enlists hin hlisted
    · exact ⟨id, call, rest, by simp, hrest⟩
    · exact (h.enlisted room client hin₀ hlisted₀).exec hlookup fun hcmd =>
        hlisted (hcmd.settles hin)
  case delisted =>
    intro room client hlisted hin
    obtain hrest | ⟨hlisted₀, hin₀⟩ := hprogress.delists hlisted hin
    · exact ⟨id, call, rest, by simp, hrest⟩
    · exact (h.delisted room client hlisted₀ hin₀).exec hlookup fun hcmd => hcmd.settles hlisted

theorem Sound.step {a : RoomAction} (h : Sound r s v) (hsep : s.separate a = true)
    (hstep : s.step r a = some s') : ∃ v', Sound r s' v' := by
  obtain ⟨id, call, rfl, hid, rfl⟩ | ⟨id, ord, call, rooms, rfl, hid, hrooms, rfl⟩ |
    ⟨id, hdone, rfl⟩ | ⟨id, call, cmd, rest, rfl, hid, rfl⟩ := step_cases hstep
  · refine ⟨v, h.insert (by simp [hid]) ?_ ?_⟩
    · intro cmds htodo
      simp only [initialTodo, Option.ite_none_right_eq_some, Option.some.injEq] at htodo
      obtain ⟨hroom, rfl⟩ := htodo
      exact progress_pipe fun hnone => by simp [hnone] at hroom
    · intro hway
      rw [PendingCall.not_underWay_initialTodo] at hway
      cases hway
  · refine ⟨v, h.insert (by simp [hid]) ?_ ?_⟩
    · intro cmds htodo
      obtain rfl := Option.some.inj htodo
      rw [h.holds.set (.rooms call.clientID) rfl, Except.ok.injEq] at hrooms
      exact progress_pipe fun _ room hlisted => by rwa [RangeOrder.mem_keys, ← hrooms]
    · have hfree : s.free call = true := by
        simpa [separate, hid, PendingCall.begins] using hsep
      exact fun _ id' p' _ hp' hway => conflicts_of_free hfree hp' hway
  · exact ⟨v, h.erase hdone⟩
  · exact ⟨_, h.exec hid hsep⟩

/-- In every interleaving in which no call sends its first command while a conflicting one is
under way, the index is symmetric whenever all calls have returned. -/
theorem symmetric_of_separate (r : RedisSessionStore) {acts : List RoomAction} {s : RoomSystem}
    (hsep : Along (step r) (fun s a => s.separate a = true) init acts)
    (hrun : runFrom (step r) init acts = some s) (hdone : s.calls = ∅) : s.Symmetric r := by
  have hsound : ∃ v, Sound r s v := by
    refine invariant_run (I := fun s => ∃ v, Sound r s v) ?_ ⟨_, init_sound r⟩ hsep hrun
    rintro s a s' ⟨v, hv⟩ hsep hstep
    exact hv.step hsep hstep
  obtain ⟨v, hv⟩ := hsound
  exact hv.symmetric hdone

/-- A client's forced removal overlaps with its own `LeaveRoom` and another client's join. -/
def removalRun (ord : RangeOrder GoString) : List RoomAction :=
  [.start 0 (.joinRoom (lit "den") (lit "ann")), .exec 0, .exec 0, .exec 0,
    .start 1 (.unregisterConnection (lit "ann")), .read 1 ord,
    .start 2 (.leaveRoom (lit "den") (lit "ann")), .exec 2,
    .start 3 (.joinRoom (lit "den") (lit "bob")), .exec 1, .exec 3, .exec 1, .exec 1, .exec 2,
    .exec 2, .exec 3, .exec 3, .exec 1, .exec 1, .exec 1]

theorem symmetric_of_separate_removal : ∃ s,
    runFrom (step ⟨lit "fsos", 0⟩) init (removalRun (.sorted (· ≤ ·))) = some s ∧
      s.Symmetric ⟨lit "fsos", 0⟩ := by
  have hany : (runFrom (step ⟨lit "fsos", 0⟩) init (removalRun (.sorted (· ≤ ·)))).any
      (fun s => decide (s.calls.keys = ∅)) = true := by decide +kernel
  obtain ⟨s, hrun, hkeys⟩ := exists_run_of_any hany
  refine ⟨s, hrun, symmetric_of_separate _ ?_ hrun ?_⟩
  · decide +kernel
  · exact (GoMap.keys_eq_empty_iff _).mp (of_decide_eq_true hkeys)

/-- A join between the read and the pipeline of a removal: the client is gone from its own
set, but stays in the room. -/
theorem ghost_member_after_removal : ∃ s,
    runFrom (step ⟨lit "fsos", 0⟩) init
        [.start 0 (.unregisterConnection (lit "ann")), .read 0 (.sorted (· ≤ ·)),
          .start 1 (.joinRoom (lit "den") (lit "ann")), .exec 1, .exec 1, .exec 1,
          .exec 0, .exec 0, .exec 0, .exec 0, .exec 0] = some s ∧
      s.calls = ∅ ∧ ¬ s.Symmetric ⟨lit "fsos", 0⟩ := by
  have hany : (runFrom (step ⟨lit "fsos", 0⟩) init
        [.start 0 (.unregisterConnection (lit "ann")), .read 0 (.sorted (· ≤ ·)),
          .start 1 (.joinRoom (lit "den") (lit "ann")), .exec 1, .exec 1, .exec 1,
          .exec 0, .exec 0, .exec 0, .exec 0, .exec 0]).any
      (fun s => decide (s.calls.keys = ∅ ∧
        (s.db.setAt (RedisSessionStore.roomKey ⟨lit "fsos", 0⟩ (lit "den"))).toOption =
          some {lit "ann"} ∧
        (s.db.setAt (RedisSessionStore.clientRoomsKey ⟨lit "fsos", 0⟩ (lit "ann"))).toOption =
          some ∅)) = true := by decide +kernel
  obtain ⟨s, hrun, hstate⟩ := exists_run_of_any hany
  obtain ⟨hkeys, hmembers, hrooms⟩ := of_decide_eq_true hstate
  refine ⟨s, hrun, (GoMap.keys_eq_empty_iff _).mp hkeys, fun hsym => ?_⟩
  obtain ⟨members, rooms, hm, hr, hiff⟩ := hsym (lit "den") (lit "ann")
  rw [hm] at hmembers
  rw [hr] at hrooms
  obtain rfl : members = {lit "ann"} := Option.some.inj hmembers
  obtain rfl : rooms = ∅ := Option.some.inj hrooms
  simp at hiff

end RoomSystem

end Musgos.Outbound
