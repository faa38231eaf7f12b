import Musgos.Foundation.Transition
import Musgos.Mus.Rooms
import Musgos.Mus.Standalone

/-!
# Isolation of groups

A `Roster` says who is in which movie and who has joined which group there, without
any rooms. The session store houses the roster: its rooms are those of the roster's
memberships under their flat names. As long as no movie id and a colon begin another id the
names can be read back, and a message to a group reaches the members the roster has, each once.
-/
namespace Musgos.Mus

open Foundation Lingo Domain Services Smus Outbound

/-- A user in a group of a movie. -/
structure GroupMember where
  movieID : GoString
  groupName : GoString
  userID : GoString
  deriving DecidableEq

/-- The movie each user is in, and the groups that were joined there and not left since. -/
structure Roster where
  movieOf : GoMap GoString GoString
  joined : Finset GroupMember

namespace Roster

def empty : Roster := ⟨∅, ∅⟩

def unregister (userID : GoString) (r : Roster) : Roster where
  movieOf := r.movieOf.erase userID
  joined := r.joined.filter (·.userID ≠ userID)

/-- Entering a movie is also joining its group of all users. -/
def enter (userID movieID : GoString) (r : Roster) : Roster where
  movieOf := r.movieOf.insert userID movieID
  joined := insert ⟨movieID, allUsers, userID⟩ r.joined

def join (userID groupName : GoString) (r : Roster) : Roster :=
  match r.movieOf.lookup userID with
  | none => r
  | some movieID => { r with joined := insert ⟨movieID, groupName, userID⟩ r.joined }

def leave (userID groupName : GoString) (r : Roster) : Roster :=
  match r.movieOf.lookup userID with
  | none => r
  | some movieID => { r with joined := r.joined.erase ⟨movieID, groupName, userID⟩ }

@[simp] theorem movieOf_unregister (r : Roster) (clientID userID : GoString) :
    (r.unregister clientID).movieOf.lookup userID =
      if userID = clientID then none else r.movieOf.lookup userID :=
  GoMap.lookup_erase_ite _ _ _

theorem movieOf_unregister_eq_some {r : Roster} {clientID userID movieID : GoString} :
    (r.unregister clientID).movieOf.lookup userID = some movieID ↔
      userID ≠ clientID ∧ r.movieOf.lookup userID = some movieID := by
  by_cases hid : userID = clientID <;> simp [hid]

@[simp] theorem mem_unregister (r : Roster) (clientID : GoString) (m : GroupMember) :
    m ∈ (r.unregister clientID).joined ↔ m ∈ r.joined ∧ m.userID ≠ clientID :=
  Finset.mem_filter

@[simp] theorem movieOf_enter (r : Roster) (userID movieID id : GoString) :
    (r.enter userID movieID).movieOf.lookup id =
      if id = userID then some movieID else r.movieOf.lookup id :=
  GoMap.lookup_insert_ite _ _ _ _

@[simp] theorem mem_enter (r : Roster) (userID movieID : GoString) (m : GroupMember) :
    m ∈ (r.enter userID movieID).joined ↔ m = ⟨movieID, allUsers, userID⟩ ∨ m ∈ r.joined :=
  Finset.mem_insert

/-- The rooms that stand for what the roster has about a user. -/
def HasRoom (r : Roster) (userID room : GoString) : Prop :=
  ∃ movieID, r.movieOf.lookup userID = some movieID ∧
    (room = movieRoomName movieID ∨
      ∃ groupName, ⟨movieID, groupName, userID⟩ ∈ r.joined ∧ room = groupRoomName movieID groupName)

end Roster

/-- The session store has the rooms and the cached movies of the roster, which are among the
given ones. -/
structure Housed (movieIDs : List GoString) (s : MemorySessionStore) (r : Roster) : Prop where
  mirror : s.RoomsMirror
  rooms : ∀ userID room, room ∈ s.roomsOf userID ↔ r.HasRoom userID room
  cached : ∀ userID, cachedMovie s userID = r.movieOf.lookup userID
  settled : ∀ m ∈ r.joined, r.movieOf.lookup m.userID = some m.movieID
  clean : CleanMovies movieIDs
  among : ∀ userID movieID, r.movieOf.lookup userID = some movieID →
    movieID ∈ movieIDs ∧ movieID ≠ []
  present : ∀ userID movieID, r.movieOf.lookup userID = some movieID →
    (s.getConnection userID).isSome

theorem housed_new {movieIDs : List GoString} (hclean : CleanMovies movieIDs) :
    Housed movieIDs .new .empty where
  mirror := MemorySessionStore.new_roomsMirror
  rooms userID room := by
    simp [MemorySessionStore.roomsOf, MemorySessionStore.new, Roster.HasRoom, Roster.empty]
  cached userID := rfl
  settled m hm := by simp [Roster.empty] at hm
  clean := hclean
  among userID movieID h := by simp [Roster.empty] at h
  present userID movieID h := by simp [Roster.empty] at h

namespace Housed

variable {movieIDs : List GoString} {s : MemorySessionStore} {r : Roster}

theorem unregister (h : Housed movieIDs s r) (clientID : GoString) :
    Housed movieIDs (s.unregisterConnection clientID) (r.unregister clientID) where
  mirror := h.mirror.unregisterConnection clientID
  rooms userID room := by
    rw [MemorySessionStore.roomsOf_unregisterConnection]
    by_cases hid : userID = clientID
    · simp [hid, Roster.HasRoom]
    · simp [hid, h.rooms, Roster.HasRoom]
  cached userID := by
    have hcached := h.cached userID
    unfold cachedMovie at hcached ⊢
    rw [MemorySessionStore.getUserAttribute_unregister]
    by_cases hid : userID = clientID
    · simp [hid]
    · simpa [hid] using hcached
  settled m hm := by
    obtain ⟨hjoined, hid⟩ := (Roster.mem_unregister _ _ _).mp hm
    exact Roster.movieOf_unregister_eq_some.mpr ⟨hid, h.settled m hjoined⟩
  clean := h.clean
  among userID movieID hmovie := by
    obtain ⟨-, hmovie⟩ := Roster.movieOf_unregister_eq_some.mp hmovie
    exact h.among userID movieID hmovie
  present userID movieID hmovie := by
    obtain ⟨hid, hmovie⟩ := Roster.movieOf_unregister_eq_some.mp hmovie
    simpa [MemorySessionStore.getConnection, hid] using h.present userID movieID hmovie

theorem register (h : Housed movieIDs s r) (ord : RangeOrder GoString) (now : ℤ)
    (userID ip : GoString) (level : ℤ) :
    Housed movieIDs (stampLevel (MemorySessionStore.port ord) userID level
      (s.registerConnection now userID ip)) r where
  mirror := h.mirror
  rooms := h.rooms
  cached id := by
    have hname : movieIDAttribute ≠ userLevelAttribute := by decide +kernel
    have hget : (stampLevel (MemorySessionStore.port ord) userID level
        (s.registerConnection now userID ip)).getUserAttribute id movieIDAttribute =
          s.getUserAttribute id movieIDAttribute :=
      (MemorySessionStore.getUserAttribute_set _ _ _ _ _ _).trans
        (if_neg fun hboth => hname hboth.2)
    rw [← h.cached id, cachedMovie, hget, cachedMovie]
  settled := h.settled
  clean := h.clean
  among := h.among
  present id movieID hmovie := by
    have hpresent := h.present id movieID hmovie
    simp only [stampLevel, MemorySessionStore.port, MemorySessionStore.getConnection,
      MemorySessionStore.setUserAttribute, MemorySessionStore.registerConnection,
      GoMap.lookup_insert_ite] at hpresent ⊢
    split_ifs
    · rfl
    · exact hpresent

theorem joined_movie (h : Housed movieIDs s r) {movieID groupName userID : GoString}
    (hjoined : ⟨movieID, groupName, userID⟩ ∈ r.joined) :
    r.movieOf.lookup userID = some movieID :=
  h.settled _ hjoined

theorem enter (h : Housed movieIDs s r) {userID movieID : GoString}
    (hfree : r.movieOf.lookup userID = none) (hasked : movieID ∈ movieIDs) (hne : movieID ≠ [])
    (hpresent : (s.getConnection userID).isSome) :
    Housed movieIDs (enteredMovie userID movieID s) (r.enter userID movieID) := by
  have hnone : ∀ groupName movieID', ⟨movieID', groupName, userID⟩ ∉ r.joined := by
    intro groupName movieID' hjoined
    simp [h.joined_movie hjoined] at hfree
  have hempty : ∀ room, room ∉ s.roomsOf userID := by
    intro room hroom
    obtain ⟨movieID', hmovie, -⟩ := (h.rooms userID room).mp hroom
    simp [hmovie] at hfree
  unfold enteredMovie enterRooms
  rw [if_neg hne]
  constructor
  · exact (h.mirror.joinRoom _ _).joinRoom _ _
  · intro id room
    show room ∈ ((s.joinRoom _ userID).joinRoom _ userID).roomsOf id ↔ _
    by_cases hid : id = userID
    · subst hid
      simp [hempty, hnone, Roster.HasRoom, or_comm]
    · simp [hid, h.rooms, Roster.HasRoom]
  · intro id
    rw [cachedMovie_set _ _ _ hne, Roster.movieOf_enter, ← h.cached id]
    rfl
  · intro m hm
    rcases (Roster.mem_enter _ _ _ _).mp hm with rfl | hold
    · simp
    · have hmovie := h.settled m hold
      have hid : m.userID ≠ userID := by
        rintro rfl
        simp [hmovie] at hfree
      simpa [hid] using hmovie
  · exact h.clean
  · intro id movieID' hmovie
    rw [Roster.movieOf_enter] at hmovie
    split_ifs at hmovie
    · cases hmovie
      exact ⟨hasked, hne⟩
    · exact h.among id movieID' hmovie
  · intro id movieID' hmovie
    rw [Roster.movieOf_enter] at hmovie
    split_ifs at hmovie with hid
    · subst hid
      exact hpresent
    · exact h.present id movieID' hmovie

theorem join (h : Housed movieIDs s r) {userID movieID : GoString} (groupName : GoString)
    (hmovie : r.movieOf.lookup userID = some movieID) :
    Housed movieIDs (s.joinRoom (groupRoomName movieID groupName) userID)
      (r.join userID groupName) := by
  simp only [Roster.join, hmovie]
  refine ⟨h.mirror.joinRoom _ _, ?_, h.cached, ?_, h.clean, h.among, h.present⟩
  · intro id room
    rw [MemorySessionStore.roomsOf_joinRoom]
    by_cases hid : id = userID
    · subst hid
      simp only [if_true, Finset.mem_insert, h.rooms, Roster.HasRoom, hmovie, Option.some.injEq,
        exists_eq_left', GroupMember.mk.injEq, true_and, and_true]
      grind
    · simp [hid, h.rooms, Roster.HasRoom]
  · intro m hm
    rcases Finset.mem_insert.mp hm with rfl | hold
    · exact hmovie
    · exact h.settled m hold

/-- Leaving a group takes away its room and no other, since a clean movie's rooms have
different names. -/
theorem leave (h : Housed movieIDs s r) {userID movieID : GoString} (groupName : GoString)
    (hmovie : r.movieOf.lookup userID = some movieID) :
    Housed movieIDs (s.leaveRoom (groupRoomName movieID groupName) userID)
      (r.leave userID groupName) := by
  have hamong := (h.among userID movieID hmovie).1
  simp only [Roster.leave, hmovie]
  refine ⟨h.mirror.leaveRoom _ _, ?_, h.cached, ?_, h.clean, h.among, h.present⟩
  · intro id room
    rw [MemorySessionStore.roomsOf_leaveRoom]
    by_cases hid : id = userID
    · subst hid
      simp only [if_true, Finset.mem_erase, h.rooms, Roster.HasRoom, hmovie, Option.some.injEq,
        exists_eq_left', GroupMember.mk.injEq, true_and, and_true, ne_eq]
      have hother : movieRoomName movieID ≠ groupRoomName movieID groupName :=
        (groupRoomName_ne_movie h.clean hamong).symm
      have hinj : ∀ g, groupRoomName movieID g = groupRoomName movieID groupName → g = groupName :=
        fun g heq => (groupRoomName_inj h.clean hamong hamong heq).2
      grind
    · simp [hid, h.rooms, Roster.HasRoom]
  · intro m hm
    exact h.settled m (Finset.mem_of_mem_erase hm)

end Housed

section Runs

/-- What the server is asked to do, in the order in which it does it. -/
inductive Action where
  | logon (now : ℤ) (connectionID : GoString) (msg : MUSMessage)
  | join (now : ℤ) (senderID : GoString) (msg : MUSMessage)
  | leave (now : ℤ) (senderID : GoString) (msg : MUSMessage)
  | send (now : ℤ) (senderID recipientID subject : GoString) (content : LValue)
  | unregister (clientID : GoString)

/-- The movie that a logon asks for. -/
def Action.movieID? : Action → Option GoString
  | .logon _ connectionID msg =>
    ((logonRequest connectionID msg).bind (·.credentials)).map (·.movieID)
  | _ => none

/-- The server, and what its answers so far say about movies and groups. -/
structure Tracked (π δ τ : Type) where
  world : World π MemorySessionStore δ τ
  roster : Roster

/-- What the answer to a logon tells. -/
def Roster.logon (connectionID : GoString) (res : LogonResult) (r : Roster) : Roster :=
  if res.code ≠ .ok then r
  else if res.movieID = [] then r.unregister connectionID
  else (r.unregister connectionID).enter res.userID res.movieID

/-- What the answer to a command on a group tells: nothing unless it is acknowledged. -/
def Roster.command {ω : Type} (act : GoString → Roster → Roster) (msg : MUSMessage)
    (answer : EStateM.Result Panic ω MUSMessage) (r : Roster) : Roster :=
  match answer, msg.msgContent.extractString with
  | .ok response _, some groupName => if response.errCode = errNoError then act groupName r else r
  | _, _ => r

variable {π δ τ : Type} (ctx : Context π MemorySessionStore δ τ)

def track (t : Tracked π δ τ) : Action → Option (Tracked π δ τ)
  | .logon now connectionID msg => some {
      world := endState (handleLogon ctx now connectionID msg t.world)
      roster := match logonRequest connectionID msg with
        | none => t.roster
        | some req => t.roster.logon connectionID (ctx.logon now req t.world.toBackend).1 }
  | .join now senderID msg =>
    let answer := handleGroupJoin ctx now senderID msg t.world
    some ⟨endState answer, t.roster.command (Roster.join senderID) msg answer⟩
  | .leave now senderID msg =>
    let answer := handleGroupLeave ctx now senderID msg t.world
    some ⟨endState answer, t.roster.command (Roster.leave senderID) msg answer⟩
  | .send now senderID recipientID subject content => some {
      world := endState (sendMessage ctx now senderID recipientID subject content t.world)
      roster := t.roster }
  | .unregister clientID => some {
      world := { t.world with
        sessions := (ctx.sessions.unregisterConnection clientID t.world.sessions).2 }
      roster := t.roster.unregister clientID }

variable {ctx} {ord : RangeOrder GoString} {movieIDs : List GoString}

theorem Housed.command {s s' : MemorySessionStore} {r : Roster} {ω : Type} {senderID : GoString}
    {msg : MUSMessage} {response : MUSMessage} {w : ω}
    {act : GoString → GoString → MemorySessionStore → MemorySessionStore}
    {act' : GoString → Roster → Roster} (h : Housed movieIDs s r)
    (hact : ∀ groupName movieID, r.movieOf.lookup senderID = some movieID →
      Housed movieIDs (act (groupRoomName movieID groupName) senderID s) (act' groupName r))
    (houtcome : GroupOutcome act senderID msg s response.errCode s') :
    Housed movieIDs s' (r.command act' msg (.ok response w)) := by
  rcases houtcome with ⟨hcode, rfl⟩ | ⟨hcode, groupName, movieID, hname, hcached, rfl⟩
  · cases hname : msg.msgContent.extractString <;>
      simpa only [Roster.command, hname, hcode, if_false] using h
  · simp only [Roster.command, hname, hcode, if_true]
    exact hact groupName movieID ((h.cached senderID).symm.trans hcached)

/-- A user who may log on has no session, or the one of the connection, which goes. -/
theorem Housed.free_of_guard {s : MemorySessionStore} {r : Roster} {connectionID userID : GoString}
    (h : Housed movieIDs s r)
    (hguard : guardRefuses (MemorySessionStore.port ord) s connectionID userID = false) :
    (r.unregister connectionID).movieOf.lookup userID = none := by
  by_contra hsome
  obtain ⟨movieID, hmovie⟩ := Option.ne_none_iff_exists'.mp hsome
  obtain ⟨hid, hmovie⟩ := Roster.movieOf_unregister_eq_some.mp hmovie
  have hpresent : (existing (MemorySessionStore.port ord) s userID).isSome :=
    h.present userID movieID hmovie
  simp [guardRefuses, hid, hpresent] at hguard

theorem Housed.logon {s after : MemorySessionStore} {r : Roster} {now : ℤ} {req : LogonRequest}
    {res : LogonResult} (hstore : ctx.sessions = MemorySessionStore.port ord)
    (h : Housed movieIDs s r)
    (hasked : ∀ credentials ∈ req.credentials, credentials.movieID ∈ movieIDs)
    (hcode : res.code = .ok) (hopens : ctx.Opens now req s res after) :
    Housed movieIDs (enteredMovie res.userID res.movieID after) (r.logon req.connectionID res) := by
  obtain ⟨hguard, ⟨credentials, hrequested, hmovieID⟩, ip, rfl⟩ := hopens
  rw [hstore] at hguard ⊢
  have hopened := (h.unregister req.connectionID).register ord now res.userID ip res.userLevel
  unfold Roster.logon
  rw [if_neg (not_not.mpr hcode)]
  by_cases hempty : res.movieID = []
  · rw [if_pos hempty, enteredMovie, if_pos hempty]
    exact hopened
  · rw [if_neg hempty]
    have hmovie : res.movieID ∈ movieIDs := by
      unfold LogonService.requested at hrequested
      cases hgiven : req.credentials with
      | some given =>
        rw [hgiven] at hrequested
        obtain rfl := Option.some.inj hrequested
        exact hmovieID ▸ hasked given hgiven
      | none =>
        simp only [hgiven] at hrequested
        split_ifs at hrequested
        obtain rfl := Option.some.inj hrequested
        exact absurd hmovieID hempty
    exact hopened.enter (h.free_of_guard hguard) hmovie hempty (by
      simp [stampLevel, MemorySessionStore.port, MemorySessionStore.getConnection,
        MemorySessionStore.setUserAttribute, MemorySessionStore.registerConnection])

theorem Housed.step (hstore : ctx.sessions = MemorySessionStore.port ord) {t t' : Tracked π δ τ}
    {a : Action} (h : Housed movieIDs t.world.sessions t.roster)
    (hasked : ∀ movieID ∈ a.movieID?, movieID ∈ movieIDs) (hstep : track ctx t a = some t') :
    Housed movieIDs t'.world.sessions t'.roster := by
  cases a with
  | logon now connectionID msg =>
    obtain rfl := Option.some.inj hstep
    cases hreq : logonRequest connectionID msg with
    | none =>
      have hpanic : handleLogon ctx now connectionID msg t.world = .error .panic t.world := by
        simp only [handleLogon, hreq]
        rfl
      simp only [hpanic]
      exact h
    | some req =>
      obtain rfl := logonRequest_connectionID hreq
      obtain ⟨response, w', hrun, houtcome⟩ := handleLogon_run hstore now hreq (w := t.world)
      have hmovies : ∀ credentials ∈ req.credentials, credentials.movieID ∈ movieIDs := by
        intro credentials hcredentials
        exact hasked _ (by simp [Action.movieID?, hreq, Option.mem_def.mp hcredentials])
      simp only [hrun, endState]
      rcases houtcome with ⟨hcode, hsame⟩ | ⟨hcode, after, hopens, hafter⟩
      · rw [hsame, Roster.logon, if_pos hcode]
        exact h
      · rw [hafter]
        exact h.logon hstore hmovies hcode hopens
  | join now senderID msg =>
    obtain ⟨response, w', hrun, houtcome⟩ := handleGroupJoin_run hstore now senderID msg
      (w := t.world)
    simp only [track, hrun, Option.some.injEq] at hstep
    subst hstep
    exact h.command (fun groupName _ => h.join groupName) houtcome
  | leave now senderID msg =>
    obtain ⟨response, w', hrun, houtcome⟩ := handleGroupLeave_run hstore now senderID msg
      (w := t.world)
    simp only [track, hrun, Option.some.injEq] at hstep
    subst hstep
    exact h.command (fun groupName _ => h.leave groupName) houtcome
  | send now senderID recipientID subject content =>
    obtain rfl := Option.some.inj hstep
    rw [sendMessage_keepsSessions]
    exact h
  | unregister clientID =>
    obtain rfl := Option.some.inj hstep
    rw [hstore]
    exact h.unregister clientID

end Runs

section Delivery

variable {π δ τ : Type} {ctx : Context π MemorySessionStore δ τ} {ord : RangeOrder GoString}
  {movieIDs : List GoString} {s : MemorySessionStore} {r : Roster}

/-- The members of a group's room are those who joined the group in this movie. -/
theorem Housed.mem_members (h : Housed movieIDs s r) {movieID : GoString}
    (hamong : movieID ∈ movieIDs) (groupName userID : GoString) :
    userID ∈ s.members (groupRoomName movieID groupName) ↔
      ⟨movieID, groupName, userID⟩ ∈ r.joined := by
  rw [h.mirror, h.rooms]
  constructor
  · rintro ⟨movieID', hmovie, hroom | ⟨groupName', hjoined, hroom⟩⟩
    · exact absurd hroom (groupRoomName_ne_movie h.clean hamong)
    · obtain ⟨rfl, rfl⟩ :=
        groupRoomName_inj h.clean hamong (h.among userID movieID' hmovie).1 hroom
      exact hjoined
  · intro hjoined
    exact ⟨movieID, h.joined_movie hjoined, .inr ⟨groupName, hjoined, rfl⟩⟩

theorem Housed.movieAmong (h : Housed movieIDs s r) {userID movieID : GoString}
    (hmovie : r.movieOf.lookup userID = some movieID) :
    movieAmong ctx (s.getClientRooms ord userID) = movieID := by
  obtain ⟨hamong, hne⟩ := h.among userID movieID hmovie
  have hrooms : ∀ room ∈ s.getClientRooms ord userID, (lit "movie:").isPrefixOf room = true →
      room = movieRoomName movieID := by
    intro room hroom hlooks
    obtain ⟨movieID', hmovie', hroom'⟩ :=
      (h.rooms userID room).mp ((ord.mem_keys _ _).mp hroom)
    obtain rfl : movieID = movieID' := Option.some.inj (hmovie.symm.trans hmovie')
    obtain ⟨rest, hrest⟩ := List.isPrefixOf_iff_prefix.mp hlooks
    rcases hroom' with heq | ⟨groupName, -, rfl⟩
    · exact heq
    · exact absurd hrest.symm (groupRoomName_ne_movie h.clean hamong)
  have hin : movieRoomName movieID ∈ s.getClientRooms ord userID :=
    (ord.mem_keys _ _).mpr ((h.rooms userID _).mpr ⟨movieID, hmovie, .inl rfl⟩)
  have hstarts : (lit "movie:").isPrefixOf (movieRoomName movieID) = true :=
    List.isPrefixOf_iff_prefix.mpr ⟨movieID, rfl⟩
  have hfind : (s.getClientRooms ord userID).find? (lit "movie:").isPrefixOf =
      some (movieRoomName movieID) := by
    obtain ⟨room, hroom⟩ := Option.isSome_iff_exists.mp
      (List.find?_isSome.mpr ⟨_, hin, hstarts⟩)
    rw [hroom, hrooms room (List.mem_of_find?_eq_some hroom) (List.find?_some hroom)]
  simp [Mus.movieAmong, hfind, movieRoomName, hne]

/-- A message of a user to a group is offered once to everybody who is in the group of that
name in the user's movie, and to nobody else. Its content is absent or has no holes. -/
def Isolated (ctx : Context π MemorySessionStore δ τ) (t : Tracked π δ τ) : Prop :=
  ∀ now senderID movieID groupRef subject content,
    t.roster.movieOf.lookup senderID = some movieID → (lit "@").isPrefixOf groupRef = true →
    (content = .nil ∨ content.WellFormed) →
    ∃ data w', ∃ members : List GoString,
      wireBytes ctx (newResponse now subject senderID [groupRef] errNoError content) = some data ∧
      sendMessage ctx now senderID groupRef subject content t.world = .ok (.ok ()) w' ∧
      w'.offered = t.world.offered ++ members.map (·, data) ∧ members.Nodup ∧
      ∀ userID, userID ∈ members ↔ ⟨movieID, groupRef, userID⟩ ∈ t.roster.joined

theorem Housed.isolated {writer : ConnectionWriter π}
    (hstore : ctx.sessions = MemorySessionStore.port ord) (hwriter : ctx.connWriter = some writer)
    {t : Tracked π δ τ} (h : Housed movieIDs t.world.sessions t.roster) : Isolated ctx t := by
  intro now senderID movieID groupRef subject content hmovie hgroup hcontent
  obtain ⟨hamong, hne⟩ := h.among senderID movieID hmovie
  have hbytes : (wireBytes ctx
      (newResponse now subject senderID [groupRef] errNoError content)).isSome :=
    wireBytes_isSome hcontent
  obtain ⟨data, hdata⟩ := Option.isSome_iff_exists.mp hbytes
  let members := t.world.sessions.getRoomMembers ord (groupRoomName movieID groupRef)
  obtain ⟨conns, hoffer⟩ := offerEach_run hwriter data members t.world
  have hrooms : (readSessions (ctx.sessions.getClientRooms senderID) t.world :
      EStateM.Result Panic _ _) =
        .ok (.ok (t.world.sessions.getClientRooms ord senderID)) t.world := by
    rw [hstore]
    rfl
  have hmembers :
      (readSessions (ctx.sessions.getRoomMembers (groupRoomName movieID groupRef)) t.world :
      EStateM.Result Panic _ _) = .ok (.ok members) t.world := by
    rw [hstore]
    rfl
  refine ⟨data, { t.world with
    conns := conns
    offered := t.world.offered ++ members.map (·, data) }, members, hdata, ?_, rfl,
    ord.nodup_keys _, fun userID => ?_⟩
  · unfold sendMessage sendMessageFrom deliverToGroup
    rw [if_pos hgroup, bind_of_ok hrooms]
    simp only [h.movieAmong hmovie, hne, if_false]
    rw [bind_of_ok hmembers]
    simp only [hdata]
    rw [bind_of_ok hoffer]
    rfl
  · exact (ord.mem_keys _ _).trans (h.mem_members hamong groupRef userID)

end Delivery

/-- In every run whose logons ask for movies that cannot be mistaken for each other, group
messages are isolated, whatever the writer does and wherever the run stops. -/
theorem isolated_of_clean {π δ τ : Type} {ctx : Context π MemorySessionStore δ τ}
    {ord : RangeOrder GoString} {writer : ConnectionWriter π}
    (hstore : ctx.sessions = MemorySessionStore.port ord) (hwriter : ctx.connWriter = some writer)
    {w : World π MemorySessionStore δ τ} (hnew : w.sessions = .new) {actions : List Action}
    (hclean : CleanMovies (actions.filterMap Action.movieID?)) {t : Tracked π δ τ}
    (hrun : runFrom (track ctx) ⟨w, .empty⟩ actions = some t) : Isolated ctx t := by
  have hstart : Housed (actions.filterMap Action.movieID?) w.sessions Roster.empty := by
    rw [hnew]
    exact housed_new hclean
  have hasked : ∀ a ∈ actions, ∀ movieID ∈ a.movieID?,
      movieID ∈ actions.filterMap Action.movieID? :=
    fun a ha movieID hmovie => List.mem_filterMap.mpr ⟨a, ha, hmovie⟩
  have hhoused := invariant_run
    (I := fun t : Tracked π δ τ => Housed _ t.world.sessions t.roster)
    (fun _ _ _ h hP hstep => h.step hstore hP hstep) hstart (along_of_forall hasked _) hrun
  exact hhoused.isolated hstore hwriter

section Examples

/-- A client logs on. -/
def logsOn (address movieID userID : GoString) : Action :=
  .logon 0 address (commandMessage (lit "Logon")
    (.list [.string movieID, .string userID, .string (lit "secret")]))

def joins (userID groupName : GoString) : Action :=
  .join 0 userID (commandMessage (lit "JoinGroup") (.string groupName))

/-- Two users of one movie and one of another join groups of the same name. -/
def namesakes : List Action :=
  [logsOn (lit "10.0.0.1:50") (lit "m") (lit "alice"),
    logsOn (lit "10.0.0.2:50") (lit "m") (lit "bob"),
    logsOn (lit "10.0.0.3:50") (lit "n") (lit "carol"), joins (lit "alice") (lit "@g"),
    joins (lit "bob") (lit "@g"), joins (lit "carol") (lit "@g")]

/-- Alice's message to her group is offered to bob and not to carol. -/
theorem isolated_namesakes : ∃ t data w', ∃ members : List GoString,
    runFrom (track (standalone ∅)) ⟨Local.empty, .empty⟩ namesakes = some t ∧
      sendMessage (standalone ∅) 0 (lit "alice") (lit "@g") (lit "hello") .void t.world =
        .ok (.ok ()) w' ∧
      w'.offered = t.world.offered ++ members.map (·, data) ∧ members.Nodup ∧
      lit "bob" ∈ members ∧ lit "carol" ∉ members := by
  have hany : (runFrom (track (standalone ∅)) ⟨Local.empty, .empty⟩ namesakes).any (fun t => decide
      (t.roster.movieOf.lookup (lit "alice") = some (lit "m") ∧
        ⟨lit "m", lit "@g", lit "bob"⟩ ∈ t.roster.joined ∧
        ⟨lit "m", lit "@g", lit "carol"⟩ ∉ t.roster.joined)) = true := by
    decide +kernel
  obtain ⟨t, hrun, ht⟩ := exists_run_of_any hany
  simp only [decide_eq_true_eq] at ht
  obtain ⟨halice, hbob, hcarol⟩ := ht
  obtain ⟨data, w', members, -, hsend, hoffered, hnodup, hmembers⟩ :=
    isolated_of_clean rfl rfl rfl
      (by decide +kernel : CleanMovies (namesakes.filterMap Action.movieID?)) hrun 0
      (lit "alice") (lit "m") (lit "@g") (lit "hello") .void halice (by decide +kernel)
      (.inr (LValue.wellFormed_of_leaf trivial rfl))
  exact ⟨t, data, w', members, hrun, hsend, hoffered, hnodup, (hmembers _).mpr hbob,
    fun h => hcarol ((hmembers _).mp h)⟩

/-- Bob's group `@c` of movie `a:@b` has the room of alice's group `@b:@c` of movie `a`. -/
def collision : List Action :=
  [logsOn (lit "10.0.0.1:50") (lit "a") (lit "alice"), joins (lit "alice") (lit "@b:@c"),
    logsOn (lit "10.0.0.2:50") (lit "a:@b") (lit "bob"), joins (lit "bob") (lit "@c")]

/-- The message was sent without an error. -/
def delivered {ω : Type} : EStateM.Result Panic ω (Except DeliveryError Unit) → Bool
  | .ok (.ok _) _ => true
  | _ => false

theorem eq_of_delivered {ω : Type} {r : EStateM.Result Panic ω (Except DeliveryError Unit)}
    (h : delivered r = true) : r = .ok (.ok ()) (endState r) := by
  unfold delivered at h
  split at h
  · rfl
  · cases h

/-- Bob's message to his group is offered to alice, who is in another movie. -/
theorem group_message_crosses_movies :
    ∃ t w', runFrom (track (standalone ∅)) ⟨Local.empty, .empty⟩ collision = some t ∧
      t.roster.movieOf.lookup (lit "bob") = some (lit "a:@b") ∧
      t.roster.movieOf.lookup (lit "alice") = some (lit "a") ∧
      ⟨lit "a:@b", lit "@c", lit "alice"⟩ ∉ t.roster.joined ∧ t.world.offered = [] ∧
      sendMessage (standalone ∅) 0 (lit "bob") (lit "@c") (lit "hello") .void t.world =
        .ok (.ok ()) w' ∧ lit "alice" ∈ w'.offered.map Prod.fst := by
  let send (t : Tracked Unit Unit Unit) :=
    sendMessage (standalone ∅) 0 (lit "bob") (lit "@c") (lit "hello") .void t.world
  have hany : (runFrom (track (standalone ∅)) ⟨Local.empty, .empty⟩ collision).any (fun t => decide
      (t.roster.movieOf.lookup (lit "bob") = some (lit "a:@b") ∧
        t.roster.movieOf.lookup (lit "alice") = some (lit "a") ∧
        ⟨lit "a:@b", lit "@c", lit "alice"⟩ ∉ t.roster.joined ∧ t.world.offered = [] ∧
        delivered (send t) = true ∧ lit "alice" ∈ (endState (send t)).offered.map Prod.fst)) =
      true := by
    decide +kernel
  obtain ⟨t, hrun, ht⟩ := exists_run_of_any hany
  simp only [decide_eq_true_eq] at ht
  obtain ⟨hbob, halice, hjoined, hoffered, hsend, hcrosses⟩ := ht
  exact ⟨t, _, hrun, hbob, halice, hjoined, hoffered, eq_of_delivered hsend, hcrosses⟩

end Examples

end Musgos.Mus
