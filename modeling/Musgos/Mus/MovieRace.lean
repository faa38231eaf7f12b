import Musgos.Foundation.Census
import Musgos.Foundation.Transition
import Musgos.Mus.Movie
import Musgos.Outbound.SessionOps

/-!
# Movies and the members of their rooms

Which movies exist is kept in `MovieManager.movies`, who is in a movie in a room of the
session store. `JoinMovie` makes the movie under the manager's mutex and joins the room
after it; `LeaveMovie` holds the mutex to its end and destroys the movie when it finds
the room empty; the clean-up of a session empties rooms without the manager. The calls
of any number of users take their steps in any order, on the in-memory store, whose
operations are atomic and do not fail.
-/
namespace Musgos.Mus

open Foundation Outbound

/-- How far `JoinMovie` has come. -/
inductive JoinStage where
  /-- The section under the mutex. -/
  | lock
  | joinRoom (movie : ℕ)
  | getGroup (movie : ℕ)
  | addGroup (movie : ℕ)
  | joinAllUsers
  | done
  deriving DecidableEq

/-- From `groupNames` to `unlock` the mutex is held. -/
inductive LeaveStage where
  | lock
  | groupNames (movie : ℕ)
  | leaveGroups (names : List GoString)
  | deleteAttribute
  | leaveRoom
  | readMembers
  | delete
  | unlock
  | done
  deriving DecidableEq

/-- A call of the movie manager, with what it was given and how far it has come. -/
inductive MovieCall where
  | joinMovie (movieID userID : GoString) (stage : JoinStage)
  | leaveMovie (movieID userID : GoString) (stage : LeaveStage)
  deriving DecidableEq

def MovieCall.done : MovieCall → Bool
  | .joinMovie _ _ .done | .leaveMovie _ _ .done => true
  | _ => false

def MovieCall.movieID : MovieCall → GoString
  | .joinMovie movieID _ _ | .leaveMovie movieID _ _ => movieID

/-- The clean-up of a session: the store's operations that take a user out of all rooms. -/
inductive CleanUp where
  | unregisterConnection (userID : GoString)
  | leaveAllRooms (userID : GoString)

namespace CleanUp

def userID : CleanUp → GoString
  | .unregisterConnection userID | .leaveAllRooms userID => userID

def op : CleanUp → SessionOp
  | .unregisterConnection userID => .unregisterConnection userID
  | .leaveAllRooms userID => .leaveAllRooms userID

end CleanUp

/-- The movie manager and its session store, with the calls under way. -/
structure MovieSystem where
  store : MemorySessionStore
  /-- The movies by their id, as references to movie objects. -/
  movies : GoMap GoString ℕ
  objects : List Movie
  /-- The mutex is held between the steps of a call. -/
  locked : Bool
  calls : GoMap ℕ MovieCall

/-- A call starts or takes its next step, or the server cleans up after a user. -/
inductive MovieAction where
  | joinMovie (id : ℕ) (movieID userID : GoString)
  | leaveMovie (id : ℕ) (movieID userID : GoString)
  | exec (id : ℕ) (ord : RangeOrder GoString)
  | cleanUp (c : CleanUp)

namespace MovieSystem

def init : MovieSystem := ⟨.new, ∅, [], false, ∅⟩

/-- The members of the movie's room. -/
def members (s : MovieSystem) (movieID : GoString) : Finset GoString :=
  s.store.members (movieRoomName movieID)

def goOn (s : MovieSystem) (id : ℕ) (call : MovieCall) : MovieSystem :=
  { s with calls := s.calls.insert id call }

def groupNames (s : MovieSystem) (movie : ℕ) : Finset GoString :=
  (s.objects[movie]?).elim ∅ fun m => m.groups.keys

/-- The next step of a `JoinMovie`; `none` while the mutex is held by another call. -/
def join (s : MovieSystem) (id : ℕ) (movieID userID : GoString) : JoinStage → Option MovieSystem
  | .lock =>
    if s.locked then none
    else
      match s.movies.lookup movieID with
      | some movie => some (s.goOn id (.joinMovie movieID userID (.joinRoom movie)))
      | none =>
        some ({ s with
          movies := s.movies.insert movieID s.objects.length
          objects := s.objects ++ [(⟨∅⟩ : Movie)] }.goOn id
            (.joinMovie movieID userID (.joinRoom s.objects.length)))
  | .joinRoom movie =>
    some ({ s with store := s.store.joinRoom (movieRoomName movieID) userID }.goOn id
      (.joinMovie movieID userID (.getGroup movie)))
  | .getGroup movie =>
    some (s.goOn id (.joinMovie movieID userID
      (if allUsers ∈ s.groupNames movie then .joinAllUsers else .addGroup movie)))
  | .addGroup movie =>
    some ({ s with
      objects := s.objects.modify movie fun m => ⟨m.groups.insert allUsers ⟨∅⟩⟩ }.goOn id
        (.joinMovie movieID userID .joinAllUsers))
  | .joinAllUsers =>
    some ({ s with store := s.store.joinRoom (groupRoomName movieID allUsers) userID }.goOn id
      (.joinMovie movieID userID .done))
  | .done => none

/-- The next step of a `LeaveMovie`. -/
def leave (s : MovieSystem) (id : ℕ) (ord : RangeOrder GoString) (movieID userID : GoString) :
    LeaveStage → Option MovieSystem
  | .lock =>
    if s.locked then none
    else
      match s.movies.lookup movieID with
      -- `movie not found`
      | none => some (s.goOn id (.leaveMovie movieID userID .done))
      | some movie =>
        some ({ s with locked := true }.goOn id (.leaveMovie movieID userID (.groupNames movie)))
  | .groupNames movie =>
    some (s.goOn id (.leaveMovie movieID userID (.leaveGroups (ord.keys (s.groupNames movie)))))
  | .leaveGroups [] => some (s.goOn id (.leaveMovie movieID userID .deleteAttribute))
  | .leaveGroups (name :: names) =>
    some ({ s with store := s.store.leaveRoom (groupRoomName movieID name) userID }.goOn id
      (.leaveMovie movieID userID (.leaveGroups names)))
  | .deleteAttribute =>
    some ({ s with store := s.store.deleteUserAttribute userID (lit "#movieID") }.goOn id
      (.leaveMovie movieID userID .leaveRoom))
  | .leaveRoom =>
    some ({ s with store := s.store.leaveRoom (movieRoomName movieID) userID }.goOn id
      (.leaveMovie movieID userID .readMembers))
  | .readMembers =>
    some (s.goOn id (.leaveMovie movieID userID
      (if s.members movieID = ∅ then .delete else .unlock)))
  | .delete =>
    some ({ s with movies := s.movies.erase movieID }.goOn id (.leaveMovie movieID userID .unlock))
  | .unlock => some ({ s with locked := false }.goOn id (.leaveMovie movieID userID .done))
  | .done => none

def step (s : MovieSystem) : MovieAction → Option MovieSystem
  | .joinMovie id movieID userID =>
    if id ∈ s.calls then none else some (s.goOn id (.joinMovie movieID userID .lock))
  | .leaveMovie id movieID userID =>
    if id ∈ s.calls then none else some (s.goOn id (.leaveMovie movieID userID .lock))
  | .exec id ord =>
    match s.calls.lookup id with
    | none => none
    | some (.joinMovie movieID userID stage) => s.join id movieID userID stage
    | some (.leaveMovie movieID userID stage) => s.leave id ord movieID userID stage
  | .cleanUp c => some { s with store := s.store.apply c.op }

/-- All calls have returned. -/
def Quiet (s : MovieSystem) : Prop := ∀ id ∈ s.calls.keys, (s.calls.lookup id).all MovieCall.done

instance decidableQuiet (s : MovieSystem) : Decidable s.Quiet :=
  inferInstanceAs (Decidable (∀ id ∈ s.calls.keys, _))

/-- A movie is there exactly when somebody is in it. -/
def Agree (s : MovieSystem) : Prop := ∀ movieID, movieID ∈ s.movies ↔ (s.members movieID).Nonempty

end MovieSystem

section Names

/-- The rooms of the movie's groups are no movie's rooms: the id is not `movie` and does not begin
with `movie:`. -/
def plainMovieID (movieID : GoString) : Bool :=
  decide (movieID ≠ lit "movie" ∧ ¬ lit "movie:" <+: movieID)

theorem movieRoomName_injective : Function.Injective movieRoomName :=
  fun _ _ h => List.append_cancel_left h

theorem groupRoomName_ne_movieRoomName {movieID : GoString} (h : plainMovieID movieID = true)
    (groupName other : GoString) : movieRoomName other ≠ groupRoomName movieID groupName := by
  obtain ⟨hmovie, hprefix⟩ := of_decide_eq_true h
  have hlit : lit "movie:" = [109, 111, 118, 105, 101, 58] := by decide
  have hlit' : lit "movie" = [109, 111, 118, 105, 101] := by decide
  have hcolon : lit ":" = [58] := by decide
  rw [movieRoomName, groupRoomName, List.append_assoc, Ne, List.append_eq_append_iff]
  rintro (⟨rest, rfl, -⟩ | ⟨rest, hmovieID, hrest⟩)
  · exact hprefix ⟨rest, rfl⟩
  · rw [hcolon] at hrest
    cases rest with
    | nil => exact hprefix ⟨[], by simpa using hmovieID⟩
    | cons b rest =>
      obtain rfl : 58 = b := (List.cons.inj hrest).1
      rw [hlit] at hmovieID
      rw [hlit'] at hmovie
      rcases movieID with _ | ⟨a₁, _ | ⟨a₂, _ | ⟨a₃, _ | ⟨a₄, _ | ⟨a₅, _ | ⟨a₆, tail⟩⟩⟩⟩⟩⟩ <;>
        simp_all

end Names

namespace MovieSystem

section Alone

/-- The next steps of a call that nothing holds up. -/
def execs (id steps : ℕ) (ord : RangeOrder GoString) : List MovieAction :=
  List.replicate steps (.exec id ord)

variable {π δ τ ε : Type} {ctx : Context π MemorySessionStore δ τ} {s s' : MovieSystem}
  {w : World π MemorySessionStore δ τ} {id : ℕ} {m u : GoString}

/-- The world holds the store and the movies with the contents of their objects. -/
structure Shows (s : MovieSystem) (w : World π MemorySessionStore δ τ) : Prop where
  sessions : w.sessions = s.store
  movies : ∀ m, w.movies.lookup m = (s.movies.lookup m).bind fun movie => s.objects[movie]?
  /-- Every movie has an object of its own. -/
  allocated : ∀ m movie, s.movies.lookup m = some movie → movie < s.objects.length
  distinct : ∀ m m' movie, s.movies.lookup m = some movie → s.movies.lookup m' = some movie → m = m'

theorem Shows.goOn (h : s.Shows w) (id : ℕ) (call : MovieCall) : (s.goOn id call).Shows w :=
  ⟨h.sessions, h.movies, h.allocated, h.distinct⟩

theorem Shows.join_lock (h : s.Shows w) (hlocked : s.locked = false) (id : ℕ) (m u : GoString) :
    ∃ (s' : MovieSystem) (movie : ℕ) (obj : Movie) (w' : World π MemorySessionStore δ τ),
      s.join id m u .lock = some (s'.goOn id (.joinMovie m u (.joinRoom movie))) ∧
      (ensureMovie m w : EStateM.Result ε _ _) = .ok () w' ∧ s'.Shows w' ∧
      s'.movies.lookup m = some movie ∧ w'.movies.lookup m = some obj := by
  have hm := h.movies m
  cases hmovie : s.movies.lookup m with
  | some movie =>
    have hlt := h.allocated m movie hmovie
    rw [hmovie, Option.bind_some, List.getElem?_eq_getElem hlt] at hm
    refine ⟨s, movie, _, w, ?_, ?_, h, hmovie, hm⟩
    · simp [MovieSystem.join, hlocked, hmovie]
    · simp [ensureMovie, hm]
  | none =>
    rw [hmovie, Option.bind_none] at hm
    refine ⟨{ s with
        movies := s.movies.insert m s.objects.length
        objects := s.objects ++ [(⟨∅⟩ : Movie)] }, s.objects.length, ⟨∅⟩,
      { w with movies := w.movies.insert m ⟨∅⟩ }, ?_, ?_, ⟨h.sessions, ?_, ?_, ?_⟩,
      Finmap.lookup_insert _, Finmap.lookup_insert _⟩
    · simp [MovieSystem.join, hlocked, hmovie]
    · simp [ensureMovie, hm]
    · intro m'
      simp only [GoMap.lookup_insert_ite]
      split_ifs with hm'
      · simp
      · rw [h.movies m']
        cases hmovie' : s.movies.lookup m' with
        | none => rfl
        | some movie' =>
          have hlt := h.allocated m' movie' hmovie'
          simp [List.getElem?_append_left hlt]
    · refine GoMap.forall_lookup_insert ?_ fun m' movie' _ hm' => ?_
      · simp
      · exact (h.allocated m' movie' hm').trans_le (by simp)
    · intro m₁ m₂ movie' h₁ h₂
      simp only [GoMap.lookup_insert_ite] at h₁ h₂
      split_ifs at h₁ h₂ with hm₁ hm₂ hm₂
      · rw [hm₁, hm₂]
      · obtain rfl := Option.some.inj h₁
        exact absurd (h.allocated m₂ _ h₂) (Nat.lt_irrefl _)
      · obtain rfl := Option.some.inj h₂
        exact absurd (h.allocated m₁ _ h₁) (Nat.lt_irrefl _)
      · exact h.distinct m₁ m₂ movie' h₁ h₂

theorem Shows.joinRoom (h : s.Shows w) (room u : GoString) :
    Shows { s with store := s.store.joinRoom room u }
      { w with sessions := w.sessions.joinRoom room u } :=
  ⟨by rw [h.sessions], h.movies, h.allocated, h.distinct⟩

theorem run_join {stage : JoinStage} {n : ℕ} {ord : RangeOrder GoString} {t : MovieSystem}
    (hid : s.calls.lookup id = some (.joinMovie m u stage))
    (hjoin : s.join id m u stage = some s') (hrest : runFrom step s' (execs id n ord) = some t) :
    runFrom step s (execs id (n + 1) ord) = some t := by
  have hstep : s.step (.exec id ord) = some s' := by simp [step, hid, hjoin]
  rw [execs, List.replicate_succ, runFrom, hstep]
  exact hrest

theorem writeSessions_joinRoom {ordM : RangeOrder GoString}
    (hctx : ctx.sessions = MemorySessionStore.port ordM) (room u : GoString)
    (w : World π MemorySessionStore δ τ) :
    (writeSessions (ctx.sessions.joinRoom room u) w : EStateM.Result ε _ _) =
      .ok (.ok ()) { w with sessions := w.sessions.joinRoom room u } := by
  rw [hctx]
  rfl

theorem Shows.addGroup (h : s.Shows w) {movie : ℕ} {obj : Movie}
    (hmovie : s.movies.lookup m = some movie) (hread : s.objects[movie]? = some obj)
    (name : GoString) :
    Shows { s with objects := s.objects.modify movie fun m => ⟨m.groups.insert name ⟨∅⟩⟩ }
      { w with movies := w.movies.insert m ⟨obj.groups.insert name ⟨∅⟩⟩ } := by
  refine ⟨h.sessions, ?_, ?_, h.distinct⟩
  · intro m'
    simp only [GoMap.lookup_insert_ite, List.getElem?_modify]
    split_ifs with hm'
    · subst hm'
      simp [hmovie, hread]
    · rw [h.movies m']
      cases hmovie' : s.movies.lookup m' with
      | none => rfl
      | some movie' =>
        have hne : movie ≠ movie' := by
          rintro rfl
          exact hm' (h.distinct m' m movie hmovie' hmovie)
        simp [hne]
  · intro m' movie' hm'
    simpa using h.allocated m' movie' hm'

theorem run_joinAllUsers (h : s.Shows w)
    (hid : s.calls.lookup id = some (.joinMovie m u .joinAllUsers)) (ord : RangeOrder GoString) :
    ∃ s', runFrom step s (execs id 1 ord) = some s' ∧
      s'.calls.lookup id = some (.joinMovie m u .done) ∧
      s'.Shows { w with sessions := w.sessions.joinRoom (groupRoomName m allUsers) u } :=
  ⟨_, run_join hid rfl rfl, Finmap.lookup_insert _, (h.joinRoom _ u).goOn id _⟩

/-- `GetGroup` and, if it finds nothing, `AddGroup` do what `ensureGroup` does. -/
theorem run_getGroup (h : s.Shows w) {movie : ℕ} {obj : Movie}
    (hid : s.calls.lookup id = some (.joinMovie m u (.getGroup movie)))
    (hmovie : s.movies.lookup m = some movie) (hobj : w.movies.lookup m = some obj)
    (ord : RangeOrder GoString) :
    ∃ n s' w', runFrom step s (execs id n ord) = some s' ∧
      s'.calls.lookup id = some (.joinMovie m u .done) ∧
      (ensureGroup m allUsers w : EStateM.Result ε _ _) = .ok () w' ∧
      s'.Shows { w' with sessions := w'.sessions.joinRoom (groupRoomName m allUsers) u } := by
  have hread : s.objects[movie]? = some obj := by
    rw [h.movies m, hmovie, Option.bind_some] at hobj
    exact hobj
  have hnames : s.groupNames movie = obj.groups.keys := by simp [groupNames, hread]
  cases hgroup : obj.groups.lookup allUsers with
  | some group =>
    have hin : allUsers ∈ s.groupNames movie := by
      rw [hnames]
      exact Finmap.mem_keys.mpr (Finmap.mem_of_lookup_eq_some hgroup)
    have hjoin : s.join id m u (.getGroup movie) =
        some (s.goOn id (.joinMovie m u .joinAllUsers)) := by simp [join, hin]
    obtain ⟨s', hrun, hdone, hs'⟩ := run_joinAllUsers (h.goOn id _) (Finmap.lookup_insert _) ord
    exact ⟨2, s', w, run_join hid hjoin hrun, hdone, by simp [ensureGroup, hobj, hgroup], hs'⟩
  | none =>
    have hnot : allUsers ∉ s.groupNames movie := by
      rw [hnames, Finmap.mem_keys]
      exact Finmap.lookup_eq_none.mp hgroup
    have hjoin : s.join id m u (.getGroup movie) =
        some (s.goOn id (.joinMovie m u (.addGroup movie))) := by simp [join, hnot]
    have hadd := (h.goOn id (.joinMovie m u (.addGroup movie))).addGroup hmovie hread allUsers
    obtain ⟨s', hrun, hdone, hs'⟩ := run_joinAllUsers (hadd.goOn id _) (Finmap.lookup_insert _) ord
    refine ⟨3, s', _, run_join hid hjoin (run_join (Finmap.lookup_insert _) rfl hrun), hdone, ?_,
      hs'⟩
    simp [ensureGroup, putGroup, hobj, hgroup]

/-- A `JoinMovie` that runs alone does what `joinMovie` does. -/
theorem run_join_alone {ordM : RangeOrder GoString}
    (hctx : ctx.sessions = MemorySessionStore.port ordM) (h : s.Shows w)
    (hlocked : s.locked = false)
    (hid : s.calls.lookup id = some (.joinMovie m u .lock)) (ord : RangeOrder GoString) :
    ∃ n s' w', runFrom step s (execs id n ord) = some s' ∧
      s'.calls.lookup id = some (.joinMovie m u .done) ∧
      (joinMovie ctx m u w : EStateM.Result ε _ _) = .ok true w' ∧ s'.Shows w' := by
  obtain ⟨s₁, movie, obj, w₁, hjoin, hensure, h₁, hmovie, hobj⟩ := h.join_lock hlocked id m u
  have h₂ := (h₁.goOn id (.joinMovie m u (.joinRoom movie))).joinRoom (movieRoomName m) u
  obtain ⟨n, s', w₃, hrun, hdone, hgroup, hs'⟩ :=
    run_getGroup (h₂.goOn id (.joinMovie m u (.getGroup movie))) (Finmap.lookup_insert _) hmovie
      hobj ord
  refine ⟨n + 2, s', _, run_join hid hjoin (run_join (Finmap.lookup_insert _) rfl hrun), hdone, ?_,
    hs'⟩
  rw [joinMovie, bind_of_ok hensure, bind_of_ok (writeSessions_joinRoom hctx _ u w₁)]
  dsimp only
  rw [bind_of_ok hgroup, bind_of_ok (writeSessions_joinRoom hctx _ u w₃)]
  rfl

end Alone

section Marks

/-- A `JoinMovie` has found or made the movie and not joined its room. -/
def joins (m : GoString) : MovieCall → Bool
  | .joinMovie movieID _ (.joinRoom _) => decide (movieID = m)
  | _ => false

/-- A `LeaveMovie` has left the room and not yet settled whether the movie stays. -/
def empties (m : GoString) : MovieCall → Bool
  | .leaveMovie movieID _ .readMembers | .leaveMovie movieID _ .delete => decide (movieID = m)
  | _ => false

/-- A `LeaveMovie` is about to destroy the movie. -/
def deletes (m : GoString) : MovieCall → Bool
  | .leaveMovie movieID _ .delete => decide (movieID = m)
  | _ => false

def holdsLock : MovieCall → Bool
  | .joinMovie _ _ _ | .leaveMovie _ _ .lock | .leaveMovie _ _ .done => false
  | .leaveMovie _ _ _ => true

/-- The rooms of the groups of the call's movie are no movie's rooms. -/
def plainCall : MovieCall → Bool
  | .joinMovie movieID _ _ => plainMovieID movieID
  | .leaveMovie movieID u stage => !holdsLock (.leaveMovie movieID u stage) || plainMovieID movieID

/-- The call counts in the balance of the movie. -/
def marked (m : GoString) (call : MovieCall) : Bool := joins m call || empties m call

def joiners (s : MovieSystem) (m : GoString) : ℕ := s.calls.census (joins m)

def emptiers (s : MovieSystem) (m : GoString) : ℕ := s.calls.census (empties m)

def deleters (s : MovieSystem) (m : GoString) : ℕ := s.calls.census (deletes m)

/-- Joins avoid the ids that collide with names of group rooms, no `LeaveMovie` finds a room empty
that a `JoinMovie` is about to join, and no clean-up takes the last member out of a movie. -/
def orderly (s : MovieSystem) : MovieAction → Bool
  | .joinMovie _ movieID _ => plainMovieID movieID
  | .leaveMovie _ _ _ => true
  | .exec id _ =>
    match s.calls.lookup id with
    | some (.leaveMovie movieID _ .readMembers) =>
      decide (s.members movieID = ∅ → s.joiners movieID = 0)
    | _ => true
  | .cleanUp c => decide (∀ movieID ∈ s.movies.keys, s.members movieID ≠ {c.userID})

end Marks

section Invariant

variable {s s' : MovieSystem} {m : GoString}

/-- How a movie and its room stand while calls are under way. -/
structure Balanced (s : MovieSystem) (m : GoString) : Prop where
  present : (s.members m).Nonempty → m ∈ s.movies
  occupied : m ∈ s.movies → (s.members m).Nonempty ∨ 0 < s.joiners m ∨ 0 < s.emptiers m
  joining : 0 < s.joiners m → m ∈ s.movies
  deleting : 0 < s.deleters m → s.members m = ∅ ∧ s.joiners m = 0

/-- The invariant: at most one call is under the mutex, and every movie is balanced. -/
structure Sound (s : MovieSystem) : Prop where
  mirror : s.store.RoomsMirror
  mutex : s.calls.census holdsLock = s.locked.toNat
  plain : ∀ m, m ∈ s.movies → plainMovieID m = true
  plainCalls : ∀ id call, s.calls.lookup id = some call → plainCall call = true
  balanced : ∀ m, s.Balanced m

theorem init_sound : init.Sound where
  mirror := MemorySessionStore.new_roomsMirror
  mutex := rfl
  plain _ hm := absurd hm Finmap.notMem_empty
  plainCalls := by simp [init]
  balanced _ := ⟨by simp [init, members, MemorySessionStore.members, MemorySessionStore.new],
    fun hm => absurd hm Finmap.notMem_empty, fun h => absurd h (Nat.lt_irrefl 0),
    fun h => absurd h (Nat.lt_irrefl 0)⟩

theorem Balanced.congr (h : s.Balanced m) (hmembers : s'.members m = s.members m)
    (hmovies : m ∈ s'.movies ↔ m ∈ s.movies) (hjoiners : s'.joiners m = s.joiners m)
    (hemptiers : s'.emptiers m = s.emptiers m) (hdeleters : s'.deleters m = s.deleters m) :
    s'.Balanced m := by
  obtain ⟨hpresent, hoccupied, hjoining, hdeleting⟩ := h
  constructor
  · rwa [hmembers, hmovies]
  · rwa [hmembers, hmovies, hjoiners, hemptiers]
  · rwa [hmovies, hjoiners]
  · rwa [hmembers, hjoiners, hdeleters]

theorem deletes_of_not_marked {call : MovieCall} (h : marked m call = false) :
    deletes m call = false := by
  cases call with
  | joinMovie movieID u stage => rfl
  | leaveMovie movieID u stage => cases stage <;> simp_all [marked, joins, empties, deletes]

theorem marked_of_ne {call : MovieCall} (h : m ≠ call.movieID) : marked m call = false := by
  cases call with
  | joinMovie movieID u stage =>
    cases stage <;> simp [marked, joins, empties]
    exact h.symm
  | leaveMovie movieID u stage =>
    cases stage <;> simp [marked, joins, empties]
    all_goals exact h.symm

theorem Balanced.next (h : s.Balanced m) {id : ℕ} {call : MovieCall}
    (hcalls : s'.calls = s.calls.insert id call)
    (hold : (s.calls.lookup id).any (marked m) = false) (hnew : marked m call = false)
    (hmembers : s'.members m = s.members m) (hmovies : m ∈ s'.movies ↔ m ∈ s.movies) :
    s'.Balanced m := by
  have hmarks : ∀ p : MovieCall → Bool, (∀ call, marked m call = false → p call = false) →
      s'.calls.census p = s.calls.census p := by
    intro p hp
    rw [hcalls, GoMap.census_insert_eq]
    rw [hp call hnew]
    cases hid : s.calls.lookup id with
    | none => rfl
    | some old =>
      rw [hid, Option.any_some] at hold
      exact hp old hold
  refine h.congr hmembers hmovies (hmarks _ ?_) (hmarks _ ?_) (hmarks _ ?_)
  · intro call hcall
    exact (Bool.or_eq_false_iff.mp hcall).1
  · intro call hcall
    exact (Bool.or_eq_false_iff.mp hcall).2
  · exact fun call => deletes_of_not_marked

variable {id : ℕ} {u : GoString}

theorem census_goOn (p : MovieCall → Bool) {old : Option MovieCall} {call : MovieCall}
    (hid : s.calls.lookup id = old) (hcalls : s'.calls = s.calls.insert id call) :
    s'.calls.census p + (old.any p).toNat = s.calls.census p + (p call).toNat := by
  rw [hcalls, ← hid]
  exact GoMap.census_insert p s.calls id call

theorem Sound.next (h : s.Sound) {old : Option MovieCall} {call : MovieCall}
    (hid : s.calls.lookup id = old) (hcalls : s'.calls = s.calls.insert id call)
    (hmirror : s'.store.RoomsMirror)
    (hlock : s'.locked.toNat + (old.any holdsLock).toNat =
      s.locked.toNat + (holdsLock call).toNat)
    (hplain : ∀ m, m ∈ s'.movies → plainMovieID m = true) (hcall : plainCall call = true)
    (hbalanced : ∀ m, s'.Balanced m) : s'.Sound where
  mirror := hmirror
  mutex := by
    have hinsert := census_goOn holdsLock hid hcalls
    have hmutex := h.mutex
    omega
  plain := hplain
  plainCalls := by
    rw [hcalls]
    exact GoMap.forall_lookup_insert hcall fun id' call' _ => h.plainCalls id' call'
  balanced := hbalanced

theorem Sound.neutral (h : s.Sound) {old : Option MovieCall} {call : MovieCall}
    (hid : s.calls.lookup id = old) (hcalls : s'.calls = s.calls.insert id call)
    (hmirror : s'.store.RoomsMirror)
    (hlock : s'.locked.toNat + (old.any holdsLock).toNat =
      s.locked.toNat + (holdsLock call).toNat)
    (hcall : plainCall call = true) (hold : ∀ m, old.any (marked m) = false)
    (hnew : ∀ m, marked m call = false) (hmovies : s'.movies = s.movies)
    (hmembers : ∀ m, s'.members m = s.members m) : s'.Sound :=
  h.next hid hcalls hmirror hlock (hmovies ▸ h.plain) hcall fun m =>
    (h.balanced m).next hcalls (hid ▸ hold m) (hnew m) (hmembers m) (by rw [hmovies])

theorem Sound.about (h : s.Sound) {old call : MovieCall} (hid : s.calls.lookup id = some old)
    (hcalls : s'.calls = s.calls.insert id call) (hold : old.movieID = m)
    (hnew : call.movieID = m) (hmirror : s'.store.RoomsMirror)
    (hlock : s'.locked.toNat + (holdsLock old).toNat = s.locked.toNat + (holdsLock call).toNat)
    (hplain : plainMovieID m = true) (hcall : plainCall call = true)
    (hmovies : ∀ m', m' ≠ m → (m' ∈ s'.movies ↔ m' ∈ s.movies))
    (hmembers : ∀ m', m' ≠ m → s'.members m' = s.members m') (hbalanced : s'.Balanced m) :
    s'.Sound := by
  refine h.next hid hcalls hmirror hlock (fun m' hm' => ?_) hcall fun m' => ?_
  all_goals by_cases hm : m' = m
  · rw [hm]
    exact hplain
  · exact h.plain m' ((hmovies m' hm).mp hm')
  · rw [hm]
    exact hbalanced
  · refine (h.balanced m').next hcalls ?_ ?_ (hmembers m' hm) (hmovies m' hm)
    · rw [hid]
      exact marked_of_ne (hold ▸ hm)
    · exact marked_of_ne (hnew ▸ hm)

/-- While nobody holds the mutex no movie is about to be destroyed. -/
theorem Sound.deleters_eq_zero (h : s.Sound) (hlocked : s.locked = false) (m : GoString) :
    s.deleters m = 0 := by
  have hmutex := h.mutex
  rw [hlocked] at hmutex
  refine GoMap.census_eq_zero_iff.mpr fun id call hid => ?_
  have hcall := GoMap.census_eq_zero_iff.mp hmutex id call hid
  cases call with
  | joinMovie => rfl
  | leaveMovie movieID u stage => cases stage <;> simp_all [deletes, holdsLock]

/-- A `JoinMovie` finds the movie or makes it. -/
theorem Sound.enters (h : s.Sound) {movie : ℕ}
    (hid : s.calls.lookup id = some (.joinMovie m u .lock)) (hlocked : s.locked = false)
    (hcalls : s'.calls = s.calls.insert id (.joinMovie m u (.joinRoom movie)))
    (hstore : s'.store = s.store) (hlocked' : s'.locked = s.locked)
    (hmovies : ∀ m', m' ∈ s'.movies ↔ m' = m ∨ m' ∈ s.movies) : s'.Sound := by
  have hplain : plainMovieID m = true := h.plainCalls id _ hid
  have hjoiners := census_goOn (joins m) hid hcalls
  have hdeleters := census_goOn (deletes m) hid hcalls
  have hzero := h.deleters_eq_zero hlocked m
  simp [joins, deletes] at hjoiners hdeleters
  have hin : m ∈ s'.movies := (hmovies m).mpr (.inl rfl)
  refine h.about (m := m) hid hcalls rfl rfl (hstore ▸ h.mirror) (by rw [hlocked']; rfl) hplain
    hplain (fun m' hm => by rw [hmovies, or_iff_right hm])
    (fun m' _ => by rw [members, hstore]; rfl)
    ⟨fun _ => hin, fun _ => .inr (.inl ?_), fun _ => hin, ?_⟩
  · rw [joiners, hjoiners]
    exact Nat.succ_pos _
  · intro hdel
    rw [deleters, hdeleters] at hdel
    exact absurd hzero hdel.ne'

theorem Sound.joinRoom (h : s.Sound) {movie : ℕ}
    (hid : s.calls.lookup id = some (.joinMovie m u (.joinRoom movie)))
    (hs' : s' = { s with store := s.store.joinRoom (movieRoomName m) u }.goOn id
      (.joinMovie m u (.getGroup movie))) : s'.Sound := by
  have hplain : plainMovieID m = true := h.plainCalls id _ hid
  have hcalls : s'.calls = s.calls.insert id (.joinMovie m u (.getGroup movie)) := by rw [hs']; rfl
  have hdeleters := census_goOn (deletes m) hid hcalls
  simp [deletes] at hdeleters
  have hpos : 0 < s.joiners m := GoMap.census_pos hid (by simp [joins])
  have hin : m ∈ s.movies := (h.balanced m).joining hpos
  subst hs'
  refine h.about (m := m) hid hcalls rfl rfl (h.mirror.joinRoom _ _) rfl hplain hplain
    (fun _ _ => Iff.rfl) ?_ ⟨fun _ => hin, fun _ => .inl ?_, fun _ => hin, ?_⟩
  · intro m' hm
    simp [members, goOn, movieRoomName_injective.ne hm]
  · simp [members, goOn]
  · intro hdel
    rw [deleters, hdeleters] at hdel
    exact absurd ((h.balanced m).deleting hdel).2 hpos.ne'

theorem Sound.leaveRoom (h : s.Sound)
    (hid : s.calls.lookup id = some (.leaveMovie m u .leaveRoom))
    (hs' : s' = { s with store := s.store.leaveRoom (movieRoomName m) u }.goOn id
      (.leaveMovie m u .readMembers)) : s'.Sound := by
  have hplain : plainMovieID m = true := h.plainCalls id _ hid
  have hcalls : s'.calls = s.calls.insert id (.leaveMovie m u .readMembers) := by rw [hs']; rfl
  have hjoiners := census_goOn (joins m) hid hcalls
  have hemptiers := census_goOn (empties m) hid hcalls
  have hdeleters := census_goOn (deletes m) hid hcalls
  simp [joins, empties, deletes] at hjoiners hemptiers hdeleters
  have hmembers : s'.members m = (s.members m).erase u := by
    rw [hs']
    simp [members, goOn]
  obtain ⟨hpresent, -, hjoining, hdeleting⟩ := h.balanced m
  subst hs'
  refine h.about (m := m) hid hcalls rfl rfl (h.mirror.leaveRoom _ _) rfl hplain hplain
    (fun _ _ => Iff.rfl) ?_ ⟨?_, fun _ => .inr (.inr ?_), ?_, ?_⟩
  · intro m' hm
    simp [members, goOn, movieRoomName_injective.ne hm]
  · rw [hmembers]
    exact fun hne => hpresent (hne.mono (Finset.erase_subset _ _))
  · rw [emptiers, hemptiers]
    exact Nat.succ_pos _
  · rw [joiners, hjoiners]
    exact hjoining
  · intro hdel
    rw [deleters, hdeleters] at hdel
    obtain ⟨hempty, hzero⟩ := hdeleting hdel
    rw [hmembers, hempty, joiners, hjoiners]
    exact ⟨Finset.erase_empty _, hzero⟩

/-- A room that is found occupied keeps its movie. -/
theorem Sound.readOccupied (h : s.Sound)
    (hid : s.calls.lookup id = some (.leaveMovie m u .readMembers))
    (hoccupied : (s.members m).Nonempty) (hs' : s' = s.goOn id (.leaveMovie m u .unlock)) :
    s'.Sound := by
  have hplain : plainMovieID m = true := h.plainCalls id _ hid
  have hcalls : s'.calls = s.calls.insert id (.leaveMovie m u .unlock) := by rw [hs']; rfl
  have hjoiners := census_goOn (joins m) hid hcalls
  have hdeleters := census_goOn (deletes m) hid hcalls
  simp [joins, deletes] at hjoiners hdeleters
  obtain ⟨hpresent, -, hjoining, hdeleting⟩ := h.balanced m
  subst hs'
  refine h.about (m := m) hid hcalls rfl rfl h.mirror rfl hplain hplain
    (fun _ _ => Iff.rfl) (fun _ _ => rfl) ⟨hpresent, fun _ => .inl hoccupied, ?_, ?_⟩
  · rw [joiners, hjoiners]
    exact hjoining
  · intro hdel
    rw [deleters, hdeleters] at hdel
    exact absurd (hdeleting hdel).1 hoccupied.ne_empty

/-- A room that is found empty, and that nobody is about to join, loses its movie. -/
theorem Sound.readEmpty (h : s.Sound)
    (hid : s.calls.lookup id = some (.leaveMovie m u .readMembers)) (hempty : s.members m = ∅)
    (hnone : s.joiners m = 0) (hs' : s' = s.goOn id (.leaveMovie m u .delete)) : s'.Sound := by
  have hplain : plainMovieID m = true := h.plainCalls id _ hid
  have hcalls : s'.calls = s.calls.insert id (.leaveMovie m u .delete) := by rw [hs']; rfl
  have hjoiners := census_goOn (joins m) hid hcalls
  have hemptiers := census_goOn (empties m) hid hcalls
  simp [joins, empties] at hjoiners hemptiers
  obtain ⟨hpresent, hoccupied, hjoining, -⟩ := h.balanced m
  subst hs'
  refine h.about (m := m) hid hcalls rfl rfl h.mirror rfl hplain hplain
    (fun _ _ => Iff.rfl) (fun _ _ => rfl) ⟨hpresent, ?_, ?_, fun _ => ⟨hempty, ?_⟩⟩
  · rw [joiners, hjoiners, emptiers, hemptiers]
    exact hoccupied
  · rw [joiners, hjoiners]
    exact hjoining
  · rw [joiners, hjoiners]
    exact hnone

theorem Sound.delete (h : s.Sound) (hid : s.calls.lookup id = some (.leaveMovie m u .delete))
    (hs' : s' = { s with movies := s.movies.erase m }.goOn id (.leaveMovie m u .unlock)) :
    s'.Sound := by
  have hplain : plainMovieID m = true := h.plainCalls id _ hid
  have hcalls : s'.calls = s.calls.insert id (.leaveMovie m u .unlock) := by rw [hs']; rfl
  have hjoiners := census_goOn (joins m) hid hcalls
  simp [joins] at hjoiners
  have hpos : 0 < s.deleters m := GoMap.census_pos hid (by simp [deletes])
  obtain ⟨hempty, hnone⟩ := (h.balanced m).deleting hpos
  have hempty' : s'.members m = ∅ := by
    rw [hs']
    exact hempty
  have hgone : m ∉ s'.movies := by
    rw [hs']
    exact Finmap.notMem_erase_self
  have hnone' : s'.joiners m = 0 := by
    rw [joiners, hjoiners]
    exact hnone
  subst hs'
  refine h.about (m := m) hid hcalls rfl rfl h.mirror rfl hplain hplain ?_
    (fun _ _ => rfl) ⟨?_, fun hin => absurd hin hgone, ?_, fun _ => ⟨hempty', hnone'⟩⟩
  · intro m' hm
    exact Finmap.mem_erase.trans (and_iff_right hm)
  · intro hne
    exact absurd hempty' hne.ne_empty
  · intro hpos'
    exact absurd hnone' hpos'.ne'

theorem Sound.join {stage : JoinStage} (h : s.Sound)
    (hid : s.calls.lookup id = some (.joinMovie m u stage))
    (hstep : s.join id m u stage = some s') : s'.Sound := by
  have hplain : plainMovieID m = true := h.plainCalls id _ hid
  cases stage with
  | lock =>
    simp only [MovieSystem.join] at hstep
    split_ifs at hstep with hlocked
    have hlocked : s.locked = false := by simpa using hlocked
    cases hmovie : s.movies.lookup m with
    | some movie =>
      simp only [hmovie] at hstep
      obtain rfl := Option.some.inj hstep
      refine h.enters hid hlocked rfl rfl rfl fun m' => ?_
      refine (or_iff_right_of_imp ?_).symm
      rintro rfl
      exact Finmap.mem_of_lookup_eq_some hmovie
    | none =>
      simp only [hmovie] at hstep
      obtain rfl := Option.some.inj hstep
      exact h.enters hid hlocked rfl rfl rfl fun m' => Finmap.mem_insert
  | joinRoom movie =>
    obtain rfl := Option.some.inj hstep
    exact h.joinRoom hid rfl
  | getGroup movie =>
    obtain rfl := Option.some.inj hstep
    refine h.neutral hid rfl h.mirror rfl hplain (fun _ => rfl) ?_ rfl fun _ => rfl
    intro m'
    split_ifs <;> rfl
  | addGroup movie =>
    obtain rfl := Option.some.inj hstep
    exact h.neutral hid rfl h.mirror rfl hplain (fun _ => rfl) (fun _ => rfl) rfl fun _ => rfl
  | joinAllUsers =>
    obtain rfl := Option.some.inj hstep
    refine h.neutral hid rfl (h.mirror.joinRoom _ _) rfl hplain (fun _ => rfl) (fun _ => rfl) rfl ?_
    intro m'
    have hne := groupRoomName_ne_movieRoomName hplain allUsers m'
    simp [members, goOn, hne]
  | done => cases hstep

theorem Sound.leaveLock {ord : RangeOrder GoString} (h : s.Sound)
    (hid : s.calls.lookup id = some (.leaveMovie m u .lock))
    (hstep : s.leave id ord m u .lock = some s') : s'.Sound := by
  simp only [MovieSystem.leave] at hstep
  split_ifs at hstep with hlocked
  have hlocked : s.locked = false := by simpa using hlocked
  cases hmovie : s.movies.lookup m with
  | none =>
    simp only [hmovie] at hstep
    obtain rfl := Option.some.inj hstep
    exact h.neutral hid rfl h.mirror rfl rfl (fun _ => rfl) (fun _ => rfl) rfl fun _ => rfl
  | some movie =>
    simp only [hmovie] at hstep
    obtain rfl := Option.some.inj hstep
    refine h.neutral hid rfl h.mirror ?_ ?_ (fun _ => rfl) (fun _ => rfl) rfl fun _ => rfl
    · rw [hlocked]
      rfl
    · exact h.plain m (Finmap.mem_of_lookup_eq_some hmovie)

theorem Sound.locked_of_holds (h : s.Sound) {c : MovieCall} (hid : s.calls.lookup id = some c)
    (hholds : holdsLock c = true) : s.locked = true := by
  have hpos : 0 < s.calls.census holdsLock := GoMap.census_pos hid hholds
  rw [h.mutex] at hpos
  cases hlocked : s.locked with
  | true => rfl
  | false => simp [hlocked] at hpos

theorem Sound.leave {ord : RangeOrder GoString} {stage : LeaveStage} (h : s.Sound)
    (hid : s.calls.lookup id = some (.leaveMovie m u stage))
    (horderly : s.orderly (.exec id ord) = true)
    (hstep : s.leave id ord m u stage = some s') : s'.Sound := by
  have hcall : plainCall (.leaveMovie m u stage) = true := h.plainCalls id _ hid
  cases stage with
  | lock => exact h.leaveLock hid hstep
  | groupNames movie =>
    obtain rfl := Option.some.inj hstep
    exact h.neutral hid rfl h.mirror rfl hcall (fun _ => rfl) (fun _ => rfl) rfl fun _ => rfl
  | leaveGroups names =>
    cases names with
    | nil =>
      obtain rfl := Option.some.inj hstep
      exact h.neutral hid rfl h.mirror rfl hcall (fun _ => rfl) (fun _ => rfl) rfl fun _ => rfl
    | cons name names =>
      obtain rfl := Option.some.inj hstep
      refine h.neutral hid rfl (h.mirror.leaveRoom _ _) rfl hcall (fun _ => rfl) (fun _ => rfl) rfl
        ?_
      intro m'
      have hne := groupRoomName_ne_movieRoomName hcall name m'
      simp [members, goOn, hne]
  | deleteAttribute =>
    obtain rfl := Option.some.inj hstep
    exact h.neutral hid rfl h.mirror rfl hcall (fun _ => rfl) (fun _ => rfl) rfl fun _ => rfl
  | leaveRoom =>
    obtain rfl := Option.some.inj hstep
    exact h.leaveRoom hid rfl
  | readMembers =>
    obtain rfl := Option.some.inj hstep
    by_cases hempty : s.members m = ∅
    · simp only [orderly, hid] at horderly
      rw [if_pos hempty]
      exact h.readEmpty hid hempty (of_decide_eq_true horderly hempty) rfl
    · rw [if_neg hempty]
      exact h.readOccupied hid (Finset.nonempty_iff_ne_empty.mpr hempty) rfl
  | delete =>
    obtain rfl := Option.some.inj hstep
    exact h.delete hid rfl
  | unlock =>
    obtain rfl := Option.some.inj hstep
    refine h.neutral hid rfl h.mirror ?_ rfl (fun _ => rfl) (fun _ => rfl) rfl fun _ => rfl
    rw [h.locked_of_holds hid rfl]
    rfl
  | done => cases hstep

theorem CleanUp.members_apply {c : CleanUp} {store : MemorySessionStore} (h : store.RoomsMirror)
    (room : GoString) : (store.apply c.op).members room = (store.members room).erase c.userID := by
  cases c with
  | unregisterConnection userID =>
    exact MemorySessionStore.members_unregisterConnection store h userID room
  | leaveAllRooms userID => exact MemorySessionStore.members_leaveAllRooms store h userID room

theorem Sound.cleanUp (h : s.Sound) {c : CleanUp} (horderly : s.orderly (.cleanUp c) = true) :
    Sound { s with store := s.store.apply c.op } := by
  have hmembers : ∀ m, members { s with store := s.store.apply c.op } m =
      (s.members m).erase c.userID := fun m => CleanUp.members_apply h.mirror _
  refine ⟨?_, h.mutex, h.plain, h.plainCalls, fun m => ?_⟩
  · cases c with
    | unregisterConnection userID => exact h.mirror.unregisterConnection userID
    | leaveAllRooms userID => exact MemorySessionStore.RoomsMirror.leaveAllRooms h.mirror userID
  · obtain ⟨hpresent, hoccupied, hjoining, hdeleting⟩ := h.balanced m
    refine ⟨?_, ?_, hjoining, ?_⟩
    · rw [hmembers]
      exact fun hne => hpresent (hne.mono (Finset.erase_subset _ _))
    · intro hin
      rw [hmembers]
      refine (hoccupied hin).imp_left fun hne => ?_
      have hother : s.members m ≠ {c.userID} :=
        of_decide_eq_true horderly m (Finmap.mem_keys.mpr hin)
      rw [Finset.nonempty_iff_ne_empty, Ne, Finset.erase_eq_empty_iff]
      exact not_or.mpr ⟨hne.ne_empty, hother⟩
    · intro hdel
      obtain ⟨hempty, hnone⟩ := hdeleting hdel
      rw [hmembers, hempty]
      exact ⟨Finset.erase_empty _, hnone⟩

theorem Sound.step {a : MovieAction} (h : s.Sound) (horderly : s.orderly a = true)
    (hstep : s.step a = some s') : s'.Sound := by
  cases a with
  | joinMovie id movieID userID =>
    simp only [MovieSystem.step] at hstep
    split_ifs at hstep with hid
    obtain rfl := Option.some.inj hstep
    exact h.neutral (Finmap.lookup_eq_none.mpr hid) rfl h.mirror rfl horderly (fun _ => rfl)
      (fun _ => rfl) rfl fun _ => rfl
  | leaveMovie id movieID userID =>
    simp only [MovieSystem.step] at hstep
    split_ifs at hstep with hid
    obtain rfl := Option.some.inj hstep
    exact h.neutral (Finmap.lookup_eq_none.mpr hid) rfl h.mirror rfl rfl (fun _ => rfl)
      (fun _ => rfl) rfl fun _ => rfl
  | exec id ord =>
    simp only [MovieSystem.step] at hstep
    cases hid : s.calls.lookup id with
    | none => simp [hid] at hstep
    | some call =>
      rw [hid] at hstep
      cases call with
      | joinMovie movieID userID stage => exact h.join hid hstep
      | leaveMovie movieID userID stage => exact h.leave hid horderly hstep
  | cleanUp c =>
    obtain rfl := Option.some.inj hstep
    exact h.cleanUp horderly

theorem Sound.agree (h : s.Sound) (hquiet : s.Quiet) : s.Agree := by
  have hdone : ∀ id call, s.calls.lookup id = some call → call.done = true := by
    intro id call hid
    have hall := hquiet id (Finmap.mem_keys.mpr (Finmap.mem_of_lookup_eq_some hid))
    rw [hid] at hall
    exact hall
  have hzero : ∀ p : MovieCall → Bool, (∀ call, call.done = true → p call = false) →
      s.calls.census p = 0 := fun p hp =>
    GoMap.census_eq_zero_iff.mpr fun id call hid => hp call (hdone id call hid)
  intro m
  have hjoiners : s.joiners m = 0 := hzero _ fun call hcall => by
    cases call with
    | joinMovie movieID u stage => cases stage <;> first | rfl | cases hcall
    | leaveMovie => rfl
  have hemptiers : s.emptiers m = 0 := hzero _ fun call hcall => by
    cases call with
    | joinMovie => rfl
    | leaveMovie movieID u stage => cases stage <;> first | rfl | cases hcall
  have hbalanced := h.balanced m
  refine ⟨fun hin => ?_, hbalanced.present⟩
  obtain hne | hjoin | hempty := hbalanced.occupied hin
  · exact hne
  · exact absurd hjoiners hjoin.ne'
  · exact absurd hemptiers hempty.ne'

end Invariant

/-- In every run in which joins avoid the colliding ids, no `LeaveMovie` finds a room empty that a
`JoinMovie` is about to join, and no clean-up takes the last member out of a movie: whenever
all calls have returned, the movies are those with a member. -/
theorem movies_agree_of_orderly {acts : List MovieAction} {s : MovieSystem}
    (horderly : Along step (fun s a => s.orderly a = true) init acts)
    (hrun : runFrom step init acts = some s) (hquiet : s.Quiet) : s.Agree :=
  (invariant_run (fun _ _ _ h horderly hstep => h.step horderly hstep) init_sound horderly
    hrun).agree hquiet

/-- Two users join a movie at the same time, one is cleaned up and the other leaves. -/
def lobbyRun (ord : RangeOrder GoString) : List MovieAction :=
  .joinMovie 0 (lit "lobby") (lit "ann") :: .exec 0 ord :: .joinMovie 1 (lit "lobby") (lit "bob") ::
    (execs 1 5 ord ++ execs 0 3 ord ++ .cleanUp (.unregisterConnection (lit "ann")) ::
      .leaveMovie 2 (lit "lobby") (lit "bob") :: execs 2 9 ord)

theorem movies_agree_of_orderly_lobby :
    ∃ s, runFrom step init (lobbyRun (.sorted (· ≤ ·))) = some s ∧ s.Agree := by
  have hany : (runFrom step init (lobbyRun (.sorted (· ≤ ·)))).any
      (fun s => decide s.Quiet) = true := by decide +kernel
  obtain ⟨s, hrun, hquiet⟩ := exists_run_of_any hany
  exact ⟨s, hrun, movies_agree_of_orderly (by decide +kernel) hrun (of_decide_eq_true hquiet)⟩

/-- The only member of a movie is cleaned up. -/
def cleanUpRun (ord : RangeOrder GoString) : List MovieAction :=
  .joinMovie 0 (lit "lobby") (lit "ann") ::
    (execs 0 5 ord ++ [.cleanUp (.unregisterConnection (lit "ann"))])

/-- The last member leaves while another user is between the mutex and the room. -/
def lastLeaveRun (ord : RangeOrder GoString) : List MovieAction :=
  .joinMovie 0 (lit "lobby") (lit "bob") ::
    (execs 0 5 ord ++ .joinMovie 1 (lit "lobby") (lit "ann") :: .exec 1 ord ::
      .leaveMovie 2 (lit "lobby") (lit "bob") :: (execs 2 9 ord ++ execs 1 3 ord))

/-- One user joins the movie `movie`. -/
def collisionRun (ord : RangeOrder GoString) : List MovieAction :=
  .joinMovie 0 (lit "movie") (lit "ann") :: execs 0 5 ord

theorem exists_disagreement {acts : List MovieAction} (m : GoString)
    (h : (runFrom step init acts).any (fun s =>
      decide (s.Quiet ∧ ¬ (m ∈ s.movies ↔ (s.members m).Nonempty))) = true) :
    ∃ s, runFrom step init acts = some s ∧ s.Quiet ∧ ¬ s.Agree := by
  obtain ⟨s, hrun, hs⟩ := exists_run_of_any h
  obtain ⟨hquiet, hdiffers⟩ := of_decide_eq_true hs
  exact ⟨s, hrun, hquiet, fun hagree => hdiffers (hagree m)⟩

/-- A clean-up leaves a movie without members; a user who joins while the last member leaves is in
a movie that is gone; and joining the movie `movie` puts the user into the room of a movie
`@AllUsers` that does not exist. -/
theorem movies_disagree :
    (∃ s, runFrom step init (cleanUpRun (.sorted (· ≤ ·))) = some s ∧ s.Quiet ∧ ¬ s.Agree) ∧
    (∃ s, runFrom step init (lastLeaveRun (.sorted (· ≤ ·))) = some s ∧ s.Quiet ∧ ¬ s.Agree) ∧
    ∃ s, runFrom step init (collisionRun (.sorted (· ≤ ·))) = some s ∧ s.Quiet ∧ ¬ s.Agree := by
  refine ⟨exists_disagreement (lit "lobby") ?_, exists_disagreement (lit "lobby") ?_,
    exists_disagreement allUsers ?_⟩
  all_goals decide +kernel

end MovieSystem

end Musgos.Mus
