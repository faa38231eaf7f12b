import Musgos.Mus.World

/-!
# Movies and groups

`MovieManager` and `GroupManager`. A movie is an entry of the manager's map that
holds the group objects; who is in a movie or in a group is kept in the session
store, as membership in a room whose name is built from the movie and the group.
-/
namespace Musgos.Mus

open Foundation Lingo Domain Services Smus

def movieRoomName (movieID : GoString) : GoString := lit "movie:" ++ movieID

def groupRoomName (movieID groupName : GoString) : GoString := movieID ++ lit ":" ++ groupName

def allUsers : GoString := lit "@AllUsers"

variable {π σ δ τ ε : Type}

/-- `movies[movieID]`, created when it is missing. -/
def ensureMovie (movieID : GoString) : EStateM ε (World π σ δ τ) Unit := fun w =>
  match w.movies.lookup movieID with
  | some _ => .ok () w
  | none => .ok () { w with movies := w.movies.insert movieID ⟨∅⟩ }

/-- `AddGroup`, or a new state of the group object. -/
def putGroup (movieID groupName : GoString) (group : Group) : EStateM ε (World π σ δ τ) Unit :=
  fun w =>
    match w.movies.lookup movieID with
    | none => .ok () w
    | some movie =>
      .ok () { w with movies := w.movies.insert movieID ⟨movie.groups.insert groupName group⟩ }

/-- The group object, created without attributes when it is missing. -/
def ensureGroup (movieID groupName : GoString) : EStateM ε (World π σ δ τ) Unit := fun w =>
  match w.movies.lookup movieID with
  | none => .ok () w
  | some movie =>
    match movie.groups.lookup groupName with
    | some _ => .ok () w
    | none => putGroup movieID groupName ⟨∅⟩ w

variable (ctx : Context π σ δ τ)

/-- `JoinMovie`, true when it returns no error. -/
def joinMovie (movieID userID : GoString) : EStateM ε (World π σ δ τ) Bool := do
  ensureMovie movieID
  match ← writeSessions (ctx.sessions.joinRoom (movieRoomName movieID) userID) with
  | .error _ => return false
  | .ok _ =>
    ensureGroup movieID allUsers
    match ← writeSessions (ctx.sessions.joinRoom (groupRoomName movieID allUsers) userID) with
    | .error _ => return false
    | .ok _ => return true

/-- `JoinGroup`: only a member of the movie's room gets in. -/
def joinGroup (movieID groupName userID : GoString) : EStateM ε (World π σ δ τ) Bool := do
  match ← readSessions (ctx.sessions.getRoomMembers (movieRoomName movieID)) with
  | .error _ => return false
  | .ok members =>
    if userID ∈ members then
      match ← writeSessions (ctx.sessions.joinRoom (groupRoomName movieID groupName) userID) with
      | .error _ => return false
      | .ok _ => return true
    else return false

def leaveGroup (movieID groupName userID : GoString) : EStateM ε (World π σ δ τ) Bool := do
  match ← writeSessions (ctx.sessions.leaveRoom (groupRoomName movieID groupName) userID) with
  | .error _ => return false
  | .ok _ => return true

def getGroupMembers (movieID groupName : GoString) :
    EStateM ε (World π σ δ τ) (Except PortError (List GoString)) :=
  readSessions (ctx.sessions.getRoomMembers (groupRoomName movieID groupName))

def getMovieUsers (movieID : GoString) :
    EStateM ε (World π σ δ τ) (Except PortError (List GoString)) :=
  readSessions (ctx.sessions.getRoomMembers (movieRoomName movieID))

def getMovies : EStateM ε (World π σ δ τ) (List GoString) :=
  fun w => .ok (ctx.order.keys w.movies.keys) w

def Movie.groupNames (movie : Movie) : List GoString := ctx.order.keys movie.groups.keys

def Group.attributeNames (group : Group) : List GoString := ctx.order.keys group.attributes.keys

/-- The group of a command's sender, with its movie. -/
def requireGroup (senderID groupName : GoString) : Body π σ δ τ (GoString × Group) := do
  let movieID ← requireMovieID ctx senderID
  let movie ← requireMovie movieID
  match movie.groups.lookup groupName with
  | none => reply errServerInternalError
  | some group => return (movieID, group)

end Musgos.Mus
