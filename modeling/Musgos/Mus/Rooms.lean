import Musgos.Mus.Sender
import Musgos.Mus.SystemService
import Musgos.Outbound.SessionStore

/-!
# Rooms in the in-memory session store

The names of rooms, and what logging on, joining and leaving do to the session store.
A movie and a group are put into one flat name with a colon between them, so the names
are told apart only if the movie has no colon in it and is not called `movie`.
-/
namespace Musgos.Mus

open Foundation Lingo Domain Services Smus Outbound

section Names

/-- Movies whose rooms cannot be mistaken for each other: no group of one has a room that looks
like the room of a movie, and no id followed by a colon begins another id. -/
def CleanMovies (movieIDs : List GoString) : Prop :=
  ∀ m ∈ movieIDs, m ≠ lit "movie" ∧ ¬ lit "movie:" <+: m ∧ ∀ m' ∈ movieIDs, ¬ m ++ lit ":" <+: m'

instance decidableCleanMovies (movieIDs : List GoString) : Decidable (CleanMovies movieIDs) :=
  inferInstanceAs (Decidable (∀ m ∈ movieIDs, _ ∧ _ ∧ ∀ m' ∈ movieIDs, _))

theorem lit_colon : lit ":" = [58] := by decide +kernel

theorem groupRoomName_eq (movieID groupName : GoString) :
    groupRoomName movieID groupName = movieID ++ 58 :: groupName := by
  simp [groupRoomName, lit_colon]

theorem movieRoomName_eq (movieID : GoString) :
    movieRoomName movieID = lit "movie" ++ 58 :: movieID := by
  have hmovie : lit "movie:" = lit "movie" ++ [58] := by decide +kernel
  simp [movieRoomName, hmovie]

/-- Of two texts that agree with a colon behind each, one is the other or goes on behind it. -/
theorem eq_or_prefix_of_append_colon {m m' g g' : GoString} (h : m ++ 58 :: g = m' ++ 58 :: g') :
    (m = m' ∧ g = g') ∨ m ++ lit ":" <+: m' ∨ m' ++ lit ":" <+: m := by
  rw [lit_colon]
  rcases List.append_eq_append_iff.mp h with ⟨rest, hm, hg⟩ | ⟨rest, hm, hg⟩
  · cases rest with
    | nil => exact .inl ⟨by simpa using hm.symm, (List.cons.inj hg).2⟩
    | cons x rest =>
      obtain ⟨rfl, -⟩ := List.cons.inj hg
      exact .inr (.inl ⟨rest, by simp [hm]⟩)
  · cases rest with
    | nil => exact .inl ⟨by simpa using hm, (List.cons.inj hg).2.symm⟩
    | cons x rest =>
      obtain ⟨rfl, -⟩ := List.cons.inj hg
      exact .inr (.inr ⟨rest, by simp [hm]⟩)

section Clean

variable {movieIDs : List GoString} {m m' : GoString}

theorem groupRoomName_inj (hclean : CleanMovies movieIDs) (hm : m ∈ movieIDs) (hm' : m' ∈ movieIDs)
    {g g' : GoString} (h : groupRoomName m g = groupRoomName m' g') : m = m' ∧ g = g' := by
  rw [groupRoomName_eq, groupRoomName_eq] at h
  rcases eq_or_prefix_of_append_colon h with heq | hpre | hpre
  · exact heq
  · exact absurd hpre ((hclean m hm).2.2 m' hm')
  · exact absurd hpre ((hclean m' hm').2.2 m hm)

/-- What starts like a movie's room is no room of a group of a clean movie. -/
theorem groupRoomName_ne_movie (hclean : CleanMovies movieIDs) (hm : m ∈ movieIDs)
    {g rest : GoString} : groupRoomName m g ≠ movieRoomName rest := by
  intro h
  obtain ⟨hne, hlooks, -⟩ := hclean m hm
  rw [groupRoomName_eq, movieRoomName_eq] at h
  rcases eq_or_prefix_of_append_colon h with heq | hpre | hpre
  · exact hne heq.1
  · have hcolon : (58 : UInt8) ∉ lit "movie" := by decide +kernel
    exact hcolon (hpre.subset (by simp [lit_colon]))
  · have hmovie : lit "movie" ++ lit ":" = lit "movie:" := by decide +kernel
    exact hlooks (hmovie ▸ hpre)

end Clean

end Names

/-- The movie that the session of a user names, as `getUserMovieID` reads it. -/
def cachedMovie (s : MemorySessionStore) (userID : GoString) : Option GoString :=
  match s.getUserAttribute userID movieIDAttribute with
  | .string movieID => if movieID ≠ [] then some movieID else none
  | _ => none

theorem cachedMovie_set (s : MemorySessionStore) (userID id : GoString) {movieID : GoString}
    (hne : movieID ≠ []) :
    cachedMovie (s.setUserAttribute userID movieIDAttribute (.string movieID)) id =
      if id = userID then some movieID else cachedMovie s id := by
  unfold cachedMovie
  rw [MemorySessionStore.getUserAttribute_set]
  by_cases hid : id = userID <;> simp [hid, hne]

section Effects

variable {π δ τ ε : Type} {ctx : Context π MemorySessionStore δ τ} {ord : RangeOrder GoString}
  {w : World π MemorySessionStore δ τ}

/-- Creating what is missing changes only the map of movies. -/
theorem ensureMovie_run (movieID : GoString) : ∃ movies,
    (ensureMovie movieID w : EStateM.Result ε _ _) = .ok () { w with movies := movies } := by
  unfold ensureMovie
  split <;> exact ⟨_, rfl⟩

theorem ensureGroup_run (movieID groupName : GoString) : ∃ movies,
    (ensureGroup movieID groupName w : EStateM.Result ε _ _) =
      .ok () { w with movies := movies } := by
  unfold ensureGroup putGroup
  repeat' split
  all_goals exact ⟨_, rfl⟩

/-- `JoinMovie` on the two rooms of the user. -/
def enterRooms (userID movieID : GoString) (s : MemorySessionStore) : MemorySessionStore :=
  (s.joinRoom (movieRoomName movieID) userID).joinRoom (groupRoomName movieID allUsers) userID

theorem joinMovie_run (hstore : ctx.sessions = MemorySessionStore.port ord)
    (movieID userID : GoString) : ∃ movies,
    (joinMovie ctx movieID userID w : EStateM.Result ε _ _) = .ok true { w with
      sessions := enterRooms userID movieID w.sessions
      movies := movies } := by
  obtain ⟨movies, hmovie⟩ := ensureMovie_run (ε := ε) (w := w) movieID
  let w₁ : World π MemorySessionStore δ τ := { w with
    movies := movies
    sessions := w.sessions.joinRoom (movieRoomName movieID) userID }
  obtain ⟨movies', hgroup⟩ := ensureGroup_run (ε := ε) (w := w₁) movieID allUsers
  refine ⟨movies', ?_⟩
  have hjoin : (writeSessions (ctx.sessions.joinRoom (movieRoomName movieID) userID)
      { w with movies := movies } : EStateM.Result ε _ _) = .ok (.ok ()) w₁ := by
    rw [hstore]
    rfl
  unfold joinMovie
  rw [bind_of_ok hmovie, bind_of_ok hjoin]
  refine (bind_of_ok hgroup).trans ?_
  rw [hstore]
  rfl

/-- What follows a successful logon, on the session store. -/
def enteredMovie (userID movieID : GoString) (s : MemorySessionStore) : MemorySessionStore :=
  if movieID = [] then s
  else (enterRooms userID movieID s).setUserAttribute userID movieIDAttribute (.string movieID)

theorem enterMovie_run (hstore : ctx.sessions = MemorySessionStore.port ord)
    (userID movieID : GoString) : ∃ w', enterMovie ctx userID movieID w = .ok () w' ∧
      w'.sessions = enteredMovie userID movieID w.sessions := by
  unfold enterMovie enteredMovie
  by_cases hempty : movieID = []
  · simp only [hempty, ne_eq, not_true_eq_false, if_false, if_true]
    exact ⟨w, rfl, rfl⟩
  · obtain ⟨movies, hjoin⟩ := joinMovie_run (ε := Panic) (w := w) hstore movieID userID
    simp only [hempty, ne_eq, not_false_eq_true, if_true, if_false]
    rw [bind_of_ok hjoin, hstore]
    exact ⟨_, rfl, rfl⟩

/-- A logon message changes the session store as the service does, and then as entering
the movie does. -/
theorem handleLogon_run (hstore : ctx.sessions = MemorySessionStore.port ord) (now : ℤ)
    {connectionID : GoString} {msg : MUSMessage} {req : LogonRequest}
    (hreq : logonRequest connectionID msg = some req) : ∃ response w',
    handleLogon ctx now connectionID msg w = .ok response w' ∧
      let r := ctx.logon now req w.toBackend
      ((r.1.code ≠ .ok ∧ w'.sessions = w.sessions) ∨
        (r.1.code = .ok ∧ ∃ after, ctx.Opens now req w.sessions r.1 after ∧
          w'.sessions = enteredMovie r.1.userID r.1.movieID after)) := by
  let r := ctx.logon now req w.toBackend
  have hlogon : runLogon ctx now req w = .ok r.1 { w with toBackend := r.2 } := rfl
  unfold handleLogon
  simp only [hreq, bind_of_ok hlogon]
  rcases ctx.logon_outcome now req w.toBackend with ⟨hcode, hsame⟩ | ⟨hcode, hopens⟩
  · rw [if_pos hcode]
    exact ⟨_, _, rfl, .inl ⟨hcode, hsame⟩⟩
  · obtain ⟨w', henter, hsessions⟩ := enterMovie_run (w := { w with toBackend := r.2 }) hstore
      r.1.userID r.1.movieID
    rw [if_neg (not_not.mpr hcode), bind_of_ok henter]
    exact ⟨_, w', rfl, .inr ⟨hcode, _, hopens, hsessions⟩⟩

theorem getUserMovieID_run (hstore : ctx.sessions = MemorySessionStore.port ord)
    (userID : GoString) :
    (getUserMovieID ctx userID w : EStateM.Result ε _ _) =
      .ok (cachedMovie w.sessions userID) w := by
  have hread : (readSessions (ctx.sessions.getUserAttribute userID movieIDAttribute) w :
      EStateM.Result ε _ _) =
        .ok (.ok (w.sessions.getUserAttribute userID movieIDAttribute)) w := by
    rw [hstore]
    rfl
  unfold getUserMovieID cachedMovie
  rw [bind_of_ok hread]
  cases w.sessions.getUserAttribute userID movieIDAttribute <;> rfl

theorem requireMovieID_run (hstore : ctx.sessions = MemorySessionStore.port ord)
    (userID : GoString) : requireMovieID ctx userID w =
      match cachedMovie w.sessions userID with
      | none => .error (.reply errServerInternalError) w
      | some movieID => .ok movieID w := by
  unfold requireMovieID
  rw [bind_of_ok (getUserMovieID_run hstore userID)]
  cases cachedMovie w.sessions userID <;> rfl

theorem requireMovie_run (movieID : GoString) : requireMovie movieID w =
      match w.movies.lookup movieID with
      | none => .error (.reply errServerInternalError) w
      | some movie => .ok movie w := by
  have hread : (getMovie movieID w : EStateM.Result Stop _ _) =
      .ok (w.movies.lookup movieID) w := rfl
  unfold requireMovie
  rw [bind_of_ok hread]
  cases w.movies.lookup movieID <;> rfl

theorem joinGroup_run (hstore : ctx.sessions = MemorySessionStore.port ord)
    (movieID groupName userID : GoString) :
    (joinGroup ctx movieID groupName userID w : EStateM.Result ε _ _) =
      if userID ∈ w.sessions.members (movieRoomName movieID) then
        .ok true { w with
          sessions := w.sessions.joinRoom (groupRoomName movieID groupName) userID }
      else .ok false w := by
  have hread : (readSessions (ctx.sessions.getRoomMembers (movieRoomName movieID)) w :
      EStateM.Result ε _ _) =
        .ok (.ok (ord.keys (w.sessions.members (movieRoomName movieID)))) w := by
    rw [hstore]
    rfl
  unfold joinGroup
  rw [bind_of_ok hread]
  simp only [RangeOrder.mem_keys]
  split_ifs
  · rw [hstore]
    rfl
  · rfl

theorem leaveGroup_run (hstore : ctx.sessions = MemorySessionStore.port ord)
    (movieID groupName userID : GoString) :
    (leaveGroup ctx movieID groupName userID w : EStateM.Result ε _ _) =
      .ok true { w with
        sessions := w.sessions.leaveRoom (groupRoomName movieID groupName) userID } := by
  unfold leaveGroup
  rw [hstore]
  rfl

/-- What a command on a group does to the sessions: it is refused and leaves them alone,
or it is acknowledged and does `act` to the sender, for the group that the message names
and the movie that the sender's session names. -/
def GroupOutcome (act : GoString → GoString → MemorySessionStore → MemorySessionStore)
    (senderID : GoString) (msg : MUSMessage) (s : MemorySessionStore) (errCode : Int32)
    (s' : MemorySessionStore) : Prop :=
  (errCode ≠ errNoError ∧ s' = s) ∨
    (errCode = errNoError ∧ ∃ groupName movieID, msg.msgContent.extractString = some groupName ∧
      cachedMovie s senderID = some movieID ∧ s' = act (groupRoomName movieID groupName) senderID s)

theorem respond_group {act : GoString → GoString → MemorySessionStore → MemorySessionStore}
    (hstore : ctx.sessions = MemorySessionStore.port ord) (now : ℤ) (senderID : GoString)
    (msg : MUSMessage) {rest : GoString → GoString → Body π MemorySessionStore δ τ LValue}
    (hrest : ∀ groupName movieID,
      (∃ code w', rest groupName movieID w = .error (.reply code) w' ∧ code ≠ errNoError ∧
        w'.sessions = w.sessions) ∨
      ∃ content w', rest groupName movieID w = .ok content w' ∧
        w'.sessions = act (groupRoomName movieID groupName) senderID w.sessions) :
    ∃ response w', respond now senderID msg (do
        let groupName ← requireString msg.msgContent
        let movieID ← requireMovieID ctx senderID
        rest groupName movieID) w = .ok response w' ∧
      GroupOutcome act senderID msg w.sessions response.errCode w'.sessions := by
  have hmovieID := requireMovieID_run (w := w) hstore senderID
  cases hname : msg.msgContent.extractString with
  | none =>
    have hstop : (requireString msg.msgContent w : EStateM.Result _ _ _) =
        .error (.reply errInvalidMessageFormat) w := by
      rw [requireString, hname]
      rfl
    exact ⟨_, w, respond_of_reply (bind_of_error hstop),
      .inl ⟨(by decide : errInvalidMessageFormat ≠ errNoError), rfl⟩⟩
  | some groupName =>
    have hgroup : (requireString msg.msgContent w : EStateM.Result Stop _ _) = .ok groupName w := by
      rw [requireString, hname]
      rfl
    cases hcached : cachedMovie w.sessions senderID with
    | none =>
      rw [hcached] at hmovieID
      exact ⟨_, w, respond_of_reply ((bind_of_ok hgroup).trans (bind_of_error hmovieID)),
        .inl ⟨(by decide : errServerInternalError ≠ errNoError), rfl⟩⟩
    | some movieID =>
      rw [hcached] at hmovieID
      rcases hrest groupName movieID with ⟨code, w', hstop, hcode, hsame⟩ | ⟨content, w', hok, hact⟩
      · exact ⟨_, w',
          respond_of_reply ((bind_of_ok hgroup).trans ((bind_of_ok hmovieID).trans hstop)),
          .inl ⟨hcode, hsame⟩⟩
      · exact ⟨_, w', respond_of_ok ((bind_of_ok hgroup).trans ((bind_of_ok hmovieID).trans hok)),
          .inr ⟨rfl, groupName, movieID, hname, hcached, hact⟩⟩

theorem handleGroupJoin_run (hstore : ctx.sessions = MemorySessionStore.port ord) (now : ℤ)
    (senderID : GoString) (msg : MUSMessage) : ∃ response w',
    handleGroupJoin ctx now senderID msg w = .ok response w' ∧
      GroupOutcome MemorySessionStore.joinRoom senderID msg w.sessions response.errCode
        w'.sessions := by
  apply respond_group hstore
  intro groupName movieID
  have hgot := requireMovie_run (w := w) movieID
  cases hmovie : w.movies.lookup movieID with
  | none =>
    rw [hmovie] at hgot
    exact .inl ⟨_, w, bind_of_error hgot, by decide, rfl⟩
  | some movie =>
    rw [hmovie] at hgot
    obtain ⟨movies, hensure⟩ := ensureGroup_run (ε := Stop) (w := w) movieID groupName
    have hjoin := joinGroup_run (ε := Stop) (w := { w with movies := movies }) hstore movieID
      groupName senderID
    simp only [bind_of_ok hgot, bind_of_ok hensure]
    split_ifs at hjoin with hmember
    · exact .inr ⟨.void, _, bind_of_ok hjoin, rfl⟩
    · exact .inl ⟨_, _, bind_of_ok hjoin, by decide, rfl⟩

theorem handleGroupLeave_run (hstore : ctx.sessions = MemorySessionStore.port ord) (now : ℤ)
    (senderID : GoString) (msg : MUSMessage) : ∃ response w',
    handleGroupLeave ctx now senderID msg w = .ok response w' ∧
      GroupOutcome MemorySessionStore.leaveRoom senderID msg w.sessions response.errCode
        w'.sessions := by
  apply respond_group hstore
  intro groupName movieID
  exact .inr ⟨.void, _, bind_of_ok (leaveGroup_run hstore movieID groupName senderID), rfl⟩

end Effects

end Musgos.Mus
