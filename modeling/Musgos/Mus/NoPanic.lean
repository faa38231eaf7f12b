import Musgos.Mus.PlayerData

/-!
# System commands and absent contents

Most handlers look at the content of a message through a type assertion or through
`ExtractString`, to which an absent content is one of a wrong type. Two call a method of it
first: the logon handler, which logs its text, and the handler of the server's kill timer. A
message without content makes these two panic, and nothing else makes any handler panic.
-/
namespace Musgos.Mus

open Foundation Lingo Domain Services Smus Outbound

variable {π σ τ ε α : Type} {ctx : Context π σ SqlDb τ} {senderID : GoString} {level : ℤ}
  {R : World π σ SqlDb τ → World π σ SqlDb τ → Prop}

section Parts

/-- The body of a handler ends with a value or an answer. -/
abbrev Answered (R : World π σ SqlDb τ → World π σ SqlDb τ → Prop) (x : Body π σ SqlDb τ α) :
    Prop :=
  Lockstep R x (fun _ => True) Answers

theorem answered_reply_bind {β : Type} (code : Int32) (f : α → Body π σ SqlDb τ β) :
    Answered R (reply code >>= f) :=
  .bind (lockstep_reply (Q := fun _ => False) code) fun _ h => h.elim

theorem answered_unless {β : Type} {c : Prop} [Decidable c] {code : Int32}
    {f : α → Body π σ SqlDb τ β} {x : Body π σ SqlDb τ β} (h : Answered R x) :
    Answered R (if c then reply code >>= f else x) := by
  split_ifs
  · exact answered_reply_bind code f
  · exact h

theorem answered_orReply (code : Int32) (r : Except PortError α) :
    Answered R (orReply code r : Body π σ SqlDb τ α) := by
  cases r with
  | error e => exact lockstep_reply _
  | ok a => exact .pure trivial

theorem answered_requireString (content : LValue) :
    Answered R (requireString content : Body π σ SqlDb τ GoString) := by
  unfold requireString
  cases content.extractString with
  | none => exact lockstep_reply _
  | some s => exact .pure trivial

variable (hR : Lockstep.Diagonal R)
include hR

theorem answered_readSessions (op : Read σ α) :
    Answered R (readSessions op : Body π σ SqlDb τ _) :=
  .read hR fun w => ⟨op w.sessions, rfl⟩

theorem answered_readDB (op : Read SqlDb α) : Answered R (readDB op : Body π σ SqlDb τ _) :=
  .read hR fun w => ⟨op w.db, rfl⟩

theorem answered_showSessions (op : Read σ α) {code : Int32} {present : α → LValue} :
    Answered R (readSessions op >>= fun r => orReply code r >>= fun a => pure (present a) :
      Body π σ SqlDb τ LValue) :=
  .bind (answered_readSessions hR op) fun r _ => .bind (answered_orReply code r) fun _ _ =>
    .pure trivial

theorem answered_dbRead (op : Read SqlDb α) :
    Answered R (readDB op >>= orDBError : Body π σ SqlDb τ α) :=
  .bind (answered_readDB hR op) fun r _ => lockstep_orDBError r

theorem answered_getMovies : Answered R (getMovies ctx : Body π σ SqlDb τ _) :=
  .read hR fun w => ⟨ctx.order.keys w.movies.keys, rfl⟩

theorem answered_requireMovieID (userID : GoString) : Answered R (requireMovieID ctx userID) := by
  have hmovie : Answered R (getUserMovieID ctx userID : Body π σ SqlDb τ _) := by
    refine .bind (answered_readSessions hR _) fun r _ => ?_
    split <;> exact .pure trivial
  refine .bind hmovie fun movieID _ => ?_
  cases movieID with
  | none => exact lockstep_reply _
  | some movieID => exact .pure trivial

theorem answered_requireMovie (movieID : GoString) :
    Answered R (requireMovie movieID : Body π σ SqlDb τ Movie) := by
  refine .bind (.read hR fun w => ⟨w.movies.lookup movieID, rfl⟩) fun movie _ => ?_
  cases movie with
  | none => exact lockstep_reply _
  | some movie => exact .pure trivial

theorem answered_requireGroup (userID groupName : GoString) :
    Answered R (requireGroup ctx userID groupName) := by
  refine .bind (answered_requireMovieID hR userID) fun movieID _ => ?_
  refine .bind (answered_requireMovie hR movieID) fun movie _ => ?_
  cases movie.groups.lookup groupName with
  | none => exact lockstep_reply _
  | some group => exact .pure trivial

end Parts

section SenderRun

/-- One run, in which the sender has its level. -/
def SenderRun (ctx : Context π σ SqlDb τ) (senderID : GoString) (level : ℤ)
    (w w' : World π σ SqlDb τ) : Prop :=
  w' = w ∧ userLevel ctx.sessions w.sessions senderID = some level

theorem senderRun_diagonal : Lockstep.Diagonal (SenderRun ctx senderID level) := fun _ _ h => h.1

theorem answered_keeping {x : Body π σ SqlDb τ α}
    (h : ∀ w, ∃ a w', x w = .ok a w' ∧ w'.sessions = w.sessions) :
    Answered (SenderRun ctx senderID level) x := by
  refine .effect senderRun_diagonal fun w hw => ?_
  obtain ⟨a, w', hx, hsessions⟩ := h w
  exact ⟨a, w', hx, rfl, by rw [hsessions, hw.2]⟩

theorem answered_requireLevel (command : GoString) :
    Answered (SenderRun ctx senderID level) (requireLevel ctx senderID command) :=
  lockstep_requireLevel (fun _ _ h => ⟨by rw [h.1], h.2⟩) command

theorem answered_requireOwnerOrAdmin (target : GoString) :
    Answered (SenderRun ctx senderID level) (requireOwnerOrAdmin ctx senderID target) := by
  refine .get fun w w' hw => ⟨by rw [hw.1], ?_⟩
  refine .bind (lockstep_orPanic ?_) fun allowed _ => ?_
  · unfold ownerOrAdmin
    split_ifs <;> simp [hw.2]
  · cases allowed
    · exact lockstep_reply _
    · exact .pure trivial

theorem answered_dbWrite (op : Write SqlDb) :
    Answered (SenderRun ctx senderID level) (dbWrite op : Body π σ SqlDb τ LValue) := by
  refine .bind (answered_keeping fun w => ⟨_, _, rfl, rfl⟩) fun r _ => ?_
  exact .bind (lockstep_orDBError r) fun _ _ => .pure trivial

theorem answered_dbNames (op : Read SqlDb (List GoString)) :
    Answered (SenderRun ctx senderID level) (dbNames op : Body π σ SqlDb τ LValue) := by
  refine .bind (answered_readDB senderRun_diagonal op) fun r _ => ?_
  exact .bind (lockstep_orDBError r) fun _ _ => .pure trivial

end SenderRun

section Handlers

/-- The handler returns a response in every state in which the sender has its level. -/
def Safe (ctx : Context π σ SqlDb τ) (senderID : GoString) (level : ℤ)
    (x : Run π σ SqlDb τ MUSMessage) : Prop :=
  ∀ w, userLevel ctx.sessions w.sessions senderID = some level →
    ∃ response w', x w = .ok response w'

theorem safe_of_answered {now : ℤ} {msg : MUSMessage} {body : Body π σ SqlDb τ LValue}
    (h : Answered (SenderRun ctx senderID level) body) :
    Safe ctx senderID level (respond now senderID msg body) :=
  fun _ hw => (lockstep_respond h).returns ⟨rfl, hw⟩

theorem diagonal_eq : Lockstep.Diagonal fun w w' : World π σ SqlDb τ => w' = w := fun _ _ h => h

theorem lockstep_total {x : EStateM ε (World π σ SqlDb τ) α} {E : ε → Prop}
    (h : ∀ w, ∃ a w', x w = .ok a w') : Lockstep (fun w w' => w' = w) x (fun _ => True) E := by
  refine .effect diagonal_eq fun w _ => ?_
  obtain ⟨a, w', hx⟩ := h w
  exact ⟨a, w', hx, rfl⟩

theorem answered_writeSessions (op : Write σ) :
    Answered (fun w w' => w' = w) (writeSessions op : Body π σ SqlDb τ _) :=
  lockstep_total fun _ => ⟨_, _, rfl⟩

theorem safe_of_answered_eq {now : ℤ} {msg : MUSMessage} {body : Body π σ SqlDb τ LValue}
    (h : Answered (fun w w' => w' = w) body) :
    Safe ctx senderID level (respond now senderID msg body) :=
  fun _ _ => (lockstep_respond h).returns rfl

variable (now : ℤ) (msg : MUSMessage)

section Server

theorem safe_getUserCount :
    Safe ctx senderID level (handleServerGetUserCount ctx now senderID msg) :=
  safe_of_answered (answered_showSessions senderRun_diagonal _)

theorem answered_mailText {ps vs : List LValue} (h : (LValue.propList ps vs).WellFormed)
    (name : GoString) : Answered R (mailText ps vs name : Body π σ SqlDb τ GoString) := by
  obtain ⟨hlength, hps, hvs⟩ := (LValue.wellFormed_propList ps vs).mp h
  obtain ⟨found, hfound, hwell⟩ := LValue.getElement_wellFormed hlength hps hvs name
  unfold mailText
  rw [hfound]
  cases found with
  | none => exact .pure trivial
  | some value =>
    exact (lockstep_orPanic (LValue.stringValue_isSome (hwell value rfl))).mono fun _ _ => trivial

theorem safe_sendEmail (hcontent : msg.msgContent = .nil ∨ msg.msgContent.WellFormed) :
    Safe ctx senderID level (handleServerSendEmail ctx now senderID msg) := by
  refine safe_of_answered (.bind (answered_requireLevel _) fun _ _ => ?_)
  cases ctx.emailSender with
  | none => exact lockstep_reply _
  | some send =>
    dsimp only
    split
    case h_2 => exact lockstep_reply _
    case h_1 ps vs hps =>
      have hwell : (LValue.propList ps vs).WellFormed := by
        rw [hps] at hcontent
        exact hcontent.resolve_left nofun
      refine .bind (answered_mailText hwell _) fun sender _ => ?_
      refine .bind (answered_mailText hwell _) fun recipient _ => ?_
      refine .bind (answered_mailText hwell _) fun subject _ => ?_
      refine .bind (answered_mailText hwell _) fun smtpHost _ => ?_
      refine .bind (answered_mailText hwell _) fun body _ => ?_
      refine answered_unless (.bind (answered_keeping fun w => ⟨_, _, rfl, rfl⟩) fun sent _ => ?_)
      cases sent
      · exact lockstep_reply _
      · exact .pure trivial

theorem safe_cancelKillTimer :
    Safe ctx senderID level (handleServerCancelKillTimer ctx now senderID msg) := by
  refine safe_of_answered (.bind (answered_requireLevel _) fun _ _ => answered_unless ?_)
  exact .bind (answered_keeping fun w => ⟨_, _, rfl, rfl⟩) fun _ _ => .pure trivial

end Server

section Movie

theorem safe_movieGetUserCount :
    Safe ctx senderID level (handleMovieGetUserCount ctx now senderID msg) := by
  refine safe_of_answered (.bind (answered_requireMovieID senderRun_diagonal _) fun movieID _ => ?_)
  exact answered_showSessions senderRun_diagonal _

theorem safe_ofMovie (read : Movie → LValue) :
    Safe ctx senderID level (respond now senderID msg do
      let movie ← requireMovie (← requireMovieID ctx senderID)
      return read movie) := by
  refine safe_of_answered (.bind (answered_requireMovieID senderRun_diagonal _) fun movieID _ => ?_)
  exact .bind (answered_requireMovie senderRun_diagonal movieID) fun _ _ => .pure trivial

end Movie

section Group

theorem answered_joinGroup (movieID groupName userID : GoString) :
    Answered (fun w w' => w' = w)
      (joinGroup ctx movieID groupName userID : Body π σ SqlDb τ Bool) := by
  refine .bind (answered_readSessions diagonal_eq _) fun r _ => ?_
  cases r with
  | error e => exact .pure trivial
  | ok members =>
    dsimp only
    split_ifs
    · refine .bind (answered_writeSessions _) fun r _ => ?_
      cases r <;> exact .pure trivial
    · exact .pure trivial

theorem answered_leaveGroup (movieID groupName userID : GoString) :
    Answered (fun w w' => w' = w)
      (leaveGroup ctx movieID groupName userID : Body π σ SqlDb τ Bool) := by
  refine .bind (answered_writeSessions _) fun r _ => ?_
  cases r <;> exact .pure trivial

theorem putGroup_total (movieID groupName : GoString) (group : Group) (w : World π σ SqlDb τ) :
    ∃ a w', (putGroup movieID groupName group w : EStateM.Result ε _ _) = .ok a w' ∧
      w'.sessions = w.sessions := by
  unfold putGroup
  split <;> exact ⟨_, _, rfl, rfl⟩

theorem ensureGroup_total (movieID groupName : GoString) (w : World π σ SqlDb τ) :
    ∃ a w', (ensureGroup movieID groupName w : EStateM.Result ε _ _) = .ok a w' := by
  unfold ensureGroup
  repeat' split
  · exact ⟨_, _, rfl⟩
  · exact ⟨_, _, rfl⟩
  · obtain ⟨a, w', hput, -⟩ := putGroup_total movieID groupName ⟨∅⟩ w
    exact ⟨a, w', hput⟩

theorem answered_truth (done : Bool) :
    Answered R (if done = true then pure .void else reply errServerInternalError :
      Body π σ SqlDb τ LValue) := by
  cases done
  · exact lockstep_reply _
  · exact .pure trivial

theorem safe_groupJoin : Safe ctx senderID level (handleGroupJoin ctx now senderID msg) := by
  refine safe_of_answered_eq (.bind (answered_requireString _) fun groupName _ => ?_)
  refine .bind (answered_requireMovieID diagonal_eq _) fun movieID _ => ?_
  refine .bind (answered_requireMovie diagonal_eq movieID) fun _ _ => ?_
  refine .bind (lockstep_total (ensureGroup_total movieID groupName)) fun _ _ => ?_
  refine .bind (answered_joinGroup movieID groupName senderID) fun joined _ => ?_
  exact answered_truth joined

theorem safe_groupLeave : Safe ctx senderID level (handleGroupLeave ctx now senderID msg) := by
  refine safe_of_answered_eq (.bind (answered_requireString _) fun groupName _ => ?_)
  refine .bind (answered_requireMovieID diagonal_eq _) fun movieID _ => ?_
  refine .bind (answered_leaveGroup movieID groupName senderID) fun left _ => ?_
  exact answered_truth left

theorem safe_ofMembers (read : List GoString → LValue) :
    Safe ctx senderID level (respond now senderID msg do
      let groupName ← requireString msg.msgContent
      let movieID ← requireMovieID ctx senderID
      let members ← orReply errServerInternalError (← getGroupMembers ctx movieID groupName)
      return read members) := by
  refine safe_of_answered (.bind (answered_requireString _) fun groupName _ => ?_)
  refine .bind (answered_requireMovieID senderRun_diagonal _) fun movieID _ => ?_
  exact answered_showSessions senderRun_diagonal _

theorem answered_text {f : Fields} {name : GoString} (h : (f.get name).WellFormed) :
    Answered R (f.text name : Body π σ SqlDb τ GoString) :=
  (lockstep_text h).mono fun _ _ => trivial

theorem answered_groupAttribute (hcontent : msg.msgContent = .nil ∨ msg.msgContent.WellFormed)
    {names : List GoString} (hnames : [lit "group", lit "attribute"] ⊆ names)
    {rest : Fields → GoString → GoString → GoString × Group → Body π σ SqlDb τ LValue}
    (hrest : ∀ f groupName attrName group,
      Answered (SenderRun ctx senderID level) (rest f groupName attrName group)) :
    Answered (SenderRun ctx senderID level)
      (requireFields msg.msgContent names >>= fun f =>
        f.text (lit "group") >>= fun groupName =>
          f.text (lit "attribute") >>= fun attrName =>
            requireGroup ctx senderID groupName >>= rest f groupName attrName) := by
  refine .bind (lockstep_requireFields hcontent names) fun f hf => ?_
  refine .bind (answered_text (hf _ (hnames (by simp)))) fun groupName _ => ?_
  refine .bind (answered_text (hf _ (hnames (by simp)))) fun attrName _ => ?_
  exact .bind (answered_requireGroup senderRun_diagonal _ _) fun group _ => hrest f _ _ group

theorem safe_groupSetAttribute (hcontent : msg.msgContent = .nil ∨ msg.msgContent.WellFormed) :
    Safe ctx senderID level (handleGroupSetAttribute ctx now senderID msg) := by
  refine safe_of_answered (answered_groupAttribute msg hcontent (by simp) fun f _ _ group => ?_)
  exact .bind (answered_keeping (putGroup_total _ _ _)) fun _ _ => .pure trivial

theorem safe_groupGetAttribute (hcontent : msg.msgContent = .nil ∨ msg.msgContent.WellFormed) :
    Safe ctx senderID level (handleGroupGetAttribute ctx now senderID msg) :=
  safe_of_answered (answered_groupAttribute msg hcontent (by simp) fun _ _ _ _ => .pure trivial)

theorem safe_groupDeleteAttribute (hcontent : msg.msgContent = .nil ∨ msg.msgContent.WellFormed) :
    Safe ctx senderID level (handleGroupDeleteAttribute ctx now senderID msg) := by
  refine safe_of_answered (answered_groupAttribute msg hcontent (by simp) fun f _ _ group => ?_)
  exact .bind (answered_keeping (putGroup_total _ _ _)) fun _ _ => .pure trivial

theorem safe_groupGetAttributeNames :
    Safe ctx senderID level (handleGroupGetAttributeNames ctx now senderID msg) := by
  refine safe_of_answered (.bind (answered_requireString _) fun groupName _ => ?_)
  exact .bind (answered_requireGroup senderRun_diagonal _ _) fun _ _ => .pure trivial

end Group

section User

theorem safe_userGetAddress :
    Safe ctx senderID level (handleUserGetAddress ctx now senderID msg) := by
  refine safe_of_answered (.bind (answered_readSessions senderRun_diagonal _) fun r _ => ?_)
  split
  · exact .pure trivial
  · exact lockstep_reply _

theorem safe_userGetGroups :
    Safe ctx senderID level (handleUserGetGroups ctx now senderID msg) := by
  refine safe_of_answered (.bind (answered_requireMovieID senderRun_diagonal _) fun movieID _ => ?_)
  exact answered_showSessions senderRun_diagonal _

theorem disconnectClient_total (clientID : GoString) (w : World π σ SqlDb τ) :
    ∃ a w', disconnectClient ctx clientID w = .ok a w' := by
  unfold disconnectClient
  split <;> exact ⟨_, _, rfl⟩

theorem safe_userDelete : Safe ctx senderID level (handleUserDelete ctx now senderID msg) := by
  intro w hw
  obtain ⟨allowed, hallowed⟩ := exists_canRun ctx.sessions ctx.commandLevels hw msg.subject.value
  have hlevel := requireLevel_eq hallowed
  cases allowed with
  | false => exact ⟨_, _, respond_of_reply (bind_of_error hlevel)⟩
  | true =>
    rw [handleUserDelete, respond_bind_of_ok hlevel]
    refine (lockstep_respond (R := fun w w' => w' = w)
      (.bind (answered_requireString _) fun target _ => ?_)).returns rfl
    refine .bind (answered_writeSessions _) fun _ _ => ?_
    refine .bind (answered_writeSessions _) fun _ _ => ?_
    exact .bind (lockstep_total (disconnectClient_total target)) fun _ _ => .pure trivial

theorem safe_userSetKillTimer (hcontent : msg.msgContent = .nil ∨ msg.msgContent.WellFormed) :
    Safe ctx senderID level (handleUserSetKillTimer ctx now senderID msg) := by
  refine safe_of_answered (.bind (answered_requireLevel _) fun _ _ => answered_unless ?_)
  refine .bind (lockstep_requireFields hcontent _) fun f hf => ?_
  refine .bind (answered_text (hf _ (by simp))) fun target _ => ?_
  refine .bind (lockstep_requireFields hcontent _) fun f hf => ?_
  refine .bind (lockstep_orPanic (LValue.toInteger_isSome (hf _ (by simp)))) fun minutes _ => ?_
  exact answered_unless <|
    .bind (answered_keeping fun w => ⟨_, _, rfl, rfl⟩) fun _ _ => .pure trivial

theorem safe_userCancelKillTimer :
    Safe ctx senderID level (handleUserCancelKillTimer ctx now senderID msg) := by
  refine safe_of_answered (.bind (answered_requireLevel _) fun _ _ => answered_unless ?_)
  refine .bind (answered_requireString _) fun target _ => ?_
  exact .bind (answered_keeping fun w => ⟨_, _, rfl, rfl⟩) fun _ _ => .pure trivial

end User

section Database

/-- The database answers with a ban or with an error, never with neither. -/
theorem getActiveBanByUserID_isSome {clock userID : ℤ} {db : SqlDb} {ban : Option Ban}
    (h : SqlDb.getActiveBanByUserID clock userID db = .ok ban) : ban.isSome := by
  unfold SqlDb.getActiveBanByUserID at h
  split at h
  · cases h
  · cases h
    rfl

theorem answered_activeBan {ord : RangeOrder GoString} {clock : ℤ}
    (hdb : ctx.db = SqlDb.port ord clock) (userID : ℤ) {rest : Ban → Body π σ SqlDb τ LValue}
    (hrest : ∀ ban, Answered (SenderRun ctx senderID level) (rest ban)) :
    Answered (SenderRun ctx senderID level)
      (readDB (ctx.db.getActiveBanByUserID userID) >>= fun r =>
        orDBError r >>= fun ban => orPanic ban >>= rest) := by
  have hread : Lockstep (SenderRun ctx senderID level)
      (readDB (ctx.db.getActiveBanByUserID userID) : Body π σ SqlDb τ _)
      (fun r => ∀ ban, r = .ok ban → ban.isSome) Answers := by
    rintro w w' ⟨rfl, hw⟩
    refine .ok ?_ ⟨rfl, hw⟩
    rw [hdb]
    exact fun ban hban => getActiveBanByUserID_isSome hban
  refine .bind hread fun r hr => ?_
  cases r with
  | error e => exact answered_reply_bind _ _
  | ok ban =>
    change Answered _ (orPanic ban >>= rest)
    exact .bind (lockstep_orPanic (hr ban rfl)) fun ban _ => hrest ban

variable (hcontent : msg.msgContent = .nil ∨ msg.msgContent.WellFormed)
include hcontent

theorem safe_handleDBCommand {requiredFields : List GoString}
    {action : Fields → Body π σ SqlDb τ LValue}
    (haction : ∀ f : Fields, (∀ name ∈ requiredFields, (f.get name).WellFormed) →
      Answered (SenderRun ctx senderID level) (action f)) :
    Safe ctx senderID level (handleDBCommand ctx now senderID msg requiredFields action) :=
  fun _ hw =>
    (lockstep_handleDBCommand (answered_requireLevel _) hcontent haction).returns ⟨rfl, hw⟩

/-- The DBPlayer commands check the owner and read the names of the row. -/
theorem safe_player {names : List GoString} (hnames : [lit "application", lit "userID"] ⊆ names)
    {rest : Fields → GoString → GoString → Body π σ SqlDb τ LValue}
    (hrest : ∀ f : Fields, (∀ name ∈ names, (f.get name).WellFormed) → ∀ appName userID,
      Answered (SenderRun ctx senderID level) (rest f appName userID)) :
    Safe ctx senderID level (handleDBCommand ctx now senderID msg names fun f => do
      requireOwnerOrAdmin ctx senderID (← f.text (lit "userID"))
      let appName ← f.text (lit "application")
      let userID ← f.text (lit "userID")
      rest f appName userID) := by
  refine safe_handleDBCommand now msg hcontent fun f hf => ?_
  have huser := hf _ (hnames (by simp : lit "userID" ∈ _))
  have happ := hf _ (hnames (by simp : lit "application" ∈ _))
  refine .bind (answered_text huser) fun target _ => ?_
  refine .bind (answered_requireOwnerOrAdmin target) fun _ _ => ?_
  refine .bind (answered_text happ) fun appName _ => ?_
  exact .bind (answered_text huser) fun userID _ => hrest f hf appName userID

theorem safe_playerGetAttribute :
    Safe ctx senderID level (handleDBPlayerGetAttribute ctx now senderID msg) := by
  refine safe_player now msg hcontent (by simp) fun f hf _ _ => ?_
  refine .bind (answered_text (hf _ (by simp))) fun attrName _ => ?_
  exact answered_dbRead senderRun_diagonal _

theorem safe_playerSetAttribute :
    Safe ctx senderID level (handleDBPlayerSetAttribute ctx now senderID msg) := by
  refine safe_player now msg hcontent (by simp) fun f hf _ _ => ?_
  exact .bind (answered_text (hf _ (by simp))) fun _ _ => answered_dbWrite _

theorem safe_playerDeleteAttribute :
    Safe ctx senderID level (handleDBPlayerDeleteAttribute ctx now senderID msg) := by
  refine safe_player now msg hcontent (by simp) fun f hf _ _ => ?_
  exact .bind (answered_text (hf _ (by simp))) fun _ _ => answered_dbWrite _

theorem safe_playerGetAttributeNames :
    Safe ctx senderID level (handleDBPlayerGetAttributeNames ctx now senderID msg) :=
  safe_player now msg hcontent (by simp) fun _ _ _ _ => answered_dbNames _

theorem safe_oneField {name : GoString} {rest : GoString → Body π σ SqlDb τ LValue}
    (hrest : ∀ text, Answered (SenderRun ctx senderID level) (rest text)) :
    Safe ctx senderID level (handleDBCommand ctx now senderID msg [name] fun f => do
      rest (← f.text name)) :=
  safe_handleDBCommand now msg hcontent fun f hf =>
    .bind (answered_text (hf _ (by simp))) fun text _ => hrest text

theorem safe_applicationAttribute {names : List GoString}
    (hnames : [lit "application", lit "attribute"] ⊆ names)
    {rest : Fields → GoString → GoString → Body π σ SqlDb τ LValue}
    (hrest : ∀ f appName attrName,
      Answered (SenderRun ctx senderID level) (rest f appName attrName)) :
    Safe ctx senderID level (handleDBCommand ctx now senderID msg names fun f => do
      let appName ← f.text (lit "application")
      let attrName ← f.text (lit "attribute")
      rest f appName attrName) := by
  refine safe_handleDBCommand now msg hcontent fun f hf => ?_
  refine .bind (answered_text (hf _ (hnames (by simp)))) fun appName _ => ?_
  exact .bind (answered_text (hf _ (hnames (by simp)))) fun attrName _ => hrest f appName attrName

theorem safe_createUser :
    Safe ctx senderID level (handleDBAdminCreateUser ctx now senderID msg) := by
  refine safe_handleDBCommand now msg hcontent fun f hf => ?_
  refine .bind (answered_text (hf _ (by simp))) fun password _ => ?_
  cases ctx.generateHash password with
  | none => exact lockstep_reply _
  | some hash =>
    refine .bind (answered_text (hf _ (by simp))) fun userID _ => ?_
    refine .bind (lockstep_orPanic (LValue.toInteger_isSome (hf _ (by simp)))) fun level _ => ?_
    exact answered_dbWrite _

theorem safe_ban : Safe ctx senderID level (handleDBAdminBan ctx now senderID msg) := by
  refine safe_handleDBCommand now msg hcontent fun f hf => ?_
  refine .bind (answered_text (hf _ (by simp))) fun userID _ => ?_
  refine .bind (answered_readDB senderRun_diagonal _) fun r _ => ?_
  refine .bind (lockstep_orDBError r) fun user _ => ?_
  exact .bind (answered_text (hf _ (by simp))) fun reason _ => answered_dbWrite _

theorem safe_revokeBan {ord : RangeOrder GoString} {clock : ℤ}
    (hdb : ctx.db = SqlDb.port ord clock) :
    Safe ctx senderID level (handleDBAdminRevokeBan ctx now senderID msg) := by
  refine safe_oneField now msg hcontent fun userID => ?_
  refine .bind (answered_readDB senderRun_diagonal _) fun r _ => ?_
  refine .bind (lockstep_orDBError r) fun user _ => ?_
  exact answered_activeBan hdb user.id fun ban => answered_dbWrite _

theorem safe_dbGetUserCount :
    Safe ctx senderID level (handleDBAdminGetUserCount ctx now senderID msg) := by
  refine safe_handleDBCommand now msg hcontent fun _ _ => ?_
  refine .bind (answered_readSessions senderRun_diagonal _) fun r _ => ?_
  exact .bind (lockstep_orDBError r) fun _ _ => .pure trivial

end Database

section Logon

theorem extractFromList_isSome {vs : List LValue} (h : ∀ v ∈ vs, v.WellFormed) :
    (extractFromList vs).isSome := by
  rcases vs with _ | ⟨movie, _ | ⟨user, _ | ⟨pass, rest⟩⟩⟩
  · rfl
  · rfl
  · rfl
  · obtain ⟨m, hm⟩ := Option.isSome_iff_exists.mp (LValue.stringValue_isSome (h movie (by simp)))
    obtain ⟨u, hu⟩ := Option.isSome_iff_exists.mp (LValue.stringValue_isSome (h user (by simp)))
    obtain ⟨p, hp⟩ := Option.isSome_iff_exists.mp (LValue.stringValue_isSome (h pass (by simp)))
    simp [extractFromList, hm, hu, hp]

theorem extractFromPropList_isSome {ps vs : List LValue}
    (h : (LValue.propList ps vs).WellFormed) : (extractFromPropList ps vs).isSome := by
  obtain ⟨hlength, hps, hvs⟩ := (LValue.wellFormed_propList ps vs).mp h
  have hget := LValue.getElement_wellFormed hlength hps hvs
  obtain ⟨user, huser, hwellUser⟩ := hget (lit "userID")
  obtain ⟨pass, hpass, hwellPass⟩ := hget (lit "password")
  obtain ⟨movie, hmovie, hwellMovie⟩ := hget (lit "movieID")
  cases user with
  | none => simp [extractFromPropList, huser]
  | some user =>
    cases pass with
    | none => simp [extractFromPropList, huser, hpass]
    | some pass =>
      obtain ⟨u, hu⟩ := Option.isSome_iff_exists.mp (LValue.stringValue_isSome (hwellUser user rfl))
      obtain ⟨p, hp⟩ := Option.isSome_iff_exists.mp (LValue.stringValue_isSome (hwellPass pass rfl))
      cases movie with
      | none => simp [extractFromPropList, huser, hpass, hmovie, hu, hp]
      | some movie =>
        obtain ⟨m, hm⟩ :=
          Option.isSome_iff_exists.mp (LValue.stringValue_isSome (hwellMovie movie rfl))
        simp [extractFromPropList, huser, hpass, hmovie, hu, hp, hm]

theorem exists_logonRequest (h : msg.msgContent.WellFormed) (connectionID : GoString) :
    ∃ req, logonRequest connectionID msg = some req := by
  obtain ⟨text, htext⟩ := Option.isSome_iff_exists.mp (LValue.toString_isSome h)
  have hcredentials : (extractCredentials msg.msgContent).isSome := by
    cases hcontent : msg.msgContent
    case list vs =>
      rw [hcontent] at h
      exact extractFromList_isSome ((LValue.wellFormed_list vs).mp h)
    case propList ps vs =>
      rw [hcontent] at h
      exact extractFromPropList_isSome h
    all_goals rfl
  obtain ⟨credentials, hcredentials⟩ := Option.isSome_iff_exists.mp hcredentials
  exact ⟨_, by rw [logonRequest, htext, hcredentials]; rfl⟩

theorem lockstep_joinMovie (movieID userID : GoString) :
    Lockstep (fun w w' => w' = w) (joinMovie ctx movieID userID : Run π σ SqlDb τ Bool)
      (fun _ => True) (fun _ => False) := by
  refine .bind (lockstep_total fun w => ?_) fun _ _ => ?_
  · unfold ensureMovie
    split <;> exact ⟨_, _, rfl⟩
  refine .bind (lockstep_total fun w => ⟨_, _, rfl⟩) fun joined _ => ?_
  cases joined with
  | error e => exact .pure trivial
  | ok _ =>
    refine .bind (lockstep_total (ensureGroup_total movieID allUsers)) fun _ _ => ?_
    refine .bind (lockstep_total fun w => ⟨_, _, rfl⟩) fun joined _ => ?_
    cases joined <;> exact .pure trivial

theorem lockstep_enterMovie (userID movieID : GoString) :
    Lockstep (fun w w' => w' = w) (enterMovie ctx userID movieID) (fun _ => True)
      (fun _ => False) := by
  unfold enterMovie
  split_ifs
  · refine .bind (lockstep_joinMovie movieID userID) fun joined _ => ?_
    cases joined
    · exact .pure trivial
    · exact .bind (lockstep_total fun w => ⟨_, _, rfl⟩) fun _ _ => .pure trivial
  · exact .pure trivial

/-- A logon with a content answers, whatever its outcome. -/
theorem handleLogon_returns (h : msg.msgContent.WellFormed) (w : World π σ SqlDb τ) :
    ∃ response w', handleLogon ctx now senderID msg w = .ok response w' := by
  obtain ⟨req, hreq⟩ := exists_logonRequest msg h senderID
  have hrun : Lockstep (fun w w' => w' = w) (handleLogon ctx now senderID msg)
      (fun _ => True) (fun _ => False) := by
    unfold handleLogon
    rw [hreq]
    refine .bind (lockstep_total fun w => ⟨_, _, rfl⟩) fun res _ => ?_
    split_ifs
    · exact .pure trivial
    · exact .bind (lockstep_enterMovie res.userID res.movieID) fun _ _ => .pure trivial
  exact hrun.returns rfl

theorem handleLogon_nil (h : msg.msgContent = .nil) (w : World π σ SqlDb τ) :
    handleLogon ctx now senderID msg w = .error .panic w := by
  have hreq : logonRequest senderID msg = none := by
    rw [logonRequest, h]
    rfl
  rw [handleLogon, hreq]
  rfl

end Logon

section KillTimer

theorem safe_setKillTimer (h : msg.msgContent.WellFormed) :
    Safe ctx senderID level (handleServerSetKillTimer ctx now senderID msg) := by
  refine safe_of_answered (.bind (answered_requireLevel _) fun _ _ => answered_unless ?_)
  refine .bind (lockstep_orPanic (LValue.toInteger_isSome h)) fun minutes _ => ?_
  exact answered_unless <|
    .bind (answered_keeping fun w => ⟨_, _, rfl, rfl⟩) fun _ _ => .pure trivial

/-- Without a content the permission and the timer manager decide: past both, the handler asks the
absent content for its integer. -/
theorem handleServerSetKillTimer_nil (h : msg.msgContent = .nil) {w : World π σ SqlDb τ}
    (hw : userLevel ctx.sessions w.sessions senderID = some level) :
    (∃ response w', handleServerSetKillTimer ctx now senderID msg w = .ok response w') ↔
      ¬ (ctx.hasTimerManager = true ∧
        canRun ctx.sessions ctx.commandLevels w.sessions senderID msg.subject.value =
          some true) := by
  obtain ⟨allowed, hallowed⟩ := exists_canRun ctx.sessions ctx.commandLevels hw msg.subject.value
  have hrequire := requireLevel_eq hallowed
  unfold handleServerSetKillTimer
  cases allowed with
  | false =>
    refine iff_of_true ?_ (by simp [hallowed])
    unfold respond
    rw [bind_of_error hrequire]
    exact ⟨_, _, rfl⟩
  | true =>
    rw [respond_bind_of_ok hrequire]
    cases hmanager : ctx.hasTimerManager with
    | false => exact iff_of_true ⟨_, _, rfl⟩ (by simp)
    | true =>
      refine iff_of_false ?_ (by simp [hallowed])
      rintro ⟨response, w', hresponse⟩
      rw [h] at hresponse
      cases hresponse

end KillTimer

section Table

theorem safe_handlers {ord : RangeOrder GoString} {clock : ℤ} (hdb : ctx.db = SqlDb.port ord clock)
    (hcontent : msg.msgContent = .nil ∨ msg.msgContent.WellFormed) :
    ∀ entry ∈ handlers ctx now, entry.1 ≠ lit "Logon" →
      entry.1 ≠ lit "system.server.setKillTimer" →
      Safe ctx senderID level (entry.2 senderID msg) := by
  simp only [handlers, List.forall_mem_cons, List.not_mem_nil, false_imp_iff, implies_true,
    and_true]
  refine ⟨fun h _ => absurd rfl h, ?_⟩
  and_intros <;> intro hlogon htimer
  · exact safe_of_answered (.pure trivial)
  · exact safe_of_answered (.pure trivial)
  · exact safe_getUserCount now msg
  · exact safe_of_answered (.bind (answered_getMovies senderRun_diagonal) fun _ _ => .pure trivial)
  · exact safe_of_answered (.bind (answered_getMovies senderRun_diagonal) fun _ _ => .pure trivial)
  · exact safe_movieGetUserCount now msg
  · exact safe_ofMovie now msg _
  · exact safe_ofMovie now msg _
  · exact safe_groupJoin now msg
  · exact safe_groupJoin now msg
  · exact safe_groupLeave now msg
  · exact safe_groupLeave now msg
  · exact safe_ofMembers now msg _
  · exact safe_ofMembers now msg _
  · exact safe_groupSetAttribute now msg hcontent
  · exact safe_groupGetAttribute now msg hcontent
  · exact safe_groupDeleteAttribute now msg hcontent
  · exact safe_groupGetAttributeNames now msg
  · exact safe_userGetAddress now msg
  · exact safe_userGetGroups now msg
  · exact safe_userDelete now msg
  · exact safe_playerGetAttribute now msg hcontent
  · exact safe_playerSetAttribute now msg hcontent
  · exact safe_playerDeleteAttribute now msg hcontent
  · exact safe_playerGetAttributeNames now msg hcontent
  · exact safe_applicationAttribute now msg hcontent (by simp) fun _ _ _ =>
      answered_dbRead senderRun_diagonal _
  · exact safe_applicationAttribute now msg hcontent (by simp) fun _ _ _ => answered_dbWrite _
  · exact safe_applicationAttribute now msg hcontent (by simp) fun _ _ _ => answered_dbWrite _
  · exact safe_oneField now msg hcontent fun _ => answered_dbNames _
  · exact safe_oneField now msg hcontent fun _ => answered_dbWrite _
  · exact safe_oneField now msg hcontent fun _ => answered_dbWrite _
  · exact safe_createUser now msg hcontent
  · exact safe_oneField now msg hcontent fun _ => answered_dbWrite _
  · exact safe_dbGetUserCount now msg hcontent
  · exact safe_ban now msg hcontent
  · exact safe_revokeBan now msg hcontent hdb
  · exact safe_sendEmail now msg hcontent
  · exact absurd rfl htimer
  · exact safe_cancelKillTimer now msg
  · exact safe_userSetKillTimer now msg hcontent
  · exact safe_userCancelKillTimer now msg

end Table

end Handlers

/-- A system command returns a response, but for two commands without a content: a logon, and the
setting of the server's kill timer by a sender who may set it where there are timers. -/
theorem handle_returns_iff {ord : RangeOrder GoString} {clock : ℤ}
    (hdb : ctx.db = SqlDb.port ord clock) (now : ℤ) {msg : MUSMessage}
    (hcontent : msg.msgContent = .nil ∨ msg.msgContent.WellFormed) {w : World π σ SqlDb τ}
    (hlevel : userLevel ctx.sessions w.sessions senderID = some level) :
    (∃ response w', handle ctx now senderID msg w = .ok response w') ↔
      ¬ (msg.msgContent = .nil ∧
        (msg.subject.value = lit "Logon" ∨
          msg.subject.value = lit "system.server.setKillTimer" ∧ ctx.hasTimerManager = true ∧
            canRun ctx.sessions ctx.commandLevels w.sessions senderID msg.subject.value =
              some true)) := by
  by_cases hlogon : msg.subject.value = lit "Logon"
  · have hhandle : handle ctx now senderID msg = handleLogon ctx now senderID msg := by
      unfold handle
      rw [hlogon]
      rfl
    rw [hhandle]
    rcases hcontent with hnil | hwell
    · simp [handleLogon_nil now msg hnil, hnil, hlogon]
    · refine iff_of_true (handleLogon_returns now msg hwell w) fun h => ?_
      rw [h.1] at hwell
      exact LValue.not_wellFormed_nil hwell
  by_cases htimer : msg.subject.value = lit "system.server.setKillTimer"
  · have hhandle : handle ctx now senderID msg = handleServerSetKillTimer ctx now senderID msg := by
      unfold handle
      rw [htimer]
      rfl
    rw [hhandle]
    rcases hcontent with hnil | hwell
    · rw [handleServerSetKillTimer_nil now msg hnil hlevel]
      rw [htimer] at hlogon
      simp only [hnil, hlogon, htimer, true_and, false_or]
    · refine iff_of_true (safe_setKillTimer now msg hwell w hlevel) fun h => ?_
      rw [h.1] at hwell
      exact LValue.not_wellFormed_nil hwell
  · refine iff_of_true ?_ (by simp [hlogon, htimer])
    unfold handle
    cases hlookup : (handlers ctx now).lookup msg.subject.value with
    | none => exact ⟨_, _, rfl⟩
    | some handler =>
      exact safe_handlers now msg hdb hcontent _ (mem_handlers_of_lookup ctx now hlookup) hlogon
        htimer
        w hlevel

/-- Eve asks for the addresses without saying whose. -/
theorem handle_returns_iff_getAddress :
    ∃ response w', handle (storing (.sorted (· ≤ ·))) 7 (lit "eve")
      (commandMessage (lit "system.user.getAddress") .nil) (eveWith ∅) = .ok response w' := by
  have hlevel : userLevel (storing (.sorted (· ≤ ·))).sessions (eveWith ∅).sessions (lit "eve") =
      some 20 := by
    decide +kernel
  exact (handle_returns_iff rfl 7 (.inl rfl) hlevel).mpr (by decide +kernel)

/-- A server with timers, which everybody may set. -/
def timing (ord : RangeOrder GoString) : Context Unit MemorySessionStore SqlDb Unit :=
  { storing ord with
    commandLevels := (∅ : GoMap GoString ℤ).insert (lit "system.server.setKillTimer") 0
    hasTimerManager := true }

/-- A logon without a content and a kill timer without a content. -/
theorem absent_content_panics :
    handle (timing (.sorted (· ≤ ·))) 7 (lit "127.0.0.1:5000") (commandMessage (lit "Logon") .nil)
        (eveWith ∅) = .error .panic (eveWith ∅) ∧
      handle (timing (.sorted (· ≤ ·))) 7 (lit "eve")
        (commandMessage (lit "system.server.setKillTimer") .nil) (eveWith ∅) =
          .error .panic (eveWith ∅) :=
  ⟨rfl, rfl⟩

end Musgos.Mus
