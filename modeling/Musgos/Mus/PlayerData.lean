import Musgos.Foundation.TwoRuns
import Musgos.Mus.SystemService
import Musgos.Mus.Standalone
import Musgos.Outbound.SqlDb

/-!
# Player data of other users

The four DBPlayer commands check the owner and then read the target again from the
message, each time out of a property list the client has written. For a sender below
the administrator's level neither the answer nor the effect of such a command reaches
a row of another user: two runs on databases that differ only there go in lockstep.
-/
namespace Musgos.Mus

open Foundation Lingo Domain Services Smus Outbound

section Rows

/-- The databases agree on the applications and on the rows of one user. -/
structure AgreeFor (userID : GoString) (d d' : SqlDb) : Prop where
  applications : d'.applications = d.applications
  rows : ∀ appID attrName, d'.playerAttributes.lookup (appID, userID, attrName) =
    d.playerAttributes.lookup (appID, userID, attrName)

/-- The rows of every other user are the same. -/
def OthersKept (userID : GoString) (d d' : SqlDb) : Prop :=
  ∀ appID other attrName, other ≠ userID →
    d'.playerAttributes.lookup (appID, other, attrName) =
      d.playerAttributes.lookup (appID, other, attrName)

variable {userID : GoString} {d d' : SqlDb}

theorem mem_playerAttributeNames (db : SqlDb) (appID : ℤ) (userID attrName : GoString) :
    attrName ∈ db.playerAttributeNames appID userID ↔
      (db.playerAttributes.lookup (appID, userID, attrName)).isSome := by
  simp only [SqlDb.playerAttributeNames, Finset.mem_image, Finset.mem_filter, Finmap.mem_keys,
    Finmap.lookup_isSome]
  constructor
  · rintro ⟨⟨app, user, attr⟩, ⟨hrow, rfl, rfl⟩, rfl⟩
    exact hrow
  · exact fun hrow => ⟨(appID, userID, attrName), ⟨hrow, rfl, rfl⟩, rfl⟩

namespace AgreeFor

theorem getAppID (h : AgreeFor userID d d') (appName : GoString) :
    SqlDb.getAppID appName d' = SqlDb.getAppID appName d := by
  rw [SqlDb.getAppID, SqlDb.getAppID, h.applications]

theorem getPlayerAttribute (h : AgreeFor userID d d') (appName attrName : GoString) :
    SqlDb.getPlayerAttribute appName userID attrName d' =
      SqlDb.getPlayerAttribute appName userID attrName d := by
  simp only [SqlDb.getPlayerAttribute, h.getAppID, h.rows]

theorem getPlayerAttributeNames (h : AgreeFor userID d d') (ord : RangeOrder GoString)
    (appName : GoString) :
    SqlDb.getPlayerAttributeNames ord appName userID d' =
      SqlDb.getPlayerAttributeNames ord appName userID d := by
  have hnames : ∀ appID, d'.playerAttributeNames appID userID =
      d.playerAttributeNames appID userID := by
    intro appID
    ext attrName
    rw [mem_playerAttributeNames, mem_playerAttributeNames, h.rows]
  simp only [SqlDb.getPlayerAttributeNames, h.getAppID, hnames]

end AgreeFor

/-- A write that answers alike on agreeing databases, keeps them agreeing, and keeps the
rows of the others. -/
structure OwnWrite (userID : GoString) (op : Write SqlDb) : Prop where
  same : ∀ d d', AgreeFor userID d d' → (op d').1 = (op d).1
  agree : ∀ d d', AgreeFor userID d d' → AgreeFor userID (op d).2 (op d').2
  others : ∀ d, OthersKept userID d (op d).2

theorem ownWrite_setPlayerAttribute (userID appName attrName : GoString) (value : LValue) :
    OwnWrite userID (SqlDb.setPlayerAttribute appName userID attrName value) where
  same d d' h := by
    simp only [SqlDb.setPlayerAttribute, h.getAppID]
    split <;> rfl
  agree d d' h := by
    simp only [SqlDb.setPlayerAttribute, h.getAppID]
    split
    · exact ⟨h.applications, fun appID attr => by simp [h.rows]⟩
    · exact h
    · exact h
  others d appID other attr hother := by
    simp only [SqlDb.setPlayerAttribute]
    split <;> simp [hother]

theorem ownWrite_deletePlayerAttribute (userID appName attrName : GoString) :
    OwnWrite userID (SqlDb.deletePlayerAttribute appName userID attrName) where
  same d d' h := by
    simp only [SqlDb.deletePlayerAttribute, h.getAppID]
    split <;> rfl
  agree d d' h := by
    simp only [SqlDb.deletePlayerAttribute, h.getAppID]
    split
    · exact h
    · exact ⟨h.applications, fun appID attr => by simp [h.rows]⟩
  others d appID other attr hother := by
    simp only [SqlDb.deletePlayerAttribute]
    split <;> simp [hother]

end Rows

section Handlers

variable {π σ τ α : Type} {ctx : Context π σ SqlDb τ} {senderID : GoString} {level : ℤ}
  {d d' : SqlDb}

/-- Two states on the way of a command: the sender has its level below the
administrator's, the databases agree for the sender, and neither has lost or changed a
row of anybody else since the command began. -/
structure Alike (ctx : Context π σ SqlDb τ) (senderID : GoString) (level : ℤ) (d d' : SqlDb)
    (w w' : World π σ SqlDb τ) : Prop where
  sessions : w'.sessions = w.sessions
  level : userLevel ctx.sessions w.sessions senderID = some level
  agree : AgreeFor senderID w.db w'.db
  kept : OthersKept senderID d w.db
  kept' : OthersKept senderID d' w'.db

/-- The body of a handler stops with an answer. -/
def Answers : Stop → Prop
  | .panic => False
  | .reply _ => True

variable {R : World π σ SqlDb τ → World π σ SqlDb τ → Prop}

theorem lockstep_orPanic {o : Option α} (h : o.isSome) :
    Lockstep R (orPanic o : Body π σ SqlDb τ α) (fun a => o = some a) Answers := by
  obtain ⟨a, rfl⟩ := Option.isSome_iff_exists.mp h
  exact .pure rfl

theorem lockstep_reply {Q : α → Prop} (code : Int32) :
    Lockstep R (reply code : Body π σ SqlDb τ α) Q Answers :=
  .throw trivial

theorem lockstep_orDBError (r : Except PortError α) :
    Lockstep R (orDBError r : Body π σ SqlDb τ α) (fun _ => True) Answers := by
  cases r with
  | error e => exact lockstep_reply _
  | ok a => exact .pure trivial

theorem lockstep_readDB {op : Read SqlDb α} (h : ∀ w w', R w w' → op w'.db = op w.db) :
    Lockstep R (readDB op : Body π σ SqlDb τ _) (fun _ => True) Answers := by
  intro w w' hR
  unfold readDB
  rw [h w w' hR]
  exact .ok trivial hR

theorem lockstep_text {f : Fields} {name : GoString} (h : (f.get name).WellFormed) :
    Lockstep R (f.text name : Body π σ SqlDb τ GoString)
      (fun s => (f.get name).stringValue = some s) Answers :=
  lockstep_orPanic (LValue.stringValue_isSome h)

theorem wellFormed_get_of_forall₂ {names : List GoString} {f : Fields}
    (h : List.Forall₂ (fun name entry => entry.1 = name ∧ entry.2.WellFormed) names f) :
    ∀ name ∈ names, (f.get name).WellFormed := by
  induction h with
  | nil => simp
  | @cons first entry names f hentry _ ih =>
    obtain ⟨key, value⟩ := entry
    obtain ⟨rfl, hvalue⟩ := hentry
    intro name hname
    by_cases hkey : name = key
    · simpa [Fields.get, List.lookup_cons, hkey] using hvalue
    · have hlater := (List.mem_cons.mp hname).resolve_left hkey
      simpa [Fields.get, List.lookup_cons, beq_false_of_ne hkey] using ih name hlater

/-- The fields that are there in the end are the required ones, with well-formed values. -/
theorem lockstep_requireFields {content : LValue} (h : content = .nil ∨ content.WellFormed)
    (names : List GoString) :
    Lockstep R (requireFields content names : Body π σ SqlDb τ Fields)
      (fun f => ∀ name ∈ names, (f.get name).WellFormed) Answers := by
  obtain rfl | h := h
  · exact lockstep_reply _
  cases content
  case propList ps vs =>
    obtain ⟨hlength, hps, hvs⟩ := (LValue.wellFormed_propList ps vs).mp h
    have hfields : Lockstep R (requireFields (.propList ps vs) names : Body π σ SqlDb τ Fields)
        (List.Forall₂ (fun name entry => entry.1 = name ∧ entry.2.WellFormed) names) Answers := by
      refine .mapM fun name _ => ?_
      obtain ⟨found, hfound, hwell⟩ := LValue.getElement_wellFormed hlength hps hvs name
      rw [hfound]
      cases found with
      | none => exact lockstep_reply _
      | some value => exact .pure ⟨rfl, hwell value rfl⟩
    exact hfields.mono fun f hf => wellFormed_get_of_forall₂ hf
  all_goals exact lockstep_reply _

/-- The check answers the same in states with the same sessions, in which the sender has a
level. -/
theorem lockstep_requireLevel {R : World π σ SqlDb τ → World π σ SqlDb τ → Prop}
    (hR : ∀ w w', R w w' → w'.sessions = w.sessions ∧
      userLevel ctx.sessions w.sessions senderID = some level) (command : GoString) :
    Lockstep R (requireLevel ctx senderID command) (fun _ => True) Answers := by
  refine .get fun w w' hw => ?_
  obtain ⟨hsessions, hlevel⟩ := hR w w' hw
  obtain ⟨allowed, hallowed⟩ := exists_canRun ctx.sessions ctx.commandLevels hlevel command
  refine ⟨by rw [hsessions], ?_⟩
  rw [hallowed]
  cases allowed
  · exact lockstep_reply _
  · exact .pure trivial

theorem lockstep_requireOwnerOrAdmin (hbelow : level < adminLevel ctx.commandLevels)
    (target : GoString) :
    Lockstep (Alike ctx senderID level d d') (requireOwnerOrAdmin ctx senderID target)
      (fun _ => target = senderID) Answers := by
  refine .get fun w w' hR => ⟨by rw [hR.sessions], ?_⟩
  unfold ownerOrAdmin
  by_cases htarget : target = senderID
  · rw [if_pos htarget]
    exact .pure htarget
  · rw [if_neg htarget, hR.level]
    have hdenied : decide (adminLevel ctx.commandLevels ≤ level) = false := by simpa using hbelow
    simp only [Option.map_some, hdenied]
    exact lockstep_reply _

theorem lockstep_dbWrite {op : Write SqlDb} (hop : OwnWrite senderID op) :
    Lockstep (Alike ctx senderID level d d') (dbWrite op : Body π σ SqlDb τ LValue) (fun _ => True)
      Answers := by
  have hwrite : Lockstep (Alike ctx senderID level d d') (writeDB op : Body π σ SqlDb τ _)
      (fun _ => True) Answers := by
    intro w w' hR
    unfold writeDB
    rw [hop.same _ _ hR.agree]
    refine .ok trivial ⟨hR.sessions, hR.level, hop.agree _ _ hR.agree, ?_, ?_⟩
    · exact fun app other attr hother => (hop.others _ app other attr hother).trans
        (hR.kept app other attr hother)
    · exact fun app other attr hother => (hop.others _ app other attr hother).trans
        (hR.kept' app other attr hother)
  exact .bind hwrite fun r _ => .bind (lockstep_orDBError r) fun _ _ => .pure trivial

theorem lockstep_respond {now : ℤ} {msg : MUSMessage} {body : Body π σ SqlDb τ LValue}
    (h : Lockstep R body (fun _ => True) Answers) :
    Lockstep R (respond now senderID msg body) (fun _ => True) (fun _ => False) := by
  intro w w' hR
  have hbody := h w w' hR
  unfold respond
  generalize body w = r, body w' = r' at hbody
  cases hbody with
  | ok _ hw => exact .ok trivial hw
  | error he hw =>
    rename_i e _ _
    cases e with
    | panic => exact absurd he id
    | reply code => exact .ok trivial hw

theorem lockstep_handleDBCommand {now : ℤ} {msg : MUSMessage}
    (hlevel : Lockstep R (requireLevel ctx senderID msg.subject.value) (fun _ => True) Answers)
    (hcontent : msg.msgContent = .nil ∨ msg.msgContent.WellFormed)
    {requiredFields : List GoString} {action : Fields → Body π σ SqlDb τ LValue}
    (haction : ∀ f : Fields, (∀ name ∈ requiredFields, (f.get name).WellFormed) →
      Lockstep R (action f) (fun _ => True) Answers) :
    Lockstep R (handleDBCommand ctx now senderID msg requiredFields action) (fun _ => True)
      (fun _ => False) := by
  refine lockstep_respond (.bind hlevel fun _ _ => ?_)
  dsimp only
  split_ifs with hnone
  · exact haction [] (by simp [hnone])
  · exact .bind (lockstep_requireFields hcontent requiredFields) haction

/-- The start of a DBPlayer action: what follows runs for the sender's own rows only. -/
theorem lockstep_owned (hbelow : level < adminLevel ctx.commandLevels) {names : List GoString}
    {f : Fields} (hf : ∀ name ∈ names, (f.get name).WellFormed)
    (hnames : [lit "application", lit "userID"] ⊆ names)
    {rest : GoString → GoString → Body π σ SqlDb τ LValue}
    (hrest : ∀ appName, Lockstep (Alike ctx senderID level d d') (rest appName senderID)
      (fun _ => True) Answers) :
    Lockstep (Alike ctx senderID level d d')
      (f.text (lit "userID") >>= fun target =>
        requireOwnerOrAdmin ctx senderID target >>= fun _ =>
          f.text (lit "application") >>= fun appName =>
            f.text (lit "userID") >>= fun userID => rest appName userID)
      (fun _ => True) Answers := by
  have happ : lit "application" ∈ names := hnames (by simp)
  have huser : lit "userID" ∈ names := hnames (by simp)
  refine .bind (lockstep_text (hf _ huser)) fun target htarget => ?_
  refine .bind (lockstep_requireOwnerOrAdmin hbelow target) fun _ howner => ?_
  refine .bind (lockstep_text (hf _ happ)) fun appName _ => ?_
  refine .bind (lockstep_text (hf _ huser)) fun userID huserID => ?_
  obtain rfl : userID = target := Option.some.inj (huserID.symm.trans htarget)
  obtain rfl := howner
  exact hrest appName

section Commands

variable {ord : RangeOrder GoString} {clock now : ℤ} {msg : MUSMessage}

theorem lockstep_getAttribute (hdb : ctx.db = SqlDb.port ord clock)
    (hbelow : level < adminLevel ctx.commandLevels) (hcontent : msg.msgContent.WellFormed) :
    Lockstep (Alike ctx senderID level d d') (handleDBPlayerGetAttribute ctx now senderID msg)
      (fun _ => True) (fun _ => False) := by
  refine lockstep_handleDBCommand (lockstep_requireLevel (fun _ _ h => ⟨h.sessions, h.level⟩) _)
    (.inr hcontent) fun f hf => ?_
  refine lockstep_owned hbelow hf (by simp) fun appName => ?_
  refine .bind (lockstep_text (hf _ (by simp))) fun attrName _ => ?_
  refine .bind (lockstep_readDB fun w w' hR => ?_) fun r _ => lockstep_orDBError r
  rw [hdb]
  exact hR.agree.getPlayerAttribute appName attrName

theorem lockstep_setAttribute (hdb : ctx.db = SqlDb.port ord clock)
    (hbelow : level < adminLevel ctx.commandLevels) (hcontent : msg.msgContent.WellFormed) :
    Lockstep (Alike ctx senderID level d d') (handleDBPlayerSetAttribute ctx now senderID msg)
      (fun _ => True) (fun _ => False) := by
  refine lockstep_handleDBCommand (lockstep_requireLevel (fun _ _ h => ⟨h.sessions, h.level⟩) _)
    (.inr hcontent) fun f hf => ?_
  refine lockstep_owned hbelow hf (by simp) fun appName => ?_
  refine .bind (lockstep_text (hf _ (by simp))) fun attrName _ => ?_
  rw [hdb]
  exact lockstep_dbWrite (ownWrite_setPlayerAttribute senderID appName attrName _)

theorem lockstep_deleteAttribute (hdb : ctx.db = SqlDb.port ord clock)
    (hbelow : level < adminLevel ctx.commandLevels) (hcontent : msg.msgContent.WellFormed) :
    Lockstep (Alike ctx senderID level d d') (handleDBPlayerDeleteAttribute ctx now senderID msg)
      (fun _ => True) (fun _ => False) := by
  refine lockstep_handleDBCommand (lockstep_requireLevel (fun _ _ h => ⟨h.sessions, h.level⟩) _)
    (.inr hcontent) fun f hf => ?_
  refine lockstep_owned hbelow hf (by simp) fun appName => ?_
  refine .bind (lockstep_text (hf _ (by simp))) fun attrName _ => ?_
  rw [hdb]
  exact lockstep_dbWrite (ownWrite_deletePlayerAttribute senderID appName attrName)

theorem lockstep_getAttributeNames (hdb : ctx.db = SqlDb.port ord clock)
    (hbelow : level < adminLevel ctx.commandLevels) (hcontent : msg.msgContent.WellFormed) :
    Lockstep (Alike ctx senderID level d d') (handleDBPlayerGetAttributeNames ctx now senderID msg)
      (fun _ => True) (fun _ => False) := by
  refine lockstep_handleDBCommand (lockstep_requireLevel (fun _ _ h => ⟨h.sessions, h.level⟩) _)
    (.inr hcontent) fun f hf => ?_
  refine lockstep_owned hbelow hf (by simp) fun appName => ?_
  refine .bind (lockstep_readDB fun w w' hR => ?_) fun r _ =>
    .bind (lockstep_orDBError r) fun _ _ => .pure trivial
  rw [hdb]
  exact hR.agree.getPlayerAttributeNames ord appName

def playerSubjects : List GoString :=
  [lit "DBPlayer.getAttribute", lit "DBPlayer.setAttribute", lit "DBPlayer.deleteAttribute",
    lit "DBPlayer.getAttributeNames"]

theorem lockstep_handle (hdb : ctx.db = SqlDb.port ord clock) (now : ℤ)
    (hbelow : level < adminLevel ctx.commandLevels) (hcontent : msg.msgContent.WellFormed)
    (hsubject : msg.subject.value ∈ playerSubjects) :
    Lockstep (Alike ctx senderID level d d') (handle ctx now senderID msg)
      (fun _ => True) (fun _ => False) := by
  unfold handle
  simp only [playerSubjects, List.mem_cons, List.not_mem_nil, or_false] at hsubject
  rcases hsubject with h | h | h | h <;> rw [h]
  · exact lockstep_getAttribute hdb hbelow hcontent
  · exact lockstep_setAttribute hdb hbelow hcontent
  · exact lockstep_deleteAttribute hdb hbelow hcontent
  · exact lockstep_getAttributeNames hdb hbelow hcontent

end Commands

end Handlers

/-- The player commands of a sender below the administrator's level answer the same
whatever the rows of the others are, and change none of these. -/
theorem player_data_out_of_reach {π σ τ : Type} {ctx : Context π σ SqlDb τ}
    {ord : RangeOrder GoString} {clock : ℤ} (hdb : ctx.db = SqlDb.port ord clock) (now : ℤ)
    {senderID : GoString} {msg : MUSMessage} (hsubject : msg.subject.value ∈ playerSubjects)
    (hcontent : msg.msgContent.WellFormed) {w w' : World π σ SqlDb τ}
    (hsessions : w'.sessions = w.sessions) {level : ℤ}
    (hlevel : userLevel ctx.sessions w.sessions senderID = some level)
    (hbelow : level < adminLevel ctx.commandLevels) (hagree : AgreeFor senderID w.db w'.db) :
    ∃ response t t', handle ctx now senderID msg w = .ok response t ∧
      handle ctx now senderID msg w' = .ok response t' ∧
      OthersKept senderID w.db t.db ∧ OthersKept senderID w'.db t'.db := by
  have halike : Alike ctx senderID level w.db w'.db w w' :=
    ⟨hsessions, hlevel, hagree, fun _ _ _ _ => rfl, fun _ _ _ _ => rfl⟩
  have hend := lockstep_handle hdb now hbelow hcontent hsubject w w' halike
  generalize handle ctx now senderID msg w = r, handle ctx now senderID msg w' = r' at hend
  cases hend with
  | ok _ ht => exact ⟨_, _, _, rfl, rfl, ht.kept, ht.kept'⟩
  | error he _ => exact absurd he id

/-- A server with a database, on which everybody may run the player commands. -/
def storing (ord : RangeOrder GoString) : Context Unit MemorySessionStore SqlDb Unit where
  db := SqlDb.port ord 0
  sessions := MemorySessionStore.port ord
  connWriter := some openLine
  mode := .none
  defaultLevel := 20
  tokens := none
  compareHash _ _ := false
  commandLevels := (∅ : GoMap GoString ℤ).insert (lit "DBPlayer.getAttributeNames") 0
  emailSender := none
  hasTimerManager := false
  scriptEngine := none
  cipher := none
  allEncrypted := false
  defaultMovieID := []
  generateHash _ := none
  order := ord

/-- Eve, of level 20, and the application `g` with rows in `player_attributes`. -/
def eveWith (rows : GoMap (ℤ × GoString × GoString) ValueJson) :
    World Unit MemorySessionStore SqlDb Unit where
  conns := ()
  sessions := MemorySessionStore.new.setUserAttribute (lit "eve") userLevelAttribute (.integer 20)
  db := { SqlDb.new with
    applications := (∅ : GoMap GoString ℤ).insert (lit "g") 1
    playerAttributes := rows }
  tokens := ()
  movies := ∅
  serverTimer := none
  userTimers := ∅
  offered := []
  mails := []
  scripts := []

/-- Bob's row shows neither in what eve is told nor is it touched. -/
theorem player_data_out_of_reach_bob :
    let rows := (∅ : GoMap (ℤ × GoString × GoString) ValueJson).insert
      (1, lit "eve", lit "gold") (some ⟨.integer, some (.integer 5)⟩)
    let w := eveWith rows
    let w' := eveWith (rows.insert (1, lit "bob", lit "gold") (some ⟨.integer, some (.integer 9)⟩))
    let msg := commandMessage (lit "DBPlayer.getAttributeNames")
      (.propList [.symbol (lit "application"), .symbol (lit "!userID")]
        [.string (lit "g"), .string (lit "eve")])
    ∃ response t t', handle (storing (.sorted (· ≤ ·))) 7 (lit "eve") msg w = .ok response t ∧
      handle (storing (.sorted (· ≤ ·))) 7 (lit "eve") msg w' = .ok response t' ∧
      OthersKept (lit "eve") w.db t.db ∧ OthersKept (lit "eve") w'.db t'.db := by
  intro rows w w' msg
  have hlevel : userLevel (storing (.sorted (· ≤ ·))).sessions w.sessions (lit "eve") =
      some 20 := by
    decide +kernel
  refine player_data_out_of_reach rfl 7 (by decide +kernel) (by decide +kernel) rfl hlevel
    (by decide +kernel) ⟨rfl, fun appID attrName => ?_⟩
  have hbob : ¬ lit "eve" = lit "bob" := by decide
  simp [w, w', eveWith, hbob]

end Musgos.Mus
