import Musgos.Outbound.SqlDb

/-!
# Bans and revocations

A ban is a row of its own, and a revocation marks one row. The console, the scripts and the
administrators ban a user as often as they like and revoke one ban at a time, from any number of
goroutines; what they do reaches the database as single statements. All of them ban users and not
addresses, and without an end. A user who still exists is banned just if more such bans have been
made than revoked.
-/
namespace Musgos.Outbound

open Foundation Domain

/-- The statements on users and bans, with the clock of the server. A ban is one of a user, without
an end. -/
inductive BanStatement where
  | createUser (username passwordHash : GoString) (userLevel : ℤ)
  | deleteUser (username : GoString)
  | createBan (now userID : ℤ) (reason : GoString)
  | revokeBan (now banID : ℤ)

/-- What has succeeded, by the user it is about. -/
inductive BanEvent where
  | banned (userID : ℤ)
  | revoked (userID : ℤ)
  deriving DecidableEq

namespace SqlDb

def banCall (db : SqlDb) : BanStatement → Except PortError Unit × SqlDb
  | .createUser name hash level => createUser name hash level db
  | .deleteUser name => deleteUser name db
  | .createBan now userID reason => createBan now userID reason db
  | .revokeBan now banID => revokeBan now banID db

/-- The events of a statement that returned without an error. -/
def banEvents (db : SqlDb) : BanStatement → List BanEvent
  | .createUser _ _ _ | .deleteUser _ => []
  | .createBan _ userID _ => [.banned userID]
  | .revokeBan _ banID =>
    (db.bans.filter fun ban => ban.id = banID).filterMap fun ban => ban.userID.map .revoked

/-- The database and what has happened. -/
def banStep (p : SqlDb × List BanEvent) (op : BanStatement) : SqlDb × List BanEvent :=
  let r := p.1.banCall op
  (r.2, match r.1 with
    | .ok _ => p.2 ++ p.1.banEvents op
    | .error _ => p.2)

def banRun (ops : List BanStatement) : SqlDb × List BanEvent := ops.foldl banStep (new, [])

end SqlDb

/-- How many bans of the user are active. -/
def activeBans (db : SqlDb) (now userID : ℤ) : ℕ := db.bans.countP (BanRow.Active now userID)

/-- What holds of the tables and of what has happened. -/
structure Balanced (db : SqlDb) (log : List BanEvent) : Prop where
  ids : (db.bans.map BanRow.id).Nodup
  idsMade : ∀ ban ∈ db.bans, ban.id < db.nextBanID
  /-- The bans that are made have no end. -/
  endless : ∀ ban ∈ db.bans, ban.expiresAt = none
  owned : ∀ ban ∈ db.bans, ∃ userID, ban.userID = some userID ∧ db.HasUserID userID
  apart : ∀ name name' user user', db.users.lookup name = some user →
    db.users.lookup name' = some user' → user.id = user'.id → name = name'
  usersMade : ∀ name user, db.users.lookup name = some user → user.id < db.nextUserID
  past : ∀ userID, .banned userID ∈ log ∨ .revoked userID ∈ log → userID < db.nextUserID
  balance : ∀ now userID, db.HasUserID userID →
    activeBans db now userID + log.count (.revoked userID) = log.count (.banned userID)

section Statements

variable {db : SqlDb} {log : List BanEvent}

theorem hasUserID_iff {id : ℤ} :
    db.HasUserID id ↔ ∃ name user, db.users.lookup name = some user ∧ user.id = id := by
  constructor
  · rintro ⟨name, -, hany⟩
    cases hname : db.users.lookup name with
    | none => simp [hname] at hany
    | some user => exact ⟨name, user, hname, by simpa [hname] using hany⟩
  · rintro ⟨name, user, hname, rfl⟩
    have hmem : name ∈ db.users.keys :=
      Finmap.mem_keys.mpr (Finmap.mem_iff.mpr ⟨user, hname⟩)
    exact ⟨name, hmem, by simp [hname]⟩

theorem balanced_new : Balanced SqlDb.new [] where
  ids := List.nodup_nil
  idsMade ban h := by cases h
  endless ban h := by cases h
  owned ban h := by cases h
  apart name name' user user' h := by simp [SqlDb.new] at h
  usersMade name user h := by simp [SqlDb.new] at h
  past userID h := by simp at h
  balance now userID h := by simp [activeBans, SqlDb.new]

theorem Balanced.lt_of_hasUserID (h : Balanced db log) {id : ℤ} (hid : db.HasUserID id) :
    id < db.nextUserID := by
  obtain ⟨name, user, hname, rfl⟩ := hasUserID_iff.mp hid
  exact h.usersMade name user hname

theorem Balanced.fresh (h : Balanced db log) (now : ℤ) {id : ℤ} (hid : db.nextUserID ≤ id) :
    activeBans db now id = 0 ∧ log.count (.revoked id) = 0 ∧ log.count (.banned id) = 0 := by
  have hnot : ¬ id < db.nextUserID := not_lt.mpr hid
  refine ⟨List.countP_eq_zero.mpr fun ban hban hactive => hnot ?_,
    List.count_eq_zero.mpr fun hin => hnot (h.past id (.inr hin)),
    List.count_eq_zero.mpr fun hin => hnot (h.past id (.inl hin))⟩
  obtain ⟨owner, howner, hexists⟩ := h.owned ban hban
  have hactive : BanRow.Active now id ban := by simpa using hactive
  obtain rfl : owner = id := Option.some.inj (howner.symm.trans hactive.1)
  exact h.lt_of_hasUserID hexists

theorem hasUserID_createUser {name : GoString} (hash : GoString) (level : ℤ)
    (hnew : db.users.lookup name = none) (id : ℤ) : SqlDb.HasUserID { db with
      users := db.users.insert name ⟨db.nextUserID, hash, level⟩
      nextUserID := db.nextUserID + 1 } id ↔ id = db.nextUserID ∨ db.HasUserID id := by
  rw [hasUserID_iff, hasUserID_iff]
  constructor
  · rintro ⟨name', user, hname', rfl⟩
    rw [GoMap.lookup_insert_ite] at hname'
    split_ifs at hname' with heq
    · exact .inl (congrArg User.id (Option.some.inj hname')).symm
    · exact .inr ⟨name', user, hname', rfl⟩
  · rintro (rfl | ⟨name', user, hname', rfl⟩)
    · exact ⟨name, _, by rw [GoMap.lookup_insert_ite, if_pos rfl], rfl⟩
    · have hne : name' ≠ name := by
        rintro rfl
        rw [hnew] at hname'
        cases hname'
      exact ⟨name', user, by rw [GoMap.lookup_insert_ite, if_neg hne, hname'], rfl⟩

theorem Balanced.createUser (h : Balanced db log) {name hash : GoString} {level : ℤ}
    (hnew : db.users.lookup name = none) : Balanced { db with
      users := db.users.insert name ⟨db.nextUserID, hash, level⟩
      nextUserID := db.nextUserID + 1 } log := by
  have hexists := hasUserID_createUser hash level hnew
  exact
    { h with
      owned := fun ban hban => by
        obtain ⟨owner, howner, hold⟩ := h.owned ban hban
        exact ⟨owner, howner, (hexists owner).mpr (.inr hold)⟩
      apart := GoMap.eq_of_lookup_insert (fun x user hx => (h.usersMade x user hx).ne) h.apart
      usersMade := GoMap.forall_lookup_insert (Int.lt_succ _)
        fun x user _ hx => (h.usersMade x user hx).trans (Int.lt_succ _)
      past := fun id hid => (h.past id hid).trans (Int.lt_succ _)
      balance := fun now id hid => by
        rcases (hexists id).mp hid with rfl | hold
        · obtain ⟨hactive, hrevoked, hbanned⟩ := h.fresh now le_rfl
          exact (congrArg₂ (· + ·) hactive hrevoked).trans hbanned.symm
        · exact h.balance now id hold }

theorem Balanced.hasUserID_deleteUser (h : Balanced db log) {name : GoString} {user : User}
    (huser : db.users.lookup name = some user) (id : ℤ) : SqlDb.HasUserID { db with
      users := db.users.erase name
      bans := db.bans.filter fun ban => ban.userID ≠ some user.id } id ↔
        db.HasUserID id ∧ id ≠ user.id := by
  rw [hasUserID_iff, hasUserID_iff]
  constructor
  · rintro ⟨name', user', hname', rfl⟩
    have hne : name' ≠ name := by
      rintro rfl
      rw [GoMap.lookup_erase_ite, if_pos rfl] at hname'
      cases hname'
    have hold := GoMap.lookup_of_erase hname'
    exact ⟨⟨name', user', hold, rfl⟩, fun hid => hne (h.apart _ _ _ _ hold huser hid)⟩
  · rintro ⟨⟨name', user', hname', rfl⟩, hid⟩
    have hne : name' ≠ name := by
      rintro rfl
      exact hid (congrArg User.id (Option.some.inj (hname'.symm.trans huser)))
    exact ⟨name', user', by rw [GoMap.lookup_erase_ite, if_neg hne, hname'], rfl⟩

/-- The bans of a deleted user are gone, those of the others are not. -/
theorem Balanced.deleteUser (h : Balanced db log) {name : GoString} {user : User}
    (huser : db.users.lookup name = some user) : Balanced { db with
      users := db.users.erase name
      bans := db.bans.filter fun ban => ban.userID ≠ some user.id } log := by
  have hexists := h.hasUserID_deleteUser huser
  exact
    { ids := h.ids.sublist (List.filter_sublist.map _)
      idsMade := fun ban hban => h.idsMade ban (List.mem_of_mem_filter hban)
      endless := fun ban hban => h.endless ban (List.mem_of_mem_filter hban)
      owned := fun ban hban => by
        obtain ⟨hmem, hother⟩ := List.mem_filter.mp hban
        obtain ⟨owner, howner, hold⟩ := h.owned ban hmem
        refine ⟨owner, howner, (hexists owner).mpr ⟨hold, ?_⟩⟩
        rintro rfl
        simp [howner] at hother
      apart := fun x y u v hx hy => h.apart x y u v (GoMap.lookup_of_erase hx)
        (GoMap.lookup_of_erase hy)
      usersMade := fun x u hx => h.usersMade x u (GoMap.lookup_of_erase hx)
      past := h.past
      balance := fun now id hid => by
        obtain ⟨hold, hne⟩ := (hexists id).mp hid
        rw [← h.balance now id hold]
        congr 1
        rw [activeBans, activeBans, List.countP_filter]
        refine List.countP_congr fun ban _ => ?_
        have hother : BanRow.Active now id ban → ban.userID ≠ some user.id := fun hactive heq =>
          hne (Option.some.inj (hactive.1.symm.trans heq))
        simpa using hother }

theorem activeBans_append (ban : BanRow) (bans : List BanRow) (now id : ℤ) :
    (bans ++ [ban]).countP (BanRow.Active now id) =
      bans.countP (BanRow.Active now id) + if BanRow.Active now id ban then 1 else 0 := by
  rw [List.countP_append, List.countP_singleton]
  simp

theorem Balanced.past_append (h : Balanced db log) {event : BanEvent} {owner : ℤ}
    (hevent : event = .banned owner ∨ event = .revoked owner) (howner : db.HasUserID owner) {id : ℤ}
    (hid : .banned id ∈ log ++ [event] ∨ .revoked id ∈ log ++ [event]) : id < db.nextUserID := by
  by_cases hold : .banned id ∈ log ∨ .revoked id ∈ log
  · exact h.past id hold
  · obtain rfl : id = owner := by
      rcases hevent with rfl | rfl <;> simpa [not_or.mp hold] using hid
    exact h.lt_of_hasUserID howner

theorem Balanced.balance_createBan (h : Balanced db log) (ban userID now : ℤ) (reason : GoString)
    (t : ℤ) {id : ℤ} (hid : db.HasUserID id) :
    (db.bans ++ [BanRow.mk ban (some userID) reason none none now]).countP (BanRow.Active t id) +
      (log ++ [BanEvent.banned userID]).count (.revoked id) =
        (log ++ [BanEvent.banned userID]).count (.banned id) := by
  have hbalance := h.balance t id hid
  have hactive : BanRow.Active t id ⟨ban, some userID, reason, none, none, now⟩ ↔ userID = id := by
    simp [BanRow.Active]
  rw [activeBans] at hbalance
  rw [activeBans_append, List.count_append, List.count_append]
  by_cases heq : userID = id
  · subst heq
    simp [hactive]
    omega
  · simp [hactive, heq]
    omega

theorem Balanced.createBan (h : Balanced db log) {userID : ℤ} (huser : db.HasUserID userID)
    (now : ℤ) (reason : GoString) : Balanced { db with
      bans := db.bans ++ [⟨db.nextBanID, some userID, reason, none, none, now⟩]
      nextBanID := db.nextBanID + 1 } (log ++ [.banned userID]) where
  ids := by
    rw [List.map_append, List.nodup_append]
    refine ⟨h.ids, List.nodup_singleton _, ?_⟩
    rintro x hx y hy rfl
    obtain ⟨ban, hban, rfl⟩ := List.mem_map.mp hx
    have hlt := h.idsMade ban hban
    rw [List.mem_singleton.mp hy] at hlt
    exact lt_irrefl _ hlt
  idsMade := List.forall_mem_append.mpr
    ⟨fun ban hban => (h.idsMade ban hban).trans (Int.lt_succ _),
      List.forall_mem_singleton.mpr (Int.lt_succ _)⟩
  endless := List.forall_mem_append.mpr ⟨h.endless, List.forall_mem_singleton.mpr rfl⟩
  owned := List.forall_mem_append.mpr
    ⟨h.owned, List.forall_mem_singleton.mpr ⟨userID, rfl, huser⟩⟩
  apart := h.apart
  usersMade := h.usersMade
  past _ hid := h.past_append (.inl rfl) huser hid
  balance t _ hid := h.balance_createBan db.nextBanID userID now reason t hid

/-- The row of a ban, between rows with other ids. -/
theorem Balanced.split (h : Balanced db log) {ban : BanRow} (hban : ban ∈ db.bans) :
    ∃ before after, db.bans = before ++ ban :: after ∧
      (∀ b ∈ before, b.id ≠ ban.id) ∧ ∀ b ∈ after, b.id ≠ ban.id := by
  obtain ⟨before, after, hsplit⟩ := List.append_of_mem hban
  have hids := h.ids
  rw [hsplit, List.map_append, List.map_cons, List.nodup_append, List.nodup_cons] at hids
  refine ⟨before, after, hsplit, fun b hb heq => ?_, fun b hb heq => ?_⟩
  · exact hids.2.2 b.id (List.mem_map_of_mem hb) ban.id List.mem_cons_self heq
  · exact hids.2.1.1 (heq ▸ List.mem_map_of_mem hb)

/-- `UPDATE bans SET revoked_at` on one row. -/
def BanRow.revoke (now banID : ℤ) (ban : BanRow) : BanRow :=
  if ban.id = banID ∧ ban.revokedAt = none then { ban with revokedAt := some now } else ban

theorem map_revoke_of_ne {now banID : ℤ} {bans : List BanRow} (h : ∀ b ∈ bans, b.id ≠ banID) :
    bans.map (BanRow.revoke now banID) = bans := by
  conv_rhs => rw [← List.map_id bans]
  exact List.map_congr_left fun b hb => if_neg fun hrow => h b hb hrow.1

theorem mem_map_revoke {now banID : ℤ} {bans : List BanRow} {b : BanRow}
    (hb : b ∈ bans.map (BanRow.revoke now banID)) :
    ∃ old ∈ bans, b.id = old.id ∧ b.userID = old.userID ∧ b.expiresAt = old.expiresAt := by
  obtain ⟨old, hold, rfl⟩ := List.mem_map.mp hb
  refine ⟨old, hold, ?_⟩
  rw [BanRow.revoke]
  split_ifs <;> exact ⟨rfl, rfl, rfl⟩

theorem filter_id_of_ne {banID : ℤ} {bans : List BanRow} (h : ∀ b ∈ bans, b.id ≠ banID) :
    bans.filter (fun b => b.id = banID) = [] :=
  List.filter_eq_nil_iff.mpr fun b hb => by simpa using h b hb

/-- A revoked ban was counted as active, and is not any more. -/
theorem Balanced.balance_revokeBan (h : Balanced db log) {ban : BanRow} (hban : ban ∈ db.bans)
    (hopen : ban.revokedAt = none) {before after : List BanRow} {now owner : ℤ}
    (hsplit : db.bans = before ++ ban :: after) (howner : ban.userID = some owner)
    (t : ℤ) {id : ℤ} (hid : db.HasUserID id) :
    (before ++ { ban with revokedAt := some now } :: after).countP (BanRow.Active t id) +
      (log ++ [BanEvent.revoked owner]).count (.revoked id) =
        (log ++ [BanEvent.revoked owner]).count (.banned id) := by
  have hbalance := h.balance t id hid
  rw [activeBans, hsplit, List.countP_append, List.countP_cons] at hbalance
  have hgone : ¬ BanRow.Active t id { ban with revokedAt := some now } := fun hactive => by
    cases hactive.2.1
  have hcount : BanRow.Active t id ban ↔ owner = id := by
    simp [BanRow.Active, howner, hopen, h.endless ban hban]
  rw [List.countP_append, List.countP_cons, List.count_append, List.count_append]
  by_cases heq : owner = id
  · simp [hgone, hcount, heq] at hbalance ⊢
    omega
  · simp [hgone, hcount, heq] at hbalance ⊢
    omega

theorem Balanced.revokeBan (h : Balanced db log) {ban : BanRow} (hban : ban ∈ db.bans)
    (hopen : ban.revokedAt = none) (now : ℤ) :
    Balanced { db with bans := db.bans.map (BanRow.revoke now ban.id) }
      (log ++ db.banEvents (.revokeBan now ban.id)) := by
  obtain ⟨before, after, hsplit, hbefore, hafter⟩ := h.split hban
  obtain ⟨owner, howner, hexists⟩ := h.owned ban hban
  have hbans : db.bans.map (BanRow.revoke now ban.id) =
      before ++ { ban with revokedAt := some now } :: after := by
    rw [hsplit, List.map_append, List.map_cons, map_revoke_of_ne hbefore, map_revoke_of_ne hafter,
      BanRow.revoke, if_pos ⟨rfl, hopen⟩]
  have hevents : db.banEvents (.revokeBan now ban.id) = [.revoked owner] := by
    rw [SqlDb.banEvents, hsplit, List.filter_append, List.filter_cons_of_pos (by simp),
      filter_id_of_ne hbefore, filter_id_of_ne hafter]
    simp [howner]
  rw [hevents]
  exact
    { ids := by
        have hids := h.ids
        rw [hsplit] at hids
        rw [hbans]
        simpa using hids
      idsMade := fun b hb => by
        obtain ⟨old, hold, hid, -⟩ := mem_map_revoke hb
        exact hid ▸ h.idsMade old hold
      endless := fun b hb => by
        obtain ⟨old, hold, -, -, hexpires⟩ := mem_map_revoke hb
        exact hexpires.trans (h.endless old hold)
      owned := fun b hb => by
        obtain ⟨old, hold, -, huser, -⟩ := mem_map_revoke hb
        obtain ⟨id, hid, hthere⟩ := h.owned old hold
        exact ⟨id, huser.trans hid, hthere⟩
      apart := h.apart
      usersMade := h.usersMade
      past := fun _ hid => h.past_append (.inr rfl) hexists hid
      balance := by
        intro t id hid
        rw [activeBans, hbans]
        exact h.balance_revokeBan hban hopen hsplit howner t hid }

end Statements

section Runs

variable {db : SqlDb} {log : List BanEvent}

theorem Balanced.step (h : Balanced db log) (op : BanStatement) :
    Balanced (SqlDb.banStep (db, log) op).1 (SqlDb.banStep (db, log) op).2 := by
  cases op with
  | createUser name hash level =>
    rw [SqlDb.banStep]
    simp only [SqlDb.banCall, SqlDb.createUser]
    cases hname : db.users.lookup name with
    | some user => exact h
    | none =>
      simp only [SqlDb.banEvents, List.append_nil]
      exact h.createUser hname
  | deleteUser name =>
    rw [SqlDb.banStep]
    simp only [SqlDb.banCall, SqlDb.deleteUser]
    cases hname : db.users.lookup name with
    | none => exact h
    | some user =>
      simp only [SqlDb.banEvents, List.append_nil]
      exact h.deleteUser hname
  | createBan now userID reason =>
    rw [SqlDb.banStep]
    simp only [SqlDb.banCall, SqlDb.createBan]
    split_ifs with huser
    · exact h.createBan huser now reason
    · exact h
  | revokeBan now banID =>
    rw [SqlDb.banStep]
    simp only [SqlDb.banCall, SqlDb.revokeBan]
    split_ifs with hfound
    · obtain ⟨ban, hban, rfl, hopen⟩ := hfound
      exact h.revokeBan hban hopen now
    · exact h

theorem balanced_run (ops : List BanStatement) :
    Balanced (SqlDb.banRun ops).1 (SqlDb.banRun ops).2 := by
  induction ops using List.reverseRecOn with
  | nil => exact balanced_new
  | append_singleton ops op ih =>
    rw [SqlDb.banRun, List.foldl_append]
    exact ih.step op

/-- Whoever bans and revokes, and in whatever order the statements reach the database: a user who
exists is found banned just if more bans of the user, none of which has an end, have been made than
revoked. -/
theorem banned_iff_more_bans (ops : List BanStatement) (now userID : ℤ)
    (huser : (SqlDb.banRun ops).1.HasUserID userID) :
    (∃ ban, SqlDb.getActiveBanByUserID now userID (SqlDb.banRun ops).1 = .ok ban) ↔
      (SqlDb.banRun ops).2.count (.revoked userID) <
        (SqlDb.banRun ops).2.count (.banned userID) := by
  have hbalance := (balanced_run ops).balance now userID huser
  have hfound : (∃ ban, SqlDb.getActiveBanByUserID now userID (SqlDb.banRun ops).1 = .ok ban) ↔
      0 < activeBans (SqlDb.banRun ops).1 now userID := by
    rw [activeBans, List.countP_pos_iff, SqlDb.getActiveBanByUserID]
    constructor
    · rintro ⟨ban, hban⟩
      by_contra hnone
      have hempty : (SqlDb.banRun ops).1.bans.filter (BanRow.Active now userID) = [] :=
        List.filter_eq_nil_iff.mpr fun b hb hactive => hnone ⟨b, hb, hactive⟩
      simp [hempty, BanRow.newest] at hban
    · rintro ⟨b, hb, hactive⟩
      obtain ⟨found, hok⟩ := SqlDb.getActiveBanByUserID_of_active now hb (of_decide_eq_true hactive)
      exact ⟨some found, hok⟩
  rw [hfound]
  omega

/-- Banned twice, revoked once. -/
def bannedTwice : List BanStatement :=
  [.createUser (lit "bob") [] 20, .createBan 5 1 [], .createBan 6 1 [], .revokeBan 7 1]

theorem banned_iff_more_bans_twice : (SqlDb.banRun bannedTwice).1.HasUserID 1 ∧
    ∃ ban, SqlDb.getActiveBanByUserID 8 1 (SqlDb.banRun bannedTwice).1 = .ok ban := by
  have huser : (SqlDb.banRun bannedTwice).1.HasUserID 1 := by decide +kernel
  exact ⟨huser, (banned_iff_more_bans bannedTwice 8 1 huser).mpr (by decide +kernel)⟩

end Runs

end Musgos.Outbound
