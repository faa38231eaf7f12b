import Musgos.Foundation.GoMap
import Musgos.Domain.Ports
import Musgos.Lingo.Codec

/-!
# The SQL database

The tables of the initial schema and the statements of `sqlDB` on them, as SQLite
and Postgres both run them: a table with a declared key is a map from the key to
the rest of the row, so that the key is unique by construction. Foreign keys are
enforced and cascade. Rows that a `SELECT` returns without an `ORDER BY` come in an
order that is a parameter of the adapter, and so is the clock of the server.
-/
namespace Musgos.Outbound

open Foundation Lingo Domain

/-- A row of `bans`. Bans of an address have no user. -/
structure BanRow where
  id : ℤ
  userID : Option ℤ
  reason : GoString
  expiresAt : Option ℤ
  revokedAt : Option ℤ
  createdAt : ℤ
  deriving DecidableEq

namespace BanRow

/-- The condition of `getActiveBan`: unrevoked, and without an end or with one to come. -/
def Active (now userID : ℤ) (ban : BanRow) : Prop :=
  ban.userID = some userID ∧ ban.revokedAt = none ∧ ban.expiresAt.all (now < ·)

instance decidableActive (now userID : ℤ) : DecidablePred (Active now userID) := fun _ =>
  inferInstanceAs (Decidable (_ ∧ _ ∧ _))

/-- `ORDER BY created_at DESC LIMIT 1`; of two created at once, the first in the table. -/
def newest : List BanRow → Option BanRow
  | [] => none
  | ban :: rest =>
    match newest rest with
    | none => some ban
    | some other => some (if ban.createdAt < other.createdAt then other else ban)

theorem newest_isSome {bans : List BanRow} (h : bans ≠ []) : (newest bans).isSome := by
  cases bans with
  | nil => exact absurd rfl h
  | cons ban rest =>
    rw [newest]
    cases newest rest <;> rfl

end BanRow

/-- A `value_json` column; `none` is a text that is no document of `UnmarshalLValue`. -/
abbrev ValueJson := Option StoredLValue

/-- The five tables, by their keys. -/
structure SqlDb where
  /-- `applications`, the id by the name. -/
  applications : GoMap GoString ℤ
  applicationAttributes : GoMap (ℤ × GoString) ValueJson
  /-- `player_attributes` by `(app_id, user_id, attr_name)`. -/
  playerAttributes : GoMap (ℤ × GoString × GoString) ValueJson
  /-- `users` by the name. -/
  users : GoMap GoString User
  bans : List BanRow
  /-- The next id of each of the three tables with a generated key. -/
  nextAppID : ℤ
  nextUserID : ℤ
  nextBanID : ℤ

namespace SqlDb

def new : SqlDb := ⟨∅, ∅, ∅, ∅, [], 1, 1, 1⟩

/-- `DELETE FROM t WHERE …`, with the condition on the key. -/
def deleteWhere {K V : Type} [DecidableEq K] (t : GoMap K V) (p : K → Prop) [DecidablePred p] :
    GoMap K V :=
  GoMap.alterAll (fun _ => none) t (t.keys.filter p)

section Applications

def createApplication (appName : GoString) : Write SqlDb := fun db =>
  if (db.applications.lookup appName).isSome then (.error .other, db)
  else
    (.ok (), { db with
      applications := db.applications.insert appName db.nextAppID
      nextAppID := db.nextAppID + 1 })

/-- The attributes of the application go with it. -/
def deleteApplication (appName : GoString) : Write SqlDb := fun db =>
  match db.applications.lookup appName with
  | none => (.error .other, db)
  | some appID =>
    (.ok (), { db with
      applications := db.applications.erase appName
      applicationAttributes := deleteWhere db.applicationAttributes fun k => k.1 = appID
      playerAttributes := deleteWhere db.playerAttributes fun k => k.1 = appID })

def getAppID (appName : GoString) : Read SqlDb ℤ := fun db =>
  match db.applications.lookup appName with
  | none => .error .other
  | some appID => .ok appID

end Applications

section Attributes

/-- `MarshalLValue` for a column. A value with missing components, on which it panics, counts as
an error here; callers that may have one look at that before. -/
def toJson (value : LValue) : Except PortError ValueJson :=
  match value.marshalLValue with
  | some (.ok doc) => .ok (some doc)
  | _ => .error .other

/-- `scanAttribute`: no row means void. -/
def scanAttribute (row : Option ValueJson) : Except PortError LValue :=
  match row with
  | none => .ok .void
  | some none => .error .other
  | some (some doc) =>
    match LValue.unmarshalLValue doc with
    | some (.ok value) => .ok value
    | _ => .error .other

variable (ord : RangeOrder GoString)

def setApplicationAttribute (appName attrName : GoString) (value : LValue) :
    Write SqlDb := fun db =>
  match getAppID appName db, toJson value with
  | .ok appID, .ok json =>
    (.ok (), { db with
      applicationAttributes := db.applicationAttributes.insert (appID, attrName) json })
  | .error e, _ => (.error e, db)
  | _, .error e => (.error e, db)

def getApplicationAttribute (appName attrName : GoString) : Read SqlDb LValue := fun db =>
  match getAppID appName db with
  | .error e => .error e
  | .ok appID => scanAttribute (db.applicationAttributes.lookup (appID, attrName))

def getApplicationAttributeNames (appName : GoString) : Read SqlDb (List GoString) := fun db =>
  match getAppID appName db with
  | .error e => .error e
  | .ok appID =>
    .ok (ord.keys ((db.applicationAttributes.keys.filter fun k => k.1 = appID).image Prod.snd))

def deleteApplicationAttribute (appName attrName : GoString) : Write SqlDb := fun db =>
  match getAppID appName db with
  | .error e => (.error e, db)
  | .ok appID =>
    (.ok (), { db with
      applicationAttributes := db.applicationAttributes.erase (appID, attrName) })

def setPlayerAttribute (appName userID attrName : GoString) (value : LValue) : Write SqlDb :=
  fun db =>
    match getAppID appName db, toJson value with
    | .ok appID, .ok json =>
      (.ok (), { db with
        playerAttributes := db.playerAttributes.insert (appID, userID, attrName) json })
    | .error e, _ => (.error e, db)
    | _, .error e => (.error e, db)

def getPlayerAttribute (appName userID attrName : GoString) : Read SqlDb LValue := fun db =>
  match getAppID appName db with
  | .error e => .error e
  | .ok appID => scanAttribute (db.playerAttributes.lookup (appID, userID, attrName))

/-- The `attr_name` column of the rows of one user in one application. -/
def playerAttributeNames (db : SqlDb) (appID : ℤ) (userID : GoString) : Finset GoString :=
  (db.playerAttributes.keys.filter fun k => k.1 = appID ∧ k.2.1 = userID).image fun k => k.2.2

def getPlayerAttributeNames (appName userID : GoString) : Read SqlDb (List GoString) := fun db =>
  match getAppID appName db with
  | .error e => .error e
  | .ok appID => .ok (ord.keys (db.playerAttributeNames appID userID))

def deletePlayerAttribute (appName userID attrName : GoString) : Write SqlDb := fun db =>
  match getAppID appName db with
  | .error e => (.error e, db)
  | .ok appID =>
    (.ok (), { db with playerAttributes := db.playerAttributes.erase (appID, userID, attrName) })

end Attributes

section Users

def createUser (username passwordHash : GoString) (userLevel : ℤ) : Write SqlDb := fun db =>
  if (db.users.lookup username).isSome then (.error .other, db)
  else
    (.ok (), { db with
      users := db.users.insert username ⟨db.nextUserID, passwordHash, userLevel⟩
      nextUserID := db.nextUserID + 1 })

def getUser (username : GoString) : Read SqlDb User := fun db =>
  match db.users.lookup username with
  | none => .error .userNotFound
  | some user => .ok user

/-- The bans of the user go with it. -/
def deleteUser (username : GoString) : Write SqlDb := fun db =>
  match db.users.lookup username with
  | none => (.error .userNotFound, db)
  | some user =>
    (.ok (), { db with
      users := db.users.erase username
      bans := db.bans.filter fun ban => ban.userID ≠ some user.id })

end Users

section Bans

variable (now : ℤ)

/-- The foreign key of `bans`: some user has the id. -/
def HasUserID (db : SqlDb) (id : ℤ) : Prop :=
  ∃ name ∈ db.users.keys, (db.users.lookup name).any (·.id = id)

instance decidableHasUserID (db : SqlDb) (id : ℤ) : Decidable (db.HasUserID id) :=
  inferInstanceAs (Decidable (∃ name ∈ db.users.keys, _))

/-- `CreateBan(&userID, nil, reason, nil)`: a ban of a user and of no address, without an end, as
all callers make it. -/
def createBan (userID : ℤ) (reason : GoString) : Write SqlDb := fun db =>
  if db.HasUserID userID then
    (.ok (), { db with
      bans := db.bans ++ [⟨db.nextBanID, some userID, reason, none, none, now⟩]
      nextBanID := db.nextBanID + 1 })
  else (.error .other, db)

def getActiveBanByUserID (userID : ℤ) : Read SqlDb (Option Ban) := fun db =>
  match BanRow.newest (db.bans.filter (BanRow.Active now userID)) with
  | none => .error .banNotFound
  | some ban => .ok (some ⟨ban.id⟩)

def revokeBan (banID : ℤ) : Write SqlDb := fun db =>
  if ∃ ban ∈ db.bans, ban.id = banID ∧ ban.revokedAt = none then
    (.ok (), { db with
      bans := db.bans.map fun ban =>
        if ban.id = banID ∧ ban.revokedAt = none then { ban with revokedAt := some now } else ban })
  else (.error .banNotFound, db)

/-- A user with an active ban is found banned. -/
theorem getActiveBanByUserID_of_active {db : SqlDb} {userID : ℤ} {ban : BanRow}
    (hban : ban ∈ db.bans) (hactive : BanRow.Active now userID ban) :
    ∃ found, getActiveBanByUserID now userID db = .ok (some found) := by
  have hfound : db.bans.filter (BanRow.Active now userID) ≠ [] :=
    List.ne_nil_of_mem (List.mem_filter.mpr ⟨hban, decide_eq_true hactive⟩)
  obtain ⟨newest, hnewest⟩ := Option.isSome_iff_exists.mp (BanRow.newest_isSome hfound)
  exact ⟨⟨newest.id⟩, by rw [getActiveBanByUserID, hnewest]⟩

end Bans

/-- The database as a port. -/
def port (ord : RangeOrder GoString) (now : ℤ) : DBAdapter SqlDb where
  createApplication := createApplication
  deleteApplication := deleteApplication
  setApplicationAttribute := setApplicationAttribute
  getApplicationAttribute := getApplicationAttribute
  getApplicationAttributeNames := getApplicationAttributeNames ord
  deleteApplicationAttribute := deleteApplicationAttribute
  setPlayerAttribute := setPlayerAttribute
  getPlayerAttribute := getPlayerAttribute
  getPlayerAttributeNames := getPlayerAttributeNames ord
  deletePlayerAttribute := deletePlayerAttribute
  createUser := createUser
  getUser := getUser
  deleteUser := deleteUser
  createBan := createBan now
  getActiveBanByUserID := getActiveBanByUserID now
  revokeBan := revokeBan now

end SqlDb

end Musgos.Outbound
