import Musgos.Outbound.SqlDb

/-!
# The attributes of applications and players

In the database an application is a row with a generated id, and its attributes are rows of two
other tables with that id, which go when it goes. What the tables are for knows no ids: a name has
its attributes, and those of its players, or it is not there. The answers are the same, because an
id is never given twice and a row has the id of an application that was made before it. Which names
a database takes as text is a parameter: SQLite takes all, Postgres those that are UTF-8 and hold no
zero byte. A value with missing components makes its encoding panic.
-/
namespace Musgos.Outbound

open Foundation Lingo Domain

/-- The statements on the three tables. -/
inductive AttributeOp where
  | createApplication (appName : GoString)
  | deleteApplication (appName : GoString)
  | setApplicationAttribute (appName attrName : GoString) (value : LValue)
  | getApplicationAttribute (appName attrName : GoString)
  | getApplicationAttributeNames (appName : GoString)
  | deleteApplicationAttribute (appName attrName : GoString)
  | setPlayerAttribute (appName userID attrName : GoString) (value : LValue)
  | getPlayerAttribute (appName userID attrName : GoString)
  | getPlayerAttributeNames (appName userID : GoString)
  | deletePlayerAttribute (appName userID attrName : GoString)

/-- What a statement returns, if it does. -/
inductive AttributeAnswer where
  | done (result : Except PortError Unit)
  | value (result : Except PortError LValue)
  | names (result : Except PortError (List GoString))
  | panicked

namespace AttributeOp

/-- The names that the database is given as text. -/
def names : AttributeOp → List GoString
  | .createApplication app | .deleteApplication app | .getApplicationAttributeNames app => [app]
  | .setApplicationAttribute app attr _ | .getApplicationAttribute app attr
  | .deleteApplicationAttribute app attr => [app, attr]
  | .setPlayerAttribute app user attr _ | .getPlayerAttribute app user attr
  | .deletePlayerAttribute app user attr => [app, user, attr]
  | .getPlayerAttributeNames app user => [app, user]

/-- The answer if the database does not take one of them. -/
def refused : AttributeOp → AttributeAnswer
  | .getApplicationAttribute _ _ | .getPlayerAttribute _ _ _ => .value (.error .other)
  | .getApplicationAttributeNames _ | .getPlayerAttributeNames _ _ => .names (.error .other)
  | _ => .done (.error .other)

/-- The encoding of the value panics, which happens once the application is found and before
the other names are looked at. -/
def panics (found : GoString → Bool) : AttributeOp → Bool
  | .setApplicationAttribute app _ v | .setPlayerAttribute app _ _ v =>
    found app && v.marshalLValue.isNone
  | _ => false

end AttributeOp

namespace SqlDb

variable (ord : RangeOrder GoString) (takes : GoString → Bool)

def execute (db : SqlDb) : AttributeOp → AttributeAnswer × SqlDb
  | .createApplication app => (createApplication app db).map .done id
  | .deleteApplication app => (deleteApplication app db).map .done id
  | .setApplicationAttribute app attr v => (setApplicationAttribute app attr v db).map .done id
  | .getApplicationAttribute app attr => (.value (getApplicationAttribute app attr db), db)
  | .getApplicationAttributeNames app => (.names (getApplicationAttributeNames ord app db), db)
  | .deleteApplicationAttribute app attr => (deleteApplicationAttribute app attr db).map .done id
  | .setPlayerAttribute app user attr v => (setPlayerAttribute app user attr v db).map .done id
  | .getPlayerAttribute app user attr => (.value (getPlayerAttribute app user attr db), db)
  | .getPlayerAttributeNames app user => (.names (getPlayerAttributeNames ord app user db), db)
  | .deletePlayerAttribute app user attr => (deletePlayerAttribute app user attr db).map .done id

/-- A statement as a database runs it that takes these names. -/
def call (db : SqlDb) (op : AttributeOp) : AttributeAnswer × SqlDb :=
  if op.panics fun app => takes app && (db.applications.lookup app).isSome then (.panicked, db)
  else if op.names.all takes then db.execute ord op
  else (op.refused, db)

def answers (db : SqlDb) : List AttributeOp → List AttributeAnswer
  | [] => []
  | op :: ops => (db.call ord takes op).1 :: answers (db.call ord takes op).2 ops

end SqlDb

/-- The attributes of one application. -/
structure AppAttributes where
  attributes : GoMap GoString ValueJson
  /-- By player and name. -/
  players : GoMap (GoString × GoString) ValueJson

/-- The applications by their names. -/
abbrev AttributeStore := GoMap GoString AppAttributes

namespace AttributeStore

variable (ord : RangeOrder GoString) (takes : GoString → Bool) (st : AttributeStore)

/-- An answer about an application, which is an error without one. -/
def ask {α : Type} (app : GoString) (answer : AppAttributes → Except PortError α) :
    Except PortError α :=
  match st.lookup app with
  | none => .error .other
  | some a => answer a

/-- A change of an application. -/
def change (app : GoString) (f : AppAttributes → AppAttributes) :
    AttributeAnswer × AttributeStore :=
  match st.lookup app with
  | none => (.done (.error .other), st)
  | some a => (.done (.ok ()), st.insert app (f a))

/-- A change by a value, which has to have a JSON form. -/
def changeBy (app : GoString) (value : LValue) (f : ValueJson → AppAttributes → AppAttributes) :
    AttributeAnswer × AttributeStore :=
  match SqlDb.toJson value with
  | .error e => (.done (.error e), st)
  | .ok json => st.change app (f json)

def execute : AttributeOp → AttributeAnswer × AttributeStore
  | .createApplication app =>
    if (st.lookup app).isSome then (.done (.error .other), st)
    else (.done (.ok ()), st.insert app ⟨∅, ∅⟩)
  | .deleteApplication app =>
    if (st.lookup app).isSome then (.done (.ok ()), st.erase app)
    else (.done (.error .other), st)
  | .setApplicationAttribute app attr v =>
    st.changeBy app v fun json a => { a with attributes := a.attributes.insert attr json }
  | .getApplicationAttribute app attr =>
    (.value (st.ask app fun a => SqlDb.scanAttribute (a.attributes.lookup attr)), st)
  | .getApplicationAttributeNames app =>
    (.names (st.ask app fun a => .ok (ord.keys a.attributes.keys)), st)
  | .deleteApplicationAttribute app attr =>
    st.change app fun a => { a with attributes := a.attributes.erase attr }
  | .setPlayerAttribute app user attr v =>
    st.changeBy app v fun json a => { a with players := a.players.insert (user, attr) json }
  | .getPlayerAttribute app user attr =>
    (.value (st.ask app fun a => SqlDb.scanAttribute (a.players.lookup (user, attr))), st)
  | .getPlayerAttributeNames app user =>
    (.names (st.ask app fun a =>
      .ok (ord.keys ((a.players.keys.filter fun k => k.1 = user).image Prod.snd))), st)
  | .deletePlayerAttribute app user attr =>
    st.change app fun a => { a with players := a.players.erase (user, attr) }

/-- A value that cannot be encoded is not stored, and names that are not taken change nothing. -/
def call (op : AttributeOp) : AttributeAnswer × AttributeStore :=
  if op.panics fun app => takes app && (st.lookup app).isSome then (.panicked, st)
  else if op.names.all takes then st.execute ord op
  else (op.refused, st)

def answers (st : AttributeStore) : List AttributeOp → List AttributeAnswer
  | [] => []
  | op :: ops => (st.call ord takes op).1 :: answers (st.call ord takes op).2 ops

end AttributeStore

section Refinement

/-- The rows with the id are the attributes. -/
structure Rows (db : SqlDb) (id : ℤ) (a : AppAttributes) : Prop where
  attributes : ∀ attr, db.applicationAttributes.lookup (id, attr) = a.attributes.lookup attr
  players : ∀ user attr, db.playerAttributes.lookup (id, user, attr) = a.players.lookup (user, attr)

/-- The tables hold the store. -/
structure Tabulates (db : SqlDb) (st : AttributeStore) : Prop where
  apps : ∀ app, (db.applications.lookup app = none ∧ st.lookup app = none) ∨
    ∃ id a, db.applications.lookup app = some id ∧ st.lookup app = some a ∧ Rows db id a
  apart : ∀ app app' id, db.applications.lookup app = some id →
    db.applications.lookup app' = some id → app = app'
  made : ∀ app id, db.applications.lookup app = some id → id < db.nextAppID
  attributes : ∀ k v, db.applicationAttributes.lookup k = some v → k.1 < db.nextAppID
  players : ∀ k v, db.playerAttributes.lookup k = some v → k.1 < db.nextAppID

variable {db db' : SqlDb} {st : AttributeStore} {app : GoString} {id : ℤ} {a a' : AppAttributes}

theorem Rows.names (h : Rows db id a) :
    (db.applicationAttributes.keys.filter fun k => k.1 = id).image Prod.snd =
      a.attributes.keys := by
  ext attr
  rw [Finmap.mem_keys, ← Finmap.lookup_isSome, ← h.attributes, Finmap.lookup_isSome]
  simp [Finmap.mem_keys]

theorem Rows.playerNames (h : Rows db id a) (user : GoString) :
    db.playerAttributeNames id user =
      (a.players.keys.filter fun k => k.1 = user).image Prod.snd := by
  ext attr
  have hrow : (id, user, attr) ∈ db.playerAttributes ↔ (user, attr) ∈ a.players := by
    rw [← Finmap.lookup_isSome, h.players, Finmap.lookup_isSome]
  simp [SqlDb.playerAttributeNames, Finmap.mem_keys, ← hrow]

theorem Tabulates.update (h : Tabulates db st) (happ : db.applications.lookup app = some id)
    (hsame : db'.applications = db.applications ∧ db'.nextAppID = db.nextAppID)
    (hrows : Rows db' id a')
    (hattributes : ∀ k, k.1 ≠ id →
      db'.applicationAttributes.lookup k = db.applicationAttributes.lookup k)
    (hplayers : ∀ k, k.1 ≠ id → db'.playerAttributes.lookup k = db.playerAttributes.lookup k) :
    Tabulates db' (st.insert app a') := by
  have hlt := h.made app id happ
  constructor
  · intro x
    rw [hsame.1, GoMap.lookup_insert_ite]
    by_cases hx : x = app
    · exact .inr ⟨id, a', hx ▸ happ, if_pos hx, hrows⟩
    · rw [if_neg hx]
      rcases h.apps x with hnone | ⟨id', b, hid', hb, hrows'⟩
      · exact .inl hnone
      · have hne : id' ≠ id := fun heq => hx (h.apart x app id (heq ▸ hid') happ)
        exact .inr ⟨id', b, hid', hb,
          fun attr => (hattributes _ hne).trans (hrows'.attributes attr),
          fun user attr => (hplayers _ hne).trans (hrows'.players user attr)⟩
  · rw [hsame.1]
    exact h.apart
  · rw [hsame.1, hsame.2]
    exact h.made
  · intro k v hk
    rw [hsame.2]
    by_cases hid : k.1 = id
    · rwa [hid]
    · exact h.attributes k v (hattributes k hid ▸ hk)
  · intro k v hk
    rw [hsame.2]
    by_cases hid : k.1 = id
    · rwa [hid]
    · exact h.players k v (hplayers k hid ▸ hk)

theorem getAppID_of_none (h : db.applications.lookup app = none) :
    SqlDb.getAppID app db = .error .other := by
  rw [SqlDb.getAppID, h]

theorem getAppID_of_some (h : db.applications.lookup app = some id) :
    SqlDb.getAppID app db = .ok id := by
  rw [SqlDb.getAppID, h]

theorem toJson_error {v : LValue} {e : PortError} (h : SqlDb.toJson v = .error e) : e = .other := by
  rw [SqlDb.toJson] at h
  split at h
  · cases h
  · exact (Except.error.inj h).symm

/-- The new id is not that of any row. -/
theorem Tabulates.createApplication (h : Tabulates db st) (app : GoString) :
    Tabulates { db with
      applications := db.applications.insert app db.nextAppID
      nextAppID := db.nextAppID + 1 } (st.insert app ⟨∅, ∅⟩) := by
  constructor
  · intro x
    simp only [GoMap.lookup_insert_ite]
    by_cases hx : x = app
    · rw [if_pos hx, if_pos hx]
      refine .inr ⟨_, _, rfl, rfl, fun attr => ?_, fun user attr => ?_⟩
      · rw [Finmap.lookup_empty, Option.eq_none_iff_forall_ne_some]
        intro v hv
        exact lt_irrefl _ (h.attributes _ v hv)
      · rw [Finmap.lookup_empty, Option.eq_none_iff_forall_ne_some]
        intro v hv
        exact lt_irrefl _ (h.players _ v hv)
    · rw [if_neg hx, if_neg hx]
      rcases h.apps x with hx' | ⟨id, a, hid, ha, hrows⟩
      · exact .inl hx'
      · exact .inr ⟨id, a, hid, ha, hrows.attributes, hrows.players⟩
  · intro x y id hx hy
    exact GoMap.eq_of_lookup_insert (f := fun id => id) (fun x id hx => (h.made x id hx).ne)
      (fun x y id id' hx hy (heq : id = id') => h.apart x y id hx (heq ▸ hy)) x y id id hx hy rfl
  · exact GoMap.forall_lookup_insert (Int.lt_succ _)
      fun x id _ hx => (h.made x id hx).trans (Int.lt_succ _)
  · exact fun k v hk => (h.attributes k v hk).trans (Int.lt_succ _)
  · exact fun k v hk => (h.players k v hk).trans (Int.lt_succ _)

theorem lookup_deleteWhere {K V : Type} [DecidableEq K] (t : GoMap K V) (p : K → Prop)
    [DecidablePred p] (k : K) :
    (SqlDb.deleteWhere t p).lookup k = if p k then none else t.lookup k := by
  rw [SqlDb.deleteWhere, GoMap.lookup_alterAll]
  simp only [Finset.mem_filter, Finmap.mem_keys]
  by_cases hp : p k
  · by_cases hk : k ∈ t
    · simp [hp, hk]
    · simp [hp, hk, Finmap.lookup_eq_none.mpr hk]
  · simp [hp]

theorem Tabulates.deleteApplication (h : Tabulates db st)
    (happ : db.applications.lookup app = some id) :
    Tabulates { db with
      applications := db.applications.erase app
      applicationAttributes := SqlDb.deleteWhere db.applicationAttributes fun k => k.1 = id
      playerAttributes := SqlDb.deleteWhere db.playerAttributes fun k => k.1 = id }
      (st.erase app) := by
  constructor
  · intro x
    simp only [GoMap.lookup_erase_ite]
    by_cases hx : x = app
    · exact .inl ⟨if_pos hx, if_pos hx⟩
    · rw [if_neg hx, if_neg hx]
      rcases h.apps x with hx' | ⟨id', a, hid, ha, hrows⟩
      · exact .inl hx'
      · have hne : id' ≠ id := fun heq => hx (h.apart x app id (heq ▸ hid) happ)
        refine .inr ⟨id', a, hid, ha, fun attr => ?_, fun user attr => ?_⟩
        · rw [lookup_deleteWhere, if_neg hne, hrows.attributes]
        · rw [lookup_deleteWhere, if_neg hne, hrows.players]
  · exact fun x y i hx hy => h.apart x y i (GoMap.lookup_of_erase hx) (GoMap.lookup_of_erase hy)
  · exact fun x i hx => h.made x i (GoMap.lookup_of_erase hx)
  · intro k v hk
    rw [lookup_deleteWhere] at hk
    split_ifs at hk
    exact h.attributes k v hk
  · intro k v hk
    rw [lookup_deleteWhere] at hk
    split_ifs at hk
    exact h.players k v hk

/-- The same answer, and the tables hold the store afterwards. -/
def Agrees (r : AttributeAnswer × SqlDb) (r' : AttributeAnswer × AttributeStore) : Prop :=
  r.1 = r'.1 ∧ Tabulates r.2 r'.2

section Statements

variable (ord : RangeOrder GoString)

/-- A value without a JSON form changes nothing, and neither does a missing application. -/
theorem Tabulates.agrees_change (h : Tabulates db st) {op : AttributeOp} (app : GoString)
    (f : AppAttributes → AppAttributes) (hst : st.execute ord op = st.change app f)
    (hmissing : SqlDb.getAppID app db = .error .other →
      db.execute ord op = (.done (.error .other), db))
    (hthere : ∀ id a, db.applications.lookup app = some id → Rows db id a →
      (db.execute ord op).1 = .done (.ok ()) ∧
        Tabulates (db.execute ord op).2 (st.insert app (f a))) :
    Agrees (db.execute ord op) (st.execute ord op) := by
  rw [hst, AttributeStore.change]
  rcases h.apps app with ⟨hdb, hnone⟩ | ⟨id, a, hdb, hsome, hrows⟩
  · rw [hmissing (getAppID_of_none hdb), hnone]
    exact ⟨rfl, h⟩
  · rw [hsome]
    exact hthere id a hdb hrows

theorem Tabulates.agrees_of_error (h : Tabulates db st) {op : AttributeOp}
    (hdb : db.execute ord op = (.done (.error .other), db))
    (hst : st.execute ord op = (.done (.error .other), st)) :
    Agrees (db.execute ord op) (st.execute ord op) := by
  rw [hdb, hst]
  exact ⟨rfl, h⟩

theorem Tabulates.setApplicationAttribute (h : Tabulates db st) (app attr : GoString) (v : LValue) :
    Agrees (db.execute ord (.setApplicationAttribute app attr v))
      (st.execute ord (.setApplicationAttribute app attr v)) := by
  cases hjson : SqlDb.toJson v with
  | error e =>
    obtain rfl := toJson_error hjson
    apply h.agrees_of_error
    · rcases h.apps app with ⟨hdb, -⟩ | ⟨id, a, hdb, -, -⟩
      · simp [SqlDb.execute, SqlDb.setApplicationAttribute, getAppID_of_none hdb]
      · simp [SqlDb.execute, SqlDb.setApplicationAttribute, getAppID_of_some hdb, hjson]
    · simp [AttributeStore.execute, AttributeStore.changeBy, hjson]
  | ok json =>
    apply h.agrees_change ord app fun a => { a with attributes := a.attributes.insert attr json }
    · simp [AttributeStore.execute, AttributeStore.changeBy, hjson]
    · intro hid
      simp [SqlDb.execute, SqlDb.setApplicationAttribute, hid]
    · intro id a hid hrows
      simp only [SqlDb.execute, SqlDb.setApplicationAttribute, getAppID_of_some hid, hjson]
      refine ⟨rfl, h.update hid ⟨rfl, rfl⟩ ⟨fun x => ?_, hrows.players⟩ ?_ fun _ _ => rfl⟩
      · simp [hrows.attributes]
      · intro k hk
        have hne : k ≠ (id, attr) := fun heq => hk (heq ▸ rfl)
        simp [hne]

theorem Tabulates.deleteApplicationAttribute (h : Tabulates db st) (app attr : GoString) :
    Agrees (db.execute ord (.deleteApplicationAttribute app attr))
      (st.execute ord (.deleteApplicationAttribute app attr)) := by
  apply h.agrees_change ord app fun a => { a with attributes := a.attributes.erase attr }
  · rfl
  · intro hid
    simp [SqlDb.execute, SqlDb.deleteApplicationAttribute, hid]
  · intro id a hid hrows
    simp only [SqlDb.execute, SqlDb.deleteApplicationAttribute, getAppID_of_some hid]
    refine ⟨rfl, h.update hid ⟨rfl, rfl⟩ ⟨fun x => ?_, hrows.players⟩ ?_ fun _ _ => rfl⟩
    · simp [hrows.attributes]
    · intro k hk
      have hne : k ≠ (id, attr) := fun heq => hk (heq ▸ rfl)
      simp [hne]

theorem Tabulates.setPlayerAttribute (h : Tabulates db st) (app user attr : GoString)
    (v : LValue) : Agrees (db.execute ord (.setPlayerAttribute app user attr v))
      (st.execute ord (.setPlayerAttribute app user attr v)) := by
  cases hjson : SqlDb.toJson v with
  | error e =>
    obtain rfl := toJson_error hjson
    apply h.agrees_of_error
    · rcases h.apps app with ⟨hdb, -⟩ | ⟨id, a, hdb, -, -⟩
      · simp [SqlDb.execute, SqlDb.setPlayerAttribute, getAppID_of_none hdb]
      · simp [SqlDb.execute, SqlDb.setPlayerAttribute, getAppID_of_some hdb, hjson]
    · simp [AttributeStore.execute, AttributeStore.changeBy, hjson]
  | ok json =>
    apply h.agrees_change ord app fun a => { a with players := a.players.insert (user, attr) json }
    · simp [AttributeStore.execute, AttributeStore.changeBy, hjson]
    · intro hid
      simp [SqlDb.execute, SqlDb.setPlayerAttribute, hid]
    · intro id a hid hrows
      simp only [SqlDb.execute, SqlDb.setPlayerAttribute, getAppID_of_some hid, hjson]
      refine ⟨rfl, h.update hid ⟨rfl, rfl⟩ ⟨hrows.attributes, fun x y => ?_⟩ (fun _ _ => rfl) ?_⟩
      · simp [hrows.players]
      · intro k hk
        have hne : k ≠ (id, user, attr) := fun heq => hk (heq ▸ rfl)
        simp [hne]

theorem Tabulates.deletePlayerAttribute (h : Tabulates db st) (app user attr : GoString) :
    Agrees (db.execute ord (.deletePlayerAttribute app user attr))
      (st.execute ord (.deletePlayerAttribute app user attr)) := by
  apply h.agrees_change ord app fun a => { a with players := a.players.erase (user, attr) }
  · rfl
  · intro hid
    simp [SqlDb.execute, SqlDb.deletePlayerAttribute, hid]
  · intro id a hid hrows
    simp only [SqlDb.execute, SqlDb.deletePlayerAttribute, getAppID_of_some hid]
    refine ⟨rfl, h.update hid ⟨rfl, rfl⟩ ⟨hrows.attributes, fun x y => ?_⟩ (fun _ _ => rfl) ?_⟩
    · simp [hrows.players]
    · intro k hk
      have hne : k ≠ (id, user, attr) := fun heq => hk (heq ▸ rfl)
      simp [hne]

/-- A statement on the tables answers as the store does, and leaves them holding it. -/
theorem Tabulates.execute (h : Tabulates db st) (op : AttributeOp) :
    Agrees (db.execute ord op) (st.execute ord op) := by
  cases op with
  | createApplication app =>
    rcases h.apps app with ⟨hdb, hst⟩ | ⟨id, a, hdb, hst, -⟩
    · simp only [SqlDb.execute, SqlDb.createApplication, AttributeStore.execute, hdb, hst]
      exact ⟨rfl, h.createApplication app⟩
    · simp only [SqlDb.execute, SqlDb.createApplication, AttributeStore.execute, hdb, hst]
      exact ⟨rfl, h⟩
  | deleteApplication app =>
    rcases h.apps app with ⟨hdb, hst⟩ | ⟨id, a, hdb, hst, -⟩
    · simp only [SqlDb.execute, SqlDb.deleteApplication, AttributeStore.execute, hdb, hst]
      exact ⟨rfl, h⟩
    · simp only [SqlDb.execute, SqlDb.deleteApplication, AttributeStore.execute, hdb, hst]
      exact ⟨rfl, h.deleteApplication hdb⟩
  | setApplicationAttribute app attr v => exact h.setApplicationAttribute ord app attr v
  | setPlayerAttribute app user attr v => exact h.setPlayerAttribute ord app user attr v
  | deleteApplicationAttribute app attr => exact h.deleteApplicationAttribute ord app attr
  | deletePlayerAttribute app user attr => exact h.deletePlayerAttribute ord app user attr
  | getApplicationAttribute app attr =>
    rcases h.apps app with ⟨hdb, hst⟩ | ⟨id, a, hdb, hst, hrows⟩
    · simp [Agrees, SqlDb.execute, SqlDb.getApplicationAttribute, AttributeStore.execute,
        AttributeStore.ask, getAppID_of_none hdb, hst, h]
    · simp [Agrees, SqlDb.execute, SqlDb.getApplicationAttribute, AttributeStore.execute,
        AttributeStore.ask, getAppID_of_some hdb, hst, hrows.attributes, h]
  | getPlayerAttribute app user attr =>
    rcases h.apps app with ⟨hdb, hst⟩ | ⟨id, a, hdb, hst, hrows⟩
    · simp [Agrees, SqlDb.execute, SqlDb.getPlayerAttribute, AttributeStore.execute,
        AttributeStore.ask, getAppID_of_none hdb, hst, h]
    · simp [Agrees, SqlDb.execute, SqlDb.getPlayerAttribute, AttributeStore.execute,
        AttributeStore.ask, getAppID_of_some hdb, hst, hrows.players, h]
  | getApplicationAttributeNames app =>
    rcases h.apps app with ⟨hdb, hst⟩ | ⟨id, a, hdb, hst, hrows⟩
    · simp [Agrees, SqlDb.execute, SqlDb.getApplicationAttributeNames, AttributeStore.execute,
        AttributeStore.ask, getAppID_of_none hdb, hst, h]
    · simp [Agrees, SqlDb.execute, SqlDb.getApplicationAttributeNames, AttributeStore.execute,
        AttributeStore.ask, getAppID_of_some hdb, hst, hrows.names, h]
  | getPlayerAttributeNames app user =>
    rcases h.apps app with ⟨hdb, hst⟩ | ⟨id, a, hdb, hst, hrows⟩
    · simp [Agrees, SqlDb.execute, SqlDb.getPlayerAttributeNames, AttributeStore.execute,
        AttributeStore.ask, getAppID_of_none hdb, hst, h]
    · simp [Agrees, SqlDb.execute, SqlDb.getPlayerAttributeNames, AttributeStore.execute,
        AttributeStore.ask, getAppID_of_some hdb, hst, hrows.playerNames, h]

variable (takes : GoString → Bool)

theorem Tabulates.call (h : Tabulates db st) (op : AttributeOp) :
    Agrees (db.call ord takes op) (st.call ord takes op) := by
  have hfound : ∀ app, (db.applications.lookup app).isSome = (st.lookup app).isSome := by
    intro app
    rcases h.apps app with ⟨hdb, hst⟩ | ⟨id, a, hdb, hst, -⟩ <;> rw [hdb, hst] <;> rfl
  simp only [SqlDb.call, AttributeStore.call, hfound]
  split_ifs
  · exact ⟨rfl, h⟩
  · exact h.execute ord op
  · exact ⟨rfl, h⟩

theorem Tabulates.answers (h : Tabulates db st) (ops : List AttributeOp) :
    db.answers ord takes ops = st.answers ord takes ops := by
  induction ops generalizing db st with
  | nil => rfl
  | cons op ops ih =>
    obtain ⟨hanswer, hnext⟩ := h.call ord takes op
    rw [SqlDb.answers, AttributeStore.answers, hanswer, ih hnext]

end Statements

end Refinement

end Musgos.Outbound
