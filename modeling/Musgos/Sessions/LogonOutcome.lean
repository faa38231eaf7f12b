import Musgos.Inbound.ConnPool
import Musgos.Outbound.SessionStore
import Musgos.Outbound.SqlDb
import Musgos.Services.Logon
import Musgos.Services.Authorizer

/-!
# What a logon leaves behind

A refused logon leaves the pool and the sessions as they were. An accepted one
promises a session under the effective user with the user's level, but it ignores
the errors of the three writes that make the session, and the level goes through a
32-bit integer. The second part runs it on a session store whose writes fail at any
time and says exactly when the promise is kept. The third part is about banned
accounts and a database whose lookups fail at any time.
-/
namespace Musgos.Sessions

open Foundation Lingo Domain Services Inbound Outbound

variable {C π σ δ τ : Type}

section Refused

variable [DecidableEq C]

/-- An injected connection writer is the pool, as far as its remap goes. -/
def RemapsInPool (writer : Option (ConnectionWriter (ConnPool C))) : Prop :=
  ∀ w ∈ writer, ∀ old new p, w.remapClientID old new p = p.remapClientID old new

theorem remapConnection_refused {writer : Option (ConnectionWriter (ConnPool C))}
    (hwriter : RemapsInPool writer) {old new : GoString} {p q : ConnPool C}
    (h : remapConnection writer old new p = (q, false)) : q = p := by
  cases writer with
  | none => simp [remapConnection] at h
  | some w =>
    rw [remapConnection, hwriter w rfl] at h
    obtain ⟨hsame, -⟩ | ⟨conn, -, -, hok, -⟩ := p.remapClientID_cases old new
    · rw [h] at hsame
      exact congrArg Prod.fst hsame
    · rw [h] at hok
      cases hok

/-- A logon that does not succeed changes neither a binding of the pool nor anything in
the session store, whatever the database and the token store answer. -/
theorem refused_logon_changes_nothing (s : LogonService (ConnPool C) σ δ τ)
    (hwriter : RemapsInPool s.connWriter) (now : ℤ) (req : LogonRequest)
    (b : Backend (ConnPool C) σ δ τ) (hcode : (s.logon now req b).1.code ≠ .ok) :
    (s.logon now req b).2.conns = b.conns ∧ (s.logon now req b).2.sessions = b.sessions := by
  obtain ⟨-, hsessions, hconns⟩ | ⟨hok, -⟩ := s.logon_cases now req b
  · refine ⟨?_, hsessions⟩
    rcases hconns with hconns | ⟨userID, hremap⟩
    · exact hconns
    · exact remapConnection_refused hwriter hremap
  · exact absurd hok hcode

/-- The pool as a connection writer, for connections that take what is written to them. -/
def poolWriter : ConnectionWriter (ConnPool C) where
  writeToClient clientID _ p :=
    (if (p.clients.lookup clientID).isSome then .ok () else .error .other, p)
  remapClientID old new p := p.remapClientID old new
  disconnectClient clientID p :=
    (if (p.clients.lookup clientID).isSome then .ok () else .error .other, p)

/-- Every logon is accepted by its mode, with a level that a new user has by default. -/
def acceptingService (sessions : SessionStore σ) (level : ℤ) (ord : RangeOrder GoString) :
    LogonService (ConnPool C) σ SqlDb Unit where
  db := SqlDb.port ord 0
  sessions := sessions
  connWriter := some poolWriter
  mode := .none
  defaultLevel := level
  tokens := none
  compareHash _ _ := false

/-- Two connections, the second of which is logged on as alice. -/
def twoConnections {C : Type} [DecidableEq C] (c d : C) : ConnPool C :=
  ((ConnPool.new.register c (lit "1.2.3.4:50")).register d (lit "5.6.7.8:90")).remapClientID
    (lit "5.6.7.8:90") (lit "alice") |>.1

/-- The first asks for the second one's name before its session is registered. -/
def asAlice : LogonRequest := ⟨lit "1.2.3.4:50", [], some ⟨[], lit "alice", []⟩⟩

theorem refused_logon_changes_nothing_taken :
    let s := acceptingService (C := Fin 2) (MemorySessionStore.port (.sorted (· ≤ ·))) 20
      (.sorted (· ≤ ·))
    let b : Backend (ConnPool (Fin 2)) MemorySessionStore SqlDb Unit :=
      ⟨twoConnections 0 1, .new, .new, ()⟩
    (s.logon 0 asAlice b).1.code = .refused ∧
      (s.logon 0 asAlice b).2.conns = b.conns ∧ (s.logon 0 asAlice b).2.sessions = b.sessions :=
  ⟨by decide +kernel, refused_logon_changes_nothing _ (by rintro _ ⟨rfl⟩ _ _ _; rfl) 0 asAlice _
    (by decide +kernel)⟩

end Refused

section Established

/-- What is asked of a session store: how a registration, a removal and a stamped level
show in the two reads, `GetConnection` and the level. -/
structure SessionLaws (store : SessionStore σ) : Prop where
  register : ∀ now id ip s, ∃ conn, conn.ip = ip ∧ ∀ x,
    existing store (store.registerConnection now id ip s).2 x =
      if x = id then some conn else existing store s x
  level_register : ∀ now id ip s x,
    userLevel store (store.registerConnection now id ip s).2 x = userLevel store s x
  unregister : ∀ id s x, existing store (store.unregisterConnection id s).2 x =
    if x = id then none else existing store s x
  level_unregister : ∀ id s x, userLevel store (store.unregisterConnection id s).2 x =
    if x = id then some 0 else userLevel store s x
  stamp : ∀ id level s x,
    existing store (stampLevel store id level s) x = existing store s x
  level_stamp : ∀ id level s,
    userLevel store (stampLevel store id level s) id = some (Int32.ofInt level).toInt

theorem memorySessionStore_laws (ord : RangeOrder GoString) :
    SessionLaws (MemorySessionStore.port ord) where
  register now id ip s := ⟨⟨id, ip, now, now⟩, rfl, fun x => by
    simp [existing, MemorySessionStore.port, MemorySessionStore.getConnection,
      MemorySessionStore.registerConnection]⟩
  level_register _ _ _ _ _ := rfl
  unregister id s x := by
    simp [existing, MemorySessionStore.port, MemorySessionStore.getConnection]
  level_unregister id s x := by
    simp only [userLevel, MemorySessionStore.port, MemorySessionStore.getUserAttribute_unregister]
    split_ifs <;> rfl
  stamp _ _ _ _ := rfl
  level_stamp id level s := by
    simp [userLevel, stampLevel, MemorySessionStore.port, MemorySessionStore.getUserAttribute_set,
      levelValue, LValue.toInteger]

/-- A session store with the outcomes of the writes to come, true for one that fails. -/
structure Faulty (σ : Type) where
  store : σ
  faults : List Bool

namespace Faulty

/-- The write with this number, counted from the next one, fails. -/
def fails (s : Faulty σ) (k : ℕ) : Prop := s.faults[k]? = some true

instance decidableFails (s : Faulty σ) (k : ℕ) : Decidable (s.fails k) :=
  inferInstanceAs (Decidable (_ = _))

/-- A failed write returns an error and changes nothing. -/
def write (op : Write σ) : Write (Faulty σ) := fun s =>
  if s.fails 0 then (.error .other, ⟨s.store, s.faults.tail⟩)
  else ((op s.store).1, ⟨(op s.store).2, s.faults.tail⟩)

def port (base : SessionStore σ) : SessionStore (Faulty σ) where
  registerConnection now clientID ip := write (base.registerConnection now clientID ip)
  unregisterConnection clientID := write (base.unregisterConnection clientID)
  getConnection clientID s := base.getConnection clientID s.store
  getAllConnections s := base.getAllConnections s.store
  setUserAttribute clientID attrName value := write (base.setUserAttribute clientID attrName value)
  getUserAttribute clientID attrName s := base.getUserAttribute clientID attrName s.store
  joinRoom roomName clientID := write (base.joinRoom roomName clientID)
  leaveRoom roomName clientID := write (base.leaveRoom roomName clientID)
  getRoomMembers roomName s := base.getRoomMembers roomName s.store
  getClientRooms clientID s := base.getClientRooms clientID s.store
  leaveAllRooms clientID := write (base.leaveAllRooms clientID)

theorem fails_write (op : Write σ) (s : Faulty σ) (k : ℕ) :
    (write op s).2.fails k ↔ s.fails (k + 1) := by
  unfold write
  split_ifs <;> simp [fails]

theorem store_write (op : Write σ) (s : Faulty σ) :
    (write op s).2.store = if s.fails 0 then s.store else (op s.store).2 := by
  unfold write
  split_ifs <;> rfl

end Faulty

/-- What a successful logon promises about the session store: the user has a connection
with the address of the original one, the original id has none unless it is the user's,
and the user has the level of the result. -/
def EstablishedAs (store : SessionStore σ) (before after : σ) (connectionID : GoString)
    (res : LogonResult) : Prop :=
  (∃ conn, existing store after res.userID = some conn ∧
    ∀ original, existing store before connectionID = some original → conn.ip = original.ip) ∧
  (res.userID ≠ connectionID → existing store after connectionID = none) ∧
  userLevel store after res.userID = some res.userLevel

/-- When the writes make good on the promise. The first write removes the original
session, the second registers the user, the third stamps the level. -/
@[mk_iff] structure WritesSuffice (base : SessionStore σ) (s : Faulty σ)
    (connectionID userID : GoString)
    (level : ℤ) : Prop where
  /-- The user is registered, with an address that is the original one's unless that is
  empty; or the original session is the user's own and stays. -/
  registered : if s.fails 1 then
      s.fails 0 ∧ userID = connectionID ∧ (existing base s.store connectionID).isSome
    else ∀ original, existing base s.store connectionID = some original →
      original.ip ≠ [] ∨ connectionID = []
  removed : userID ≠ connectionID → s.fails 0 → existing base s.store connectionID = none
  /-- The level fits, or without the stamp what the session has is the level already. -/
  stamped : if s.fails 2 then
      if userID = connectionID ∧ ¬ s.fails 0 then level = 0
      else userLevel base s.store userID = some level
    else -2 ^ 31 ≤ level ∧ level < 2 ^ 31

theorem toInt_ofInt_iff (n : ℤ) : (Int32.ofInt n).toInt = n ↔ -2 ^ 31 ≤ n ∧ n < 2 ^ 31 := by
  rw [Int32.toInt_ofInt, Int.bmod_def]
  push_cast [Int32.size]
  split_ifs <;> omega

theorem preservedIP_eq_iff {store : SessionStore σ} {s : σ} {connectionID : GoString}
    {original : ConnectionInfo} (h : existing store s connectionID = some original) :
    preservedIP store s connectionID = original.ip ↔ original.ip ≠ [] ∨ connectionID = [] := by
  simp only [preservedIP, h]
  by_cases hip : original.ip = [] <;> simp [hip]

section Writes

variable {base : SessionStore σ} (hbase : SessionLaws base) (s : Faulty σ)

/-- The three writes of a logon. -/
def afterWrites (store : SessionStore σ) (now : ℤ) (connectionID userID ip : GoString) (level : ℤ)
    (s : σ) : σ :=
  stampLevel store userID level
    (store.registerConnection now userID ip (store.unregisterConnection connectionID s).2).2

include hbase

theorem existing_unregister (connectionID x : GoString) :
    existing base ((Faulty.port base).unregisterConnection connectionID s).2.store x =
      if ¬ s.fails 0 ∧ x = connectionID then none else existing base s.store x := by
  simp only [Faulty.port, Faulty.store_write]
  by_cases h0 : s.fails 0 <;> simp [h0, hbase.unregister]

theorem userLevel_unregister (connectionID x : GoString) :
    userLevel base ((Faulty.port base).unregisterConnection connectionID s).2.store x =
      if ¬ s.fails 0 ∧ x = connectionID then some 0 else userLevel base s.store x := by
  simp only [Faulty.port, Faulty.store_write]
  by_cases h0 : s.fails 0 <;> simp [h0, hbase.level_unregister]

theorem existing_register (now : ℤ) (userID ip : GoString) :
    ∃ conn, conn.ip = ip ∧ ∀ x,
      existing base ((Faulty.port base).registerConnection now userID ip s).2.store x =
        if ¬ s.fails 0 ∧ x = userID then some conn else existing base s.store x := by
  obtain ⟨conn, hip, hconn⟩ := hbase.register now userID ip s.store
  refine ⟨conn, hip, fun x => ?_⟩
  simp only [Faulty.port, Faulty.store_write]
  by_cases h0 : s.fails 0 <;> simp [h0, hconn]

theorem userLevel_register (now : ℤ) (userID ip x : GoString) :
    userLevel base ((Faulty.port base).registerConnection now userID ip s).2.store x =
      userLevel base s.store x := by
  simp only [Faulty.port, Faulty.store_write]
  by_cases h0 : s.fails 0 <;> simp [h0, hbase.level_register]

theorem existing_stamp (userID x : GoString) (level : ℤ) :
    existing base (stampLevel (Faulty.port base) userID level s).store x =
      existing base s.store x := by
  simp only [stampLevel, Faulty.port, Faulty.store_write]
  split_ifs with h0
  · rfl
  · exact hbase.stamp userID level s.store x

theorem userLevel_stamp (userID : GoString) (level : ℤ) :
    userLevel base (stampLevel (Faulty.port base) userID level s).store userID =
      if ¬ s.fails 0 then some (Int32.ofInt level).toInt else userLevel base s.store userID := by
  simp only [stampLevel, Faulty.port, Faulty.store_write]
  by_cases h0 : s.fails 0
  · rw [if_pos h0, if_neg (not_not_intro h0)]
  · rw [if_neg h0, if_pos h0]
    exact hbase.level_stamp userID level s.store

theorem existing_afterWrites (now : ℤ) (connectionID userID ip : GoString) (level : ℤ) :
    ∃ conn, conn.ip = ip ∧ ∀ x,
      existing (Faulty.port base)
          (afterWrites (Faulty.port base) now connectionID userID ip level s) x =
        if ¬ s.fails 1 ∧ x = userID then some conn
        else if ¬ s.fails 0 ∧ x = connectionID then none else existing base s.store x := by
  obtain ⟨conn, hip, hconn⟩ := existing_register hbase
    ((Faulty.port base).unregisterConnection connectionID s).2 now userID ip
  refine ⟨conn, hip, fun x => ?_⟩
  have hsecond : ((Faulty.port base).unregisterConnection connectionID s).2.fails 0 ↔ s.fails 1 :=
    Faulty.fails_write _ s 0
  calc existing base (afterWrites (Faulty.port base) now connectionID userID ip level s).store x
      = _ := existing_stamp hbase _ userID x level
    _ = _ := hconn x
    _ = _ := by simp only [existing_unregister hbase, hsecond]

theorem userLevel_afterWrites (now : ℤ) (connectionID userID ip : GoString) (level : ℤ) :
    userLevel (Faulty.port base)
        (afterWrites (Faulty.port base) now connectionID userID ip level s) userID =
      if ¬ s.fails 2 then some (Int32.ofInt level).toInt
      else if ¬ s.fails 0 ∧ userID = connectionID then some 0
      else userLevel base s.store userID := by
  have hthird : ((Faulty.port base).registerConnection now userID ip
      ((Faulty.port base).unregisterConnection connectionID s).2).2.fails 0 ↔ s.fails 2 :=
    (Faulty.fails_write _ _ 0).trans (Faulty.fails_write _ s 1)
  calc userLevel base
          (afterWrites (Faulty.port base) now connectionID userID ip level s).store userID
      = _ := userLevel_stamp hbase _ userID level
    _ = _ := by simp only [userLevel_register hbase, userLevel_unregister hbase, hthird]

end Writes

/-- A successful logon keeps its promise exactly when the writes that fail do not matter
and the level fits into 32 bits. -/
theorem logon_established_iff (s : LogonService π (Faulty σ) δ τ) {base : SessionStore σ}
    (hbase : SessionLaws base) (hsessions : s.sessions = Faulty.port base) (now : ℤ)
    (req : LogonRequest) (b : Backend π (Faulty σ) δ τ) (hok : (s.logon now req b).1.code = .ok) :
    EstablishedAs s.sessions b.sessions (s.logon now req b).2.sessions req.connectionID
        (s.logon now req b).1 ↔
      WritesSuffice base b.sessions req.connectionID (s.logon now req b).1.userID
        (s.logon now req b).1.userLevel := by
  obtain ⟨hcode, -⟩ | ⟨-, -, hguard, -, hafter⟩ := s.logon_cases now req b
  · exact absurd hok hcode
  set res := (s.logon now req b).1
  rw [hafter, hsessions]
  rw [hsessions] at hguard
  obtain ⟨conn, hip, hexisting⟩ := existing_afterWrites hbase b.sessions now req.connectionID
    res.userID (preservedIP (Faulty.port base) b.sessions req.connectionID) res.userLevel
  have hlevel := userLevel_afterWrites hbase b.sessions now req.connectionID
    res.userID (preservedIP (Faulty.port base) b.sessions req.connectionID) res.userLevel
  unfold afterWrites at hexisting hlevel
  unfold EstablishedAs
  rw [hlevel, hexisting, hexisting, writesSuffice_iff]
  refine and_congr ?_ (and_congr ?_ ?_)
  · by_cases h1 : b.sessions.fails 1
    · simp only [h1, not_true_eq_false, false_and, if_false, if_true]
      constructor
      · rintro ⟨kept, hkept, -⟩
        split_ifs at hkept with hremoved
        -- the guard saw no session of another id, so the one that is left is the original
        have hsame : res.userID = req.connectionID := by
          by_contra hne
          simp only [guardRefuses, hne, ne_eq, not_false_eq_true, true_and, decide_eq_false_iff_not,
            Option.not_isSome_iff_eq_none] at hguard
          exact absurd (hguard.symm.trans hkept) (by simp)
        refine ⟨?_, hsame, ?_⟩
        · by_contra h0
          exact hremoved ⟨h0, hsame⟩
        · rw [← hsame, hkept]
          rfl
      · rintro ⟨h0, hsame, hsome⟩
        obtain ⟨original, horiginal⟩ := Option.isSome_iff_exists.mp hsome
        refine ⟨original, by simp [h0, hsame, horiginal], fun other hother => ?_⟩
        rw [Option.some.inj (horiginal.symm.trans hother)]
    · simp only [h1, not_false_eq_true, true_and, if_true, if_false, Option.some.injEq,
        exists_eq_left', hip]
      exact forall₂_congr fun original horiginal => preservedIP_eq_iff horiginal
  · refine forall_congr' fun hne => ?_
    simp only [Ne.symm hne, and_false, if_false, and_true]
    by_cases h0 : b.sessions.fails 0 <;> simp [h0]
  · by_cases h2 : b.sessions.fails 2
    · simp only [h2, not_true_eq_false, if_false, if_true, and_comm]
      split_ifs
      · simp [eq_comm]
      · rfl
    · simp only [h2, not_false_eq_true, if_true, if_false, Option.some.injEq]
      exact toInt_ofInt_iff res.userLevel

/-- The first connection alone, with the session it has before a logon, and the writes
that are going to fail. -/
def connected {C : Type} [DecidableEq C] (c : C) (faults : List Bool) :
    Backend (ConnPool C) (Faulty MemorySessionStore) SqlDb Unit where
  conns := ConnPool.new.register c (lit "1.2.3.4:50")
  sessions :=
    ⟨MemorySessionStore.new.registerConnection 0 (lit "1.2.3.4:50") (lit "1.2.3.4"), faults⟩
  db := .new
  tokens := ()

theorem logon_established_iff_alice :
    let s :=
      acceptingService (C := Fin 2) (Faulty.port (MemorySessionStore.port (.sorted (· ≤ ·)))) 20
      (.sorted (· ≤ ·))
    let b := connected 0 []
    (s.logon 7 asAlice b).1.code = .ok ∧
      (EstablishedAs s.sessions b.sessions (s.logon 7 asAlice b).2.sessions asAlice.connectionID
          (s.logon 7 asAlice b).1 ↔
        WritesSuffice (MemorySessionStore.port (.sorted (· ≤ ·))) b.sessions asAlice.connectionID
          (s.logon 7 asAlice b).1.userID (s.logon 7 asAlice b).1.userLevel) :=
  ⟨by decide +kernel, logon_established_iff _ (memorySessionStore_laws _) rfl 7 asAlice _
    (by decide +kernel)⟩

/-- The registration fails and the logon succeeds: nobody has a session. With a level of
`2 ^ 31` no write fails, and the user ends up with the level `-2 ^ 31`. -/
theorem accepted_logon_not_established :
    let store := Faulty.port (MemorySessionStore.port (.sorted (· ≤ ·)))
    let s := acceptingService (C := Fin 2) store 20 (.sorted (· ≤ ·))
    let r := s.logon 7 asAlice (connected 0 [false, true, false])
    let wide := acceptingService (C := Fin 2) store (2 ^ 31) (.sorted (· ≤ ·))
    let q := wide.logon 7 asAlice (connected 0 [])
    (r.1 = ⟨.ok, lit "alice", 20, []⟩ ∧ existing store r.2.sessions (lit "alice") = none ∧
      existing store r.2.sessions asAlice.connectionID = none ∧
      ¬ EstablishedAs store (connected 0 [false, true, false]).sessions r.2.sessions
        asAlice.connectionID r.1) ∧
    q.1 = ⟨.ok, lit "alice", 2 ^ 31, []⟩ ∧
      userLevel store q.2.sessions (lit "alice") = some (-2 ^ 31) := by
  intro store s r wide q
  have huser : r.1 = ⟨.ok, lit "alice", 20, []⟩ := by decide +kernel
  have hnone : existing store r.2.sessions (lit "alice") = none := by decide +kernel
  refine ⟨⟨huser, hnone, by decide +kernel, ?_⟩, by decide +kernel, by decide +kernel⟩
  rintro ⟨⟨conn, hconn, -⟩, -⟩
  rw [huser] at hconn
  exact absurd (hnone.symm.trans hconn) (by simp)

end Established

section Banned

/-- The lookups that a logon makes in the database. -/
inductive Lookup where
  | user (username : GoString)
  | ban (userID : ℤ)
  deriving DecidableEq

/-- A database some of whose lookups fail for reasons that are not its contents. -/
def unreliable (db : DBAdapter δ) (down : Lookup → Bool) : DBAdapter δ :=
  { db with
    getUser := fun username d =>
      if down (.user username) then .error .other else db.getUser username d
    getActiveBanByUserID := fun userID d =>
      if down (.ban userID) then .error .other else db.getActiveBanByUserID userID d }

variable {ord : RangeOrder GoString} {clock : ℤ} {down : Lookup → Bool}

/-- The password decides, and then whether the ban is seen. -/
theorem validateCredentials_banned (s : LogonService π σ SqlDb τ)
    (hdb : s.db = unreliable (SqlDb.port ord clock) down) {db : SqlDb} {user : User}
    (password : GoString) {ban : BanRow} (hban : ban ∈ db.bans)
    (hactive : ban.Active clock user.id) :
    s.validateCredentials db user password =
      if s.compareHash user.passwordHash password then
        if down (.ban user.id) then .ok else .refused
      else .invalidPassword := by
  obtain ⟨found, hfound⟩ := SqlDb.getActiveBanByUserID_of_active clock hban hactive
  unfold LogonService.validateCredentials
  rw [hdb]
  by_cases hdown : down (.ban user.id) = true <;>
    by_cases hpassword : s.compareHash user.passwordHash password = true <;>
      simp [unreliable, SqlDb.port, hdown, hpassword, hfound]

/-- What a mode with accounts decides about an account with an active ban. A failed ban
lookup lets it pass. -/
theorem authenticate_banned (s : LogonService π σ SqlDb τ)
    (hdb : s.db = unreliable (SqlDb.port ord clock) down)
    (hmode : s.mode = .strict ∨ s.mode = .openMode) {b : Backend π σ SqlDb τ}
    {username password : GoString} {user : User} (huser : b.db.users.lookup username = some user)
    {ban : BanRow} (hban : ban ∈ b.db.bans) (hactive : ban.Active clock user.id)
    (r : GoString × ℤ) :
    (s.authenticate username password b).1 = .ok r ↔
      r = (username, user.userLevel) ∧ down (.user username) = false ∧
        down (.ban user.id) = true ∧ s.compareHash user.passwordHash password = true := by
  have hvalidate := validateCredentials_banned s hdb password hban hactive
  have hfound : s.db.getUser username b.db =
      if down (.user username) then .error .other else .ok user := by
    simp [hdb, unreliable, SqlDb.port, SqlDb.getUser, huser]
  rcases hmode with hmode | hmode <;>
  · simp only [LogonService.authenticate, hmode, hfound]
    by_cases hup : down (.user username) = true
    · simp [hup]
    · by_cases hdown : down (.ban user.id) = true <;>
        by_cases hpassword : s.compareHash user.passwordHash password = true <;>
          simp [hup, hvalidate, hdown, hpassword, eq_comm]

/-- A logon under a banned account is refused unless the lookup of the ban fails while that
of the account works, the password is right, and the user is not connected. -/
theorem banned_logon_refused_iff (s : LogonService π σ SqlDb τ)
    (hdb : s.db = unreliable (SqlDb.port ord clock) down)
    (hmode : s.mode = .strict ∨ s.mode = .openMode) (now : ℤ) (req : LogonRequest)
    (b : Backend π σ SqlDb τ) {credentials : LogonCredentials}
    (hreq : s.requested req = some credentials) {user : User}
    (huser : b.db.users.lookup credentials.userID = some user) {ban : BanRow}
    (hban : ban ∈ b.db.bans) (hactive : ban.Active clock user.id) :
    (s.logon now req b).1.code ≠ .ok ↔
      ¬ (down (.ban user.id) = true ∧ down (.user credentials.userID) = false ∧
        s.compareHash user.passwordHash credentials.password = true ∧
        guardRefuses s.sessions b.sessions req.connectionID credentials.userID = false ∧
        (remapConnection s.connWriter req.connectionID credentials.userID b.conns).2 = true) := by
  rw [ne_eq, s.logon_ok_iff]
  refine not_congr ⟨?_, ?_⟩
  · rintro ⟨credentials', userID, level, hreq', hauth, hguard, hremap⟩
    obtain rfl : credentials = credentials' := Option.some.inj (hreq.symm.trans hreq')
    obtain ⟨hr, hup, hdown, hpassword⟩ :=
      (authenticate_banned s hdb hmode huser hban hactive _).mp hauth
    obtain ⟨rfl, -⟩ := Prod.mk.inj hr
    exact ⟨hdown, hup, hpassword, hguard, hremap⟩
  · rintro ⟨hdown, hup, hpassword, hguard, hremap⟩
    refine ⟨credentials, credentials.userID, user.userLevel, hreq, ?_, hguard, hremap⟩
    exact (authenticate_banned s hdb hmode huser hban hactive _).mpr ⟨rfl, hup, hdown, hpassword⟩

/-- The account alice, banned for good. -/
def bannedAlice : SqlDb :=
  { SqlDb.new with
    users := (∅ : GoMap GoString User).insert (lit "alice") ⟨1, lit "hash", 20⟩
    bans := [⟨1, some 1, [], none, none, 0⟩] }

/-- Passwords match, accounts are checked, and the database is down for some lookups. -/
def strictService {C : Type} [DecidableEq C] (sessions : SessionStore σ) (ord : RangeOrder GoString)
    (down : Lookup → Bool) : LogonService (ConnPool C) σ SqlDb Unit :=
  { acceptingService sessions 20 ord with
    db := unreliable (SqlDb.port ord 0) down
    mode := .strict
    compareHash := fun _ _ => true }

/-- The backend of the first connection with alice's account. -/
def bannedBackend {C : Type} [DecidableEq C] (c : C) :
    Backend (ConnPool C) MemorySessionStore SqlDb Unit :=
  ⟨ConnPool.new.register c (lit "1.2.3.4:50"), .new, bannedAlice, ()⟩

theorem banned_logon_refused_iff_alice :
    let down : Lookup → Bool := fun _ => false
    let s := strictService (MemorySessionStore.port (.sorted (· ≤ ·))) (.sorted (· ≤ ·)) down
    let b := bannedBackend (0 : Fin 2)
    (s.logon 7 asAlice b).1.code ≠ .ok ↔
      ¬ (down (.ban 1) = true ∧ down (.user (lit "alice")) = false ∧
        s.compareHash (lit "hash") [] = true ∧
        guardRefuses s.sessions b.sessions asAlice.connectionID (lit "alice") = false ∧
        (remapConnection s.connWriter asAlice.connectionID (lit "alice") b.conns).2 =
          true) := by
  intro down s b
  have hdb : s.db = unreliable (SqlDb.port (.sorted (· ≤ ·)) 0) down := rfl
  have hreq : s.requested asAlice = some ⟨[], lit "alice", []⟩ := rfl
  have huser : b.db.users.lookup (lit "alice") = some ⟨1, lit "hash", 20⟩ := by
    decide +kernel
  have hban : ⟨1, some 1, [], none, none, 0⟩ ∈ b.db.bans := List.mem_singleton_self _
  have hactive : BanRow.Active 0 1 ⟨1, some 1, [], none, none, 0⟩ := by decide
  exact banned_logon_refused_iff s hdb (.inl rfl) 7 asAlice b hreq huser hban hactive

/-- The lookup of the ban fails, and the banned user is logged on. -/
theorem banned_logon_accepted :
    let s := strictService (MemorySessionStore.port (.sorted (· ≤ ·))) (.sorted (· ≤ ·))
      fun l => l = .ban 1
    bannedAlice.users.lookup (lit "alice") = some ⟨1, lit "hash", 20⟩ ∧
      (∃ ban ∈ bannedAlice.bans, ban.Active 0 1) ∧
      (s.logon 7 asAlice (bannedBackend (0 : Fin 2))).1 = ⟨.ok, lit "alice", 20, []⟩ := by
  decide +kernel

end Banned

end Musgos.Sessions
