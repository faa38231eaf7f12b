import Musgos.Foundation.RedisExpiry
import Musgos.Foundation.Transition
import Musgos.Outbound.RedisSessionStore

/-!
# The life of a Redis session

Time passes between the calls of the session store, and Redis drops a
connection's hash when its time to live has elapsed. `RegisterConnection` sets the
deadline; `UpdateLastActivity` writes to the hash, which keeps the deadline, so a
session lives for `connTTL` from its registration however active it is. The set of
connected clients has no deadline and goes on listing the client.
-/
namespace Musgos.Outbound

open Foundation Domain

/-- The call made at `now`. -/
def SessionOp.atTime (now : ℤ) : SessionOp → SessionOp
  | .registerConnection _ clientID ip => .registerConnection now clientID ip
  | .updateLastActivity _ clientID => .updateLastActivity now clientID
  | op => op

/-- The call neither registers nor unregisters the client. -/
def SessionOp.SparesClient (c : GoString) : SessionOp → Prop
  | .registerConnection _ clientID _ | .unregisterConnection clientID => clientID ≠ c
  | _ => True

/-- The database and the clock of its server. -/
structure TimedDb where
  db : SessionDb
  now : ℤ

/-- A call of the store, or time goes by. -/
inductive TimedAction where
  | call (ord : RangeOrder GoString) (op : SessionOp)
  | advance (time : ℤ)

def TimedAction.SparesClient (c : GoString) : TimedAction → Prop
  | .call _ op => op.SparesClient c
  | .advance _ => True

/-- The clock is not advanced to the deadline. -/
def TimedAction.EndsBefore (deadline : ℤ) : TimedAction → Prop
  | .call _ _ => True
  | .advance time => time < deadline

namespace TimedDb

def start (now : ℤ) : TimedDb := ⟨.empty, now⟩

def step (r : RedisSessionStore) (s : TimedDb) : TimedAction → Option TimedDb
  | .call ord op => (r.apply ord s.db (op.atTime s.now)).map fun result => { s with db := result.1 }
  | .advance time => if s.now ≤ time then some ⟨s.db.elapse time, time⟩ else none

/-- `GetConnection` finds the client under its address and `IsConnected` says so. -/
def Live (r : RedisSessionStore) (c ip : GoString) (s : TimedDb) : Prop :=
  (r.getConnection s.db c).map (·.map ConnectionInfo.ip) = .ok (some ip) ∧
    r.isConnected s.db c = .ok true

end TimedDb

section Commands

/-- The command leaves the client's connection alone, or records an activity in it. -/
def SparesCmd (c : GoString) : StoreCmd → Prop
  | .hset key fields => key = .conn c →
    ∃ now, fields = [(lit "last_activity", RedisSessionStore.formatTime now)]
  | .hdel key _ | .expire key _ => key ≠ .conn c
  | .sadd _ _ => True
  | .srem key member => key = .conns → member ≠ c
  | .del key => key ≠ .conn c ∧ key ≠ .conns

/-- Only connections are given a time to live. -/
def TimesConnections : StoreCmd → Prop
  | .expire key _ => ∃ c, key = .conn c
  | _ => True

/-- What a command of a call may do. -/
structure CallCmd (op : SessionOp) (cmd : StoreCmd) : Prop where
  fitting : Redis.Fitting StoreKey.isHash cmd
  times : TimesConnections cmd
  spares : ∀ c, op.SparesClient c → SparesCmd c cmd

variable {r : RedisSessionStore} {db : SessionDb} {v : StoreView} {op : SessionOp}

theorem callCmd_srem_room (op : SessionOp) (room clientID : GoString) :
    CallCmd op (.srem (.room room) clientID) :=
  ⟨rfl, trivial, fun _ _ => nofun⟩

theorem callCmd_registerPipe (now : ℤ) (clientID ip : GoString) :
    ∀ cmd ∈ r.registerPipe now clientID ip, CallCmd (.registerConnection now clientID ip) cmd := by
  intro cmd hcmd
  have hfit := r.allFitting_registerPipe now clientID ip cmd hcmd
  unfold RedisSessionStore.registerPipe at hcmd
  split_ifs at hcmd <;> simp at hcmd
  · obtain rfl | rfl | rfl := hcmd
    · exact ⟨hfit, trivial, fun c hc hkey => absurd (StoreKey.conn.inj hkey) hc⟩
    · exact ⟨hfit, ⟨_, rfl⟩, fun c hc hkey => hc (StoreKey.conn.inj hkey)⟩
    · exact ⟨hfit, trivial, fun c hc => trivial⟩
  · obtain rfl | rfl := hcmd
    · exact ⟨hfit, trivial, fun c hc hkey => absurd (StoreKey.conn.inj hkey) hc⟩
    · exact ⟨hfit, trivial, fun c hc => trivial⟩

theorem callCmd_unregisterPipe (clientID : GoString) (rooms : List GoString) :
    ∀ cmd ∈ RedisSessionStore.unregisterPipe clientID rooms,
      CallCmd (.unregisterConnection clientID) cmd := by
  unfold RedisSessionStore.unregisterPipe
  rw [List.forall_mem_append]
  constructor
  · simp only [List.forall_mem_cons]
    refine ⟨⟨trivial, trivial, fun c hc => ⟨fun hkey => hc (StoreKey.conn.inj hkey), nofun⟩⟩,
      ⟨trivial, trivial, fun c hc => ⟨nofun, nofun⟩⟩,
      ⟨trivial, trivial, fun c hc => ⟨nofun, nofun⟩⟩,
      ⟨rfl, trivial, fun c hc _ => hc⟩, nofun⟩
  · simp only [List.forall_mem_map]
    exact fun room _ => callCmd_srem_room _ room clientID

theorem callCmd_leaveAllRoomsPipe (clientID : GoString) (rooms : List GoString) :
    ∀ cmd ∈ RedisSessionStore.leaveAllRoomsPipe clientID rooms,
      CallCmd (.leaveAllRooms clientID) cmd := by
  unfold RedisSessionStore.leaveAllRoomsPipe
  rw [List.forall_mem_append]
  constructor
  · simp only [List.forall_mem_map]
    exact fun room _ => callCmd_srem_room _ room clientID
  · simp only [List.forall_mem_cons]
    exact ⟨⟨trivial, trivial, fun c hc => ⟨nofun, nofun⟩⟩, nofun⟩

/-- A call sends a pipeline of such commands. -/
theorem exists_pipe (hdb : r.Holds db v) {ord : RangeOrder GoString}
    {result : SessionDb × Option SessionError} (h : r.apply ord db op = some result) :
    ∃ cmds, result.1 = (r.runPipe db cmds).1 ∧ ∀ cmd ∈ cmds, CallCmd op cmd := by
  cases op with
  | registerConnection now clientID ip =>
    obtain rfl := Option.some.inj h
    exact ⟨_, rfl, callCmd_registerPipe now clientID ip⟩
  | unregisterConnection clientID =>
    obtain rfl := Option.some.inj h
    rw [hdb.afterReadingRooms]
    exact ⟨_, rfl, callCmd_unregisterPipe clientID _⟩
  | updateLastActivity now clientID =>
    obtain rfl := Option.some.inj h
    refine ⟨_, rfl, List.forall_mem_singleton.mpr ⟨rfl, trivial, ?_⟩⟩
    exact fun c _ _ => ⟨now, rfl⟩
  | setUserAttribute clientID attrName value =>
    rw [RedisSessionStore.apply] at h
    cases hdata : value.marshalLValue with
    | none => simp [hdata] at h
    | some data =>
      rw [hdata] at h
      cases data with
      | error e =>
        obtain rfl := Option.some.inj h
        exact ⟨[], rfl, nofun⟩
      | ok document =>
        obtain rfl := Option.some.inj h
        exact ⟨_, rfl, List.forall_mem_singleton.mpr ⟨rfl, trivial, fun c _ => nofun⟩⟩
  | deleteUserAttribute clientID attrName =>
    obtain rfl := Option.some.inj h
    exact ⟨_, rfl, List.forall_mem_singleton.mpr ⟨rfl, trivial, fun c _ => nofun⟩⟩
  | joinRoom roomName clientID =>
    obtain rfl := Option.some.inj h
    refine ⟨_, rfl, List.forall_mem_cons.mpr ⟨⟨rfl, trivial, fun _ _ => trivial⟩, ?_⟩⟩
    exact List.forall_mem_singleton.mpr ⟨rfl, trivial, fun _ _ => trivial⟩
  | leaveRoom roomName clientID =>
    obtain rfl := Option.some.inj h
    refine ⟨_, rfl, List.forall_mem_cons.mpr ⟨callCmd_srem_room _ roomName clientID, ?_⟩⟩
    exact List.forall_mem_singleton.mpr ⟨rfl, trivial, fun _ _ => nofun⟩
  | leaveAllRooms clientID =>
    obtain rfl := Option.some.inj h
    rw [hdb.afterReadingRooms]
    exact ⟨_, rfl, callCmd_leaveAllRoomsPipe clientID _⟩

end Commands

section Sessions

variable {r : RedisSessionStore} {db db' : SessionDb} {v : StoreView} {c ip : GoString}
  {deadline : ℤ}

/-- No key but a connection's has a deadline. -/
def OnlyConnectionsTimed (r : RedisSessionStore) (db : SessionDb) : Prop :=
  ∀ key, db.expiry.lookup (r.key key) ≠ none → ∃ c, key = .conn c

/-- The client's session, with the address it was registered under and its deadline. -/
structure HasSession (r : RedisSessionStore) (c ip : GoString) (deadline : ℤ) (db : SessionDb)
    (v : StoreView) : Prop where
  address : (v.hashes (.conn c)).lookup (lit "ip") = some (.text ip)
  listed : c ∈ v.sets .conns
  expires : db.expiry.lookup (r.connKey c) = some deadline

theorem key_mapKey (cmd : StoreCmd) : (cmd.mapKey r.key).key = r.key cmd.key := by
  cases cmd <;> rfl

theorem OnlyConnectionsTimed.exec (h : OnlyConnectionsTimed r db) {cmd : StoreCmd}
    (hcmd : TimesConnections cmd) (hexec : db.exec (cmd.mapKey r.key) = .ok db') :
    OnlyConnectionsTimed r db' := by
  intro key hkey
  obtain heq | ⟨hname, hnone | ⟨deadline, hexpire⟩⟩ := Redis.expiry_exec hexec (r.key key)
  · exact h key (heq ▸ hkey)
  · exact absurd hnone hkey
  · rw [key_mapKey, r.key_inj] at hname
    subst hname
    cases cmd <;> simp [RedisCmd.mapKey] at hexpire
    exact hcmd

theorem SparesCmd.listed {cmd : StoreCmd} (h : SparesCmd c cmd) (hc : c ∈ v.sets .conns) :
    c ∈ (v.after cmd).sets .conns := by
  by_cases hkey : .conns = cmd.key
  · cases cmd with
    | hset | hdel | expire => exact hc
    | sadd key member =>
      obtain rfl : .conns = key := hkey
      simp [Redis.View.after, hc]
    | srem key member =>
      obtain rfl : .conns = key := hkey
      simp [Redis.View.after, hc, (h rfl).symm]
    | del key => exact absurd hkey.symm h.2
  · rwa [v.sets_after_of_ne hkey]

theorem SparesCmd.key_eq_conn {cmd : StoreCmd} (h : SparesCmd c cmd)
    (hfit : Redis.Fitting StoreKey.isHash cmd) (hkey : cmd.key = .conn c) :
    ∃ now, cmd = .hset (.conn c) [(lit "last_activity", RedisSessionStore.formatTime now)] := by
  cases cmd with
  | hset key fields =>
    obtain rfl : key = .conn c := hkey
    obtain ⟨now, rfl⟩ := h rfl
    exact ⟨now, rfl⟩
  | hdel key field => exact absurd hkey h
  | expire key deadline => exact absurd hkey h
  | sadd key member =>
    obtain rfl : key = .conn c := hkey
    cases hfit
  | srem key member =>
    obtain rfl : key = .conn c := hkey
    cases hfit
  | del key => exact absurd hkey h.1

theorem HasSession.exec (h : HasSession r c ip deadline db v) (hdb : r.Holds db v)
    {cmd : StoreCmd} (hfit : Redis.Fitting StoreKey.isHash cmd) (hcmd : SparesCmd c cmd)
    (hexec : db.exec (cmd.mapKey r.key) = .ok db') :
    HasSession r c ip deadline db' (v.after cmd) := by
  have hlisted := hcmd.listed h.listed
  by_cases hkey : cmd.key = .conn c
  · obtain ⟨now, rfl⟩ := hcmd.key_eq_conn hfit hkey
    have hip : lit "ip" ≠ lit "last_activity" := by decide
    refine ⟨?_, hlisted, ?_⟩
    · simpa [Redis.View.after, hip] using h.address
    · obtain rfl := Except.ok.inj ((Redis.exec_hset (hdb.hash (.conn c) rfl) _).symm.trans hexec)
      rw [Redis.expiry_putHash_of_nonempty ?_]
      · exact h.expires
      · intro hempty
        have hlookup := congrArg (Finmap.lookup (lit "last_activity")) hempty
        simp at hlookup
  · refine ⟨?_, hlisted, ?_⟩
    · rw [v.hashes_after_of_ne (Ne.symm hkey)]
      exact h.address
    · rw [Redis.expiry_exec_of_ne hexec]
      · exact h.expires
      · rw [key_mapKey]
        exact fun heq => hkey (r.key_injective heq).symm

/-- What a call keeps of the database. -/
theorem call_keeps {P : SessionDb → StoreView → Prop} {ord : RangeOrder GoString} {op : SessionOp}
    {result : SessionDb × Option SessionError} (happly : r.apply ord db op = some result)
    (hstep : ∀ cmd, CallCmd op cmd → ∀ db v db', r.Holds db v → P db v →
      db.exec (cmd.mapKey r.key) = .ok db' → P db' (v.after cmd))
    (hdb : r.Holds db v) (hP : P db v) : ∃ v', r.Holds result.1 v' ∧ P result.1 v' := by
  obtain ⟨cmds, hresult, hcmds⟩ := exists_pipe hdb happly
  rw [hresult]
  exact hdb.pipeline_keeps r.key_injective (fun cmd hcmd => (hcmds cmd hcmd).fitting)
    (fun cmd hcmd => hstep cmd (hcmds cmd hcmd)) hP

theorem OnlyConnectionsTimed.elapse (h : OnlyConnectionsTimed r db) (now : ℤ) :
    OnlyConnectionsTimed r (db.elapse now) := by
  intro key hkey
  rw [Redis.expiry_elapse] at hkey
  split_ifs at hkey
  · exact absurd rfl hkey
  · exact h key hkey

theorem connsKey_notMem_expiredKeys (h : OnlyConnectionsTimed r db) (now : ℤ) :
    r.connsKey ∉ db.expiredKeys now := by
  rw [Redis.mem_expiredKeys]
  rintro ⟨deadline, hdeadline, -⟩
  obtain ⟨c, hc⟩ := h .conns (by simp [hdeadline])
  cases hc

/-- Before its deadline a session outlives the expiry of other keys. -/
theorem HasSession.elapse (h : HasSession r c ip deadline db v) (htimed : OnlyConnectionsTimed r db)
    {now : ℤ} (hnow : now < deadline) :
    HasSession r c ip deadline (db.elapse now) (v.elapse r.key db now) := by
  have hconn : r.connKey c ∉ db.expiredKeys now := by
    rw [Redis.mem_expiredKeys]
    rintro ⟨other, hother, hle⟩
    obtain rfl := Option.some.inj (hother.symm.trans h.expires)
    exact absurd hle (not_le.mpr hnow)
  have hconns := connsKey_notMem_expiredKeys htimed now
  refine ⟨?_, ?_, ?_⟩
  · simpa [Redis.View.elapse, hconn] using h.address
  · simpa [Redis.View.elapse, hconns] using h.listed
  · simpa [hconn] using h.expires

/-- Registering a client gives it a session. -/
theorem hasSession_register (hTTL : 0 < r.connTTL) (hdb : r.Holds db v) (now : ℤ)
    (c ip : GoString) : ∃ v', r.Holds (r.runPipe db (r.registerPipe now c ip)).1 v' ∧
      HasSession r c ip (now + r.connTTL) (r.runPipe db (r.registerPipe now c ip)).1 v' := by
  have hip : lit "ip" ≠ lit "connected_at" ∧ lit "ip" ≠ lit "last_activity" := by decide
  let entries : List (GoString × SessionField) := [(lit "ip", .text ip),
    (lit "connected_at", RedisSessionStore.formatTime now),
    (lit "last_activity", RedisSessionStore.formatTime now)]
  obtain ⟨db₁, hexec₁, hdb₁⟩ := hdb.exec r.key_injective
    (show Redis.Fitting StoreKey.isHash (.hset (.conn c) entries) from rfl)
  have haddress : ((v.after (.hset (.conn c) entries)).hashes (.conn c)).lookup (lit "ip") =
      some (.text ip) := by
    simp [Redis.View.after, entries, hip]
  have hexec₂ := Redis.exec_expire (hdb₁.hash (.conn c) rfl)
    (fun hempty => by simp [hempty] at haddress) (now + r.connTTL)
  have hdb₂ : r.Holds { db₁ with expiry := db₁.expiry.insert (r.connKey c) (now + r.connTTL) } _ :=
    hdb₁.of_values_eq rfl
  obtain ⟨db₃, hexec₃, hdb₃⟩ := hdb₂.exec r.key_injective
    (show Redis.Fitting StoreKey.isHash (.sadd .conns c) from rfl)
  have hrun : (r.runPipe db (r.registerPipe now c ip)).1 = db₃ := by
    rw [RedisSessionStore.runPipe, RedisSessionStore.registerPipe, if_pos hTTL]
    change (db.pipeline [_, .expire (r.connKey c) _, _]).1 = db₃
    rw [Redis.pipeline_cons hexec₁, Redis.pipeline_cons hexec₂, Redis.pipeline_cons hexec₃]
    rfl
  rw [hrun]
  refine ⟨_, hdb₃, haddress, ?_, ?_⟩
  · simp [Redis.View.after]
  · rw [Redis.expiry_exec_of_ne hexec₃ (by simp [RedisCmd.mapKey])]
    exact Finmap.lookup_insert _

end Sessions

namespace TimedDb

variable {r : RedisSessionStore} {s s' : TimedDb} {c ip : GoString} {deadline : ℤ}

/-- What holds of the database at any time. -/
def Sound (r : RedisSessionStore) (s : TimedDb) : Prop :=
  OnlyConnectionsTimed r s.db ∧ ∃ v, r.Holds s.db v

/-- The client has a session, and its deadline is still to come. -/
def InSession (r : RedisSessionStore) (c ip : GoString) (deadline : ℤ) (s : TimedDb) : Prop :=
  OnlyConnectionsTimed r s.db ∧ ∃ v, r.Holds s.db v ∧ HasSession r c ip deadline s.db v

theorem start_sound (now : ℤ) : (start now).Sound r := by
  refine ⟨?_, _, r.holds_empty⟩
  intro key hkey
  exact absurd rfl hkey

theorem step_call {ord : RangeOrder GoString} {op : SessionOp}
    (h : s.step r (.call ord op) = some s') :
    ∃ result, r.apply ord s.db (op.atTime s.now) = some result ∧ s' = ⟨result.1, s.now⟩ := by
  obtain ⟨result, happly, hs'⟩ := Option.map_eq_some_iff.mp h
  exact ⟨result, happly, hs'.symm⟩

theorem step_advance {time : ℤ} (h : s.step r (.advance time) = some s') :
    s' = ⟨s.db.elapse time, time⟩ := by
  simp only [step] at h
  split_ifs at h
  exact (Option.some.inj h).symm

theorem sparesClient_atTime {now : ℤ} {op : SessionOp} (h : op.SparesClient c) :
    (op.atTime now).SparesClient c := by
  cases op <;> exact h

theorem Sound.step {a : TimedAction} (h : s.Sound r) (hstep : s.step r a = some s') :
    s'.Sound r := by
  obtain ⟨htimed, v, hdb⟩ := h
  cases a with
  | call ord op =>
    obtain ⟨result, happly, rfl⟩ := step_call hstep
    obtain ⟨v', hdb', htimed'⟩ := call_keeps (P := fun db _ => OnlyConnectionsTimed r db) happly
      (fun cmd hcmd _ _ _ _ h hexec => h.exec hcmd.times hexec) hdb htimed
    exact ⟨htimed', v', hdb'⟩
  | advance time =>
    obtain rfl := step_advance hstep
    exact ⟨htimed.elapse time, _, hdb.elapse time⟩

theorem InSession.call {ord : RangeOrder GoString} {op : SessionOp}
    (h : s.InSession r c ip deadline) (hop : op.SparesClient c)
    (hstep : s.step r (.call ord op) = some s') : s'.InSession r c ip deadline := by
  obtain ⟨htimed, v, hdb, hsession⟩ := h
  obtain ⟨result, happly, rfl⟩ := step_call hstep
  obtain ⟨v', hdb', htimed', hsession'⟩ := call_keeps
    (P := fun db v => OnlyConnectionsTimed r db ∧ HasSession r c ip deadline db v) happly
    (fun cmd hcmd _ _ _ hdb h hexec => ⟨h.1.exec hcmd.times hexec,
      h.2.exec hdb hcmd.fitting (hcmd.spares c (sparesClient_atTime hop)) hexec⟩)
    hdb ⟨htimed, hsession⟩
  exact ⟨htimed', v', hdb', hsession'⟩

theorem InSession.advance {time : ℤ} (h : s.InSession r c ip deadline) (htime : time < deadline)
    (hstep : s.step r (.advance time) = some s') : s'.InSession r c ip deadline := by
  obtain ⟨htimed, v, hdb, hsession⟩ := h
  obtain rfl := step_advance hstep
  exact ⟨htimed.elapse time, _, hdb.elapse time, hsession.elapse htimed htime⟩

theorem InSession.live (h : s.InSession r c ip deadline) : s.Live r c ip := by
  obtain ⟨-, v, hdb, hsession⟩ := h
  have hkeys : (v.hashes (.conn c)).keys ≠ ∅ := by
    rw [Ne, GoMap.keys_eq_empty_iff]
    intro hempty
    have haddress := hsession.address
    simp [hempty] at haddress
  constructor
  · rw [hdb.getConnection, RedisSessionStore.connectionOf, if_neg hkeys]
    simp [Except.map, RedisSessionStore.textField, hsession.address]
  · rw [RedisSessionStore.isConnected, hdb.set .conns rfl]
    simp [hsession.listed]

/-- When the deadline is reached the hash is gone. -/
theorem InSession.not_live {time : ℤ} (h : s.InSession r c ip deadline) (htime : deadline ≤ time)
    (hstep : s.step r (.advance time) = some s') : ¬ s'.Live r c ip := by
  obtain ⟨-, v, hdb, hsession⟩ := h
  obtain rfl := step_advance hstep
  have hexpired : r.connKey c ∈ s.db.expiredKeys time := by
    rw [Redis.mem_expiredKeys]
    exact ⟨deadline, hsession.expires, htime⟩
  have hgone : r.getConnection (s.db.elapse time) c = .ok none := by
    rw [RedisSessionStore.getConnection, Redis.hashAt_elapse, if_pos hexpired]
    rfl
  rintro ⟨hconn, -⟩
  rw [hgone] at hconn
  cases hconn

/-- A session is there at every moment from its registration on exactly when the time to live
has not elapsed since the registration, however often an activity is recorded. -/
theorem session_live_iff (hTTL : 0 < r.connTTL) {now₀ now : ℤ} {before later : List TimedAction}
    {ord : RangeOrder GoString} {t u : TimedDb}
    (hbefore : runFrom (step r) (start now₀) before = some s)
    (hregister : s.step r (.call ord (.registerConnection now c ip)) = some t)
    (hlater : ∀ a ∈ later, a.SparesClient c) (hrun : runFrom (step r) t later = some u) :
    Throughout (step r) (Live r c ip) t later ↔
      Along (step r) (fun _ a => a.EndsBefore (s.now + r.connTTL)) t later := by
  have hsound : s.Sound r := invariant_run (P := fun _ _ => True)
    (fun _ _ _ h _ hstep => h.step hstep) (start_sound now₀)
    (along_of_forall (fun _ _ => trivial) _) hbefore
  have hsession : t.InSession r c ip (s.now + r.connTTL) := by
    have hsound' := hsound.step hregister
    obtain ⟨-, v, hdb⟩ := hsound
    obtain rfl := Option.some.inj hregister
    exact ⟨hsound'.1, hasSession_register hTTL hdb s.now c ip⟩
  refine throughout_iff_along_of (I := InSession r c ip (s.now + r.connTTL))
    (H := fun _ a => a.SparesClient c) ?_ ?_ hsession hsession.live (along_of_forall hlater t) hrun
  · intro x a x' hx _ ha hstep
    cases a with
    | call ord op => exact iff_of_true (hx.call ha hstep).live trivial
    | advance time =>
      constructor
      · intro hlive
        exact not_le.mp fun hle => hx.not_live hle hstep hlive
      · intro htime
        exact (hx.advance htime hstep).live
  · intro x a x' hx _ ha hlive hstep
    cases a with
    | call ord op => exact hx.call ha hstep
    | advance time => exact hx.advance (not_le.mp fun hle => hx.not_live hle hstep hlive) hstep

/-- Six seconds after its registration, with a time to live of ten. -/
theorem session_live_iff_active : ∃ t,
    (start 0).step ⟨lit "fsos", 10000000000⟩ (.call (.sorted (· ≤ ·))
        (.registerConnection 0 (lit "bob") (lit "10.0.0.7"))) = some t ∧
      Throughout (step ⟨lit "fsos", 10000000000⟩)
        (Live ⟨lit "fsos", 10000000000⟩ (lit "bob") (lit "10.0.0.7")) t
        [.advance 6000000000, .call (.sorted (· ≤ ·)) (.updateLastActivity 0 (lit "bob"))] := by
  have hany : (runFrom (step ⟨lit "fsos", 10000000000⟩) (start 0)
      [.call (.sorted (· ≤ ·)) (.registerConnection 0 (lit "bob") (lit "10.0.0.7")),
        .advance 6000000000, .call (.sorted (· ≤ ·)) (.updateLastActivity 0 (lit "bob"))]).any
      (fun _ => true) = true := by decide +kernel
  obtain ⟨u, hrun, -⟩ := exists_run_of_any hany
  obtain ⟨t, hregister, hlater⟩ := runFrom_cons hrun
  have hstart : runFrom (step ⟨lit "fsos", 10000000000⟩) (start 0) [] = some (start 0) := rfl
  refine ⟨t, hregister, (session_live_iff (by decide) hstart hregister ?_ hlater).mpr ?_⟩
  · simp [TimedAction.SparesClient, SessionOp.SparesClient]
  · refine along_of_forall (P := TimedAction.EndsBefore ((start 0).now + 10000000000)) ?_ t
    simp [TimedAction.EndsBefore, start]

/-- A session with a time to live of ten seconds, used every six: after twelve seconds
`GetConnection` no longer finds the client that `IsConnected` reports, and the next activity
brings back a connection without an address. -/
theorem active_session_expires :
    (runFrom (step ⟨lit "fsos", 10000000000⟩) (start 0)
        [.call (.sorted (· ≤ ·)) (.registerConnection 0 (lit "bob") (lit "10.0.0.7")),
          .advance 6000000000, .call (.sorted (· ≤ ·)) (.updateLastActivity 0 (lit "bob")),
          .advance 12000000000]).map (fun s =>
        ((RedisSessionStore.getConnection ⟨lit "fsos", 10000000000⟩ s.db (lit "bob")).toOption,
          (RedisSessionStore.isConnected ⟨lit "fsos", 10000000000⟩ s.db (lit "bob")).toOption)) =
      some (some none, some true) ∧
    (runFrom (step ⟨lit "fsos", 10000000000⟩) (start 0)
        [.call (.sorted (· ≤ ·)) (.registerConnection 0 (lit "bob") (lit "10.0.0.7")),
          .advance 6000000000, .call (.sorted (· ≤ ·)) (.updateLastActivity 0 (lit "bob")),
          .advance 12000000000, .call (.sorted (· ≤ ·)) (.updateLastActivity 0 (lit "bob"))]).map
        (fun s => ((RedisSessionStore.getConnection ⟨lit "fsos", 10000000000⟩ s.db
            (lit "bob")).toOption.map (·.map ConnectionInfo.ip))) =
      some (some (some [])) := by
  decide +kernel

end TimedDb

end Musgos.Outbound
