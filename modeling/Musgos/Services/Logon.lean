import Musgos.Services.Session

/-!
# Logon

`LogonService.Logon`: the policy of the four authentication modes, and after it
`establishSession`. Passwords are compared by bcrypt, which is a parameter.
-/
namespace Musgos.Services

open Foundation Domain

/-- The configured mode; every unknown one means `openMode`. -/
inductive AuthMode where
  | none
  | openMode
  | strict
  | token
  deriving DecidableEq

/-- What a logon message says. -/
structure LogonCredentials where
  movieID : GoString
  userID : GoString
  password : GoString
  deriving DecidableEq

/-- The credentials are absent when the message did not have any. -/
structure LogonRequest where
  connectionID : GoString
  senderID : GoString
  credentials : Option LogonCredentials
  deriving DecidableEq

/-- The state behind the ports that the services share. -/
structure Backend (π σ δ τ : Type) where
  conns : π
  sessions : σ
  db : δ
  tokens : τ

/-- The ports and settings of the service. -/
structure LogonService (π σ δ τ : Type) where
  db : DBAdapter δ
  sessions : SessionStore σ
  connWriter : Option (ConnectionWriter π)
  mode : AuthMode
  defaultLevel : ℤ
  tokens : Option (TokenStore τ)
  /-- `bcrypt.CompareHashAndPassword`, true when it returns no error. -/
  compareHash : GoString → GoString → Bool

namespace LogonService

variable {π σ δ τ : Type} (s : LogonService π σ δ τ)

/-- A failed ban lookup counts as no ban. -/
def validateCredentials (db : δ) (user : User) (password : GoString) : LogonCode :=
  if !s.compareHash user.passwordHash password then .invalidPassword
  else
    match s.db.getActiveBanByUserID user.id db with
    | .ok (some _) => .refused
    | _ => .ok

/-- The mode's decision: the identity and level to log on with, or a refusal. Only the
token mode changes anything, by consuming the token. -/
def authenticate (userID password : GoString) (b : Backend π σ δ τ) :
    Except LogonCode (GoString × ℤ) × Backend π σ δ τ :=
  match s.mode with
  | .none => (.ok (userID, s.defaultLevel), b)
  | .token =>
    match s.tokens with
    | none => (.error .internalError, b)
    | some tokens =>
      let r := tokens.validate password b.tokens
      match r.1 with
      | none => (.error .invalidPassword, { b with tokens := r.2 })
      | some payload => (.ok (payload.characterName, payload.userLevel), { b with tokens := r.2 })
  | .strict =>
    match s.db.getUser userID b.db with
    | .error _ => (.error .invalidUser, b)
    | .ok user =>
      match s.validateCredentials b.db user password with
      | .ok => (.ok (userID, user.userLevel), b)
      | code => (.error code, b)
  | .openMode =>
    match s.db.getUser userID b.db with
    | .error .userNotFound => (.ok (userID, s.defaultLevel), b)
    | .error _ => (.error .internalError, b)
    | .ok user =>
      match s.validateCredentials b.db user password with
      | .ok => (.ok (userID, user.userLevel), b)
      | code => (.error code, b)

/-- Without credentials the strict and token modes refuse; the others take the sender
of the message for the user. -/
def requested (req : LogonRequest) : Option LogonCredentials :=
  match req.credentials with
  | some credentials => some credentials
  | none => if s.mode = .strict ∨ s.mode = .token then none else some ⟨[], req.senderID, []⟩

def logon (now : ℤ) (req : LogonRequest) (b : Backend π σ δ τ) : LogonResult × Backend π σ δ τ :=
  match s.requested req with
  | none => (.failed .badCredentialsFormat req.senderID, b)
  | some credentials =>
    let r := s.authenticate credentials.userID credentials.password b
    match r.1 with
    | .error code => (.failed code credentials.userID, r.2)
    | .ok (userID, level) =>
      let e := establishSession s.sessions s.connWriter now req.connectionID userID
        credentials.movieID level r.2.conns r.2.sessions
      (e.1, { r.2 with conns := e.2.1, sessions := e.2.2 })

@[simp] theorem authenticate_sessions (userID password : GoString) (b : Backend π σ δ τ) :
    (s.authenticate userID password b).2.sessions = b.sessions := by
  simp only [authenticate]
  repeat' split
  all_goals rfl

@[simp] theorem authenticate_conns (userID password : GoString) (b : Backend π σ δ τ) :
    (s.authenticate userID password b).2.conns = b.conns := by
  simp only [authenticate]
  repeat' split
  all_goals rfl

theorem authenticate_ne_ok {userID password : GoString} {b : Backend π σ δ τ} {code : LogonCode}
    (h : (s.authenticate userID password b).1 = .error code) : code ≠ .ok := by
  simp only [authenticate] at h
  repeat' split at h
  all_goals cases h
  all_goals first | decide | assumption

/-- Everything a logon can do. A refused one leaves the sessions alone, and the pool too up
to a remap that was itself refused; an accepted one has passed the mode's decision, the
guard and the remap, and has made its three writes. -/
theorem logon_cases (now : ℤ) (req : LogonRequest) (b : Backend π σ δ τ) :
    let r := s.logon now req b
    (r.1.code ≠ .ok ∧ r.2.sessions = b.sessions ∧
      (r.2.conns = b.conns ∨
        ∃ userID, remapConnection s.connWriter req.connectionID userID b.conns =
          (r.2.conns, false))) ∨
    (r.1.code = .ok ∧
      (∃ credentials, s.requested req = some credentials ∧ r.1.movieID = credentials.movieID ∧
        (s.authenticate credentials.userID credentials.password b).1 =
          .ok (r.1.userID, r.1.userLevel)) ∧
      guardRefuses s.sessions b.sessions req.connectionID r.1.userID = false ∧
      remapConnection s.connWriter req.connectionID r.1.userID b.conns = (r.2.conns, true) ∧
      r.2.sessions = stampLevel s.sessions r.1.userID r.1.userLevel
        (s.sessions.registerConnection now r.1.userID
          (preservedIP s.sessions b.sessions req.connectionID)
          (s.sessions.unregisterConnection req.connectionID b.sessions).2).2) := by
  intro r
  have hr : r = s.logon now req b := rfl
  unfold logon at hr
  cases hrequested : s.requested req with
  | none =>
    rw [hrequested] at hr
    exact .inl (by simp [hr, LogonResult.failed])
  | some credentials =>
    simp only [hrequested] at hr
    split at hr
    · rename_i code hcode
      exact .inl (by simp [hr, LogonResult.failed, s.authenticate_ne_ok hcode])
    · rename_i userID level hauth
      simp only [establishSession, authenticate_sessions, authenticate_conns] at hr
      split_ifs at hr with hguard hremap
      · exact .inl (by simp [hr, LogonResult.failed])
      · refine .inl ⟨by simp [hr, LogonResult.failed], by simp [hr], .inr ⟨userID, ?_⟩⟩
        simp only [hr]
        exact Prod.ext rfl (by simpa using hremap)
      · rw [hr]
        refine .inr ⟨rfl, ⟨credentials, rfl, rfl, hauth⟩, by simpa using hguard, ?_, rfl⟩
        exact Prod.ext rfl (by simpa using hremap)

/-- A logon is accepted exactly when its mode, the guard and the remap let it through. -/
theorem logon_ok_iff (now : ℤ) (req : LogonRequest) (b : Backend π σ δ τ) :
    (s.logon now req b).1.code = .ok ↔
      ∃ credentials userID level, s.requested req = some credentials ∧
        (s.authenticate credentials.userID credentials.password b).1 = .ok (userID, level) ∧
        guardRefuses s.sessions b.sessions req.connectionID userID = false ∧
        (remapConnection s.connWriter req.connectionID userID b.conns).2 = true := by
  constructor
  · intro hok
    obtain ⟨hcode, -⟩ | ⟨-, ⟨credentials, hreq, -, hauth⟩, hguard, hremap, -⟩ :=
      s.logon_cases now req b
    · exact absurd hok hcode
    · exact ⟨credentials, _, _, hreq, hauth, hguard, by rw [hremap]⟩
  · rintro ⟨credentials, userID, level, hreq, hauth, hguard, hremap⟩
    simp [logon, hreq, hauth, establishSession, hguard, hremap]

/-- What an accepted logon does to the sessions: that of the connection goes and that of
the user, which had none or is the connection's own, is opened in its place. -/
def Opens (now : ℤ) (req : LogonRequest) (before : σ) (res : LogonResult) (after : σ) : Prop :=
  guardRefuses s.sessions before req.connectionID res.userID = false ∧
    (∃ credentials, s.requested req = some credentials ∧ res.movieID = credentials.movieID) ∧
    ∃ ip, after = stampLevel s.sessions res.userID res.userLevel
      (s.sessions.registerConnection now res.userID ip
        (s.sessions.unregisterConnection req.connectionID before).2).2

/-- A logon is refused and leaves the sessions alone, or it is accepted and opens one. -/
theorem logon_outcome (now : ℤ) (req : LogonRequest) (b : Backend π σ δ τ) :
    let r := s.logon now req b
    (r.1.code ≠ .ok ∧ r.2.sessions = b.sessions) ∨
      (r.1.code = .ok ∧ s.Opens now req b.sessions r.1 r.2.sessions) := by
  obtain ⟨hcode, hsame, -⟩ | ⟨hcode, ⟨credentials, hreq, hmovie, -⟩, hguard, -, hsessions⟩ :=
    s.logon_cases now req b
  · exact .inl ⟨hcode, hsame⟩
  · exact .inr ⟨hcode, hguard, ⟨credentials, hreq, hmovie⟩, _, hsessions⟩

end LogonService

end Musgos.Services
