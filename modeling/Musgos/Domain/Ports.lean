import Musgos.Lingo.Value

/-!
# The ports of the domain

The interfaces `SessionStore`, `DBAdapter`, `TokenStore`, `ConnectionWriter` and
`ScriptEngine` as records of functions over an adapter's own state. A read returns a value or an
error and leaves the state alone; a write returns the new state and whether it failed. Results
about the services hold for every adapter unless they name one.
-/
namespace Musgos.Domain

open Foundation Lingo

/-- The errors a port can return, as far as a caller tells them apart. -/
inductive PortError where
  | userNotFound
  | banNotFound
  | other
  deriving DecidableEq

abbrev Read (σ α : Type) := σ → Except PortError α

abbrev Write (σ : Type) := σ → Except PortError Unit × σ

/-- What the session store keeps of a connection. -/
structure ConnectionInfo where
  clientID : GoString
  ip : GoString
  connectedAt : ℤ
  lastActivityAt : ℤ
  deriving DecidableEq

/-- `ports.SessionStore`, without the calls no modelled code makes. The first
argument of `registerConnection` is the clock. -/
structure SessionStore (σ : Type) where
  registerConnection : ℤ → GoString → GoString → Write σ
  unregisterConnection : GoString → Write σ
  getConnection : GoString → Read σ (Option ConnectionInfo)
  getAllConnections : Read σ (List ConnectionInfo)
  setUserAttribute : GoString → GoString → LValue → Write σ
  getUserAttribute : GoString → GoString → Read σ LValue
  joinRoom : GoString → GoString → Write σ
  leaveRoom : GoString → GoString → Write σ
  getRoomMembers : GoString → Read σ (List GoString)
  getClientRooms : GoString → Read σ (List GoString)
  leaveAllRooms : GoString → Write σ

/-- The fields of `ports.User` that the services read. -/
structure User where
  id : ℤ
  passwordHash : GoString
  userLevel : ℤ
  deriving DecidableEq

/-- The field of `ports.Ban` that the services read. -/
structure Ban where
  id : ℤ
  deriving DecidableEq

/-- `ports.DBAdapter`, without the calls no modelled code makes. A ban lookup can
answer with a nil ban and no error. -/
structure DBAdapter (δ : Type) where
  createApplication : GoString → Write δ
  deleteApplication : GoString → Write δ
  setApplicationAttribute : GoString → GoString → LValue → Write δ
  getApplicationAttribute : GoString → GoString → Read δ LValue
  getApplicationAttributeNames : GoString → Read δ (List GoString)
  deleteApplicationAttribute : GoString → GoString → Write δ
  setPlayerAttribute : GoString → GoString → GoString → LValue → Write δ
  getPlayerAttribute : GoString → GoString → GoString → Read δ LValue
  getPlayerAttributeNames : GoString → GoString → Read δ (List GoString)
  deletePlayerAttribute : GoString → GoString → GoString → Write δ
  createUser : GoString → GoString → ℤ → Write δ
  getUser : GoString → Read δ User
  deleteUser : GoString → Write δ
  /-- `CreateBan(&userID, nil, reason, nil)`: a ban of a user that never expires. -/
  createBan : ℤ → GoString → Write δ
  getActiveBanByUserID : ℤ → Read δ (Option Ban)
  revokeBan : ℤ → Write δ

/-- The identity a login token stands for. -/
structure TokenPayload where
  characterName : GoString
  userLevel : ℤ
  accountID : ℤ
  deriving DecidableEq

/-- `ports.TokenStore`; validating consumes the token. -/
structure TokenStore (τ : Type) where
  validate : GoString → τ → Option TokenPayload × τ

/-- `ports.ConnectionWriter`; a remap reports whether it was made. -/
structure ConnectionWriter (π : Type) where
  writeToClient : GoString → List UInt8 → Write π
  remapClientID : GoString → GoString → π → π × Bool
  disconnectClient : GoString → Write π

/-- A mail as `SendEmail` gets it. -/
structure EmailMessage where
  sender : GoString
  recipient : GoString
  subject : GoString
  smtpHost : GoString
  body : GoString
  deriving DecidableEq

/-- A message that a server script is run on. -/
structure ScriptMessage where
  subject : GoString
  senderID : GoString
  content : LValue

/-- `ports.ScriptEngine`. A script may touch everything the server holds, and its
result may carry no content. -/
structure ScriptEngine (ω : Type) where
  hasScript : GoString → ω → Bool
  execute : ScriptMessage → ω → Except PortError (Option LValue) × ω

/-- The two directions of a cipher, each on a whole message. -/
structure Cipher where
  encrypt : List UInt8 → List UInt8
  decrypt : List UInt8 → List UInt8

end Musgos.Domain
