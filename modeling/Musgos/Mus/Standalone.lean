import Musgos.Mus.World
import Musgos.Outbound.SessionStore

/-!
# A server of its own

The smallest configuration of the services: the in-memory session store, no
database, tokens, scripts, mail or cipher, every logon accepted, and connections that
take whatever is written to them. Runs on concrete messages are evaluated in it.
-/
namespace Musgos.Mus

open Foundation Lingo Domain Services Smus Outbound

/-- Every call fails. -/
def noDatabase : DBAdapter Unit where
  createApplication _ s := (.error .other, s)
  deleteApplication _ s := (.error .other, s)
  setApplicationAttribute _ _ _ s := (.error .other, s)
  getApplicationAttribute _ _ _ := .error .other
  getApplicationAttributeNames _ _ := .error .other
  deleteApplicationAttribute _ _ s := (.error .other, s)
  setPlayerAttribute _ _ _ _ s := (.error .other, s)
  getPlayerAttribute _ _ _ _ := .error .other
  getPlayerAttributeNames _ _ _ := .error .other
  deletePlayerAttribute _ _ _ s := (.error .other, s)
  createUser _ _ _ s := (.error .other, s)
  getUser _ _ := .error .userNotFound
  deleteUser _ s := (.error .other, s)
  createBan _ _ s := (.error .other, s)
  getActiveBanByUserID _ _ := .error .banNotFound
  revokeBan _ s := (.error .other, s)

/-- Every write succeeds, and every name is free. -/
def openLine : ConnectionWriter Unit where
  writeToClient _ _ p := (.ok (), p)
  remapClientID _ _ p := (p, true)
  disconnectClient _ p := (.ok (), p)

abbrev Local := World Unit MemorySessionStore Unit Unit

def standalone (commandLevels : GoMap GoString ℤ) : Context Unit MemorySessionStore Unit Unit where
  db := noDatabase
  sessions := MemorySessionStore.port (.sorted (· ≤ ·))
  connWriter := some openLine
  mode := .none
  defaultLevel := 20
  tokens := none
  compareHash _ _ := false
  commandLevels := commandLevels
  emailSender := none
  hasTimerManager := false
  scriptEngine := none
  cipher := none
  allEncrypted := false
  defaultMovieID := []
  generateHash _ := none
  order := .sorted (· ≤ ·)

/-- Nobody is connected and no movie exists. -/
def Local.empty : Local where
  conns := ()
  sessions := .new
  db := ()
  tokens := ()
  movies := ∅
  serverTimer := none
  userTimers := ∅
  offered := []
  mails := []
  scripts := []

/-- A command as a client sends it. -/
def commandMessage (subject : GoString) (content : LValue) : MUSMessage :=
  newResponse 0 subject [] [lit "System"] errNoError content

end Musgos.Mus
