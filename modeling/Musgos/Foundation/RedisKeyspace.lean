import Musgos.Foundation.GoMap

/-!
# Strings and sets in a Redis server

The commands on strings and sets with their documented meaning, for keys that do not
expire. All keys are in one space: a key holds a string or a set, a command for the
other kind fails and changes nothing, and only `SET` and `DEL` do not look at the
kind. A set that becomes empty is removed with its key. How the server reads and
writes the numbers of `INCR` is a parameter.
-/
namespace Musgos.Foundation

/-- What a key can hold: a string or a set. -/
inductive StringOrSet (N : Type) where
  | string (text : List UInt8)
  | set (members : Finset N)

/-- Why the server refuses a command on a key. -/
inductive KeyspaceError where
  | wrongType
  | notAnInteger
  | overflow
  deriving DecidableEq

abbrev Keyspace (K N : Type) := GoMap K (StringOrSet N)

namespace Keyspace

variable {K N : Type} [DecidableEq K] [DecidableEq N] (db : Keyspace K N) (key : K)

def get : Except KeyspaceError (Option (List UInt8)) :=
  match db.lookup key with
  | none => .ok none
  | some (.string text) => .ok (some text)
  | some (.set _) => .error .wrongType

def set (text : List UInt8) : Keyspace K N := db.insert key (.string text)

def del : Keyspace K N := db.erase key

def keyExists : Bool := (db.lookup key).isSome

/-- The largest signed 64-bit integer. -/
def maxInteger : ℤ := 2 ^ 63 - 1

/-- `INCR`: an absent key counts as zero. -/
def incr (read : List UInt8 → Option ℤ) (write : ℤ → List UInt8) :
    Except KeyspaceError ℤ × Keyspace K N :=
  match db.lookup key with
  | none => (.ok 1, db.insert key (.string (write 1)))
  | some (.set _) => (.error .wrongType, db)
  | some (.string text) =>
    match read text with
    | none => (.error .notAnInteger, db)
    | some n =>
      if n = maxInteger then (.error .overflow, db)
      else (.ok (n + 1), db.insert key (.string (write (n + 1))))

/-- `SMEMBERS`; an absent key is an empty set. -/
def smembers : Except KeyspaceError (Finset N) :=
  match db.lookup key with
  | none => .ok ∅
  | some (.set members) => .ok members
  | some (.string _) => .error .wrongType

def sismember (member : N) : Except KeyspaceError Bool :=
  (db.smembers key).map fun members => member ∈ members

/-- `SADD`; the answer is whether the member is new. -/
def sadd (member : N) : Except KeyspaceError Bool × Keyspace K N :=
  match db.smembers key with
  | .error e => (.error e, db)
  | .ok members =>
    (.ok (member ∉ members), db.insert key (.set (insert member members)))

def srem (member : N) : Except KeyspaceError Unit × Keyspace K N :=
  match db.smembers key with
  | .error e => (.error e, db)
  | .ok members =>
    (.ok (), if members.erase member = ∅ then db.erase key
      else db.insert key (.set (members.erase member)))

end Keyspace

end Musgos.Foundation
