import Musgos.Foundation.GoMap

/-!
# Leases in a key-value server

A lease is a key that holds its owner's token until a deadline. It is taken by a write
that fails if the key is there, and given back or prolonged by an atomic script that
first compares the token.
-/
namespace Musgos.Foundation

/-- The token and the deadline under each key. -/
abbrev Leases (K T : Type) := GoMap K (T × ℤ)

namespace Leases

variable {K T : Type} [DecidableEq K] (db : Leases K T) (key : K) (token : T) (deadline : ℤ)

/-- `SET key token NX PX`, and whether the key was set. -/
def setNX : Bool × Leases K T :=
  match db.lookup key with
  | some _ => (false, db)
  | none => (true, db.insert key (token, deadline))

def expiredKeys (now : ℤ) (db : Leases K T) : Finset K :=
  db.keys.filter fun k => (db.lookup k).any fun lease => lease.2 ≤ now

/-- What is left when the clock has reached `now`. -/
def elapse (now : ℤ) (db : Leases K T) : Leases K T :=
  GoMap.alterAll (fun _ => none) db (db.expiredKeys now)

section

variable {db key token deadline} {k : K} {owner : T} {d : ℤ}

theorem lookup_setNX (h : db.lookup k = some (owner, d)) :
    (db.setNX key token deadline).2.lookup k = some (owner, d) := by
  unfold setNX
  cases hkey : db.lookup key with
  | some lease => exact h
  | none =>
    have hne : k ≠ key := by
      rintro rfl
      rw [h] at hkey
      cases hkey
    simpa [hne] using h

theorem lookup_elapse {now : ℤ} (h : db.lookup k = some (owner, d)) (hnow : now < d) :
    (db.elapse now).lookup k = some (owner, d) := by
  have hk : k ∉ db.expiredKeys now := by simp [expiredKeys, h, hnow]
  simpa [elapse, hk] using h

end

variable [DecidableEq T]

/-- The key holds the token. -/
def ownedBy : Bool := (db.lookup key).any fun lease => lease.1 = token

/-- `DEL` if the token is there. -/
def release : Bool × Leases K T :=
  if db.ownedBy key token then (true, db.erase key) else (false, db)

/-- `PEXPIRE` if the token is there. -/
def renew : Bool × Leases K T :=
  if db.ownedBy key token then (true, db.insert key (token, deadline)) else (false, db)

variable {db key token deadline} {k : K} {owner : T} {d : ℤ}

theorem ne_of_ownedBy (h : db.lookup k = some (owner, d)) (howner : owner ≠ token)
    (howned : db.ownedBy key token = true) : k ≠ key := by
  rintro rfl
  simp [ownedBy, h, howner] at howned

theorem lookup_release (h : db.lookup k = some (owner, d)) (howner : owner ≠ token) :
    (db.release key token).2.lookup k = some (owner, d) := by
  unfold release
  split_ifs with howned
  · simpa [ne_of_ownedBy h howner howned] using h
  · exact h

theorem lookup_renew (h : db.lookup k = some (owner, d)) (howner : owner ≠ token) :
    (db.renew key token deadline).2.lookup k = some (owner, d) := by
  unfold renew
  split_ifs with howned
  · simpa [ne_of_ownedBy h howner howned] using h
  · exact h

end Leases

end Musgos.Foundation
