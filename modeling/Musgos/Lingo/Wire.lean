import Musgos.Lingo.Value

/-!
# The wire codec of Lingo values

`GetBytes`, `ExtractFromBytes` and `FromRawBytes` of the fifteen value types.
`ExtractFromBytes` mutates its receiver, so it maps the old object to the new
one together with the number of bytes it reports. Containers decode each child
with `FromRawBytes` and then call `ExtractFromBytes` on the same object again to
learn its size; `childBy` is that pair of calls.

`none` is a run-time panic: a slice read out of range or a method call on a nil
value. The nesting depth is bounded by an explicit `fuel`; running out of it is
also `none`, and `WireTotal` shows that neither happens.
-/
namespace Musgos.Lingo

open Foundation

namespace LValue

section Encode

/-- The type header in front of every encoding. -/
def header (code : ℕ) : List UInt8 := beBytes 2 code

/-- Symbols and strings: byte length, the bytes, and a zero byte after an odd length. -/
def textBytes (s : GoString) : List UInt8 :=
  beBytes 4 s.length ++ s ++ List.replicate (s.length % 2) 0

/-- `buffer.Write` of each property followed by its value. -/
def pairBytes (ps vs : List (Option (List UInt8))) : Option (List UInt8) :=
  (pairUp ps vs).map fun pairs => pairs.flatMap fun e => e.1 ++ e.2

theorem pairBytes_cons (x y : List UInt8) (ps vs : List (Option (List UInt8))) :
    pairBytes (some x :: ps) (some y :: vs) = (pairBytes ps vs).map (x ++ y ++ ·) := by
  cases h : pairUp ps vs <;> simp [pairBytes, pairUp, h]

/-- Appending the encodings of a slice, in order. -/
def concatBytes : List (Option (List UInt8)) → Option (List UInt8)
  | [] => some []
  | x :: xs => do
    let b ← x
    let rest ← concatBytes xs
    return b ++ rest

mutual

def getBytes : LValue → Option (List UInt8)
  | .nil => none
  | .void => some (header vtVoid)
  | .integer n => some (header vtInteger ++ beBytes 4 n.toUInt32.toNat)
  | .symbol s => some (header vtSymbol ++ textBytes s)
  | .string s => some (header vtString ++ textBytes s)
  | .picture d => some (header vtPicture ++ (beBytes 4 d.length ++ d))
  | .float bits => some (header vtFloat ++ beBytes 8 bits.toNat)
  | .list vs => do
    let body ← concatBytes (getBytesEach vs)
    return header vtList ++ (beBytes 4 vs.length ++ body)
  | .point h v => do
    let hBytes ← getBytes h
    let vBytes ← getBytes v
    return header vtPoint ++ (hBytes ++ vBytes)
  | .rect l t r b => do
    let lBytes ← getBytes l
    let tBytes ← getBytes t
    let rBytes ← getBytes r
    let bBytes ← getBytes b
    return header vtRect ++ (lBytes ++ (tBytes ++ (rBytes ++ bBytes)))
  | .propList ps vs => do
    let body ← pairBytes (getBytesEach ps) (getBytesEach vs)
    return header vtPropList ++ (beBytes 4 ps.length ++ body)
  | .color r g b => some (header vtColor ++ [r, g, b, 0])
  | .date d => some (header vtDate ++ d.toList)
  | .media _ => some []
  | .vector3d x y z =>
    some (header vt3dVector ++ (beBytes 4 x.toNat ++ (beBytes 4 y.toNat ++ beBytes 4 z.toNat)))
  | .transform3d m => some (header vt3dTransform ++ m.toList.flatMap fun f => beBytes 4 f.toNat)

def getBytesEach : List LValue → List (Option (List UInt8))
  | [] => []
  | v :: vs => getBytes v :: getBytesEach vs

end

theorem getBytesEach_eq_map (vs : List LValue) : getBytesEach vs = vs.map getBytes := by
  induction vs with
  | nil => simp [getBytesEach]
  | cons v vs ih => simp [getBytesEach, ih]

theorem getBytes_point (h v : LValue) :
    getBytes (.point h v) =
      (concatBytes ([h, v].map getBytes)).map (header vtPoint ++ ·) := by
  cases hh : getBytes h <;> cases hv : getBytes v <;> simp [getBytes, concatBytes, hh, hv]

theorem getBytes_rect (l t r b : LValue) :
    getBytes (.rect l t r b) =
      (concatBytes ([l, t, r, b].map getBytes)).map (header vtRect ++ ·) := by
  cases hl : getBytes l <;> cases ht : getBytes t <;> cases hr : getBytes r <;>
    cases hb : getBytes b <;> simp [getBytes, concatBytes, hl, ht, hr, hb]

theorem concatBytes_isSome {vs : List LValue} (h : ∀ v ∈ vs, v.getBytes.isSome) :
    (concatBytes (vs.map getBytes)).isSome := by
  induction vs with
  | nil => rfl
  | cons v vs ih =>
    obtain ⟨enc, henc⟩ := Option.isSome_iff_exists.mp (h v (by simp))
    obtain ⟨rest, hrest⟩ := Option.isSome_iff_exists.mp (ih fun c hc => h c (by simp [hc]))
    simp [concatBytes, henc, hrest]

theorem concatBytes_append (xs ys : List (Option (List UInt8))) :
    concatBytes (xs ++ ys) = (do return (← concatBytes xs) ++ (← concatBytes ys)) := by
  induction xs with
  | nil => cases h : concatBytes ys <;> simp [concatBytes, h]
  | cons x xs ih =>
    cases x with
    | none => rfl
    | some x =>
      simp only [List.cons_append, concatBytes, ih]
      cases concatBytes xs <;> cases concatBytes ys <;> simp

/-- A well-formed value has an encoding. -/
theorem getBytes_isSome {v : LValue} (h : v.WellFormed) : v.getBytes.isSome := by
  induction v using childInduction with
  | node v ih =>
    replace ih : ∀ c ∈ v.children, c.getBytes.isSome := fun c hc => ih c hc (h.child hc)
    cases v
    case nil => exact absurd h not_wellFormed_nil
    case point => rw [getBytes_point, Option.isSome_map]; exact concatBytes_isSome ih
    case rect => rw [getBytes_rect, Option.isSome_map]; exact concatBytes_isSome ih
    case list vs =>
      obtain ⟨body, hbody⟩ := Option.isSome_iff_exists.mp (concatBytes_isSome ih)
      simp only [children] at hbody
      simp [getBytes, getBytesEach_eq_map, hbody]
    case propList ps vs =>
      obtain ⟨pairs, hpairs⟩ := Option.isSome_iff_exists.mp
        (pairUp_isSome ((wellFormed_propList ps vs).mp h).1
          (fun c hc => ih c (by simp [children, hc])) fun c hc => ih c (by simp [children, hc]))
      simp [getBytes, getBytesEach_eq_map, pairBytes, hpairs]
    all_goals simp [getBytes]

end Encode

section Decode

variable (ext : LValue → ℕ → Option (LValue × ℕ)) (b : List UInt8)

/-- `FromRawBytes`, with the recursive `ExtractFromBytes` as a parameter. -/
def fromRawBytesBy (offset : ℕ) : Option LValue :=
  if b.length < offset + 2 then some .void
  else do
    let code ← uintAt 2 b offset
    let r ← ext (blank code) (offset + 2)
    return r.1

/-- How a container reads one child: `FromRawBytes`, and then a second
`ExtractFromBytes` on the decoded object for its size. -/
def childBy (offset : ℕ) : Option (LValue × ℕ) := do
  let elem ← fromRawBytesBy ext b offset
  ext elem (offset + 2)

/-- Length-prefixed bytes. The inner `none` is the early `return 0`, which
leaves the receiver as it was. -/
def countedBytes (offset : ℕ) : Option (Option (List UInt8)) :=
  if b.length < offset + 4 then some none
  else do
    let length ← uintAt 4 b offset
    if b.length < offset + 4 + length then return none
    let data ← slice b (offset + 4) length
    return some data

/-- The components of a point or a rect, one after the other. A missing header
stops the loop, keeps the remaining components and reports no size. -/
def fieldLoop (offset : ℕ) : ℕ → List LValue → Option (List LValue × Option ℕ)
  | consumed, [] => some ([], some consumed)
  | consumed, old :: olds =>
    if b.length < offset + consumed + 2 then some (old :: olds, none)
    else do
      let r ← childBy ext b (offset + consumed)
      let rest ← fieldLoop offset (consumed + (2 + r.2)) olds
      return (r.1 :: rest.1, rest.2)

/-- The element loop of a list, returning the elements and the final offset. -/
def listLoop : ℕ → ℕ → Option (List LValue × ℕ)
  | 0, current => some ([], current)
  | count + 1, current => do
    let r ← childBy ext b current
    let rest ← listLoop count (current + (2 + r.2))
    return (r.1 :: rest.1, rest.2)

/-- The pair loop of a property list, returning the pairs it commits and the
final chunk size. A property whose value is cut off is dropped. -/
def pairLoop (offset : ℕ) : ℕ → ℕ → Option (List (LValue × LValue) × ℕ)
  | 0, chunk => some ([], chunk)
  | remaining + 1, chunk =>
    if b.length < offset + chunk + 2 then some ([], chunk)
    else do
      let p ← childBy ext b (offset + chunk)
      let next := chunk + 2 + p.2
      if b.length < offset + next + 2 then return ([], chunk)
      let v ← childBy ext b (offset + next)
      let rest ← pairLoop offset remaining (next + 2 + v.2)
      return ((p.1, v.1) :: rest.1, rest.2)

/-- `ExtractFromBytes` of every type, with the recursive calls as a parameter. -/
def extractBy (obj : LValue) (offset : ℕ) : Option (LValue × ℕ) :=
  match obj with
  | .nil => none
  | .void => some (.void, 0)
  | .media d => some (.media d, 0)
  | .integer n =>
    if b.length < offset + 4 then some (.integer n, 0)
    else do
      let u ← uintAt 4 b offset
      return (.integer (UInt32.ofNat u).toInt32, 4)
  | .symbol s => do
    match ← countedBytes b offset with
    | none => return (.symbol s, 0)
    | some d => return (.symbol d, 4 + d.length + d.length % 2)
  | .string s => do
    match ← countedBytes b offset with
    | none => return (.string s, 0)
    | some d => return (.string d, 4 + d.length + d.length % 2)
  | .picture s => do
    match ← countedBytes b offset with
    | none => return (.picture s, 0)
    | some d => return (.picture d, 4 + d.length)
  | .float bits =>
    if b.length < offset + 8 then some (.float bits, 0)
    else do
      let u ← uintAt 8 b offset
      return (.float (UInt64.ofNat u), 8)
  | .list vs =>
    if b.length < offset + 4 then some (.list vs, 0)
    else do
      let count ← uintAt 4 b offset
      if (b.length - offset - 4) / 2 < count then return (.list vs, 0)
      let r ← listLoop ext b count (offset + 4)
      return (.list r.1, r.2 - offset)
  | .point h v => do
    match ← fieldLoop ext b offset 0 [h, v] with
    | ([h', v'], consumed) => return (.point h' v', consumed.getD 0)
    | _ => none
  | .rect l t r bt => do
    match ← fieldLoop ext b offset 0 [l, t, r, bt] with
    | ([l', t', r', bt'], consumed) => return (.rect l' t' r' bt', consumed.getD 0)
    | _ => none
  | .propList ps vs =>
    if b.length < offset + 4 then some (.propList ps vs, 0)
    else do
      let count ← uintAt 4 b offset
      let r ← pairLoop ext b offset count 4
      return (.propList (ps ++ r.1.map Prod.fst) (vs ++ r.1.map Prod.snd), r.2)
  | .color r g bl =>
    if b.length < offset + 4 then some (.color r g bl, 0)
    else return (.color (← b[offset]?) (← b[offset + 1]?) (← b[offset + 2]?), 4)
  | .date d =>
    if b.length < offset + 8 then some (.date d, 0)
    else do
      let raw ← slice b offset 8
      return (.date (Vector.ofFn fun i => raw.getD i 0), 8)
  | .vector3d x y z =>
    if b.length < offset + 12 then some (.vector3d x y z, 0)
    else do
      let x' ← uintAt 4 b offset
      let y' ← uintAt 4 b (offset + 4)
      let z' ← uintAt 4 b (offset + 8)
      return (.vector3d (UInt32.ofNat x') (UInt32.ofNat y') (UInt32.ofNat z'), 12)
  | .transform3d m =>
    if b.length < offset + 64 then some (.transform3d m, 0)
    else do
      let cells ← (List.range 16).mapM fun i => uintAt 4 b (offset + i * 4)
      return (.transform3d (Vector.ofFn fun i => UInt32.ofNat (cells.getD i 0)), 64)

end Decode

/-- `ExtractFromBytes` down to nesting depth `fuel`. -/
def extractFuel (b : List UInt8) : ℕ → LValue → ℕ → Option (LValue × ℕ)
  | 0, _, _ => none
  | fuel + 1, obj, offset => extractBy (extractFuel b fuel) b obj offset

/-- `obj.ExtractFromBytes(b, offset)`. Nested values start at least two bytes
further on and inside `b`, so the length of `b` bounds the depth. -/
def extractFromBytes (b : List UInt8) (obj : LValue) (offset : ℕ) : Option (LValue × ℕ) :=
  extractFuel b (b.length + 1) obj offset

/-- `FromRawBytes(b, offset)` for any nonnegative `int` offset. If `offset+2`
overflows it passes the length test as a negative number, and the slice
expression `b[offset:]` panics. No offset of a nested value comes near that. -/
def fromRawBytes (b : List UInt8) (offset : ℕ) : Option LValue :=
  if offset + 2 < 2 ^ 63 then fromRawBytesBy (extractFromBytes b) b offset else none

/-- The pair of calls a container makes for the child at `offset`. -/
def readChild (b : List UInt8) (offset : ℕ) : Option (LValue × ℕ) :=
  childBy (extractFromBytes b) b offset

end LValue

end Musgos.Lingo
