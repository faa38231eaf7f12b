import Musgos.Foundation.Bytes

/-!
# Lingo values

The interface `LValue` of `l_value.go` with its fifteen implementations. A Go
interface value can be nil, and a truncated point or rect keeps nil components,
so nil is a constructor of its own. Property lists keep the two parallel slices
of the source; nothing in the type makes them equally long. Floats are bit
patterns.
-/
namespace Musgos.Lingo

open Foundation

/-- The values of Lingo. `nil` is the interface that holds none. -/
inductive LValue where
  | nil
  | void
  | integer (value : Int32)
  | symbol (value : GoString)
  | string (value : GoString)
  | picture (data : List UInt8)
  | float (bits : UInt64)
  | list (values : List LValue)
  | point (locH locV : LValue)
  | rect (left top right bottom : LValue)
  | propList (properties values : List LValue)
  | color (red green blue : UInt8)
  | date (data : Vector UInt8 8)
  | media (data : List UInt8)
  | vector3d (x y z : UInt32)
  | transform3d (matrix : Vector UInt32 16)

@[match_pattern] abbrev vtVoid := 0
@[match_pattern] abbrev vtInteger := 1
@[match_pattern] abbrev vtSymbol := 2
@[match_pattern] abbrev vtString := 3
@[match_pattern] abbrev vtPicture := 5
@[match_pattern] abbrev vtFloat := 6
@[match_pattern] abbrev vtList := 7
@[match_pattern] abbrev vtPoint := 8
@[match_pattern] abbrev vtRect := 9
@[match_pattern] abbrev vtPropList := 10
@[match_pattern] abbrev vtColor := 18
@[match_pattern] abbrev vtDate := 19
@[match_pattern] abbrev vtMedia := 20
@[match_pattern] abbrev vt3dVector := 22
@[match_pattern] abbrev vt3dTransform := 23

namespace LValue

/-- `GetType`: every constructor of the source stores its own type code. -/
def getType : LValue → ℕ
  | .nil => vtVoid
  | .void => vtVoid
  | .integer _ => vtInteger
  | .symbol _ => vtSymbol
  | .string _ => vtString
  | .picture _ => vtPicture
  | .float _ => vtFloat
  | .list _ => vtList
  | .point _ _ => vtPoint
  | .rect _ _ _ _ => vtRect
  | .propList _ _ => vtPropList
  | .color _ _ _ => vtColor
  | .date _ => vtDate
  | .media _ => vtMedia
  | .vector3d _ _ _ => vt3dVector
  | .transform3d _ => vt3dTransform

/-- The freshly allocated object `FromRawBytes` fills in for a type code. The
code is the unsigned header; `int16` keeps every code below `2^15`, and the
others are no type of the protocol. -/
def blank : ℕ → LValue
  | vtInteger => .integer 0
  | vtSymbol => .symbol []
  | vtString => .string []
  | vtPicture => .picture []
  | vtFloat => .float 0
  | vtList => .list []
  | vtPoint => .point .nil .nil
  | vtRect => .rect .nil .nil .nil .nil
  | vtPropList => .propList [] []
  | vtColor => .color 0 0 0
  | vtDate => .date (Vector.replicate 8 0)
  | vtMedia => .media []
  | vt3dVector => .vector3d 0 0 0
  | vt3dTransform => .transform3d (Vector.replicate 16 0)
  | _ => .void

/-- The values an object refers to directly. -/
def children : LValue → List LValue
  | .list vs => vs
  | .point h v => [h, v]
  | .rect l t r b => [l, t, r, b]
  | .propList ps vs => ps ++ vs
  | _ => []

theorem sizeOf_children {v c : LValue} (h : c ∈ v.children) : sizeOf c < sizeOf v := by
  cases v <;> simp only [children, List.mem_append, List.mem_cons, List.not_mem_nil, or_false] at h
  case list vs =>
    have := List.sizeOf_lt_of_mem h
    simp only [list.sizeOf_spec]
    omega
  case point => rcases h with rfl | rfl <;> simp only [point.sizeOf_spec] <;> omega
  case rect => rcases h with rfl | rfl | rfl | rfl <;> simp only [rect.sizeOf_spec] <;> omega
  case propList =>
    rcases h with h | h
    · have := List.sizeOf_lt_of_mem h
      simp only [propList.sizeOf_spec]
      omega
    · have := List.sizeOf_lt_of_mem h
      simp only [propList.sizeOf_spec]
      omega

/-- Induction on the tree: a value may assume the statement of its children. -/
theorem childInduction {P : LValue → Prop} (node : ∀ v, (∀ c ∈ v.children, P c) → P v)
    (v : LValue) : P v :=
  node v fun c _hc => childInduction node c
termination_by sizeOf v
decreasing_by exact sizeOf_children _hc

mutual

/-- Structural equality, as a test. -/
def beq : LValue → LValue → Bool
  | .nil, .nil => true
  | .void, .void => true
  | .integer a, .integer b => a == b
  | .symbol a, .symbol b => a == b
  | .string a, .string b => a == b
  | .picture a, .picture b => a == b
  | .float a, .float b => a == b
  | .list as, .list bs => beqEach as bs
  | .point a b, .point c d => beq a c && beq b d
  | .rect a b c d, .rect e f g h => beq a e && beq b f && beq c g && beq d h
  | .propList as bs, .propList cs ds => beqEach as cs && beqEach bs ds
  | .color a b c, .color d e f => a == d && b == e && c == f
  | .date a, .date b => a == b
  | .media a, .media b => a == b
  | .vector3d a b c, .vector3d d e f => a == d && b == e && c == f
  | .transform3d a, .transform3d b => a == b
  | _, _ => false

def beqEach : List LValue → List LValue → Bool
  | [], [] => true
  | a :: as, b :: bs => beq a b && beqEach as bs
  | _, _ => false

end

theorem beqEach_iff {as : List LValue} (h : ∀ a ∈ as, ∀ b, beq a b = true ↔ a = b)
    (bs : List LValue) : beqEach as bs = true ↔ as = bs := by
  induction as generalizing bs with
  | nil => cases bs <;> simp [beqEach]
  | cons a as ih =>
    cases bs with
    | nil => simp [beqEach]
    | cons b bs =>
      simp only [beqEach, Bool.and_eq_true, h a (by simp), List.cons.injEq]
      rw [ih (fun c hc => h c (by simp [hc]))]

theorem beq_iff (a : LValue) : ∀ b, beq a b = true ↔ a = b := by
  induction a using childInduction with
  | node a ih =>
    intro b
    cases a <;> cases b <;> simp [beq]
    case list.list as bs => exact beqEach_iff (fun c hc => ih c hc) bs
    case point.point a b c d => simp [ih a (by simp [children]), ih b (by simp [children])]
    case rect.rect a b c d e f g h =>
      simp [ih a (by simp [children]), ih b (by simp [children]), ih c (by simp [children]),
        ih d (by simp [children]), and_assoc]
    case propList.propList as bs cs ds =>
      rw [beqEach_iff (fun c hc => ih c (by simp [children, hc])),
        beqEach_iff (fun c hc => ih c (by simp [children, hc]))]
    all_goals tauto

instance : DecidableEq LValue := fun a b => decidable_of_iff _ (beq_iff a b)

/-- A property of an object and of everything below it. -/
inductive Everywhere (P : LValue → Prop) : LValue → Prop
  | node {v} : P v → (∀ c ∈ v.children, Everywhere P c) → Everywhere P v

theorem everywhere_iff {P : LValue → Prop} {v : LValue} :
    Everywhere P v ↔ P v ∧ ∀ c ∈ v.children, Everywhere P c :=
  ⟨fun h => by cases h with | node hv hc => exact ⟨hv, hc⟩, fun h => .node h.1 h.2⟩

theorem Everywhere.here {P : LValue → Prop} {v : LValue} (h : Everywhere P v) : P v :=
  (everywhere_iff.mp h).1

theorem Everywhere.child {P : LValue → Prop} {v c : LValue} (h : Everywhere P v)
    (hc : c ∈ v.children) : Everywhere P c :=
  (everywhere_iff.mp h).2 c hc

theorem Everywhere.mono {P Q : LValue → Prop} (hPQ : ∀ v, P v → Q v) {v : LValue}
    (h : Everywhere P v) : Everywhere Q v := by
  induction h with
  | node hv _ ih => exact .node (hPQ _ hv) ih

mutual

/-- `Everywhere` as a test. -/
def allNodes (p : LValue → Bool) : LValue → Bool
  | .list vs => p (.list vs) && allEach p vs
  | .point h v => p (.point h v) && (allNodes p h && allNodes p v)
  | .rect l t r b =>
    p (.rect l t r b) && (allNodes p l && (allNodes p t && (allNodes p r && allNodes p b)))
  | .propList ps vs => p (.propList ps vs) && (allEach p ps && allEach p vs)
  | v => p v

def allEach (p : LValue → Bool) : List LValue → Bool
  | [] => true
  | v :: vs => allNodes p v && allEach p vs

end

theorem allEach_eq_all (p : LValue → Bool) (vs : List LValue) :
    allEach p vs = vs.all (allNodes p) := by
  induction vs with
  | nil => simp [allEach]
  | cons v vs ih => simp [allEach, ih]

theorem allNodes_eq (p : LValue → Bool) (v : LValue) :
    allNodes p v = (p v && v.children.all (allNodes p)) := by
  cases v <;> simp [allNodes, children, allEach_eq_all]

theorem allNodes_iff {P : LValue → Prop} [DecidablePred P] (v : LValue) :
    allNodes (fun x => decide (P x)) v = true ↔ Everywhere P v := by
  induction v using childInduction with
  | node v ih =>
    rw [allNodes_eq, everywhere_iff, Bool.and_eq_true, decide_eq_true_iff, List.all_eq_true]
    exact and_congr_right fun _ => forall₂_congr ih

instance {P : LValue → Prop} [DecidablePred P] : DecidablePred (Everywhere P) :=
  fun v => decidable_of_iff _ (allNodes_iff v)

/-- An object on its own that no method trips over: not nil, and every property
has its value. -/
def NodeOk : LValue → Prop
  | .nil => False
  | .propList ps vs => ps.length = vs.length
  | _ => True

instance : DecidablePred NodeOk
  | .nil => .isFalse id
  | .propList ps vs => inferInstanceAs (Decidable (ps.length = vs.length))
  | .void | .integer _ | .symbol _ | .string _ | .picture _ | .float _ | .list _ | .point _ _
  | .rect _ _ _ _ | .color _ _ _ | .date _ | .media _ | .vector3d _ _ _ | .transform3d _ =>
    .isTrue trivial

/-- Well formed at every depth: no missing component, no unpaired property. -/
def WellFormed (v : LValue) : Prop := Everywhere NodeOk v

instance : DecidablePred WellFormed := fun v => inferInstanceAs (Decidable (Everywhere NodeOk v))

theorem WellFormed.ne_nil {v : LValue} (h : v.WellFormed) : v ≠ .nil := by
  rintro rfl
  exact h.here

@[simp] theorem not_wellFormed_nil : ¬ LValue.nil.WellFormed := fun h => h.ne_nil rfl

theorem wellFormed_of_leaf {v : LValue} (hv : NodeOk v) (hc : v.children = []) :
    v.WellFormed := .node hv (by simp [hc])

@[simp] theorem wellFormed_list (vs : List LValue) :
    (LValue.list vs).WellFormed ↔ ∀ v ∈ vs, v.WellFormed := by
  simp [WellFormed, everywhere_iff (v := .list vs), NodeOk, children]

@[simp] theorem wellFormed_point (h v : LValue) :
    (LValue.point h v).WellFormed ↔ h.WellFormed ∧ v.WellFormed := by
  simp [WellFormed, everywhere_iff (v := .point h v), NodeOk, children]

@[simp] theorem wellFormed_rect (l t r b : LValue) :
    (LValue.rect l t r b).WellFormed ↔
      l.WellFormed ∧ t.WellFormed ∧ r.WellFormed ∧ b.WellFormed := by
  simp [WellFormed, everywhere_iff (v := .rect l t r b), NodeOk, children]

@[simp] theorem wellFormed_propList (ps vs : List LValue) :
    (LValue.propList ps vs).WellFormed ↔
      ps.length = vs.length ∧ (∀ p ∈ ps, p.WellFormed) ∧ ∀ v ∈ vs, v.WellFormed := by
  simp [WellFormed, everywhere_iff (v := .propList ps vs), NodeOk, children, or_imp,
    forall_and]

/-- Walking two parallel slices by the indices of the first. A property without
a value is an index out of range. -/
def pairUp {α : Type} : List (Option α) → List (Option α) → Option (List (α × α))
  | [], _ => some []
  | _ :: _, [] => none
  | p :: ps, v :: vs => do
    let x ← p
    let y ← v
    let rest ← pairUp ps vs
    return (x, y) :: rest

theorem pairUp_isSome {α : Type} {f : LValue → Option α} {ps vs : List LValue}
    (hlen : ps.length = vs.length) (hps : ∀ p ∈ ps, (f p).isSome) (hvs : ∀ v ∈ vs, (f v).isSome) :
    (pairUp (ps.map f) (vs.map f)).isSome := by
  induction ps generalizing vs with
  | nil => rfl
  | cons p ps ih =>
    obtain _ | ⟨v, vs⟩ := vs
    · simp at hlen
    obtain ⟨x, hx⟩ := Option.isSome_iff_exists.mp (hps p (by simp))
    obtain ⟨y, hy⟩ := Option.isSome_iff_exists.mp (hvs v (by simp))
    obtain ⟨rest, hrest⟩ := Option.isSome_iff_exists.mp (@ih vs (by simpa using hlen)
      (fun q hq => hps q (by simp [hq])) fun q hq => hvs q (by simp [hq]))
    simp [pairUp, hx, hy, hrest]

end LValue

end Musgos.Lingo
