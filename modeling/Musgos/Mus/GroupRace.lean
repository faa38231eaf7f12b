import Musgos.Foundation.Transition
import Musgos.Mus.Movie

/-!
# Concurrent creation and use of groups

`JoinMovie` and `handleGroupJoin` look a group up and add a new one if it is
missing; the attribute commands look the group up and then work on the object
they found. Each of the two parts is atomic, but nothing holds them together, so
`AddGroup` may replace an object that others have written to or still hold. The
groups of one movie are modelled as references to objects, and the calls of any
number of clients take their steps in any order.
-/
namespace Musgos.Mus

open Foundation Lingo Domain Services Smus

/-- The groups of a movie by name, as references to group objects. -/
structure GroupTable where
  groups : GoMap GoString ℕ
  objects : List Group

/-- The calls that read or write the groups of one movie. -/
inductive GroupCall where
  | joinMovie
  | handleGroupJoin (groupName : GoString)
  | handleGroupSetAttribute (groupName attrName : GoString) (value : LValue)
  | handleGroupDeleteAttribute (groupName attrName : GoString)
  | handleGroupGetAttribute (groupName attrName : GoString)

/-- What a call does next. -/
inductive GroupStage where
  | getGroup
  | addGroup
  /-- `GetGroup` returned this object. -/
  | access (object : ℕ)
  /-- The content of the answer, or its error code. -/
  | answer (result : Except Int32 LValue)

/-- The object that a call has found and not used yet. -/
def GroupStage.object? : GroupStage → Option ℕ
  | .access object => some object
  | _ => none

namespace GroupTable

/-- `AddGroup` with a new object. -/
def addGroup (t : GroupTable) (name : GoString) : GroupTable :=
  ⟨t.groups.insert name t.objects.length, t.objects ++ [⟨∅⟩]⟩

def attributesOf (t : GroupTable) (object : ℕ) : GoMap GoString LValue :=
  (t.objects[object]?).elim ∅ Group.attributes

def updateObject (t : GroupTable) (object : ℕ)
    (f : GoMap GoString LValue → GoMap GoString LValue) : GroupTable :=
  { t with objects := t.objects.modify object fun group => ⟨f group.attributes⟩ }

/-- The attribute as it is found through the name of the group. -/
def attribute? (t : GroupTable) (groupName attrName : GoString) : Option LValue :=
  (t.groups.lookup groupName).bind fun object => (t.attributesOf object).lookup attrName

end GroupTable

namespace GroupCall

def groupName : GroupCall → GoString
  | .joinMovie => allUsers
  | .handleGroupJoin groupName => groupName
  | .handleGroupSetAttribute groupName _ _ => groupName
  | .handleGroupDeleteAttribute groupName _ => groupName
  | .handleGroupGetAttribute groupName _ => groupName

/-- The call adds the group if it is missing; the others fail then. -/
def creates : GroupCall → Bool
  | .joinMovie | .handleGroupJoin _ => true
  | _ => false

/-- The attribute a call sets or deletes. -/
def target : GroupCall → Option (GoString × GoString)
  | .handleGroupSetAttribute groupName attrName _ => some (groupName, attrName)
  | .handleGroupDeleteAttribute groupName attrName => some (groupName, attrName)
  | _ => none

/-- The calls do not write the same attribute. -/
def Apart (call call' : GroupCall) : Prop :=
  ∀ target, call.target = some target → call'.target ≠ some target

/-- After `GetGroup`. -/
def afterGetGroup (call : GroupCall) : Option ℕ → GroupStage
  | none => if call.creates then .addGroup else .answer (.error errServerInternalError)
  | some object => if call.creates then .answer (.ok .void) else .access object

/-- One atomic step of a call. -/
def perform (call : GroupCall) (t : GroupTable) : GroupStage → GroupTable × GroupStage
  | .getGroup => (t, call.afterGetGroup (t.groups.lookup call.groupName))
  | .addGroup => (t.addGroup call.groupName, .answer (.ok .void))
  | .access object =>
    match call with
    | .handleGroupSetAttribute _ attrName value =>
      (t.updateObject object (·.insert attrName value), .answer (.ok .void))
    | .handleGroupDeleteAttribute _ attrName =>
      (t.updateObject object (·.erase attrName), .answer (.ok .void))
    | .handleGroupGetAttribute _ attrName =>
      (t, .answer (.ok (((t.attributesOf object).lookup attrName).getD .void)))
    | .joinMovie | .handleGroupJoin _ => (t, .answer (.ok .void))
  | .answer result => (t, .answer result)

end GroupCall

/-- A call and how far it has come. -/
structure PendingGroupCall where
  call : GroupCall
  stage : GroupStage

/-- The groups, the calls under way and the answers of those that are done. -/
structure GroupSystem where
  table : GroupTable
  calls : GoMap ℕ PendingGroupCall
  answers : GoMap ℕ (GroupCall × Except Int32 LValue)

/-- A call starts, or takes its next step. -/
inductive GroupAction where
  | start (id : ℕ) (call : GroupCall)
  | exec (id : ℕ)

namespace GroupSystem

/-- A new movie: no groups. -/
def init : GroupSystem := ⟨⟨∅, []⟩, ∅, ∅⟩

/-- The call has not been issued yet. -/
def New (s : GroupSystem) (id : ℕ) : Prop :=
  s.calls.lookup id = none ∧ s.answers.lookup id = none

def step (s : GroupSystem) : GroupAction → Option GroupSystem
  | .start id call =>
    if (s.calls.lookup id).isSome || (s.answers.lookup id).isSome then none
    else some { s with calls := s.calls.insert id ⟨call, .getGroup⟩ }
  | .exec id =>
    match s.calls.lookup id with
    | none => none
    | some ⟨call, .answer result⟩ =>
      some { s with calls := s.calls.erase id, answers := s.answers.insert id (call, result) }
    | some ⟨call, stage⟩ =>
      let next := call.perform s.table stage
      some { s with table := next.1, calls := s.calls.insert id ⟨call, next.2⟩ }

/-- A pending call has found the object. -/
def held (s : GroupSystem) (object : ℕ) : Bool :=
  decide (∃ id ∈ s.calls.keys, (s.calls.lookup id).any (·.stage.object? = some object))

/-- A set or delete starts only while no other of the same attribute is pending, and
`AddGroup` finds the name unused, or a group without attributes that no pending call has found. -/
def orderly (s : GroupSystem) : GroupAction → Bool
  | .start _ call => decide (∀ id ∈ s.calls.keys, (s.calls.lookup id).all fun p =>
      call.target.isNone || decide (p.call.target ≠ call.target))
  | .exec id =>
    match s.calls.lookup id with
    | some ⟨call, .addGroup⟩ => (s.table.groups.lookup call.groupName).all fun object =>
        (s.table.attributesOf object).keys = ∅ && !s.held object
    | _ => true

end GroupSystem

section Table

variable {t : GroupTable}

/-- Names refer to different objects that exist. -/
structure GroupTable.WellFormed (t : GroupTable) : Prop where
  bound : ∀ name object, t.groups.lookup name = some object → object < t.objects.length
  distinct : ∀ name name' object, t.groups.lookup name = some object →
    t.groups.lookup name' = some object → name = name'

theorem GroupTable.attributesOf_of_le {object : ℕ} (h : t.objects.length ≤ object) :
    t.attributesOf object = ∅ := by
  rw [attributesOf, List.getElem?_eq_none h]
  rfl

@[simp] theorem GroupTable.attributesOf_addGroup (name : GoString) (object : ℕ) :
    (t.addGroup name).attributesOf object = t.attributesOf object := by
  rcases lt_trichotomy object t.objects.length with hlt | rfl | hgt
  · simp only [addGroup, attributesOf, List.getElem?_append_left hlt]
  · rw [attributesOf_of_le le_rfl]
    simp [addGroup, attributesOf]
  · rw [attributesOf_of_le hgt.le, attributesOf_of_le]
    simp only [addGroup, List.length_append, List.length_singleton]
    omega

theorem GroupTable.attributesOf_updateObject {object : ℕ} (h : object < t.objects.length)
    (f : GoMap GoString LValue → GoMap GoString LValue) (object' : ℕ) :
    (t.updateObject object f).attributesOf object' =
      if object' = object then f (t.attributesOf object') else t.attributesOf object' := by
  by_cases hsame : object' = object
  · subst hsame
    simp [updateObject, attributesOf, h]
  · simp [updateObject, attributesOf, hsame, Ne.symm hsame]

theorem GroupTable.WellFormed.addGroup (h : t.WellFormed) (name : GoString) :
    (t.addGroup name).WellFormed := by
  have hlength : (t.addGroup name).objects.length = t.objects.length + 1 := by
    simp [GroupTable.addGroup]
  constructor
  · intro name' object hlookup
    rw [hlength]
    simp only [GroupTable.addGroup, GoMap.lookup_insert_ite] at hlookup
    split_ifs at hlookup
    · obtain rfl := Option.some.inj hlookup
      omega
    · have := h.bound name' object hlookup
      omega
  · intro n n' object hn hn'
    simp only [GroupTable.addGroup, GoMap.lookup_insert_ite] at hn hn'
    split_ifs at hn hn' with hname hname' hname'
    · rw [hname, hname']
    · have := h.bound n' object hn'
      have := Option.some.inj hn
      omega
    · have := h.bound n object hn
      have := Option.some.inj hn'
      omega
    · exact h.distinct n n' object hn hn'

theorem GroupTable.WellFormed.updateObject (h : t.WellFormed) (object : ℕ)
    (f : GoMap GoString LValue → GoMap GoString LValue) : (t.updateObject object f).WellFormed := by
  refine ⟨fun name object' hlookup => ?_, h.distinct⟩
  have := h.bound name object' hlookup
  simpa [GroupTable.updateObject] using this

end Table

section Perform

variable {t : GroupTable} {call : GroupCall} {stage : GroupStage} {g a : GoString}

/-- A call is where it can be: it holds the object its group's name refers to, only a call
that creates groups adds one, and a set about to be answered has been written. -/
structure Fits (t : GroupTable) (call : GroupCall) (stage : GroupStage) : Prop where
  held : ∀ object, stage = .access object → t.groups.lookup call.groupName = some object
  creating : stage = .addGroup → call.creates = true
  written : ∀ g a value content, call = .handleGroupSetAttribute g a value →
    stage = .answer (.ok content) → t.attribute? g a = some value

/-- A group about to be added is still missing, or has no attributes. -/
def Blank (t : GroupTable) (call : GroupCall) (stage : GroupStage) : Prop :=
  stage = .addGroup → ∀ object, t.groups.lookup call.groupName = some object →
    t.attributesOf object = ∅

theorem perform_groups (hne : stage = .addGroup → g ≠ call.groupName) {object : ℕ}
    (h : t.groups.lookup g = some object) :
    (call.perform t stage).1.groups.lookup g = some object := by
  cases stage with
  | getGroup => exact h
  | addGroup => simpa [GroupCall.perform, GroupTable.addGroup, hne rfl] using h
  | access o => cases call <;> exact h
  | answer result => exact h

theorem perform_wellFormed (h : t.WellFormed) (call : GroupCall) (stage : GroupStage) :
    (call.perform t stage).1.WellFormed := by
  cases stage with
  | getGroup => exact h
  | addGroup => exact h.addGroup call.groupName
  | access o =>
    cases call with
    | handleGroupSetAttribute => exact h.updateObject o _
    | handleGroupDeleteAttribute => exact h.updateObject o _
    | _ => exact h
  | answer result => exact h

theorem attribute?_eq {object : ℕ} (h : t.groups.lookup g = some object) :
    t.attribute? g a = (t.attributesOf object).lookup a := by
  rw [GroupTable.attribute?, h, Option.bind_some]

/-- An update of the object one name refers to is not seen under another name. -/
theorem GroupTable.WellFormed.attributesOf_updateObject (hwf : t.WellFormed) {name : GoString}
    {object object' : ℕ} (hname : t.groups.lookup name = some object)
    (hg : t.groups.lookup g = some object') (f : GoMap GoString LValue → GoMap GoString LValue) :
    (t.updateObject object f).attributesOf object' =
      if g = name then f (t.attributesOf object') else t.attributesOf object' := by
  have hsame : object' = object ↔ g = name := by
    constructor
    · rintro rfl
      exact hwf.distinct g name object' hg hname
    · rintro rfl
      simpa [hname] using hg.symm
  rw [GroupTable.attributesOf_updateObject (hwf.bound name object hname)]
  simp only [hsame]

theorem attribute?_updateObject (hwf : t.WellFormed) {name : GoString} {object : ℕ}
    (hname : t.groups.lookup name = some object)
    (f : GoMap GoString LValue → GoMap GoString LValue) :
    (t.updateObject object f).attribute? g a =
      if g = name then (f (t.attributesOf object)).lookup a else t.attribute? g a := by
  have hgroups : (t.updateObject object f).groups = t.groups := rfl
  unfold GroupTable.attribute?
  rw [hgroups]
  split_ifs with hg
  · rw [hg, hname, Option.bind_some, hwf.attributesOf_updateObject hname hname, if_pos rfl]
  · cases hobject : t.groups.lookup g with
    | none => rfl
    | some object' =>
      rw [Option.bind_some, Option.bind_some, hwf.attributesOf_updateObject hname hobject,
        if_neg hg]

/-- A step leaves an attribute alone that the call does not set or delete. -/
theorem perform_attribute? (hwf : t.WellFormed) (hfits : Fits t call stage)
    (hblank : Blank t call stage) (htarget : call.target ≠ some (g, a)) :
    (call.perform t stage).1.attribute? g a = t.attribute? g a := by
  cases stage with
  | getGroup => rfl
  | addGroup =>
    unfold GroupTable.attribute?
    simp only [GroupCall.perform, GroupTable.attributesOf_addGroup]
    simp only [GroupTable.addGroup, GoMap.lookup_insert_ite]
    split_ifs with hg
    · rw [hg, Option.bind_some, GroupTable.attributesOf_of_le le_rfl]
      cases hobject : t.groups.lookup call.groupName with
      | none => rfl
      | some object => rw [Option.bind_some, hblank rfl object hobject]
    · rfl
  | access o =>
    have hlookup := hfits.held o rfl
    have hother : ∀ a', call.target = some (call.groupName, a') → g = call.groupName → a ≠ a' := by
      rintro a' htarget' rfl rfl
      exact htarget htarget'
    cases call with
    | handleGroupSetAttribute g' a' value =>
      rw [GroupCall.perform, attribute?_updateObject hwf hlookup]
      split_ifs with hg
      · rw [GoMap.lookup_insert_ite, if_neg (hother a' rfl hg), hg, attribute?_eq hlookup]
      · rfl
    | handleGroupDeleteAttribute g' a' =>
      rw [GroupCall.perform, attribute?_updateObject hwf hlookup]
      split_ifs with hg
      · rw [GoMap.lookup_erase_ite, if_neg (hother a' rfl hg), hg, attribute?_eq hlookup]
      · rfl
    | _ => rfl
  | answer result => rfl

theorem perform_fits (hwf : t.WellFormed) (hfits : Fits t call stage) :
    Fits (call.perform t stage).1 call (call.perform t stage).2 := by
  cases stage with
  | getGroup =>
    simp only [GroupCall.perform]
    cases hg : t.groups.lookup call.groupName with
    | none =>
      cases hcreates : call.creates <;> constructor <;>
        simp [GroupCall.afterGetGroup, hcreates]
    | some o =>
      cases hcreates : call.creates <;> constructor <;>
        simp [GroupCall.afterGetGroup, hcreates, hg]
      rintro g a value rfl
      cases hcreates
  | addGroup =>
    refine ⟨by simp [GroupCall.perform], by simp [GroupCall.perform], ?_⟩
    rintro g a value content rfl -
    cases hfits.creating rfl
  | access o =>
    have hlookup := hfits.held o rfl
    refine ⟨?_, ?_, ?_⟩
    · intro object hobject
      cases call <;> cases hobject
    · intro hadd
      cases call <;> cases hadd
    · rintro g a value content rfl -
      have hname : g = (GroupCall.handleGroupSetAttribute g a value).groupName := rfl
      rw [GroupCall.perform, attribute?_updateObject hwf hlookup, if_pos hname,
        GoMap.lookup_insert_ite, if_pos rfl]
  | answer result => exact hfits

/-- A step of another call that does not write the same attribute, and replaces no group that
the call has found. -/
theorem Fits.other (hwf : t.WellFormed) (hfits : Fits t call stage) {call' : GroupCall}
    {stage' : GroupStage} (hfits' : Fits t call' stage') (hblank : Blank t call stage)
    (hfree : stage = .addGroup → ∀ object, t.groups.lookup call.groupName = some object →
      stage' ≠ .access object)
    (hapart : call'.Apart call) : Fits (call.perform t stage).1 call' stage' := by
  refine ⟨?_, hfits'.creating, ?_⟩
  · intro object hobject
    have hheld := hfits'.held object hobject
    exact perform_groups (fun hadd hname => hfree hadd object (hname ▸ hheld) hobject) hheld
  · rintro g a value content rfl hstage
    rw [perform_attribute? hwf hfits hblank (hapart (g, a) rfl)]
    exact hfits'.written g a value content rfl hstage

end Perform

section Alone

variable {π σ δ τ ε : Type} {t : GroupTable} {movie : Movie} {movieID : GoString}
  {w : World π σ δ τ}

/-- The two parts of a call without another step in between. -/
def GroupCall.alone (call : GroupCall) (t : GroupTable) : GroupTable × GroupStage :=
  let found := call.perform t .getGroup
  call.perform found.1 found.2

/-- The groups with the contents of their objects. -/
def GroupTable.Shows (t : GroupTable) (movie : Movie) : Prop :=
  ∀ name, movie.groups.lookup name =
    (t.groups.lookup name).map fun object => ⟨t.attributesOf object⟩

/-- A call that creates groups does what `ensureGroup` does. -/
theorem alone_creates (h : t.Shows movie) (hw : w.movies.lookup movieID = some movie)
    {call : GroupCall} (hcreates : call.creates = true) :
    ∃ movie' w', (ensureGroup movieID call.groupName w : EStateM.Result ε _ _) = .ok () w' ∧
      w'.movies.lookup movieID = some movie' ∧ (call.alone t).1.Shows movie' := by
  have hname := h call.groupName
  cases hgroup : t.groups.lookup call.groupName with
  | some object =>
    rw [hgroup] at hname
    refine ⟨movie, w, by simp [ensureGroup, hw, hname], hw, ?_⟩
    simpa [GroupCall.alone, GroupCall.perform, hgroup, GroupCall.afterGetGroup, hcreates] using h
  | none =>
    rw [hgroup] at hname
    refine ⟨⟨movie.groups.insert call.groupName ⟨∅⟩⟩, _,
      by simp [ensureGroup, putGroup, hw, hname]; rfl, by simp, ?_⟩
    intro name
    simp only [GroupCall.alone, GroupCall.perform, hgroup, GroupCall.afterGetGroup, hcreates,
      if_true, GroupTable.attributesOf_addGroup, GoMap.lookup_insert_ite]
    simp only [GroupTable.addGroup, GoMap.lookup_insert_ite]
    split_ifs
    · simp [GroupTable.attributesOf_of_le]
    · exact h name

/-- How a set or delete changes the attributes of its group. -/
def GroupCall.update : GroupCall → Option (GoMap GoString LValue → GoMap GoString LValue)
  | .handleGroupSetAttribute _ attrName value => some (·.insert attrName value)
  | .handleGroupDeleteAttribute _ attrName => some (·.erase attrName)
  | _ => none

/-- A set or delete does what `putGroup` does with the group that was found. -/
theorem alone_updates (hwf : t.WellFormed) (h : t.Shows movie)
    (hw : w.movies.lookup movieID = some movie) {call : GroupCall}
    {f : GoMap GoString LValue → GoMap GoString LValue} (hupdate : call.update = some f)
    {group : Group} (hgroup : movie.groups.lookup call.groupName = some group) :
    ∃ movie' w',
      (putGroup movieID call.groupName ⟨f group.attributes⟩ w : EStateM.Result ε _ _) = .ok () w' ∧
      w'.movies.lookup movieID = some movie' ∧ (call.alone t).1.Shows movie' := by
  rw [h call.groupName, Option.map_eq_some_iff] at hgroup
  obtain ⟨object, hobject, rfl⟩ := hgroup
  have halone : (call.alone t).1 = t.updateObject object f := by
    cases call <;> cases hupdate <;>
      simp [GroupCall.alone, GroupCall.perform, hobject, GroupCall.afterGetGroup, GroupCall.creates]
  refine ⟨⟨movie.groups.insert call.groupName ⟨f (t.attributesOf object)⟩⟩, _,
    by simp [putGroup, hw]; rfl, by simp, ?_⟩
  intro name
  have hgroups : (t.updateObject object f).groups = t.groups := rfl
  rw [halone, hgroups, GoMap.lookup_insert_ite]
  split_ifs with hname
  · rw [hname, hobject, Option.map_some, hwf.attributesOf_updateObject hobject hobject, if_pos rfl]
  · rw [h name]
    cases hother : t.groups.lookup name with
    | none => rfl
    | some object' =>
      rw [Option.map_some, Option.map_some, hwf.attributesOf_updateObject hobject hother,
        if_neg hname]

theorem alone_gets (h : t.Shows movie) (g a : GoString) :
    ((GroupCall.handleGroupGetAttribute g a).alone t).2 =
      .answer ((movie.groups.lookup g).elim (.error errServerInternalError) fun group =>
        .ok ((group.attributes.lookup a).getD .void)) := by
  rw [h g]
  cases hgroup : t.groups.lookup g <;>
    simp [GroupCall.alone, GroupCall.perform, GroupCall.groupName, hgroup,
      GroupCall.afterGetGroup, GroupCall.creates]

end Alone

namespace GroupSystem

variable {s s' : GroupSystem} {act : GroupAction}

/-- What a step can do. -/
theorem step_cases (h : s.step act = some s') :
    (∃ id call, act = .start id call ∧ s.New id ∧
      s' = { s with calls := s.calls.insert id ⟨call, .getGroup⟩ }) ∨
    (∃ id call result, act = .exec id ∧ s.calls.lookup id = some ⟨call, .answer result⟩ ∧
      s' = { s with calls := s.calls.erase id, answers := s.answers.insert id (call, result) }) ∨
    (∃ id call stage, act = .exec id ∧ s.calls.lookup id = some ⟨call, stage⟩ ∧
      s' = { s with
        table := (call.perform s.table stage).1
        calls := s.calls.insert id ⟨call, (call.perform s.table stage).2⟩ }) := by
  cases act with
  | start id call =>
    rw [step] at h
    split_ifs at h with hid
    simp only [Bool.or_eq_true, not_or, Bool.not_eq_true, Option.isSome_eq_false_iff,
      Option.isNone_iff_eq_none] at hid
    exact .inl ⟨id, call, rfl, hid, (Option.some.inj h).symm⟩
  | exec id =>
    cases hlookup : s.calls.lookup id with
    | none => simp [step, hlookup] at h
    | some p =>
      obtain ⟨call, stage⟩ := p
      cases stage with
      | answer result =>
        simp only [step, hlookup, Option.some.injEq] at h
        exact .inr (.inl ⟨id, call, result, rfl, hlookup, h.symm⟩)
      | _ =>
        simp only [step, hlookup, Option.some.injEq] at h
        exact .inr (.inr ⟨id, call, _, rfl, hlookup, h.symm⟩)

/-- No two pending calls write the same attribute. -/
def Exclusive (calls : GoMap ℕ PendingGroupCall) : Prop :=
  ∀ id id' p p', id ≠ id' → calls.lookup id = some p → calls.lookup id' = some p' →
    p.call.Apart p'.call

theorem Exclusive.insert {calls : GoMap ℕ PendingGroupCall} (h : Exclusive calls) {id : ℕ}
    {p : PendingGroupCall}
    (hp : ∀ id' p', id' ≠ id → calls.lookup id' = some p' → p'.call.Apart p.call) :
    Exclusive (calls.insert id p) := by
  intro i j q q' hij hi hj
  rw [GoMap.lookup_insert_ite] at hi hj
  split_ifs at hi hj with hid hjd hjd
  · exact absurd (hid.trans hjd.symm) hij
  · obtain rfl := Option.some.inj hi
    intro target htarget htarget'
    exact hp j q' hjd hj target htarget' htarget
  · obtain rfl := Option.some.inj hj
    exact hp i q hid hi
  · exact h i j q q' hij hi hj

theorem Exclusive.erase {calls : GoMap ℕ PendingGroupCall} (h : Exclusive calls) (id : ℕ) :
    Exclusive (calls.erase id) := by
  intro i j q q' hij hi hj
  exact h i j q q' hij (GoMap.lookup_of_erase hi) (GoMap.lookup_of_erase hj)

/-- Every pending call is where it can be, and no two write the same attribute. -/
structure Sound (s : GroupSystem) : Prop where
  wellFormed : s.table.WellFormed
  fits : ∀ id p, s.calls.lookup id = some p → Fits s.table p.call p.stage
  exclusive : Exclusive s.calls

theorem init_sound : Sound init := by
  refine ⟨⟨?_, ?_⟩, ?_, ?_⟩ <;> simp [init, Exclusive]

theorem mem_keys_of_lookup {id : ℕ} {p : PendingGroupCall} (hp : s.calls.lookup id = some p) :
    id ∈ s.calls.keys := by
  rw [Finmap.mem_keys, ← Finmap.lookup_isSome, hp]
  rfl

section Orderly

variable {id : ℕ} {call : GroupCall} {stage : GroupStage}

theorem blank_of_orderly (hlookup : s.calls.lookup id = some ⟨call, stage⟩)
    (h : s.orderly (.exec id) = true) : Blank s.table call stage := by
  rintro rfl object hobject
  simp only [orderly, hlookup, hobject, Option.all_some, Bool.and_eq_true, decide_eq_true_iff] at h
  exact (GoMap.keys_eq_empty_iff _).mp h.1

theorem free_of_orderly (hlookup : s.calls.lookup id = some ⟨call, stage⟩)
    (h : s.orderly (.exec id) = true) (hadd : stage = .addGroup) {object : ℕ}
    (hobject : s.table.groups.lookup call.groupName = some object) {id' : ℕ}
    {p : PendingGroupCall} (hp : s.calls.lookup id' = some p) : p.stage ≠ .access object := by
  subst hadd
  simp only [orderly, hlookup, hobject, Option.all_some, Bool.and_eq_true, Bool.not_eq_true',
    held, decide_eq_false_iff_not] at h
  intro hstage
  exact h.2 ⟨id', mem_keys_of_lookup hp, by simp [hp, hstage, GroupStage.object?]⟩

end Orderly

theorem apart_of_orderly {id : ℕ} {call : GroupCall} (h : s.orderly (.start id call) = true)
    {id' : ℕ} {p : PendingGroupCall} (hp : s.calls.lookup id' = some p) : p.call.Apart call := by
  have hall := of_decide_eq_true h id' (mem_keys_of_lookup hp)
  simp only [hp, Option.all_some, Bool.or_eq_true, Option.isNone_iff_eq_none,
    decide_eq_true_iff] at hall
  intro target htarget htarget'
  obtain hnone | hne := hall
  · simp [hnone] at htarget'
  · exact hne (htarget.trans htarget'.symm)

theorem Sound.step (h : s.Sound) (horderly : s.orderly act = true) (hstep : s.step act = some s') :
    s'.Sound := by
  obtain ⟨id, call, rfl, hnew, rfl⟩ | ⟨id, call, result, rfl, hlookup, rfl⟩ |
    ⟨id, call, stage, rfl, hlookup, rfl⟩ := step_cases hstep
  · have hstart : Fits s.table call .getGroup := by constructor <;> simp
    exact ⟨h.wellFormed, GoMap.forall_lookup_insert hstart fun id' p _ => h.fits id' p,
      h.exclusive.insert fun id' p _ hp => apart_of_orderly horderly hp⟩
  · exact ⟨h.wellFormed, GoMap.forall_lookup_erase fun id' p _ => h.fits id' p,
      h.exclusive.erase id⟩
  · have hfits : Fits s.table call stage := h.fits id _ hlookup
    have hblank := blank_of_orderly hlookup horderly
    have hapart : ∀ id' p, id' ≠ id → s.calls.lookup id' = some p → p.call.Apart call :=
      fun id' p hid hp => h.exclusive id' id p ⟨call, stage⟩ hid hp hlookup
    refine ⟨perform_wellFormed h.wellFormed call stage, ?_, h.exclusive.insert hapart⟩
    apply GoMap.forall_lookup_insert
    · exact perform_fits h.wellFormed hfits
    · intro id' p hid hp
      exact Fits.other h.wellFormed hfits (h.fits id' p hp) hblank
        (fun hadd object hobject => free_of_orderly hlookup horderly hadd hobject hp)
        (hapart id' p hid hp)

/-- The value of an attribute from a moment on, with nobody left who might change it: calls
that were issued since then are answered with it. -/
structure Kept (base : GroupSystem) (g a : GoString) (value : LValue) (s : GroupSystem) : Prop where
  current : s.table.attribute? g a = some value
  quiet : ∀ id p, s.calls.lookup id = some p → p.call.target ≠ some (g, a)
  answering : ∀ id result, base.New id →
    s.calls.lookup id = some ⟨.handleGroupGetAttribute g a, .answer result⟩ → result = .ok value
  answered : ∀ id result, base.New id →
    s.answers.lookup id = some (.handleGroupGetAttribute g a, result) → result = .ok value

theorem perform_get {t : GroupTable} {g a : GoString} {value : LValue} {stage : GroupStage}
    {result : Except Int32 LValue} (hvalue : t.attribute? g a = some value)
    (hfits : Fits t (.handleGroupGetAttribute g a) stage)
    (hdone : ((GroupCall.handleGroupGetAttribute g a).perform t stage).2 = .answer result) :
    stage = .answer result ∨ result = .ok value := by
  cases stage with
  | getGroup =>
    obtain ⟨object, hobject, -⟩ := Option.bind_eq_some_iff.mp hvalue
    simp [GroupCall.perform, GroupCall.groupName, hobject, GroupCall.afterGetGroup,
      GroupCall.creates] at hdone
  | addGroup => cases hfits.creating rfl
  | access o =>
    have hheld : t.groups.lookup g = some o := hfits.held o rfl
    rw [attribute?_eq hheld] at hvalue
    simp only [GroupCall.perform, hvalue, Option.getD_some, GroupStage.answer.injEq] at hdone
    exact .inr hdone.symm
  | answer r => exact .inl hdone

theorem Kept.answering_insert {base : GroupSystem} {g a : GoString} {value : LValue}
    (h : Kept base g a value s) {id : ℕ} {p : PendingGroupCall}
    (hp : ∀ result, base.New id → p = ⟨.handleGroupGetAttribute g a, .answer result⟩ →
      result = .ok value) (id' : ℕ) (result : Except Int32 LValue) (hbase : base.New id')
    (hlookup : (s.calls.insert id p).lookup id' =
      some ⟨.handleGroupGetAttribute g a, .answer result⟩) : result = .ok value := by
  rw [GoMap.lookup_insert_ite] at hlookup
  split_ifs at hlookup with hid
  · exact hp result (hid ▸ hbase) (Option.some.inj hlookup)
  · exact h.answering id' result hbase hlookup

theorem Kept.step {base : GroupSystem} {g a : GoString} {value : LValue}
    (h : Kept base g a value s) (hsound : s.Sound) (horderly : s.orderly act = true)
    (hquiet : ∀ id call, act = .start id call → call.target ≠ some (g, a))
    (hstep : s.step act = some s') : Kept base g a value s' := by
  obtain ⟨id, call, rfl, hnew, rfl⟩ | ⟨id, call, result, rfl, hlookup, rfl⟩ |
    ⟨id, call, stage, rfl, hlookup, rfl⟩ := step_cases hstep
  · constructor
    case current => exact h.current
    case quiet =>
      exact GoMap.forall_lookup_insert (hquiet id call rfl) fun id' p _ => h.quiet id' p
    case answering => exact h.answering_insert (by simp)
    case answered => exact h.answered
  · constructor
    case current => exact h.current
    case quiet => exact GoMap.forall_lookup_erase fun id' p _ => h.quiet id' p
    case answering =>
      intro id' result' hbase hp
      exact h.answering id' result' hbase (GoMap.lookup_of_erase hp)
    case answered =>
      intro id' result' hbase hp
      rw [GoMap.lookup_insert_ite] at hp
      split_ifs at hp with hid
      · subst hid
        obtain ⟨rfl, rfl⟩ := Prod.mk.inj (Option.some.inj hp)
        exact h.answering id' result hbase hlookup
      · exact h.answered id' result' hbase hp
  · have hfits : Fits s.table call stage := hsound.fits id _ hlookup
    constructor
    case current =>
      rw [perform_attribute? hsound.wellFormed hfits (blank_of_orderly hlookup horderly)
        (h.quiet id _ hlookup)]
      exact h.current
    case quiet =>
      exact GoMap.forall_lookup_insert (h.quiet id ⟨call, stage⟩ hlookup) fun id' p _ =>
        h.quiet id' p
    case answering =>
      refine h.answering_insert fun result hbase hp => ?_
      obtain ⟨rfl, hdone⟩ := PendingGroupCall.mk.inj hp
      obtain rfl | hvalue := perform_get h.current hfits hdone
      · exact h.answering id result hbase hlookup
      · exact hvalue
    case answered => exact h.answered

theorem Sound.kept (h : s.Sound) {id : ℕ} {g a : GoString} {value content : LValue}
    (hset : s.calls.lookup id = some ⟨.handleGroupSetAttribute g a value, .answer (.ok content)⟩)
    (hstep : s.step (.exec id) = some s') : Kept s' g a value s' := by
  simp only [GroupSystem.step, hset, Option.some.injEq] at hstep
  subst hstep
  constructor
  case current => exact (h.fits id _ hset).written g a value content rfl rfl
  case quiet =>
    apply GoMap.forall_lookup_erase
    intro id' p hid hp
    exact h.exclusive id id' _ p hid.symm hset hp (g, a) rfl
  case answering =>
    intro id' result hnew hp
    rw [hnew.1] at hp
    cases hp
  case answered =>
    intro id' result hnew hp
    rw [hnew.2] at hp
    cases hp

/-- In every run in which no group is replaced that has attributes or that a pending call has
found, and writes of one attribute do not overlap: once a set is answered with success and no set
or delete of that attribute is issued any more, every read issued from then on is answered with
the value that was set. -/
theorem getAttribute_returns_set {acts acts' : List GroupAction} {s s₁ s₂ : GroupSystem} {id : ℕ}
    {g a : GoString} {value content : LValue}
    (horderly : Along step (fun s act => s.orderly act = true) init (acts ++ .exec id :: acts'))
    (hrun : runFrom step init acts = some s)
    (hset : s.calls.lookup id =
      some ⟨.handleGroupSetAttribute g a value, .answer (.ok content)⟩)
    (hanswer : s.step (.exec id) = some s₁) (hrest : runFrom step s₁ acts' = some s₂)
    (hquiet : ∀ act ∈ acts', ∀ id call, act = .start id call → call.target ≠ some (g, a))
    {id' : ℕ} {result : Except Int32 LValue} (hlater : s₁.New id')
    (hget : s₂.answers.lookup id' = some (.handleGroupGetAttribute g a, result)) :
    result = .ok value := by
  obtain ⟨hbefore, hafter⟩ := horderly.append hrun
  have hsound : s.Sound :=
    invariant_run (fun _ _ _ h => Sound.step h) init_sound hbefore hrun
  obtain ⟨hexec, hafter⟩ := hafter.cons hanswer
  have hsound₁ : s₁.Sound := hsound.step hexec hanswer
  have hkept₁ : Kept s₁ g a value s₁ := hsound.kept hset hanswer
  have hinv := invariant_run (I := fun s => s.Sound ∧ Kept s₁ g a value s)
    (fun s act s' h hP hstep =>
      ⟨h.1.step hP.1 hstep, h.2.step h.1 hP.1 hP.2 hstep⟩)
    ⟨hsound₁, hkept₁⟩ (hafter.and (along_of_forall hquiet s₁)) hrest
  exact hinv.2.answered id' result hlater hget

/-- One client has joined, a second is about to, and the first sets an attribute. -/
def settingRun : List GroupAction :=
  [.start 0 .joinMovie, .exec 0, .exec 0, .exec 0, .start 1 .joinMovie,
    .start 2 (.handleGroupSetAttribute allUsers (lit "topic") (.integer 7)), .exec 2, .exec 2]

/-- The second client joins and reads the attribute. -/
def readingRun : List GroupAction :=
  [.exec 1, .start 3 (.handleGroupGetAttribute allUsers (lit "topic")), .exec 3, .exec 1, .exec 3,
    .exec 3]

theorem getAttribute_returns_set_joined : ∃ s result,
    runFrom step init (settingRun ++ .exec 2 :: readingRun) = some s ∧
      s.answers.lookup 3 = some (.handleGroupGetAttribute allUsers (lit "topic"), result) ∧
      result = .ok (.integer 7) := by
  have horderly : Along step (fun s act => s.orderly act = true) init
      (settingRun ++ .exec 2 :: readingRun) := by decide +kernel
  have hquiet : ∀ act ∈ readingRun, ∀ id call, act = .start id call →
      call.target ≠ some (allUsers, lit "topic") := by simp [readingRun, GroupCall.target]
  refine ⟨_, _, rfl, rfl, ?_⟩
  exact getAttribute_returns_set horderly rfl rfl rfl rfl hquiet
    (show GroupSystem.New _ 3 from ⟨rfl, rfl⟩) rfl

/-- Two clients join a new movie and both find no group: the second `AddGroup` replaces the
group in which an attribute has been set in the meantime. -/
theorem attribute_lost_to_second_creation : ∃ s,
    runFrom step init
        [.start 0 .joinMovie, .exec 0, .start 1 .joinMovie, .exec 1, .exec 1, .exec 1,
          .start 2 (.handleGroupSetAttribute allUsers (lit "topic") (.integer 7)), .exec 2, .exec 2,
          .exec 2, .exec 0, .exec 0,
          .start 3 (.handleGroupGetAttribute allUsers (lit "topic")), .exec 3, .exec 3, .exec 3] =
      some s ∧
      s.answers.lookup 2 =
        some (.handleGroupSetAttribute allUsers (lit "topic") (.integer 7), .ok .void) ∧
      s.answers.lookup 3 = some (.handleGroupGetAttribute allUsers (lit "topic"), .ok .void) :=
  ⟨_, rfl, rfl, rfl⟩

end GroupSystem

end Musgos.Mus
