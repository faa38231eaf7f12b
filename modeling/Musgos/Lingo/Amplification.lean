import Musgos.Lingo.Safety

/-!
# How many values a buffer decodes to

A decoded tree can have more nodes than its buffer has bytes. An element past
the end of the buffer decodes to a void of its own, a truncated point or rect
reports no size and has its components read again by what follows, and a
property list below the root is extracted twice and keeps both copies, at every
level of nesting. `weight` counts the values from type codes, lengths and counts
alone; `tame` names the buffers on which nothing of this multiplies.
-/
namespace Musgos.Lingo.LValue

open Foundation

section Nodes

mutual

/-- The values of a tree; a nil component is none. -/
def nodes : LValue → ℕ
  | .nil => 0
  | .list vs => 1 + nodesEach vs
  | .point h v => 1 + (nodes h + nodes v)
  | .rect l t r b => 1 + (nodes l + (nodes t + (nodes r + nodes b)))
  | .propList ps vs => 1 + (nodesEach ps + nodesEach vs)
  | _ => 1

def nodesEach : List LValue → ℕ
  | [] => 0
  | v :: vs => nodes v + nodesEach vs

end

theorem nodesEach_eq_sum (vs : List LValue) : nodesEach vs = (vs.map nodes).sum := by
  induction vs with
  | nil => simp [nodesEach]
  | cons v vs ih => simp [nodesEach, ih]

theorem nodes_eq {v : LValue} (h : v ≠ .nil) : v.nodes = 1 + (v.children.map nodes).sum := by
  cases v
  case nil => exact absurd rfl h
  all_goals simp [nodes, children, nodesEach_eq_sum]

end Nodes

section Offsets

variable (b : List UInt8)

def listOffsets : ℕ → ℕ → List ℕ
  | 0, _ => []
  | count + 1, offset => offset :: listOffsets count (offset + (2 + sizeAt b offset))

/-- The components of a point or rect, as far as their headers are there. -/
def fieldOffsets : ℕ → ℕ → List ℕ
  | 0, _ => []
  | k + 1, offset =>
    if b.length < offset + 2 then []
    else offset :: fieldOffsets k (offset + (2 + sizeAt b offset))

/-- The properties and values of a property list that are kept. -/
def pairOffsets : ℕ → ℕ → List (ℕ × ℕ)
  | 0, _ => []
  | remaining + 1, offset =>
    if b.length < offset + 2 then []
    else
      let next := offset + (2 + sizeAt b offset)
      if b.length < next + 2 then []
      else (offset, next) :: pairOffsets remaining (next + (2 + sizeAt b next))

/-- Where the value with its header at `offset` has its children, in the order of the buffer. -/
def childOffsets (offset : ℕ) : List ℕ :=
  if b.length < offset + 2 then []
  else
    match wordAt b 2 offset with
    | vtList =>
      if b.length < offset + 2 + 4 then []
      else if (b.length - (offset + 2) - 4) / 2 < wordAt b 4 (offset + 2) then []
      else listOffsets b (wordAt b 4 (offset + 2)) (offset + 2 + 4)
    | vtPoint => fieldOffsets b 2 (offset + 2)
    | vtRect => fieldOffsets b 4 (offset + 2)
    | vtPropList =>
      if b.length < offset + 2 + 4 then []
      else (pairOffsets b (wordAt b 4 (offset + 2)) (offset + 2 + 4)).flatMap fun e => [e.1, e.2]
    | _ => []

def isPropList (offset : ℕ) : Bool :=
  decide (offset + 2 ≤ b.length) && wordAt b 2 offset == vtPropList

/-- The number of values that decoding at an offset creates: one for each header that is
read, twice that for everything inside a property list that is nested. -/
def weightFuel : ℕ → Bool → ℕ → ℕ
  | 0, _, _ => 0
  | fuel + 1, nested, offset =>
    1 + (if nested && isPropList b offset then 2 else 1) *
      ((childOffsets b offset).map (weightFuel fuel true)).sum

def weight : ℕ := weightFuel b (b.length + 1) false 0

/-- A point or rect has all its components. -/
def fieldsComplete (offset : ℕ) : Bool :=
  match wordAt b 2 offset with
  | vtPoint => (childOffsets b offset).length == 2
  | vtRect => (childOffsets b offset).length == 4
  | _ => true

/-- Below an offset every header is inside the buffer, points and rects are complete, and
property lists with pairs are not inside each other; `spare` is false inside one. -/
def tameFuel : ℕ → Bool → ℕ → Bool
  | 0, _, _ => true
  | fuel + 1, spare, offset =>
    decide (offset + 2 ≤ b.length) && fieldsComplete b offset &&
      if isPropList b offset && !(childOffsets b offset).isEmpty then
        spare && (childOffsets b offset).all (tameFuel fuel false)
      else (childOffsets b offset).all (tameFuel fuel spare)

/-- The same for all children of the value at the start of the buffer. -/
def tame : Bool := (childOffsets b 0).all (tameFuel b b.length true)

end Offsets

section Decoded

variable (b : List UInt8)

/-- `FromRawBytes` at the offset of a header. -/
def decodedAt (offset : ℕ) : LValue :=
  (fromRawBytesBy (extractFromBytes b) b offset).getD .void

theorem fromRawBytesBy_decodedAt (offset : ℕ) :
    fromRawBytesBy (extractFromBytes b) b offset = some (decodedAt b offset) ∧
      readChild b offset = some ((decodedAt b offset).again, sizeAt b offset) := by
  obtain ⟨v, n, hv, hchild, hscan⟩ := fromRawBytesBy_scan (b := b) offset
    fun code o _ => scanFuel_tracks (b.length + 1) code o (by omega) (by omega)
  have hdecoded : decodedAt b offset = v := by simp [decodedAt, hv]
  have hsize : sizeAt b offset = n := by simp [sizeAt, hscan]
  rw [hdecoded, hsize]
  exact ⟨hv, hchild⟩

variable {b}

theorem childBy_decodedAt (offset : ℕ) :
    childBy (extractFromBytes b) b offset =
      some ((decodedAt b offset).again, sizeAt b offset) :=
  (fromRawBytesBy_decodedAt b offset).2

theorem decodedAt_short {offset : ℕ} (h : b.length < offset + 2) : decodedAt b offset = .void := by
  simp [decodedAt, (readChild_short h).1]

theorem totalFrom_extractFromBytes (b : List UInt8) (start : ℕ) :
    TotalFrom (extractFromBytes b) start :=
  fun _ _ hobj _ => extractFromBytes_total b hobj _

theorem decodedAt_ne_nil (offset : ℕ) : decodedAt b offset ≠ .nil := by
  obtain ⟨v, hv, hne⟩ := fromRawBytesBy_total (b := b) (totalFrom_extractFromBytes b (offset + 2))
  rw [decodedAt, hv]
  exact hne

/-- The value and the size behind a complete header. -/
theorem extractBy_decodedAt {offset : ℕ} (h : offset + 2 ≤ b.length) :
    extractBy (extractFromBytes b) b (blank (wordAt b 2 offset)) (offset + 2) =
      some (decodedAt b offset, sizeAt b offset) := by
  obtain ⟨⟨v, n⟩, hv, -⟩ :=
    extractFromBytes_total b (blank_ne_nil (wordAt b 2 offset)) (offset + 2)
  obtain ⟨hfirst, hchild⟩ := readChild_eq (uintAt_eq_wordAt 2 offset h) h hv
  obtain ⟨hdecoded, hagain⟩ := fromRawBytesBy_decodedAt b offset
  obtain rfl : v = decodedAt b offset := Option.some.inj (hfirst.symm.trans hdecoded)
  have hsize := Option.some.inj (hchild.symm.trans hagain)
  rw [← extractFromBytes_eq, hv, (Prod.mk.inj hsize).2]

/-- The values stand one behind the other. -/
def Adjacent (b : List UInt8) : ℕ → List ℕ → Prop
  | _, [] => True
  | offset, c :: cs => c = offset ∧ Adjacent b (offset + (2 + sizeAt b offset)) cs

/-- The bytes the values take together. -/
def span (b : List UInt8) (cs : List ℕ) : ℕ := (cs.map fun c => 2 + sizeAt b c).sum

theorem span_cons (c : ℕ) (cs : List ℕ) : span b (c :: cs) = 2 + sizeAt b c + span b cs := by
  simp [span]

theorem Adjacent.le {offset : ℕ} {cs : List ℕ} (h : Adjacent b offset cs) :
    ∀ c ∈ cs, offset ≤ c := by
  induction cs generalizing offset with
  | nil => simp
  | cons c cs ih =>
    obtain ⟨rfl, hrest⟩ := h
    intro c' hc'
    rcases List.mem_cons.mp hc' with rfl | hc'
    · exact le_rfl
    · exact (Nat.le_add_right _ _).trans (ih hrest c' hc')

theorem Adjacent.span_le {offset limit : ℕ} {cs : List ℕ} (h : Adjacent b offset cs)
    (hoffset : offset ≤ limit) (hcs : ∀ c ∈ cs, c + (2 + sizeAt b c) ≤ limit) :
    offset + span b cs ≤ limit := by
  induction cs generalizing offset with
  | nil => simpa [span] using hoffset
  | cons c cs ih =>
    obtain ⟨rfl, hrest⟩ := h
    have hfirst := hcs c (List.mem_cons_self ..)
    have := ih hrest hfirst fun c' hc' => hcs c' (List.mem_cons_of_mem c hc')
    rw [span_cons]
    omega

theorem listLoop_offsets (count offset : ℕ) :
    listLoop (extractFromBytes b) b count offset =
      some ((listOffsets b count offset).map fun c => (decodedAt b c).again,
        offset + span b (listOffsets b count offset)) ∧
      Adjacent b offset (listOffsets b count offset) := by
  induction count generalizing offset with
  | zero => exact ⟨by simp [listLoop, listOffsets, span], trivial⟩
  | succ count ih =>
    obtain ⟨hloop, hadjacent⟩ := ih (offset + (2 + sizeAt b offset))
    refine ⟨?_, rfl, hadjacent⟩
    simp only [listLoop, childBy_decodedAt, Option.bind_eq_bind, Option.bind_some, hloop,
      Option.pure_def, listOffsets, List.map_cons, span_cons, Option.some.injEq, Prod.mk.injEq,
      true_and]
    omega

theorem fieldLoop_offsets (offset k consumed : ℕ) :
    ∃ size, fieldLoop (extractFromBytes b) b offset consumed (List.replicate k .nil) =
        some ((fieldOffsets b k (offset + consumed)).map (fun c => (decodedAt b c).again) ++
          List.replicate (k - (fieldOffsets b k (offset + consumed)).length) .nil, size) ∧
      Adjacent b (offset + consumed) (fieldOffsets b k (offset + consumed)) ∧
      ((fieldOffsets b k (offset + consumed)).length = k →
        size = some (consumed + span b (fieldOffsets b k (offset + consumed)))) := by
  induction k generalizing consumed with
  | zero =>
    exact ⟨some consumed, by simp [fieldLoop, fieldOffsets], trivial, by simp [fieldOffsets, span]⟩
  | succ k ih =>
    by_cases hlen : b.length < offset + consumed + 2
    · refine ⟨none, ?_, ?_, ?_⟩
      · simp [List.replicate_succ, fieldLoop, fieldOffsets, hlen]
      · simp [fieldOffsets, hlen, Adjacent]
      · simp [fieldOffsets, hlen]
    · obtain ⟨size, hloop, hadjacent, hsize⟩ := ih (consumed + (2 + sizeAt b (offset + consumed)))
      rw [← Nat.add_assoc offset consumed] at hloop hadjacent hsize
      refine ⟨size, ?_, ?_, ?_⟩
      · simp [List.replicate_succ, fieldLoop, fieldOffsets, hlen, childBy_decodedAt, hloop]
      · simpa [fieldOffsets, hlen, Adjacent] using hadjacent
      · intro hlength
        simp only [fieldOffsets, hlen, if_false, List.length_cons, Nat.add_right_cancel_iff]
          at hlength
        rw [hsize hlength]
        simp only [fieldOffsets, hlen, if_false, span_cons, Option.some.injEq]
        omega

theorem pairLoop_offsets (offset remaining chunk : ℕ) :
    pairLoop (extractFromBytes b) b offset remaining chunk =
      some ((pairOffsets b remaining (offset + chunk)).map
          fun e => ((decodedAt b e.1).again, (decodedAt b e.2).again),
        chunk + span b ((pairOffsets b remaining (offset + chunk)).flatMap fun e => [e.1, e.2])) ∧
      Adjacent b (offset + chunk)
        ((pairOffsets b remaining (offset + chunk)).flatMap fun e => [e.1, e.2]) := by
  induction remaining generalizing chunk with
  | zero => exact ⟨by simp [pairLoop, pairOffsets, span], trivial⟩
  | succ remaining ih =>
    by_cases hlen : b.length < offset + chunk + 2
    · exact ⟨by simp [pairLoop, pairOffsets, hlen, span], by simp [pairOffsets, hlen, Adjacent]⟩
    have hnext : offset + (chunk + 2 + sizeAt b (offset + chunk)) =
        offset + chunk + (2 + sizeAt b (offset + chunk)) := by omega
    by_cases hvalue : b.length < offset + chunk + (2 + sizeAt b (offset + chunk)) + 2
    · refine ⟨?_, by simp [pairOffsets, hlen, hvalue, Adjacent]⟩
      simp [pairLoop, pairOffsets, hlen, childBy_decodedAt, hnext, hvalue, span]
    · obtain ⟨hloop, hadjacent⟩ := ih (chunk + 2 + sizeAt b (offset + chunk) + 2 +
        sizeAt b (offset + chunk + (2 + sizeAt b (offset + chunk))))
      have hrest : offset + (chunk + 2 + sizeAt b (offset + chunk) + 2 +
            sizeAt b (offset + chunk + (2 + sizeAt b (offset + chunk)))) =
          offset + chunk + (2 + sizeAt b (offset + chunk)) +
            (2 + sizeAt b (offset + chunk + (2 + sizeAt b (offset + chunk)))) := by omega
      rw [hrest] at hloop hadjacent
      refine ⟨?_, ?_⟩
      · simp only [pairLoop, hlen, if_false, childBy_decodedAt, Option.bind_eq_bind,
          Option.bind_some, hnext, hvalue, hloop, Option.pure_def, pairOffsets, List.map_cons,
          List.flatMap_cons, List.cons_append, List.nil_append, span_cons, Option.some.injEq,
          Prod.mk.injEq, true_and]
        omega
      · simpa [pairOffsets, hlen, hvalue, Adjacent] using hadjacent

/-- The values below the one at `offset`, as its container sees them. -/
def childNodes (b : List UInt8) (offset : ℕ) : ℕ :=
  ((childOffsets b offset).map fun c => (decodedAt b c).again.nodes).sum

/-- How the value behind a complete header lies in the buffer: after `lead` bytes of its own
come its children, and it has as many nodes as they have, or twice that when read again. -/
structure Laid (b : List UInt8) (offset lead : ℕ) : Prop where
  inside : offset + 2 + lead ≤ b.length + 1
  adjacent : Adjacent b (offset + 2 + lead) (childOffsets b offset)
  size : fieldsComplete b offset = true → sizeAt b offset = lead + span b (childOffsets b offset)
  once : (decodedAt b offset).nodes = 1 + childNodes b offset
  twice : (decodedAt b offset).again.nodes =
    1 + (if isPropList b offset then 2 else 1) * childNodes b offset

theorem length_le_of_countedBytes {offset : ℕ} {d : List UInt8}
    (h : countedBytes b offset = some (some d)) : offset + (4 + d.length) ≤ b.length := by
  obtain ⟨r, hr, hscan⟩ := countedBytes_scan (b := b) offset
  obtain rfl : some d = r := Option.some.inj (h.symm.trans hr)
  have hsize := hscan fun _ => 0
  simp only [scanCounted, Option.elim_some] at hsize
  split_ifs at hsize <;> omega

/-- The types without children. The padding of an odd string may lie behind the buffer. -/
theorem extractBy_leaf {ext : LValue → ℕ → Option (LValue × ℕ)} {code offset n : ℕ} {v : LValue}
    (hcode : code ≠ vtList ∧ code ≠ vtPoint ∧ code ≠ vtRect ∧ code ≠ vtPropList)
    (hoffset : offset ≤ b.length) (h : extractBy ext b (blank code) offset = some (v, n)) :
    v.nodes = 1 ∧ v.again = v ∧ offset + n ≤ b.length + 1 := by
  unfold blank at h
  split at h <;> simp only [extractBy] at h
  case h_2 | h_3 | h_4 =>
    obtain ⟨_ | d, hd⟩ := countedBytes_total (b := b) offset
    · rw [hd] at h
      cases h
      exact ⟨rfl, rfl, by omega⟩
    · have hlength := length_le_of_countedBytes hd
      rw [hd] at h
      cases h
      exact ⟨rfl, rfl, by omega⟩
  case h_6 | h_7 | h_8 | h_9 => simp at hcode
  case h_12 | h_15 =>
    cases h
    exact ⟨rfl, rfl, by omega⟩
  all_goals
    split_ifs at h with hlen
    · cases h
      exact ⟨rfl, rfl, by omega⟩
    · simp only [Option.bind_eq_bind, Option.bind_eq_some_iff, Option.pure_def,
        Option.some.injEq, Prod.mk.injEq] at h
      first
        | obtain ⟨_, _, rfl, rfl⟩ := h
          exact ⟨rfl, rfl, by omega⟩
        | obtain ⟨_, _, _, _, _, _, rfl, rfl⟩ := h
          exact ⟨rfl, rfl, by omega⟩

theorem laid_leaf {offset : ℕ} (h : offset + 2 ≤ b.length)
    (hcode : wordAt b 2 offset ≠ vtList ∧ wordAt b 2 offset ≠ vtPoint ∧
      wordAt b 2 offset ≠ vtRect ∧ wordAt b 2 offset ≠ vtPropList) :
    Laid b offset (sizeAt b offset) := by
  obtain ⟨hnodes, hagain, hend⟩ := extractBy_leaf hcode h (extractBy_decodedAt h)
  have hchildren : childOffsets b offset = [] := by
    rw [childOffsets, if_neg (Nat.not_lt.mpr h)]
    split <;> first | rfl | simp_all
  constructor
  case inside => exact hend
  case adjacent => simp [hchildren, Adjacent]
  case size => simp [hchildren, span]
  case once => simp [childNodes, hchildren, hnodes]
  case twice => simp [childNodes, hchildren, hagain, hnodes]

/-- A value other than a property list, with its children one by one. -/
theorem laid_of_children {offset lead : ℕ} (hinside : offset + 2 + lead ≤ b.length + 1)
    (hadjacent : Adjacent b (offset + 2 + lead) (childOffsets b offset))
    (hsize : fieldsComplete b offset = true →
      sizeAt b offset = lead + span b (childOffsets b offset))
    (hprop : isPropList b offset = false) (hagain : (decodedAt b offset).again = decodedAt b offset)
    (hchildren : ((decodedAt b offset).children.map nodes).sum = childNodes b offset) :
    Laid b offset lead := by
  have honce : (decodedAt b offset).nodes = 1 + childNodes b offset := by
    rw [nodes_eq (decodedAt_ne_nil offset), hchildren]
  refine ⟨hinside, hadjacent, hsize, honce, ?_⟩
  rw [hagain, honce, hprop, if_neg Bool.false_ne_true, one_mul]

theorem laid_list {offset : ℕ} (h : offset + 2 ≤ b.length) (hcode : wordAt b 2 offset = vtList) :
    ∃ lead, Laid b offset lead := by
  have hdecoded := extractBy_decodedAt h
  have hprop : isPropList b offset = false := by simp [isPropList, hcode]
  have hoffsets : childOffsets b offset =
      if b.length < offset + 2 + 4 then []
      else if (b.length - (offset + 2) - 4) / 2 < wordAt b 4 (offset + 2) then []
      else listOffsets b (wordAt b 4 (offset + 2)) (offset + 2 + 4) := by
    simp only [childOffsets, if_neg (Nat.not_lt.mpr h), hcode]
  simp only [hcode, blank, extractBy] at hdecoded
  by_cases hlen : b.length < offset + 2 + 4
  · simp only [hlen, if_true, Option.some.injEq, Prod.mk.injEq] at hdecoded hoffsets
    refine ⟨0, laid_of_children (by omega) ?_ ?_ hprop ?_ ?_⟩ <;>
      simp [hoffsets, ← hdecoded.1, ← hdecoded.2, Adjacent, span, again, children, childNodes]
  have hword := uintAt_eq_wordAt (b := b) 4 (offset + 2) (by omega)
  simp only [hlen, if_false, hword, Option.bind_eq_bind, Option.bind_some] at hdecoded hoffsets
  by_cases hmax : (b.length - (offset + 2) - 4) / 2 < wordAt b 4 (offset + 2)
  · simp only [hmax, if_true, Option.pure_def, Option.some.injEq, Prod.mk.injEq]
      at hdecoded hoffsets
    refine ⟨0, laid_of_children (by omega) ?_ ?_ hprop ?_ ?_⟩ <;>
      simp [hoffsets, ← hdecoded.1, ← hdecoded.2, Adjacent, span, again, children, childNodes]
  obtain ⟨hloop, hadjacent⟩ := listLoop_offsets (b := b) (wordAt b 4 (offset + 2)) (offset + 2 + 4)
  simp only [hmax, if_false] at hoffsets
  rw [← hoffsets] at hloop hadjacent
  simp only [hmax, if_false, hloop, Option.bind_some, Option.pure_def, Option.some.injEq,
    Prod.mk.injEq] at hdecoded
  refine ⟨4, laid_of_children (by omega) hadjacent ?_ hprop ?_ ?_⟩
  · intro _
    rw [← hdecoded.2]
    omega
  · simp [← hdecoded.1, again]
  · simp [← hdecoded.1, children, childNodes, Function.comp_def]

/-- The components a point or rect has keep their place, and a missing one counts nothing. -/
theorem laid_fields {offset k : ℕ} {fs : List LValue} {size : Option ℕ}
    (h : offset + 2 ≤ b.length) (hprop : isPropList b offset = false)
    (hoffsets : childOffsets b offset = fieldOffsets b k (offset + 2))
    (hcomplete : fieldsComplete b offset = true → (childOffsets b offset).length = k)
    (hloop : fieldLoop (extractFromBytes b) b (offset + 2) 0 (List.replicate k .nil) =
      some (fs, size))
    (hagain : (decodedAt b offset).again = decodedAt b offset)
    (hchildren : (decodedAt b offset).children = fs) (hsize : sizeAt b offset = size.getD 0) :
    Laid b offset 0 := by
  obtain ⟨size', hloop', hadjacent, hfull⟩ := fieldLoop_offsets (b := b) (offset + 2) k 0
  rw [Nat.add_zero, ← hoffsets] at hloop' hadjacent hfull
  obtain ⟨rfl, rfl⟩ := Prod.mk.inj (Option.some.inj (hloop.symm.trans hloop'))
  refine laid_of_children (by omega) hadjacent ?_ hprop hagain ?_
  · intro hc
    rw [hsize, hfull (hcomplete hc), Option.getD_some]
  · rw [hchildren]
    simp [childNodes, Function.comp_def, nodes]

theorem laid_point {offset : ℕ} (h : offset + 2 ≤ b.length) (hcode : wordAt b 2 offset = vtPoint) :
    Laid b offset 0 := by
  have hdecoded := extractBy_decodedAt h
  obtain ⟨⟨fs, size⟩, hloop, hlength⟩ := fieldLoop_total (b := b)
    (fun _ => totalFrom_extractFromBytes b (offset + 2 + 2)) (List.replicate 2 .nil) 0
  obtain ⟨x, y, rfl⟩ := List.length_eq_two.mp hlength
  simp only [hcode, blank, extractBy, List.replicate] at hdecoded hloop
  simp only [hloop, Option.bind_eq_bind, Option.bind_some, Option.pure_def, Option.some.injEq,
    Prod.mk.injEq] at hdecoded
  refine laid_fields (k := 2) h (by simp [isPropList, hcode]) ?_ ?_ hloop ?_ ?_ hdecoded.2.symm
  · simp only [childOffsets, if_neg (Nat.not_lt.mpr h), hcode]
  · simp [fieldsComplete, hcode]
  · rw [← hdecoded.1]
    rfl
  · rw [← hdecoded.1]
    rfl

theorem laid_rect {offset : ℕ} (h : offset + 2 ≤ b.length) (hcode : wordAt b 2 offset = vtRect) :
    Laid b offset 0 := by
  have hdecoded := extractBy_decodedAt h
  obtain ⟨⟨fs, size⟩, hloop, hlength⟩ := fieldLoop_total (b := b)
    (fun _ => totalFrom_extractFromBytes b (offset + 2 + 2)) (List.replicate 4 .nil) 0
  obtain ⟨x, y, z, w, rfl⟩ := List.length_eq_four.mp hlength
  simp only [hcode, blank, extractBy, List.replicate] at hdecoded hloop
  simp only [hloop, Option.bind_eq_bind, Option.bind_some, Option.pure_def, Option.some.injEq,
    Prod.mk.injEq] at hdecoded
  refine laid_fields (k := 4) h (by simp [isPropList, hcode]) ?_ ?_ hloop ?_ ?_ hdecoded.2.symm
  · simp only [childOffsets, if_neg (Nat.not_lt.mpr h), hcode]
  · simp [fieldsComplete, hcode]
  · rw [← hdecoded.1]
    rfl
  · rw [← hdecoded.1]
    rfl

theorem sum_flatMap_pair (f : ℕ → ℕ) (pairs : List (ℕ × ℕ)) :
    ((pairs.flatMap fun e => [e.1, e.2]).map f).sum =
      (pairs.map fun e => f e.1).sum + (pairs.map fun e => f e.2).sum := by
  induction pairs with
  | nil => rfl
  | cons e pairs ih =>
    simp only [List.flatMap_cons, List.cons_append, List.nil_append, List.map_cons, List.sum_cons,
      ih]
    omega

/-- A property list keeps a second copy of its pairs when it is read again. -/
theorem laid_propList {offset : ℕ} (h : offset + 2 ≤ b.length)
    (hcode : wordAt b 2 offset = vtPropList) : ∃ lead, Laid b offset lead := by
  have hdecoded := extractBy_decodedAt h
  have hprop : isPropList b offset = true := by simp [isPropList, hcode, h]
  have hoffsets : childOffsets b offset =
      if b.length < offset + 2 + 4 then []
      else (pairOffsets b (wordAt b 4 (offset + 2)) (offset + 2 + 4)).flatMap
        fun e => [e.1, e.2] := by
    simp only [childOffsets, if_neg (Nat.not_lt.mpr h), hcode]
  simp only [hcode, blank, extractBy] at hdecoded
  by_cases hlen : b.length < offset + 2 + 4
  · simp only [hlen, if_true, Option.some.injEq, Prod.mk.injEq] at hdecoded hoffsets
    refine ⟨0, by omega, ?_, ?_, ?_, ?_⟩ <;>
      simp [hoffsets, ← hdecoded.1, ← hdecoded.2, Adjacent, span, again, nodes, nodesEach,
        childNodes]
  have hword := uintAt_eq_wordAt (b := b) 4 (offset + 2) (by omega)
  obtain ⟨hloop, hadjacent⟩ := pairLoop_offsets (b := b) (offset + 2) (wordAt b 4 (offset + 2)) 4
  simp only [hlen, if_false] at hoffsets
  rw [← hoffsets] at hloop hadjacent
  simp only [hlen, if_false, hword, hloop, Option.bind_eq_bind, Option.bind_some, Option.pure_def,
    Option.some.injEq, Prod.mk.injEq, List.nil_append, List.map_map] at hdecoded
  have hsum := sum_flatMap_pair (fun c => (decodedAt b c).again.nodes)
    (pairOffsets b (wordAt b 4 (offset + 2)) (offset + 2 + 4))
  rw [← hoffsets] at hsum
  refine ⟨4, by omega, hadjacent, fun _ => hdecoded.2.symm, ?_, ?_⟩
  · rw [← hdecoded.1, childNodes, hsum]
    simp [nodes, nodesEach_eq_sum, Function.comp_def]
  · rw [← hdecoded.1, childNodes, hsum, hprop, if_pos rfl]
    simp only [again, nodes, nodesEach_eq_sum, List.map_append, List.sum_append, List.map_map,
      Function.comp_def]
    omega

/-- Every value behind a complete header is laid out like this. -/
theorem exists_laid {offset : ℕ} (h : offset + 2 ≤ b.length) : ∃ lead, Laid b offset lead := by
  by_cases hlist : wordAt b 2 offset = vtList
  · exact laid_list h hlist
  by_cases hpoint : wordAt b 2 offset = vtPoint
  · exact ⟨0, laid_point h hpoint⟩
  by_cases hrect : wordAt b 2 offset = vtRect
  · exact ⟨0, laid_rect h hrect⟩
  by_cases hprop : wordAt b 2 offset = vtPropList
  · exact laid_propList h hprop
  exact ⟨_, laid_leaf h ⟨hlist, hpoint, hrect, hprop⟩⟩

theorem childOffsets_short {offset : ℕ} (h : b.length < offset + 2) :
    childOffsets b offset = [] := if_pos h

theorem le_of_mem_childOffsets {offset c : ℕ} (hc : c ∈ childOffsets b offset) :
    offset + 2 ≤ b.length ∧ offset + 2 ≤ c := by
  have h : offset + 2 ≤ b.length := by
    by_contra hshort
    rw [childOffsets_short (Nat.lt_of_not_le hshort)] at hc
    cases hc
  obtain ⟨lead, hlaid⟩ := exists_laid h
  exact ⟨h, (Nat.le_add_right _ _).trans (hlaid.adjacent.le c hc)⟩

theorem nodes_eq_childNodes (offset : ℕ) :
    (decodedAt b offset).nodes = 1 + childNodes b offset ∧
      (decodedAt b offset).again.nodes =
        1 + (if isPropList b offset then 2 else 1) * childNodes b offset := by
  by_cases h : offset + 2 ≤ b.length
  · obtain ⟨lead, hlaid⟩ := exists_laid h
    exact ⟨hlaid.once, hlaid.twice⟩
  · have hshort := Nat.lt_of_not_le h
    simp [decodedAt_short hshort, childNodes, childOffsets_short hshort, again, nodes]

/-- The weight is the number of values, before and after the second extraction. -/
theorem nodes_eq_weightFuel (fuel offset : ℕ) (hfuel : 1 ≤ fuel) (hb : b.length < fuel + offset) :
    (decodedAt b offset).nodes = weightFuel b fuel false offset ∧
      (decodedAt b offset).again.nodes = weightFuel b fuel true offset := by
  induction fuel generalizing offset with
  | zero => omega
  | succ fuel ih =>
    have hsum : childNodes b offset =
        ((childOffsets b offset).map (weightFuel b fuel true)).sum := by
      refine congrArg List.sum (List.map_congr_left fun c hc => ?_)
      obtain ⟨hlen, hle⟩ := le_of_mem_childOffsets hc
      exact (ih c (by omega) (by omega)).2
    obtain ⟨honce, htwice⟩ := nodes_eq_childNodes (b := b) offset
    rw [hsum] at honce htwice
    exact ⟨by simp [honce, weightFuel], by simp [htwice, weightFuel]⟩

end Decoded

section Bound

variable {b : List UInt8}

/-- A value has at most as many nodes as its size in bytes allows. Outside of property lists
there is room to count it twice. -/
def Affordable (spare : Bool) (count size : ℕ) : Prop :=
  if spare then count ≤ 1 + size else 2 * count ≤ 2 + size

theorem sum_le_span {w : ℕ → ℕ} {cs : List ℕ} (h : ∀ c ∈ cs, Affordable true (w c) (sizeAt b c)) :
    (cs.map w).sum ≤ span b cs := by
  refine List.sum_le_sum fun c hc => ?_
  have := h c hc
  simp only [Affordable, if_true] at this
  omega

theorem two_mul_sum_le_span {w : ℕ → ℕ} {cs : List ℕ}
    (h : ∀ c ∈ cs, Affordable false (w c) (sizeAt b c)) : 2 * (cs.map w).sum ≤ span b cs := by
  rw [← List.sum_map_mul_left]
  exact List.sum_le_sum fun c hc => h c hc

theorem inside_of_tame {fuel offset : ℕ} {spare : Bool} (hfuel : 1 ≤ fuel)
    (h : tameFuel b fuel spare offset = true) : offset + 2 ≤ b.length := by
  obtain ⟨fuel, rfl⟩ : ∃ k, fuel = k + 1 := ⟨fuel - 1, by omega⟩
  simp only [tameFuel, Bool.and_eq_true, decide_eq_true_iff] at h
  exact h.1.1

/-- In a tame buffer a value ends where the buffer does, up to one byte of padding, and its
weight is affordable. -/
theorem affordable_of_tame (fuel : ℕ) (spare : Bool) (offset : ℕ) (hfuel : 1 ≤ fuel)
    (hb : b.length < fuel + offset) (h : tameFuel b fuel spare offset = true) :
    offset + (2 + sizeAt b offset) ≤ b.length + 1 ∧
      Affordable spare (weightFuel b fuel true offset) (sizeAt b offset) := by
  induction fuel generalizing spare offset with
  | zero => omega
  | succ fuel ih =>
    have hlen := inside_of_tame hfuel h
    obtain ⟨lead, hlaid⟩ := exists_laid hlen
    simp only [tameFuel, Bool.and_eq_true] at h
    obtain ⟨⟨-, hcomplete⟩, hbelow⟩ := h
    have hsize := hlaid.size hcomplete
    have hchild : ∀ spare', (childOffsets b offset).all (tameFuel b fuel spare') = true →
        ∀ c ∈ childOffsets b offset, c + (2 + sizeAt b c) ≤ b.length + 1 ∧
          Affordable spare' (weightFuel b fuel true c) (sizeAt b c) := by
      intro spare' hall c hc
      obtain ⟨-, hle⟩ := le_of_mem_childOffsets hc
      exact ih spare' c (by omega) (by omega) (List.all_eq_true.mp hall c hc)
    have hend : ∀ spare', (childOffsets b offset).all (tameFuel b fuel spare') = true →
        offset + (2 + sizeAt b offset) ≤ b.length + 1 := by
      intro spare' hall
      have := hlaid.adjacent.span_le hlaid.inside fun c hc => (hchild spare' hall c hc).1
      omega
    split_ifs at hbelow with hdouble
    · obtain ⟨rfl, hall⟩ := Bool.and_eq_true_iff.mp hbelow
      have hsum := two_mul_sum_le_span fun c hc => (hchild false hall c hc).2
      refine ⟨hend false hall, ?_⟩
      simp only [Affordable, if_true, weightFuel, hdouble.1, Bool.and_self]
      omega
    · have hfactor : weightFuel b (fuel + 1) true offset =
          1 + ((childOffsets b offset).map (weightFuel b fuel true)).sum := by
        cases hprop : isPropList b offset with
        | false => simp [weightFuel, hprop]
        | true =>
          have hempty : childOffsets b offset = [] := by simpa [hprop] using hdouble
          simp [weightFuel, hempty]
      refine ⟨hend spare hbelow, ?_⟩
      cases spare with
      | true =>
        have hsum := sum_le_span fun c hc => (hchild true hbelow c hc).2
        simp only [Affordable, if_true, hfactor]
        omega
      | false =>
        have hsum := two_mul_sum_le_span fun c hc => (hchild false hbelow c hc).2
        simp only [Affordable, hfactor]
        simp only [Bool.false_eq_true, if_false]
        omega

theorem weight_le_of_tame (h : tame b = true) : weight b ≤ b.length + 1 := by
  by_cases hlen : 0 + 2 ≤ b.length
  · obtain ⟨lead, hlaid⟩ := exists_laid hlen
    have hchild : ∀ c ∈ childOffsets b 0, c + (2 + sizeAt b c) ≤ b.length + 1 ∧
        Affordable true (weightFuel b b.length true c) (sizeAt b c) := by
      intro c hc
      obtain ⟨-, hle⟩ := le_of_mem_childOffsets hc
      exact affordable_of_tame b.length true c (by omega) (by omega) (List.all_eq_true.mp h c hc)
    have hend := hlaid.adjacent.span_le hlaid.inside fun c hc => (hchild c hc).1
    have hsum := sum_le_span fun c hc => (hchild c hc).2
    simp only [weight, weightFuel, Bool.false_and, Bool.false_eq_true, if_false, one_mul]
    omega
  · simp [weight, weightFuel, childOffsets_short (Nat.lt_of_not_le hlen)]

/-- For every buffer the number of decoded values is the weight of its headers, so it stays
within the length exactly when that does; and it does in every tame buffer. -/
theorem nodes_le_iff (b : List UInt8) : ∃ v, fromRawBytes b 0 = some v ∧
    (v.nodes ≤ b.length + 1 ↔ weight b ≤ b.length + 1) ∧
    (tame b = true → v.nodes ≤ b.length + 1) := by
  have hnodes : (decodedAt b 0).nodes = weight b :=
    (nodes_eq_weightFuel (b.length + 1) 0 (by omega) (by omega)).1
  refine ⟨decodedAt b 0, ?_, by rw [hnodes], fun h => by rw [hnodes]; exact weight_le_of_tame h⟩
  rw [fromRawBytes, if_pos (by norm_num)]
  exact (fromRawBytesBy_decodedAt b 0).1

/-- A list that holds a property list, with a property `#a` and an integer. -/
def taggedList : List UInt8 :=
  [0, 7, 0, 0, 0, 1, 0, 10, 0, 0, 0, 1, 0, 2, 0, 0, 0, 1, 97, 0, 0, 1, 0, 0, 0, 5]

theorem nodes_le_iff_taggedList : tame taggedList = true ∧
    ∃ v, fromRawBytes taggedList 0 = some v ∧ v.nodes ≤ taggedList.length + 1 := by
  have htame : tame taggedList = true := by decide +kernel
  obtain ⟨v, hv, -, hle⟩ := nodes_le_iff taggedList
  exact ⟨htame, v, hv, hle htame⟩

/-- Property lists of one pair, one inside the other. -/
def nestedPropLists : ℕ → List UInt8
  | 0 => [0, 0]
  | k + 1 => [0, 10, 0, 0, 0, 1, 0, 0] ++ nestedPropLists k

/-- Each level takes eight bytes and doubles the number of values below it. -/
theorem nestedPropLists_amplified : (nestedPropLists 5).length = 42 ∧
    (fromRawBytes (nestedPropLists 5) 0).map nodes = some 63 := by
  decide +kernel

end Bound

end Musgos.Lingo.LValue
