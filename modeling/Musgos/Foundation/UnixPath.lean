import Mathlib.Data.List.Infix
import Mathlib.Tactic
import Musgos.Foundation.Bytes

/-!
# Unix paths, taken lexically

`filepath.Clean`, `Join` and `Abs` look at the text of a path only. A path is a sequence of
parts between slashes, rooted or not; a part `..` takes away the one before it. Cleaning
writes the parts that are left. Where a file is said to be is compared by these parts, which
unlike a prefix of the text do not cut a name in two.
-/
namespace Musgos.Foundation.UnixPath

def slash : UInt8 := 47

def dot : GoString := [46]

def dotdot : GoString := [46, 46]

def isAbs (path : GoString) : Bool := path.head? == some slash

/-- The parts of a path; an empty one and `.` stand for nothing. -/
def parts (path : GoString) : List GoString :=
  (path.splitOn slash).filter fun p => p ≠ [] ∧ p ≠ dot

/-- One more part, on a stack of those before it. Above the root there is nothing. -/
def push (rooted : Bool) (stack : List GoString) (part : GoString) : List GoString :=
  if part = dotdot then
    match stack with
    | [] => if rooted then [] else [dotdot]
    | top :: rest => if top = dotdot then dotdot :: top :: rest else rest
  else part :: stack

def resolve (rooted : Bool) (ps : List GoString) : List GoString :=
  (ps.foldl (push rooted) []).reverse

def render (rooted : Bool) (ps : List GoString) : GoString :=
  if rooted then slash :: [slash].intercalate ps
  else if ps = [] then dot else [slash].intercalate ps

/-- `filepath.Clean`. -/
def clean (path : GoString) : GoString := render (isAbs path) (resolve (isAbs path) (parts path))

/-- `filepath.Join` of two elements. -/
def join (a b : GoString) : GoString :=
  if a ≠ [] then clean (a ++ slash :: b) else if b ≠ [] then clean b else []

/-- `filepath.Abs`, from the working directory. -/
def abs (wd path : GoString) : GoString := if isAbs path then clean path else join wd path

section Parts

/-- What a part of a clean path looks like. -/
def Proper (p : GoString) : Prop := p ≠ [] ∧ p ≠ dot ∧ slash ∉ p

theorem notMem_of_mem_splitOn {path p : GoString} (h : p ∈ path.splitOn slash) : slash ∉ p := by
  induction path generalizing p with
  | nil =>
    rw [List.splitOn_nil, List.mem_singleton] at h
    rw [h]
    exact List.not_mem_nil
  | cons x xs ih =>
    rw [List.splitOn_cons_eq_if_modifyHead] at h
    split_ifs at h with hx
    · rcases List.mem_cons.mp h with rfl | h
      · exact List.not_mem_nil
      · exact ih h
    · obtain ⟨q, qs, hq⟩ := List.exists_cons_of_ne_nil (List.splitOn_ne_nil slash xs)
      rw [hq, List.modifyHead_cons] at h
      rcases List.mem_cons.mp h with rfl | h
      · have hslash := ih (hq ▸ List.mem_cons_self)
        have hne : slash ≠ x := fun hne => hx (by rw [hne]; exact beq_self_eq_true x)
        rw [List.mem_cons, not_or]
        exact ⟨hne, hslash⟩
      · exact ih (hq ▸ List.mem_cons_of_mem q h)

theorem proper_of_mem_parts {path p : GoString} (h : p ∈ parts path) : Proper p := by
  simp only [parts, List.mem_filter, decide_eq_true_eq] at h
  exact ⟨h.2.1, h.2.2, notMem_of_mem_splitOn h.1⟩

theorem parts_append_slash (a b : GoString) : parts (a ++ slash :: b) = parts a ++ parts b := by
  rw [parts, List.splitOn_append_cons_self, List.filter_append]
  rfl

theorem parts_intercalate {ps : List GoString} (h : ∀ p ∈ ps, Proper p) :
    parts ([slash].intercalate ps) = ps := by
  by_cases hps : ps = []
  · rw [hps]
    rfl
  · rw [parts, List.splitOn_intercalate slash (fun p hp => (h p hp).2.2) hps, List.filter_eq_self]
    intro p hp
    simpa using ⟨(h p hp).1, (h p hp).2.1⟩

theorem parts_render (rooted : Bool) {ps : List GoString} (h : ∀ p ∈ ps, Proper p) :
    parts (render rooted ps) = ps := by
  unfold render
  split_ifs with hrooted hps
  · have hparts := parts_append_slash [] ([slash].intercalate ps)
    rw [parts_intercalate h] at hparts
    exact hparts
  · rw [hps]
    rfl
  · exact parts_intercalate h

theorem isAbs_render (rooted : Bool) {ps : List GoString} (h : ∀ p ∈ ps, Proper p) :
    isAbs (render rooted ps) = rooted := by
  cases rooted with
  | true => rfl
  | false =>
    cases ps with
    | nil => rfl
    | cons p ps =>
      obtain ⟨hne, -, hslash⟩ := h p List.mem_cons_self
      obtain ⟨x, xs, rfl⟩ := List.exists_cons_of_ne_nil hne
      have hx : x ≠ slash := fun hx => hslash (hx ▸ List.mem_cons_self)
      have hhead : ([slash].intercalate ((x :: xs) :: ps)).head? = some x := by
        cases ps with
        | nil => rw [List.intercalate_singleton, List.head?_cons]
        | cons q qs => rw [List.intercalate_cons_cons, List.cons_append, List.cons_append,
            List.head?_cons]
      rw [isAbs, render, if_neg Bool.false_ne_true, if_neg (List.cons_ne_nil _ _), hhead]
      simpa using hx

theorem not_slash_prefix_render {ps : List GoString} (h : ∀ p ∈ ps, Proper p) :
    ¬ [slash, slash] <+: render true ps := by
  rw [render, if_pos rfl, List.cons_prefix_cons, not_and]
  rintro - ⟨rest, hrest⟩
  have habs := isAbs_render false h
  by_cases hps : ps = []
  · rw [hps] at hrest
    cases hrest
  · rw [render, if_neg Bool.false_ne_true, if_neg hps, ← hrest] at habs
    cases habs

theorem infix_intercalate {ps : List GoString} {p : GoString} (h : p ∈ ps) :
    p <:+: [slash].intercalate ps := by
  induction ps with
  | nil => cases h
  | cons q ps ih =>
    cases ps with
    | nil =>
      rw [List.mem_singleton.mp h, List.intercalate_singleton]
    | cons q' ps =>
      rw [List.intercalate_cons_cons]
      rcases List.mem_cons.mp h with rfl | h
      · rw [List.append_assoc]
        exact (List.prefix_append _ _).isInfix
      · exact (ih h).trans (List.suffix_append _ _).isInfix

theorem infix_of_mem_parts {path p : GoString} (h : p ∈ parts path) : p <:+: path := by
  have hsplit := infix_intercalate (List.mem_of_mem_filter h)
  rwa [List.intercalate_splitOn] at hsplit

theorem exists_last_slash {path : GoString} (h : slash ∈ path) :
    ∃ a b, path = a ++ slash :: b ∧ slash ∉ b := by
  obtain ⟨b, a, hab, hb⟩ := List.eq_append_cons_of_mem (List.mem_reverse.mpr h)
  refine ⟨a.reverse, b.reverse, ?_, fun hmem => hb (List.mem_reverse.mp hmem)⟩
  rw [← List.reverse_reverse path, hab, List.reverse_append, List.reverse_cons, List.append_assoc,
    List.singleton_append]

theorem parts_of_proper {p : GoString} (h : Proper p) : parts p = [p] := by
  have hproper : ∀ q ∈ [p], Proper q := by simpa using h
  have hparts := parts_intercalate hproper
  rwa [List.intercalate_singleton] at hparts

/-- An extension of a path goes to its last part. -/
theorem parts_append (path : GoString) {ext : GoString} (hslash : slash ∉ ext)
    (hlength : 2 ≤ ext.length) :
    ∃ init last, parts (path ++ ext) = init ++ [last ++ ext] ∧ ∀ p ∈ init, p <:+: path := by
  have hproper : ∀ last, slash ∉ last → Proper (last ++ ext) := by
    intro last hlast
    have hlen : 2 ≤ (last ++ ext).length := by simp; omega
    refine ⟨?_, ?_, by simp [hlast, hslash]⟩
    · intro h
      simp [h] at hlen
    · intro h
      simp [h, dot] at hlen
  by_cases h : slash ∈ path
  · obtain ⟨a, b, rfl, hb⟩ := exists_last_slash h
    refine ⟨parts a, b, ?_, fun p hp => ?_⟩
    · rw [List.append_assoc, List.cons_append, parts_append_slash, parts_of_proper (hproper b hb)]
    · exact (infix_of_mem_parts hp).trans (List.prefix_append _ _).isInfix
  · exact ⟨[], path, parts_of_proper (hproper path h), by simp⟩

end Parts

section Resolve

variable {rooted : Bool}

theorem push_name {stack : List GoString} {part : GoString} (h : part ≠ dotdot) :
    push rooted stack part = part :: stack := if_neg h

theorem push_dotdot_nil : push rooted [] dotdot = if rooted then [] else [dotdot] := rfl

theorem push_dotdot_cons (top : GoString) (rest : List GoString) :
    push rooted (top :: rest) dotdot = if top = dotdot then dotdot :: top :: rest else rest := rfl

theorem mem_push {stack : List GoString} {part p : GoString} (h : p ∈ push rooted stack part) :
    p ∈ stack ∨ p = part := by
  by_cases hpart : part = dotdot
  · subst hpart
    cases stack with
    | nil =>
      rw [push_dotdot_nil] at h
      split_ifs at h
      · cases h
      · exact .inr (List.mem_singleton.mp h)
    | cons top rest =>
      rw [push_dotdot_cons] at h
      split_ifs at h
      · exact (List.mem_cons.mp h).symm
      · exact .inl (List.mem_cons_of_mem top h)
  · rw [push_name hpart] at h
    exact (List.mem_cons.mp h).symm

theorem mem_foldl_push {stack ps : List GoString} {p : GoString}
    (h : p ∈ ps.foldl (push rooted) stack) : p ∈ stack ∨ p ∈ ps := by
  induction ps generalizing stack with
  | nil => exact .inl h
  | cons q ps ih =>
    rcases ih h with h | h
    · rcases mem_push h with h | rfl
      · exact .inl h
      · exact .inr List.mem_cons_self
    · exact .inr (List.mem_cons_of_mem q h)

theorem mem_resolve {ps : List GoString} {p : GoString} (h : p ∈ resolve rooted ps) : p ∈ ps :=
  (mem_foldl_push (List.mem_reverse.mp h)).resolve_left List.not_mem_nil

theorem foldl_push_names (stack : List GoString) {ps : List GoString} (h : dotdot ∉ ps) :
    ps.foldl (push rooted) stack = ps.reverse ++ stack := by
  induction ps generalizing stack with
  | nil => rfl
  | cons p ps ih =>
    rw [List.mem_cons, not_or] at h
    rw [List.foldl_cons, push_name (Ne.symm h.1), ih _ h.2, List.reverse_cons, List.append_assoc,
      List.singleton_append]

theorem resolve_append_names (ps : List GoString) {qs : List GoString} (h : dotdot ∉ qs) :
    resolve rooted (ps ++ qs) = resolve rooted ps ++ qs := by
  rw [resolve, List.foldl_append, foldl_push_names _ h, List.reverse_append, List.reverse_reverse,
    resolve]

theorem resolve_names {ps : List GoString} (h : dotdot ∉ ps) : resolve rooted ps = ps :=
  resolve_append_names [] h

theorem dotdot_notMem_push {stack : List GoString} (h : dotdot ∉ stack) (part : GoString) :
    dotdot ∉ push true stack part := by
  by_cases hpart : part = dotdot
  · subst hpart
    cases stack with
    | nil => exact List.not_mem_nil
    | cons top rest =>
      rw [List.mem_cons, not_or] at h
      rw [push_dotdot_cons, if_neg (Ne.symm h.1)]
      exact h.2
  · rw [push_name hpart, List.mem_cons, not_or]
    exact ⟨Ne.symm hpart, h⟩

theorem dotdot_notMem_resolve (ps : List GoString) : dotdot ∉ resolve true ps := by
  have hstack : ∀ stack, dotdot ∉ stack → dotdot ∉ ps.foldl (push true) stack := by
    induction ps with
    | nil => exact fun _ h => h
    | cons p ps ih => exact fun stack h => ih _ (dotdot_notMem_push h p)
  rw [resolve, List.mem_reverse]
  exact hstack [] List.not_mem_nil

/-- A part pushed before the parts are put behind others, or after. -/
theorem foldl_push_reverse (base stack : List GoString) (part : GoString) :
    (push false stack part).reverse.foldl (push true) base =
      push true (stack.reverse.foldl (push true) base) part := by
  by_cases hpart : part = dotdot
  · subst hpart
    cases stack with
    | nil => rfl
    | cons top rest =>
      by_cases htop : top = dotdot
      · rw [push_dotdot_cons, if_pos htop, List.reverse_cons, List.foldl_append]
        rfl
      · rw [push_dotdot_cons, if_neg htop, List.reverse_cons, List.foldl_append, List.foldl_cons,
          List.foldl_nil, push_name htop, push_dotdot_cons, if_neg htop]
  · rw [push_name hpart, List.reverse_cons, List.foldl_append]
    rfl

/-- Behind the root it makes no difference whether a relative path was resolved before. -/
theorem resolve_append_resolve (ps qs : List GoString) :
    resolve true (ps ++ resolve false qs) = resolve true (ps ++ qs) := by
  have hstack : ∀ stack, (qs.foldl (push false) stack).reverse.foldl (push true)
      (ps.foldl (push true) []) =
        qs.foldl (push true) (stack.reverse.foldl (push true) (ps.foldl (push true) [])) := by
    induction qs with
    | nil => exact fun _ => rfl
    | cons q qs ih =>
      intro stack
      rw [List.foldl_cons, ih, foldl_push_reverse, List.foldl_cons]
  rw [resolve, List.foldl_append, resolve, hstack [], resolve, List.foldl_append]
  rfl

end Resolve

section Clean

theorem proper_resolve (rooted : Bool) (path : GoString) :
    ∀ p ∈ resolve rooted (parts path), Proper p :=
  fun _ h => proper_of_mem_parts (mem_resolve h)

theorem parts_clean (path : GoString) :
    parts (clean path) = resolve (isAbs path) (parts path) :=
  parts_render _ (proper_resolve _ path)

theorem isAbs_clean (path : GoString) : isAbs (clean path) = isAbs path :=
  isAbs_render _ (proper_resolve _ path)

theorem isAbs_append {a : GoString} (ha : a ≠ []) (b : GoString) : isAbs (a ++ b) = isAbs a := by
  obtain ⟨x, xs, rfl⟩ := List.exists_cons_of_ne_nil ha
  rfl

/-- Joining keeps what the first element is when there is one. -/
theorem isAbs_join {a : GoString} (ha : a ≠ []) (b : GoString) : isAbs (join a b) = isAbs a := by
  rw [join, if_pos ha, isAbs_clean, isAbs_append ha]

theorem parts_join {a : GoString} (ha : a ≠ []) (b : GoString) :
    parts (join a b) = resolve (isAbs a) (parts a ++ parts b) := by
  rw [join, if_pos ha, parts_clean, isAbs_append ha, parts_append_slash]

theorem ne_nil_of_isAbs {path : GoString} (h : isAbs path = true) : path ≠ [] := by
  rintro rfl
  cases h

theorem parts_abs_of_isAbs (wd : GoString) {path : GoString} (h : isAbs path = true) :
    parts (abs wd path) = resolve true (parts path) := by
  rw [abs, if_pos h, parts_clean, h]

/-- The text of a path below a directory starts with that of the directory and a slash. -/
theorem render_append_slash_prefix {ps qs : List GoString} (hps : ps ≠ []) (hqs : qs ≠ []) :
    render true ps ++ [slash] <+: render true (ps ++ qs) := by
  obtain ⟨q, qs, rfl⟩ := List.exists_cons_of_ne_nil hqs
  have hrest := intercalate_append [slash] (List.cons_ne_nil q []) qs
  rw [List.singleton_append, List.intercalate_singleton] at hrest
  refine ⟨[slash].intercalate (q :: qs), ?_⟩
  rw [render, render, if_pos rfl, if_pos rfl, intercalate_append [slash] hps, hrest,
    List.flatMap_cons]
  simp only [List.cons_append, List.append_assoc]

end Clean

/-! Results that depend on where the process runs: `filepath.Abs` takes a relative path from
the working directory, which is an absolute path. -/
section Abs

variable {wd : GoString} (hwd : isAbs wd = true)
include hwd

theorem parts_abs_of_not_isAbs {path : GoString} (h : isAbs path = false) :
    parts (abs wd path) = resolve true (parts wd ++ parts path) := by
  rw [abs, if_neg (Bool.not_eq_true _ ▸ h), parts_join (ne_nil_of_isAbs hwd), hwd]

theorem isAbs_abs (path : GoString) : isAbs (abs wd path) = true := by
  unfold abs
  split_ifs with h
  · rw [isAbs_clean, h]
  · rw [isAbs_join (ne_nil_of_isAbs hwd), hwd]

theorem dotdot_notMem_abs (path : GoString) : dotdot ∉ parts (abs wd path) := by
  cases h : isAbs path with
  | true =>
    rw [parts_abs_of_isAbs wd h]
    exact dotdot_notMem_resolve _
  | false =>
    rw [parts_abs_of_not_isAbs hwd h]
    exact dotdot_notMem_resolve _

theorem clean_abs (path : GoString) : clean (abs wd path) = render true (parts (abs wd path)) := by
  rw [clean, isAbs_abs hwd, resolve_names (dotdot_notMem_abs hwd path)]

/-- A relative file without `..` is where the directory is, and below. -/
theorem parts_abs_join (dir : GoString) {file : GoString} (hempty : file ≠ [])
    (hfile : isAbs file = false) (hnames : dotdot ∉ parts file) :
    parts (abs wd (join dir file)) = parts (abs wd dir) ++ parts file := by
  by_cases hdir : dir = []
  · subst hdir
    have hjoin : join [] file = clean file := by
      rw [join, if_neg (not_not.mpr rfl), if_pos hempty]
    have habs : isAbs (clean file) = false := (isAbs_clean file).trans hfile
    rw [hjoin, parts_abs_of_not_isAbs hwd habs, parts_clean, hfile, resolve_append_resolve,
      resolve_append_names _ hnames, parts_abs_of_not_isAbs hwd rfl]
    exact congrArg (resolve true · ++ parts file) (List.append_nil _).symm
  · have hparts := parts_join hdir file
    have habs := isAbs_join hdir file
    cases h : isAbs dir with
    | true =>
      rw [h] at hparts habs
      rw [parts_abs_of_isAbs wd habs, hparts, resolve_names (dotdot_notMem_resolve _),
        resolve_append_names _ hnames, parts_abs_of_isAbs wd h]
    | false =>
      rw [h] at hparts habs
      rw [parts_abs_of_not_isAbs hwd habs, hparts, resolve_append_resolve, ← List.append_assoc,
        resolve_append_names _ hnames, parts_abs_of_not_isAbs hwd h]

end Abs

end Musgos.Foundation.UnixPath
