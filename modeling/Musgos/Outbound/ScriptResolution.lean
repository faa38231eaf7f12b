import Musgos.Foundation.UnixPath

/-!
# Which script a subject runs

A subject comes from the network and names a file below the scripts directory. Where there is
no such file the engine cuts the subject at its last dash and tries again, until a script is
found or no dash is left but at the start. `resolveScriptPath` compares the text of the cleaned
paths; what is stated about the path it gives is about their parts.
-/
namespace Musgos.Outbound

open Foundation UnixPath

/-- What the engine sees of the file system: `os.Getwd`, and whether `os.Stat` succeeds. -/
structure FileSystem where
  workingDir : GoString
  stat : GoString → Bool
  isAbs_workingDir : isAbs workingDir = true

def containsDotDot (path : GoString) : Bool := dotdot <:+: path

def isSubpath (parent child : GoString) : Bool := clean parent ++ [slash] <+: clean child

def dash : UInt8 := 45

/-- `strings.LastIndex` of one byte; `none` is `-1`. -/
def lastIndex (x : UInt8) : GoString → Option ℕ
  | [] => none
  | y :: ys =>
    match lastIndex x ys with
    | some i => some (i + 1)
    | none => if y = x then some 0 else none

/-- The candidate cut at its last dash, unless there is none or it is the first byte. -/
def cutLast (candidate : GoString) : Option GoString :=
  match lastIndex dash candidate with
  | none => none
  | some 0 => none
  | some i => some (candidate.take i)

section Engine

variable (fs : FileSystem) (scriptsDir : GoString)

def scriptFile (subject : GoString) : GoString := join scriptsDir (subject ++ lit ".lua")

def resolveScriptPath (subject : GoString) : Option GoString :=
  if subject = [] ∨ isAbs subject ∨ containsDotDot subject then none
  else
    let absPath := abs fs.workingDir (scriptFile scriptsDir subject)
    let absScriptsDir := abs fs.workingDir scriptsDir
    if isSubpath absScriptsDir absPath then some (scriptFile scriptsDir subject) else none

/-- The loop of `resolveScript`; `none` means that it has not returned after so many rounds. -/
def resolveScript : ℕ → GoString → Option (Option GoString)
  | 0, _ => none
  | fuel + 1, candidate =>
    match (resolveScriptPath fs scriptsDir candidate).filter fs.stat with
    | some path => some (some path)
    | none =>
      match cutLast candidate with
      | none => some none
      | some shorter => resolveScript fuel shorter

def hasScript (fuel : ℕ) (subject : GoString) : Option Bool :=
  (resolveScript fs scriptsDir fuel subject).map Option.isSome

end Engine

section Cuts

variable {x : UInt8} {s : GoString}

theorem lastIndex_eq_none (h : lastIndex x s = none) : x ∉ s := by
  induction s with
  | nil => exact List.not_mem_nil
  | cons y ys ih =>
    unfold lastIndex at h
    cases hys : lastIndex x ys with
    | some i => simp [hys] at h
    | none =>
      simp only [hys] at h
      rw [List.mem_cons, not_or]
      refine ⟨fun hxy => ?_, ih hys⟩
      simp [hxy] at h

theorem lastIndex_eq_some {i : ℕ} (h : lastIndex x s = some i) :
    s[i]? = some x ∧ ∀ j, s[j]? = some x → j ≤ i := by
  induction s generalizing i with
  | nil => cases h
  | cons y ys ih =>
    unfold lastIndex at h
    cases hys : lastIndex x ys with
    | some k =>
      simp only [hys, Option.some.injEq] at h
      subst h
      obtain ⟨hget, hlast⟩ := ih hys
      refine ⟨by simpa using hget, fun j hj => ?_⟩
      cases j with
      | zero => exact Nat.zero_le _
      | succ j => exact Nat.succ_le_succ (hlast j (by simpa using hj))
    | none =>
      simp only [hys] at h
      split_ifs at h with hy
      obtain rfl := Option.some.inj h
      refine ⟨by simp [hy], fun j hj => ?_⟩
      cases j with
      | zero => exact le_rfl
      | succ j =>
        have hmem : x ∈ ys := List.mem_of_getElem? (by simpa using hj)
        exact absurd hmem (lastIndex_eq_none hys)

/-- The subject itself and its prefixes before a dash that is not its first byte. -/
def IsCut (subject c : GoString) : Prop :=
  c = subject ∨ ∃ i, 0 < i ∧ subject[i]? = some dash ∧ c = subject.take i

theorem IsCut.length_le {subject c : GoString} (h : IsCut subject c) :
    c.length ≤ subject.length := by
  rcases h with rfl | ⟨i, -, -, rfl⟩
  · exact le_rfl
  · exact List.length_take_le' i subject

theorem isCut_of_cutLast_none {subject c : GoString} (hcut : cutLast subject = none)
    (h : IsCut subject c) : c = subject := by
  rcases h with rfl | ⟨i, hi, hdash, rfl⟩
  · rfl
  · unfold cutLast at hcut
    cases hlast : lastIndex dash subject with
    | none => exact absurd (List.mem_of_getElem? hdash) (lastIndex_eq_none hlast)
    | some k =>
      have hk : i ≤ k := (lastIndex_eq_some hlast).2 i hdash
      cases k with
      | zero => omega
      | succ k => simp [hlast] at hcut

theorem exists_of_cutLast {subject shorter : GoString} (hcut : cutLast subject = some shorter) :
    ∃ i, 0 < i ∧ i < subject.length ∧ lastIndex dash subject = some i ∧
      shorter = subject.take i := by
  unfold cutLast at hcut
  cases hlast : lastIndex dash subject with
  | none => simp [hlast] at hcut
  | some k =>
    cases k with
    | zero => simp [hlast] at hcut
    | succ k =>
      simp only [hlast, Option.some.injEq] at hcut
      obtain ⟨hlt, -⟩ := List.getElem?_eq_some_iff.mp (lastIndex_eq_some hlast).1
      exact ⟨k + 1, Nat.succ_pos k, hlt, rfl, hcut.symm⟩

theorem cutLast_length {subject shorter : GoString} (hcut : cutLast subject = some shorter) :
    shorter.length < subject.length := by
  obtain ⟨i, -, hi, -, rfl⟩ := exists_of_cutLast hcut
  rw [List.length_take_of_le hi.le]
  exact hi

/-- The cuts of a subject are it and the cuts of what is left before its last dash. -/
theorem isCut_iff_of_cutLast {subject shorter c : GoString}
    (hcut : cutLast subject = some shorter) :
    IsCut subject c ↔ c = subject ∨ IsCut shorter c := by
  obtain ⟨i, hpos, -, hlast, rfl⟩ := exists_of_cutLast hcut
  obtain ⟨hdash, hmax⟩ := lastIndex_eq_some hlast
  constructor
  · rintro (rfl | ⟨j, hj, hget, rfl⟩)
    · exact .inl rfl
    · rcases (hmax j hget).eq_or_lt with rfl | hlt
      · exact .inr (.inl rfl)
      · refine .inr (.inr ⟨j, hj, ?_, ?_⟩)
        · rw [List.getElem?_take_of_lt hlt, hget]
        · rw [List.take_take, Nat.min_eq_left hlt.le]
  · rintro (rfl | rfl | ⟨j, hj, hget, rfl⟩)
    · exact .inl rfl
    · exact .inr ⟨i, hpos, hdash, rfl⟩
    · have hlt : j < i := by
        by_contra hle
        rw [List.getElem?_take_eq_none (Nat.le_of_not_lt hle)] at hget
        cases hget
      refine .inr ⟨j, hj, ?_, ?_⟩
      · rwa [List.getElem?_take_of_lt hlt] at hget
      · rw [List.take_take, Nat.min_eq_left hlt.le]

end Cuts

section Containment

/-- A path goes through the directory and on. -/
def StrictlyBelow (dir path : GoString) : Prop := ∃ ps, ps ≠ [] ∧ parts path = parts dir ++ ps

variable (fs : FileSystem) (scriptsDir : GoString)

/-- The containment rules, for a string that may be the name of a script. -/
def Contained (c : GoString) : Prop :=
  c ≠ [] ∧ isAbs c = false ∧ ¬ dotdot <:+: c ∧
    StrictlyBelow (clean (abs fs.workingDir scriptsDir))
      (clean (abs fs.workingDir (scriptFile scriptsDir c)))

/-- A string that passes and whose script exists. -/
def Eligible (c : GoString) : Prop :=
  Contained fs scriptsDir c ∧ fs.stat (scriptFile scriptsDir c) = true

variable {fs scriptsDir}

theorem dotdot_notMem_parts_append {c ext : GoString} (hc : ¬ dotdot <:+: c)
    (hslash : slash ∉ ext) (hlength : 2 < ext.length) :
    dotdot ∉ parts (c ++ ext) ∧ parts (c ++ ext) ≠ [] := by
  obtain ⟨init, last, hparts, hinit⟩ := parts_append c hslash hlength.le
  rw [hparts]
  refine ⟨fun hmem => ?_, by simp⟩
  rcases List.mem_append.mp hmem with hmem | hmem
  · exact hc (hinit dotdot hmem)
  · have hlen := congrArg List.length (List.mem_singleton.mp hmem)
    simp [dotdot] at hlen
    omega

theorem parts_clean_abs (path : GoString) :
    parts (clean (abs fs.workingDir path)) = parts (abs fs.workingDir path) := by
  rw [parts_clean, isAbs_abs fs.isAbs_workingDir,
    resolve_names (dotdot_notMem_abs fs.isAbs_workingDir path)]

/-- A relative subject without two dots in a row cannot leave the scripts directory. -/
theorem exists_parts_scriptFile {c : GoString} (hempty : c ≠ []) (habs : isAbs c = false)
    (hdots : ¬ dotdot <:+: c) :
    ∃ ps, ps ≠ [] ∧ parts (abs fs.workingDir (scriptFile scriptsDir c)) =
      parts (abs fs.workingDir scriptsDir) ++ ps := by
  have hslash : slash ∉ lit ".lua" := by decide
  obtain ⟨hnames, hne⟩ := dotdot_notMem_parts_append hdots hslash (by decide)
  refine ⟨_, hne, ?_⟩
  exact parts_abs_join fs.isAbs_workingDir scriptsDir (by simp [hempty])
    ((isAbs_append hempty _).trans habs) hnames

theorem parts_ne_nil_of_not_root {path : GoString} (h : clean (abs fs.workingDir path) ≠ lit "/") :
    parts (abs fs.workingDir path) ≠ [] := by
  intro hparts
  rw [clean_abs fs.isAbs_workingDir, hparts] at h
  exact h rfl

theorem isSubpath_scriptFile (hroot : clean (abs fs.workingDir scriptsDir) ≠ lit "/")
    {c : GoString} (hempty : c ≠ []) (habs : isAbs c = false) (hdots : ¬ dotdot <:+: c) :
    isSubpath (abs fs.workingDir scriptsDir)
      (abs fs.workingDir (scriptFile scriptsDir c)) = true := by
  obtain ⟨ps, hne, hparts⟩ := exists_parts_scriptFile hempty habs hdots
  rw [isSubpath, decide_eq_true_eq, clean_abs fs.isAbs_workingDir, clean_abs fs.isAbs_workingDir,
    hparts]
  exact render_append_slash_prefix (parts_ne_nil_of_not_root hroot) hne

theorem resolveScriptPath_of_contained
    (hroot : clean (abs fs.workingDir scriptsDir) ≠ lit "/") {c : GoString}
    (h : Contained fs scriptsDir c) :
    resolveScriptPath fs scriptsDir c = some (scriptFile scriptsDir c) := by
  obtain ⟨hempty, habs, hdots, -⟩ := h
  have hsub := isSubpath_scriptFile hroot hempty habs hdots
  simp [resolveScriptPath, hempty, habs, containsDotDot, hdots, hsub]

theorem resolveScriptPath_eq_some {c path : GoString}
    (h : resolveScriptPath fs scriptsDir c = some path) :
    Contained fs scriptsDir c ∧ path = scriptFile scriptsDir c := by
  unfold resolveScriptPath at h
  split_ifs at h with hrejected
  dsimp only at h
  split_ifs at h
  obtain ⟨hempty, habs, hdots⟩ : c ≠ [] ∧ isAbs c = false ∧ ¬ dotdot <:+: c := by
    simpa [containsDotDot] using hrejected
  refine ⟨⟨hempty, habs, hdots, ?_⟩, (Option.some.inj h).symm⟩
  rw [StrictlyBelow, parts_clean_abs, parts_clean_abs]
  exact exists_parts_scriptFile hempty habs hdots

/-- The text that the root directory has to start a path with is that of no clean path, so
below the root nothing passes. -/
theorem resolveScriptPath_root (hroot : clean (abs fs.workingDir scriptsDir) = lit "/")
    (c : GoString) : resolveScriptPath fs scriptsDir c = none := by
  have hsub : ¬ clean (abs fs.workingDir scriptsDir) ++ [slash] <+:
      clean (abs fs.workingDir (scriptFile scriptsDir c)) := by
    rw [hroot, clean_abs fs.isAbs_workingDir]
    exact not_slash_prefix_render fun _ => proper_of_mem_parts
  unfold resolveScriptPath isSubpath
  simp [hsub]

end Containment

section Resolution

variable {fs : FileSystem} {scriptsDir : GoString}
  (hroot : clean (abs fs.workingDir scriptsDir) ≠ lit "/")
include hroot

theorem filter_of_eligible {c : GoString} (h : Eligible fs scriptsDir c) :
    (resolveScriptPath fs scriptsDir c).filter fs.stat = some (scriptFile scriptsDir c) := by
  rw [resolveScriptPath_of_contained hroot h.1, Option.filter_some, if_pos h.2]

omit hroot in
theorem filter_of_not_eligible {c : GoString} (h : ¬ Eligible fs scriptsDir c) :
    (resolveScriptPath fs scriptsDir c).filter fs.stat = none := by
  rw [Option.filter_eq_none_iff]
  intro path hpath hstat
  obtain ⟨hcontained, rfl⟩ := resolveScriptPath_eq_some hpath
  exact h ⟨hcontained, hstat⟩

/-- The loop by the cut it stops at. -/
theorem exists_best_cut (subject : GoString) :
    ∃ best : Option GoString,
      (∀ fuel, subject.length < fuel →
        resolveScript fs scriptsDir fuel subject = some (best.map (scriptFile scriptsDir))) ∧
      (∀ c, best = some c → IsCut subject c ∧ Eligible fs scriptsDir c ∧
        ∀ c', IsCut subject c' → Eligible fs scriptsDir c' → c'.length ≤ c.length) ∧
      (best = none → ∀ c, IsCut subject c → ¬ Eligible fs scriptsDir c) := by
  induction hn : subject.length using Nat.strong_induction_on generalizing subject with
  | _ n ih =>
    subst hn
    by_cases heligible : Eligible fs scriptsDir subject
    · refine ⟨some subject, fun fuel hfuel => ?_, ?_, by simp⟩
      · obtain ⟨fuel, rfl⟩ := Nat.exists_eq_succ_of_ne_zero (Nat.ne_zero_of_lt hfuel)
        rw [resolveScript, filter_of_eligible hroot heligible]
        rfl
      · rintro c ⟨rfl⟩
        exact ⟨.inl rfl, heligible, fun c' hc' _ => hc'.length_le⟩
    · have hnone := filter_of_not_eligible heligible
      cases hcut : cutLast subject with
      | none =>
        refine ⟨none, fun fuel hfuel => ?_, by simp, fun _ c hc => ?_⟩
        · obtain ⟨fuel, rfl⟩ := Nat.exists_eq_succ_of_ne_zero (Nat.ne_zero_of_lt hfuel)
          simp only [resolveScript, hnone, hcut, Option.map_none]
        · rwa [isCut_of_cutLast_none hcut hc]
      | some shorter =>
        have hlt := cutLast_length hcut
        obtain ⟨best, hrun, hsome, hnotAny⟩ := ih shorter.length hlt shorter rfl
        refine ⟨best, fun fuel hfuel => ?_, fun c hc => ?_, fun hc c hcutc => ?_⟩
        · obtain ⟨fuel, rfl⟩ := Nat.exists_eq_succ_of_ne_zero (Nat.ne_zero_of_lt hfuel)
          simp only [resolveScript, hnone, hcut]
          exact hrun fuel (by omega)
        · obtain ⟨hcutc, hc, hlongest⟩ := hsome c hc
          refine ⟨(isCut_iff_of_cutLast hcut).mpr (.inr hcutc), hc, fun c' hc' he => ?_⟩
          rcases (isCut_iff_of_cutLast hcut).mp hc' with rfl | hc'
          · exact absurd he heligible
          · exact hlongest c' hc' he
        · rcases (isCut_iff_of_cutLast hcut).mp hcutc with rfl | hcutc
          · exact heligible
          · exact hnotAny hc c hcutc

/-- `HasScript` answers whether some cut passes and exists. -/
theorem hasScript_iff {fuel : ℕ} {subject : GoString} (hfuel : subject.length < fuel) :
    hasScript fs scriptsDir fuel subject = some true ↔
      ∃ c, IsCut subject c ∧ Eligible fs scriptsDir c := by
  obtain ⟨best, hrun, hsome, hnone⟩ := exists_best_cut hroot subject
  rw [hasScript, hrun fuel hfuel]
  cases best with
  | none =>
    refine iff_of_false (by simp) ?_
    rintro ⟨c, hcut, heligible⟩
    exact hnone rfl c hcut heligible
  | some c =>
    obtain ⟨hcut, heligible, -⟩ := hsome c rfl
    exact iff_of_true rfl ⟨c, hcut, heligible⟩

end Resolution

/-- `resolveScript` returns. A path it returns is the script of the longest cut that passes and
exists, strictly below the scripts directory; it returns none if there is no such cut. -/
theorem resolveScript_longest (fs : FileSystem) (scriptsDir subject : GoString)
    (hroot : clean (abs fs.workingDir scriptsDir) ≠ lit "/") :
    ∃ result : Option GoString,
      (∀ fuel, subject.length < fuel →
        resolveScript fs scriptsDir fuel subject = some result) ∧
      (∀ path, result = some path →
        (∃ c, path = join scriptsDir (c ++ lit ".lua") ∧ IsCut subject c ∧
          Eligible fs scriptsDir c ∧
          ∀ c', IsCut subject c' → Eligible fs scriptsDir c' → c'.length ≤ c.length) ∧
        StrictlyBelow (clean (abs fs.workingDir scriptsDir)) (clean (abs fs.workingDir path))) ∧
      (result = none → ∀ c, IsCut subject c → ¬ Eligible fs scriptsDir c) := by
  obtain ⟨best, hrun, hsome, hnone⟩ := exists_best_cut hroot subject
  refine ⟨best.map (scriptFile scriptsDir), hrun, fun path hpath => ?_, fun h => ?_⟩
  · obtain ⟨c, hc, rfl⟩ := Option.map_eq_some_iff.mp hpath
    obtain ⟨hcut, heligible, hlongest⟩ := hsome c hc
    exact ⟨⟨c, rfl, hcut, heligible, hlongest⟩, heligible.1.2.2.2⟩
  · exact hnone (Option.map_eq_none_iff.mp h)

/-- A server started in `/srv` with one script. -/
def oneScript : FileSystem where
  workingDir := lit "/srv"
  stat path := path = lit "scripts/example/chunk.lua"
  isAbs_workingDir := by decide

theorem resolveScript_longest_chunk :
    clean (abs (lit "/srv") (lit "scripts")) ≠ lit "/" ∧
      ∃ c, lit "scripts/example/chunk.lua" = join (lit "scripts") (c ++ lit ".lua") ∧
        IsCut (lit "example/chunk-4-2") c ∧ Eligible oneScript (lit "scripts") c ∧
        ∀ c', IsCut (lit "example/chunk-4-2") c' → Eligible oneScript (lit "scripts") c' →
          c'.length ≤ c.length := by
  have hroot : clean (abs (lit "/srv") (lit "scripts")) ≠ lit "/" := by decide
  obtain ⟨result, hrun, hsome, -⟩ :=
    resolveScript_longest oneScript (lit "scripts") (lit "example/chunk-4-2") hroot
  have hresult : resolveScript oneScript (lit "scripts") 18 (lit "example/chunk-4-2") =
      some (some (lit "scripts/example/chunk.lua")) := by decide
  have hpath : result = some (lit "scripts/example/chunk.lua") :=
    Option.some.inj ((hrun 18 (by decide)).symm.trans hresult)
  exact ⟨hroot, (hsome _ hpath).1⟩

end Musgos.Outbound
