import Musgos.Foundation.GoMap
import Musgos.Foundation.Transition
import Musgos.Outbound.ScriptResolution

/-!
# Modules of scripts

The engine gives a script its own `require` and `dofile`. `require` keeps what a module has
returned under the name it was asked for, from the moment the module is done; while the module
runs it is not there yet, so a module that is required again on the way is run again inside
itself. A chunk is seen as what it asks of the loader: it may catch an error or not, and what it
does next may depend on everything before, so each time a file is read it may hold another chunk.

The history of an execution says which files were opened, when modules started and ended, and
what each call of `require` returned. A module that has been handed out while it was not running is
handed out as the same value ever after and never started again.
-/
namespace Musgos.Outbound.ModuleLoader

open Foundation UnixPath

/-- What a chunk returns, as far as the loader looks at it; the rest are references. -/
inductive ModuleValue (V : Type) where
  | nil
  | yes
  | ref (v : V)

/-- The errors of `require` and `dofile`. -/
inductive LoadError where
  /-- Raised by the script or the virtual machine. -/
  | raised (message : GoString)
  /-- `L.ArgError(1, message)`. -/
  | argument (message : GoString)
  /-- `failed to load module`: the file cannot be read or compiled. -/
  | loading (name message : GoString)
  /-- `failed to execute module`. -/
  | executing (name : GoString) (cause : LoadError)
  /-- `dofile failed`. -/
  | dofile (name : GoString) (cause : LoadError)

/-- A chunk as the loader meets it: it ends, or calls the loader and goes on. -/
inductive Chunk (V : Type) where
  | done (ret : ModuleValue V)
  | raise (error : LoadError)
  | require (name : GoString) (next : Except LoadError (ModuleValue V) → Chunk V)
  | dofile (name : GoString) (next : Except LoadError Unit → Chunk V)

/-- The file system during an execution; the first argument is the time. -/
structure ScriptDisk (V : Type) where
  workingDir : GoString
  isAbs_workingDir : isAbs workingDir = true
  stat : ℕ → GoString → Bool
  /-- `L.LoadFile`, with the message of its error. -/
  loadFile : ℕ → GoString → Except GoString (Chunk V)

/-- What the history of an execution notes. -/
inductive LoadEvent (V : Type) where
  | opened (path : GoString)
  /-- The file of a module starts to run. -/
  | entered (name : GoString)
  /-- It has come to its end with a value, or has failed. -/
  | left (name : GoString) (value : Option (ModuleValue V))
  /-- `require` returns to its caller. -/
  | answered (name : GoString) (result : Except LoadError (ModuleValue V))

/-- The table `loaded` of an execution, and its history. -/
structure Loader (V : Type) where
  loaded : GoMap GoString (ModuleValue V)
  log : List (LoadEvent V)

namespace Loader

variable {V : Type}

def new : Loader V := ⟨∅, []⟩

def emit (s : Loader V) (e : LoadEvent V) : Loader V := { s with log := s.log ++ [e] }

end Loader

/-- What a call returns, with the state it leaves. -/
abbrev Loaded (V α : Type) := Loader V × Except LoadError α

section Engine

variable {V : Type} (disk : ScriptDisk V) (scriptsDir : GoString)

/-- The checks that `require` and `dofile` make of a name and the path it stands for. -/
def checkPath (invalid escapes name path : GoString) : Except LoadError Unit :=
  if isAbs name ∨ containsDotDot name then .error (.argument (invalid ++ name))
  else if !isSubpath (abs disk.workingDir scriptsDir) (abs disk.workingDir path) then
    .error (.argument (escapes ++ name))
  else .ok ()

/-- A module that returns nothing counts as true. -/
def ModuleValue.orTrue : ModuleValue V → ModuleValue V
  | .nil => .yes
  | ret => ret

/-- The body of `require`. -/
def loadModule (exec : Chunk V → Loader V → Loaded V (ModuleValue V)) (modName : GoString)
    (s : Loader V) : Loaded V (ModuleValue V) :=
  match s.loaded.lookup modName with
  | some cached => (s, .ok cached)
  | none =>
    let modPath := scriptFile scriptsDir modName
    match checkPath disk scriptsDir (lit "invalid module name: ")
        (lit "module path escapes scripts directory: ") modName modPath with
    | .error e => (s, .error e)
    | .ok _ =>
      let opened := s.emit (.opened modPath)
      if !disk.stat s.log.length modPath then
        (opened, .error (.argument (lit "module not found: " ++ modName)))
      else
        match disk.loadFile s.log.length modPath with
        | .error message => (opened, .error (.loading modName message))
        | .ok chunk =>
          match exec chunk (opened.emit (.entered modName)) with
          | (s', .error e) => (s'.emit (.left modName none), .error (.executing modName e))
          | (s', .ok ret) =>
            ({ loaded := s'.loaded.insert modName ret.orTrue
               log := s'.log ++ [.left modName (some ret.orTrue)] }, .ok ret.orTrue)

def require (exec : Chunk V → Loader V → Loaded V (ModuleValue V)) (modName : GoString)
    (s : Loader V) : Loaded V (ModuleValue V) :=
  let r := loadModule disk scriptsDir exec modName s
  (r.1.emit (.answered modName r.2), r.2)

def dofile (exec : Chunk V → Loader V → Loaded V (ModuleValue V)) (name : GoString)
    (s : Loader V) : Loaded V Unit :=
  let filePath := join scriptsDir name
  match checkPath disk scriptsDir (lit "invalid path: ") (lit "path escapes scripts directory: ")
      name filePath with
  | .error e => (s, .error e)
  | .ok _ =>
    let opened := s.emit (.opened filePath)
    match disk.loadFile s.log.length filePath with
    | .error message => (opened, .error (.dofile name (.raised message)))
    | .ok chunk =>
      match exec chunk opened with
      | (s', .error e) => (s', .error (.dofile name e))
      | (s', .ok _) => (s', .ok ())

/-- A chunk runs to its end, calling the loader on its way. -/
def Chunk.run (require : GoString → Loader V → Loaded V (ModuleValue V))
    (dofile : GoString → Loader V → Loaded V Unit) : Chunk V → Loader V → Loaded V (ModuleValue V)
  | .done ret, s => (s, .ok ret)
  | .raise e, s => (s, .error e)
  | .require name next, s =>
    let r := require name s
    (next r.2).run require dofile r.1
  | .dofile name next, s =>
    let r := dofile name s
    (next r.2).run require dofile r.1

/-- `depth` chunks fit on the stack of the virtual machine, one inside the other. -/
def exec : ℕ → Chunk V → Loader V → Loaded V (ModuleValue V)
  | 0, _, s => (s, .error (.raised (lit "stack overflow")))
  | depth + 1, chunk, s =>
    chunk.run (require disk scriptsDir (exec depth)) (dofile disk scriptsDir (exec depth)) s

end Engine

section Histories

variable {V : Type}

namespace LoadEvent

def isEntered (name : GoString) : LoadEvent V → Bool
  | entered n => n = name
  | _ => false

def isLeft (name : GoString) : LoadEvent V → Bool
  | left n _ => n = name
  | _ => false

/-- The module has come to its end. -/
def isDone (name : GoString) : LoadEvent V → Bool
  | left n (some _) => n = name
  | _ => false

end LoadEvent

/-- How often the module was started. -/
def starts (log : List (LoadEvent V)) (name : GoString) : ℕ := log.countP (·.isEntered name)

/-- How often it has ended, with a value or not. -/
def ends (log : List (LoadEvent V)) (name : GoString) : ℕ := log.countP (·.isLeft name)

/-- How often it has come to its end. -/
def finishes (log : List (LoadEvent V)) (name : GoString) : ℕ := log.countP (·.isDone name)

def NotRunning (log : List (LoadEvent V)) (name : GoString) : Prop :=
  starts log name = ends log name

/-- The value of the last time the module came to its end. -/
def lastValue (log : List (LoadEvent V)) (name : GoString) : Option (ModuleValue V) :=
  log.foldl (fun value e => match e with
    | .left n (some v) => if n = name then some v else value
    | _ => value) none

/-- What may happen after a history. -/
def Loadable (below : GoString → Prop) (past : List (LoadEvent V)) : LoadEvent V → Prop
  | .opened path => below path
  | .entered name => lastValue past name = none
  | .left name _ => ends past name < starts past name
  | .answered name (.ok value) => lastValue past name = some value
  | .answered name (.error _) =>
    lastValue past name = none ∨ past.getLast? = some (.left name none)

/-- No module is started while it runs. -/
def NeverNested (log : List (LoadEvent V)) : Prop :=
  ∀ before name after, log = before ++ .entered name :: after → NotRunning before name

@[simp] theorem starts_append (a b : List (LoadEvent V)) (name : GoString) :
    starts (a ++ b) name = starts a name + starts b name := List.countP_append

@[simp] theorem ends_append (a b : List (LoadEvent V)) (name : GoString) :
    ends (a ++ b) name = ends a name + ends b name := List.countP_append

@[simp] theorem finishes_append (a b : List (LoadEvent V)) (name : GoString) :
    finishes (a ++ b) name = finishes a name + finishes b name := List.countP_append

@[simp] theorem starts_singleton (e : LoadEvent V) (name : GoString) :
    starts [e] name = if e.isEntered name then 1 else 0 := List.countP_singleton

@[simp] theorem ends_singleton (e : LoadEvent V) (name : GoString) :
    ends [e] name = if e.isLeft name then 1 else 0 := List.countP_singleton

@[simp] theorem finishes_singleton (e : LoadEvent V) (name : GoString) :
    finishes [e] name = if e.isDone name then 1 else 0 := List.countP_singleton

theorem lastValue_concat_done (log : List (LoadEvent V)) (name : GoString) (v : ModuleValue V) :
    lastValue (log ++ [.left name (some v)]) name = some v := by
  unfold lastValue
  rw [List.foldl_append]
  exact if_pos rfl

theorem lastValue_concat {log : List (LoadEvent V)} {e : LoadEvent V} {name : GoString}
    (h : e.isDone name = false) : lastValue (log ++ [e]) name = lastValue log name := by
  unfold lastValue
  rw [List.foldl_append]
  cases e with
  | left n value =>
    cases value with
    | none => rfl
    | some v => exact if_neg (by simpa [LoadEvent.isDone] using h)
  | opened | entered | answered => rfl

/-- Events that neither start nor end a module. -/
def LoadEvent.Plain (e : LoadEvent V) : Prop :=
  ∀ name, e.isEntered name = false ∧ e.isLeft name = false ∧ e.isDone name = false

theorem plain_opened (path : GoString) : (LoadEvent.opened path : LoadEvent V).Plain :=
  fun _ => ⟨rfl, rfl, rfl⟩

theorem plain_answered (name : GoString) (result : Except LoadError (ModuleValue V)) :
    (LoadEvent.answered name result).Plain :=
  fun _ => ⟨rfl, rfl, rfl⟩

/-- The table of loaded modules is what the history says, and nothing has ended that was not
started. -/
structure Consistent (s : Loader V) : Prop where
  lookup : ∀ name, s.loaded.lookup name = lastValue s.log name
  ended : ∀ name, ends s.log name ≤ starts s.log name

/-- What the loader has done from one state to another was allowed at each point, and each
module it has started has ended. -/
structure Extends (below : GoString → Prop) (s s' : Loader V) : Prop where
  consistent : Consistent s'
  history : ∃ new, s'.log = s.log ++ new ∧ ObeysFrom (Loadable below) s.log new ∧
    ∀ name, NotRunning new name

variable {below : GoString → Prop} {s s' s'' : Loader V}

theorem Extends.refl (below : GoString → Prop) (h : Consistent s) : Extends below s s :=
  ⟨h, [], (List.append_nil _).symm, trivial, fun _ => rfl⟩

theorem Extends.trans (h : Extends below s s') (h' : Extends below s' s'') :
    Extends below s s'' := by
  obtain ⟨new, hlog, hobeys, hended⟩ := h.history
  obtain ⟨new', hlog', hobeys', hended'⟩ := h'.history
  refine ⟨h'.consistent, new ++ new', by rw [hlog', hlog, List.append_assoc],
    obeysFrom_append.mpr ⟨hobeys, hlog ▸ hobeys'⟩, fun name => ?_⟩
  rw [NotRunning, starts_append, ends_append, hended name, hended' name]

theorem Extends.emit (hs : Consistent s) {e : LoadEvent V} (hplain : e.Plain)
    (hallowed : Loadable below s.log e) : Extends below s (s.emit e) where
  consistent := by
    refine ⟨fun name => ?_, fun name => ?_⟩
    · rw [Loader.emit, lastValue_concat (hplain name).2.2, hs.lookup]
    · simpa [Loader.emit, hplain name] using hs.ended name
  history := ⟨[e], rfl, ⟨hallowed, trivial⟩, fun name => by simp [NotRunning, hplain name]⟩

theorem Consistent.entered (h : Consistent s) {name : GoString} :
    Consistent (s.emit (.entered name)) where
  lookup n := (h.lookup n).trans (lastValue_concat rfl).symm
  ended n := by
    have hn := h.ended n
    have hend : ends [(.entered name : LoadEvent V)] n = 0 := by simp [LoadEvent.isLeft]
    rw [Loader.emit, starts_append, ends_append, hend]
    omega

theorem Extends.module {name : GoString} {value : Option (ModuleValue V)} (hs : Consistent s)
    (hfresh : lastValue s.log name = none) (hbody : Extends below (s.emit (.entered name)) s')
    (hlookup : ∀ n, s''.loaded.lookup n = lastValue s''.log n)
    (hlog : s''.log = s'.log ++ [.left name value]) : Extends below s s'' := by
  obtain ⟨new, hnew, hobeys, hended⟩ := hbody.history
  have hwhole : s''.log = s.log ++ ([.entered name] ++ new ++ [.left name value]) := by
    simp [hlog, hnew, Loader.emit]
  have hbalanced : ∀ n, NotRunning ([.entered name] ++ new ++ [.left name value]) n := by
    intro n
    have hinner : starts new n = ends new n := hended n
    simp only [NotRunning, starts_append, ends_append, starts_singleton, ends_singleton, hinner,
      LoadEvent.isEntered, LoadEvent.isLeft]
    simp [Nat.add_comm]
  refine ⟨⟨hlookup, fun n => ?_⟩, _, hwhole, ?_, hbalanced⟩
  · have hn : starts _ n = ends _ n := hbalanced n
    have hbefore := hs.ended n
    rw [hwhole, starts_append, ends_append, hn]
    omega
  · refine obeysFrom_append.mpr ⟨obeysFrom_append.mpr ⟨⟨hfresh, trivial⟩, hobeys⟩, ?_, trivial⟩
    have hinner : starts new name = ends new name := hended name
    have hbefore := hs.ended name
    have hstart : starts [(.entered name : LoadEvent V)] name = 1 := by
      simp [LoadEvent.isEntered]
    have hend : ends [(.entered name : LoadEvent V)] name = 0 := by simp [LoadEvent.isLeft]
    rw [Loadable, ends_append, ends_append, starts_append, starts_append, hinner, hstart, hend]
    omega

theorem LoadEvent.isDone_of_not_isLeft {e : LoadEvent V} {name : GoString}
    (h : e.isLeft name = false) : e.isDone name = false := by
  cases e with
  | left n value => cases value <;> first | rfl | exact h
  | opened | entered | answered => rfl

/-- A module that is there and does not run neither starts nor ends. -/
theorem untouched {past : List (LoadEvent V)} {name : GoString} {v : ModuleValue V}
    {e : LoadEvent V} (hallowed : Loadable below past e) (hvalue : lastValue past name = some v)
    (hidle : NotRunning past name) : e.isEntered name = false ∧ e.isLeft name = false := by
  cases e with
  | opened | answered => exact ⟨rfl, rfl⟩
  | entered n =>
    refine ⟨decide_eq_false fun hn => ?_, rfl⟩
    rw [Loadable, hn, hvalue] at hallowed
    cases hallowed
  | left n value =>
    refine ⟨rfl, decide_eq_false fun hn => ?_⟩
    rw [Loadable, hn, hidle] at hallowed
    exact lt_irrefl _ hallowed

/-- Once a module is there and does not run, it is handed out as it is and not started again. -/
theorem settled {past later : List (LoadEvent V)} {name : GoString} {v : ModuleValue V}
    (hobeys : ObeysFrom (Loadable below) past later) (hvalue : lastValue past name = some v)
    (hidle : NotRunning past name) (hlast : past.getLast? ≠ some (.left name none)) :
    starts later name = 0 ∧ ∀ r, .answered name r ∈ later → r = .ok v := by
  induction later generalizing past with
  | nil => exact ⟨rfl, fun _ h => absurd h List.not_mem_nil⟩
  | cons e later ih =>
    obtain ⟨hallowed, hrest⟩ := hobeys
    obtain ⟨hentered, hleft⟩ := untouched hallowed hvalue hidle
    have hvalue' : lastValue (past ++ [e]) name = some v := by
      rw [lastValue_concat (LoadEvent.isDone_of_not_isLeft hleft), hvalue]
    have hidle' : NotRunning (past ++ [e]) name := by
      have : starts past name = ends past name := hidle
      simp [NotRunning, hentered, hleft, this]
    have hlast' : (past ++ [e]).getLast? ≠ some (.left name none) := by
      rw [List.getLast?_concat]
      intro he
      rw [Option.some.inj he] at hleft
      exact absurd hleft (by simp [LoadEvent.isLeft])
    obtain ⟨hstarts, hanswers⟩ := ih hrest hvalue' hidle' hlast'
    refine ⟨?_, fun r hmem => ?_⟩
    · have hcons := starts_append [e] later name
      simpa [hentered, hstarts] using hcons
    · rcases List.mem_cons.mp hmem with rfl | hmem
      · cases r with
        | ok v' => exact congrArg Except.ok (Option.some.inj (hallowed.symm.trans hvalue))
        | error err =>
          rcases hallowed with hnone | hfailed
          · rw [hvalue] at hnone
            cases hnone
          · exact absurd hfailed hlast
      · exact hanswers r hmem

/-- Where modules are not started inside themselves, each runs once at a time, is there when it
has come to its end, and comes to its end no more than once. -/
structure RunsOnce (log : List (LoadEvent V)) (name : GoString) : Prop where
  ended : ends log name ≤ starts log name
  alone : starts log name ≤ ends log name + 1
  idle : lastValue log name ≠ none → NotRunning log name
  absent : lastValue log name = none → finishes log name = 0
  once : finishes log name ≤ 1

theorem NeverNested.of_append {log later : List (LoadEvent V)} (h : NeverNested (log ++ later)) :
    NeverNested log :=
  fun before name after hlog => h before name (after ++ later) (by simp [hlog])

/-- What happens to other modules is no matter. -/
theorem RunsOnce.other {log : List (LoadEvent V)} {name : GoString} (h : RunsOnce log name)
    {e : LoadEvent V} (hentered : e.isEntered name = false) (hleft : e.isLeft name = false) :
    RunsOnce (log ++ [e]) name := by
  have hdone := LoadEvent.isDone_of_not_isLeft hleft
  have hstarts : starts (log ++ [e]) name = starts log name := by simp [hentered]
  have hends : ends (log ++ [e]) name = ends log name := by simp [hleft]
  have hfinishes : finishes (log ++ [e]) name = finishes log name := by simp [hdone]
  have hvalue : lastValue (log ++ [e]) name = lastValue log name := lastValue_concat hdone
  constructor
  · rw [hstarts, hends]
    exact h.ended
  · rw [hstarts, hends]
    exact h.alone
  · rw [hvalue, NotRunning, hstarts, hends]
    exact h.idle
  · rw [hvalue, hfinishes]
    exact h.absent
  · rw [hfinishes]
    exact h.once

theorem runsOnce {log : List (LoadEvent V)} (hobeys : ObeysFrom (Loadable below) [] log)
    (hnested : NeverNested log) (name : GoString) : RunsOnce log name := by
  induction log using List.reverseRecOn with
  | nil => exact ⟨le_rfl, Nat.zero_le _, fun h => absurd rfl h, fun _ => rfl, Nat.zero_le _⟩
  | append_singleton log e ih =>
    obtain ⟨hbefore, hallowed, -⟩ := obeysFrom_append.mp hobeys
    have h := ih hbefore hnested.of_append
    cases e with
    | opened | answered => exact h.other rfl rfl
    | entered n =>
      rcases ne_or_eq n name with hne | rfl
      · exact h.other (decide_eq_false hne) rfl
      have hidle : starts log n = ends log n := hnested log n [] rfl
      have hfresh : lastValue log n = none := hallowed
      have hvalue : lastValue (log ++ [.entered n]) n = none := (lastValue_concat rfl).trans hfresh
      have habsent := h.absent hfresh
      refine ⟨?_, ?_, fun hne => absurd hvalue hne, fun _ => ?_, ?_⟩
      all_goals simp [LoadEvent.isEntered, LoadEvent.isLeft, LoadEvent.isDone, hidle, habsent]
    | left n value =>
      rcases ne_or_eq n name with hne | rfl
      · exact h.other rfl (decide_eq_false hne)
      have hrunning : ends log n < starts log n := hallowed
      have halone := h.alone
      have hfresh : lastValue log n = none := by
        by_contra hthere
        have hidle : starts log n = ends log n := h.idle hthere
        omega
      have hstarts : starts (log ++ [.left n value]) n = starts log n := by
        simp [LoadEvent.isEntered]
      have hends : ends (log ++ [.left n value]) n = ends log n + 1 := by
        simp [LoadEvent.isLeft]
      have hidle : NotRunning (log ++ [.left n value]) n := by
        rw [NotRunning, hstarts, hends]
        omega
      refine ⟨by omega, by omega, fun _ => hidle, fun hnone => ?_, ?_⟩
      · cases value with
        | none => simp [LoadEvent.isDone, h.absent hfresh]
        | some v =>
          rw [lastValue_concat_done] at hnone
          cases hnone
      · cases value <;> simp [LoadEvent.isDone, h.absent hfresh]

end Histories

section Executions

variable {V : Type} (disk : ScriptDisk V) (scriptsDir : GoString)

/-- The path goes through the scripts directory and on. -/
def Inside (path : GoString) : Prop :=
  StrictlyBelow (clean (abs disk.workingDir scriptsDir)) (clean (abs disk.workingDir path))

variable {disk scriptsDir} {s : Loader V}

/-- The comparison of texts is right about the parts of the paths. -/
theorem inside_of_isSubpath {path : GoString}
    (h : isSubpath (abs disk.workingDir scriptsDir) (abs disk.workingDir path) = true) :
    Inside disk scriptsDir path := by
  rw [isSubpath, decide_eq_true_eq] at h
  obtain ⟨rest, hrest⟩ := h
  rw [List.append_assoc, List.singleton_append] at hrest
  have hparts := congrArg parts hrest
  rw [parts_append_slash] at hparts
  refine ⟨parts rest, fun hnil => ?_, hparts.symm⟩
  rw [hnil, List.append_nil] at hparts
  have hwd := disk.isAbs_workingDir
  have hsame : clean (abs disk.workingDir scriptsDir) = clean (abs disk.workingDir path) := by
    rw [parts_clean, parts_clean, isAbs_abs hwd, isAbs_abs hwd] at hparts
    rw [clean, clean, isAbs_abs hwd, isAbs_abs hwd, hparts]
  simp [hsame] at hrest

theorem inside_of_checkPath {invalid escapes name path : GoString}
    (h : checkPath disk scriptsDir invalid escapes name path = .ok ()) :
    Inside disk scriptsDir path := by
  unfold checkPath at h
  split_ifs at h with hname hsub
  exact inside_of_isSubpath (by simpa using hsub)

/-- What is asked of the way a chunk is run. -/
def Runs (disk : ScriptDisk V) (scriptsDir : GoString)
    (exec : Chunk V → Loader V → Loaded V (ModuleValue V)) : Prop :=
  ∀ chunk s, Consistent s → Extends (Inside disk scriptsDir) s (exec chunk s).1

theorem loadModule_extends {exec : Chunk V → Loader V → Loaded V (ModuleValue V)}
    (hexec : Runs disk scriptsDir exec) (hs : Consistent s) (modName : GoString) :
    Extends (Inside disk scriptsDir) s (loadModule disk scriptsDir exec modName s).1 ∧
      Loadable (Inside disk scriptsDir) (loadModule disk scriptsDir exec modName s).1.log
        (.answered modName (loadModule disk scriptsDir exec modName s).2) := by
  unfold loadModule
  cases hcached : s.loaded.lookup modName with
  | some cached => exact ⟨.refl _ hs, (hs.lookup modName).symm.trans hcached⟩
  | none =>
    have hnone : lastValue s.log modName = none := (hs.lookup modName).symm.trans hcached
    dsimp only
    cases hcheck : checkPath disk scriptsDir (lit "invalid module name: ")
        (lit "module path escapes scripts directory: ") modName (scriptFile scriptsDir modName) with
    | error e => exact ⟨.refl _ hs, .inl hnone⟩
    | ok _ =>
      have hopened : Extends (Inside disk scriptsDir) s
          (s.emit (.opened (scriptFile scriptsDir modName))) :=
        .emit hs (plain_opened _) (inside_of_checkPath hcheck)
      have hfresh : lastValue (s.emit (.opened (scriptFile scriptsDir modName))).log modName =
          none := (lastValue_concat rfl).trans hnone
      dsimp only
      split_ifs with hstat
      · exact ⟨hopened, .inl hfresh⟩
      cases disk.loadFile s.log.length (scriptFile scriptsDir modName) with
      | error message => exact ⟨hopened, .inl hfresh⟩
      | ok chunk =>
        have hbody := hexec chunk ((s.emit (.opened (scriptFile scriptsDir modName))).emit
          (.entered modName)) hopened.consistent.entered
        dsimp only
        generalize exec chunk _ = r at hbody
        obtain ⟨s', e | ret⟩ := r
        · refine ⟨hopened.trans (.module hopened.consistent hfresh hbody (fun n => ?_) rfl),
            .inr List.getLast?_concat⟩
          exact (hbody.consistent.lookup n).trans (lastValue_concat rfl).symm
        · have hlookup : ∀ n, (s'.loaded.insert modName ret.orTrue).lookup n =
              lastValue (s'.log ++ [.left modName (some ret.orTrue)]) n := by
            intro n
            rw [GoMap.lookup_insert_ite]
            split_ifs with hn
            · rw [hn, lastValue_concat_done]
            · rw [lastValue_concat (by simpa [LoadEvent.isDone] using Ne.symm hn),
                hbody.consistent.lookup]
          exact ⟨hopened.trans (.module hopened.consistent hfresh hbody hlookup rfl),
            lastValue_concat_done s'.log modName ret.orTrue⟩

theorem require_extends {exec : Chunk V → Loader V → Loaded V (ModuleValue V)}
    (hexec : Runs disk scriptsDir exec) (hs : Consistent s) (modName : GoString) :
    Extends (Inside disk scriptsDir) s (require disk scriptsDir exec modName s).1 := by
  obtain ⟨hloads, hanswer⟩ := loadModule_extends hexec hs modName
  exact hloads.trans (.emit hloads.consistent (plain_answered modName _) hanswer)

theorem dofile_extends {exec : Chunk V → Loader V → Loaded V (ModuleValue V)}
    (hexec : Runs disk scriptsDir exec) (hs : Consistent s) (name : GoString) :
    Extends (Inside disk scriptsDir) s (dofile disk scriptsDir exec name s).1 := by
  unfold dofile
  dsimp only
  cases hcheck : checkPath disk scriptsDir (lit "invalid path: ")
      (lit "path escapes scripts directory: ") name (join scriptsDir name) with
  | error e => exact .refl _ hs
  | ok _ =>
    have hopened : Extends (Inside disk scriptsDir) s
        (s.emit (.opened (join scriptsDir name))) :=
      .emit hs (plain_opened _) (inside_of_checkPath hcheck)
    dsimp only
    cases disk.loadFile s.log.length (join scriptsDir name) with
    | error message => exact hopened
    | ok chunk =>
      have hbody := hexec chunk (s.emit (.opened (join scriptsDir name))) hopened.consistent
      dsimp only
      generalize exec chunk _ = r at hbody
      obtain ⟨s', e | ret⟩ := r <;> exact hopened.trans hbody

theorem run_extends {require : GoString → Loader V → Loaded V (ModuleValue V)}
    {dofile : GoString → Loader V → Loaded V Unit}
    (hrequire : ∀ name s, Consistent s → Extends (Inside disk scriptsDir) s (require name s).1)
    (hdofile : ∀ name s, Consistent s → Extends (Inside disk scriptsDir) s (dofile name s).1) :
    Runs disk scriptsDir (Chunk.run require dofile) := by
  intro chunk
  induction chunk with
  | done ret => exact fun s hs => .refl _ hs
  | raise e => exact fun s hs => .refl _ hs
  | require name next ih =>
    intro s hs
    have hcall := hrequire name s hs
    exact hcall.trans (ih _ _ hcall.consistent)
  | dofile name next ih =>
    intro s hs
    have hcall := hdofile name s hs
    exact hcall.trans (ih _ _ hcall.consistent)

theorem exec_extends (depth : ℕ) : Runs disk scriptsDir (exec disk scriptsDir depth) := by
  induction depth with
  | zero => exact fun _ s hs => .refl _ hs
  | succ depth ih =>
    exact run_extends (fun name s hs => require_extends ih hs name)
      (fun name s hs => dofile_extends ih hs name)

/-- What happens while a chunk is run from a fresh table of modules. -/
def history (disk : ScriptDisk V) (scriptsDir : GoString) (depth : ℕ) (chunk : Chunk V) :
    List (LoadEvent V) :=
  (exec disk scriptsDir depth chunk .new).1.log

theorem obeys_history (disk : ScriptDisk V) (scriptsDir : GoString) (depth : ℕ)
    (chunk : Chunk V) :
    ObeysFrom (Loadable (Inside disk scriptsDir)) [] (history disk scriptsDir depth chunk) := by
  have hnew : Consistent (Loader.new : Loader V) :=
    ⟨fun name => Finmap.lookup_empty name, fun _ => le_rfl⟩
  have hexec : Runs disk scriptsDir (exec disk scriptsDir depth) := exec_extends depth
  obtain ⟨new, hlog, hobeys, -⟩ := (hexec chunk _ hnew).history
  rw [history, hlog]
  exact hobeys

/-- Whatever the scripts do, only files inside the scripts directory are opened. When a module
has been handed out and does not run, it is never started again and every later call of `require`
with its name returns the same value. If no module is started while it runs, then each comes to
its end at most once, and all calls that return a value for a name return the same. -/
theorem modules_load_once (disk : ScriptDisk V) (scriptsDir : GoString) (depth : ℕ)
    (chunk : Chunk V) :
    (∀ path, .opened path ∈ history disk scriptsDir depth chunk → Inside disk scriptsDir path) ∧
    (∀ before name v later,
      history disk scriptsDir depth chunk = before ++ .answered name (.ok v) :: later →
        NotRunning before name →
        starts later name = 0 ∧ ∀ r, .answered name r ∈ later → r = .ok v) ∧
    (NeverNested (history disk scriptsDir depth chunk) → ∀ name,
      finishes (history disk scriptsDir depth chunk) name ≤ 1 ∧
      ∀ v v', .answered name (.ok v) ∈ history disk scriptsDir depth chunk →
        .answered name (.ok v') ∈ history disk scriptsDir depth chunk → v = v') := by
  have hobeys := obeys_history disk scriptsDir depth chunk
  generalize history disk scriptsDir depth chunk = log at hobeys
  have hafter : ∀ before name v later, log = before ++ .answered name (.ok v) :: later →
      NotRunning before name →
        starts later name = 0 ∧ ∀ r, .answered name r ∈ later → r = .ok v := by
    rintro before name v later rfl hidle
    have hvalue : lastValue before name = some v := hobeys.at
    rw [List.append_cons] at hobeys
    obtain ⟨-, hlater⟩ := obeysFrom_append.mp hobeys
    refine settled hlater ((lastValue_concat rfl).trans hvalue) ?_ (by simp)
    have : starts before name = ends before name := hidle
    simp [NotRunning, this, LoadEvent.isEntered, LoadEvent.isLeft]
  refine ⟨fun path hmem => ?_, hafter, fun hnested name => ⟨?_, fun v v' hv hv' => ?_⟩⟩
  · obtain ⟨before, after, rfl⟩ := List.append_of_mem hmem
    exact hobeys.at
  · exact (runsOnce hobeys hnested name).once
  · have hidle : ∀ before v later, log = before ++ .answered name (.ok v) :: later →
        NotRunning before name := by
      rintro before v later rfl
      have hvalue : lastValue before name = some v := hobeys.at
      refine (runsOnce (obeysFrom_append.mp hobeys).1 hnested.of_append name).idle ?_
      simp [hvalue]
    obtain ⟨before, after, hlog⟩ := List.append_of_mem hv
    rw [hlog, List.mem_append, List.mem_cons] at hv'
    rcases hv' with hearlier | hsame | hlater
    · obtain ⟨before', after', rfl⟩ := List.append_of_mem hearlier
      have hlog' : log =
          before' ++ .answered name (.ok v') :: (after' ++ .answered name (.ok v) :: after) := by
        rw [hlog, List.append_assoc, List.cons_append]
      have hsame := (hafter _ name v' _ hlog' (hidle _ _ _ hlog')).2 (.ok v) (by simp)
      exact Except.ok.inj hsame
    · exact (Except.ok.inj (LoadEvent.answered.inj hsame).2).symm
    · exact (Except.ok.inj ((hafter _ name v _ hlog (hidle _ _ _ hlog)).2 (.ok v') hlater)).symm

end Executions

end Musgos.Outbound.ModuleLoader
