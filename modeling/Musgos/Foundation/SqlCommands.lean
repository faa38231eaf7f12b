import Musgos.Foundation.SqlText
import Mathlib.Logic.Function.Basic

/-!
# Running an SQL statement

A small part of SQL: insertions, and updates, deletions and selections whose condition is a
conjunction of comparisons of a column with an argument. A statement is read from its words and
then run on tables. A row without a value in a column has `NULL` there, and a comparison with
`NULL` is never true. What a database makes of the values of a column, which rows a table admits
and what becomes of the tables that refer to a changed one are parameters.
-/
namespace Musgos.Foundation.SqlCommands

open SqlLexer SqlText

section Placeholders

/-- The tokens of a statement; `argOf n w` is the argument of the placeholder `w` that comes after
`n` others. -/
def tokens (argOf : ℕ → GoString → Option ℕ) : ℕ → List GoString → Option (List Tok)
  | _, [] => some []
  | n, w :: ws =>
    if isMark w then do
      let k ← argOf n w
      let rest ← tokens argOf (n + 1) ws
      return .arg k :: rest
    else do
      let rest ← tokens argOf n ws
      return .of w :: rest

/-- The tokens of a statement whose placeholders take the arguments in turn. -/
def numbered : ℕ → List Slot → List Tok
  | _, [] => []
  | n, .word w :: slots => .of w :: numbered n slots
  | n, .mark :: slots => .arg n :: numbered (n + 1) slots

theorem numbered_append (n : ℕ) (a b : List Slot) :
    numbered n (a ++ b) = numbered n a ++ numbered (n + marks a) b := by
  induction a generalizing n with
  | nil => rfl
  | cons slot a ih =>
    cases slot with
    | word w => rw [List.cons_append, numbered, ih, numbered, marks, List.cons_append]
    | mark =>
      rw [List.cons_append, numbered, ih, numbered, marks, List.cons_append, Nat.add_assoc,
        Nat.add_comm 1]

theorem numbered_words (n : ℕ) (ws : List GoString) :
    numbered n (ws.map .word) = ws.map .of := by
  induction ws with
  | nil => rfl
  | cons w ws ih => rw [List.map_cons, numbered, ih, List.map_cons]

theorem tokens_fill {argOf : ℕ → GoString → Option ℕ} {ph : ℕ → GoString}
    (hph : ∀ n, isMark (ph n) = true ∧ argOf n (ph n) = some n) {slots : List Slot}
    (h : Unmarked slots) (n : ℕ) : tokens argOf n (fill ph n slots) = some (numbered n slots) := by
  induction slots generalizing n with
  | nil => rfl
  | cons slot slots ih =>
    have hslots : Unmarked slots := fun w hw => h w (List.mem_cons_of_mem _ hw)
    cases slot with
    | word w =>
      have hw : isMark w = false := h w List.mem_cons_self
      rw [fill, tokens, if_neg (by simp [hw]), ih hslots]
      rfl
    | mark =>
      rw [fill, tokens, if_pos (hph n).1, (hph n).2, ih hslots]
      rfl

end Placeholders

/-- A comparison of a column with an argument. -/
inductive Test where
  | isNull (column : GoString)
  | equal (column : GoString) (k : ℕ)
  | less (column : GoString) (k : ℕ)
  deriving DecidableEq

/-- `c = ?`, or `c = c + ?`. -/
inductive Change where
  | set (column : GoString) (k : ℕ)
  | add (column : GoString) (k : ℕ)
  deriving DecidableEq

/-- A statement. -/
inductive Command where
  | insert (table : GoString) (columns : List GoString) (args : List ℕ)
  | update (table : GoString) (changes : List Change) (tests : List Test)
  | delete (table : GoString) (tests : List Test)
  /-- All columns; of one row if `one` is set. -/
  | select (table : GoString) (tests : List Test) (one : Bool)
  | count (table : GoString) (tests : List Test)

section Reader

variable (isName : GoString → Bool)

def readArg : List Tok → Option (ℕ × List Tok)
  | .arg k :: ts => some (k, ts)
  | _ => none

def readTest : List Tok → Option (Test × List Tok)
  | .word c :: .word op :: .word w :: ts =>
    if isName c ∧ op = lit "IS" ∧ w = lit "NULL" then some (.isNull c, ts) else none
  | .word c :: .word op :: .arg k :: ts =>
    if isName c ∧ op = lit "=" then some (.equal c k, ts)
    else if isName c ∧ op = lit "<" then some (.less c k, ts)
    else none
  | _ => none

def readChange : List Tok → Option (Change × List Tok)
  | .word c :: .word op :: .arg k :: ts =>
    if isName c ∧ op = lit "=" then some (.set c k, ts) else none
  | .word c :: .word op :: .word c' :: .word plus :: .arg k :: ts =>
    if isName c ∧ op = lit "=" ∧ c' = c ∧ plus = lit "+" then some (.add c k, ts) else none
  | _ => none

def readWhere (ts : List Tok) : Option (List Test × List Tok) :=
  if ts.head? = some (.word (lit "WHERE")) then
    readSeparated (readTest isName) (.word (lit "AND")) (ts.length + 1) ts.tail
  else some ([], ts)

def readInsert (ts : List Tok) : Option Command := do
  let ts ← expect (keywords [lit "INSERT", lit "INTO"]) ts
  let (table, ts) ← readName isName ts
  let (columns, ts) ← readList (readName isName) ts
  let ts ← expect (keywords [lit "VALUES"]) ts
  let (args, ts) ← readList readArg ts
  if columns.length = args.length then finish (.insert table columns args) ts else none

def readUpdate (ts : List Tok) : Option Command := do
  let ts ← expect (keywords [lit "UPDATE"]) ts
  let (table, ts) ← readName isName ts
  let ts ← expect (keywords [lit "SET"]) ts
  let (changes, ts) ← readSeparated (readChange isName) .comma (ts.length + 1) ts
  let (tests, ts) ← readWhere isName ts
  finish (.update table changes tests) ts

def readDelete (ts : List Tok) : Option Command := do
  let ts ← expect (keywords [lit "DELETE", lit "FROM"]) ts
  let (table, ts) ← readName isName ts
  let (tests, ts) ← readWhere isName ts
  finish (.delete table tests) ts

def readSelect (ts : List Tok) : Option Command := do
  let ts ← expect (keywords [lit "SELECT", lit "*", lit "FROM"]) ts
  let (table, ts) ← readName isName ts
  let (tests, ts) ← readWhere isName ts
  let (one, ts) := skip (keywords [lit "LIMIT", lit "1"]) ts
  finish (.select table tests one) ts

/-- `SELECT COUNT(*) FROM` -/
def countToks : List Tok :=
  keywords [lit "SELECT", lit "COUNT"] ++ (listToks [keywords [lit "*"]] ++ keywords [lit "FROM"])

def readCount (ts : List Tok) : Option Command := do
  let ts ← expect countToks ts
  let (table, ts) ← readName isName ts
  let (tests, ts) ← readWhere isName ts
  finish (.count table tests) ts

def readCommand (ts : List Tok) : Option Command :=
  readInsert isName ts <|> readUpdate isName ts <|> readDelete isName ts <|>
    readSelect isName ts <|> readCount isName ts

end Reader

/-! How a command is written, and that it is read back. -/
section Writer

def Test.toks : Test → List Tok
  | .isNull c => [.word c, .word (lit "IS"), .word (lit "NULL")]
  | .equal c k => [.word c, .word (lit "="), .arg k]
  | .less c k => [.word c, .word (lit "<"), .arg k]

def Test.column : Test → GoString
  | .isNull c => c
  | .equal c _ => c
  | .less c _ => c

def Change.toks : Change → List Tok
  | .set c k => [.word c, .word (lit "="), .arg k]
  | .add c k => [.word c, .word (lit "="), .word c, .word (lit "+"), .arg k]

def Change.column : Change → GoString
  | .set c _ => c
  | .add c _ => c

def whereToks (tests : List Test) : List Tok :=
  if tests = [] then []
  else .word (lit "WHERE") :: separate (.word (lit "AND")) (tests.map Test.toks)

def Command.toks : Command → List Tok
  | .insert table columns args =>
    keywords [lit "INSERT", lit "INTO"] ++ (.word table ::
      (listToks (columns.map fun c => [.word c]) ++ (keywords [lit "VALUES"] ++
        listToks (args.map fun k => [.arg k]))))
  | .update table changes tests =>
    keywords [lit "UPDATE"] ++ (.word table :: (keywords [lit "SET"] ++
      (separate .comma (changes.map Change.toks) ++ whereToks tests)))
  | .delete table tests => keywords [lit "DELETE", lit "FROM"] ++ (.word table :: whereToks tests)
  | .select table tests one =>
    keywords [lit "SELECT", lit "*", lit "FROM"] ++ (.word table :: (whereToks tests ++
      if one then keywords [lit "LIMIT", lit "1"] else []))
  | .count table tests => countToks ++ (.word table :: whereToks tests)

variable {isName : GoString → Bool}

theorem readTest_append {t : Test} (h : isName t.column = true) (rest : List Tok) :
    readTest isName (t.toks ++ rest) = some (t, rest) := by
  have hless : lit "<" ≠ lit "=" := by decide
  cases t with
  | isNull c => exact if_pos ⟨h, rfl, rfl⟩
  | equal c k => exact if_pos ⟨h, rfl⟩
  | less c k =>
    have hname : isName c = true := h
    simp [Test.toks, readTest, hname, hless]

theorem readChange_append {c : Change} (h : isName c.column = true) (rest : List Tok) :
    readChange isName (c.toks ++ rest) = some (c, rest) := by
  cases c with
  | set c k => exact if_pos ⟨h, rfl⟩
  | add c k => exact if_pos ⟨h, rfl, rfl, rfl⟩

theorem readWhere_append {tests : List Test} (h : ∀ t ∈ tests, isName t.column = true)
    (rest : List Tok) (hwhere : rest.head? ≠ some (.word (lit "WHERE")))
    (hand : rest.head? ≠ some (.word (lit "AND"))) :
    readWhere isName (whereToks tests ++ rest) = some (tests, rest) := by
  unfold whereToks
  split_ifs with hempty
  · rw [List.nil_append, readWhere, if_neg hwhere, hempty]
  · have hbound := length_separate_ge (.word (lit "AND")) (tests.map Test.toks)
    rw [List.length_map] at hbound
    rw [List.cons_append, readWhere, List.head?_cons, if_pos rfl, List.tail_cons]
    refine readSeparated_append (fun t ht => readTest_append (h t ht)) hempty hand ?_
    simp only [List.length_cons, List.length_append]
    omega

theorem readWhere_toks {tests : List Test} (h : ∀ t ∈ tests, isName t.column = true) :
    readWhere isName (whereToks tests) = some (tests, []) := by
  simpa using readWhere_append h [] (by simp) (by simp)

/-- The names of a command. -/
def Command.Named (isName : GoString → Bool) : Command → Prop
  | .insert table columns args =>
    isName table = true ∧ (∀ c ∈ columns, isName c = true) ∧ columns ≠ [] ∧
      columns.length = args.length
  | .update table changes tests =>
    isName table = true ∧ (∀ c ∈ changes, isName c.column = true) ∧ changes ≠ [] ∧
      ∀ t ∈ tests, isName t.column = true
  | .delete table tests => isName table = true ∧ ∀ t ∈ tests, isName t.column = true
  | .select table tests _ => isName table = true ∧ ∀ t ∈ tests, isName t.column = true
  | .count table tests => isName table = true ∧ ∀ t ∈ tests, isName t.column = true

theorem readInsert_of_ne {v : GoString} (h : lit "INSERT" ≠ v) (rest : List Tok) :
    readInsert isName (.word v :: rest) = none := by
  rw [readInsert, expect_keywords_of_ne h]
  rfl

theorem readUpdate_of_ne {v : GoString} (h : lit "UPDATE" ≠ v) (rest : List Tok) :
    readUpdate isName (.word v :: rest) = none := by
  rw [readUpdate, expect_keywords_of_ne h]
  rfl

theorem readDelete_of_ne {v : GoString} (h : lit "DELETE" ≠ v) (rest : List Tok) :
    readDelete isName (.word v :: rest) = none := by
  rw [readDelete, expect_keywords_of_ne h]
  rfl

theorem readSelect_count (rest : List Tok) :
    readSelect isName (.word (lit "SELECT") :: .word (lit "COUNT") :: rest) = none := by
  have hcount : lit "*" ≠ lit "COUNT" := by decide
  simp [readSelect, expect, keywords, hcount]

theorem readInsert_toks {table : GoString} {columns : List GoString} {args : List ℕ}
    (h : (Command.insert table columns args).Named isName) :
    readInsert isName (Command.insert table columns args).toks =
      some (.insert table columns args) := by
  obtain ⟨htable, hcolumns, hcolumnsNe, hlength⟩ := h
  have hargsNe : args ≠ [] := by
    rw [← List.length_pos_iff, ← hlength]
    exact List.length_pos_iff.mpr hcolumnsNe
  have hnames := readList_listToks (readName isName) (fun c => [.word c])
    (keywords [lit "VALUES"] ++ listToks (args.map fun k => [.arg k]))
    (fun c hc rest => readName_cons (hcolumns c hc) rest) hcolumnsNe
  have hargs := readList_listToks readArg (fun k => [.arg k]) [] (fun k _ rest => rfl) hargsNe
  rw [List.append_nil] at hargs
  simp only [readInsert, Command.toks, expect_append, readName_cons htable, hnames, hargs, hlength,
    finish, Option.bind_eq_bind, Option.bind_some, if_true]

theorem readUpdate_toks {table : GoString} {changes : List Change} {tests : List Test}
    (h : (Command.update table changes tests).Named isName) :
    readUpdate isName (Command.update table changes tests).toks =
      some (.update table changes tests) := by
  obtain ⟨htable, hchanges, hne, htests⟩ := h
  have hafter : (whereToks tests).head? ≠ some .comma := by
    unfold whereToks
    split_ifs <;> simp
  have hsets := readSeparated_separate (readChange isName) .comma Change.toks (whereToks tests)
    (fun c hc rest => readChange_append (hchanges c hc) rest) hne hafter
  simp only [readUpdate, Command.toks, expect_append, readName_cons htable, hsets,
    readWhere_toks htests, finish, Option.bind_eq_bind, Option.bind_some, if_true]

theorem readDelete_toks {table : GoString} {tests : List Test}
    (h : (Command.delete table tests).Named isName) :
    readDelete isName (Command.delete table tests).toks = some (.delete table tests) := by
  simp only [readDelete, Command.toks, expect_append, readName_cons h.1, readWhere_toks h.2,
    finish, Option.bind_eq_bind, Option.bind_some, if_true]

theorem readSelect_toks {table : GoString} {tests : List Test} {one : Bool}
    (h : (Command.select table tests one).Named isName) :
    readSelect isName (Command.select table tests one).toks =
      some (.select table tests one) := by
  cases one with
  | false =>
    have hskip : skip (keywords [lit "LIMIT", lit "1"]) [] = (false, []) := rfl
    simp [readSelect, Command.toks, expect_append, readName_cons h.1, readWhere_toks h.2, hskip,
      finish]
  | true =>
    have hwhere := readWhere_append h.2 (keywords [lit "LIMIT", lit "1"]) (by decide) (by decide)
    have hskip := skip_append (keywords [lit "LIMIT", lit "1"]) []
    rw [List.append_nil] at hskip
    simp [readSelect, Command.toks, expect_append, readName_cons h.1, hwhere, hskip, finish]

theorem readCount_toks {table : GoString} {tests : List Test}
    (h : (Command.count table tests).Named isName) :
    readCount isName (Command.count table tests).toks = some (.count table tests) := by
  simp only [readCount, Command.toks, expect_append, readName_cons h.1, readWhere_toks h.2,
    finish, Option.bind_eq_bind, Option.bind_some, if_true]

/-- A command is read back from the way it is written. -/
theorem readCommand_toks {c : Command} (h : c.Named isName) :
    readCommand isName c.toks = some c := by
  cases c with
  | insert table columns args =>
    rw [readCommand, readInsert_toks h]
    rfl
  | update table changes tests =>
    rw [readCommand, readUpdate_toks h, Command.toks, keywords, List.map_cons, List.cons_append,
      readInsert_of_ne (by decide)]
    rfl
  | delete table tests =>
    rw [readCommand, readDelete_toks h, Command.toks, keywords, List.map_cons, List.cons_append,
      readInsert_of_ne (by decide), readUpdate_of_ne (by decide)]
    rfl
  | select table tests one =>
    rw [readCommand, readSelect_toks h, Command.toks, keywords, List.map_cons, List.cons_append,
      readInsert_of_ne (by decide), readUpdate_of_ne (by decide), readDelete_of_ne (by decide)]
    rfl
  | count table tests =>
    rw [readCommand, readCount_toks h, Command.toks, countToks, keywords, List.map_cons,
      List.map_cons, List.cons_append, List.cons_append, List.cons_append, List.cons_append,
      readInsert_of_ne (by decide), readUpdate_of_ne (by decide), readDelete_of_ne (by decide),
      readSelect_count]
    rfl

end Writer

section Texts

/-- Items for a list, each from the number of placeholders before it. -/
def itemsFrom {α β : Type} (size : α → ℕ) (item : ℕ → α → β) : ℕ → List α → List β
  | _, [] => []
  | n, a :: as => item n a :: itemsFrom size item (n + size a) as

theorem length_itemsFrom {α β : Type} (size : α → ℕ) (item : ℕ → α → β) (n : ℕ) (as : List α) :
    (itemsFrom size item n as).length = as.length := by
  induction as generalizing n with
  | nil => rfl
  | cons a as ih => rw [itemsFrom, List.length_cons, ih, List.length_cons]

theorem itemsFrom_eq_nil {α β : Type} {size : α → ℕ} {item : ℕ → α → β} {n : ℕ} {as : List α} :
    itemsFrom size item n as = [] ↔ as = [] := by
  rw [← List.length_eq_zero_iff, length_itemsFrom, List.length_eq_zero_iff]

theorem map_itemsFrom {α β γ : Type} {size : α → ℕ} {item : ℕ → α → β} {f : β → γ} {g : α → γ}
    (h : ∀ n a, f (item n a) = g a) (n : ℕ) (as : List α) :
    (itemsFrom size item n as).map f = as.map g := by
  induction as generalizing n with
  | nil => rfl
  | cons a as ih => rw [itemsFrom, List.map_cons, h, ih, List.map_cons]

theorem all_itemsFrom {α β : Type} {size : α → ℕ} {item : ℕ → α → β} {p : β → Bool}
    (h : ∀ n a, p (item n a) = true) (n : ℕ) (as : List α) :
    (itemsFrom size item n as).all p = true := by
  induction as generalizing n with
  | nil => rfl
  | cons a as ih => rw [itemsFrom, List.all_cons, h, ih, Bool.and_self]

/-- The text has this number of placeholders and is read as these tokens, which depend on the
number of placeholders before it. -/
def Writes (ph : ℕ → GoString) (text : GoString) (size : ℕ) (ts : ℕ → List Tok) : Prop :=
  ∃ slots, Spells ph text slots ∧ marks slots = size ∧ ∀ n, numbered n slots = ts n

variable {ph : ℕ → GoString}

theorem writes_nil : Writes ph [] 0 fun _ => [] := ⟨[], spells_nil, rfl, fun _ => rfl⟩

theorem writes_word {w : GoString} (h : IsWord w) : Writes ph w 0 fun _ => [.word w] :=
  ⟨[.word w], spells_word h, rfl, fun _ => by rw [numbered, Tok.of_unbroken h.unbroken, numbered]⟩

theorem writes_mark (hph : Placeholders ph) : Writes ph (lit "?") 1 fun n => [.arg n] :=
  ⟨[.mark], spells_mark fun n => ⟨hph.ne_nil n, hph.unbroken n⟩, rfl, fun _ => rfl⟩

theorem Writes.append {a b : GoString} {k l : ℕ} {ts us : ℕ → List Tok} (ha : Writes ph a k ts)
    (hb : Writes ph b l us) (hbreak : AtBreak b) :
    Writes ph (a ++ b) (k + l) fun n => ts n ++ us (n + k) := by
  obtain ⟨as, hspellsA, rfl, htsA⟩ := ha
  obtain ⟨bs, hspellsB, rfl, htsB⟩ := hb
  refine ⟨as ++ bs, hspellsA.append hspellsB hbreak, marks_append as bs, fun n => ?_⟩
  rw [numbered_append, htsA, htsB]

/-- A text that ends in a break is read as these tokens before any other. -/
def Starts (ph : ℕ → GoString) (text : GoString) (ks : List Tok) : Prop :=
  ∃ ws, Opens ph text ws ∧ ws.map .of = ks

theorem Starts.append {a b : GoString} {ks : List Tok} {k : ℕ} {ts : ℕ → List Tok}
    (ha : Starts ph a ks) (hb : Writes ph b k ts) :
    Writes ph (a ++ b) k fun n => ks ++ ts n := by
  obtain ⟨ws, hopens, rfl⟩ := ha
  obtain ⟨slots, hspells, rfl, hts⟩ := hb
  have hmarks : marks (ws.map .word ++ slots) = marks slots := by
    rw [marks_append, marks_words, Nat.zero_add]
  refine ⟨ws.map .word ++ slots, hopens.spells hspells, hmarks, fun n => ?_⟩
  rw [numbered_append, numbered_words, marks_words, Nat.add_zero, hts]

theorem writes_intercalate {sep : GoString} {t : Tok} (hsep : Starts ph sep [t])
    (hbreak : AtBreak sep) (hne : sep ≠ []) {α β : Type} (text : α → GoString)
    (size : α → ℕ) (item : ℕ → α → β) (write : β → List Tok) {as : List α}
    (h : ∀ a ∈ as, Writes ph (text a) (size a) fun n => write (item n a)) :
    Writes ph (sep.intercalate (as.map text)) (as.map size).sum
      fun n => separate t ((itemsFrom size item n as).map write) := by
  induction as with
  | nil => exact writes_nil
  | cons a as ih =>
    obtain ⟨ha, has⟩ := List.forall_mem_cons.mp h
    cases as with
    | nil => simpa [itemsFrom, separate] using ha
    | cons b as =>
      have hrest := hsep.append (ih has)
      have hall := ha.append hrest (hbreak.append_of_ne_nil hne _)
      simpa [itemsFrom, separate, List.intercalate_cons_cons] using hall

theorem writes_compared (hph : Placeholders ph) {c op : GoString} (hc : IsWord c)
    (hop : Starts ph (lit " " ++ op ++ lit " ") [.word op]) :
    Writes ph (c ++ (lit " " ++ op ++ lit " " ++ lit "?")) 1
      fun n => [.word c, .word op, .arg n] := by
  have hbreak : AtBreak (lit " " ++ op ++ lit " " ++ lit "?") := atBreak_cons rfl _
  exact (writes_word hc).append (hop.append (writes_mark hph)) hbreak

end Texts

section Semantics

/-- What a database does with the values of a column. -/
structure Kind (V : Type) where
  /-- The value as the column has it; `none` if the database refuses it. -/
  convert : V → Option V
  equal : V → V → Bool
  less : V → V → Bool
  /-- The sum as the column has it; `none` if there is none. -/
  add : V → V → Option V

/-- The values by the folded names of the columns; `none` is `NULL`. -/
abbrev Row (V : Type) := GoString → Option V

/-- A table with its rows. -/
structure Relation (V : Type) where
  columns : List GoString
  /-- By the folded names of the columns. -/
  kind : GoString → Kind V
  /-- What a new row has where nothing is set. -/
  defaults : Row V
  rows : List (Row V)
  /-- The constraints of the table. -/
  admits : List (Row V) → Bool

/-- The tables by their folded names. -/
abbrev Tables (V : Type) := GoString → Option (Relation V)

/-- What becomes of the tables after a table has got new rows: from the tables before, the folded
name and the tables with the new rows. Those that refer to the table may lose rows; `none` if they
forbid the change. -/
abbrev Aftermath (V : Type) := Tables V → GoString → Tables V → Option (Tables V)

/-- No other table refers to this one. -/
def Unreferenced {V : Type} (aftermath : Aftermath V) (name : GoString) : Prop :=
  ∀ before after, ∃ db, aftermath before name after = some db ∧
    ∀ other, (db other).map Relation.rows = (after other).map Relation.rows

/-- Why a statement fails. -/
inductive Failure where
  | unreadable
  | arguments
  | noTable
  | noColumn
  /-- A column is set twice. -/
  | twice
  /-- An argument is nothing for its column, or there is no sum. -/
  | value
  | constraint
  deriving DecidableEq

/-- What a statement returns. -/
inductive Answer (V : Type) where
  | affected (n : ℕ)
  | rows (rows : List (Row V))
  | number (n : ℕ)

def compares {V : Type} (r : V → V → Bool) : Option V → Option V → Bool
  | some a, some b => r a b
  | _, _ => false

variable {V : Type} (aftermath : Aftermath V) (fold : GoString → GoString)
  (args : List (Option V)) (t : Relation V)

/-- An argument, as the column that it is used with has it. -/
def given (c : GoString) (k : ℕ) : Option V :=
  (args.getD k none).bind (t.kind (fold c)).convert

/-- Whether the comparison is true of a row. -/
def Test.holds : Test → Row V → Bool
  | .isNull c, row => (row (fold c)).isNone
  | .equal c k, row => compares (t.kind (fold c)).equal (row (fold c)) (given fold args t c k)
  | .less c k, row => compares (t.kind (fold c)).less (row (fold c)) (given fold args t c k)

def chosen (tests : List Test) (row : Row V) : Bool := tests.all (·.holds fold args t row)

/-- The new value of the column, from the row as it was; a sum with `NULL` is `NULL`. -/
def Change.value : Change → Row V → Option V
  | .set c k, _ => given fold args t c k
  | .add c k, row =>
    (row (fold c)).bind fun x => (given fold args t c k).bind ((t.kind (fold c)).add x)

/-- There is a sum if there is one to form. -/
def Change.summed : Change → Row V → Bool
  | .set _ _, _ => true
  | .add c k, row =>
    (row (fold c)).all fun x =>
      (given fold args t c k).all fun y => ((t.kind (fold c)).add x y).isSome

def assign (row : Row V) (pairs : List (GoString × Option V)) : Row V :=
  pairs.foldl (fun row p => Function.update row (fold p.1) p.2) row

def Command.table : Command → GoString
  | .insert table _ _ => table
  | .update table _ _ => table
  | .delete table _ => table
  | .select table _ _ => table
  | .count table _ => table

/-- The columns that are set. -/
def Command.targets : Command → List GoString
  | .insert _ columns _ => columns
  | .update _ changes _ => changes.map Change.column
  | .delete _ _ => []
  | .select _ _ _ => []
  | .count _ _ => []

def Command.tests : Command → List Test
  | .insert _ _ _ => []
  | .update _ _ tests => tests
  | .delete _ tests => tests
  | .select _ tests _ => tests
  | .count _ tests => tests

def Test.uses : Test → List (GoString × ℕ)
  | .isNull _ => []
  | .equal c k => [(c, k)]
  | .less c k => [(c, k)]

def Change.use : Change → GoString × ℕ
  | .set c k => (c, k)
  | .add c k => (c, k)

/-- The arguments, each with the column that it is used with. -/
def Command.uses : Command → List (GoString × ℕ)
  | .insert _ columns ks => columns.zip ks
  | .update _ changes tests => changes.map Change.use ++ tests.flatMap Test.uses
  | .delete _ tests => tests.flatMap Test.uses
  | .select _ tests _ => tests.flatMap Test.uses
  | .count _ tests => tests.flatMap Test.uses

/-- The column takes the value; every column takes `NULL`, as far as its kind goes. -/
def Relation.takes (p : GoString × Option V) : Bool :=
  p.2.all fun v => ((t.kind (fold p.1)).convert v).isSome

/-- There are the sums that the command asks for. -/
def Command.sums : Command → Bool
  | .update _ changes tests =>
    (t.rows.filter (chosen fold args t tests)).all fun row =>
      changes.all (·.summed fold args t row)
  | _ => true

/-- The database can make something of the arguments. -/
def Command.accepted (c : Command) : Bool :=
  (c.uses.map fun p => (p.1, args.getD p.2 none)).all (t.takes fold) && c.sums fold args t

/-- The answer, and the rows that are there afterwards if the command writes. -/
def Command.effect : Command → Answer V × Option (List (Row V))
  | .insert _ columns ks =>
    (.affected 1, some (t.rows ++
      [assign fold t.defaults ((columns.zip ks).map fun p => (p.1, given fold args t p.1 p.2))]))
  | .update _ changes tests =>
    (.affected (t.rows.countP (chosen fold args t tests)),
      some (t.rows.map fun row =>
        if chosen fold args t tests row then
          assign fold row (changes.map fun c => (c.column, c.value fold args t row))
        else row))
  | .delete _ tests =>
    (.affected (t.rows.countP (chosen fold args t tests)),
      some (t.rows.filter fun row => !chosen fold args t tests row))
  | .select _ tests one =>
    (.rows (if one then (t.rows.filter (chosen fold args t tests)).take 1
      else t.rows.filter (chosen fold args t tests)), none)
  | .count _ tests => (.number (t.rows.countP (chosen fold args t tests)), none)

/-- The new rows are kept if the table admits them and those that refer to it allow the change;
otherwise the statement has failed. -/
def store (db : Tables V) (name : GoString) :
    Answer V × Option (List (Row V)) → Except Failure (Answer V × Tables V)
  | (answer, none) => .ok (answer, db)
  | (answer, some rows) =>
    if t.admits rows then
      match aftermath db (fold name)
          (Function.update db (fold name) (some { t with rows := rows })) with
      | some db' => .ok (answer, db')
      | none => .error .constraint
    else .error .constraint

def Command.exec (c : Command) (db : Tables V) : Except Failure (Answer V × Tables V) :=
  match db (fold c.table) with
  | none => .error .noTable
  | some t =>
    if (c.targets ++ c.tests.map Test.column).all fun x => t.columns.contains (fold x) then
      if (c.targets.map fold).Nodup then
        if c.accepted fold args t then
          store aftermath fold t db c.table (c.effect fold args t)
        else .error .value
      else .error .twice
    else .error .noColumn

/-- A text is run with its arguments; there has to be one for each placeholder. -/
def run (argOf : ℕ → GoString → Option ℕ) (isName : GoString → Bool) (text : GoString)
    (db : Tables V) : Except Failure (Answer V × Tables V) :=
  match (tokens argOf 0 (words text)).bind (readCommand isName) with
  | none => .error .unreadable
  | some c =>
    if args.length = ((words text).filter isMark).length then c.exec aftermath fold args db
    else .error .arguments

variable {aftermath fold args t}

theorem exec_eq {c : Command} {db : Tables V} (htable : db (fold c.table) = some t)
    (hcolumns : ∀ x ∈ c.targets ++ c.tests.map Test.column, fold x ∈ t.columns)
    (hnodup : (c.targets.map fold).Nodup) :
    c.exec aftermath fold args db =
      if c.accepted fold args t then
        store aftermath fold t db c.table (c.effect fold args t)
      else .error .value := by
  have hall : ((c.targets ++ c.tests.map Test.column).all
      fun x => t.columns.contains (fold x)) = true := by
    rw [List.all_eq_true]
    intro x hx
    exact List.contains_iff_mem.mpr (hcolumns x hx)
  rw [Command.exec, htable]
  dsimp only
  rw [if_pos hall, if_pos hnodup]

/-- A text whose words are those of a command does what the command does. -/
theorem run_eq {argOf : ℕ → GoString → Option ℕ} {isName : GoString → Bool} {ph : ℕ → GoString}
    (hph : ∀ n, isMark (ph n) = true ∧ argOf n (ph n) = some n) {text : GoString}
    {slots : List Slot} (hwords : words text = fill ph 0 slots) (hslots : Unmarked slots)
    {c : Command} (htoks : numbered 0 slots = c.toks) (hnamed : c.Named isName)
    (hargs : args.length = marks slots) (db : Tables V) :
    run aftermath fold args argOf isName text db = c.exec aftermath fold args db := by
  have hread : (tokens argOf 0 (words text)).bind (readCommand isName) = some c := by
    rw [hwords, tokens_fill hph hslots, Option.bind_some, htoks, readCommand_toks hnamed]
  have hlength : args.length = ((words text).filter isMark).length := by
    rw [hwords, filter_fill (fun n => (hph n).1) hslots, hargs]
    simp
  rw [run, hread]
  exact if_pos hlength

/-- Where nothing refers to the table, the rows of the others stay. -/
theorem store_other {db db' : Tables V} {name : GoString}
    {r : Answer V × Option (List (Row V))} {answer : Answer V}
    (hstore : store aftermath fold t db name r = .ok (answer, db'))
    (hunreferenced : Unreferenced aftermath (fold name)) {other : GoString}
    (hother : other ≠ fold name) :
    (db' other).map Relation.rows = (db other).map Relation.rows := by
  obtain ⟨a, rows⟩ := r
  cases rows with
  | none =>
    obtain ⟨-, rfl⟩ := Prod.mk.inj (Except.ok.inj hstore)
    rfl
  | some rows =>
    rw [store] at hstore
    split_ifs at hstore with hadmits
    obtain ⟨after, hafter, hrows⟩ := hunreferenced db
      (Function.update db (fold name) (some { t with rows := rows }))
    rw [hafter] at hstore
    obtain ⟨-, rfl⟩ := Prod.mk.inj (Except.ok.inj hstore)
    rw [hrows, Function.update_of_ne hother]

theorem assign_of_notMem {pairs : List (GoString × Option V)} {c : GoString}
    (h : c ∉ pairs.map fun p => fold p.1) (row : Row V) : assign fold row pairs c = row c := by
  induction pairs generalizing row with
  | nil => rfl
  | cons p pairs ih =>
    rw [List.map_cons, List.mem_cons, not_or] at h
    rw [assign, List.foldl_cons, ← assign, ih h.2, Function.update_of_ne h.1]

theorem assign_of_mem {pairs : List (GoString × Option V)} {p : GoString × Option V}
    (hnodup : (pairs.map fun p => fold p.1).Nodup) (hp : p ∈ pairs) (row : Row V) :
    assign fold row pairs (fold p.1) = p.2 := by
  induction pairs generalizing row with
  | nil => cases hp
  | cons q pairs ih =>
    rw [List.map_cons, List.nodup_cons] at hnodup
    rw [assign, List.foldl_cons, ← assign]
    rcases List.mem_cons.mp hp with rfl | hp
    · rw [assign_of_notMem hnodup.1, Function.update_self]
    · exact ih hnodup.2 hp _

end Semantics

end Musgos.Foundation.SqlCommands
