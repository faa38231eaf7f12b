import Musgos.Outbound.SchemaReading

/-!
# Migrations that add and drop columns

`AddColumn` and `DropColumn` are to do nothing if there is nothing to do, so that a migration
can be run again. Postgres has a clause for that. SQLite has none, and there the code looks
through the columns of the table first. Both databases compare names without regard to case
and the code does not, so the two agree as long as a name is always spelled the same.

Of a database only the names of tables and columns are kept. The other reasons for which an
alteration may be refused are a parameter: SQLite does not drop a column that is a key, unique,
indexed or the last one, and adds none to a table with rows that is not null and has no constant
default. What is done already is not refused.
-/
namespace Musgos.Outbound

open Foundation Lingo
open SqlLexer

section Calls

def Dialect.addColumnClause : Dialect → GoString
  | .sqlite => lit "ADD COLUMN "
  | .postgres => lit "ADD COLUMN IF NOT EXISTS "

def Dialect.dropColumnClause : Dialect → GoString
  | .sqlite => lit "DROP COLUMN "
  | .postgres => lit "DROP COLUMN IF EXISTS "

def Dialect.supportsUniqueInAddColumn : Dialect → Bool
  | .sqlite => false
  | .postgres => true

def addColumnText (d : Dialect) (table : GoString) (col : Column) : GoString :=
  lit "ALTER TABLE " ++ table ++ lit " " ++ d.addColumnClause ++ col.name ++ lit " " ++
    d.columnType col.type ++
    (if col.isNotNull then lit " NOT NULL" else []) ++
    (if col.isUnique && d.supportsUniqueInAddColumn then lit " UNIQUE" else []) ++
    (if col.default ≠ .none then lit " DEFAULT " ++ d.defaultSQL col.default else [])

def dropColumnText (d : Dialect) (table column : GoString) : GoString :=
  lit "ALTER TABLE " ++ table ++ lit " " ++ d.dropColumnClause ++ column

/-- The tables of a database, each with the names of its columns as they are spelled. The name
of a table counts without regard to case. -/
abbrev Catalog := GoString → Option (List GoString)

/-- `PRAGMA table_info`; a table that does not exist has no columns. -/
def Catalog.tableInfo (cat : Catalog) (table : GoString) : List GoString :=
  (cat (upper table)).getD []

def Dialect.skipAddColumn : Dialect → Catalog → GoString → GoString → Bool
  | .sqlite, cat, table, column => (cat.tableInfo table).contains column
  | .postgres, _, _, _ => false

def Dialect.skipDropColumn : Dialect → Catalog → GoString → GoString → Bool
  | .sqlite, cat, table, column => !(cat.tableInfo table).contains column
  | .postgres, _, _, _ => false

/-- What a statement asks for; `guarded` if it may be done already. -/
inductive Alteration where
  | add (table : GoString) (guarded : Bool) (col : Column)
  | drop (table : GoString) (guarded : Bool) (column : GoString)
  deriving DecidableEq

def Dialect.readAdd (d : Dialect) (table : GoString) (toks : List Tok) : Option Alteration := do
  let toks ← expect (keywords [lit "ADD", lit "COLUMN"]) toks
  let (guarded, toks) := skip (keywords [lit "IF", lit "NOT", lit "EXISTS"]) toks
  -- only one of the dialects has the clause
  if guarded && d = .sqlite then none else (d.readColumn toks).map (.add table guarded)

def Dialect.readDrop (d : Dialect) (table : GoString) (toks : List Tok) : Option Alteration := do
  let toks ← expect (keywords [lit "DROP", lit "COLUMN"]) toks
  let (guarded, toks) := skip (keywords [lit "IF", lit "EXISTS"]) toks
  let (column, toks) ← readName isSqlName toks
  if guarded && d = .sqlite then none else finish (.drop table guarded column) toks

def Dialect.readAlteration (d : Dialect) (text : GoString) : Option Alteration := do
  let toks ← expect (keywords [lit "ALTER", lit "TABLE"]) (lex text)
  let (table, toks) ← readName isSqlName toks
  d.readAdd table toks <|> d.readDrop table toks

def hasColumn (names : List GoString) (column : GoString) : Bool :=
  names.any fun n => upper n = upper column

/-- The alterations that a database refuses, for what it holds besides names. -/
abbrev Refusals := Catalog → Alteration → Bool

/-- The database carries out an alteration; `none` is an error. -/
def Catalog.alter (refuses : Refusals) (cat : Catalog) (a : Alteration) : Option Catalog :=
  match a with
  | .add table guarded col =>
    (cat (upper table)).bind fun names =>
      if hasColumn names col.name then if guarded then some cat else none
      else if refuses cat a then none
      else some (Function.update cat (upper table) (some (names ++ [col.name])))
  | .drop table guarded column =>
    (cat (upper table)).bind fun names =>
      if hasColumn names column then
        if refuses cat a then none
        else some (Function.update cat (upper table)
          (some (names.filter fun n => upper n ≠ upper column)))
      else if guarded then some cat else none

/-- An error of the checks, or else of the database. -/
inductive ColumnError where
  | schema (err : SchemaError)
  | database

variable (refuses : Refusals)

def Catalog.exec (cat : Catalog) (d : Dialect) (text : GoString) : Except ColumnError Catalog :=
  match (d.readAlteration text).bind (cat.alter refuses) with
  | some cat' => .ok cat'
  | none => .error .database

def addColumn (d : Dialect) (cat : Catalog) (table : GoString) (col : Column) :
    Except ColumnError Catalog :=
  if !validIdentifier table then .error (.schema (.tableName table))
  else if !validIdentifier col.name then .error (.schema (.columnName col.name))
  else if d.skipAddColumn cat table col.name then .ok cat
  else cat.exec refuses d (addColumnText d table col)

def dropColumn (d : Dialect) (cat : Catalog) (table column : GoString) :
    Except ColumnError Catalog :=
  if !validIdentifier table then .error (.schema (.tableName table))
  else if !validIdentifier column then .error (.schema (.columnName column))
  else if d.skipDropColumn cat table column then .ok cat
  else cat.exec refuses d (dropColumnText d table column)

/-- A call of a migration. -/
inductive ColumnOp where
  | add (table : GoString) (col : Column)
  | drop (table column : GoString)

def ColumnOp.table : ColumnOp → GoString
  | .add table _ => table
  | .drop table _ => table

def ColumnOp.column : ColumnOp → GoString
  | .add _ col => col.name
  | .drop _ column => column

def ColumnOp.call (d : Dialect) (cat : Catalog) : ColumnOp → Except ColumnError Catalog
  | .add table col => addColumn refuses d cat table col
  | .drop table column => dropColumn refuses d cat table column

/-- A migration: its calls one after the other, up to the first error. -/
def migrate (d : Dialect) (cat : Catalog) (ops : List ColumnOp) : Except ColumnError Catalog :=
  ops.foldlM (ColumnOp.call refuses d) cat

end Calls

/-! What the statements say. -/
section Statements

variable (d : Dialect)

/-- A column as it is added. It is no key, and unique only where the dialect has that. -/
def Column.added (col : Column) : Column :=
  { col with isPK := false, isAutoIncr := false,
             isUnique := col.isUnique && d.supportsUniqueInAddColumn }

theorem addColumnText_eq (table : GoString) (col : Column) :
    addColumnText d table col = lit "ALTER TABLE " ++ table ++
      (lit " " ++ d.addColumnClause ++ columnText d false (col.added d)) := by
  simp only [addColumnText, columnText, Column.added, Column.autoPK, Bool.false_and,
    Bool.false_eq_true, if_false, List.append_assoc, List.nil_append]
  rfl

def Dialect.guards : Dialect → Bool
  | .sqlite => false
  | .postgres => true

def guardToks (ws : List GoString) : List Tok := if d.guards then keywords ws else []

theorem head_alter : Head (lit "ALTER TABLE ") (keywords [lit "ALTER", lit "TABLE"]) :=
  head_of_lex rfl rfl rfl

theorem lex_addColumnText {table : GoString} {col : Column} (htable : IsName table)
    (hcolumn : IsName col.name) (hzero : ∀ s, col.default = .literal (.text s) → 0 ∉ s) :
    lex (addColumnText d table col) = keywords [lit "ALTER", lit "TABLE"] ++ (.word table ::
      (keywords [lit "ADD", lit "COLUMN"] ++ (guardToks d [lit "IF", lit "NOT", lit "EXISTS"] ++
        columnToks d false (col.added d)))) := by
  have hclause : Lead (lit " " ++ d.addColumnClause) (keywords [lit "ADD", lit "COLUMN"] ++
      guardToks d [lit "IF", lit "NOT", lit "EXISTS"]) := by
    cases d <;> exact lead_of_lex rfl rfl rfl rfl
  have hname : validIdentifier (col.added d).name = true := hcolumn.1
  have hphrase := (head_alter.append (phrase_identifier htable.1)).append
    (hclause.append (phrase_columnText d false hname hzero))
  rw [addColumnText_eq, hphrase.lexed]
  simp

theorem lex_dropColumnText {table column : GoString} (htable : IsName table)
    (hcolumn : IsName column) :
    lex (dropColumnText d table column) = keywords [lit "ALTER", lit "TABLE"] ++ (.word table ::
      (keywords [lit "DROP", lit "COLUMN"] ++ (guardToks d [lit "IF", lit "EXISTS"] ++
        [.word column]))) := by
  have hclause : Lead (lit " " ++ d.dropColumnClause) (keywords [lit "DROP", lit "COLUMN"] ++
      guardToks d [lit "IF", lit "EXISTS"]) := by
    cases d <;> exact lead_of_lex rfl rfl rfl rfl
  have hphrase := (head_alter.append (phrase_identifier htable.1)).append
    (hclause.append (phrase_identifier hcolumn.1))
  have htext : dropColumnText d table column = lit "ALTER TABLE " ++ table ++
      (lit " " ++ d.dropColumnClause ++ column) := by
    simp [dropColumnText]
  rw [htext, hphrase.lexed]
  simp

theorem skip_guard {ws : List GoString} {toks : List Tok} (h : ¬ keywords ws <+: toks) :
    skip (keywords ws) (guardToks d ws ++ toks) = (d.guards, toks) := by
  cases d with
  | sqlite =>
    have hnone : expect (keywords ws) toks = none := if_neg h
    have hguard : guardToks .sqlite ws = [] := rfl
    rw [hguard, List.nil_append, skip, hnone]
    rfl
  | postgres => exact skip_append (keywords ws) toks

theorem guards_and_sqlite : (d.guards && decide (d = .sqlite)) = false := by
  cases d <;> rfl

theorem readAlteration_add {table : GoString} {col : Column} (htable : IsName table)
    (hcolumn : IsName col.name) (hzero : ∀ s, col.default = .literal (.text s) → 0 ∉ s) :
    d.readAlteration (addColumnText d table col) =
      some (.add table d.guards ((col.added d).written d false)) := by
  have hname : IsName (col.added d).name := hcolumn
  have hguard : ¬ keywords [lit "IF", lit "NOT", lit "EXISTS"] <+:
      columnToks d false (col.added d) := by
    have htoks : columnToks d false (col.added d) =
        .word col.name :: (columnToks d false (col.added d)).tail := rfl
    rw [htoks]
    intro h
    have hsecond := (List.cons_prefix_cons.mp (List.cons_prefix_cons.mp h).2).1
    cases d <;> cases hty : col.type <;> rw [Column.added, hty] at hsecond <;> cases hsecond
  have hadd : d.readAdd table (keywords [lit "ADD", lit "COLUMN"] ++
      (guardToks d [lit "IF", lit "NOT", lit "EXISTS"] ++ columnToks d false (col.added d))) =
        some (.add table d.guards ((col.added d).written d false)) := by
    simp only [Dialect.readAdd, expect_append, skip_guard d hguard, guards_and_sqlite,
      readColumn_columnToks d false hname, Option.bind_eq_bind, Option.bind_some,
      Bool.false_eq_true, if_false, Option.map_some]
  simp only [Dialect.readAlteration, lex_addColumnText d htable hcolumn hzero,
    expect_append, readName_of_isName htable, hadd, Option.bind_eq_bind,
    Option.bind_some]
  rfl

theorem readAlteration_drop {table column : GoString} (htable : IsName table)
    (hcolumn : IsName column) :
    d.readAlteration (dropColumnText d table column) = some (.drop table d.guards column) := by
  have hguard : ¬ keywords [lit "IF", lit "EXISTS"] <+: [.word column] := by
    intro h
    have hlength := h.length_le
    simp [keywords] at hlength
  have hadd (rest : List Tok) :
      d.readAdd table (keywords [lit "DROP", lit "COLUMN"] ++ rest) = none := by
    have htoks : keywords [lit "DROP", lit "COLUMN"] ++ rest =
        .word (lit "DROP") :: (keywords [lit "COLUMN"] ++ rest) := rfl
    rw [htoks, Dialect.readAdd, expect_keywords_of_ne (by decide)]
    rfl
  have hdrop : d.readDrop table (keywords [lit "DROP", lit "COLUMN"] ++
      (guardToks d [lit "IF", lit "EXISTS"] ++ [.word column])) =
        some (.drop table d.guards column) := by
    simp only [Dialect.readDrop, expect_append, skip_guard d hguard, guards_and_sqlite,
      readName_of_isName hcolumn, finish, Option.bind_eq_bind, Option.bind_some,
      Bool.false_eq_true, if_false, if_true]
  simp only [Dialect.readAlteration, lex_dropColumnText d htable hcolumn, expect_append,
    readName_of_isName htable, hadd, hdrop, Option.bind_eq_bind, Option.bind_some]
  rfl

end Statements

section Runs

/-- What a call is for: the column is there afterwards, or is not. -/
def ColumnOp.columns : ColumnOp → List GoString → List GoString
  | .add _ col, names => if col.name ∈ names then names else names ++ [col.name]
  | .drop _ column, names => names.filter (· ≠ column)

def ColumnOp.apply (cat : Catalog) (op : ColumnOp) : Catalog :=
  Function.update cat (upper op.table) ((cat (upper op.table)).map op.columns)

/-- What is asked of the database. -/
def ColumnOp.alteration (d : Dialect) : ColumnOp → Alteration
  | .add table col => .add table d.guards ((col.added d).written d false)
  | .drop table column => .drop table d.guards column

/-- There is something to do, and the database refuses it. -/
def ColumnOp.refused (refuses : Refusals) (d : Dialect) (cat : Catalog) (op : ColumnOp) : Bool :=
  let there := (cat.tableInfo op.table).contains op.column
  (match op with | .add _ _ => !there | .drop _ _ => there) && refuses cat (op.alteration d)

/-- The database refuses none of the calls, one after the other. -/
def Admitted (refuses : Refusals) (d : Dialect) : Catalog → List ColumnOp → Prop
  | _, [] => True
  | cat, op :: ops => op.refused refuses d cat = false ∧ Admitted refuses d (op.apply cat) ops

/-- The names are such that the checks accept them and the database takes them for names, and a
text has no zero byte. -/
structure ColumnOp.Proper (op : ColumnOp) : Prop where
  table : IsName op.table
  column : IsName op.column
  text : ∀ table col s, op = .add table col → col.default = .literal (.text s) → 0 ∉ s

/-- Every column is spelled as in `N`. -/
def Catalog.Spelled (cat : Catalog) (N : Set GoString) : Prop :=
  ∀ table names, cat table = some names → ∀ n ∈ names, n ∈ N

variable {refuses : Refusals} {d : Dialect} {cat : Catalog} {names : List GoString}
  {N : Set GoString}

theorem hasColumn_eq (hN : Set.InjOn upper N) (hnames : ∀ n ∈ names, n ∈ N) {column : GoString}
    (hcolumn : column ∈ N) : hasColumn names column = decide (column ∈ names) := by
  rw [hasColumn, Bool.eq_iff_iff, List.any_eq_true, decide_eq_true_eq]
  constructor
  · rintro ⟨n, hn, heq⟩
    rwa [← hN (hnames n hn) hcolumn (of_decide_eq_true heq)]
  · intro hmem
    exact ⟨column, hmem, decide_eq_true rfl⟩

theorem apply_eq_self {op : ColumnOp} (hcat : cat (upper op.table) = some names)
    (h : op.columns names = names) : op.apply cat = cat := by
  rw [ColumnOp.apply, hcat, Option.map_some, h, ← hcat, Function.update_eq_self]

theorem tableInfo_contains {table column : GoString} (hcat : cat (upper table) = some names) :
    (cat.tableInfo table).contains column = decide (column ∈ names) := by
  simp [Catalog.tableInfo, hcat]

theorem addColumn_eq (hN : Set.InjOn upper N) (hspelled : cat.Spelled N) {table : GoString}
    {col : Column} (hproper : (ColumnOp.add table col).Proper) (hcolumn : col.name ∈ N)
    (hcat : cat (upper table) = some names) :
    addColumn refuses d cat table col =
      if (ColumnOp.add table col).refused refuses d cat then .error .database
      else .ok ((ColumnOp.add table col).apply cat) := by
  have htable : IsName table := hproper.table
  have hname : IsName col.name := hproper.column
  have hread := readAlteration_add d htable hname fun s hs => hproper.text table col s rfl hs
  have hhas := hasColumn_eq hN (hspelled _ names hcat) hcolumn
  have hrefused : (ColumnOp.add table col).refused refuses d cat =
      (!decide (col.name ∈ names) && refuses cat ((ColumnOp.add table col).alteration d)) := by
    rw [ColumnOp.refused, ColumnOp.table, ColumnOp.column, tableInfo_contains hcat]
  have hskip : d.skipAddColumn cat table col.name = (!d.guards && decide (col.name ∈ names)) := by
    cases d with
    | sqlite => simp [Dialect.skipAddColumn, Catalog.tableInfo, hcat, Dialect.guards]
    | postgres => rfl
  by_cases hmem : col.name ∈ names
  · have hself : (ColumnOp.add table col).apply cat = cat := apply_eq_self hcat (if_pos hmem)
    have halter : d.guards = true → cat.exec refuses d (addColumnText d table col) = .ok cat := by
      intro hguards
      simp [Catalog.exec, hread, Catalog.alter, Column.written, Column.added, hcat, hhas, hmem,
        hguards]
    rw [hrefused, decide_eq_true hmem, hself, addColumn, hskip]
    cases hguards : d.guards with
    | false => simp [htable.1, hname.1, hmem]
    | true => simp [htable.1, hname.1, halter hguards]
  · have halter : cat.exec refuses d (addColumnText d table col) =
        if refuses cat ((ColumnOp.add table col).alteration d) then .error .database
        else .ok ((ColumnOp.add table col).apply cat) := by
      have hname' : ((col.added d).written d false).name = col.name := rfl
      simp only [Catalog.exec, hread, Option.bind_some, Catalog.alter, hname', hcat, hhas, hmem,
        decide_false, Bool.false_eq_true, if_false, ColumnOp.alteration]
      by_cases hr : refuses cat (.add table d.guards ((col.added d).written d false)) = true
      · simp [hr]
      · simp [hr, ColumnOp.apply, ColumnOp.table, ColumnOp.columns, hcat, hmem]
    rw [hrefused, decide_eq_false hmem]
    simp [addColumn, htable.1, hname.1, hskip, hmem, halter]

theorem dropColumn_eq (hN : Set.InjOn upper N) (hspelled : cat.Spelled N) {table column : GoString}
    (hproper : (ColumnOp.drop table column).Proper) (hcolumn : column ∈ N)
    (hcat : cat (upper table) = some names) :
    dropColumn refuses d cat table column =
      if (ColumnOp.drop table column).refused refuses d cat then .error .database
      else .ok ((ColumnOp.drop table column).apply cat) := by
  have htable : IsName table := hproper.table
  have hname : IsName column := hproper.column
  have hread := readAlteration_drop d htable hname
  have hnames := hspelled _ names hcat
  have hhas := hasColumn_eq hN hnames hcolumn
  have hrefused : (ColumnOp.drop table column).refused refuses d cat =
      (decide (column ∈ names) && refuses cat ((ColumnOp.drop table column).alteration d)) := by
    rw [ColumnOp.refused, ColumnOp.table, ColumnOp.column, tableInfo_contains hcat]
  have hskip : d.skipDropColumn cat table column = (!d.guards && !decide (column ∈ names)) := by
    cases d with
    | sqlite => simp [Dialect.skipDropColumn, Catalog.tableInfo, hcat, Dialect.guards]
    | postgres => rfl
  by_cases hmem : column ∈ names
  · have hfilter : (names.filter fun n => upper n ≠ upper column) =
        names.filter (· ≠ column) := by
      refine List.filter_congr fun n hn => ?_
      rw [decide_eq_decide, not_iff_not]
      exact ⟨fun h => hN (hnames n hn) hcolumn h, fun h => h ▸ rfl⟩
    have halter : cat.exec refuses d (dropColumnText d table column) =
        if refuses cat ((ColumnOp.drop table column).alteration d) then .error .database
        else .ok ((ColumnOp.drop table column).apply cat) := by
      simp only [Catalog.exec, hread, Option.bind_some, Catalog.alter, hcat, hhas, hmem,
        decide_true, if_true, hfilter, ColumnOp.alteration]
      by_cases hr : refuses cat (.drop table d.guards column) = true
      · simp [hr]
      · simp [hr, ColumnOp.apply, ColumnOp.table, ColumnOp.columns, hcat]
    rw [hrefused, decide_eq_true hmem]
    simp [dropColumn, htable.1, hname.1, hskip, hmem, halter]
  · have hself : (ColumnOp.drop table column).apply cat = cat := by
      refine apply_eq_self hcat (List.filter_eq_self.mpr fun n hn => ?_)
      exact decide_eq_true fun h => hmem (h ▸ hn)
    have halter : d.guards = true →
        cat.exec refuses d (dropColumnText d table column) = .ok cat := by
      intro hguards
      simp [Catalog.exec, hread, Catalog.alter, hcat, hhas, hmem, hguards]
    rw [hrefused, decide_eq_false hmem, hself, dropColumn, hskip]
    cases hguards : d.guards with
    | false => simp [htable.1, hname.1, hmem]
    | true => simp [htable.1, hname.1, halter hguards]

/-- A call fails just if there is something to do and the database refuses it. -/
theorem call_eq (hN : Set.InjOn upper N) (hspelled : cat.Spelled N) {op : ColumnOp}
    (hproper : op.Proper) (hcolumn : op.column ∈ N) (htable : (cat (upper op.table)).isSome) :
    op.call refuses d cat =
      if op.refused refuses d cat then .error .database else .ok (op.apply cat) := by
  obtain ⟨names, hcat⟩ := Option.isSome_iff_exists.mp htable
  cases op with
  | add table col => exact addColumn_eq hN hspelled hproper hcolumn hcat
  | drop table column => exact dropColumn_eq hN hspelled hproper hcolumn hcat

theorem isSome_apply (op : ColumnOp) (table : GoString) :
    (op.apply cat table).isSome = (cat table).isSome := by
  rw [ColumnOp.apply]
  by_cases h : table = upper op.table
  · rw [h, Function.update_self, Option.isSome_map]
  · rw [Function.update_of_ne h]

theorem spelled_apply (hspelled : cat.Spelled N) {op : ColumnOp} (hcolumn : op.column ∈ N) :
    (op.apply cat).Spelled N := by
  intro table names hnames n hn
  rw [ColumnOp.apply] at hnames
  by_cases h : table = upper op.table
  · rw [h, Function.update_self, Option.map_eq_some_iff] at hnames
    obtain ⟨old, hold, rfl⟩ := hnames
    cases op with
    | add t col =>
      rw [ColumnOp.columns] at hn
      split_ifs at hn with hmem
      · exact hspelled _ old hold n hn
      · rcases List.mem_append.mp hn with hn | hn
        · exact hspelled _ old hold n hn
        · rw [List.mem_singleton.mp hn]
          exact hcolumn
    | drop t column => exact hspelled _ old hold n (List.mem_of_mem_filter hn)
  · rw [Function.update_of_ne h] at hnames
    exact hspelled table names hnames n hn

/-- On both dialects a migration of which nothing is refused does what its calls are for, and any
other fails. -/
theorem migrate_eq (hN : Set.InjOn upper N) (hspelled : cat.Spelled N) {ops : List ColumnOp}
    (hops : ∀ op ∈ ops, op.Proper ∧ op.column ∈ N ∧ (cat (upper op.table)).isSome) :
    (Admitted refuses d cat ops →
      migrate refuses d cat ops = .ok (ops.foldl ColumnOp.apply cat)) ∧
    (¬ Admitted refuses d cat ops → migrate refuses d cat ops = .error .database) := by
  induction ops generalizing cat with
  | nil => exact ⟨fun _ => rfl, fun h => absurd trivial h⟩
  | cons op ops ih =>
    obtain ⟨⟨hproper, hcolumn, htable⟩, hrest⟩ := List.forall_mem_cons.mp hops
    have hlater : ∀ o ∈ ops, o.Proper ∧ o.column ∈ N ∧
        (op.apply cat (upper o.table)).isSome := by
      intro o ho
      rw [isSome_apply]
      exact hrest o ho
    obtain ⟨hruns, hfails⟩ := ih (spelled_apply hspelled hcolumn) hlater
    rw [migrate, List.foldlM_cons, call_eq hN hspelled hproper hcolumn htable, Admitted]
    cases op.refused refuses d cat with
    | true => exact ⟨fun h => Bool.noConfusion h.1, fun _ => rfl⟩
    | false => exact ⟨fun h => hruns h.2, fun h => hfails fun hlater => h ⟨rfl, hlater⟩⟩

end Runs

section Again

def Catalog.Has (cat : Catalog) (table column : GoString) : Prop :=
  ∃ names, cat (upper table) = some names ∧ column ∈ names

/-- What a call says about a column, if it is about that one. -/
def ColumnOp.verdict (table column : GoString) (op : ColumnOp) : Option Bool :=
  if upper op.table = upper table ∧ op.column = column then
    some (match op with | .add _ _ => true | .drop _ _ => false)
  else none

variable {cat : Catalog} {table column : GoString}

theorem mem_columns (op : ColumnOp) (names : List GoString) :
    column ∈ op.columns names ↔ (op.verdict op.table column).elim (column ∈ names) (· = true) := by
  cases op with
  | add t col =>
    by_cases h : col.name = column
    · by_cases hmem : col.name ∈ names <;>
        simp_all [ColumnOp.columns, ColumnOp.verdict, ColumnOp.column]
    · by_cases hmem : col.name ∈ names <;>
        simp [ColumnOp.columns, ColumnOp.verdict, ColumnOp.column, h, Ne.symm h, hmem]
  | drop t c =>
    by_cases h : c = column
    · simp [ColumnOp.columns, ColumnOp.verdict, ColumnOp.column, h]
    · simp [ColumnOp.columns, ColumnOp.verdict, ColumnOp.column, h, Ne.symm h]

theorem has_apply {op : ColumnOp} (htable : (cat (upper op.table)).isSome) :
    (op.apply cat).Has table column ↔
      (op.verdict table column).elim (cat.Has table column) (· = true) := by
  obtain ⟨names, hcat⟩ := Option.isSome_iff_exists.mp htable
  by_cases h : upper op.table = upper table
  · have hnames : op.apply cat (upper table) = some (op.columns names) := by
      rw [ColumnOp.apply, h, Function.update_self, ← h, hcat, Option.map_some]
    have hverdict : op.verdict table column = op.verdict op.table column := by
      simp [ColumnOp.verdict, h]
    have hhas : cat.Has table column ↔ column ∈ names := by
      simp [Catalog.Has, ← h, hcat]
    rw [hverdict, hhas, ← mem_columns, Catalog.Has, hnames]
    simp
  · have hother : op.apply cat (upper table) = cat (upper table) := by
      rw [ColumnOp.apply, Function.update_of_ne (Ne.symm h)]
    have hverdict : op.verdict table column = none := if_neg fun hboth => h hboth.1
    rw [hverdict, Option.elim_none, Catalog.Has, hother]
    rfl

theorem isSome_foldl_apply (ops : List ColumnOp) (cat : Catalog) (table : GoString) :
    (ops.foldl ColumnOp.apply cat table).isSome = (cat table).isSome := by
  induction ops generalizing cat with
  | nil => rfl
  | cons op ops ih => rw [List.foldl_cons, ih, isSome_apply]

theorem spelled_foldl_apply {N : Set GoString} {ops : List ColumnOp} (hspelled : cat.Spelled N)
    (hops : ∀ op ∈ ops, op.column ∈ N) : (ops.foldl ColumnOp.apply cat).Spelled N := by
  induction ops generalizing cat with
  | nil => exact hspelled
  | cons op ops ih =>
    obtain ⟨hop, hrest⟩ := List.forall_mem_cons.mp hops
    exact ih (spelled_apply hspelled hop) hrest

/-- The last call about a column decides, and without one the column stays as it was. -/
theorem has_foldl_apply {ops : List ColumnOp} (hops : ∀ op ∈ ops, (cat (upper op.table)).isSome) :
    (ops.foldl ColumnOp.apply cat).Has table column ↔
      (ops.reverse.findSome? (ColumnOp.verdict table column)).elim (cat.Has table column)
        (· = true) := by
  induction ops using List.reverseRecOn with
  | nil => rfl
  | append_singleton ops op ih =>
    obtain ⟨hearlier, hop⟩ := List.forall_mem_append.mp hops
    have htable : (ops.foldl ColumnOp.apply cat (upper op.table)).isSome := by
      rw [isSome_foldl_apply]
      exact hop op (List.mem_singleton_self op)
    rw [List.foldl_append, List.foldl_cons, List.foldl_nil, has_apply htable, ih hearlier,
      List.reverse_append, List.reverse_singleton, List.singleton_append, List.findSome?_cons]
    cases op.verdict table column with
    | none => rfl
    | some b => rfl

/-- A migration that adds and drops columns can be run again. Unless the database refuses one of
the alterations, on which the migration fails, both dialects end with the same catalog, also the
second time, and then no column is there that was not, or the other way round. What the database
refuses may have changed in between. -/
theorem migrate_again (cat : Catalog) (ops : List ColumnOp) (N : Set GoString)
    (hN : Set.InjOn upper N) (hspelled : cat.Spelled N)
    (hops : ∀ op ∈ ops, op.Proper ∧ op.column ∈ N ∧ (cat (upper op.table)).isSome) :
    ∃ once again,
      (∀ refuses d, (Admitted refuses d cat ops → migrate refuses d cat ops = .ok once) ∧
        (¬ Admitted refuses d cat ops → migrate refuses d cat ops = .error .database)) ∧
      (∀ refuses d, (Admitted refuses d once ops → migrate refuses d once ops = .ok again) ∧
        (¬ Admitted refuses d once ops → migrate refuses d once ops = .error .database)) ∧
      ∀ table column, again.Has table column ↔ once.Has table column := by
  have hcolumns : ∀ op ∈ ops, op.column ∈ N := fun op hop => (hops op hop).2.1
  have htables : ∀ op ∈ ops, (cat (upper op.table)).isSome := fun op hop => (hops op hop).2.2
  have hstill : ∀ op ∈ ops, (ops.foldl ColumnOp.apply cat (upper op.table)).isSome := by
    intro op hop
    rw [isSome_foldl_apply]
    exact htables op hop
  refine ⟨ops.foldl ColumnOp.apply cat, ops.foldl ColumnOp.apply (ops.foldl ColumnOp.apply cat),
    fun refuses d => migrate_eq hN hspelled hops, fun refuses d => ?_, fun table column => ?_⟩
  · refine migrate_eq hN (spelled_foldl_apply hspelled hcolumns) fun op hop => ?_
    exact ⟨(hops op hop).1, hcolumns op hop, hstill op hop⟩
  · rw [has_foldl_apply hstill, has_foldl_apply htables]
    cases ops.reverse.findSome? (ColumnOp.verdict table column) with
    | none => rfl
    | some b => rfl

def usersCatalog : Catalog := fun table =>
  if table = lit "USERS" then some [lit "id", lit "name"] else none

/-- The name is replaced by a score. -/
def nameToScore : List ColumnOp :=
  [.drop (lit "users") (lit "name"),
    .add (lit "users") { name := lit "score", type := .integer }]

/-- No column with a name of two letters is dropped. -/
def keepsKey : Refusals
  | _, .drop _ _ column => column.length = 2
  | _, .add _ _ _ => false

theorem migrate_again_users :
    ∃ once again,
      (∀ d, migrate keepsKey d usersCatalog nameToScore = .ok once) ∧
      (∀ d, migrate keepsKey d once nameToScore = .ok again) ∧
      ∀ table column, again.Has table column ↔ once.Has table column := by
  have hkey : ∀ d cat, Admitted keepsKey d cat nameToScore := by
    intro d cat
    exact ⟨Bool.and_false _, Bool.and_false _, trivial⟩
  have hmigrate := migrate_again usersCatalog nameToScore {lit "id", lit "name", lit "score"}
    ?_ ?_ ?_
  · obtain ⟨once, again, honce, hagain, hsame⟩ := hmigrate
    exact ⟨once, again, fun d => (honce keepsKey d).1 (hkey d _),
      fun d => (hagain keepsKey d).1 (hkey d _), hsame⟩
  · rintro a (rfl | rfl | rfl) b (rfl | rfl | rfl) h
    all_goals first
      | rfl
      | exact absurd h (by decide)
  · intro table names hnames n hn
    unfold usersCatalog at hnames
    split_ifs at hnames
    obtain rfl := Option.some.inj hnames
    simp only [List.mem_cons, List.not_mem_nil, or_false] at hn
    rcases hn with rfl | rfl
    · exact .inl rfl
    · exact .inr (.inl rfl)
  · intro op hop
    simp only [nameToScore, List.mem_cons, List.not_mem_nil, or_false] at hop
    rcases hop with rfl | rfl
    · exact ⟨⟨⟨rfl, rfl⟩, ⟨rfl, rfl⟩, fun _ _ _ h => by cases h⟩, .inr (.inl rfl), rfl⟩
    · refine ⟨⟨⟨rfl, rfl⟩, ⟨rfl, rfl⟩, fun _ _ _ h hs => ?_⟩, .inr (.inr rfl), rfl⟩
      cases h
      cases hs

/-- With another spelling SQLite has nothing to drop, and Postgres drops the column. -/
example :
    (dropColumn keepsKey .sqlite usersCatalog (lit "users") (lit "NAME")).toOption.bind
      (· (lit "USERS")) = some [lit "id", lit "name"] ∧
    (dropColumn keepsKey .postgres usersCatalog (lit "users") (lit "NAME")).toOption.bind
      (· (lit "USERS")) = some [lit "id"] := by
  decide

end Again

end Musgos.Outbound
