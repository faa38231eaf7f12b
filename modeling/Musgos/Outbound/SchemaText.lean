import Musgos.Foundation.SqlLexer
import Musgos.Outbound.CacheAgreement
import Musgos.Outbound.QueryBuilder

/-!
# The text of a table

`CreateTable` checks every name of a definition and then writes it out as a statement, piece by
piece and with the types, keys and defaults of the dialect. Whether the statement says what the
definition says is decided by whoever reads it: the reader below takes the text apart with no
knowledge of how it was written. It finds the columns and the constraints of the definition, up
to what the dialect cannot tell apart. Names that are reserved words pass all checks and are
not read back, so they are excluded.
-/
namespace Musgos.Outbound

open Foundation Lingo
open SqlLexer

section Definition

/-- The type of a column. -/
inductive ColumnType where
  | integer
  | text
  | datetime
  | jsonb
  /-- A number that is none of the constants. -/
  | other (n : ℤ)
  deriving DecidableEq

/-- A literal default that is a string or an integer. The values of other types, which are written
as `%v` prints them, are not modelled. -/
inductive DefaultVal where
  | text (s : GoString)
  | int (n : Int64)
  deriving DecidableEq

/-- `DefType`, with the value that belongs to a literal. -/
inductive ColumnDefault where
  | none
  | now
  | literal (v : DefaultVal)
  deriving DecidableEq

/-- A column with its constraints. -/
structure Column where
  name : GoString
  type : ColumnType
  isNotNull : Bool := false
  isUnique : Bool := false
  isPK : Bool := false
  isAutoIncr : Bool := false
  default : ColumnDefault := .none
  deriving DecidableEq

/-- A reference to a column of another table. -/
structure ForeignKey where
  column : GoString
  refTable : GoString
  refCol : GoString
  onDelete : GoString
  deriving DecidableEq

/-- A column whose values lie between two bounds. -/
structure RangeCheck where
  column : GoString
  min : Int64
  max : Int64
  deriving DecidableEq

/-- A column whose values are among given ones. -/
structure InCheck where
  column : GoString
  values : List GoString
  deriving DecidableEq

/-- A table as a migration describes it. -/
structure Table where
  name : GoString
  columns : List Column
  primaryKeys : List GoString := []
  foreignKeys : List ForeignKey := []
  requireOneOf : List GoString := []
  rangeChecks : List RangeCheck := []
  inChecks : List InCheck := []

/-- `PrimaryKey`: an integer that counts up. -/
def Column.primaryKey (name : GoString) : Column :=
  { name := name, type := .integer, isPK := true, isAutoIncr := true, isNotNull := true }

/-- `UUID` -/
def Column.uuid (name : GoString) : Column :=
  { name := name, type := .text, isNotNull := true, isUnique := true }

end Definition

section Checks

/-- What `Validate` finds wrong with a table. -/
inductive SchemaError where
  | tableName (name : GoString)
  | columnName (name : GoString)
  | foreignKeyName (id : GoString)
  | onDelete (action : GoString)
  | primaryKeyColumn (name : GoString)
  | requireOneOfColumn (name : GoString)
  | rangeCheckColumn (name : GoString)
  | rangeCheckBounds (rc : RangeCheck)
  | inCheckColumn (name : GoString)
  | inCheckEmpty (column : GoString)
  | inCheckValue (value column : GoString)
  deriving DecidableEq

def identifierRule : GoString := lit ": identifier must match [a-zA-Z_][a-zA-Z0-9_]*"

/-- The text of an error; `quoted` is the verb `%q`. -/
def SchemaError.text (quoted : GoString → GoString) : SchemaError → GoString
  | .tableName name => lit "invalid table name " ++ quoted name ++ identifierRule
  | .columnName name => lit "invalid column name " ++ quoted name ++ identifierRule
  | .foreignKeyName id => lit "invalid identifier " ++ quoted id ++ lit " in foreign key" ++
      identifierRule
  | .onDelete action => lit "invalid ON DELETE action " ++ quoted action
  | .primaryKeyColumn name => lit "invalid primary key column " ++ quoted name ++ identifierRule
  | .requireOneOfColumn name => lit "invalid column " ++ quoted name ++ lit " in require_one_of" ++
      identifierRule
  | .rangeCheckColumn name => lit "invalid column " ++ quoted name ++ lit " in range_check" ++
      identifierRule
  | .rangeCheckBounds rc => lit "range_check on " ++ quoted rc.column ++ lit " has min " ++
      intText rc.min.toInt ++ lit " above max " ++ intText rc.max.toInt
  | .inCheckColumn name => lit "invalid column " ++ quoted name ++ lit " in in_check" ++
      identifierRule
  | .inCheckEmpty column => lit "in_check on " ++ quoted column ++ lit " has no values"
  | .inCheckValue value column => lit "invalid value " ++ quoted value ++ lit " in in_check on " ++
      quoted column ++ identifierRule

def validOnDelete : List GoString :=
  [[], lit "CASCADE", lit "SET NULL", lit "SET DEFAULT", lit "RESTRICT", lit "NO ACTION"]

def requireThat (c : Bool) (err : SchemaError) : Except SchemaError Unit :=
  if c then .ok () else .error err

/-- The checks of `CreateTable`, in their order. -/
def checkTable (t : Table) : Except SchemaError Unit := do
  requireThat (validIdentifier t.name) (.tableName t.name)
  t.columns.forM fun col => requireThat (validIdentifier col.name) (.columnName col.name)
  t.foreignKeys.forM fun fk => do
    [fk.column, fk.refTable, fk.refCol].forM fun id =>
      requireThat (validIdentifier id) (.foreignKeyName id)
    requireThat (validOnDelete.contains fk.onDelete) (.onDelete fk.onDelete)
  t.primaryKeys.forM fun pk => requireThat (validIdentifier pk) (.primaryKeyColumn pk)
  t.requireOneOf.forM fun col => requireThat (validIdentifier col) (.requireOneOfColumn col)
  t.rangeChecks.forM fun rc => do
    requireThat (validIdentifier rc.column) (.rangeCheckColumn rc.column)
    requireThat (rc.min ≤ rc.max) (.rangeCheckBounds rc)
  t.inChecks.forM fun ic => do
    requireThat (validIdentifier ic.column) (.inCheckColumn ic.column)
    requireThat (ic.values ≠ []) (.inCheckEmpty ic.column)
    ic.values.forM fun v => requireThat (validIdentifier v) (.inCheckValue v ic.column)

end Checks

section Text

def Dialect.columnType : Dialect → ColumnType → GoString
  | .sqlite, .integer => lit "INTEGER"
  | .sqlite, .text => lit "TEXT"
  | .sqlite, .datetime => lit "DATETIME"
  | .sqlite, .jsonb => lit "TEXT"
  | .sqlite, .other _ => lit "TEXT"
  | .postgres, .integer => lit "BIGINT"
  | .postgres, .text => lit "TEXT"
  | .postgres, .datetime => lit "TIMESTAMPTZ"
  | .postgres, .jsonb => lit "JSONB"
  | .postgres, .other _ => lit "TEXT"

def Dialect.autoIncrPKSQL : Dialect → GoString
  | .sqlite => lit "INTEGER PRIMARY KEY AUTOINCREMENT"
  | .postgres => lit "BIGSERIAL PRIMARY KEY"

def Dialect.defaultNowExpr : Dialect → GoString
  | .sqlite => lit "(datetime('now'))"
  | .postgres => lit "now()"

/-- `strings.ReplaceAll(v, "'", "''")`, in quotes. -/
def sqlLiteral (v : GoString) : GoString := lit "'" ++ doubled v ++ lit "'"

def Dialect.defaultSQL (d : Dialect) : ColumnDefault → GoString
  | .now => d.defaultNowExpr
  | .literal (.text s) => sqlLiteral s
  | .literal (.int n) => intText n.toInt
  | .none => []

def Column.autoPK (composite : Bool) (col : Column) : Bool :=
  col.isPK && col.isAutoIncr && !composite

def columnText (d : Dialect) (composite : Bool) (col : Column) : GoString :=
  col.name ++
  (if col.autoPK composite then lit " " ++ d.autoIncrPKSQL
   else lit " " ++ d.columnType col.type ++
    (if col.isPK && !composite then lit " PRIMARY KEY" else []) ++
    (if col.isNotNull then lit " NOT NULL" else [])) ++
  (if col.isUnique then lit " UNIQUE" else []) ++
  (if col.default ≠ .none then lit " DEFAULT " ++ d.defaultSQL col.default else [])

/-- What a table has after its columns. -/
inductive Constraint where
  | primaryKey (columns : List GoString)
  | foreignKey (fk : ForeignKey)
  | requireOneOf (columns : List GoString)
  | range (rc : RangeCheck)
  | oneOf (ic : InCheck)
  deriving DecidableEq

def Constraint.text : Constraint → GoString
  | .primaryKey columns => lit "PRIMARY KEY (" ++ (lit ", ").intercalate columns ++ lit ")"
  | .foreignKey fk => lit "FOREIGN KEY (" ++ fk.column ++ (lit ") REFERENCES " ++ fk.refTable) ++
      (lit "(" ++ fk.refCol) ++ lit ")" ++
      (if fk.onDelete ≠ [] then lit " ON DELETE " ++ fk.onDelete else [])
  | .requireOneOf columns =>
      lit "CHECK (" ++ (lit " OR ").intercalate (columns.map (· ++ lit " IS NOT NULL")) ++ lit ")"
  | .range rc => lit "CHECK (" ++ rc.column ++ (lit " BETWEEN " ++ intText rc.min.toInt) ++
      (lit " AND " ++ intText rc.max.toInt) ++ lit ")"
  | .oneOf ic => lit "CHECK (" ++ ic.column ++
      (lit " IN ('" ++ (lit "', '").intercalate ic.values ++ lit "'))")

def Table.composite (t : Table) : Bool := t.primaryKeys ≠ []

/-- The constraints in the order in which they are written. -/
def Table.constraints (t : Table) : List Constraint :=
  (if t.composite then [.primaryKey t.primaryKeys] else []) ++ t.foreignKeys.map .foreignKey ++
    (if t.requireOneOf ≠ [] then [.requireOneOf t.requireOneOf] else []) ++
    t.rangeChecks.map .range ++ t.inChecks.map .oneOf

/-- `CreateTable`: the statement that it executes. -/
def createTable (d : Dialect) (t : Table) : Except SchemaError GoString := do
  checkTable t
  return lit "CREATE TABLE IF NOT EXISTS " ++ t.name ++
    (lit " (\n" ++ (lit ",\n").intercalate (t.columns.map fun col =>
      lit "\t" ++ columnText d t.composite col)) ++
    (t.constraints.flatMap fun c => lit ",\n\t" ++ c.text) ++ lit "\n)"

end Text

section Reader

def upper (w : GoString) : GoString := w.map fun x => if 97 ≤ x ∧ x ≤ 122 then x - 32 else x

/-- The words of these statements that cannot be names in one of the dialects. -/
def reservedWords : List GoString :=
  [lit "AND", lit "AUTOINCREMENT", lit "BETWEEN", lit "CHECK", lit "CONSTRAINT", lit "CREATE",
    lit "DEFAULT", lit "EXISTS", lit "FOREIGN", lit "IN", lit "IS", lit "NOT", lit "NULL",
    lit "ON", lit "OR", lit "PRIMARY", lit "REFERENCES", lit "TABLE", lit "UNIQUE"]

def isReserved (w : GoString) : Bool := reservedWords.contains (upper w)

/-- A column or a constraint. -/
inductive TableItem where
  | column (col : Column)
  | constraint (c : Constraint)
  deriving DecidableEq

/-- What the database takes for a name. -/
def isSqlName (w : GoString) : Bool := validIdentifier w && !isReserved w

def readLiteral : List Tok → Option (GoString × List Tok)
  | .literal t :: toks => some (t, toks)
  | _ => none

def readInt : List Tok → Option (Int64 × List Tok)
  | .word w :: toks => (parseInt w).map fun n => (Int64.ofInt n, toks)
  | _ => none

/-- The type that a word stands for, and whether the column counts up. -/
def Dialect.typeNamed : Dialect → GoString → Option (ColumnType × Bool)
  | .sqlite, w =>
    if w = lit "INTEGER" then some (.integer, false)
    else if w = lit "TEXT" then some (.text, false)
    else if w = lit "DATETIME" then some (.datetime, false)
    else none
  | .postgres, w =>
    if w = lit "BIGINT" then some (.integer, false)
    else if w = lit "BIGSERIAL" then some (.integer, true)
    else if w = lit "TEXT" then some (.text, false)
    else if w = lit "TIMESTAMPTZ" then some (.datetime, false)
    else if w = lit "JSONB" then some (.jsonb, false)
    else none

def Dialect.readType (d : Dialect) : List Tok → Option ((ColumnType × Bool) × List Tok)
  | .word w :: toks => (d.typeNamed w).map (·, toks)
  | _ => none

def readValue : List Tok → Option DefaultVal
  | [.literal s] => some (.text s)
  | [.word w] => (parseInt w).map fun n => .int (Int64.ofInt n)
  | _ => none

/-- The call that a default makes. -/
def Dialect.nowToks : Dialect → List Tok
  | .sqlite => .opening :: .word (lit "datetime") :: listToks [[.literal (lit "now")]] ++ [.closing]
  | .postgres => [.word (lit "now"), .opening, .closing]

def Dialect.readDefault (d : Dialect) (toks : List Tok) : Option ColumnDefault :=
  if toks = [] then some .none
  else do
    let toks ← expect (keywords [lit "DEFAULT"]) toks
    if toks = d.nowToks then return .now
    (readValue toks).map .literal

/-- The clauses of a column after its type. -/
def Dialect.readClauses (d : Dialect) (name : GoString) (type : ColumnType × Bool)
    (toks : List Tok) : Option Column :=
  let (isPK, toks) := skip (keywords [lit "PRIMARY", lit "KEY"]) toks
  let (counts, toks) := skip (keywords [lit "AUTOINCREMENT"]) toks
  let (isNotNull, toks) := skip (keywords [lit "NOT", lit "NULL"]) toks
  let (isUnique, toks) := skip (keywords [lit "UNIQUE"]) toks
  (d.readDefault toks).map fun default =>
    { name := name, type := type.1, isNotNull := isNotNull, isUnique := isUnique, isPK := isPK
      isAutoIncr := type.2 || counts, default := default }

def Dialect.readColumn (d : Dialect) (toks : List Tok) : Option Column := do
  let (name, toks) ← readName isSqlName toks
  let (type, toks) ← d.readType toks
  d.readClauses name type toks

def readPrimaryKey (toks : List Tok) : Option Constraint := do
  let toks ← expect (keywords [lit "PRIMARY", lit "KEY"]) toks
  let (columns, toks) ← readList (readName isSqlName) toks
  finish (.primaryKey columns) toks

/-- The action after `ON DELETE`, of one word or two. -/
def readOnDelete (toks : List Tok) : Option GoString :=
  if toks = [] then some []
  else do
    let toks ← expect (keywords [lit "ON", lit "DELETE"]) toks
    validOnDelete.find? fun action => action ≠ [] ∧ lex action = toks

def readForeignKey (toks : List Tok) : Option Constraint := do
  let toks ← expect (keywords [lit "FOREIGN", lit "KEY"]) toks
  let toks ← expect [.opening] toks
  let (column, toks) ← readName isSqlName toks
  let toks ← expect (.closing :: keywords [lit "REFERENCES"]) toks
  let (refTable, toks) ← readName isSqlName toks
  let toks ← expect [.opening] toks
  let (refCol, toks) ← readName isSqlName toks
  let toks ← expect [.closing] toks
  let onDelete ← readOnDelete toks
  return .foreignKey ⟨column, refTable, refCol, onDelete⟩

def readRange (toks : List Tok) : Option (Constraint × List Tok) := do
  let (column, toks) ← readName isSqlName toks
  let toks ← expect (keywords [lit "BETWEEN"]) toks
  let (min, toks) ← readInt toks
  let toks ← expect (keywords [lit "AND"]) toks
  let (max, toks) ← readInt toks
  return (.range ⟨column, min, max⟩, toks)

def readOneOf (toks : List Tok) : Option (Constraint × List Tok) := do
  let (column, toks) ← readName isSqlName toks
  let toks ← expect (keywords [lit "IN"]) toks
  let (values, toks) ← readList readLiteral toks
  return (.oneOf ⟨column, values⟩, toks)

def readNotNull (toks : List Tok) : Option (GoString × List Tok) := do
  let (column, toks) ← readName isSqlName toks
  let toks ← expect (keywords [lit "IS", lit "NOT", lit "NULL"]) toks
  return (column, toks)

/-- Columns of which one is not null. -/
def readRequireOneOf (toks : List Tok) : Option (Constraint × List Tok) := do
  let (columns, toks) ← readSeparated readNotNull (.word (lit "OR")) (toks.length + 1) toks
  return (.requireOneOf columns, toks)

def readCheck (toks : List Tok) : Option Constraint := do
  let toks ← expect (keywords [lit "CHECK"]) toks
  let toks ← expect [.opening] toks
  let (c, toks) ← readRange toks <|> readOneOf toks <|> readRequireOneOf toks
  let toks ← expect [.closing] toks
  finish c toks

def Dialect.readItem (d : Dialect) (toks : List Tok) : Option TableItem :=
  (readPrimaryKey toks).map .constraint <|> (readForeignKey toks).map .constraint <|>
    (readCheck toks).map .constraint <|> (d.readColumn toks).map .column

/-- The name of the table and its items. -/
def Dialect.readTable (d : Dialect) (text : GoString) : Option (GoString × List TableItem) := do
  let toks ← expect (keywords [lit "CREATE", lit "TABLE", lit "IF", lit "NOT", lit "EXISTS"])
    (lex text)
  let (name, toks) ← readName isSqlName toks
  let toks ← expect [.opening] toks
  let (parts, toks) ← items toks
  let items ← parts.mapM d.readItem
  finish (name, items) toks

end Reader

section Meaning

/-- The type that the dialect has for it. -/
def Dialect.kept : Dialect → ColumnType → ColumnType
  | .sqlite, .jsonb => .text
  | _, .other _ => .text
  | _, type => type

/-- A column as the statement has it. One that counts up is an integer and a key, so that it is
not said to be not null; in a table with a composite key no column is a key of its own. -/
def Column.written (d : Dialect) (composite : Bool) (col : Column) : Column :=
  { col with
    type := if col.autoPK composite then .integer else d.kept col.type
    isNotNull := col.isNotNull && !col.autoPK composite
    isPK := col.isPK && !composite
    isAutoIncr := col.autoPK composite }

/-- The items of a definition. -/
def Table.items (d : Dialect) (t : Table) : List TableItem :=
  t.columns.map (fun col => .column (col.written d t.composite)) ++ t.constraints.map .constraint

/-- The names that a definition writes into the statement. -/
def Table.names (t : Table) : List GoString :=
  t.name :: t.columns.map Column.name ++
    t.foreignKeys.flatMap (fun fk => [fk.column, fk.refTable, fk.refCol]) ++ t.primaryKeys ++
    t.requireOneOf ++ t.rangeChecks.map RangeCheck.column ++ t.inChecks.map InCheck.column

/-- The texts of the defaults. -/
def Table.defaultTexts (t : Table) : List GoString :=
  t.columns.filterMap fun col =>
    match col.default with
    | .literal (.text s) => some s
    | _ => none

end Meaning

end Musgos.Outbound
