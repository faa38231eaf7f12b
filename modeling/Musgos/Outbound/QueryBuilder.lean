import Musgos.Foundation.GoMap
import Musgos.Outbound.SqlDialect

/-!
# The query builder

`sql_query_builder.go` composes the statements for scripts and migrations. Names of tables and
columns go into the text and are checked first; values do not, each leaves a question mark in
the text and is added to the arguments. Text and arguments are built side by side, by a loop
over the data and one over the conditions.
-/
namespace Musgos.Outbound

open Foundation

section Identifiers

def isIdentifierStart (x : UInt8) : Bool := (97 ≤ x ∧ x ≤ 122) ∨ (65 ≤ x ∧ x ≤ 90) ∨ x = 95

def isIdentifierByte (x : UInt8) : Bool := isIdentifierStart x ∨ (48 ≤ x ∧ x ≤ 57)

/-- `^[a-zA-Z_][a-zA-Z0-9_]*$` -/
def validIdentifier : GoString → Bool
  | [] => false
  | x :: xs => isIdentifierStart x && xs.all isIdentifierByte

/-- The errors of the builder itself. -/
inductive QueryError where
  | invalidTableName
  | invalidColumnName (column : GoString)
  deriving DecidableEq

/-- The text of an error; `quoted` is the verb `%q`. -/
def QueryError.text (quoted : GoString → GoString) : QueryError → GoString
  | .invalidTableName =>
    lit "invalid table name: " ++ lit "identifier must match [a-zA-Z_][a-zA-Z0-9_]*"
  | .invalidColumnName column =>
    lit "invalid column name " ++ quoted column ++ lit ": " ++
      lit "identifier must match [a-zA-Z_][a-zA-Z0-9_]*"

def validateIdentifier (name : GoString) (err : QueryError) : Except QueryError Unit :=
  if validIdentifier name then .ok () else .error err

end Identifiers

/-- The operators that `Where` and `WhereLessThan` pass on. -/
inductive WhereOperator where
  | equal
  | lessThan
  deriving DecidableEq

def WhereOperator.text : WhereOperator → GoString
  | .equal => lit "="
  | .lessThan => lit "<"

/-- A condition; `none` is the value `nil`. -/
structure WhereClause (V : Type) where
  column : GoString
  operator : WhereOperator
  value : Option V

/-- Written as `IS NULL`, without a value. -/
def WhereClause.isNull {V : Type} (w : WhereClause V) : Bool :=
  w.value.isNone && w.operator = .equal

/-- A text to execute with its arguments. -/
structure Statement (V : Type) where
  text : GoString
  args : List (Option V)

/-- The builder: what executes its queries, and in which dialect. -/
structure SqlQueryBuilder (X : Type) where
  exec : X
  dialect : Dialect

/-- A query object; it keeps the executor of the builder that it comes from. -/
structure SqlQuery (X V : Type) where
  tableName : GoString
  wheres : List (WhereClause V)
  exec : X
  dialect : Dialect

variable {X V : Type}

def SqlQueryBuilder.table (qb : SqlQueryBuilder X) (name : GoString) : SqlQuery X V :=
  ⟨name, [], qb.exec, qb.dialect⟩

/-- The data columns of an insertion, their placeholders and the values. -/
def insertLoop : List (GoString × Option V) → List GoString → List GoString → List (Option V) →
    Except QueryError (List GoString × List GoString × List (Option V))
  | [], cols, placeholders, vals => .ok (cols, placeholders, vals)
  | (col, val) :: data, cols, placeholders, vals => do
    validateIdentifier col (.invalidColumnName col)
    insertLoop data (cols ++ [col]) (placeholders ++ [lit "?"]) (vals ++ [val])

/-- The assignments of an update and the values. -/
def updateLoop : List (GoString × Option V) → List GoString → List (Option V) →
    Except QueryError (List GoString × List (Option V))
  | [], sets, vals => .ok (sets, vals)
  | (col, val) :: data, sets, vals => do
    validateIdentifier col (.invalidColumnName col)
    updateLoop data (sets ++ [col ++ lit " = ?"]) (vals ++ [val])

/-- The conditions and the values of those that have one. -/
def whereLoop : List (WhereClause V) → List GoString → List (Option V) →
    Except QueryError (List GoString × List (Option V))
  | [], parts, vals => .ok (parts, vals)
  | w :: wheres, parts, vals => do
    validateIdentifier w.column (.invalidColumnName w.column)
    if w.isNull then whereLoop wheres (parts ++ [w.column ++ lit " IS NULL"]) vals
    else
      whereLoop wheres (parts ++ [w.column ++ lit " " ++ w.operator.text ++ lit " ?"])
        (vals ++ [w.value])

/-- What a script or a migration can do with a query object. -/
inductive SqlOperation (V : Type) where
  | insert (data : GoMap GoString (Option V))
  | update (data : GoMap GoString (Option V))
  /-- The delta is an `int64`, passed on as an interface value. -/
  | increment (column : GoString) (delta : V)
  | delete
  | first
  | get
  | count

namespace SqlQuery

def addWhere (q : SqlQuery X V) (column : GoString) (operator : WhereOperator) (value : Option V) :
    SqlQuery X V :=
  { q with wheres := q.wheres ++ [⟨column, operator, value⟩] }

/-- `Where`. -/
def whereEqual (q : SqlQuery X V) (column : GoString) (value : Option V) : SqlQuery X V :=
  q.addWhere column .equal value

def whereLessThan (q : SqlQuery X V) (column : GoString) (value : Option V) : SqlQuery X V :=
  q.addWhere column .lessThan value

def buildWhere (q : SqlQuery X V) : Except QueryError (GoString × List (Option V)) :=
  if q.wheres = [] then .ok ([], [])
  else do
    let (parts, vals) ← whereLoop q.wheres [] []
    return (lit " WHERE " ++ (lit " AND ").intercalate parts, vals)

/-- The text goes through the dialect before it is executed. -/
def bound (q : SqlQuery X V) (query : GoString) (vals : List (Option V)) : Statement V :=
  ⟨q.dialect.rebind query, vals⟩

variable (q : SqlQuery X V) (ord : RangeOrder GoString)

def insert (data : GoMap GoString (Option V)) : Except QueryError (Statement V) := do
  validateIdentifier q.tableName .invalidTableName
  let (cols, placeholders, vals) ← insertLoop (ord.entries data) [] [] []
  return q.bound (lit "INSERT INTO " ++ q.tableName ++ lit " (" ++ (lit ", ").intercalate cols ++
    lit ") VALUES (" ++ (lit ", ").intercalate placeholders ++ lit ")") vals

def update (data : GoMap GoString (Option V)) : Except QueryError (Statement V) := do
  validateIdentifier q.tableName .invalidTableName
  let (sets, vals) ← updateLoop (ord.entries data) [] []
  let (whereSQL, whereVals) ← q.buildWhere
  return q.bound (lit "UPDATE " ++ q.tableName ++ lit " SET " ++ (lit ", ").intercalate sets ++
    whereSQL) (vals ++ whereVals)

def increment (column : GoString) (delta : V) : Except QueryError (Statement V) := do
  validateIdentifier q.tableName .invalidTableName
  validateIdentifier column (.invalidColumnName column)
  let (whereSQL, whereVals) ← q.buildWhere
  return q.bound (lit "UPDATE " ++ q.tableName ++ lit " SET " ++ column ++ lit " = " ++ column ++
    lit " + ?" ++ whereSQL) ([some delta] ++ whereVals)

/-- The operations that have no data: a beginning, the table, the conditions and an end. -/
def plain (before after : GoString) : Except QueryError (Statement V) := do
  validateIdentifier q.tableName .invalidTableName
  let (whereSQL, vals) ← q.buildWhere
  return q.bound (before ++ q.tableName ++ whereSQL ++ after) vals

def delete : Except QueryError (Statement V) := q.plain (lit "DELETE FROM ") []

def first : Except QueryError (Statement V) := q.plain (lit "SELECT * FROM ") (lit " LIMIT 1")

def get : Except QueryError (Statement V) := q.plain (lit "SELECT * FROM ") []

def count : Except QueryError (Statement V) := q.plain (lit "SELECT COUNT(*) FROM ") []

def statement : SqlOperation V → Except QueryError (Statement V)
  | .insert data => q.insert ord data
  | .update data => q.update ord data
  | .increment column delta => q.increment column delta
  | .delete => q.delete
  | .first => q.first
  | .get => q.get
  | .count => q.count

end SqlQuery

/-- The columns an operation sets, with their values, in the order of the iteration. -/
def SqlOperation.data (ord : RangeOrder GoString) : SqlOperation V → List (GoString × Option V)
  | .insert data => ord.entries data
  | .update data => ord.entries data
  | .increment column delta => [(column, some delta)]
  | .delete => []
  | .first => []
  | .get => []
  | .count => []

/-- An insertion has no conditions. -/
def SqlQuery.conditions (q : SqlQuery X V) : SqlOperation V → List (WhereClause V)
  | .insert _ => []
  | _ => q.wheres

/-- The columns that have an argument: the data, then the conditions that are not `IS NULL`. -/
def SqlQuery.bindings (q : SqlQuery X V) (ord : RangeOrder GoString) (op : SqlOperation V) :
    List (GoString × Option V) :=
  op.data ord ++ ((q.conditions op).filter (!·.isNull)).map fun w => (w.column, w.value)

section Texts

/-- A condition as it is written. -/
def WhereClause.text (w : WhereClause V) : GoString :=
  if w.isNull then w.column ++ lit " IS NULL"
  else w.column ++ lit " " ++ w.operator.text ++ lit " ?"

def whereText (wheres : List (WhereClause V)) : GoString :=
  if wheres = [] then [] else lit " WHERE " ++ (lit " AND ").intercalate (wheres.map (·.text))

/-- The text of an operation before it is rebound, by the names in it. -/
def operationText (table : GoString) (columns : List GoString) (condition : GoString) :
    SqlOperation V → GoString
  | .insert _ => lit "INSERT INTO " ++ table ++ lit " (" ++ (lit ", ").intercalate columns ++
      lit ") VALUES (" ++ (lit ", ").intercalate (columns.map fun _ => lit "?") ++ lit ")"
  | .update _ => lit "UPDATE " ++ table ++ lit " SET " ++
      (lit ", ").intercalate (columns.map (· ++ lit " = ?")) ++ condition
  | .increment column _ => lit "UPDATE " ++ table ++ lit " SET " ++ column ++ lit " = " ++ column ++
      lit " + ?" ++ condition
  | .delete => lit "DELETE FROM " ++ table ++ condition ++ []
  | .first => lit "SELECT * FROM " ++ table ++ condition ++ lit " LIMIT 1"
  | .get => lit "SELECT * FROM " ++ table ++ condition ++ []
  | .count => lit "SELECT COUNT(*) FROM " ++ table ++ condition ++ []

variable {α β ε : Type}

theorem bind_eq_ok {x : Except ε α} {f : α → Except ε β} {b : β} :
    x >>= f = .ok b ↔ ∃ a, x = .ok a ∧ f a = .ok b := by
  cases x with
  | error e => exact iff_of_false nofun (fun ⟨_, h, _⟩ => nomatch h)
  | ok a =>
    constructor
    · exact fun h => ⟨a, rfl, h⟩
    · rintro ⟨a', ha, h⟩
      obtain rfl := Except.ok.inj ha
      exact h

theorem ok_eq_ok {a b : α} : (.ok a : Except ε α) = .ok b ↔ b = a :=
  ⟨fun h => (Except.ok.inj h).symm, fun h => congrArg Except.ok h.symm⟩

theorem validate_bind_eq_ok {name : GoString} {err : QueryError} {x : Except QueryError β} {b : β} :
    (validateIdentifier name err >>= fun _ => x) = .ok b ↔
      validIdentifier name = true ∧ x = .ok b := by
  unfold validateIdentifier
  split_ifs with h
  · exact (and_iff_right h).symm
  · exact iff_of_false nofun fun h' => h h'.1

theorem insertLoop_eq_ok {data : List (GoString × Option V)} {cols placeholders : List GoString}
    {vals : List (Option V)} {r : List GoString × List GoString × List (Option V)} :
    insertLoop data cols placeholders vals = .ok r ↔
      (∀ p ∈ data, validIdentifier p.1 = true) ∧
        r = (cols ++ data.map Prod.fst, placeholders ++ data.map (fun _ => lit "?"),
          vals ++ data.map Prod.snd) := by
  induction data generalizing cols placeholders vals with
  | nil =>
    rw [insertLoop, ok_eq_ok]
    simp
  | cons p data ih =>
    obtain ⟨col, val⟩ := p
    rw [insertLoop, validate_bind_eq_ok, ih, List.forall_mem_cons, and_assoc]
    simp only [List.map_cons, List.append_assoc, List.singleton_append]

theorem updateLoop_eq_ok {data : List (GoString × Option V)} {sets : List GoString}
    {vals : List (Option V)} {r : List GoString × List (Option V)} :
    updateLoop data sets vals = .ok r ↔
      (∀ p ∈ data, validIdentifier p.1 = true) ∧
        r = (sets ++ data.map (·.1 ++ lit " = ?"), vals ++ data.map Prod.snd) := by
  induction data generalizing sets vals with
  | nil =>
    rw [updateLoop, ok_eq_ok]
    simp
  | cons p data ih =>
    obtain ⟨col, val⟩ := p
    rw [updateLoop, validate_bind_eq_ok, ih, List.forall_mem_cons, and_assoc]
    simp only [List.map_cons, List.append_assoc, List.singleton_append]

theorem whereLoop_eq_ok {wheres : List (WhereClause V)} {parts : List GoString}
    {vals : List (Option V)} {r : List GoString × List (Option V)} :
    whereLoop wheres parts vals = .ok r ↔
      (∀ w ∈ wheres, validIdentifier w.column = true) ∧
        r = (parts ++ wheres.map (·.text), vals ++ (wheres.filter (!·.isNull)).map (·.value)) := by
  induction wheres generalizing parts vals with
  | nil =>
    rw [whereLoop, ok_eq_ok]
    simp
  | cons w wheres ih =>
    rw [whereLoop, validate_bind_eq_ok, List.forall_mem_cons, and_assoc]
    apply and_congr_right
    intro _
    by_cases hnull : w.isNull
    · rw [if_pos hnull, ih]
      simp [WhereClause.text, hnull]
    · rw [if_neg hnull, ih]
      simp [WhereClause.text, hnull]

theorem SqlQuery.buildWhere_eq_ok {q : SqlQuery X V} {r : GoString × List (Option V)} :
    q.buildWhere = .ok r ↔ (∀ w ∈ q.wheres, validIdentifier w.column = true) ∧
      r = (whereText q.wheres, (q.wheres.filter (!·.isNull)).map (·.value)) := by
  unfold buildWhere whereText
  split_ifs with h
  · rw [ok_eq_ok, h]
    simp
  · simp only [bind_eq_ok, whereLoop_eq_ok, List.nil_append]
    constructor
    · rintro ⟨_, ⟨hvalid, rfl⟩, hr⟩
      exact ⟨hvalid, (Except.ok.inj hr).symm⟩
    · rintro ⟨hvalid, rfl⟩
      exact ⟨_, ⟨hvalid, rfl⟩, rfl⟩

/-- Every name that goes into the text is an identifier. -/
def SqlQuery.Valid (q : SqlQuery X V) (ord : RangeOrder GoString) (op : SqlOperation V) : Prop :=
  validIdentifier q.tableName = true ∧ (∀ p ∈ op.data ord, validIdentifier p.1 = true) ∧
    ∀ w ∈ q.conditions op, validIdentifier w.column = true

def SqlQuery.operationText (q : SqlQuery X V) (ord : RangeOrder GoString) (op : SqlOperation V) :
    GoString :=
  Outbound.operationText q.tableName ((op.data ord).map Prod.fst) (whereText q.wheres) op

namespace SqlQuery

variable {q : SqlQuery X V} {ord : RangeOrder GoString} {s : Statement V}

theorem bindings_values (q : SqlQuery X V) (ord : RangeOrder GoString) (op : SqlOperation V) :
    (q.bindings ord op).map Prod.snd =
      (op.data ord).map Prod.snd ++ ((q.conditions op).filter (!·.isNull)).map (·.value) := by
  rw [bindings, List.map_append, List.map_map]
  rfl

theorem bindings_columns (q : SqlQuery X V) (ord : RangeOrder GoString) (op : SqlOperation V) :
    (q.bindings ord op).map Prod.fst =
      (op.data ord).map Prod.fst ++ ((q.conditions op).filter (!·.isNull)).map (·.column) := by
  rw [bindings, List.map_append, List.map_map]
  rfl

theorem buildWhere_bind_eq_ok {f : GoString × List (Option V) → Except QueryError (Statement V)} :
    q.buildWhere >>= f = .ok s ↔ (∀ w ∈ q.wheres, validIdentifier w.column = true) ∧
      f (whereText q.wheres, (q.wheres.filter (!·.isNull)).map (·.value)) = .ok s := by
  rw [bind_eq_ok]
  constructor
  · rintro ⟨_, hwhere, hs⟩
    obtain ⟨hvalid, rfl⟩ := buildWhere_eq_ok.mp hwhere
    exact ⟨hvalid, hs⟩
  · rintro ⟨hvalid, hs⟩
    exact ⟨_, buildWhere_eq_ok.mpr ⟨hvalid, rfl⟩, hs⟩

theorem insert_eq_ok {data : GoMap GoString (Option V)} :
    q.insert ord data = .ok s ↔ q.Valid ord (.insert data) ∧
      s = q.bound (q.operationText ord (.insert data))
        ((q.bindings ord (.insert data)).map Prod.snd) := by
  have htext : q.operationText ord (.insert data) = lit "INSERT INTO " ++ q.tableName ++ lit " (" ++
      (lit ", ").intercalate ((ord.entries data).map Prod.fst) ++ lit ") VALUES (" ++
        (lit ", ").intercalate ((ord.entries data).map fun _ => lit "?") ++ lit ")" := by
    rw [operationText, Outbound.operationText, SqlOperation.data, List.map_map]
    rfl
  have hvalues : (q.bindings ord (.insert data)).map Prod.snd =
      (ord.entries data).map Prod.snd := by
    rw [bindings_values]
    exact List.append_nil _
  rw [insert, validate_bind_eq_ok, bind_eq_ok, Valid, and_assoc, and_assoc, htext, hvalues]
  apply and_congr_right
  intro _
  simp only [insertLoop_eq_ok]
  constructor
  · rintro ⟨_, ⟨hvalid, rfl⟩, hs⟩
    exact ⟨hvalid, nofun, (Except.ok.inj hs).symm⟩
  · rintro ⟨hvalid, -, rfl⟩
    exact ⟨_, ⟨hvalid, rfl⟩, rfl⟩

theorem update_eq_ok {data : GoMap GoString (Option V)} :
    q.update ord data = .ok s ↔ q.Valid ord (.update data) ∧
      s = q.bound (q.operationText ord (.update data))
        ((q.bindings ord (.update data)).map Prod.snd) := by
  have htext : q.operationText ord (.update data) = lit "UPDATE " ++ q.tableName ++ lit " SET " ++
      (lit ", ").intercalate ((ord.entries data).map (·.1 ++ lit " = ?")) ++
        whereText q.wheres := by
    rw [operationText, Outbound.operationText, SqlOperation.data, List.map_map]
    rfl
  rw [update, validate_bind_eq_ok, bind_eq_ok, bindings_values, Valid, and_assoc, and_assoc, htext]
  apply and_congr_right
  intro _
  simp only [updateLoop_eq_ok]
  constructor
  · rintro ⟨_, ⟨hvalid, rfl⟩, hs⟩
    obtain ⟨hwheres, hs⟩ := buildWhere_bind_eq_ok.mp hs
    exact ⟨hvalid, hwheres, (Except.ok.inj hs).symm⟩
  · rintro ⟨hvalid, hwheres, rfl⟩
    exact ⟨_, ⟨hvalid, rfl⟩, buildWhere_bind_eq_ok.mpr ⟨hwheres, rfl⟩⟩

theorem increment_eq_ok {column : GoString} {delta : V} :
    q.increment column delta = .ok s ↔ q.Valid ord (.increment column delta) ∧
      s = q.bound (q.operationText ord (.increment column delta))
        ((q.bindings ord (.increment column delta)).map Prod.snd) := by
  rw [increment, validate_bind_eq_ok, validate_bind_eq_ok, buildWhere_bind_eq_ok, bindings_values,
    Valid, and_assoc, and_assoc]
  apply and_congr_right
  intro _
  apply and_congr
  · simp [SqlOperation.data]
  · exact and_congr_right fun _ => ok_eq_ok

theorem plain_eq_ok {op : SqlOperation V} {before after : GoString} (hdata : op.data ord = [])
    (hconditions : q.conditions op = q.wheres)
    (htext : q.operationText ord op = before ++ q.tableName ++ whereText q.wheres ++ after) :
    q.plain before after = .ok s ↔ q.Valid ord op ∧
      s = q.bound (q.operationText ord op) ((q.bindings ord op).map Prod.snd) := by
  rw [plain, validate_bind_eq_ok, buildWhere_bind_eq_ok, bindings_values, Valid, hdata, hconditions,
    htext, and_assoc]
  apply and_congr_right
  intro _
  constructor
  · rintro ⟨hwheres, hs⟩
    exact ⟨⟨nofun, hwheres⟩, (Except.ok.inj hs).symm⟩
  · rintro ⟨⟨-, hwheres⟩, rfl⟩
    exact ⟨hwheres, rfl⟩

/-- An operation gets to a statement exactly if all names are identifiers, and then to this
one. -/
theorem statement_eq_ok {op : SqlOperation V} :
    q.statement ord op = .ok s ↔ q.Valid ord op ∧
      s = q.bound (q.operationText ord op) ((q.bindings ord op).map Prod.snd) := by
  cases op with
  | insert data => exact insert_eq_ok
  | update data => exact update_eq_ok
  | increment column delta => exact increment_eq_ok
  | delete => exact plain_eq_ok rfl rfl rfl
  | first => exact plain_eq_ok rfl rfl rfl
  | get => exact plain_eq_ok rfl rfl rfl
  | count => exact plain_eq_ok rfl rfl rfl

end SqlQuery

end Texts

/-! An error names what was rejected. -/
section Errors

/-- The error is about the table, or about one of the columns. -/
def QueryError.Blames (table : GoString) (columns : List GoString) : QueryError → Prop
  | .invalidTableName => validIdentifier table = false
  | .invalidColumnName column => column ∈ columns ∧ validIdentifier column = false

variable {α β : Type} {table : GoString} {columns : List GoString} {e : QueryError}

/-- Whatever this returns as an error is to be blamed. -/
def Justified (table : GoString) (columns : List GoString) (x : Except QueryError α) : Prop :=
  ∀ e, x = .error e → e.Blames table columns

theorem Justified.bind {x : Except QueryError α} {f : α → Except QueryError β}
    (hx : Justified table columns x) (hf : ∀ a, Justified table columns (f a)) :
    Justified table columns (x >>= f) := by
  cases x with
  | error e =>
    intro e' he
    obtain rfl := Except.error.inj he
    exact hx e rfl
  | ok a => exact hf a

theorem justified_ok (a : α) : Justified table columns (.ok a : Except QueryError α) := nofun

theorem justified_validate {name : GoString} {err : QueryError}
    (h : validIdentifier name = false → err.Blames table columns) :
    Justified table columns (validateIdentifier name err) := by
  intro e he
  unfold validateIdentifier at he
  split_ifs at he with hvalid
  obtain rfl := Except.error.inj he
  exact h (by simpa using hvalid)

theorem justified_table : Justified table columns (validateIdentifier table .invalidTableName) :=
  justified_validate id

theorem justified_column {c : GoString} (h : c ∈ columns) :
    Justified table columns (validateIdentifier c (.invalidColumnName c)) :=
  justified_validate fun hinvalid => ⟨h, hinvalid⟩

theorem justified_insertLoop {data : List (GoString × Option V)} (h : ∀ p ∈ data, p.1 ∈ columns)
    (cols placeholders : List GoString) (vals : List (Option V)) :
    Justified table columns (insertLoop data cols placeholders vals) := by
  induction data generalizing cols placeholders vals with
  | nil => exact justified_ok _
  | cons p data ih =>
    obtain ⟨hp, hdata⟩ := List.forall_mem_cons.mp h
    exact (justified_column hp).bind fun _ => ih hdata _ _ _

theorem justified_updateLoop {data : List (GoString × Option V)} (h : ∀ p ∈ data, p.1 ∈ columns)
    (sets : List GoString) (vals : List (Option V)) :
    Justified table columns (updateLoop data sets vals) := by
  induction data generalizing sets vals with
  | nil => exact justified_ok _
  | cons p data ih =>
    obtain ⟨hp, hdata⟩ := List.forall_mem_cons.mp h
    exact (justified_column hp).bind fun _ => ih hdata _ _

theorem justified_whereLoop {wheres : List (WhereClause V)} (h : ∀ w ∈ wheres, w.column ∈ columns)
    (parts : List GoString) (vals : List (Option V)) :
    Justified table columns (whereLoop wheres parts vals) := by
  induction wheres generalizing parts vals with
  | nil => exact justified_ok _
  | cons w wheres ih =>
    obtain ⟨hw, hwheres⟩ := List.forall_mem_cons.mp h
    refine (justified_column hw).bind fun _ => ?_
    split_ifs
    · exact ih hwheres _ _
    · exact ih hwheres _ _

theorem justified_buildWhere {q : SqlQuery X V} (h : ∀ w ∈ q.wheres, w.column ∈ columns) :
    Justified table columns q.buildWhere := by
  unfold SqlQuery.buildWhere
  split_ifs
  · exact justified_ok _
  · exact (justified_whereLoop h _ _).bind fun _ => justified_ok _

/-- An operation that fails before it executes anything names the table if that is not an
identifier, or one of its columns that is none. -/
theorem SqlQuery.statement_justified (q : SqlQuery X V) (ord : RangeOrder GoString)
    (op : SqlOperation V) :
    Justified q.tableName ((op.data ord).map Prod.fst ++ q.wheres.map (·.column))
      (q.statement ord op) := by
  have hdata : ∀ p ∈ op.data ord,
      p.1 ∈ (op.data ord).map Prod.fst ++ q.wheres.map (·.column) :=
    fun p hp => List.mem_append_left _ (List.mem_map_of_mem hp)
  have hwhere : Justified q.tableName
      ((op.data ord).map Prod.fst ++ q.wheres.map (·.column)) q.buildWhere :=
    justified_buildWhere fun w hw => List.mem_append_right _ (List.mem_map_of_mem hw)
  have hplain : ∀ before after, Justified q.tableName
      ((op.data ord).map Prod.fst ++ q.wheres.map (·.column)) (q.plain before after) :=
    fun _ _ => justified_table.bind fun _ => hwhere.bind fun _ => justified_ok _
  cases op with
  | insert data =>
    exact justified_table.bind fun _ => (justified_insertLoop hdata _ _ _).bind fun _ =>
      justified_ok _
  | update data =>
    exact justified_table.bind fun _ => (justified_updateLoop hdata _ _).bind fun _ =>
      hwhere.bind fun _ => justified_ok _
  | increment column delta =>
    have hcolumn := hdata (column, some delta) List.mem_cons_self
    exact justified_table.bind fun _ => (justified_column hcolumn).bind fun _ =>
      hwhere.bind fun _ => justified_ok _
  | delete => exact hplain _ _
  | first => exact hplain _ _
  | get => exact hplain _ _
  | count => exact hplain _ _

end Errors

/-- What an operation has executed, and what it returns. -/
structure Performed (X V E R : Type) where
  executed : List (X × Statement V)
  result : Except (QueryError ⊕ E) R

/-- An operation on a query object, with the answer of the database to a statement. -/
def SqlQuery.perform {E R : Type} (q : SqlQuery X V) (ord : RangeOrder GoString)
    (db : X → Statement V → Except E R) (op : SqlOperation V) : Performed X V E R :=
  match q.statement ord op with
  | .error e => ⟨[], .error (.inl e)⟩
  | .ok s =>
    ⟨[(q.exec, s)],
      match db q.exec s with
      | .error e => .error (.inr e)
      | .ok r => .ok r⟩

end Musgos.Outbound
