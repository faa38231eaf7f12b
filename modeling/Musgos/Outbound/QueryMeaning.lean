import Mathlib.Data.List.GetD
import Musgos.Foundation.SqlCommands
import Musgos.Outbound.JsonIntegers
import Musgos.Outbound.QueryAlignment

/-!
# What the statements of the query builder do

A query object stands for a choice of rows of its table: those of which all its conditions hold.
An operation is meant to insert a row, to overwrite, increment or delete the chosen rows, or to
return or count them. What is executed is a text and a list of arguments, rebound for the
dialect. Here the text is run, and does to the tables what the operation means, unless the database
refuses a value. Values are compared and stored as the columns convert them, and other tables may
follow the change by their foreign keys.
-/
namespace Musgos.Outbound

open Foundation SqlText SqlCommands Lingo
open SqlLexer (Tok AtBreak atBreak_nil atBreak_cons keywords listToks separate words)

variable {X V : Type}

section Specification

variable (fold : GoString → GoString) (t : Relation V)

/-- `Where` with `nil` asks for `NULL`; in all other cases a value is compared with a value. -/
def WhereClause.holds (w : WhereClause V) (row : Row V) : Bool :=
  let kind := t.kind (fold w.column)
  match w.operator, w.value.bind kind.convert with
  | .equal, some v => (row (fold w.column)).any (kind.equal · v)
  | .equal, none => w.value.isNone && (row (fold w.column)).isNone
  | .lessThan, some v => (row (fold w.column)).any (kind.less · v)
  | .lessThan, none => false

def SqlQuery.selects (q : SqlQuery X V) (row : Row V) : Bool :=
  q.wheres.all (·.holds fold t row)

/-- The row with the data in it, whatever the order in which they were set. -/
structure IsOverwritten (data : GoMap GoString (Option V)) (row row' : Row V) : Prop where
  set : ∀ key v, data.lookup key = some v → row' (fold key) = v.bind (t.kind (fold key)).convert
  kept : ∀ c, (∀ key ∈ data.keys, fold key ≠ c) → row' c = row c

/-- The value of a column with the delta added to it; `NULL` stays. -/
def increased (column : GoString) (delta : V) (row : Row V) : Option V :=
  (row (fold column)).bind fun x =>
    ((t.kind (fold column)).convert delta).bind ((t.kind (fold column)).add x)

/-- What an operation answers, and what becomes of the rows if it writes. -/
def SqlOperation.Means (q : SqlQuery X V) :
    SqlOperation V → Answer V × Option (List (Row V)) → Prop
  | .insert data, r => ∃ row, IsOverwritten fold t data t.defaults row ∧
      r = (.affected 1, some (t.rows ++ [row]))
  | .update data, r => ∃ rows, r = (.affected (t.rows.countP (q.selects fold t)), some rows) ∧
      List.Forall₂ (fun row row' => if q.selects fold t row then IsOverwritten fold t data row row'
        else row' = row) t.rows rows
  | .increment column delta, r => r = (.affected (t.rows.countP (q.selects fold t)),
      some (t.rows.map fun row => if q.selects fold t row then
        Function.update row (fold column) (increased fold t column delta row) else row))
  | .delete, r => r = (.affected (t.rows.countP (q.selects fold t)),
      some (t.rows.filter fun row => !q.selects fold t row))
  | .first, r => r = (.rows ((t.rows.filter (q.selects fold t)).take 1), none)
  | .get, r => r = (.rows (t.rows.filter (q.selects fold t)), none)
  | .count, r => r = (.number (t.rows.countP (q.selects fold t)), none)

/-- Every column takes the value that is bound to it, and an increment has a sum for each of the
chosen rows that has a value. -/
structure SqlOperation.Fits (q : SqlQuery X V) (ord : RangeOrder GoString) (op : SqlOperation V) :
    Prop where
  takes : ∀ b ∈ q.bindings ord op, t.takes fold b = true
  sums : ∀ column delta, op = .increment column delta →
    ∀ row ∈ t.rows, q.selects fold t row = true →
    (row (fold column)).isSome → (increased fold t column delta row).isSome

/-- There are data, and no two of their columns are one to the database. -/
def SqlOperation.Proper : SqlOperation V → Prop
  | .insert data => data.keys.Nonempty ∧ Set.InjOn fold data.keys
  | .update data => data.keys.Nonempty ∧ Set.InjOn fold data.keys
  | _ => True

/-- The names of a statement. -/
def SqlQuery.names (q : SqlQuery X V) (ord : RangeOrder GoString) (op : SqlOperation V) :
    List GoString :=
  (op.data ord).map Prod.fst ++ (q.conditions op).map (·.column)

/-- How a database finds the argument of a placeholder. -/
def Dialect.argOf : Dialect → ℕ → GoString → Option ℕ
  | .sqlite, n, w => if w = lit "?" then some n else none
  | .postgres, _, w =>
    if w.head? = some 36 then
      (digitsValue w.tail).bind fun k => if k = 0 then none else some (k - 1)
    else none

end Specification

section Commands

theorem Dialect.argOf_mark (d : Dialect) (n : ℕ) :
    isMark (d.mark n) = true ∧ d.argOf n (d.mark n) = some n := by
  refine ⟨d.placeholders.marked n, ?_⟩
  cases d with
  | sqlite => rfl
  | postgres =>
    have hmark : Dialect.mark .postgres n = 36 :: decimal (n + 1) := rfl
    rw [argOf, hmark, List.head?_cons, if_pos rfl, List.tail_cons, digitsValue_decimal]
    rfl

/-- A condition as a comparison; `n` arguments come before its own. -/
def WhereClause.test (n : ℕ) (w : WhereClause V) : Test :=
  if w.isNull then .isNull w.column
  else if w.operator = .equal then .equal w.column n
  else .less w.column n

def WhereClause.size (w : WhereClause V) : ℕ := if w.isNull then 0 else 1

def testsFrom (n : ℕ) (wheres : List (WhereClause V)) : List Test :=
  itemsFrom WhereClause.size WhereClause.test n wheres

/-- The command that the statement of an operation is. -/
def SqlQuery.command (q : SqlQuery X V) (ord : RangeOrder GoString) : SqlOperation V → Command
  | .insert data => .insert q.tableName ((ord.entries data).map Prod.fst)
      (itemsFrom (fun _ => 1) (fun n _ => n) 0 (ord.entries data))
  | .update data => .update q.tableName
      (itemsFrom (fun _ => 1) (fun n p => .set p.1 n) 0 (ord.entries data))
      (testsFrom (ord.entries data).length q.wheres)
  | .increment column _ => .update q.tableName [.add column 0] (testsFrom 1 q.wheres)
  | .delete => .delete q.tableName (testsFrom 0 q.wheres)
  | .first => .select q.tableName (testsFrom 0 q.wheres) true
  | .get => .select q.tableName (testsFrom 0 q.wheres) false
  | .count => .count q.tableName (testsFrom 0 q.wheres)

theorem WhereClause.column_test (n : ℕ) (w : WhereClause V) : (w.test n).column = w.column := by
  unfold test
  split_ifs <;> rfl

theorem columns_testsFrom (n : ℕ) (wheres : List (WhereClause V)) :
    (testsFrom n wheres).map Test.column = wheres.map (·.column) :=
  map_itemsFrom WhereClause.column_test n wheres

theorem sum_size (wheres : List (WhereClause V)) :
    (wheres.map WhereClause.size).sum = (wheres.filter (!·.isNull)).length := by
  induction wheres with
  | nil => rfl
  | cons w wheres ih =>
    rw [List.map_cons, List.sum_cons, ih, WhereClause.size]
    by_cases hnull : w.isNull
    · rw [if_pos hnull, List.filter_cons_of_neg (by simp [hnull]), Nat.zero_add]
    · rw [if_neg hnull, List.filter_cons_of_pos (by simp [hnull]), List.length_cons, Nat.add_comm]

variable (d : Dialect)

theorem starts_equal : Starts d.mark (lit " " ++ lit "=" ++ lit " ") [.word (lit "=")] :=
  ⟨[lit "="], opens_of_all rfl rfl fun _ _ => rfl, rfl⟩

theorem starts_less : Starts d.mark (lit " " ++ lit "<" ++ lit " ") [.word (lit "<")] :=
  ⟨[lit "<"], opens_of_all rfl rfl fun _ _ => rfl, rfl⟩

theorem starts_comma : Starts d.mark (lit ", ") [.comma] := ⟨[comma], opens_comma d, rfl⟩

theorem writes_text {w : WhereClause V} (h : validIdentifier w.column = true) :
    Writes d.mark w.text w.size fun n => (w.test n).toks := by
  have hword := isWord_of_validIdentifier h
  unfold WhereClause.text WhereClause.size WhereClause.test
  by_cases hnull : w.isNull
  · have his : Starts d.mark (lit " IS ") [.word (lit "IS")] :=
      ⟨[lit "IS"], opens_of_all rfl rfl fun _ _ => rfl, rfl⟩
    have hend := his.append (writes_word (w := lit "NULL") (by decide))
    simp only [hnull, if_true]
    exact (writes_word hword).append hend (atBreak_cons (x := 32) rfl _)
  · simp only [hnull, Bool.false_eq_true, if_false, List.append_assoc]
    cases w.operator with
    | equal => exact writes_compared d.placeholders hword (starts_equal d)
    | lessThan => exact writes_compared d.placeholders hword (starts_less d)

theorem writes_whereText {wheres : List (WhereClause V)}
    (h : ∀ w ∈ wheres, validIdentifier w.column = true) :
    Writes d.mark (whereText wheres) (wheres.map WhereClause.size).sum
      fun n => whereToks (testsFrom n wheres) := by
  by_cases hempty : wheres = []
  · rw [hempty]
    exact writes_nil
  · have hwhere : Starts d.mark (lit " WHERE ") [.word (lit "WHERE")] :=
      ⟨[lit "WHERE"], opens_of_all rfl rfl fun _ _ => rfl, rfl⟩
    have hand : Starts d.mark (lit " AND ") [.word (lit "AND")] :=
      ⟨[lit "AND"], opens_of_all rfl rfl fun _ _ => rfl, rfl⟩
    have hparts := writes_intercalate hand (atBreak_cons (x := 32) rfl _) (by decide)
      WhereClause.text WhereClause.size WhereClause.test Test.toks
      fun w hw => writes_text d (h w hw)
    have htests (n : ℕ) : testsFrom n wheres ≠ [] := fun heq => hempty (itemsFrom_eq_nil.mp heq)
    rw [whereText, if_neg hempty]
    simp only [whereToks, if_neg (htests _)]
    exact hwhere.append hparts

theorem exists_slots {ph : ℕ → GoString} {text text' : GoString} {size size' : ℕ}
    {ts : ℕ → List Tok} {written : List Tok} (h : Writes ph text size ts) (htext : text' = text)
    (hsize : size = size') (hts : ts 0 = written) :
    ∃ slots, Spells ph text' slots ∧ marks slots = size' ∧ numbered 0 slots = written := by
  obtain ⟨slots, hspells, hmarks, hnumbered⟩ := h
  exact ⟨slots, htext ▸ hspells, hmarks.trans hsize, (hnumbered 0).trans hts⟩

theorem writes_insert {table : GoString} {data : List (GoString × Option V)}
    (htable : validIdentifier table = true) (hdata : ∀ p ∈ data, validIdentifier p.1 = true) :
    ∃ slots, Spells d.mark (lit "INSERT INTO " ++ table ++ lit " (" ++
        (lit ", ").intercalate (data.map Prod.fst) ++ lit ") VALUES (" ++
          (lit ", ").intercalate (data.map fun _ => lit "?") ++ lit ")") slots ∧
      marks slots = data.length ∧ numbered 0 slots = (Command.insert table (data.map Prod.fst)
        (itemsFrom (fun _ => 1) (fun n _ => n) 0 data)).toks := by
  have hinsert : Starts d.mark (lit "INSERT INTO ") (keywords [lit "INSERT", lit "INTO"]) :=
    ⟨[lit "INSERT", lit "INTO"], opens_of_all rfl rfl fun _ _ => rfl, rfl⟩
  have hopen : Starts d.mark (lit " (") [.opening] :=
    ⟨[opening], opens_of_all rfl rfl fun _ _ => rfl, rfl⟩
  have hvalues : Starts d.mark (lit ") VALUES (") [.closing, .word (lit "VALUES"), .opening] :=
    ⟨[closing, lit "VALUES", opening], opens_of_all rfl rfl fun _ _ => rfl, rfl⟩
  have hclose : Starts d.mark (lit ")") [.closing] :=
    ⟨[closing], opens_of_all rfl rfl fun _ _ => rfl, rfl⟩
  have hcomma := starts_comma d
  have hnames := writes_intercalate hcomma (atBreak_cons (x := 44) rfl _) (by decide) Prod.fst
    (fun _ => 0) (fun _ p => p.1) (fun c => [Tok.word c])
    fun p hp => writes_word (isWord_of_validIdentifier (hdata p hp))
  have hmarks := writes_intercalate hcomma (atBreak_cons (x := 44) rfl _) (by decide)
    (fun _ : GoString × Option V => lit "?") (fun _ => 1) (fun n _ => n) (fun k => [Tok.arg k])
    fun p (_ : p ∈ data) => writes_mark d.placeholders
  have hend := hmarks.append (hclose.append writes_nil) (atBreak_cons (x := 41) rfl _)
  have hlists := hnames.append (hvalues.append hend) (atBreak_cons (x := 41) rfl _)
  have hall := hinsert.append ((writes_word (isWord_of_validIdentifier htable)).append
    (hopen.append hlists) (atBreak_cons (x := 32) rfl _))
  have hcolumns (n : ℕ) : itemsFrom (fun _ : GoString × Option V => 0) (fun _ p => p.1) n data =
      data.map Prod.fst := by
    have hfst : ∀ (_ : ℕ) (p : GoString × Option V), id p.1 = p.1 := fun _ _ => rfl
    rw [← List.map_id (itemsFrom _ _ n data)]
    exact map_itemsFrom hfst n data
  refine exists_slots hall ?_ ?_ ?_
  · simp only [List.append_assoc, List.append_nil]
  · simp
  · simp [Command.toks, listToks, keywords, hcolumns]

theorem starts_update : Starts d.mark (lit "UPDATE ") (keywords [lit "UPDATE"]) :=
  ⟨[lit "UPDATE"], opens_of_all rfl rfl fun _ _ => rfl, rfl⟩

theorem starts_set : Starts d.mark (lit " SET ") (keywords [lit "SET"]) :=
  ⟨[lit "SET"], opens_of_all rfl rfl fun _ _ => rfl, rfl⟩

theorem writes_update {table : GoString} {data : List (GoString × Option V)}
    {wheres : List (WhereClause V)} (htable : validIdentifier table = true)
    (hdata : ∀ p ∈ data, validIdentifier p.1 = true)
    (hwheres : ∀ w ∈ wheres, validIdentifier w.column = true) :
    ∃ slots, Spells d.mark (lit "UPDATE " ++ table ++ lit " SET " ++
        (lit ", ").intercalate (data.map (·.1 ++ lit " = ?")) ++ whereText wheres) slots ∧
      marks slots = data.length + (wheres.map WhereClause.size).sum ∧
      numbered 0 slots = (Command.update table
        (itemsFrom (fun _ => 1) (fun n p => Change.set p.1 n) 0 data)
          (testsFrom data.length wheres)).toks := by
  have hsets := writes_intercalate (starts_comma d) (atBreak_cons (x := 44) rfl _) (by decide)
    (fun p : GoString × Option V => p.1 ++ lit " = ?") (fun _ => 1) (fun n p => Change.set p.1 n)
    Change.toks fun p (hp : p ∈ data) =>
      writes_compared d.placeholders (isWord_of_validIdentifier (hdata p hp)) (starts_equal d)
  have hend := hsets.append (writes_whereText d hwheres) (atBreak_whereText wheres)
  have hall := (starts_update d).append ((writes_word (isWord_of_validIdentifier htable)).append
    ((starts_set d).append hend) (atBreak_cons (x := 32) rfl _))
  refine exists_slots hall ?_ ?_ ?_
  · simp only [List.append_assoc]
  · simp
  · simp [Command.toks]

theorem writes_increment {table column : GoString} {wheres : List (WhereClause V)}
    (htable : validIdentifier table = true) (hcolumn : validIdentifier column = true)
    (hwheres : ∀ w ∈ wheres, validIdentifier w.column = true) :
    ∃ slots, Spells d.mark (lit "UPDATE " ++ table ++ lit " SET " ++ column ++ lit " = " ++
        column ++ lit " + ?" ++ whereText wheres) slots ∧
      marks slots = 1 + (wheres.map WhereClause.size).sum ∧
      numbered 0 slots = (Command.update table [.add column 0] (testsFrom 1 wheres)).toks := by
  have hequal : Starts d.mark (lit " = ") [.word (lit "=")] := starts_equal d
  have hplus : Starts d.mark (lit " " ++ lit "+" ++ lit " ") [.word (lit "+")] :=
    ⟨[lit "+"], opens_of_all rfl rfl fun _ _ => rfl, rfl⟩
  have hword := isWord_of_validIdentifier hcolumn
  have hsum : Writes d.mark (column ++ lit " + ?") 1
      fun n => [.word column, .word (lit "+"), .arg n] :=
    writes_compared d.placeholders hword hplus
  have hchange := (writes_word hword).append (hequal.append hsum)
    (atBreak_cons (x := 32) rfl _)
  have hend := hchange.append (writes_whereText d hwheres) (atBreak_whereText wheres)
  have hall := (starts_update d).append ((writes_word (isWord_of_validIdentifier htable)).append
    ((starts_set d).append hend) (atBreak_cons (x := 32) rfl _))
  refine exists_slots hall ?_ ?_ ?_
  · simp only [List.append_assoc]
  · simp
  · simp [Command.toks, Change.toks, keywords, separate]

theorem writes_plain {before after table : GoString} {wheres : List (WhereClause V)}
    {first last : List Tok} (hbefore : Starts d.mark before first)
    (hafter : Writes d.mark after 0 fun _ => last) (hbreak : AtBreak after)
    (htable : validIdentifier table = true)
    (hwheres : ∀ w ∈ wheres, validIdentifier w.column = true) :
    ∃ slots, Spells d.mark (before ++ table ++ whereText wheres ++ after) slots ∧
      marks slots = (wheres.map WhereClause.size).sum ∧
      numbered 0 slots =
        first ++ (.word table :: (whereToks (testsFrom 0 wheres) ++ last)) := by
  have hend := (writes_whereText d hwheres).append hafter hbreak
  have hall := hbefore.append ((writes_word (isWord_of_validIdentifier htable)).append hend
    ((atBreak_whereText wheres).append hbreak))
  refine exists_slots hall ?_ ?_ ?_
  · simp only [List.append_assoc]
  · simp
  · simp

variable {q : SqlQuery X V} {ord : RangeOrder GoString} {op : SqlOperation V}

theorem SqlQuery.length_bindings (q : SqlQuery X V) (ord : RangeOrder GoString)
    (op : SqlOperation V) : (q.bindings ord op).length =
      (op.data ord).length + ((q.conditions op).map WhereClause.size).sum := by
  rw [bindings, List.length_append, List.length_map, sum_size]

/-- The text of an operation is read as its command, and has a placeholder for each argument. -/
theorem SqlQuery.reads_command (h : q.Valid ord op) :
    ∃ slots, Spells q.dialect.mark (q.operationText ord op) slots ∧
      marks slots = (q.bindings ord op).length ∧
      numbered 0 slots = (q.command ord op).toks := by
  obtain ⟨htable, hdata, hwheres⟩ := h
  have hnone : Writes q.dialect.mark [] 0 fun _ => [] := writes_nil
  have hselect : Starts q.dialect.mark (lit "SELECT * FROM ")
      (keywords [lit "SELECT", lit "*", lit "FROM"]) :=
    ⟨[lit "SELECT", lit "*", lit "FROM"], opens_of_all rfl rfl fun _ _ => rfl, rfl⟩
  rw [length_bindings, operationText]
  cases op with
  | insert data =>
    simpa [Outbound.operationText, SqlOperation.data, conditions, command, Function.comp_def]
      using writes_insert q.dialect htable hdata
  | update data =>
    simpa [Outbound.operationText, SqlOperation.data, conditions, command, Function.comp_def]
      using writes_update q.dialect htable hdata hwheres
  | increment column delta =>
    have hcolumn : validIdentifier column = true := hdata _ List.mem_cons_self
    exact writes_increment q.dialect htable hcolumn hwheres
  | delete =>
    have hdelete : Starts q.dialect.mark (lit "DELETE FROM ")
        (keywords [lit "DELETE", lit "FROM"]) :=
      ⟨[lit "DELETE", lit "FROM"], opens_of_all rfl rfl fun _ _ => rfl, rfl⟩
    simpa [Outbound.operationText, SqlOperation.data, conditions, command, Command.toks]
      using writes_plain q.dialect hdelete hnone atBreak_nil htable hwheres
  | first =>
    have hlimit : Starts q.dialect.mark (lit " LIMIT ") (keywords [lit "LIMIT"]) :=
      ⟨[lit "LIMIT"], opens_of_all rfl rfl fun _ _ => rfl, rfl⟩
    have hone : Writes q.dialect.mark (lit " LIMIT 1") 0 fun _ => keywords [lit "LIMIT", lit "1"] :=
      hlimit.append (writes_word (w := lit "1") (by decide))
    simpa [Outbound.operationText, SqlOperation.data, conditions, command, Command.toks]
      using writes_plain q.dialect hselect hone (atBreak_cons (x := 32) rfl _) htable hwheres
  | get =>
    simpa [Outbound.operationText, SqlOperation.data, conditions, command, Command.toks]
      using writes_plain q.dialect hselect hnone atBreak_nil htable hwheres
  | count =>
    have hcount : Starts q.dialect.mark (lit "SELECT COUNT(*) FROM ") countToks :=
      ⟨[lit "SELECT", lit "COUNT", opening, lit "*", closing, lit "FROM"],
        opens_of_all rfl rfl fun _ _ => rfl, rfl⟩
    simpa [Outbound.operationText, SqlOperation.data, conditions, command, Command.toks]
      using writes_plain q.dialect hcount hnone atBreak_nil htable hwheres

end Commands

section Meaning

variable {fold : GoString → GoString} {t : Relation V} {args : List (Option V)}

theorem WhereClause.holds_test {w : WhereClause V} {n : ℕ}
    (hvalue : w.isNull = false → args.getD n none = w.value) (row : Row V) :
    (w.test n).holds fold args t row = w.holds fold t row := by
  obtain ⟨column, operator, value⟩ := w
  cases operator with
  | equal =>
    cases value with
    | none => rfl
    | some v =>
      have hn : args.getD n none = some v := hvalue rfl
      show compares (t.kind (fold column)).equal (row (fold column))
        (given fold args t column n) = _
      rw [given, hn, Option.bind_some]
      cases hconvert : (t.kind (fold column)).convert v <;> cases hrow : row (fold column) <;>
        simp [compares, holds, hrow, hconvert]
  | lessThan =>
    have hn : args.getD n none = value := hvalue (by simp [isNull])
    have htest : test n ⟨column, .lessThan, value⟩ = .less column n := by simp [test, isNull]
    rw [htest, Test.holds, given, hn]
    cases hbind : value.bind (t.kind (fold column)).convert <;> cases hrow : row (fold column) <;>
      simp [compares, holds, hrow, hbind]

/-- From `n` on, the arguments are the values of the conditions. -/
def Answers (args : List (Option V)) (n : ℕ) (wheres : List (WhereClause V)) : Prop :=
  ∀ k, args.getD (n + k) none = ((wheres.filter (!·.isNull)).map (·.value)).getD k none

theorem Answers.head {w : WhereClause V} {wheres : List (WhereClause V)} {n : ℕ}
    (h : Answers args n (w :: wheres)) (hnull : w.isNull = false) :
    args.getD n none = w.value := by
  have hfirst := h 0
  rwa [List.filter_cons_of_pos (by simp [hnull])] at hfirst

theorem Answers.tail {w : WhereClause V} {wheres : List (WhereClause V)} {n : ℕ}
    (h : Answers args n (w :: wheres)) : Answers args (n + w.size) wheres := by
  intro k
  by_cases hnull : w.isNull
  · have hrest := h k
    rw [List.filter_cons_of_neg (by simp [hnull])] at hrest
    rw [WhereClause.size, if_pos hnull, Nat.add_zero, hrest]
  · have hrest := h (k + 1)
    rw [List.filter_cons_of_pos (by simp [hnull]), List.map_cons, List.getD_cons_succ] at hrest
    rw [WhereClause.size, if_neg hnull, Nat.add_assoc, Nat.add_comm 1, hrest]

theorem chosen_testsFrom {wheres : List (WhereClause V)} {n : ℕ} (hargs : Answers args n wheres)
    (row : Row V) :
    chosen fold args t (testsFrom n wheres) row = wheres.all (·.holds fold t row) := by
  induction wheres generalizing n with
  | nil => rfl
  | cons w wheres ih =>
    have hsplit : chosen fold args t (testsFrom n (w :: wheres)) row =
        ((w.test n).holds fold args t row &&
          chosen fold args t (testsFrom (n + w.size) wheres) row) := rfl
    rw [hsplit, List.all_cons, w.holds_test hargs.head, ih hargs.tail]

theorem uses_testsFrom {wheres : List (WhereClause V)} {n : ℕ} (hargs : Answers args n wheres) :
    ((testsFrom n wheres).flatMap Test.uses).map (fun p => (p.1, args.getD p.2 none)) =
      (wheres.filter (!·.isNull)).map fun w => (w.column, w.value) := by
  induction wheres generalizing n with
  | nil => rfl
  | cons w wheres ih =>
    have hsplit : (testsFrom n (w :: wheres)).flatMap Test.uses =
        (w.test n).uses ++ (testsFrom (n + w.size) wheres).flatMap Test.uses := rfl
    rw [hsplit, List.map_append, ih hargs.tail]
    by_cases hnull : w.isNull
    · rw [List.filter_cons_of_neg (by simp [hnull]), WhereClause.test, if_pos hnull]
      rfl
    · have huses : (w.test n).uses = [(w.column, n)] := by
        rw [WhereClause.test, if_neg hnull]
        split_ifs <;> rfl
      rw [List.filter_cons_of_pos (by simp [hnull]), huses, List.map_singleton,
        hargs.head (by simpa using hnull), List.map_cons]
      rfl

/-- The arguments from `n` on begin with the values of the data. -/
def Supplies (args : List (Option V)) (n : ℕ) (data : List (GoString × Option V)) : Prop :=
  ∀ k < data.length, args.getD (n + k) none = (data.map Prod.snd).getD k none

theorem Supplies.head {p : GoString × Option V} {data : List (GoString × Option V)} {n : ℕ}
    (h : Supplies args n (p :: data)) : args.getD n none = p.2 := h 0 (Nat.succ_pos _)

theorem Supplies.tail {p : GoString × Option V} {data : List (GoString × Option V)} {n : ℕ}
    (h : Supplies args n (p :: data)) : Supplies args (n + 1) data := by
  intro k hk
  have hnext := h (k + 1) (Nat.succ_lt_succ hk)
  rw [List.map_cons, List.getD_cons_succ] at hnext
  rw [← hnext, Nat.add_assoc, Nat.add_comm 1]

/-- The data as the columns have them. -/
def converted (fold : GoString → GoString) (t : Relation V) (p : GoString × Option V) :
    GoString × Option V :=
  (p.1, p.2.bind (t.kind (fold p.1)).convert)

theorem pairs_of_sets {data : List (GoString × Option V)} {n : ℕ} (h : Supplies args n data)
    (row : Row V) : (itemsFrom (fun _ => 1) (fun n p => Change.set p.1 n) n data).map
      (fun c => (c.column, c.value fold args t row)) = data.map (converted fold t) := by
  induction data generalizing n with
  | nil => rfl
  | cons p data ih =>
    rw [itemsFrom, List.map_cons, ih h.tail, Change.column, Change.value, given, h.head]
    rfl

theorem uses_of_sets {data : List (GoString × Option V)} {n : ℕ} (h : Supplies args n data) :
    ((itemsFrom (fun _ => 1) (fun n p => Change.set p.1 n) n data).map Change.use).map
      (fun p => (p.1, args.getD p.2 none)) = data := by
  induction data generalizing n with
  | nil => rfl
  | cons p data ih =>
    rw [itemsFrom, List.map_cons, List.map_cons, ih h.tail, Change.use, h.head]

theorem pairs_of_columns {data : List (GoString × Option V)} {n : ℕ} (h : Supplies args n data) :
    ((data.map Prod.fst).zip (itemsFrom (fun _ => 1) (fun n _ => n) n data)).map
      (fun p => (p.1, args.getD p.2 none)) = data := by
  induction data generalizing n with
  | nil => rfl
  | cons p data ih =>
    rw [List.map_cons, itemsFrom, List.zip_cons_cons, List.map_cons, ih h.tail, h.head]

theorem nodup_fold_keys (ord : RangeOrder GoString) {data : GoMap GoString (Option V)}
    (hinj : Set.InjOn fold data.keys) : ((ord.keys data.keys).map fold).Nodup := by
  refine (ord.nodup_keys _).map_on fun a ha b hb hab => hinj ?_ ?_ hab
  · exact (ord.mem_keys _ a).mp ha
  · exact (ord.mem_keys _ b).mp hb

theorem isOverwritten_assign (ord : RangeOrder GoString) {data : GoMap GoString (Option V)}
    (hinj : Set.InjOn fold data.keys) (row : Row V) :
    IsOverwritten fold t data row
      (assign fold row ((ord.entries data).map (converted fold t))) := by
  have hfold : (((ord.entries data).map (converted fold t)).map fun p => fold p.1) =
      (ord.keys data.keys).map fold := by
    rw [← ord.map_fst_entries, List.map_map, List.map_map]
    rfl
  have hnodup : (((ord.entries data).map (converted fold t)).map fun p => fold p.1).Nodup := by
    rw [hfold]
    exact nodup_fold_keys ord hinj
  constructor
  · intro key v hkey
    exact assign_of_mem hnodup (List.mem_map_of_mem (ord.mem_entries.mpr hkey)) row
  · intro c hc
    apply assign_of_notMem
    rw [hfold, List.mem_map]
    rintro ⟨key, hkey, rfl⟩
    exact hc key ((ord.mem_keys _ key).mp hkey) rfl

end Meaning

section Statements

variable {fold : GoString → GoString} {isName : GoString → Bool} {t : Relation V}
variable {q : SqlQuery X V} {ord : RangeOrder GoString} {op : SqlOperation V}

theorem SqlQuery.supplies_bindings (q : SqlQuery X V) (ord : RangeOrder GoString)
    (op : SqlOperation V) : Supplies ((q.bindings ord op).map Prod.snd) 0 (op.data ord) := by
  intro k hk
  rw [bindings_values, Nat.zero_add, List.getD_append _ _ _ _ (by simpa using hk)]

theorem SqlQuery.answers_bindings (q : SqlQuery X V) (ord : RangeOrder GoString)
    (op : SqlOperation V) :
    Answers ((q.bindings ord op).map Prod.snd) (op.data ord).length (q.conditions op) := by
  intro k
  rw [bindings_values, List.getD_append_right _ _ _ _ (by simp), List.length_map,
    Nat.add_sub_cancel_left]

theorem SqlQuery.chosen_bindings (hconditions : q.conditions op = q.wheres) {n : ℕ}
    (hn : (op.data ord).length = n) :
    chosen fold ((q.bindings ord op).map Prod.snd) t (testsFrom n q.wheres) =
      q.selects fold t := by
  funext row
  refine chosen_testsFrom ?_ row
  rw [← hn, ← hconditions]
  exact q.answers_bindings ord op

/-- The command uses each argument with the column that it was bound to. -/
theorem SqlQuery.uses_command (q : SqlQuery X V) (ord : RangeOrder GoString)
    (op : SqlOperation V) :
    (q.command ord op).uses.map (fun p => (p.1, ((q.bindings ord op).map Prod.snd).getD p.2 none)) =
      q.bindings ord op := by
  have hsupplies := q.supplies_bindings ord op
  have hanswers := q.answers_bindings ord op
  cases op with
  | insert data => exact (pairs_of_columns hsupplies).trans (List.append_nil _).symm
  | update data =>
    rw [command, Command.uses, List.map_append]
    exact congrArg₂ (· ++ ·) (uses_of_sets hsupplies) (uses_testsFrom hanswers)
  | increment column delta =>
    rw [command, Command.uses, List.map_append]
    refine congrArg₂ (· ++ ·) ?_ (uses_testsFrom hanswers)
    exact congrArg (fun v => [(column, v)]) hsupplies.head
  | delete | first | get | count => exact uses_testsFrom hanswers

theorem SqlQuery.given_delta (q : SqlQuery X V) (ord : RangeOrder GoString) (column : GoString)
    (delta : V) :
    given fold ((q.bindings ord (.increment column delta)).map Prod.snd) t column 0 =
      (t.kind (fold column)).convert delta := by
  rw [given, (q.supplies_bindings ord (.increment column delta)).head, Option.bind_some]

theorem isSome_increased {column : GoString} {delta y : V} {row : Row V}
    (hdelta : (t.kind (fold column)).convert delta = some y) :
    ((row (fold column)).isSome → (increased fold t column delta row).isSome) ↔
      ((row (fold column)).all fun x => ((t.kind (fold column)).add x y).isSome) = true := by
  rw [increased, hdelta]
  cases row (fold column) <;> simp

theorem SqlQuery.sums_iff (h : ∀ b ∈ q.bindings ord op, t.takes fold b = true) :
    (q.command ord op).sums fold ((q.bindings ord op).map Prod.snd) t = true ↔
      ∀ column delta, op = .increment column delta → ∀ row ∈ t.rows, q.selects fold t row = true →
        (row (fold column)).isSome → (increased fold t column delta row).isSome := by
  cases op with
  | increment column delta =>
    have hfirst : (column, some delta) ∈ q.bindings ord (.increment column delta) :=
      List.mem_append_left _ List.mem_cons_self
    obtain ⟨y, hy⟩ := Option.isSome_iff_exists.mp (h _ hfirst)
    have hchosen : chosen fold ((q.bindings ord (.increment column delta)).map Prod.snd) t
        (testsFrom 1 q.wheres) = q.selects fold t := chosen_bindings rfl rfl
    simp only [command, Command.sums, hchosen, List.all_eq_true, List.mem_filter,
      List.forall_mem_singleton, Change.summed, given_delta, hy, Option.all_some]
    constructor
    · intro hsums c v heq row hrow hselects
      obtain ⟨rfl, rfl⟩ := SqlOperation.increment.inj heq
      exact (isSome_increased hy).mpr (hsums row ⟨hrow, hselects⟩)
    · intro hsums row hrow
      exact (isSome_increased hy).mp (hsums column delta rfl row hrow.1 hrow.2)
  | update data =>
    refine ⟨fun _ c v heq => (by cases heq), fun _ => ?_⟩
    exact List.all_eq_true.mpr fun row _ => all_itemsFrom (fun _ _ => rfl) 0 (ord.entries data)
  | insert | delete | first | get | count =>
    exact ⟨fun _ c v heq => (by cases heq), fun _ => rfl⟩

/-- The database accepts the arguments just if they fit. -/
theorem SqlQuery.accepted_iff (q : SqlQuery X V) (ord : RangeOrder GoString)
    (op : SqlOperation V) :
    (q.command ord op).accepted fold ((q.bindings ord op).map Prod.snd) t = true ↔
      op.Fits fold t q ord := by
  rw [Command.accepted, q.uses_command ord op, Bool.and_eq_true, List.all_eq_true]
  constructor
  · rintro ⟨htakes, hsums⟩
    exact ⟨htakes, (SqlQuery.sums_iff htakes).mp hsums⟩
  · intro hfits
    exact ⟨hfits.takes, (SqlQuery.sums_iff hfits.takes).mpr hfits.sums⟩

/-- The command does to the table what the operation means. -/
theorem SqlQuery.means_effect (ord : RangeOrder GoString) (hproper : op.Proper fold)
    (t : Relation V) :
    op.Means fold t q
      ((q.command ord op).effect fold ((q.bindings ord op).map Prod.snd) t) := by
  have hsupplies := q.supplies_bindings ord op
  have hchosen (n : ℕ) (hconditions : q.conditions op = q.wheres)
      (hn : (op.data ord).length = n) :
      chosen fold ((q.bindings ord op).map Prod.snd) t (testsFrom n q.wheres) =
        q.selects fold t := chosen_bindings hconditions hn
  cases op with
  | insert data =>
    have hpairs : (((ord.entries data).map Prod.fst).zip
        (itemsFrom (fun _ => 1) (fun n _ => n) 0 (ord.entries data))).map
          (fun p => (p.1, given fold ((q.bindings ord (.insert data)).map Prod.snd) t p.1 p.2)) =
        (ord.entries data).map (converted fold t) := by
      have hcolumns := congrArg (List.map (converted fold t)) (pairs_of_columns hsupplies)
      rw [List.map_map] at hcolumns
      exact hcolumns
    refine ⟨_, isOverwritten_assign ord hproper.2 t.defaults, ?_⟩
    rw [command, Command.effect, hpairs]
  | update data =>
    refine ⟨_, congrArg₂ Prod.mk (congrArg Answer.affected ?_) rfl, ?_⟩
    · rw [hchosen (ord.entries data).length rfl rfl]
    · rw [List.forall₂_map_right_iff, List.forall₂_same]
      intro row _
      have hpairs : (itemsFrom (fun _ => 1) (fun n p => Change.set p.1 n) 0 (ord.entries data)).map
          (fun c => (c.column, c.value fold
            ((q.bindings ord (.update data)).map Prod.snd) t row)) =
            (ord.entries data).map (converted fold t) :=
        pairs_of_sets hsupplies row
      rw [hchosen (ord.entries data).length rfl rfl, hpairs]
      split_ifs
      · exact isOverwritten_assign ord hproper.2 row
      · rfl
  | increment column delta =>
    rw [command, Command.effect, hchosen 1 rfl rfl]
    simp only [List.map_cons, List.map_nil, Change.column, Change.value, given_delta]
    rfl
  | delete =>
    rw [command, Command.effect, hchosen 0 rfl rfl]
    rfl
  | first =>
    rw [command, Command.effect, hchosen 0 rfl rfl]
    rfl
  | get =>
    rw [command, Command.effect, hchosen 0 rfl rfl]
    rfl
  | count =>
    rw [command, Command.effect, hchosen 0 rfl rfl]
    rfl

theorem SqlQuery.command_table (q : SqlQuery X V) (ord : RangeOrder GoString)
    (op : SqlOperation V) : (q.command ord op).table = q.tableName := by
  cases op <;> rfl

theorem SqlQuery.command_targets (q : SqlQuery X V) (ord : RangeOrder GoString)
    (op : SqlOperation V) : (q.command ord op).targets = (op.data ord).map Prod.fst := by
  cases op with
  | update data =>
    have hcolumn : ∀ (n : ℕ) (p : GoString × Option V), (Change.set p.1 n).column = p.1 :=
      fun _ _ => rfl
    exact map_itemsFrom hcolumn 0 (ord.entries data)
  | _ => rfl

theorem SqlQuery.command_tests (q : SqlQuery X V) (ord : RangeOrder GoString)
    (op : SqlOperation V) :
    (q.command ord op).tests.map Test.column = (q.conditions op).map (·.column) := by
  cases op with
  | insert data => rfl
  | _ => exact columns_testsFrom _ q.wheres

theorem SqlQuery.named_command (hproper : op.Proper fold) (hname : isName q.tableName = true)
    (hnames : ∀ c ∈ q.names ord op, isName c = true) : (q.command ord op).Named isName := by
  obtain ⟨hdata, hconditions⟩ := List.forall_mem_append.mp hnames
  rw [← q.command_targets] at hdata
  rw [← q.command_tests ord, List.forall_mem_map] at hconditions
  have hkeys {data : GoMap GoString (Option V)} (h : data.keys.Nonempty) :
      ord.entries data ≠ [] := by
    obtain ⟨key, hkey⟩ := h
    intro heq
    have hmem : key ∈ (ord.entries data).map Prod.fst := by
      rw [ord.map_fst_entries]
      exact (ord.mem_keys _ key).mpr hkey
    rw [heq] at hmem
    cases hmem
  cases op with
  | insert data =>
    refine ⟨hname, hdata, fun h => hkeys hproper.1 (List.map_eq_nil_iff.mp h), ?_⟩
    rw [List.length_map, length_itemsFrom]
  | update data =>
    refine ⟨hname, List.forall_mem_map.mp hdata, fun h => hkeys hproper.1 ?_, hconditions⟩
    exact itemsFrom_eq_nil.mp h
  | increment column delta =>
    exact ⟨hname, List.forall_mem_map.mp hdata, List.cons_ne_nil _ _, hconditions⟩
  | delete => exact ⟨hname, hconditions⟩
  | first => exact ⟨hname, hconditions⟩
  | get => exact ⟨hname, hconditions⟩
  | count => exact ⟨hname, hconditions⟩

theorem SqlOperation.Proper.nodup (h : op.Proper fold) :
    (((op.data ord).map Prod.fst).map fold).Nodup := by
  have hkeys {data : GoMap GoString (Option V)} (hinj : Set.InjOn fold data.keys) :
      (((ord.entries data).map Prod.fst).map fold).Nodup := by
    rw [ord.map_fst_entries]
    exact nodup_fold_keys ord hinj
  cases op with
  | insert data => exact hkeys h.2
  | update data => exact hkeys h.2
  | increment column delta => exact List.nodup_singleton _
  | delete => exact List.nodup_nil
  | first => exact List.nodup_nil
  | get => exact List.nodup_nil
  | count => exact List.nodup_nil

/-- The statement that an operation executes, run with its arguments by a database of the dialect,
answers what the operation means, and leaves the rows that it means in the table of the query;
if the constraints do not admit these, it fails, as it does if a value does not fit. If nothing
refers to the table, the rows of the others stay. -/
theorem statement_runs_as_meant (aftermath : Aftermath V) (fold : GoString → GoString)
    (isName : GoString → Bool) (q : SqlQuery X V) (ord : RangeOrder GoString) (op : SqlOperation V)
    (s : Statement V) (db : Tables V) (t : Relation V) (hs : q.statement ord op = .ok s)
    (htable : db (fold q.tableName) = some t) (hname : isName q.tableName = true)
    (hnames : ∀ c ∈ q.names ord op, isName c = true)
    (hcolumns : ∀ c ∈ q.names ord op, fold c ∈ t.columns) (hproper : op.Proper fold) :
    (op.Fits fold t q ord → ∃ r, op.Means fold t q r ∧
      run aftermath fold s.args q.dialect.argOf isName s.text db =
        store aftermath fold t db q.tableName r) ∧
    (¬ op.Fits fold t q ord →
      run aftermath fold s.args q.dialect.argOf isName s.text db = .error .value) ∧
    ∀ answer db', run aftermath fold s.args q.dialect.argOf isName s.text db = .ok (answer, db') →
      Unreferenced aftermath (fold q.tableName) → ∀ other ≠ fold q.tableName,
        (db' other).map Relation.rows = (db other).map Relation.rows := by
  obtain ⟨hvalid, rfl⟩ := SqlQuery.statement_eq_ok.mp hs
  obtain ⟨slots, hspells, hmarks, htoks⟩ := SqlQuery.reads_command hvalid
  have hargs : ((q.bindings ord op).map Prod.snd).length = marks slots := by
    rw [List.length_map, hmarks]
  have hnamed := SqlQuery.named_command hproper hname hnames
  have hfound : db (fold (q.command ord op).table) = some t := by
    rw [q.command_table]
    exact htable
  have hrun : run aftermath fold ((q.bindings ord op).map Prod.snd) q.dialect.argOf isName
      (q.dialect.rebind (q.operationText ord op)) db =
      if (q.command ord op).accepted fold ((q.bindings ord op).map Prod.snd) t then
        store aftermath fold t db q.tableName
          ((q.command ord op).effect fold ((q.bindings ord op).map Prod.snd) t)
      else .error .value := by
    rw [run_eq q.dialect.argOf_mark (q.dialect.words_rebind hspells) hspells.unmarked htoks hnamed
      hargs, exec_eq hfound, q.command_table]
    · rw [q.command_targets, q.command_tests]
      exact hcolumns
    · rw [q.command_targets]
      exact hproper.nodup
  refine ⟨fun hfits => ⟨_, SqlQuery.means_effect ord hproper t, ?_⟩, fun hfits => ?_, ?_⟩
  · exact hrun.trans (if_pos (q.accepted_iff ord op |>.mpr hfits))
  · exact hrun.trans (if_neg fun h => hfits (q.accepted_iff ord op |>.mp h))
  · intro answer db' hok hunreferenced other hother
    replace hok := hrun.symm.trans hok
    split_ifs at hok
    exact store_other hok hunreferenced hother

/-- Integers below a bound. -/
def small (bound : ℤ) : Kind ℤ where
  convert a := if a < bound then some a else none
  equal a b := a = b
  less a b := a < b
  add a b := if a + b < bound then some (a + b) else none

/-- Users with a number and a level; the second has neither. -/
def levels : Relation ℤ where
  columns := [lit "id", lit "level"]
  kind _ := small 100
  defaults _ := none
  rows := [fun _ => some 7, fun _ => none]
  admits _ := true

def usersOnly : Tables ℤ := Function.update (fun _ => none) (lit "users") (some levels)

def userSeven : SqlQuery Unit ℤ := ⟨lit "users", [⟨lit "id", .equal, some 7⟩], (), .postgres⟩

theorem userSeven_statement :
    userSeven.statement (.sorted (· ≤ ·)) (.increment (lit "level") 2) =
      .ok ⟨lit "UPDATE users SET level = level + $1 WHERE id = $2", [some 2, some 7]⟩ := by
  have hvalid : userSeven.Valid (.sorted (· ≤ ·)) (.increment (lit "level") 2) :=
    ⟨by decide, List.forall_mem_singleton.mpr (by decide),
      List.forall_mem_singleton.mpr (by decide)⟩
  exact SqlQuery.statement_eq_ok.mpr ⟨hvalid, congrArg₂ Statement.mk (by decide +kernel) rfl⟩

theorem userSeven_fits :
    (SqlOperation.increment (lit "level") 2).Fits id levels userSeven (.sorted (· ≤ ·)) where
  takes := by decide
  sums column delta h row hrow _ hrowSome := by
    obtain ⟨rfl, rfl⟩ := SqlOperation.increment.inj h
    rcases List.mem_cons.mp hrow with rfl | hrow
    · rfl
    · rw [List.mem_singleton.mp hrow] at hrowSome
      cases hrowSome

theorem statement_runs_as_meant_increment : ∃ r,
    (SqlOperation.increment (lit "level") 2).Means id levels userSeven r ∧
      run (fun _ _ after => some after) id [some 2, some 7] userSeven.dialect.argOf validIdentifier
        (lit "UPDATE users SET level = level + $1 WHERE id = $2") usersOnly =
          store (fun _ _ after => some after) id levels usersOnly (lit "users") r := by
  have hcolumns : ∀ c ∈ [lit "level", lit "id"], id c ∈ levels.columns := by decide
  have hnames : ∀ c ∈ [lit "level", lit "id"], validIdentifier c = true := by decide
  exact (statement_runs_as_meant (fun _ _ after => some after) id validIdentifier userSeven
    (.sorted (· ≤ ·)) (.increment (lit "level") 2) _ usersOnly levels userSeven_statement
    (Function.update_self ..) (by decide) hnames hcolumns trivial).1 userSeven_fits

end Statements

end Musgos.Outbound
