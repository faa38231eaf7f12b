import Musgos.Outbound.JsonIntegers
import Musgos.Outbound.QueryAlignment
import Musgos.Outbound.SchemaText

/-!
# Reading a table back

The text of a definition is read in three steps. Each piece of the text adds its tokens; the
tokens of a column or a constraint are one item between the commas; and from an item the reader
gets the column or the constraint back that it was written for.
-/
namespace Musgos.Outbound

open Foundation Lingo
open SqlLexer

section Checked

variable {α ε : Type}

theorem requireThat_ok {c : Bool} {err : SchemaError} : requireThat c err = .ok () ↔ c = true := by
  cases c <;> simp [requireThat]

theorem seq_ok {x y : Except ε Unit} : (x >>= fun _ => y) = .ok () ↔ x = .ok () ∧ y = .ok () := by
  cases x with
  | error e => simp [bind, Except.bind]
  | ok u => exact ⟨fun h => ⟨rfl, h⟩, fun h => h.2⟩

theorem forM_ok {f : α → Except ε Unit} {l : List α} :
    l.forM f = .ok () ↔ ∀ x ∈ l, f x = .ok () := by
  induction l with
  | nil => exact ⟨fun _ _ h => absurd h List.not_mem_nil, fun _ => rfl⟩
  | cons x xs ih =>
    have hfirst : (x :: xs).forM f = (f x >>= fun _ => xs.forM f) := rfl
    rw [hfirst, seq_ok, ih, List.forall_mem_cons]

/-- A definition that passes the checks. -/
structure Table.Valid (t : Table) : Prop where
  names : ∀ w ∈ t.names, validIdentifier w = true
  actions : ∀ fk ∈ t.foreignKeys, fk.onDelete ∈ validOnDelete
  values : ∀ ic ∈ t.inChecks, ic.values ≠ [] ∧ ∀ v ∈ ic.values, validIdentifier v = true

theorem valid_of_checkTable {t : Table} (h : checkTable t = .ok ()) : t.Valid := by
  simp only [checkTable, seq_ok, forM_ok, requireThat_ok, List.forall_mem_cons] at h
  obtain ⟨hname, hcolumns, hkeys, hprimary, honeOf, hranges, hins⟩ := h
  refine ⟨?_, fun fk hfk => by simpa using (hkeys fk hfk).2, fun ic hic => ?_⟩
  · intro w hw
    simp only [Table.names, List.mem_append, List.mem_cons, List.mem_map, List.mem_flatMap,
      List.not_mem_nil, or_false] at hw
    rcases hw with (((((rfl | ⟨col, hcol, rfl⟩) | ⟨fk, hfk, hw⟩) | hw) | hw) | ⟨rc, hrc, rfl⟩) |
      ⟨ic, hic, rfl⟩
    · exact hname
    · exact hcolumns col hcol
    · obtain ⟨⟨hcolumn, hrefTable, hrefCol, -⟩, -⟩ := hkeys fk hfk
      rcases hw with rfl | rfl | rfl
      · exact hcolumn
      · exact hrefTable
      · exact hrefCol
    · exact hprimary w hw
    · exact honeOf w hw
    · exact (hranges rc hrc).1
    · exact (hins ic hic).1
  · obtain ⟨-, hne, hvalues⟩ := hins ic hic
    exact ⟨by simpa using hne, hvalues⟩

end Checked

section Words

theorem phrase_identifier {w : GoString} (h : validIdentifier w = true) : Phrase w [.word w] :=
  have hword := isWord_of_validIdentifier h
  phrase_word hword.1 hword.unbroken

theorem phrase_int (n : ℤ) : Phrase (intText n) [.word (intText n)] := by
  have hdigits := unbroken_decimal n.natAbs
  unfold intText
  split_ifs
  · refine phrase_word (List.append_ne_nil_of_left_ne_nil (by decide) _)
      (List.forall_mem_append.mpr ⟨fun x hx => ?_, hdigits⟩)
    rw [List.mem_singleton.mp hx]
    decide
  · exact phrase_word (decimal_ne_nil _) hdigits

theorem phrase_value {v : GoString} (h : validIdentifier v = true) :
    Phrase (lit "'" ++ v ++ lit "'") [.literal v] := by
  refine phrase_quoted (isWord_of_validIdentifier h).unbroken fun hzero => ?_
  have hbyte := isIdentifierByte_of_mem h hzero
  cases hbyte

theorem phrase_sqlLiteral {s : GoString} (hzero : 0 ∉ s) : Phrase (sqlLiteral s) [.literal s] :=
  phrase_literal hzero

theorem parseInt_intText {n : ℤ} (hlow : -2 ^ 63 ≤ n) (hhigh : n < 2 ^ 63) :
    parseInt (intText n) = some n := by
  unfold intText
  split_ifs with hneg
  · have htext : lit "-" ++ decimal n.natAbs = 45 :: decimal n.natAbs := rfl
    have hfits : n.natAbs ≤ 2 ^ 63 := by omega
    have hvalue : -(n.natAbs : ℤ) = n := by omega
    rw [htext, parseInt, digitsValue_decimal, Option.bind_some, if_pos hfits, hvalue]
  · have hfits : n.natAbs < 2 ^ 63 := by omega
    have hvalue : (n.natAbs : ℤ) = n := by omega
    have hvalues := digitsValue_decimal n.natAbs
    obtain ⟨d, ds, hd⟩ := List.exists_cons_of_ne_nil (decimal_ne_nil n.natAbs)
    have hdigit := digits_decimal n.natAbs d (by rw [hd]; exact List.mem_cons_self)
    have hminus : d ≠ 45 := by
      rintro rfl
      simp at hdigit
    have hplus : d ≠ 43 := by
      rintro rfl
      simp at hdigit
    rw [hd] at hvalues ⊢
    unfold parseInt
    split
    · next heq => exact absurd (List.cons.inj heq).1 hminus
    · next heq => exact absurd (List.cons.inj heq).1 hplus
    · rw [hvalues, Option.bind_some, if_pos hfits, hvalue]

theorem readInt_intText (n : Int64) (rest : List Tok) :
    readInt (.word (intText n.toInt) :: rest) = some (n, rest) := by
  rw [readInt, parseInt_intText n.le_toInt n.toInt_lt, Option.map_some, Int64.ofInt_toInt]

end Words

/-! The tokens of a column and of a constraint. -/
section Tokens

def Dialect.autoIncrToks : Dialect → List Tok
  | .sqlite => keywords [lit "INTEGER", lit "PRIMARY", lit "KEY", lit "AUTOINCREMENT"]
  | .postgres => keywords [lit "BIGSERIAL", lit "PRIMARY", lit "KEY"]

def Dialect.defaultToks (d : Dialect) : ColumnDefault → List Tok
  | .now => d.nowToks
  | .literal (.text s) => [.literal s]
  | .literal (.int n) => [.word (intText n.toInt)]
  | .none => []

def columnToks (d : Dialect) (composite : Bool) (col : Column) : List Tok :=
  [Tok.word col.name] ++
  (if col.autoPK composite then d.autoIncrToks
   else [Tok.word (d.columnType col.type)] ++
    (if col.isPK && !composite then keywords [lit "PRIMARY", lit "KEY"] else []) ++
    (if col.isNotNull then keywords [lit "NOT", lit "NULL"] else [])) ++
  (if col.isUnique then keywords [lit "UNIQUE"] else []) ++
  (if col.default ≠ .none then keywords [lit "DEFAULT"] ++ d.defaultToks col.default else [])

def notNullToks (column : GoString) : List Tok :=
  keywords [column, lit "IS", lit "NOT", lit "NULL"]

/-- The clause of an action, of one word or two. -/
def onDeleteToks (action : GoString) : List Tok :=
  if action ≠ [] then keywords ([lit "ON", lit "DELETE"] ++ action.splitOn 32) else []

def Constraint.toks : Constraint → List Tok
  | .primaryKey columns =>
    keywords [lit "PRIMARY", lit "KEY"] ++ listToks (columns.map fun c => [.word c])
  | .foreignKey fk =>
    keywords [lit "FOREIGN", lit "KEY"] ++ listToks [[.word fk.column]] ++
      keywords [lit "REFERENCES", fk.refTable] ++ listToks [[.word fk.refCol]] ++
      onDeleteToks fk.onDelete
  | .requireOneOf columns =>
    keywords [lit "CHECK"] ++
      (.opening :: (separate (.word (lit "OR")) (columns.map notNullToks) ++ [Tok.closing]))
  | .range rc =>
    keywords [lit "CHECK"] ++
      (.opening :: (keywords [rc.column, lit "BETWEEN", intText rc.min.toInt, lit "AND",
        intText rc.max.toInt] ++ [Tok.closing]))
  | .oneOf ic =>
    keywords [lit "CHECK"] ++
      (.opening :: (keywords [ic.column, lit "IN"] ++
        listToks (ic.values.map fun v => [.literal v]) ++ [Tok.closing]))

end Tokens

section Spelled

theorem phrase_defaultSQL (d : Dialect) {default : ColumnDefault}
    (hzero : ∀ s, default = .literal (.text s) → 0 ∉ s) :
    Phrase (d.defaultSQL default) (d.defaultToks default) := by
  cases default with
  | none => exact tail_nil.toPhrase
  | now => cases d <;> exact ⟨rfl, rfl⟩
  | literal v =>
    cases v with
    | text s => exact phrase_sqlLiteral (hzero s rfl)
    | int n => exact phrase_int n.toInt

theorem tail_type (d : Dialect) (type : ColumnType) :
    Tail (lit " " ++ d.columnType type) [Tok.word (d.columnType type)] := by
  cases d <;> cases type <;> exact tail_of_lex rfl rfl rfl

theorem tail_autoIncr (d : Dialect) : Tail (lit " " ++ d.autoIncrPKSQL) d.autoIncrToks := by
  cases d <;> exact tail_of_lex rfl rfl rfl

theorem phrase_columnText (d : Dialect) (composite : Bool) {col : Column}
    (hname : validIdentifier col.name = true)
    (hzero : ∀ s, col.default = .literal (.text s) → 0 ∉ s) :
    Phrase (columnText d composite col) (columnToks d composite col) := by
  have hprimary : Tail (lit " PRIMARY KEY") (keywords [lit "PRIMARY", lit "KEY"]) :=
    tail_of_lex rfl rfl rfl
  have hnotNull : Tail (lit " NOT NULL") (keywords [lit "NOT", lit "NULL"]) :=
    tail_of_lex rfl rfl rfl
  have hunique : Tail (lit " UNIQUE") (keywords [lit "UNIQUE"]) := tail_of_lex rfl rfl rfl
  have hdefault : Lead (lit " DEFAULT ") (keywords [lit "DEFAULT"]) :=
    lead_of_lex rfl rfl rfl rfl
  refine (((phrase_identifier hname).append (Tail.ite (tail_autoIncr d) ?_)).append ?_).append ?_
  · exact ((tail_type d col.type).append (hprimary.ite tail_nil)).append
      (hnotNull.ite tail_nil)
  · exact hunique.ite tail_nil
  · exact (hdefault.append (phrase_defaultSQL d hzero)).ite tail_nil

/-- A name that the checks accept and the reader takes for one. -/
def IsName (w : GoString) : Prop := validIdentifier w = true ∧ isReserved w = false

/-- A constraint of a definition that passes the checks. -/
inductive Constraint.Proper : Constraint → Prop
  | primaryKey {columns : List GoString} (hne : columns ≠ []) (h : ∀ w ∈ columns, IsName w) :
    Proper (.primaryKey columns)
  | foreignKey {fk : ForeignKey} (hcolumn : IsName fk.column) (htable : IsName fk.refTable)
    (href : IsName fk.refCol) (haction : fk.onDelete ∈ validOnDelete) : Proper (.foreignKey fk)
  | requireOneOf {columns : List GoString} (hne : columns ≠ []) (h : ∀ w ∈ columns, IsName w) :
    Proper (.requireOneOf columns)
  | range {rc : RangeCheck} (h : IsName rc.column) : Proper (.range rc)
  | oneOf {ic : InCheck} (h : IsName ic.column) (hne : ic.values ≠ [])
    (hvalues : ∀ v ∈ ic.values, validIdentifier v = true) : Proper (.oneOf ic)

theorem tail_closing : Tail (lit ")") [Tok.closing] := tail_of_lex rfl rfl rfl

theorem lead_comma : Lead (lit ", ") [Tok.comma] := lead_of_lex rfl rfl rfl rfl

theorem phrase_names {names : List GoString} (h : ∀ w ∈ names, IsName w) :
    Phrase ((lit ", ").intercalate names) (separate .comma (names.map fun w => [.word w])) := by
  have hwords := phrase_intercalate lead_comma id (fun w => [.word w])
    fun w hw => phrase_identifier (h w hw).1
  rw [List.map_id] at hwords
  exact hwords

theorem tail_onDelete {action : GoString} (h : action ∈ validOnDelete) :
    Tail (if action ≠ [] then lit " ON DELETE " ++ action else [])
      (onDeleteToks action) := by
  simp only [validOnDelete, List.mem_cons, List.not_mem_nil, or_false] at h
  rcases h with rfl | rfl | rfl | rfl | rfl | rfl
  · exact tail_nil
  all_goals exact tail_of_lex rfl rfl rfl

theorem quoted_intercalate {values : List GoString} (hne : values ≠ []) :
    lit "'" ++ (lit "', '").intercalate values ++ lit "'" =
      (lit ", ").intercalate (values.map fun v => lit "'" ++ v ++ lit "'") := by
  induction values with
  | nil => exact absurd rfl hne
  | cons v values ih =>
    cases values with
    | nil => rw [List.map_singleton, List.intercalate_singleton, List.intercalate_singleton]
    | cons u values =>
      have hsep : lit "', '" = lit "'" ++ (lit ", " ++ lit "'") := rfl
      have hrest := ih (List.cons_ne_nil u values)
      rw [List.map_cons] at hrest
      rw [List.map_cons, List.map_cons, List.intercalate_cons_cons, List.intercalate_cons_cons,
        ← hrest, hsep]
      simp only [List.append_assoc]

theorem tail_values {values : List GoString} (hne : values ≠ [])
    (h : ∀ v ∈ values, validIdentifier v = true) :
    Tail (lit " IN ('" ++ (lit "', '").intercalate values ++ lit "'))")
      (keywords [lit "IN"] ++ listToks (values.map fun v => [.literal v]) ++ [Tok.closing]) := by
  have hin : Lead (lit " IN (") (keywords [lit "IN"] ++ [Tok.opening]) :=
    lead_of_lex rfl rfl rfl rfl
  have hclose : Tail (lit "))") [Tok.closing, Tok.closing] := tail_of_lex rfl rfl rfl
  have hvalues := phrase_intercalate lead_comma (fun v => lit "'" ++ v ++ lit "'")
    (fun v => [.literal v]) fun v hv => phrase_value (h v hv)
  have htext : lit " IN ('" ++ (lit "', '").intercalate values ++ lit "'))" =
      lit " IN (" ++ ((lit ", ").intercalate (values.map fun v => lit "'" ++ v ++ lit "'") ++
        lit "))") := by
    have hopens : lit " IN ('" = lit " IN (" ++ lit "'" := rfl
    have hcloses : lit "'))" = lit "'" ++ lit "))" := rfl
    rw [← quoted_intercalate hne, hopens, hcloses]
    simp only [List.append_assoc]
  have htoks : keywords [lit "IN"] ++ listToks (values.map fun v => [.literal v]) ++
      [Tok.closing] = keywords [lit "IN"] ++ [Tok.opening] ++
        ([Tok.comma].intercalate (values.map fun v => [.literal v]) ++
          [Tok.closing, Tok.closing]) := by
    simp [listToks, separate]
  rw [htext, htoks]
  exact hin.append (hvalues.append hclose)

theorem phrase_constraint {c : Constraint} (h : c.Proper) : Phrase c.text c.toks := by
  have hcheck : Head (lit "CHECK (") (keywords [lit "CHECK"] ++ [Tok.opening]) :=
    head_of_lex rfl rfl rfl
  cases h with
  | primaryKey hne hcolumns =>
    have hkey : Head (lit "PRIMARY KEY (") (keywords [lit "PRIMARY", lit "KEY"] ++ [Tok.opening]) :=
      head_of_lex rfl rfl rfl
    exact (hkey.append (phrase_names hcolumns)).append tail_closing
  | foreignKey hcolumn htable href haction =>
    have hkey : Head (lit "FOREIGN KEY (") (keywords [lit "FOREIGN", lit "KEY"] ++ [Tok.opening]) :=
      head_of_lex rfl rfl rfl
    have hreferences : Lead (lit ") REFERENCES ") (.closing :: keywords [lit "REFERENCES"]) :=
      lead_of_lex rfl rfl rfl rfl
    have hopening : Lead (lit "(") [Tok.opening] := lead_of_lex rfl rfl rfl rfl
    exact ((((hkey.append (phrase_identifier hcolumn.1)).append
      (hreferences.append (phrase_identifier htable.1))).append
      (hopening.append (phrase_identifier href.1))).append tail_closing).append
      (tail_onDelete haction)
  | @requireOneOf columns hne hcolumns =>
    have hor : Lead (lit " OR ") (keywords [lit "OR"]) := lead_of_lex rfl rfl rfl rfl
    have hnull : Tail (lit " IS NOT NULL") (keywords [lit "IS", lit "NOT", lit "NULL"]) :=
      tail_of_lex rfl rfl rfl
    have hlist := phrase_intercalate hor (· ++ lit " IS NOT NULL") notNullToks
      fun w hw => (phrase_identifier (hcolumns w hw).1).append hnull
    exact (hcheck.append hlist).append tail_closing
  | range hcolumn =>
    have hbetween : Lead (lit " BETWEEN ") (keywords [lit "BETWEEN"]) :=
      lead_of_lex rfl rfl rfl rfl
    have hand : Lead (lit " AND ") (keywords [lit "AND"]) := lead_of_lex rfl rfl rfl rfl
    exact (((hcheck.append (phrase_identifier hcolumn.1)).append
      (hbetween.append (phrase_int _))).append (hand.append (phrase_int _))).append tail_closing
  | @oneOf ic hcolumn hne hvalues =>
    exact (hcheck.append (phrase_identifier hcolumn.1)).append (tail_values hne hvalues)

end Spelled

section Wholes

variable {depth : ℕ}

theorem whole_defaultToks (d : Dialect) (default : ColumnDefault) :
    Whole depth (d.defaultToks default) := by
  cases default with
  | none => exact whole_nil
  | now =>
    cases d with
    | sqlite =>
      have hcall : Whole (depth + 1) (Tok.opening :: [Tok.literal (lit "now")] ++ [Tok.closing]) :=
        Whole.bracket (whole_literal _)
      exact Whole.bracket ((whole_word _).cons hcall)
    | postgres => exact (whole_word _).cons (Whole.bracket whole_nil)
  | literal v =>
    cases v with
    | text s => exact whole_literal s
    | int n => exact whole_word _

theorem whole_columnToks (d : Dialect) (composite : Bool) (col : Column) :
    Whole depth (columnToks d composite col) := by
  have hnil : Whole depth [] := whole_nil
  refine (((whole_keywords [col.name]).append (Whole.ite ?_ ?_)).append ?_).append ?_
  · cases d <;> exact whole_keywords _
  · exact ((whole_keywords [d.columnType col.type]).append
      ((whole_keywords _).ite hnil)).append ((whole_keywords _).ite hnil)
  · exact (whole_keywords _).ite hnil
  · exact ((whole_keywords _).append (whole_defaultToks d _)).ite hnil

theorem whole_each {α : Type} {write : α → List Tok} (h : ∀ a, Whole depth (write a))
    (as : List α) : ∀ p ∈ as.map write, Whole depth p := by
  intro p hp
  obtain ⟨a, -, rfl⟩ := List.mem_map.mp hp
  exact h a

theorem whole_constraint (c : Constraint) : Whole depth c.toks := by
  cases c with
  | primaryKey columns =>
    exact (whole_keywords _).append (whole_listToks (whole_each whole_word columns))
  | foreignKey fk =>
    exact ((((whole_keywords _).append (whole_listToks (whole_each whole_word [fk.column]))).append
      (whole_keywords _)).append (whole_listToks (whole_each whole_word [fk.refCol]))).append
      ((whole_keywords _).ite whole_nil)
  | requireOneOf columns =>
    exact (whole_keywords _).append (Whole.bracket (whole_separate (whole_word _)
      (whole_each (fun _ => whole_keywords _) columns)))
  | range rc => exact (whole_keywords _).append (Whole.bracket (whole_keywords _))
  | oneOf ic =>
    exact (whole_keywords _).append (Whole.bracket ((whole_keywords _).append
      (whole_listToks (whole_each whole_literal ic.values))))

end Wholes

section ReadBack

theorem readName_of_isName {w : GoString} (h : IsName w) (rest : List Tok) :
    readName isSqlName (.word w :: rest) = some (w, rest) :=
  readName_cons (by simp [isSqlName, h.1, h.2]) rest

theorem ne_of_isName {w k : GoString} (h : IsName w) (hk : isReserved k = true) : k ≠ w := by
  rintro rfl
  rw [h.2] at hk
  cases hk

theorem mapM_map_some {α β γ : Type} {f : β → Option γ} {g : α → β} {value : α → γ} {l : List α}
    (h : ∀ x ∈ l, f (g x) = some (value x)) : (l.map g).mapM f = some (l.map value) := by
  induction l with
  | nil => rfl
  | cons x xs ih =>
    obtain ⟨hx, hxs⟩ := List.forall_mem_cons.mp h
    rw [List.map_cons, List.mapM_cons, hx, ih hxs]
    rfl

section Columns

variable (d : Dialect)

theorem readType_columnType (type : ColumnType) (rest : List Tok) :
    d.readType (.word (d.columnType type) :: rest) = some ((d.kept type, false), rest) := by
  cases d <;> cases type <;> rfl

def defaultClause (default : ColumnDefault) : List Tok :=
  if default ≠ .none then keywords [lit "DEFAULT"] ++ d.defaultToks default else []

theorem readDefault_clause (default : ColumnDefault) :
    d.readDefault (defaultClause d default) = some default := by
  cases default with
  | none => rfl
  | now => cases d <;> rfl
  | literal v =>
    have hvalue : readValue (d.defaultToks (.literal v)) = some v := by
      cases v with
      | text s => rfl
      | int n =>
        rw [Dialect.defaultToks, readValue, parseInt_intText n.le_toInt n.toInt_lt]
        simp
    have hnow : d.defaultToks (.literal v) ≠ d.nowToks := by
      cases d <;> cases v <;> simp [Dialect.defaultToks, Dialect.nowToks]
    have hclause : defaultClause d (.literal v) =
        keywords [lit "DEFAULT"] ++ d.defaultToks (.literal v) := rfl
    rw [hclause, Dialect.readDefault, if_neg (by simp [keywords]), expect_append,
      Option.bind_eq_bind, Option.bind_some, if_neg hnow, hvalue]
    rfl

/-- Each clause is there or not, and no clause is taken for another. -/
theorem readClauses_eq (name : GoString) (type : ColumnType × Bool)
    (isPK counts isNotNull isUnique : Bool) (default : ColumnDefault) :
    d.readClauses name type
      ((if isPK then keywords [lit "PRIMARY", lit "KEY"] else []) ++
        (if counts then keywords [lit "AUTOINCREMENT"] else []) ++
        (if isNotNull then keywords [lit "NOT", lit "NULL"] else []) ++
        (if isUnique then keywords [lit "UNIQUE"] else []) ++ defaultClause d default) =
      some { name := name, type := type.1, isNotNull := isNotNull, isUnique := isUnique
             isPK := isPK, isAutoIncr := type.2 || counts, default := default } := by
  have hdefault := readDefault_clause d default
  have hclause : defaultClause d default = [] ∨
      ∃ rest, defaultClause d default = .word (lit "DEFAULT") :: rest := by
    unfold defaultClause
    split_ifs
    · exact .inr ⟨_, rfl⟩
    · exact .inl rfl
  have hskipped : d.readClauses name type
      ((if isPK then keywords [lit "PRIMARY", lit "KEY"] else []) ++
        (if counts then keywords [lit "AUTOINCREMENT"] else []) ++
        (if isNotNull then keywords [lit "NOT", lit "NULL"] else []) ++
        (if isUnique then keywords [lit "UNIQUE"] else []) ++ defaultClause d default) =
      (d.readDefault (defaultClause d default)).map fun default =>
        { name := name, type := type.1, isNotNull := isNotNull, isUnique := isUnique
          isPK := isPK, isAutoIncr := type.2 || counts, default := default } := by
    rcases hclause with h | ⟨rest, h⟩ <;> rw [h] <;> cases isPK <;> cases counts <;>
      cases isNotNull <;> cases isUnique <;> rfl
  rw [hskipped, hdefault, Option.map_some]

theorem readColumn_cons {name : GoString} (hname : IsName name) (toks : List Tok) :
    d.readColumn (.word name :: toks) =
      (d.readType toks).bind fun r => d.readClauses name r.1 r.2 := by
  rw [Dialect.readColumn, readName_of_isName hname]
  rfl

theorem readColumn_columnToks (composite : Bool) {col : Column} (hname : IsName col.name) :
    d.readColumn (columnToks d composite col) = some (col.written d composite) := by
  have htoks : columnToks d composite col = .word col.name ::
      ((if col.autoPK composite then d.autoIncrToks
        else [Tok.word (d.columnType col.type)] ++
          (if col.isPK && !composite then keywords [lit "PRIMARY", lit "KEY"] else []) ++
          (if col.isNotNull then keywords [lit "NOT", lit "NULL"] else [])) ++
        (if col.isUnique then keywords [lit "UNIQUE"] else []) ++ defaultClause d col.default) :=
    rfl
  rw [htoks, readColumn_cons d hname]
  by_cases hauto : col.autoPK composite = true
  · have hkey : (col.isPK && !composite) = true := by
      simp only [Column.autoPK, Bool.and_eq_true] at hauto ⊢
      exact ⟨hauto.1.1, hauto.2⟩
    rw [if_pos hauto]
    cases d with
    | sqlite =>
      refine (readClauses_eq .sqlite col.name (.integer, false) true true false col.isUnique
        col.default).trans ?_
      simp [Column.written, hauto, hkey]
    | postgres =>
      refine (readClauses_eq .postgres col.name (.integer, true) true false false col.isUnique
        col.default).trans ?_
      simp [Column.written, hauto, hkey]
  · have hclauses := readClauses_eq d col.name (d.kept col.type, false) (col.isPK && !composite)
      false col.isNotNull col.isUnique col.default
    have hwritten : col.written d composite =
        { name := col.name, type := d.kept col.type, isNotNull := col.isNotNull
          isUnique := col.isUnique, isPK := col.isPK && !composite, isAutoIncr := false || false
          default := col.default } := by
      simp [Column.written, hauto]
    rw [if_neg hauto, List.append_assoc, List.append_assoc, List.append_assoc,
      List.singleton_append, readType_columnType, Option.bind_some, hwritten]
    simpa only [Bool.false_eq_true, if_false, List.append_nil, List.append_assoc] using hclauses

end Columns

section Constraints

variable {v : GoString}

theorem readPrimaryKey_of_ne (h : lit "PRIMARY" ≠ v) (rest : List Tok) :
    readPrimaryKey (.word v :: rest) = none := by
  rw [readPrimaryKey, expect_keywords_of_ne h]
  rfl

theorem readForeignKey_of_ne (h : lit "FOREIGN" ≠ v) (rest : List Tok) :
    readForeignKey (.word v :: rest) = none := by
  rw [readForeignKey, expect_keywords_of_ne h]
  rfl

theorem readCheck_of_ne (h : lit "CHECK" ≠ v) (rest : List Tok) :
    readCheck (.word v :: rest) = none := by
  rw [readCheck, expect_keywords_of_ne h]
  rfl

theorem readRange_of_ne {c : GoString} (hc : IsName c) (h : lit "BETWEEN" ≠ v) (rest : List Tok) :
    readRange (.word c :: .word v :: rest) = none := by
  simp only [readRange, readName_of_isName hc, expect_keywords_of_ne h,
    Option.bind_eq_bind, Option.bind_some, Option.bind_none]

theorem readOneOf_of_ne {c : GoString} (hc : IsName c) (h : lit "IN" ≠ v) (rest : List Tok) :
    readOneOf (.word c :: .word v :: rest) = none := by
  simp only [readOneOf, readName_of_isName hc, expect_keywords_of_ne h,
    Option.bind_eq_bind, Option.bind_some, Option.bind_none]

theorem readItem_column (d : Dialect) (composite : Bool) {col : Column} (hname : IsName col.name) :
    d.readItem (columnToks d composite col) = some (.column (col.written d composite)) := by
  have htoks : columnToks d composite col =
      .word col.name :: (columnToks d composite col).tail := rfl
  rw [Dialect.readItem, readColumn_columnToks d composite hname, htoks,
    readPrimaryKey_of_ne (ne_of_isName hname rfl), readForeignKey_of_ne (ne_of_isName hname rfl),
    readCheck_of_ne (ne_of_isName hname rfl)]
  rfl

theorem readOnDelete_action {action : GoString} (h : action ∈ validOnDelete) :
    readOnDelete (onDeleteToks action) = some action := by
  simp only [validOnDelete, List.mem_cons, List.not_mem_nil, or_false] at h
  rcases h with rfl | rfl | rfl | rfl | rfl | rfl <;> rfl

theorem readPrimaryKey_columns {columns : List GoString} (hne : columns ≠ [])
    (h : ∀ w ∈ columns, IsName w) :
    readPrimaryKey (Constraint.primaryKey columns).toks = some (.primaryKey columns) := by
  have hlist := readList_listToks (readName isSqlName) (fun c => [.word c]) []
    (fun c hc rest => readName_of_isName (h c hc) rest) hne
  rw [List.append_nil] at hlist
  simp only [readPrimaryKey, Constraint.toks, expect_append, hlist, finish,
    Option.bind_eq_bind, Option.bind_some, if_true]

theorem readForeignKey_eq {fk : ForeignKey} (hcolumn : IsName fk.column)
    (htable : IsName fk.refTable) (href : IsName fk.refCol)
    (haction : fk.onDelete ∈ validOnDelete) :
    readForeignKey (Constraint.foreignKey fk).toks = some (.foreignKey fk) := by
  simp only [readForeignKey, Constraint.toks, keywords, listToks, separate, List.map_cons,
    List.map_nil, List.intercalate_singleton, List.cons_append, List.nil_append,
    expect_cons, expect_nil, Option.bind_eq_bind, Option.bind_some,
    readName_of_isName hcolumn, readName_of_isName htable, readName_of_isName href,
    readOnDelete_action haction]
  rfl

theorem readRange_append {rc : RangeCheck} (h : IsName rc.column) (rest : List Tok) :
    readRange (keywords [rc.column, lit "BETWEEN", intText rc.min.toInt, lit "AND",
      intText rc.max.toInt] ++ rest) = some (.range rc, rest) := by
  simp only [readRange, keywords, List.map_cons, List.map_nil, List.cons_append, List.nil_append,
    readName_of_isName h, expect_cons, expect_nil, readInt_intText,
    Option.bind_eq_bind, Option.bind_some]
  rfl

theorem readOneOf_append {ic : InCheck} (h : IsName ic.column) (hne : ic.values ≠ [])
    (rest : List Tok) :
    readOneOf (keywords [ic.column, lit "IN"] ++
      listToks (ic.values.map fun v => [.literal v]) ++ rest) = some (.oneOf ic, rest) := by
  have hlist := readList_listToks readLiteral (fun v => [.literal v]) rest
    (fun v _ rest => rfl) hne
  simp only [readOneOf, keywords, List.map_cons, List.map_nil, List.cons_append, List.nil_append,
    readName_of_isName h, expect_cons, expect_nil, hlist, Option.bind_eq_bind,
    Option.bind_some]
  rfl

theorem readNotNull_append {c : GoString} (h : IsName c) (rest : List Tok) :
    readNotNull (notNullToks c ++ rest) = some (c, rest) := by
  simp only [readNotNull, notNullToks, keywords, List.map_cons, List.map_nil, List.cons_append,
    List.nil_append, readName_of_isName h, expect_cons, expect_nil,
    Option.bind_eq_bind, Option.bind_some]
  rfl

theorem readRequireOneOf_append {columns : List GoString} (hne : columns ≠ [])
    (h : ∀ w ∈ columns, IsName w) (rest : List Tok) (hrest : rest.head? ≠ some (.word (lit "OR"))) :
    readRequireOneOf (separate (.word (lit "OR")) (columns.map notNullToks) ++ rest) =
      some (.requireOneOf columns, rest) := by
  rw [readRequireOneOf, readSeparated_separate readNotNull (.word (lit "OR")) notNullToks
    rest (fun c hc => readNotNull_append (h c hc)) hne hrest]
  rfl

/-- What is checked, before the bracket that closes. -/
theorem readCheck_condition {condition : List Tok} {c : Constraint}
    (h : (readRange (condition ++ [Tok.closing]) <|> readOneOf (condition ++ [Tok.closing]) <|>
      readRequireOneOf (condition ++ [Tok.closing])) = some (c, [Tok.closing])) :
    readCheck (keywords [lit "CHECK"] ++ (.opening :: (condition ++ [Tok.closing]))) = some c := by
  simp only [readCheck, expect_append, expect_cons, expect_nil, h,
    finish, Option.bind_eq_bind, Option.bind_some, if_true]

theorem readCheck_oneOf {ic : InCheck} (h : IsName ic.column) (hne : ic.values ≠ []) :
    readCheck (Constraint.oneOf ic).toks = some (.oneOf ic) := by
  apply readCheck_condition
  rw [readOneOf_append h hne, keywords, List.map_cons, List.map_cons, List.cons_append,
    List.cons_append, List.cons_append, List.cons_append, readRange_of_ne h (by decide)]
  rfl

theorem readCheck_requireOneOf {columns : List GoString} (hne : columns ≠ [])
    (h : ∀ w ∈ columns, IsName w) :
    readCheck (Constraint.requireOneOf columns).toks = some (.requireOneOf columns) := by
  apply readCheck_condition
  rw [readRequireOneOf_append hne h _ (by simp)]
  obtain ⟨c, columns, rfl⟩ := List.exists_cons_of_ne_nil hne
  have hfirst : ∃ toks, separate (.word (lit "OR")) ((c :: columns).map notNullToks) =
      .word c :: .word (lit "IS") :: toks := by
    cases columns with
    | nil => exact ⟨keywords [lit "NOT", lit "NULL"], by simp [separate, notNullToks, keywords]⟩
    | cons e columns =>
      exact ⟨keywords [lit "NOT", lit "NULL"] ++ .word (lit "OR") ::
        separate (.word (lit "OR")) ((e :: columns).map notNullToks),
        by simp [separate, notNullToks, keywords, List.intercalate_cons_cons]⟩
  obtain ⟨toks, htoks⟩ := hfirst
  have hc : IsName c := h c List.mem_cons_self
  rw [htoks, List.cons_append, List.cons_append, readRange_of_ne hc (by decide),
    readOneOf_of_ne hc (by decide)]
  rfl

theorem readItem_constraint (d : Dialect) {c : Constraint} (h : c.Proper) :
    d.readItem c.toks = some (.constraint c) := by
  have hcheck : ∀ {toks : List Tok} {c : Constraint},
      readCheck (keywords [lit "CHECK"] ++ toks) = some c →
      d.readItem (keywords [lit "CHECK"] ++ toks) = some (.constraint c) := by
    intro toks c hread
    rw [Dialect.readItem, hread, keywords, List.map_cons, List.cons_append,
      readPrimaryKey_of_ne (by decide), readForeignKey_of_ne (by decide)]
    rfl
  cases h with
  | primaryKey hne hcolumns =>
    rw [Dialect.readItem, readPrimaryKey_columns hne hcolumns]
    rfl
  | @foreignKey fk hcolumn htable href haction =>
    have hprimary : readPrimaryKey (Constraint.foreignKey fk).toks = none :=
      readPrimaryKey_of_ne (by decide) _
    rw [Dialect.readItem, hprimary, readForeignKey_eq hcolumn htable href haction]
    rfl
  | requireOneOf hne hcolumns => exact hcheck (readCheck_requireOneOf hne hcolumns)
  | range hcolumn =>
    refine hcheck (readCheck_condition ?_)
    rw [readRange_append hcolumn]
    rfl
  | oneOf hcolumn hne hvalues => exact hcheck (readCheck_oneOf hcolumn hne)

end Constraints

end ReadBack

section Statement

variable {d : Dialect} {t : Table}

theorem Table.name_mem_names (t : Table) {col : Column} (h : col ∈ t.columns) :
    col.name ∈ t.names := by
  simp only [Table.names, List.mem_append, List.mem_cons, List.mem_map]
  exact .inl (.inl (.inl (.inl (.inl (.inr ⟨col, h, rfl⟩)))))

theorem proper_of_mem_constraints (hvalid : t.Valid)
    (hfree : ∀ w ∈ t.names, isReserved w = false) {c : Constraint} (hc : c ∈ t.constraints) :
    c.Proper := by
  have hname : ∀ w ∈ t.names, IsName w := fun w hw => ⟨hvalid.names w hw, hfree w hw⟩
  have hmem : ∀ w, w ∈ t.names ↔ w = t.name ∨ (∃ col ∈ t.columns, col.name = w) ∨
      (∃ fk ∈ t.foreignKeys, w = fk.column ∨ w = fk.refTable ∨ w = fk.refCol) ∨
      w ∈ t.primaryKeys ∨ w ∈ t.requireOneOf ∨ (∃ rc ∈ t.rangeChecks, rc.column = w) ∨
      ∃ ic ∈ t.inChecks, ic.column = w := by
    intro w
    simp [Table.names]
  simp only [Table.constraints, List.mem_append, List.mem_map, List.mem_ite_nil_right,
    List.mem_singleton] at hc
  rcases hc with (((⟨hne, rfl⟩ | ⟨fk, hfk, rfl⟩) | ⟨hne, rfl⟩) | ⟨rc, hrc, rfl⟩) | ⟨ic, hic, rfl⟩
  · refine .primaryKey (by simpa [Table.composite] using hne) fun w hw => hname w ?_
    exact (hmem w).mpr (by simp [hw])
  · have hkey : ∀ w, w = fk.column ∨ w = fk.refTable ∨ w = fk.refCol → IsName w :=
      fun w hw => hname w ((hmem w).mpr (.inr (.inr (.inl ⟨fk, hfk, hw⟩))))
    exact .foreignKey (hkey _ (by simp)) (hkey _ (by simp)) (hkey _ (by simp))
      (hvalid.actions fk hfk)
  · refine .requireOneOf hne fun w hw => hname w ?_
    exact (hmem w).mpr (by simp [hw])
  · refine .range (hname _ ((hmem _).mpr ?_))
    exact .inr (.inr (.inr (.inr (.inr (.inl ⟨rc, hrc, rfl⟩)))))
  · obtain ⟨hne, hvalues⟩ := hvalid.values ic hic
    refine .oneOf (hname _ ((hmem _).mpr ?_)) hne hvalues
    exact .inr (.inr (.inr (.inr (.inr (.inr ⟨ic, hic, rfl⟩)))))

/-- The tokens of the items. -/
def Table.parts (d : Dialect) (t : Table) : List (List Tok) :=
  t.columns.map (columnToks d t.composite) ++ t.constraints.map Constraint.toks

theorem items_parts (d : Dialect) (hne : t.columns ≠ []) :
    items (separate .comma (t.parts d) ++ [Tok.closing]) = some (t.parts d, []) := by
  refine items_separate (by simp [Table.parts, hne]) (fun p hp => ?_) []
  rcases List.mem_append.mp hp with hp | hp
  · obtain ⟨col, -, rfl⟩ := List.mem_map.mp hp
    exact whole_columnToks d t.composite col
  · obtain ⟨c, -, rfl⟩ := List.mem_map.mp hp
    exact whole_constraint c

theorem createTable_ok {text : GoString} (h : createTable d t = .ok text) :
    checkTable t = .ok () ∧ text = lit "CREATE TABLE IF NOT EXISTS " ++ t.name ++
      (lit " (\n" ++ (lit ",\n").intercalate (t.columns.map fun col =>
        lit "\t" ++ columnText d t.composite col)) ++
      (t.constraints.flatMap fun c => lit ",\n\t" ++ c.text) ++ lit "\n)" := by
  unfold createTable at h
  cases hcheck : checkTable t with
  | error e =>
    rw [hcheck] at h
    cases h
  | ok u =>
    rw [hcheck] at h
    exact ⟨rfl, (Except.ok.inj h).symm⟩

theorem lex_createTable {text : GoString} (h : createTable d t = .ok text)
    (hne : t.columns ≠ []) (hfree : ∀ w ∈ t.names, isReserved w = false)
    (hzero : ∀ s ∈ t.defaultTexts, 0 ∉ s) :
    lex text = keywords [lit "CREATE", lit "TABLE", lit "IF", lit "NOT", lit "EXISTS"] ++
      (.word t.name :: .opening :: (separate .comma (t.parts d) ++ [Tok.closing])) := by
  obtain ⟨hcheck, rfl⟩ := createTable_ok h
  have hvalid := valid_of_checkTable hcheck
  have hcreate : Head (lit "CREATE TABLE IF NOT EXISTS ")
      (keywords [lit "CREATE", lit "TABLE", lit "IF", lit "NOT", lit "EXISTS"]) :=
    head_of_lex rfl rfl rfl
  have hopening : Lead (lit " (\n") [Tok.opening] := lead_of_lex rfl rfl rfl rfl
  have hcomma : Lead (lit ",\n") [Tok.comma] := lead_of_lex rfl rfl rfl rfl
  have hcommaTab : Lead (lit ",\n\t") [Tok.comma] := lead_of_lex rfl rfl rfl rfl
  have hclosing : Tail (lit "\n)") [Tok.closing] := tail_of_lex rfl rfl rfl
  have hcolumn : ∀ col ∈ t.columns,
      Phrase (lit "\t" ++ columnText d t.composite col) (columnToks d t.composite col) := by
    intro col hcol
    have htab : Head (lit "\t") [] := head_of_lex rfl rfl rfl
    have hname := hvalid.names _ (t.name_mem_names hcol)
    exact htab.append (phrase_columnText d t.composite hname fun s hs =>
      hzero s (List.mem_filterMap.mpr ⟨col, hcol, by rw [hs]⟩))
  have hcolumns := phrase_intercalate hcomma _ _ hcolumn
  have hconstraints := tail_flatMap hcommaTab Constraint.text Constraint.toks
    fun c hc => phrase_constraint (proper_of_mem_constraints hvalid hfree hc)
  have hname := phrase_identifier (hvalid.names t.name (by simp [Table.names]))
  have hphrase := (((hcreate.append hname).append (hopening.append hcolumns)).append
    hconstraints).append hclosing
  rw [hphrase.lexed, separate, Table.parts, intercalate_append _ (by simpa using hne)]
  simp [List.flatMap_map]

/-- The statement of every definition that is accepted says what the definition says. -/
theorem readTable_createTable (d : Dialect) (t : Table) (text : GoString)
    (hok : createTable d t = .ok text) (hne : t.columns ≠ [])
    (hfree : t.names.all (fun w => !isReserved w) = true)
    (hzero : t.defaultTexts.all (fun s => !s.contains 0) = true) :
    d.readTable text = some (t.name, t.items d) := by
  have hunreserved : ∀ w ∈ t.names, isReserved w = false := by simpa using hfree
  have hzeroFree : ∀ s ∈ t.defaultTexts, 0 ∉ s := by simpa using hzero
  have hvalid := valid_of_checkTable (createTable_ok hok).1
  have hname : ∀ w ∈ t.names, IsName w := fun w hw => ⟨hvalid.names w hw, hunreserved w hw⟩
  have hread : (t.parts d).mapM d.readItem = some (t.items d) := by
    have hcolumns : (t.columns.map (columnToks d t.composite)).mapM d.readItem =
        some (t.columns.map fun col => .column (col.written d t.composite)) :=
      mapM_map_some fun col hcol => readItem_column d t.composite (hname _ (t.name_mem_names hcol))
    have hconstraints : (t.constraints.map Constraint.toks).mapM d.readItem =
        some (t.constraints.map .constraint) :=
      mapM_map_some fun c hc =>
        readItem_constraint d (proper_of_mem_constraints hvalid hunreserved hc)
    rw [Table.parts, List.mapM_append, hcolumns, hconstraints]
    rfl
  simp only [Dialect.readTable, lex_createTable hok hne hunreserved hzeroFree,
    expect_append, readName_of_isName (hname t.name List.mem_cons_self),
    expect_cons, expect_nil, items_parts d hne, hread, finish,
    Option.bind_eq_bind, Option.bind_some, if_true]

/-- The table of bans of the initial schema. -/
def bansTable : Table :=
  { name := lit "bans"
    columns := [
      .primaryKey (lit "id"),
      .uuid (lit "uuid"),
      { name := lit "user_id", type := .integer },
      { name := lit "ip_address", type := .text },
      { name := lit "reason", type := .text, isNotNull := true, default := .literal (.text []) },
      { name := lit "expires_at", type := .datetime },
      { name := lit "revoked_at", type := .datetime },
      { name := lit "created_at", type := .datetime, isNotNull := true, default := .now }]
    foreignKeys := [⟨lit "user_id", lit "users", lit "id", lit "CASCADE"⟩]
    requireOneOf := [lit "user_id", lit "ip_address"] }

theorem readTable_createTable_bans : ∃ text, createTable .postgres bansTable = .ok text ∧
    Dialect.readTable .postgres text = some (lit "bans", bansTable.items .postgres) :=
  ⟨_, rfl, readTable_createTable .postgres bansTable _ rfl (List.cons_ne_nil _ _) rfl rfl⟩

/-- A column with a reserved name is accepted and not read back. -/
example :
    (createTable .sqlite { name := lit "t", columns := [{ name := lit "check", type := .text }] }
      ).toOption.map (Dialect.readTable .sqlite) = some none := by
  decide

end Statement

end Musgos.Outbound
