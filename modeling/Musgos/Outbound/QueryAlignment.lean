import Musgos.Foundation.SqlText
import Musgos.Outbound.QueryBuilder

/-!
# Placeholders and arguments of the query builder

For every query object and operation the executed statement is read back, as text. Its
placeholders are numbered from left to right like the arguments, and each belongs to the column
that the argument was given for. No value is in the text: it depends on the names and on which
conditions are on `nil`.
-/
namespace Musgos.Outbound

open Foundation SqlLexer SqlText Lingo

variable {X V : Type}

section Specification

/-- The placeholder of the argument at position `n`. -/
def Dialect.mark : Dialect → ℕ → GoString
  | .sqlite, _ => lit "?"
  | .postgres, n => lit "$" ++ decimal (n + 1)

/-- The same condition, on another value. -/
structure WhereClause.SameShape (w w' : WhereClause V) : Prop where
  column : w'.column = w.column
  operator : w'.operator = w.operator
  value : w'.value = none ↔ w.value = none

/-- Two queries that differ in their values only. -/
structure SqlQuery.SameShape (q q' : SqlQuery X V) : Prop where
  tableName : q'.tableName = q.tableName
  dialect : q'.dialect = q.dialect
  wheres : List.Forall₂ WhereClause.SameShape q.wheres q'.wheres

/-- The same operation with other values; for data it makes no difference which are `nil`. -/
inductive SqlOperation.SameShape : SqlOperation V → SqlOperation V → Prop
  | insert {data data' : GoMap GoString (Option V)} (h : data'.keys = data.keys) :
    SameShape (.insert data) (.insert data')
  | update {data data' : GoMap GoString (Option V)} (h : data'.keys = data.keys) :
    SameShape (.update data) (.update data')
  | increment (column : GoString) (delta delta' : V) :
    SameShape (.increment column delta) (.increment column delta')
  | delete : SameShape .delete .delete
  | first : SameShape .first .first
  | get : SameShape .get .get
  | count : SameShape .count .count

end Specification

section Shape

theorem WhereClause.SameShape.isNull {w w' : WhereClause V} (h : w.SameShape w') :
    w'.isNull = w.isNull := by
  have hvalue : w'.value.isNone = w.value.isNone := by
    rw [Bool.eq_iff_iff, Option.isNone_iff_eq_none, Option.isNone_iff_eq_none]
    exact h.value
  rw [WhereClause.isNull, hvalue, h.operator, WhereClause.isNull]

theorem WhereClause.SameShape.text {w w' : WhereClause V} (h : w.SameShape w') :
    w'.text = w.text := by
  rw [WhereClause.text, h.isNull, h.column, h.operator, WhereClause.text]

theorem map_eq_of_sameShape {β : Type} {f : WhereClause V → β}
    (hf : ∀ w w', w.SameShape w' → f w' = f w) {ws ws' : List (WhereClause V)}
    (h : List.Forall₂ WhereClause.SameShape ws ws') : ws'.map f = ws.map f := by
  induction h with
  | nil => rfl
  | cons hw _ ih => rw [List.map_cons, List.map_cons, hf _ _ hw, ih]

theorem whereText_of_sameShape {ws ws' : List (WhereClause V)}
    (h : List.Forall₂ WhereClause.SameShape ws ws') : whereText ws' = whereText ws := by
  cases h with
  | nil => rfl
  | cons hw hws =>
    have hparts := map_eq_of_sameShape (fun _ _ h => h.text) (.cons hw hws)
    rw [whereText, whereText, if_neg (List.cons_ne_nil _ _), if_neg (List.cons_ne_nil _ _), hparts]

theorem SqlOperation.SameShape.columns {op op' : SqlOperation V} (h : op.SameShape op')
    (ord : RangeOrder GoString) : (op'.data ord).map Prod.fst = (op.data ord).map Prod.fst := by
  cases h with
  | insert h => rw [data, data, ord.map_fst_entries, ord.map_fst_entries, h]
  | update h => rw [data, data, ord.map_fst_entries, ord.map_fst_entries, h]
  | increment column delta delta' => rfl
  | delete => rfl
  | first => rfl
  | get => rfl
  | count => rfl

variable {q q' : SqlQuery X V} {op op' : SqlOperation V} {ord : RangeOrder GoString}

theorem SqlQuery.SameShape.operationText (hq : q.SameShape q') (hop : op.SameShape op') :
    q'.operationText ord op' = q.operationText ord op := by
  rw [SqlQuery.operationText, SqlQuery.operationText, hq.tableName, hop.columns,
    whereText_of_sameShape hq.wheres]
  cases hop <;> rfl

theorem SqlQuery.valid_iff : q.Valid ord op ↔ validIdentifier q.tableName = true ∧
    (∀ c ∈ (op.data ord).map Prod.fst, validIdentifier c = true) ∧
      ∀ c ∈ (q.conditions op).map (·.column), validIdentifier c = true := by
  rw [List.forall_mem_map, List.forall_mem_map]
  rfl

theorem SqlQuery.SameShape.conditions (hq : q.SameShape q') (hop : op.SameShape op') :
    (q'.conditions op').map (·.column) = (q.conditions op).map (·.column) := by
  have hwheres := map_eq_of_sameShape (fun _ _ h => h.column) hq.wheres
  cases hop with
  | insert h => rfl
  | update h => exact hwheres
  | increment column delta delta' => exact hwheres
  | delete => exact hwheres
  | first => exact hwheres
  | get => exact hwheres
  | count => exact hwheres

theorem SqlQuery.SameShape.valid (hq : q.SameShape q') (hop : op.SameShape op') :
    q'.Valid ord op' ↔ q.Valid ord op := by
  rw [valid_iff, valid_iff, hq.tableName, hop.columns, hq.conditions hop]

end Shape

section Spelling

theorem toNat_of_isIdentifierByte {x : UInt8} (h : isIdentifierByte x = true) :
    (97 ≤ x.toNat ∧ x.toNat ≤ 122) ∨ (65 ≤ x.toNat ∧ x.toNat ≤ 90) ∨ x.toNat = 95 ∨
      (48 ≤ x.toNat ∧ x.toNat ≤ 57) := by
  simp only [isIdentifierByte, isIdentifierStart, decide_eq_true_eq, UInt8.le_iff_toNat_le,
    ← UInt8.toNat_inj] at h
  simpa [or_assoc] using h

theorem isWordByte_of_isIdentifierByte {x : UInt8} (h : isIdentifierByte x = true) :
    IsWordByte x := by
  have hx := toNat_of_isIdentifierByte h
  obtain ⟨hbreak, hquote⟩ := isBreak_of_lt (x := x) (by omega)
  refine ⟨⟨by omega, hquote⟩, hbreak, ?_, ?_⟩ <;>
  · rintro rfl
    revert hx
    decide

theorem isIdentifierByte_of_mem {name : GoString} (h : validIdentifier name = true) {x : UInt8}
    (hx : x ∈ name) : isIdentifierByte x = true := by
  cases name with
  | nil => cases h
  | cons y ys =>
    rw [validIdentifier, Bool.and_eq_true, List.all_eq_true] at h
    rcases List.mem_cons.mp hx with rfl | hx
    · simp [isIdentifierByte, h.1]
    · exact h.2 x hx

theorem isWord_of_validIdentifier {name : GoString} (h : validIdentifier name = true) :
    IsWord name := by
  refine ⟨?_, fun x hx => isWordByte_of_isIdentifierByte (isIdentifierByte_of_mem h hx)⟩
  rintro rfl
  cases h

theorem unbroken_decimal (n : ℕ) : Unbroken (decimal n) := by
  intro x hx
  have hdigit := digits_decimal n x hx
  exact isBreak_of_lt (by omega)

theorem Dialect.placeholders (d : Dialect) : Placeholders d.mark := by
  cases d with
  | sqlite =>
    have hmark : lit "?" ≠ [] ∧ isMark (lit "?") = true := by decide
    refine ⟨fun _ => hmark.1, fun _ x hx => ?_, fun _ => hmark.2⟩
    rw [List.mem_singleton.mp hx]
    decide
  | postgres =>
    refine ⟨fun n => ?_, fun n x hx => ?_, fun n => ?_⟩
    · exact List.append_ne_nil_of_left_ne_nil (by decide) _
    · rcases List.mem_append.mp hx with hx | hx
      · rw [List.mem_singleton.mp hx]
        decide
      · exact unbroken_decimal (n + 1) x hx
    · have hdollar : (36 : UInt8) ∈ Dialect.mark .postgres n :=
        List.mem_append_left _ (by decide)
      have hhead : (Dialect.mark .postgres n).head? = some 36 := rfl
      simp [isMark, hdollar, hhead]

theorem renumber_question (n : ℕ) (text : GoString) :
    renumber (fun _ => lit "?") n text = text := by
  induction text generalizing n with
  | nil => rfl
  | cons x xs ih =>
    rw [renumber]
    split_ifs with hx
    · rw [ih, hx]
      rfl
    · rw [ih]

theorem rebindRunes_plain {text : GoString} (h : ∀ x ∈ text, IsPlain x) (n : ℕ) :
    rebindRunes (text.map ([·])) n false = renumber (Dialect.mark .postgres) n text := by
  induction text generalizing n with
  | nil => rfl
  | cons x xs ih =>
    obtain ⟨hx, hxs⟩ := List.forall_mem_cons.mp h
    have hquote : [x] ≠ lit "'" := fun heq => hx.2 (List.cons.inj heq).1
    have hmark : [x] = lit "?" ↔ x = 63 :=
      ⟨fun heq => (List.cons.inj heq).1, fun heq => by rw [heq]; rfl⟩
    rw [List.map_cons, rebindRunes, if_neg hquote, renumber]
    simp only [hmark, and_true, ih hxs]
    rfl

/-- Without literals and outside of UTF-8 sequences every question mark is a placeholder. -/
theorem Dialect.rebind_eq_renumber (d : Dialect) {text : GoString} (h : ∀ x ∈ text, IsPlain x) :
    d.rebind text = renumber d.mark 0 text := by
  cases d with
  | sqlite => exact (renumber_question 0 text).symm
  | postgres =>
    rw [rebind, rebindDollar, runes_ascii fun x hx => (h x hx).1, rebindRunes_plain h]

/-- The placeholders of a text that has been rebound are numbered through, and belong to these
columns. -/
def Dialect.Reads (d : Dialect) (text : GoString) (columns : List GoString) : Prop :=
  (words (d.rebind text)).filter isMark = (List.range columns.length).map d.mark ∧
    placeholderColumns (words (d.rebind text)) = columns.map some

theorem Dialect.words_rebind (d : Dialect) {text : GoString} {slots : List Slot}
    (h : Spells d.mark text slots) : words (d.rebind text) = fill d.mark 0 slots := by
  have hreads := h.reads 0 [] atBreak_nil
  rw [List.append_nil] at hreads
  rw [d.rebind_eq_renumber h.plain, hreads]
  exact List.append_nil _

theorem Dialect.filter_words_rebind (d : Dialect) {text : GoString} {slots : List Slot}
    (h : Spells d.mark text slots) :
    (words (d.rebind text)).filter isMark = (List.range (marks slots)).map d.mark := by
  rw [d.words_rebind h, filter_fill d.placeholders.marked h.unmarked]
  simp only [Nat.zero_add]

theorem Dialect.reads_of_aligned (d : Dialect) {a b w : GoString} {ws columns : List GoString}
    (ha : Opens d.mark a (w :: ws)) (hw : w ≠ lit "INSERT") (hb : Aligned d.mark b columns) :
    d.Reads (a ++ b) columns := by
  obtain ⟨slots, hspells, hanswers, hmarks⟩ := hb
  have htext := ha.spells hspells
  have hopening : Answers d.mark ((w :: ws).map .word) [] := answers_words ha.unmarked
  have hall := hopening.append hanswers
  constructor
  · rw [d.filter_words_rebind htext, marks_append, marks_words, hmarks, Nat.zero_add]
  · rw [d.words_rebind htext, placeholderColumns, if_neg (by simpa [fill] using hw)]
    obtain ⟨before, hcolumns⟩ := hall [] 0 []
    rw [List.append_nil] at hcolumns
    rw [hcolumns]
    exact List.append_nil _

end Spelling

section Reading

variable (d : Dialect)

theorem aligned_text {w : WhereClause V} (h : validIdentifier w.column = true) :
    Aligned d.mark w.text (if w.isNull then [] else [w.column]) := by
  have hword := isWord_of_validIdentifier h
  unfold WhereClause.text
  split_ifs
  · have his : Opens d.mark (lit " IS ") [lit "IS"] := opens_of_all rfl rfl fun _ _ => rfl
    have hnull := his.aligned (aligned_word (w := lit "NULL") (by decide))
    exact (aligned_word hword).append hnull (atBreak_cons (x := 32) rfl _)
  · apply aligned_compared d.placeholders hword
    cases w.operator with
    | equal => exact .inl rfl
    | lessThan => exact .inr rfl

theorem flatMap_columns (wheres : List (WhereClause V)) :
    (wheres.flatMap fun w => if w.isNull then [] else [w.column]) =
      (wheres.filter (!·.isNull)).map (·.column) := by
  induction wheres with
  | nil => rfl
  | cons w wheres ih =>
    rw [List.flatMap_cons, ih]
    by_cases hnull : w.isNull
    · rw [if_pos hnull, List.filter_cons_of_neg (by simp [hnull]), List.nil_append]
    · rw [if_neg hnull, List.filter_cons_of_pos (by simp [hnull]), List.map_cons,
        List.singleton_append]

theorem aligned_whereText {wheres : List (WhereClause V)}
    (h : ∀ w ∈ wheres, validIdentifier w.column = true) :
    Aligned d.mark (whereText wheres) ((wheres.filter (!·.isNull)).map (·.column)) := by
  unfold whereText
  split_ifs with hempty
  · rw [hempty]
    exact aligned_nil
  · have hwhere : Opens d.mark (lit " WHERE ") [lit "WHERE"] :=
      opens_of_all rfl rfl fun _ _ => rfl
    have hand : Opens d.mark (lit " AND ") [lit "AND"] := opens_of_all rfl rfl fun _ _ => rfl
    rw [← flatMap_columns]
    exact hwhere.aligned (aligned_intercalate hand (atBreak_cons (x := 32) rfl _) (by decide) _ _
      fun w hw => aligned_text d (h w hw))

theorem atBreak_whereText (wheres : List (WhereClause V)) : AtBreak (whereText wheres) := by
  unfold whereText
  split_ifs
  · exact atBreak_nil
  · exact atBreak_cons (x := 32) rfl _

theorem opens_comma : Opens d.mark (lit ", ") [comma] := opens_of_all rfl rfl fun _ _ => rfl

theorem spells_columns {columns : List GoString} (h : ∀ c ∈ columns, IsWord c) :
    Spells d.mark ((lit ", ").intercalate columns) (separated (columns.map .word)) := by
  have hspells := spells_intercalate (opens_comma d) (atBreak_cons (x := 44) rfl _) (by decide) id
    (fun c => [Slot.word c]) fun c hc => spells_word (h c hc)
  rw [List.map_id] at hspells
  rw [separated, List.map_map]
  exact hspells

theorem spells_marks (columns : List GoString) :
    Spells d.mark ((lit ", ").intercalate (columns.map fun _ => lit "?"))
      (separated (List.replicate columns.length .mark)) := by
  have hmark := spells_mark fun n => ⟨d.placeholders.ne_nil n, d.placeholders.unbroken n⟩
  have hparts : ∀ c ∈ columns, Spells d.mark (lit "?") [.mark] := fun _ _ => hmark
  have hspells := spells_intercalate (opens_comma d) (atBreak_cons (x := 44) rfl _) (by decide)
    (fun _ => lit "?") (fun _ => [Slot.mark]) hparts
  rw [separated, List.map_replicate, ← List.map_const']
  exact hspells

theorem reads_insert {table : GoString} {columns : List GoString}
    (htable : validIdentifier table = true)
    (hcolumns : ∀ c ∈ columns, validIdentifier c = true) :
    d.Reads (lit "INSERT INTO " ++ table ++ lit " (" ++ (lit ", ").intercalate columns ++
      lit ") VALUES (" ++ (lit ", ").intercalate (columns.map fun _ => lit "?") ++ lit ")")
      columns := by
  have hwords : ∀ c ∈ columns, IsWord c := fun c hc => isWord_of_validIdentifier (hcolumns c hc)
  have hinsert : Opens d.mark (lit "INSERT INTO ") [lit "INSERT", lit "INTO"] :=
    opens_of_all rfl rfl fun _ _ => rfl
  have hopen : Opens d.mark (lit " (") [opening] := opens_of_all rfl rfl fun _ _ => rfl
  have hvalues : Opens d.mark (lit ") VALUES (") [closing, lit "VALUES", opening] :=
    opens_of_all rfl rfl fun _ _ => rfl
  have hclose : Opens d.mark (lit ")") [closing] := opens_of_all rfl rfl fun _ _ => rfl
  have hlast : Spells d.mark (lit ")") [.word closing] := hclose.spells spells_nil
  have hend := (spells_marks d columns).append hlast (atBreak_cons (x := 41) rfl _)
  have hlists := (spells_columns d hwords).append (hvalues.spells hend)
    (atBreak_cons (x := 41) rfl _)
  have htext := hinsert.spells ((spells_word (isWord_of_validIdentifier htable)).append
    (hopen.spells hlists) (atBreak_cons (x := 32) rfl _))
  simp only [List.append_assoc]
  constructor
  · rw [d.filter_words_rebind htext]
    simp only [marks_append, marks_words, marks_separated, marks_replicate, marks, Nat.zero_add,
      Nat.add_zero]
  · rw [d.words_rebind htext]
    simp only [fill_append, fill_words, fill_separated, marks_words, marks_separated, Nat.add_zero,
      marks, fill]
    exact insertColumns_eq
      (fun n => ⟨d.placeholders.marked n, ne_of_unbroken (d.placeholders.unbroken n)⟩)
      (fun c hc => ne_of_unbroken (hwords c hc).unbroken) (lit "VALUES") [] 0

theorem reads_set {table sets : GoString} {columns : List GoString} {wheres : List (WhereClause V)}
    (htable : validIdentifier table = true) (hsets : Aligned d.mark sets columns)
    (hwheres : ∀ w ∈ wheres, validIdentifier w.column = true) :
    d.Reads (lit "UPDATE " ++ table ++ lit " SET " ++ sets ++ whereText wheres)
      (columns ++ (wheres.filter (!·.isNull)).map (·.column)) := by
  have hupdate : Opens d.mark (lit "UPDATE ") [lit "UPDATE"] := opens_of_all rfl rfl fun _ _ => rfl
  have hset : Opens d.mark (lit " SET ") [lit "SET"] := opens_of_all rfl rfl fun _ _ => rfl
  have hrest := (aligned_word (isWord_of_validIdentifier htable)).append
    (hset.aligned (hsets.append (aligned_whereText d hwheres) (atBreak_whereText wheres)))
    (atBreak_cons (x := 32) rfl _)
  simp only [List.append_assoc]
  exact d.reads_of_aligned hupdate (by decide) hrest

theorem reads_update {table : GoString} {columns : List GoString} {wheres : List (WhereClause V)}
    (htable : validIdentifier table = true)
    (hcolumns : ∀ c ∈ columns, validIdentifier c = true)
    (hwheres : ∀ w ∈ wheres, validIdentifier w.column = true) :
    d.Reads (lit "UPDATE " ++ table ++ lit " SET " ++
      (lit ", ").intercalate (columns.map (· ++ lit " = ?")) ++ whereText wheres)
      (columns ++ (wheres.filter (!·.isNull)).map (·.column)) := by
  have hassign : ∀ c ∈ columns, Aligned d.mark (c ++ lit " = ?") [c] := by
    intro c hc
    have hequal : lit "=" = lit "=" ∨ lit "=" = lit "<" := .inl rfl
    have haligned :=
      aligned_compared d.placeholders (isWord_of_validIdentifier (hcolumns c hc)) hequal
    rw [List.append_assoc, List.append_assoc] at haligned
    exact haligned
  have hsets := aligned_intercalate (opens_comma d) (atBreak_cons (x := 44) rfl _) (by decide) _ _
    hassign
  rw [List.flatMap_singleton'] at hsets
  exact reads_set d htable hsets hwheres

theorem reads_increment {table column : GoString} {wheres : List (WhereClause V)}
    (htable : validIdentifier table = true) (hcolumn : validIdentifier column = true)
    (hwheres : ∀ w ∈ wheres, validIdentifier w.column = true) :
    d.Reads (lit "UPDATE " ++ table ++ lit " SET " ++ column ++ lit " = " ++ column ++ lit " + ?" ++
      whereText wheres) ([column] ++ (wheres.filter (!·.isNull)).map (·.column)) := by
  have hsum := aligned_increased d.placeholders (isWord_of_validIdentifier hcolumn)
  have hreads := reads_set d htable hsum hwheres
  simp only [List.append_assoc] at hreads ⊢
  exact hreads

theorem reads_plain {before after w : GoString} {ws : List GoString}
    (hbefore : Opens d.mark before (w :: ws)) (hw : w ≠ lit "INSERT")
    (hafter : Aligned d.mark after []) (hbreak : AtBreak after) {table : GoString}
    {wheres : List (WhereClause V)} (htable : validIdentifier table = true)
    (hwheres : ∀ w ∈ wheres, validIdentifier w.column = true) :
    d.Reads (before ++ table ++ whereText wheres ++ after)
      ((wheres.filter (!·.isNull)).map (·.column)) := by
  have hcondition := (aligned_whereText d hwheres).append hafter hbreak
  have hrest := (aligned_word (isWord_of_validIdentifier htable)).append hcondition
    ((atBreak_whereText wheres).append hbreak)
  rw [List.append_nil] at hrest
  simp only [List.append_assoc]
  exact d.reads_of_aligned hbefore hw hrest

variable {q : SqlQuery X V} {ord : RangeOrder GoString}

/-- Every statement that is built reads as the columns of its arguments. -/
theorem SqlQuery.Valid.reads {op : SqlOperation V} (h : q.Valid ord op) :
    d.Reads (q.operationText ord op) ((q.bindings ord op).map Prod.fst) := by
  obtain ⟨htable, hdata, hwheres⟩ := h
  have hcolumns : ∀ c ∈ (op.data ord).map Prod.fst, validIdentifier c = true :=
    List.forall_mem_map.mpr hdata
  have hselect : Opens d.mark (lit "SELECT * FROM ") [lit "SELECT", lit "*", lit "FROM"] :=
    opens_of_all rfl rfl fun _ _ => rfl
  have hend : Aligned d.mark [] [] := aligned_nil
  rw [q.bindings_columns]
  cases op with
  | insert data =>
    rw [conditions, List.filter_nil, List.map_nil, List.append_nil]
    exact reads_insert d htable hcolumns
  | update data => exact reads_update d htable hcolumns hwheres
  | increment column delta =>
    exact reads_increment d htable (hdata (column, some delta) List.mem_cons_self) hwheres
  | delete =>
    have hdelete : Opens d.mark (lit "DELETE FROM ") [lit "DELETE", lit "FROM"] :=
      opens_of_all rfl rfl fun _ _ => rfl
    exact reads_plain d hdelete (by decide) hend atBreak_nil htable hwheres
  | first =>
    have hlimit : Opens d.mark (lit " LIMIT ") [lit "LIMIT"] := opens_of_all rfl rfl fun _ _ => rfl
    have hone := hlimit.aligned (aligned_word (w := lit "1") (by decide))
    exact reads_plain d hselect (by decide) hone (atBreak_cons (x := 32) rfl _) htable hwheres
  | get => exact reads_plain d hselect (by decide) hend atBreak_nil htable hwheres
  | count =>
    have hcount : Opens d.mark (lit "SELECT COUNT(*) FROM ")
        [lit "SELECT", lit "COUNT", opening, lit "*", closing, lit "FROM"] :=
      opens_of_all rfl rfl fun _ _ => rfl
    exact reads_plain d hcount (by decide) hend atBreak_nil htable hwheres

end Reading

section Execution

variable {E R : Type} {q q' : SqlQuery X V} {ord : RangeOrder GoString} {op op' : SqlOperation V}
  (db : X → Statement V → Except E R)

theorem executed_of_ok {s : Statement V} (h : q.statement ord op = .ok s) :
    (q.perform ord db op).executed = [(q.exec, s)] := by
  rw [SqlQuery.perform, h]

theorem executed_of_not_valid (h : ¬ q.Valid ord op) : (q.perform ord db op).executed = [] := by
  cases hs : q.statement ord op with
  | error e => rw [SqlQuery.perform, hs]
  | ok s => exact absurd (SqlQuery.statement_eq_ok.mp hs).1 h

/-- No value gets into the text. -/
theorem texts_of_sameShape (hq : q.SameShape q') (hop : op.SameShape op') :
    (q'.perform ord db op').executed.map (·.2.text) =
      (q.perform ord db op).executed.map (·.2.text) := by
  by_cases hvalid : q.Valid ord op
  · have hvalid' := (hq.valid hop).mpr hvalid
    rw [executed_of_ok db (SqlQuery.statement_eq_ok.mpr ⟨hvalid, rfl⟩),
      executed_of_ok db (SqlQuery.statement_eq_ok.mpr ⟨hvalid', rfl⟩)]
    simp only [List.map_cons, List.map_nil, SqlQuery.bound, hq.operationText hop, hq.dialect]
  · have hvalid' := fun h => hvalid ((hq.valid hop).mp h)
    rw [executed_of_not_valid db hvalid, executed_of_not_valid db hvalid']

end Execution

/-- An operation returns an error without having executed anything, or it has executed one
statement. The placeholders in the text are those of the arguments, from the first to the last,
and each belongs to the column of its argument. The text is the same with other values. -/
theorem query_builder_aligned {E R : Type} (q : SqlQuery X V) (ord : RangeOrder GoString)
    (db : X → Statement V → Except E R) (op : SqlOperation V) :
    ((∃ e, (q.perform ord db op).result = .error (.inl e) ∧ (q.perform ord db op).executed = []) ∨
      ∃ s, (q.perform ord db op).executed = [(q.exec, s)] ∧
        (words s.text).filter isMark = (List.range s.args.length).map q.dialect.mark ∧
        placeholderColumns (words s.text) = (q.bindings ord op).map (some ·.1) ∧
        s.args = (q.bindings ord op).map Prod.snd) ∧
    ∀ (q' : SqlQuery X V) (op' : SqlOperation V), q.SameShape q' → op.SameShape op' →
      (q'.perform ord db op').executed.map (·.2.text) =
        (q.perform ord db op).executed.map (·.2.text) := by
  refine ⟨?_, fun q' op' hq hop => texts_of_sameShape db hq hop⟩
  cases hs : q.statement ord op with
  | error e => exact .inl ⟨e, by rw [SqlQuery.perform, hs], by rw [SqlQuery.perform, hs]⟩
  | ok s =>
    obtain ⟨hvalid, hbound⟩ := SqlQuery.statement_eq_ok.mp hs
    obtain ⟨hmarks, hcolumns⟩ := hvalid.reads q.dialect
    refine .inr ⟨s, executed_of_ok db hs, ?_⟩
    subst hbound
    rw [List.length_map] at hmarks
    refine ⟨?_, ?_, rfl⟩
    · rw [SqlQuery.bound, List.length_map]
      exact hmarks
    · rw [SqlQuery.bound, hcolumns, List.map_map]
      rfl

/-- Adding to the score of a player, for Postgres. -/
def scoreQuery (id : ℕ) : SqlQuery Unit ℕ :=
  ((⟨(), .postgres⟩ : SqlQueryBuilder Unit).table (lit "players")).whereEqual (lit "banned") none
    |>.whereLessThan (lit "id") (some id)

theorem scoreQuery_sameShape (id id' : ℕ) : (scoreQuery id).SameShape (scoreQuery id') :=
  ⟨rfl, rfl, .cons ⟨rfl, rfl, Iff.rfl⟩ (.cons ⟨rfl, rfl, by simp⟩ .nil)⟩

theorem query_builder_aligned_score :
    ((scoreQuery 9).perform (.sorted (· ≤ ·)) (fun _ _ => (.ok () : Except Unit Unit))
      (.increment (lit "score") 2)).executed.map (·.2.text) =
        [lit "UPDATE players SET score = score + $1 WHERE banned IS NULL AND id < $2"] := by
  have htext := (query_builder_aligned (scoreQuery 1) (.sorted (· ≤ ·))
    (fun _ _ => (.ok () : Except Unit Unit)) (.increment (lit "score") 5)).2
    (scoreQuery 9) (.increment (lit "score") 2) (scoreQuery_sameShape 1 9) (.increment _ _ _)
  rw [htext]
  decide +kernel

end Musgos.Outbound
