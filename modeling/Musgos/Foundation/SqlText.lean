import Musgos.Foundation.SqlLexer

/-!
# The placeholders of an SQL statement

Enough of SQL to say which column a placeholder stands for. A placeholder is a word with a
question mark or a dollar sign and no literal. In an insertion it belongs to the column at its
place in the list of columns, elsewhere to the column that it is compared with or assigned to.
-/
namespace Musgos.Foundation.SqlText

open SqlLexer

def comma : GoString := [44]

def opening : GoString := [40]

def closing : GoString := [41]

def isMark (word : GoString) : Bool := word.head? ≠ some 39 ∧ (63 ∈ word ∨ 36 ∈ word)

/-- The column of a placeholder, by the words before it from the last one on: `c = ?`, `c < ?`
or `c = c + ?`. -/
def columnBefore : List GoString → Option GoString
  | op :: operand :: before =>
    if op = lit "=" ∨ op = lit "<" then some operand
    else if op = lit "+" then
      match before with
      | assign :: target :: _ => if assign = lit "=" then some target else none
      | _ => none
    else none
  | _ => none

def columnsFrom : List GoString → List GoString → List (Option GoString)
  | _, [] => []
  | before, w :: ws =>
    if isMark w then columnBefore before :: columnsFrom (w :: before) ws
    else columnsFrom (w :: before) ws

/-- The items up to a closing parenthesis. -/
def listed (ws : List GoString) : List GoString :=
  (ws.takeWhile (· ≠ closing)).filter (· ≠ comma)

/-- `INSERT INTO t (a, b) VALUES (?, ?)`, after `INSERT INTO t (`. -/
def insertColumns (ws : List GoString) : List (Option GoString) :=
  let values := listed ((ws.dropWhile (· ≠ closing)).drop 3)
  ((values.zip (listed ws)).filter (isMark ·.1)).map (some ·.2)

/-- The columns of the placeholders, from left to right. -/
def placeholderColumns (ws : List GoString) : List (Option GoString) :=
  if ws.head? = some (lit "INSERT") then insertColumns (ws.drop 4) else columnsFrom [] ws

example : placeholderColumns (words (lit "INSERT INTO t (a, b) VALUES (?, ?)")) =
    [some (lit "a"), some (lit "b")] := by
  decide

section Slots

/-- A word of a statement whose placeholders are still to be numbered. -/
inductive Slot where
  | word (w : GoString)
  | mark

/-- The words, with the placeholders numbered from `n` on and written by `ph`. -/
def fill (ph : ℕ → GoString) : ℕ → List Slot → List GoString
  | _, [] => []
  | n, .word w :: slots => w :: fill ph n slots
  | n, .mark :: slots => ph n :: fill ph (n + 1) slots

def marks : List Slot → ℕ
  | [] => 0
  | .word _ :: slots => marks slots
  | .mark :: slots => marks slots + 1

theorem marks_append (a b : List Slot) : marks (a ++ b) = marks a + marks b := by
  induction a with
  | nil => exact (Nat.zero_add _).symm
  | cons slot a ih =>
    cases slot with
    | word w => exact ih
    | mark => rw [List.cons_append, marks, marks, ih, Nat.add_right_comm]

theorem marks_words (ws : List GoString) : marks (ws.map .word) = 0 := by
  induction ws with
  | nil => rfl
  | cons w ws ih => exact ih

variable {ph : ℕ → GoString}

theorem fill_append (n : ℕ) (a b : List Slot) :
    fill ph n (a ++ b) = fill ph n a ++ fill ph (n + marks a) b := by
  induction a generalizing n with
  | nil => rfl
  | cons slot a ih =>
    cases slot with
    | word w => exact congrArg (w :: ·) (ih n)
    | mark =>
      rw [List.cons_append, fill, fill, ih, marks, Nat.add_assoc n 1, Nat.add_comm 1]
      rfl

theorem fill_words (n : ℕ) (ws : List GoString) : fill ph n (ws.map .word) = ws := by
  induction ws with
  | nil => rfl
  | cons w ws ih => exact congrArg (w :: ·) ih

/-- No word looks like a placeholder. -/
def Unmarked (slots : List Slot) : Prop := ∀ w, Slot.word w ∈ slots → isMark w = false

theorem Unmarked.append {a b : List Slot} (ha : Unmarked a) (hb : Unmarked b) :
    Unmarked (a ++ b) := by
  intro w hw
  rcases List.mem_append.mp hw with hw | hw
  · exact ha w hw
  · exact hb w hw

/-- The placeholders of the statement, in order, are those that were filled in. -/
theorem filter_fill (hph : ∀ n, isMark (ph n) = true) {slots : List Slot} (h : Unmarked slots)
    (n : ℕ) : (fill ph n slots).filter isMark = (List.range (marks slots)).map (ph <| n + ·) := by
  induction slots generalizing n with
  | nil => rfl
  | cons slot slots ih =>
    have hrest : Unmarked slots := fun w hw => h w (List.mem_cons_of_mem _ hw)
    cases slot with
    | word w =>
      rw [fill, List.filter_cons_of_neg (by simp [h w List.mem_cons_self]), ih hrest, marks]
    | mark =>
      rw [fill, List.filter_cons_of_pos (hph n), ih hrest, marks, List.range_succ_eq_map,
        List.map_cons, List.map_map]
      congr 1
      apply List.map_congr_left
      intro i _
      rw [Function.comp_apply, Nat.succ_eq_add_one, Nat.add_assoc, Nat.add_comm 1]

end Slots

section Answers

variable (ph : ℕ → GoString)

/-- The placeholders of this part belong to these columns, whatever stands around it. -/
def Answers (slots : List Slot) (columns : List GoString) : Prop :=
  ∀ before n rest, ∃ before', columnsFrom before (fill ph n slots ++ rest) =
    columns.map some ++ columnsFrom before' rest

variable {ph}

theorem answers_nil : Answers ph [] [] := fun before _ _ => ⟨before, rfl⟩

theorem Answers.append {a b : List Slot} {as bs : List GoString} (ha : Answers ph a as)
    (hb : Answers ph b bs) : Answers ph (a ++ b) (as ++ bs) := by
  intro before n rest
  obtain ⟨mid, hmid⟩ := ha before n (fill ph (n + marks a) b ++ rest)
  obtain ⟨last, hlast⟩ := hb mid (n + marks a) rest
  refine ⟨last, ?_⟩
  rw [fill_append, List.append_assoc, hmid, hlast, List.map_append, List.append_assoc]

theorem answers_words {ws : List GoString} (h : ∀ w ∈ ws, isMark w = false) :
    Answers ph (ws.map .word) [] := by
  intro before n rest
  rw [fill_words]
  induction ws generalizing before with
  | nil => exact ⟨before, rfl⟩
  | cons w ws ih =>
    obtain ⟨hw, hws⟩ := List.forall_mem_cons.mp h
    rw [List.cons_append, columnsFrom, if_neg (by simp [hw])]
    exact ih hws (w :: before)

variable (hph : ∀ n, isMark (ph n) = true)
include hph

theorem answers_compared {c op : GoString} (hc : isMark c = false)
    (hop : op = lit "=" ∨ op = lit "<") : Answers ph [.word c, .word op, .mark] [c] := by
  intro before n rest
  have hopMark : isMark op = false := by rcases hop with rfl | rfl <;> decide
  have hcolumn : columnBefore (op :: c :: before) = some c := if_pos hop
  refine ⟨ph n :: op :: c :: before, ?_⟩
  simp only [fill, List.cons_append, List.nil_append, columnsFrom, hc, hopMark, hph n, hcolumn,
    Bool.false_eq_true, if_false, if_true, List.map_cons, List.map_nil]

theorem answers_increased {c : GoString} (hc : isMark c = false) :
    Answers ph [.word c, .word (lit "="), .word c, .word (lit "+"), .mark] [c] := by
  intro before n rest
  have heq : isMark (lit "=") = false := by decide
  have hplus : isMark (lit "+") = false := by decide
  have hcolumn : columnBefore (lit "+" :: c :: lit "=" :: c :: before) = some c := by
    rw [columnBefore, if_neg (by decide), if_pos rfl, if_pos rfl]
  refine ⟨ph n :: lit "+" :: c :: lit "=" :: c :: before, ?_⟩
  simp only [fill, List.cons_append, List.nil_append, columnsFrom, hc, heq, hplus, hph n, hcolumn,
    Bool.false_eq_true, if_false, if_true, List.map_cons, List.map_nil]

end Answers

section Lists

variable {ph : ℕ → GoString}

/-- Items between commas. -/
def itemized (items : List GoString) : List GoString := [comma].intercalate (items.map ([·]))

theorem itemized_cons_cons (a b : GoString) (items : List GoString) :
    itemized (a :: b :: items) = a :: comma :: itemized (b :: items) := by
  simp [itemized]

theorem filter_itemized {items : List GoString} (h : ∀ w ∈ items, w ≠ comma) :
    (itemized items).filter (· ≠ comma) = items := by
  induction items with
  | nil => rfl
  | cons a items ih =>
    obtain ⟨ha, hitems⟩ := List.forall_mem_cons.mp h
    cases items with
    | nil => simp [itemized, ha]
    | cons b items =>
      rw [itemized_cons_cons, List.filter_cons_of_pos (by simpa using ha),
        List.filter_cons_of_neg (by simp), ih hitems]

theorem mem_itemized {items : List GoString} {w : GoString} (h : w ∈ itemized items) :
    w = comma ∨ w ∈ items := by
  induction items with
  | nil => cases h
  | cons a items ih =>
    cases items with
    | nil => exact .inr (by simpa [itemized] using h)
    | cons b items =>
      rw [itemized_cons_cons] at h
      rcases List.mem_cons.mp h with rfl | h
      · exact .inr List.mem_cons_self
      · rcases List.mem_cons.mp h with rfl | h
        · exact .inl rfl
        · exact (ih h).imp_right (List.mem_cons_of_mem a)

/-- What is read from a list in parentheses, and where the text goes on behind it. -/
theorem listed_itemized {items : List GoString} (h : ∀ w ∈ items, w ≠ comma ∧ w ≠ closing)
    (rest : List GoString) : listed (itemized items ++ closing :: rest) = items ∧
      (itemized items ++ closing :: rest).dropWhile (· ≠ closing) = closing :: rest := by
  have hopen : ∀ w ∈ itemized items, decide (w ≠ closing) = true := by
    intro w hw
    rcases mem_itemized hw with rfl | hw
    · decide
    · simpa using (h w hw).2
  constructor
  · rw [listed, List.takeWhile_append_of_pos hopen, List.takeWhile_cons_of_neg (by simp),
      List.append_nil]
    exact filter_itemized fun w hw => (h w hw).1
  · rw [List.dropWhile_append_of_pos hopen, List.dropWhile_cons_of_neg (by simp)]

/-- Slots between commas. -/
def separated (slots : List Slot) : List Slot := [Slot.word comma].intercalate (slots.map ([·]))

theorem separated_cons_cons (a b : Slot) (slots : List Slot) :
    separated (a :: b :: slots) = a :: .word comma :: separated (b :: slots) := by
  simp [separated]

theorem marks_separated (slots : List Slot) : marks (separated slots) = marks slots := by
  induction slots with
  | nil => rfl
  | cons a slots ih =>
    cases slots with
    | nil => cases a <;> rfl
    | cons b slots =>
      rw [separated_cons_cons]
      cases a with
      | word w => exact ih
      | mark => exact congrArg Nat.succ ih

theorem marks_replicate (k : ℕ) : marks (List.replicate k .mark) = k := by
  induction k with
  | zero => rfl
  | succ k ih => exact congrArg Nat.succ ih

theorem fill_separated (n : ℕ) (slots : List Slot) :
    fill ph n (separated slots) = itemized (fill ph n slots) := by
  induction slots generalizing n with
  | nil => rfl
  | cons a slots ih =>
    cases slots with
    | nil => cases a <;> rfl
    | cons b slots =>
      have hcons : ∀ x m, itemized (x :: fill ph m (b :: slots)) =
          x :: comma :: itemized (fill ph m (b :: slots)) := by
        intro x m
        cases b <;> exact itemized_cons_cons x _ _
      rw [separated_cons_cons]
      cases a with
      | word w => rw [fill, fill, fill, ih, hcons]
      | mark => rw [fill, fill, fill, ih, hcons]

theorem length_fill (n : ℕ) (slots : List Slot) : (fill ph n slots).length = slots.length := by
  induction slots generalizing n with
  | nil => rfl
  | cons a slots ih => cases a <;> exact congrArg Nat.succ (ih _)

theorem exists_of_mem_fill_marks {n k : ℕ} {w : GoString}
    (h : w ∈ fill ph n (List.replicate k .mark)) : ∃ i, w = ph i := by
  induction k generalizing n with
  | zero => cases h
  | succ k ih =>
    rcases List.mem_cons.mp h with rfl | h
    · exact ⟨n, rfl⟩
    · exact ih h

theorem ne_of_unbroken {w : GoString} (h : Unbroken w) : w ≠ comma ∧ w ≠ closing := by
  constructor
  · rintro rfl
    exact absurd (h 44 List.mem_cons_self).1 (by decide)
  · rintro rfl
    exact absurd (h 41 List.mem_cons_self).1 (by decide)

/-- In an insertion with a placeholder for every column, each belongs to its own. -/
theorem insertColumns_eq (hph : ∀ n, isMark (ph n) = true ∧ ph n ≠ comma ∧ ph n ≠ closing)
    {cols : List GoString} (hcols : ∀ c ∈ cols, c ≠ comma ∧ c ≠ closing) (values : GoString)
    (rest : List GoString) (n : ℕ) :
    insertColumns (itemized cols ++ closing :: values :: opening ::
      (itemized (fill ph n (List.replicate cols.length .mark)) ++ closing :: rest)) =
        cols.map some := by
  have hmarks : ∀ w ∈ fill ph n (List.replicate cols.length .mark), isMark w = true ∧
      w ≠ comma ∧ w ≠ closing := by
    intro w hw
    obtain ⟨i, rfl⟩ := exists_of_mem_fill_marks hw
    exact hph i
  obtain ⟨hlisted, hdrop⟩ := listed_itemized hcols (values :: opening ::
    (itemized (fill ph n (List.replicate cols.length .mark)) ++ closing :: rest))
  obtain ⟨hvalues, -⟩ := listed_itemized (fun w hw => (hmarks w hw).2) rest
  have hfilter : ∀ p ∈ (fill ph n (List.replicate cols.length .mark)).zip cols,
      isMark p.1 = true := fun p hp => (hmarks p.1 (List.of_mem_zip hp).1).1
  have hsnd : ((fill ph n (List.replicate cols.length .mark)).zip cols).map Prod.snd = cols := by
    rw [List.map_snd_zip]
    rw [length_fill, List.length_replicate]
  rw [insertColumns, hlisted, hdrop, List.drop_succ_cons, List.drop_succ_cons, List.drop_succ_cons,
    List.drop_zero, hvalues, List.filter_eq_self.mpr hfilter]
  conv_rhs => rw [← hsnd, List.map_map]
  rfl

end Lists

/-! A text that is composed of words, question marks and separators, read after its question
marks have been replaced. -/
section Spelling

variable (ph : ℕ → GoString)

/-- Every question mark is replaced, the first by `ph n`. -/
def renumber : ℕ → GoString → GoString
  | _, [] => []
  | n, x :: xs => if x = 63 then ph n ++ renumber (n + 1) xs else x :: renumber n xs

/-- A byte of an unquoted statement. -/
def IsPlain (x : UInt8) : Prop := x.toNat < 128 ∧ x ≠ 39

instance decidableIsPlain (x : UInt8) : Decidable (IsPlain x) := inferInstanceAs (Decidable (_ ∧ _))

/-- Before a break the text is read as these words. -/
structure Spells (text : GoString) (slots : List Slot) : Prop where
  plain : ∀ x ∈ text, IsPlain x
  unmarked : Unmarked slots
  reads : ∀ n rest, AtBreak rest → words (renumber ph n (text ++ rest)) =
    fill ph n slots ++ words (renumber ph (n + marks slots) rest)

/-- A text that ends in a break is read as these words before any other. -/
structure Opens (text : GoString) (ws : List GoString) : Prop where
  plain : ∀ x ∈ text, IsPlain x
  unmarked : ∀ w ∈ ws, isMark w = false
  reads : ∀ n rest, words (renumber ph n (text ++ rest)) = ws ++ words (renumber ph n rest)

/-- A byte of a word that is not a placeholder. -/
def IsWordByte (x : UInt8) : Prop := IsPlain x ∧ isBreak x = false ∧ x ≠ 63 ∧ x ≠ 36

instance decidableIsWordByte (x : UInt8) : Decidable (IsWordByte x) :=
  inferInstanceAs (Decidable (_ ∧ _))

def IsWord (w : GoString) : Prop := w ≠ [] ∧ ∀ x ∈ w, IsWordByte x

instance decidableIsWord (w : GoString) : Decidable (IsWord w) :=
  decidable_of_iff ((!w.isEmpty && w.all fun x => IsWordByte x) = true) (by simp [IsWord])

theorem IsWord.unbroken {w : GoString} (h : IsWord w) : Unbroken w :=
  fun x hx => ⟨(h.2 x hx).2.1, (h.2 x hx).1.2⟩

theorem IsWord.unmarked {w : GoString} (h : IsWord w) : isMark w = false := by
  have hquestion : 63 ∉ w := fun hmem => (h.2 63 hmem).2.2.1 rfl
  have hdollar : 36 ∉ w := fun hmem => (h.2 36 hmem).2.2.2 rfl
  simp [isMark, hquestion, hdollar]

variable {ph}

theorem renumber_append_of_notMem {a : GoString} (h : 63 ∉ a) (n : ℕ) (b : GoString) :
    renumber ph n (a ++ b) = a ++ renumber ph n b := by
  induction a with
  | nil => rfl
  | cons x xs ih =>
    rw [List.mem_cons, not_or] at h
    rw [List.cons_append, renumber, if_neg (Ne.symm h.1), ih h.2, List.cons_append]

theorem renumber_atBreak {text : GoString} (h : AtBreak text) (n : ℕ) :
    AtBreak (renumber ph n text) := by
  cases text with
  | nil => exact h
  | cons x xs =>
    have hx : isBreak x = true := h x rfl
    have hne : x ≠ 63 := by
      rintro rfl
      cases hx
    rw [renumber, if_neg hne]
    exact h

/-- For a text that is given, the bytes and the words can be looked through. -/
theorem opens_of_all {text : GoString} {ws : List GoString}
    (hplain : (text.all fun x => IsPlain x) = true) (hws : (ws.all fun w => !isMark w) = true)
    (hreads : ∀ n rest, words (renumber ph n (text ++ rest)) = ws ++ words (renumber ph n rest)) :
    Opens ph text ws where
  plain x hx := of_decide_eq_true (List.all_eq_true.mp hplain x hx)
  unmarked w hw := by simpa using List.all_eq_true.mp hws w hw
  reads := hreads

theorem spells_nil : Spells ph [] [] :=
  ⟨fun _ h => absurd h List.not_mem_nil, fun _ h => absurd h List.not_mem_nil, fun _ _ _ => rfl⟩

theorem spells_word {w : GoString} (h : IsWord w) : Spells ph w [.word w] where
  plain x hx := (h.2 x hx).1
  unmarked v hv := by
    obtain rfl := Slot.word.inj (List.mem_singleton.mp hv)
    exact h.unmarked
  reads n rest hrest := by
    have hmark : 63 ∉ w := fun hmem => (h.2 63 hmem).2.2.1 rfl
    rw [renumber_append_of_notMem hmark,
      words_unbroken_append h.1 h.unbroken (renumber_atBreak hrest n)]
    rfl

theorem Spells.append {a b : GoString} {as bs : List Slot} (ha : Spells ph a as)
    (hb : Spells ph b bs) (hbreak : AtBreak b) : Spells ph (a ++ b) (as ++ bs) where
  plain := List.forall_mem_append.mpr ⟨ha.plain, hb.plain⟩
  unmarked := ha.unmarked.append hb.unmarked
  reads n rest hrest := by
    rw [List.append_assoc, ha.reads n _ (hbreak.append hrest), hb.reads _ rest hrest, fill_append,
      marks_append, List.append_assoc, Nat.add_assoc]

theorem Opens.spells {a b : GoString} {ws : List GoString} {bs : List Slot} (ha : Opens ph a ws)
    (hb : Spells ph b bs) : Spells ph (a ++ b) (ws.map .word ++ bs) where
  plain := List.forall_mem_append.mpr ⟨ha.plain, hb.plain⟩
  unmarked := by
    refine Unmarked.append (fun w hw => ?_) hb.unmarked
    obtain ⟨v, hv, hvw⟩ := List.mem_map.mp hw
    rw [← Slot.word.inj hvw]
    exact ha.unmarked v hv
  reads n rest hrest := by
    rw [List.append_assoc, ha.reads, hb.reads n rest hrest, fill_append, fill_words, marks_append,
      marks_words, Nat.add_zero, Nat.zero_add, List.append_assoc]

/-- Parts with a separator that ends in a break. -/
theorem spells_intercalate {sep : GoString} {seps : List GoString} (hsep : Opens ph sep seps)
    (hbreak : AtBreak sep) (hne : sep ≠ []) {α : Type} (text : α → GoString)
    (slots : α → List Slot) {parts : List α} (h : ∀ p ∈ parts, Spells ph (text p) (slots p)) :
    Spells ph (sep.intercalate (parts.map text))
      ((seps.map .word).intercalate (parts.map slots)) := by
  induction parts with
  | nil => exact spells_nil
  | cons p parts ih =>
    obtain ⟨hp, hparts⟩ := List.forall_mem_cons.mp h
    cases parts with
    | nil => simpa using hp
    | cons q parts =>
      have hrest := hsep.spells (ih hparts)
      simp only [List.map_cons, List.intercalate_cons_cons, List.append_assoc]
      exact hp.append hrest (hbreak.append_of_ne_nil hne _)

variable (hph : ∀ n, ph n ≠ [] ∧ Unbroken (ph n))
include hph

theorem spells_mark : Spells ph (lit "?") [.mark] where
  plain x hx := by
    rw [List.mem_singleton.mp hx]
    decide
  unmarked v hv := nomatch List.mem_singleton.mp hv
  reads n rest hrest := by
    have htext : renumber ph n (lit "?" ++ rest) = ph n ++ renumber ph (n + 1) rest := rfl
    rw [htext, words_unbroken_append (hph n).1 (hph n).2 (renumber_atBreak hrest (n + 1))]
    rfl

end Spelling

section Alignment

/-- What placeholders have to look like: they are words, and only they have a mark. -/
structure Placeholders (ph : ℕ → GoString) : Prop where
  ne_nil : ∀ n, ph n ≠ []
  unbroken : ∀ n, Unbroken (ph n)
  marked : ∀ n, isMark (ph n) = true

variable (ph : ℕ → GoString)

/-- The question marks of the text belong to these columns. -/
def Aligned (text : GoString) (columns : List GoString) : Prop :=
  ∃ slots, Spells ph text slots ∧ Answers ph slots columns ∧ marks slots = columns.length

variable {ph}

theorem aligned_nil : Aligned ph [] [] := ⟨[], spells_nil, answers_nil, rfl⟩

theorem aligned_word {w : GoString} (h : IsWord w) : Aligned ph w [] := by
  have hunmarked : ∀ v ∈ [w], isMark v = false := by simpa using h.unmarked
  exact ⟨[.word w], spells_word h, answers_words hunmarked, rfl⟩

theorem Aligned.append {a b : GoString} {as bs : List GoString} (ha : Aligned ph a as)
    (hb : Aligned ph b bs) (hbreak : AtBreak b) : Aligned ph (a ++ b) (as ++ bs) := by
  obtain ⟨slotsA, hspellsA, hanswersA, hmarksA⟩ := ha
  obtain ⟨slotsB, hspellsB, hanswersB, hmarksB⟩ := hb
  refine ⟨slotsA ++ slotsB, hspellsA.append hspellsB hbreak, hanswersA.append hanswersB, ?_⟩
  rw [marks_append, hmarksA, hmarksB, List.length_append]

theorem Opens.aligned {a b : GoString} {ws bs : List GoString} (ha : Opens ph a ws)
    (hb : Aligned ph b bs) : Aligned ph (a ++ b) bs := by
  obtain ⟨slots, hspells, hanswers, hmarks⟩ := hb
  refine ⟨ws.map .word ++ slots, ha.spells hspells, (answers_words ha.unmarked).append hanswers, ?_⟩
  rw [marks_append, marks_words, hmarks, Nat.zero_add]

theorem aligned_intercalate {sep : GoString} {seps : List GoString} (hsep : Opens ph sep seps)
    (hbreak : AtBreak sep) (hne : sep ≠ []) {α : Type} (text : α → GoString)
    (columns : α → List GoString) {parts : List α}
    (h : ∀ p ∈ parts, Aligned ph (text p) (columns p)) :
    Aligned ph (sep.intercalate (parts.map text)) (parts.flatMap columns) := by
  induction parts with
  | nil => exact aligned_nil
  | cons p parts ih =>
    obtain ⟨hp, hparts⟩ := List.forall_mem_cons.mp h
    cases parts with
    | nil => simpa using hp
    | cons q parts =>
      have hrest := hsep.aligned (ih hparts)
      simp only [List.map_cons, List.intercalate_cons_cons, List.append_assoc]
      exact hp.append hrest (hbreak.append_of_ne_nil hne _)

variable (hph : Placeholders ph)
include hph

theorem aligned_compared {c op : GoString} (hc : IsWord c) (hop : op = lit "=" ∨ op = lit "<") :
    Aligned ph (c ++ lit " " ++ op ++ lit " ?") [c] := by
  have hword : IsWord op := by rcases hop with rfl | rfl <;> decide
  have hmark := spells_mark fun n => ⟨hph.ne_nil n, hph.unbroken n⟩
  have hblank : Opens ph (lit " ") [] := opens_of_all rfl rfl fun _ _ => rfl
  have htail := hblank.spells ((spells_word hword).append (hblank.spells hmark)
    (atBreak_cons (x := 32) rfl _))
  refine ⟨_, ?_, answers_compared hph.marked hc.unmarked hop, rfl⟩
  rw [List.append_assoc, List.append_assoc]
  exact (spells_word hc).append htail (atBreak_cons (x := 32) rfl _)

theorem aligned_increased {c : GoString} (hc : IsWord c) :
    Aligned ph (c ++ lit " = " ++ c ++ lit " + ?") [c] := by
  have hmark := spells_mark fun n => ⟨hph.ne_nil n, hph.unbroken n⟩
  have hassign : Opens ph (lit " = ") [lit "="] := opens_of_all rfl rfl fun _ _ => rfl
  have hplus : Opens ph (lit " + ") [lit "+"] := opens_of_all rfl rfl fun _ _ => rfl
  have hsum := (spells_word hc).append (hplus.spells hmark) (atBreak_cons (x := 32) rfl _)
  refine ⟨_, ?_, answers_increased hph.marked hc.unmarked, rfl⟩
  rw [List.append_assoc, List.append_assoc]
  exact (spells_word hc).append (hassign.spells hsum) (atBreak_cons (x := 32) rfl _)

end Alignment

end Musgos.Foundation.SqlText
