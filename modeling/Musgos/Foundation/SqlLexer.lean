import Musgos.Foundation.Bytes

/-!
# Words and tokens of an SQL statement

A statement is a sequence of words. Blanks separate them, a comma or a bracket is a word of its
own, and between two quotes nothing is separated. As a token a word is a bracket, a comma or a
literal, and otherwise a name, a keyword, a number or a sign.

A statement is composed of parts that end outside of quotes. Where a word ends between two parts,
both together are read as the one and then the other. Readers take from the tokens what they
expect and leave the rest to the next.
-/
namespace Musgos.Foundation.SqlLexer

section Words

/-- A blank, a tab or a newline. -/
def isGap (x : UInt8) : Bool := x = 32 ∨ x = 9 ∨ x = 10

/-- A byte that ends a word. -/
def isBreak (x : UInt8) : Bool := isGap x ∨ x = 44 ∨ x = 40 ∨ x = 41

def flush (word : GoString) : List GoString := if word = [] then [] else [word]

/-- Whether a quote is open after another byte. One that is doubled in a literal closes it and
opens it again. -/
def quotedAfter (quoted : Bool) (x : UInt8) : Bool := if x = 39 then !quoted else quoted

/-- The words of a text, within quotes or not and after the beginning of a word. -/
def wordsFrom : Bool → GoString → GoString → List GoString
  | _, word, [] => flush word
  | quoted, word, x :: xs =>
    if isBreak x && !quoted then
      flush word ++ (if isGap x then [] else [[x]]) ++ wordsFrom false [] xs
    else wordsFrom (quotedAfter quoted x) (word ++ [x]) xs

def words (text : GoString) : List GoString := wordsFrom false [] text

/-- A text before which a word ends. -/
def AtBreak (text : GoString) : Prop := ∀ x ∈ text.head?, isBreak x = true

theorem atBreak_nil : AtBreak [] := by
  intro x hx
  cases hx

theorem atBreak_cons {x : UInt8} (hx : isBreak x = true) (xs : GoString) : AtBreak (x :: xs) := by
  intro y hy
  rwa [← Option.some.inj hy]

theorem AtBreak.append {a b : GoString} (ha : AtBreak a) (hb : AtBreak b) : AtBreak (a ++ b) := by
  cases a with
  | nil => exact hb
  | cons x xs => exact ha

theorem AtBreak.append_of_ne_nil {a : GoString} (ha : AtBreak a) (hne : a ≠ []) (b : GoString) :
    AtBreak (a ++ b) := by
  obtain ⟨x, xs, rfl⟩ := List.exists_cons_of_ne_nil hne
  exact ha

theorem wordsFrom_of_atBreak (word : GoString) {rest : GoString} (h : AtBreak rest) :
    wordsFrom false word rest = flush word ++ words rest := by
  cases rest with
  | nil => simp [words, wordsFrom, flush]
  | cons x xs =>
    have hx : isBreak x = true := h x rfl
    simp [words, wordsFrom, hx, flush]

/-- No quote is open at the end. -/
def Closed (text : GoString) : Prop := text.foldl quotedAfter false = false

theorem quotedAfter_of_isBreak {x : UInt8} (hx : isBreak x = true) (quoted : Bool) :
    quotedAfter quoted x = quoted := by
  refine if_neg ?_
  rintro rfl
  cases hx

theorem wordsFrom_append {quoted : Bool} (word : GoString) {a b : GoString}
    (ha : a.foldl quotedAfter quoted = false) (hb : AtBreak b) :
    wordsFrom quoted word (a ++ b) = wordsFrom quoted word a ++ words b := by
  induction a generalizing quoted word with
  | nil =>
    obtain rfl : quoted = false := ha
    exact wordsFrom_of_atBreak word hb
  | cons x xs ih =>
    rw [List.foldl_cons] at ha
    rw [List.cons_append, wordsFrom, wordsFrom]
    by_cases hbreak : (isBreak x && !quoted) = true
    · obtain ⟨hx, hquoted⟩ := Bool.and_eq_true_iff.mp hbreak
      obtain rfl : quoted = false := by simpa using hquoted
      rw [quotedAfter_of_isBreak hx] at ha
      rw [if_pos hbreak, if_pos hbreak, ih [] ha]
      simp only [List.append_assoc]
    · rw [if_neg hbreak, if_neg hbreak]
      exact ih _ ha

theorem words_append {a b : GoString} (ha : Closed a) (hb : AtBreak b) :
    words (a ++ b) = words a ++ words b := wordsFrom_append [] ha hb

theorem words_cons_of_isBreak {x : UInt8} (hx : isBreak x = true) (xs : GoString) :
    words (x :: xs) = words [x] ++ words xs := by
  simp [words, wordsFrom, hx, flush]

/-- After a break a word begins, whatever follows. -/
theorem words_append_of_last {a : GoString} (ha : Closed a)
    (hlast : a.getLast?.any isBreak = true) (b : GoString) :
    words (a ++ b) = words a ++ words b := by
  induction a using List.reverseRecOn with
  | nil => cases hlast
  | append_singleton a x =>
    have hx : isBreak x = true := by simpa using hlast
    have hclosed : Closed a := by
      rw [Closed, List.foldl_append, List.foldl_cons, List.foldl_nil,
        quotedAfter_of_isBreak hx] at ha
      exact ha
    rw [List.append_assoc, List.singleton_append, words_append hclosed (atBreak_cons hx b),
      words_append hclosed (atBreak_cons hx []), words_cons_of_isBreak hx, List.append_assoc]

/-- The bytes of one word. -/
def Unbroken (w : GoString) : Prop := ∀ x ∈ w, isBreak x = false ∧ x ≠ 39

/-- The digits, the letters and the minus come after all breaks and the quote. -/
theorem isBreak_of_lt {x : UInt8} (h : 44 < x.toNat) : isBreak x = false ∧ x ≠ 39 := by
  simp only [isBreak, isGap, decide_eq_true_eq, decide_eq_false_iff_not, ne_eq,
    ← UInt8.toNat_inj]
  simp
  omega

theorem wordsFrom_of_unbroken (word : GoString) {w : GoString} (hw : Unbroken w) :
    wordsFrom false word w = flush (word ++ w) := by
  induction w generalizing word with
  | nil => rw [wordsFrom, List.append_nil]
  | cons x xs ih =>
    obtain ⟨⟨hx, hquote⟩, hxs⟩ := List.forall_mem_cons.mp hw
    rw [wordsFrom, if_neg (by simp [hx]), quotedAfter, if_neg hquote, ih _ hxs,
      List.append_assoc, List.singleton_append]

theorem words_of_unbroken {w : GoString} (hne : w ≠ []) (hw : Unbroken w) : words w = [w] := by
  rw [words, wordsFrom_of_unbroken [] hw, List.nil_append, flush, if_neg hne]

theorem Unbroken.closed {w : GoString} (hw : Unbroken w) : Closed w := by
  induction w with
  | nil => rfl
  | cons x xs ih =>
    obtain ⟨⟨-, hquote⟩, hxs⟩ := List.forall_mem_cons.mp hw
    rw [Closed, List.foldl_cons, quotedAfter, if_neg hquote]
    exact ih hxs

theorem words_unbroken_append {w rest : GoString} (hne : w ≠ []) (hw : Unbroken w)
    (hrest : AtBreak rest) : words (w ++ rest) = w :: words rest := by
  rw [words_append hw.closed hrest, words_of_unbroken hne hw, List.singleton_append]

end Words

section Tokens

/-- A piece of a statement. -/
inductive Tok where
  /-- A name, a keyword, a number or a sign. -/
  | word (text : GoString)
  | literal (text : GoString)
  | opening
  | closing
  | comma
  /-- The argument that a placeholder stands for. -/
  | arg (k : ℕ)
  deriving DecidableEq

/-- The text of a literal, after the quote that opens it. A zero byte ends a statement, so that no
text has one. -/
def unquote : GoString → Option GoString
  | [] => none
  | [x] => if x = 39 then some [] else none
  | x :: y :: rest =>
    if x = 0 then none
    else if x = 39 then if y = 39 then (unquote rest).map (39 :: ·) else none
    else (unquote (y :: rest)).map (x :: ·)

def Tok.of (w : GoString) : Tok :=
  if w = [40] then .opening
  else if w = [41] then .closing
  else if w = [44] then .comma
  else if w.head? = some 39 then (unquote w.tail).elim (.word w) .literal
  else .word w

def lex (text : GoString) : List Tok := (words text).map Tok.of

def keywords (ws : List GoString) : List Tok := ws.map .word

def separate (sep : Tok) (items : List (List Tok)) : List Tok := [sep].intercalate items

/-- A list in brackets. -/
def listToks (items : List (List Tok)) : List Tok :=
  .opening :: (separate .comma items ++ [Tok.closing])

/-- The bytes of a literal between its quotes. -/
def doubled (text : GoString) : GoString := text.flatMap fun x => if x = 39 then [39, 39] else [x]

theorem doubled_cons (x : UInt8) (xs : GoString) :
    doubled (x :: xs) = (if x = 39 then [39, 39] else [x]) ++ doubled xs := List.flatMap_cons

theorem Tok.of_unbroken {w : GoString} (hw : Unbroken w) : Tok.of w = .word w := by
  have hne : ∀ x, isBreak x = true → w ≠ [x] := by
    rintro x hx rfl
    have hunbroken := (hw x List.mem_cons_self).1
    rw [hx] at hunbroken
    cases hunbroken
  have hquote : w.head? ≠ some 39 := fun h => (hw 39 (List.mem_of_mem_head? h)).2 rfl
  rw [Tok.of, if_neg (hne 40 rfl), if_neg (hne 41 rfl), if_neg (hne 44 rfl), if_neg hquote]

theorem unquote_cons {x : UInt8} {rest : GoString} (hzero : x ≠ 0) (hquote : x ≠ 39)
    (hne : rest ≠ []) : unquote (x :: rest) = (unquote rest).map (x :: ·) := by
  obtain ⟨y, ys, rfl⟩ := List.exists_cons_of_ne_nil hne
  rw [unquote, if_neg hzero, if_neg hquote]

theorem unquote_doubled {text : GoString} (hzero : 0 ∉ text) :
    unquote (doubled text ++ [39]) = some text := by
  induction text with
  | nil => rfl
  | cons x xs ih =>
    rw [List.mem_cons, not_or] at hzero
    rw [doubled_cons]
    split_ifs with hx
    · have hpair : unquote ([39, 39] ++ doubled xs ++ [39]) =
          (unquote (doubled xs ++ [39])).map (39 :: ·) := rfl
      rw [hpair, ih hzero.2, hx, Option.map_some]
    · rw [List.append_assoc, List.singleton_append,
        unquote_cons (Ne.symm hzero.1) hx (by simp), ih hzero.2, Option.map_some]

theorem wordsFrom_doubled (word text rest : GoString) :
    wordsFrom true word (doubled text ++ rest) = wordsFrom true (word ++ doubled text) rest := by
  induction text generalizing word with
  | nil => rw [doubled, List.flatMap_nil, List.nil_append, List.append_nil]
  | cons x xs ih =>
    have hbyte : ∀ rest, wordsFrom true word ((if x = 39 then [39, 39] else [x]) ++ rest) =
        wordsFrom true (word ++ if x = 39 then [39, 39] else [x]) rest := by
      intro rest
      split_ifs with hx
      · simp [wordsFrom, quotedAfter, isBreak, isGap]
      · simp [wordsFrom, quotedAfter, hx]
    rw [doubled_cons, List.append_assoc, hbyte, ih, List.append_assoc]

theorem foldl_doubled (text : GoString) : (doubled text).foldl quotedAfter true = true := by
  induction text with
  | nil => rfl
  | cons x xs ih =>
    have hbyte : (if x = 39 then [39, 39] else [x]).foldl quotedAfter true = true := by
      split_ifs with hx
      · rfl
      · simp [quotedAfter, hx]
    rw [doubled_cons, List.foldl_append, hbyte, ih]

end Tokens

section Parts

/-- A text that is read as these tokens and ends outside of quotes. -/
structure Phrase (text : GoString) (toks : List Tok) : Prop where
  closed : Closed text
  lexed : lex text = toks

/-- A text that is read so before any other. -/
structure Head (text : GoString) (toks : List Tok) : Prop extends Phrase text toks where
  ends : text.getLast?.any isBreak = true

/-- A text that is read so after any other. -/
structure Tail (text : GoString) (toks : List Tok) : Prop extends Phrase text toks where
  begins : AtBreak text

/-- A text that is read so between any two. -/
structure Lead (text : GoString) (toks : List Tok) : Prop extends Head text toks where
  begins : text.head?.any isBreak = true

variable {a b text : GoString} {as bs toks : List Tok}

theorem Closed.append (ha : Closed a) (hb : Closed b) : Closed (a ++ b) := by
  rw [Closed, List.foldl_append, ha]
  exact hb

theorem atBreak_of_any (h : text.head?.any isBreak = true) : AtBreak text := by
  cases text with
  | nil => exact atBreak_nil
  | cons x xs => exact atBreak_cons h xs

theorem Phrase.append (ha : Phrase a as) (hb : Tail b bs) : Phrase (a ++ b) (as ++ bs) where
  closed := ha.closed.append hb.closed
  lexed := by
    rw [lex, words_append ha.closed hb.begins, List.map_append, ← ha.lexed, ← hb.lexed, lex, lex]

theorem Head.append (ha : Head a as) (hb : Phrase b bs) : Phrase (a ++ b) (as ++ bs) where
  closed := ha.closed.append hb.closed
  lexed := by
    rw [lex, words_append_of_last ha.closed ha.ends, List.map_append, ← ha.lexed, ← hb.lexed, lex,
      lex]

theorem Tail.append (ha : Tail a as) (hb : Tail b bs) : Tail (a ++ b) (as ++ bs) :=
  ⟨ha.toPhrase.append hb, ha.begins.append hb.begins⟩

theorem Lead.append (ha : Lead a as) (hb : Phrase b bs) : Tail (a ++ b) (as ++ bs) := by
  refine ⟨ha.toHead.append hb, (atBreak_of_any ha.begins).append_of_ne_nil ?_ b⟩
  rintro rfl
  cases ha.begins

theorem tail_nil : Tail [] [] := ⟨⟨rfl, rfl⟩, atBreak_nil⟩

theorem Tail.ite {c : Prop} [Decidable c] (ha : Tail a as) (hb : Tail b bs) :
    Tail (if c then a else b) (if c then as else bs) := by
  split_ifs
  · exact ha
  · exact hb

theorem head_of_lex (hends : text.getLast?.any isBreak = true) (hclosed : Closed text)
    (hlex : lex text = toks) : Head text toks := ⟨⟨hclosed, hlex⟩, hends⟩

theorem lead_of_lex (hbegins : text.head?.any isBreak = true)
    (hends : text.getLast?.any isBreak = true) (hclosed : Closed text) (hlex : lex text = toks) :
    Lead text toks := ⟨head_of_lex hends hclosed hlex, hbegins⟩

theorem tail_of_lex (hbegins : text.head?.any isBreak = true) (hclosed : Closed text)
    (hlex : lex text = toks) : Tail text toks := ⟨⟨hclosed, hlex⟩, atBreak_of_any hbegins⟩

theorem phrase_word {w : GoString} (hne : w ≠ []) (hw : Unbroken w) : Phrase w [.word w] where
  closed := hw.closed
  lexed := by rw [lex, words_of_unbroken hne hw, List.map_singleton, Tok.of_unbroken hw]

theorem phrase_literal (hzero : 0 ∉ text) :
    Phrase (39 :: doubled text ++ [39]) [.literal text] where
  closed := by
    have hopen : quotedAfter false 39 = true := rfl
    rw [Closed, List.cons_append, List.foldl_cons, hopen, List.foldl_append, foldl_doubled]
    rfl
  lexed := by
    have hopen : words (39 :: doubled text ++ [39]) = wordsFrom true [39] (doubled text ++ [39]) :=
      rfl
    have hword : words (39 :: doubled text ++ [39]) = [39 :: doubled text ++ [39]] := by
      rw [hopen, wordsFrom_doubled]
      simp [wordsFrom, flush]
    have htok : Tok.of (39 :: doubled text ++ [39]) =
        (unquote (doubled text ++ [39])).elim (.word (39 :: doubled text ++ [39])) .literal := by
      simp [Tok.of]
    rw [lex, hword, List.map_singleton, htok, unquote_doubled hzero]
    rfl

theorem phrase_quoted (hword : Unbroken text) (hzero : 0 ∉ text) :
    Phrase (39 :: text ++ [39]) [.literal text] := by
  have hdoubled : doubled text = text := by
    have hbytes : ∀ x ∈ text, (if x = 39 then [39, 39] else [x]) = [x] :=
      fun x hx => if_neg (hword x hx).2
    rw [doubled, List.flatMap_congr hbytes, List.flatMap_singleton']
  have hliteral := phrase_literal hzero
  rwa [hdoubled] at hliteral

section Lists

variable {α : Type} {sep : GoString} {seps : List Tok} (hsep : Lead sep seps)
variable (render : α → GoString) (tokens : α → List Tok)
include hsep

theorem phrase_intercalate {parts : List α} (h : ∀ p ∈ parts, Phrase (render p) (tokens p)) :
    Phrase (sep.intercalate (parts.map render)) (seps.intercalate (parts.map tokens)) := by
  induction parts with
  | nil => exact tail_nil.toPhrase
  | cons p parts ih =>
    obtain ⟨hp, hparts⟩ := List.forall_mem_cons.mp h
    cases parts with
    | nil => simpa using hp
    | cons q parts =>
      simp only [List.map_cons, List.intercalate_cons_cons, List.append_assoc]
      exact hp.append (hsep.append (ih hparts))

theorem tail_flatMap {parts : List α} (h : ∀ p ∈ parts, Phrase (render p) (tokens p)) :
    Tail (parts.flatMap fun p => sep ++ render p) (parts.flatMap fun p => seps ++ tokens p) := by
  induction parts with
  | nil => exact tail_nil
  | cons p parts ih =>
    obtain ⟨hp, hparts⟩ := List.forall_mem_cons.mp h
    exact (hsep.append hp).append (ih hparts)

end Lists

end Parts

/-! The items of a bracket are separated by the commas that are in no inner bracket. -/
section Items

/-- The items up to the bracket that closes, and what follows it. -/
def itemsFrom (depth : ℕ) (item : List Tok) : List Tok → Option (List (List Tok) × List Tok)
  | [] => none
  | .opening :: ts => itemsFrom (depth + 1) (item ++ [.opening]) ts
  | .closing :: ts =>
    if depth = 0 then some ([item], ts) else itemsFrom (depth - 1) (item ++ [Tok.closing]) ts
  | .comma :: ts =>
    if depth = 0 then (itemsFrom 0 [] ts).map fun p => (item :: p.1, p.2)
    else itemsFrom depth (item ++ [.comma]) ts
  | t :: ts => itemsFrom depth (item ++ [t]) ts

def items (toks : List Tok) : Option (List (List Tok) × List Tok) := itemsFrom 0 [] toks

/-- Read as a part of one item, at depth `depth` or more. -/
def Whole (depth : ℕ) (toks : List Tok) : Prop :=
  ∀ extra item rest, itemsFrom (depth + extra) item (toks ++ rest) =
    itemsFrom (depth + extra) (item ++ toks) rest

variable {depth : ℕ} {a b : List Tok}

theorem whole_nil : Whole depth [] := by
  intro extra item rest
  rw [List.nil_append, List.append_nil]

theorem whole_word (w : GoString) : Whole depth [.word w] := fun _ _ _ => rfl

theorem whole_literal (t : GoString) : Whole depth [.literal t] := fun _ _ _ => rfl

theorem whole_comma : Whole (depth + 1) [.comma] := by
  intro extra item rest
  have hdeep : depth + 1 + extra ≠ 0 := by omega
  rw [List.singleton_append, itemsFrom, if_neg hdeep]

theorem Whole.append (ha : Whole depth a) (hb : Whole depth b) : Whole depth (a ++ b) := by
  intro extra item rest
  rw [List.append_assoc, ha, hb, List.append_assoc]

theorem Whole.cons {t : Tok} (ht : Whole depth [t]) (ha : Whole depth a) : Whole depth (t :: a) :=
  ht.append ha

theorem Whole.ite {c : Prop} [Decidable c] (ha : Whole depth a) (hb : Whole depth b) :
    Whole depth (if c then a else b) := by
  split_ifs
  · exact ha
  · exact hb

theorem Whole.bracket (h : Whole (depth + 1) a) :
    Whole depth (.opening :: (a ++ [Tok.closing])) := by
  intro extra item rest
  have hdepth : depth + extra + 1 = depth + 1 + extra := by omega
  have hback : depth + 1 + extra - 1 = depth + extra := by omega
  rw [List.cons_append, itemsFrom, List.append_assoc, hdepth, h,
    List.singleton_append, itemsFrom, if_neg (by omega), hback]
  simp

theorem whole_keywords (ws : List GoString) : Whole depth (keywords ws) := by
  induction ws with
  | nil => exact whole_nil
  | cons w ws ih => exact (whole_word w).cons ih

theorem whole_separate {sep : Tok} (hsep : Whole depth [sep]) {parts : List (List Tok)}
    (h : ∀ p ∈ parts, Whole depth p) : Whole depth (separate sep parts) := by
  induction parts with
  | nil => exact whole_nil
  | cons p parts ih =>
    obtain ⟨hp, hparts⟩ := List.forall_mem_cons.mp h
    cases parts with
    | nil => simpa [separate] using hp
    | cons q parts =>
      rw [separate, List.intercalate_cons_cons]
      exact (hp.append hsep).append (ih hparts)

theorem whole_listToks {parts : List (List Tok)} (h : ∀ p ∈ parts, Whole (depth + 1) p) :
    Whole depth (listToks parts) := Whole.bracket (whole_separate whole_comma h)

/-- Items that are whole are found again. -/
theorem items_separate {parts : List (List Tok)} (hne : parts ≠ [])
    (h : ∀ p ∈ parts, Whole 0 p) (rest : List Tok) :
    items (separate .comma parts ++ .closing :: rest) = some (parts, rest) := by
  have hitem : ∀ p, Whole 0 p → ∀ rest, items (p ++ rest) = itemsFrom 0 p rest :=
    fun p hp rest => hp 0 [] rest
  induction parts with
  | nil => exact absurd rfl hne
  | cons p parts ih =>
    obtain ⟨hp, hparts⟩ := List.forall_mem_cons.mp h
    cases parts with
    | nil => rw [separate, List.intercalate_singleton, hitem p hp, itemsFrom, if_pos rfl]
    | cons q parts =>
      have hrest := ih (List.cons_ne_nil q parts) hparts
      rw [items, separate] at hrest
      rw [separate, List.intercalate_cons_cons, List.append_assoc, List.append_assoc, hitem p hp,
        List.singleton_append, itemsFrom, if_pos rfl, hrest]
      rfl

end Items

/-! A reader takes the tokens that it expects from a list, and returns what it has read and what
follows. -/
section Readers

variable {α : Type}

/-- The tokens have to be there. -/
def expect (ks toks : List Tok) : Option (List Tok) :=
  if ks <+: toks then some (toks.drop ks.length) else none

/-- The tokens may be there; whether they are, and what follows. -/
def skip (ks toks : List Tok) : Bool × List Tok :=
  ((expect ks toks).isSome, (expect ks toks).getD toks)

/-- Nothing may follow. -/
def finish (a : α) (toks : List Tok) : Option α := if toks = [] then some a else none

def readName (isName : GoString → Bool) : List Tok → Option (GoString × List Tok)
  | .word w :: toks => if isName w then some (w, toks) else none
  | _ => none

/-- Items with a separator between them; the number is a bound on theirs. -/
def readSeparated (item : List Tok → Option (α × List Tok)) (sep : Tok) :
    ℕ → List Tok → Option (List α × List Tok)
  | 0, _ => none
  | bound + 1, toks =>
    (item toks).bind fun r =>
      if r.2.head? = some sep then
        (readSeparated item sep bound r.2.tail).map fun s => (r.1 :: s.1, s.2)
      else some ([r.1], r.2)

/-- Items in brackets. -/
def readList (item : List Tok → Option (α × List Tok)) (toks : List Tok) :
    Option (List α × List Tok) := do
  let toks ← expect [.opening] toks
  let (as, toks) ← readSeparated item .comma (toks.length + 1) toks
  let toks ← expect [.closing] toks
  return (as, toks)

theorem expect_append (ks rest : List Tok) : expect ks (ks ++ rest) = some rest := by
  rw [expect, if_pos (List.prefix_append _ _), List.drop_left]

theorem expect_cons (k : Tok) (ks rest : List Tok) :
    expect (k :: ks) (k :: rest) = expect ks rest := by
  simp [expect]

theorem expect_nil (rest : List Tok) : expect [] rest = some rest := by
  simp [expect]

theorem expect_keywords_of_ne {w v : GoString} (h : w ≠ v) (ws : List GoString) (rest : List Tok) :
    expect (keywords (w :: ws)) (.word v :: rest) = none :=
  if_neg fun hprefix => h (Tok.word.inj (List.cons_prefix_cons.mp hprefix).1)

theorem skip_append (ks rest : List Tok) : skip ks (ks ++ rest) = (true, rest) := by
  rw [skip, expect_append]
  rfl

theorem readName_cons {isName : GoString → Bool} {w : GoString} (h : isName w = true)
    (rest : List Tok) : readName isName (.word w :: rest) = some (w, rest) := if_pos h

theorem readSeparated_append {item : List Tok → Option (α × List Tok)} {sep : Tok}
    {write : α → List Tok} {as : List α}
    (hitem : ∀ a ∈ as, ∀ rest, item (write a ++ rest) = some (a, rest)) (hne : as ≠ [])
    {rest : List Tok} (hrest : rest.head? ≠ some sep) {bound : ℕ} (hbound : as.length ≤ bound) :
    readSeparated item sep bound (separate sep (as.map write) ++ rest) = some (as, rest) := by
  induction as generalizing bound with
  | nil => exact absurd rfl hne
  | cons a as ih =>
    obtain ⟨ha, has⟩ := List.forall_mem_cons.mp hitem
    cases bound with
    | zero => simp at hbound
    | succ bound =>
      cases as with
      | nil =>
        have hone : separate sep ([a].map write) = write a := by simp [separate]
        rw [readSeparated, hone, ha, Option.bind_some, if_neg hrest]
      | cons b as =>
        have hmore : separate sep ((a :: b :: as).map write) ++ rest =
            write a ++ (sep :: (separate sep ((b :: as).map write) ++ rest)) := by
          simp [separate, List.intercalate_cons_cons]
        have hlength : (b :: as).length ≤ bound := Nat.le_of_succ_le_succ hbound
        rw [readSeparated, hmore, ha, Option.bind_some]
        dsimp only
        rw [List.head?_cons, if_pos rfl, List.tail_cons, ih has (List.cons_ne_nil b as) hlength]
        rfl

theorem length_separate_ge (sep : Tok) (items : List (List Tok)) :
    items.length ≤ (separate sep items).length + 1 := by
  induction items with
  | nil => exact Nat.zero_le _
  | cons a items ih =>
    cases items with
    | nil => simp
    | cons b items =>
      rw [separate, List.intercalate_cons_cons, ← separate]
      simp only [List.length_cons, List.length_append] at ih ⊢
      omega

theorem readSeparated_separate (item : List Tok → Option (α × List Tok)) (sep : Tok)
    (write : α → List Tok) (rest : List Tok) {as : List α}
    (hitem : ∀ a ∈ as, ∀ rest, item (write a ++ rest) = some (a, rest)) (hne : as ≠ [])
    (hrest : rest.head? ≠ some sep) :
    readSeparated item sep ((separate sep (as.map write) ++ rest).length + 1)
      (separate sep (as.map write) ++ rest) = some (as, rest) := by
  apply readSeparated_append hitem hne hrest
  have hlength := length_separate_ge sep (as.map write)
  rw [List.length_map] at hlength
  rw [List.length_append]
  omega

theorem readList_listToks (item : List Tok → Option (α × List Tok)) (write : α → List Tok)
    (rest : List Tok) {as : List α}
    (hitem : ∀ a ∈ as, ∀ rest, item (write a ++ rest) = some (a, rest)) (hne : as ≠ []) :
    readList item (listToks (as.map write) ++ rest) = some (as, rest) := by
  have hread := readSeparated_separate item .comma write (.closing :: rest) hitem hne (by simp)
  have htoks : listToks (as.map write) ++ rest =
      .opening :: (separate .comma (as.map write) ++ .closing :: rest) := by
    simp [listToks]
  rw [htoks]
  simp only [readList, expect_cons, expect_nil, hread, Option.bind_eq_bind, Option.bind_some]
  rfl

end Readers

end Musgos.Foundation.SqlLexer
