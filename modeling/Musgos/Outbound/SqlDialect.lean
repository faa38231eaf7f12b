import Musgos.Foundation.Bytes
import Musgos.Foundation.Utf8
import Musgos.Lingo.Text

/-!
# Placeholders of the SQL dialects

All SQL is written with question marks. SQLite takes them as they are; for Postgres
`RebindDollar` numbers them, except in string literals. It keeps one bit, which every quote
turns over, and never looks ahead. What a literal is says the lexer below: it ends at the first
quote that is not doubled. The two agree because a doubled quote turns the bit over twice.
-/
namespace Musgos.Outbound

open Foundation Lingo

/-- The loop of `RebindDollar` over the runes of the query. -/
def rebindRunes : List GoString → ℕ → Bool → GoString
  | [], _, _ => []
  | r :: rs, n, inLiteral =>
    if r = lit "'" then r ++ rebindRunes rs n !inLiteral
    else if r = lit "?" ∧ inLiteral = false then
      lit "$" ++ decimal (n + 1) ++ rebindRunes rs (n + 1) inLiteral
    else r ++ rebindRunes rs n inLiteral

def rebindDollar (query : GoString) : GoString := rebindRunes (runes query) 0 false

/-- The two databases. -/
inductive Dialect where
  | sqlite
  | postgres
  deriving DecidableEq

def Dialect.rebind : Dialect → GoString → GoString
  | .sqlite, query => query
  | .postgres, query => rebindDollar query

section Lexer

def quote : Char := Char.ofNat 39

/-- A piece of a statement, as the numbering of its placeholders sees it. -/
inductive SqlToken where
  /-- A string literal, with its quotes. -/
  | literal (text : List Char)
  | other (c : Char)
  deriving DecidableEq

/-- The text after an opening quote, up to the quote that closes the literal and from there on.
A doubled quote is part of the literal; without a quote that closes it, it takes the rest. -/
def splitLiteral : List Char → List Char × List Char
  | [] => ([], [])
  | [c] => ([c], [])
  | c :: d :: cs =>
    if c = quote then
      if d = quote then (c :: d :: (splitLiteral cs).1, (splitLiteral cs).2) else ([c], d :: cs)
    else (c :: (splitLiteral (d :: cs)).1, (splitLiteral (d :: cs)).2)

theorem splitLiteral_length (cs : List Char) : (splitLiteral cs).2.length ≤ cs.length := by
  fun_induction splitLiteral cs with
  | case1 => exact le_rfl
  | case2 c => exact Nat.zero_le _
  | case3 cs ih => exact ih.trans (Nat.le_add_right _ 2)
  | case4 d cs hd => exact Nat.le_succ _
  | case5 c d cs hc ih => exact ih.trans (Nat.le_succ _)

def sqlTokens : List Char → List SqlToken
  | [] => []
  | c :: cs =>
    if c = quote then .literal (c :: (splitLiteral cs).1) :: sqlTokens (splitLiteral cs).2
    else .other c :: sqlTokens cs
termination_by cs => cs.length
decreasing_by
  · exact Nat.lt_succ_of_le (splitLiteral_length cs)
  · exact Nat.lt_succ_self _

def placeholder : SqlToken := .other '?'

/-- A token, where a placeholder gets the number `k`. -/
def SqlToken.numbered (k : ℕ) : SqlToken → List Char
  | .literal text => text
  | .other c => if c = '?' then '$' :: Nat.toDigits 10 k else [c]

/-- Every token is copied, and the `k`-th placeholder from the left is written as `$k`. -/
def numberPlaceholders (query : List Char) : List Char :=
  let tokens := sqlTokens query
  (tokens.mapIdx fun i t => t.numbered ((tokens.take (i + 1)).count placeholder)).flatten

end Lexer

section Agreement

/-- The loop on characters. -/
def rebindChars : List Char → ℕ → Bool → List Char
  | [], _, _ => []
  | c :: cs, n, inLiteral =>
    if c = quote then c :: rebindChars cs n !inLiteral
    else if c = '?' ∧ inLiteral = false then
      '$' :: Nat.toDigits 10 (n + 1) ++ rebindChars cs (n + 1) inLiteral
    else c :: rebindChars cs n inLiteral

theorem rebindChars_literal (cs : List Char) (n : ℕ) :
    rebindChars cs n true = (splitLiteral cs).1 ++ rebindChars (splitLiteral cs).2 n false := by
  fun_induction splitLiteral cs with
  | case1 => rfl
  | case2 c => simp [rebindChars]
  | case3 cs ih => simp [rebindChars, ih]
  | case4 d cs hd => simp [rebindChars]
  | case5 c d cs hc ih =>
    rw [rebindChars, if_neg hc, if_neg (by simp), ih]
    rfl

/-- The tokens with the placeholders numbered from `n + 1` on. -/
def numberedFrom : ℕ → List SqlToken → List Char
  | _, [] => []
  | n, t :: ts => t.numbered (n + 1) ++ numberedFrom (if t = placeholder then n + 1 else n) ts

theorem numbered_of_ne {t : SqlToken} (h : t ≠ placeholder) (j k : ℕ) :
    t.numbered j = t.numbered k := by
  cases t with
  | literal text => rfl
  | other c =>
    have hc : c ≠ '?' := fun hc => h (by rw [hc, placeholder])
    rw [SqlToken.numbered, SqlToken.numbered, if_neg hc, if_neg hc]

theorem rebindChars_eq_numberedFrom (cs : List Char) (n : ℕ) :
    rebindChars cs n false = numberedFrom n (sqlTokens cs) := by
  fun_induction sqlTokens cs generalizing n with
  | case1 => rfl
  | case2 cs ih =>
    have hne : SqlToken.literal (quote :: (splitLiteral cs).1) ≠ placeholder := nofun
    rw [rebindChars, if_pos rfl, Bool.not_false, rebindChars_literal, ih, numberedFrom, if_neg hne]
    rfl
  | case3 c cs hc ih =>
    by_cases hmark : c = '?'
    · have hplaceholder : SqlToken.other c = placeholder := by rw [hmark, placeholder]
      rw [rebindChars, if_neg hc, if_pos ⟨hmark, rfl⟩, ih, numberedFrom, if_pos hplaceholder,
        SqlToken.numbered, if_pos hmark]
    · have hne : SqlToken.other c ≠ placeholder := fun h => hmark (SqlToken.other.inj h)
      rw [rebindChars, if_neg hc, if_neg fun h => hmark h.1, ih, numberedFrom, if_neg hne,
        SqlToken.numbered, if_neg hmark]
      rfl

/-- The number of a placeholder is how many there are up to it. -/
theorem numberedFrom_eq_mapIdx (n : ℕ) (ts : List SqlToken) :
    numberedFrom n ts =
      (ts.mapIdx fun i t => t.numbered (n + (ts.take (i + 1)).count placeholder)).flatten := by
  induction ts generalizing n with
  | nil => rfl
  | cons t ts ih =>
    rw [numberedFrom, List.mapIdx_cons, List.flatten_cons, ih]
    by_cases ht : t = placeholder
    · subst ht
      simp only [if_true, List.take_succ_cons, List.take_zero, List.count_cons_self,
        List.count_nil, zero_add, Nat.add_assoc, Nat.add_comm 1]
    · simp only [if_neg ht, List.take_succ_cons, List.take_zero, List.count_cons_of_ne ht,
        List.count_nil]
      rw [numbered_of_ne ht (n + 1) (n + 0)]

theorem encodeUtf8_toDigits (n : ℕ) : encodeUtf8 (Nat.toDigits 10 n) = decimal n := by
  have hdigit : ∀ c ∈ Nat.toDigits 10 n, String.utf8EncodeChar c = [c.toUInt8] := by
    intro c hc
    have hc := Nat.isDigit_of_mem_toDigits (by norm_num) (by norm_num) hc
    apply String.utf8EncodeChar_eq_singleton
    rw [Char.utf8Size_eq_one_iff]
    simp only [Char.isDigit, Bool.and_eq_true, decide_eq_true_eq] at hc
    exact UInt32.le_trans hc.2 (by decide)
  rw [encodeUtf8, List.flatMap_congr hdigit, decimal, List.map_eq_flatMap]

theorem rebindRunes_encode (cs : List Char) (n : ℕ) (inLiteral : Bool) :
    rebindRunes (cs.map String.utf8EncodeChar) n inLiteral =
      encodeUtf8 (rebindChars cs n inLiteral) := by
  have hquote (c : Char) : String.utf8EncodeChar c = lit "'" ↔ c = quote :=
    utf8EncodeChar_eq_iff (d := quote) (by decide)
  have hmark (c : Char) : String.utf8EncodeChar c = lit "?" ↔ c = '?' :=
    utf8EncodeChar_eq_iff (d := '?') (by decide)
  induction cs generalizing n inLiteral with
  | nil => rfl
  | cons c cs ih =>
    rw [List.map_cons, rebindRunes, rebindChars]
    simp only [hquote, hmark]
    split_ifs with hc hm
    · rw [ih]
      rfl
    · have hdollar : lit "$" = String.utf8EncodeChar '$' := rfl
      rw [ih, ← encodeUtf8_toDigits, hdollar]
      simp [encodeUtf8]
    · rw [ih]
      rfl

end Agreement

/-- On every text `RebindDollar` numbers the placeholders outside of literals. -/
theorem rebindDollar_eq_numberPlaceholders (query : List Char) :
    rebindDollar (encodeUtf8 query) = encodeUtf8 (numberPlaceholders query) := by
  rw [rebindDollar, runes_encodeUtf8, rebindRunes_encode, rebindChars_eq_numberedFrom,
    numberedFrom_eq_mapIdx]
  simp only [zero_add, numberPlaceholders]

example : rebindDollar (lit "SELECT ?, 'it''s ?' || ?, 'open ?") =
    lit "SELECT $1, 'it''s ?' || $2, 'open ?" := by
  decide +kernel

end Musgos.Outbound
