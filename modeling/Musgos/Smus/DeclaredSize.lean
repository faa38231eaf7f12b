import Musgos.Lingo.Reach
import Musgos.Lingo.SelfDelimiting
import Musgos.Smus.Parsing

/-!
# The declared size of a message

A packet says in its third to sixth bytes how many bytes follow. The parser compares that
number with the length of the packet once; every later bound is checked against the length of
the packet, which over UDP is whatever the datagram had. The declared end therefore bounds a
message only where its headers end before it and what is read of the content does; where that
is, is a matter of the bytes alone.
`Accepts p a` says that the parser `p` returns `a`; what it returns for the beginning of a
packet is then a matter of the sections of the whole packet.
-/
namespace Musgos.Smus

open Foundation Lingo

section Accepts

variable {ε ε' α β : Type}

def Accepts (p : Parse ε α) (a : α) : Prop := p.run = some (.ok a)

theorem accepts_pure {a b : α} : Accepts (pure a : Parse ε α) b ↔ a = b := by
  constructor
  · rintro ⟨⟩
    rfl
  · rintro rfl
    rfl

theorem accepts_lift {x : Option α} {a : α} :
    Accepts (ExceptT.lift x : Parse ε α) a ↔ x = some a := by
  cases x with
  | none => exact ⟨nofun, nofun⟩
  | some b => exact accepts_pure.trans Option.some_inj.symm

theorem accepts_bind {p : Parse ε α} {f : α → Parse ε β} {b : β} :
    Accepts (p >>= f) b ↔ ∃ a, Accepts p a ∧ Accepts (f a) b := by
  unfold Accepts
  rw [ExceptT.run_bind]
  cases p.run with
  | none => exact ⟨nofun, nofun⟩
  | some r =>
    cases r with
    | error e => exact ⟨nofun, nofun⟩
    | ok a =>
      constructor
      · exact fun h => ⟨a, rfl, h⟩
      · rintro ⟨a', ⟨⟩, h⟩
        exact h

theorem accepts_adapt {f : ε → ε'} {p : Parse ε α} {a : α} :
    Accepts (ExceptT.adapt f p) a ↔ Accepts p a := by
  unfold Accepts ExceptT.adapt ExceptT.run
  cases hp : (p : Option (Except ε α)) with
  | none => exact ⟨nofun, nofun⟩
  | some r =>
    cases r with
    | error e => exact ⟨nofun, nofun⟩
    | ok b => exact accepts_pure.trans accepts_pure.symm

theorem accepts_unless {c : Prop} [Decidable c] {e : ε} {f : Unit → Parse ε α} {p : Parse ε α}
    {a : α} : Accepts (if c then throw e >>= f else p) a ↔ ¬ c ∧ Accepts p a := by
  by_cases hc : c
  · have hthrow : ¬ Accepts (throw e >>= f) a := by
      rw [accepts_bind]
      rintro ⟨u, ⟨⟩, -⟩
    rw [if_pos hc]
    exact iff_of_false hthrow fun h => h.1 hc
  · rw [if_neg hc]
    exact (and_iff_right hc).symm

end Accepts

section Headers

/-- The bytes a header string takes in a packet, its pad byte included. -/
def MUSMsgHeaderString.consumed (s : MUSMsgHeaderString) : ℕ := 4 + s.length + s.length % 2

/-- The texts of strings that stand one after the other from `offset` end by `k`. -/
def TextsWithin (k : ℕ) : ℕ → List MUSMsgHeaderString → Prop
  | _, [] => True
  | offset, s :: rest => offset + 4 + s.length ≤ k ∧ TextsWithin k (offset + s.consumed) rest

variable {data : List UInt8} {k offset count n : ℕ} {s : MUSMsgHeaderString}
  {strings : List MUSMsgHeaderString} {l : MUSMsgHeaderStringList}

theorem uint32At_accepts {ε : Type} {v : ℕ} :
    Accepts (uint32At data offset : Parse ε ℕ) v ↔ uintAt 4 data offset = some v :=
  accepts_lift

theorem le_length_of_slice {x : List UInt8} (h : slice data offset n = some x) :
    offset + n ≤ data.length := by
  unfold slice at h
  split_ifs at h with hle
  exact hle

theorem le_length_of_uintAt {width v : ℕ} (h : uintAt width data offset = some v) :
    offset + width ≤ data.length := by
  obtain ⟨x, hx, -⟩ := Option.map_eq_some_iff.mp h
  exact le_length_of_slice hx

theorem extractMUSMsgHeaderString_accepts :
    Accepts (extractMUSMsgHeaderString data offset) (s, n) ↔
      uintAt 4 data offset = some s.length ∧ slice data (offset + 4) s.length = some s.value ∧
        n = s.consumed := by
  unfold extractMUSMsgHeaderString
  dsimp only
  simp only [accepts_unless, accepts_bind, accepts_pure, uint32At_accepts, accepts_lift]
  constructor
  · rintro ⟨-, length, hlength, -, value, hvalue, ⟨⟩⟩
    exact ⟨hlength, hvalue, rfl⟩
  · rintro ⟨hlength, hvalue, rfl⟩
    have hword := le_length_of_uintAt hlength
    have htext := le_length_of_slice hvalue
    exact ⟨by omega, s.length, hlength, by omega, s.value, hvalue, rfl⟩

theorem extractMUSMsgHeaderString_take :
    Accepts (extractMUSMsgHeaderString (data.take k) offset) (s, n) ↔
      Accepts (extractMUSMsgHeaderString data offset) (s, n) ∧ offset + 4 + s.length ≤ k := by
  simp only [extractMUSMsgHeaderString_accepts, uintAt_take, slice_take]
  by_cases hk : offset + 4 + s.length ≤ k
  · rw [if_pos hk, if_pos (by omega)]
    exact (and_iff_left hk).symm
  · rw [if_neg hk]
    constructor
    · rintro ⟨-, ⟨⟩, -⟩
    · exact fun h => absurd h.2 hk

theorem extractStrings_take {r : List MUSMsgHeaderString × ℕ} :
    Accepts (extractStrings (data.take k) count offset) r ↔
      Accepts (extractStrings data count offset) r ∧ TextsWithin k offset r.1 := by
  induction count generalizing offset r with
  | zero =>
    simp only [extractStrings, accepts_pure]
    constructor
    · rintro rfl
      exact ⟨rfl, trivial⟩
    · exact And.left
  | succ count ih =>
    simp only [extractStrings, accepts_bind, accepts_pure, Prod.exists,
      extractMUSMsgHeaderString_take, ih]
    constructor
    · rintro ⟨str, m, ⟨hstr, htext⟩, strs, rest, ⟨hstrs, hwithin⟩, rfl⟩
      obtain ⟨-, -, rfl⟩ := extractMUSMsgHeaderString_accepts.mp hstr
      exact ⟨⟨str, _, hstr, strs, rest, hstrs, rfl⟩, htext, hwithin⟩
    · rintro ⟨⟨str, m, hstr, strs, rest, hstrs, rfl⟩, htext, hwithin⟩
      obtain ⟨-, -, rfl⟩ := extractMUSMsgHeaderString_accepts.mp hstr
      exact ⟨str, _, ⟨hstr, htext⟩, strs, rest, ⟨hstrs, hwithin⟩, rfl⟩

theorem extractStrings_consumed (h : Accepts (extractStrings data count offset) (strings, n)) :
    n = (strings.map MUSMsgHeaderString.consumed).sum := by
  induction count generalizing offset strings n with
  | zero =>
    obtain ⟨⟩ := accepts_pure.mp h
    rfl
  | succ count ih =>
    simp only [extractStrings, accepts_bind, accepts_pure, Prod.exists] at h
    obtain ⟨str, m, hstr, strs, rest, hstrs, ⟨⟩⟩ := h
    obtain ⟨-, -, rfl⟩ := extractMUSMsgHeaderString_accepts.mp hstr
    exact congrArg (str.consumed + ·) (ih hstrs)

theorem extractStrings_room {r : List MUSMsgHeaderString × ℕ}
    (h : Accepts (extractStrings data count offset) r) (hcount : count ≠ 0) :
    offset + 4 * count ≤ data.length := by
  induction count generalizing offset r with
  | zero => exact absurd rfl hcount
  | succ count ih =>
    simp only [extractStrings, accepts_bind, Prod.exists] at h
    obtain ⟨str, m, hstr, strs, rest, hstrs, -⟩ := h
    obtain ⟨-, htext, rfl⟩ := extractMUSMsgHeaderString_accepts.mp hstr
    have hend := le_length_of_slice htext
    by_cases hlast : count = 0
    · omega
    · have hrest := ih hstrs hlast
      unfold MUSMsgHeaderString.consumed at hrest
      omega

/-- The test of the count against the length refuses nothing that the loop would accept. -/
theorem extractMUSMsgHeaderStringList_accepts :
    Accepts (extractMUSMsgHeaderStringList data offset) (l, n) ↔
      uintAt 4 data offset = some l.count ∧ ∃ rest,
        Accepts (extractStrings data l.count (offset + 4)) (l.strings, rest) ∧ n = 4 + rest := by
  unfold extractMUSMsgHeaderStringList
  dsimp only
  simp only [accepts_unless, accepts_bind, accepts_pure, uint32At_accepts, Prod.exists]
  constructor
  · rintro ⟨-, count, hcount, -, strings, rest, hstrings, ⟨⟩⟩
    exact ⟨hcount, rest, hstrings, rfl⟩
  · rintro ⟨hcount, rest, hstrings, rfl⟩
    have hword := le_length_of_uintAt hcount
    have hroom : l.count ≤ (data.length - offset - 4) / 4 := by
      by_cases hempty : l.count = 0
      · omega
      · have hstart := extractStrings_room hstrings hempty
        omega
    exact ⟨by omega, l.count, hcount, by omega, l.strings, rest, hstrings, rfl⟩

theorem extractMUSMsgHeaderStringList_take :
    Accepts (extractMUSMsgHeaderStringList (data.take k) offset) (l, n) ↔
      Accepts (extractMUSMsgHeaderStringList data offset) (l, n) ∧
        offset + 4 ≤ k ∧ TextsWithin k (offset + 4) l.strings := by
  simp only [extractMUSMsgHeaderStringList_accepts, uintAt_take, extractStrings_take]
  by_cases hk : offset + 4 ≤ k
  · rw [if_pos hk]
    constructor
    · rintro ⟨hcount, rest, ⟨hstrings, hwithin⟩, hn⟩
      exact ⟨⟨hcount, rest, hstrings, hn⟩, hk, hwithin⟩
    · rintro ⟨⟨hcount, rest, hstrings, hn⟩, -, hwithin⟩
      exact ⟨hcount, rest, ⟨hstrings, hwithin⟩, hn⟩
  · rw [if_neg hk]
    exact iff_of_false (fun h => nomatch h.1) fun h => hk h.2.1

end Headers

section Bytes

open LValue (wordAt reach)

variable (raw : List UInt8)

/-- The end of the text of the header string at `offset`, as its length says. -/
def textEnd (offset : ℕ) : ℕ := offset + 4 + wordAt raw 4 offset

/-- What follows the header string at `offset`; a text of odd length has a pad byte. -/
def stringEnd (offset : ℕ) : ℕ := textEnd raw offset + wordAt raw 4 offset % 2

/-- What follows so many header strings. -/
def stringsEnd : ℕ → ℕ → ℕ
  | 0, offset => offset
  | count + 1, offset => stringsEnd count (stringEnd raw offset)

/-- Where the last of their texts ends. -/
def textsReach : ℕ → ℕ → ℕ
  | 0, _ => 0
  | count + 1, offset => max (textEnd raw offset) (textsReach count (stringEnd raw offset))

/-- Where the list of recipients starts. -/
def recptStart : ℕ := stringEnd raw (stringEnd raw 14)

def recptCount : ℕ := wordAt raw 4 (recptStart raw)

/-- Where the content starts. -/
def headersEnd : ℕ := stringsEnd raw (recptCount raw) (recptStart raw + 4)

def declaredEnd : ℕ := 6 + (toInt32 (wordAt raw 4 2)).toInt.toNat

/-- The headers end by the declared end, the pad byte of the last string apart. -/
def HeadersCovered : Prop :=
  max (recptStart raw + 4) (textsReach raw (recptCount raw) (recptStart raw + 4)) ≤
    declaredEnd raw

/-- There is no content, or some of it stands before the declared end and all that the decoder
looks at does. -/
def ContentCovered : Prop :=
  raw.length ≤ headersEnd raw ∨ headersEnd raw < declaredEnd raw ∧
    headersEnd raw + reach (raw.drop (headersEnd raw)) 0 ≤ declaredEnd raw

variable {raw} {offset count n : ℕ} {s : MUSMsgHeaderString} {strings : List MUSMsgHeaderString}

theorem wordAt_of_uintAt {width v : ℕ} (h : uintAt width raw offset = some v) :
    wordAt raw width offset = v := by
  rw [LValue.uintAt_eq_wordAt width offset (le_length_of_uintAt h)] at h
  exact Option.some.inj h

/-- The lengths of the bytes are those of the string that is read from them. -/
theorem textEnd_of_accepts (h : Accepts (extractMUSMsgHeaderString raw offset) (s, n)) :
    textEnd raw offset = offset + 4 + s.length ∧ stringEnd raw offset = offset + s.consumed := by
  have hlength := wordAt_of_uintAt (extractMUSMsgHeaderString_accepts.mp h).1
  constructor
  · rw [textEnd, hlength]
  · rw [stringEnd, textEnd, hlength, MUSMsgHeaderString.consumed]
    omega

theorem strings_of_accepts {k : ℕ}
    (h : Accepts (extractStrings raw count offset) (strings, n)) :
    (textsReach raw count offset ≤ k ↔ TextsWithin k offset strings) ∧
      stringsEnd raw count offset =
        offset + (strings.map MUSMsgHeaderString.consumed).sum := by
  induction count generalizing offset strings n with
  | zero =>
    obtain ⟨⟩ := accepts_pure.mp h
    exact ⟨iff_of_true (Nat.zero_le k) trivial, rfl⟩
  | succ count ih =>
    simp only [extractStrings, accepts_bind, accepts_pure, Prod.exists] at h
    obtain ⟨str, m, hstr, strs, rest, hstrs, ⟨⟩⟩ := h
    obtain ⟨htext, hend⟩ := textEnd_of_accepts hstr
    obtain ⟨-, -, rfl⟩ := extractMUSMsgHeaderString_accepts.mp hstr
    rw [← hend] at hstrs
    obtain ⟨hreach, hrest⟩ := ih hstrs
    constructor
    · rw [textsReach, max_le_iff, hreach, htext, hend]
      rfl
    · rw [stringsEnd, hrest, hend, List.map_cons, List.sum_cons]
      omega

end Bytes

section Message

namespace MUSMessage

/-- Where the list of recipients starts. -/
def recptStart (msg : MUSMessage) : ℕ := 14 + msg.subject.consumed + msg.senderID.consumed

/-- Where the content starts. -/
def headersEnd (msg : MUSMessage) : ℕ :=
  msg.recptStart + (4 + (msg.recptID.strings.map MUSMsgHeaderString.consumed).sum)

/-- The headers end by `k`, the pad byte of the last string apart. -/
def HeadersWithin (msg : MUSMessage) (k : ℕ) : Prop :=
  msg.recptStart + 4 ≤ k ∧ TextsWithin k (msg.recptStart + 4) msg.recptID.strings

/-- The declared end of the message. -/
def declaredEnd (msg : MUSMessage) : ℕ := 6 + msg.contentSize.toInt.toNat

end MUSMessage

/-- What the parser without a cipher makes of the bytes after the headers. -/
def readRest (rest : List UInt8) : Option LValue :=
  if rest = [] then some .nil else LValue.fromRawBytes rest 0

/-- The headers of the packet are those of the message. -/
structure HeadersRead (raw : List UInt8) (msg : MUSMessage) : Prop where
  header : raw.take 2 = musHeader
  contentSize : (uintAt 4 raw 2).map toInt32 = some msg.contentSize
  declared : 0 ≤ msg.contentSize ∧ 6 + msg.contentSize.toInt ≤ raw.length
  errCode : (uintAt 4 raw 6).map toInt32 = some msg.errCode
  timeStamp : (uintAt 4 raw 10).map toInt32 = some msg.timeStamp
  subject : Accepts (extractMUSMsgHeaderString raw 14) (msg.subject, msg.subject.consumed)
  senderID : Accepts (extractMUSMsgHeaderString raw (14 + msg.subject.consumed))
    (msg.senderID, msg.senderID.consumed)
  recptID : Accepts (extractMUSMsgHeaderStringList raw msg.recptStart)
    (msg.recptID, 4 + (msg.recptID.strings.map MUSMsgHeaderString.consumed).sum)

/-- The content of the message is that of the packet. -/
structure ContentRead (raw : List UInt8) (msg : MUSMessage) : Prop where
  msgContent : readRest (raw.drop msg.headersEnd) = some msg.msgContent
  rawContents : msg.rawContents = raw.drop msg.headersEnd
  decryptedContents : msg.decryptedContents = raw.drop msg.headersEnd

theorem clearPacket_none_accepts {raw clear : List UInt8} :
    Accepts (clearPacket none raw) clear ↔ raw.take 2 = musHeader ∧ raw = clear := by
  unfold clearPacket
  by_cases hheader : raw.take 2 = musHeader
  · rw [if_pos hheader, accepts_pure]
    exact (and_iff_right hheader).symm
  · rw [if_neg hheader]
    exact iff_of_false nofun fun h => hheader h.1

/-- The end of the parser, for a message but for its content. -/
theorem rest_accepts {ε : Type} {subject : GoString} {rest : List UInt8} {msg : MUSMessage}
    (make : List UInt8 → List UInt8 → LValue → MUSMessage) :
    Accepts (if rest = [] then pure (make [] [] .nil)
      else ExceptT.lift (readContent none subject rest) >>= fun r => pure (make rest r.1 r.2) :
        Parse ε MUSMessage) msg ↔
      ∃ value, readRest rest = some value ∧ make rest rest value = msg := by
  unfold readRest
  by_cases hrest : rest = []
  · rw [if_pos hrest, if_pos hrest, accepts_pure, hrest]
    simp
  · rw [if_neg hrest, if_neg hrest, accepts_bind]
    cases hvalue : LValue.fromRawBytes rest 0 with
    | none => simp [accepts_lift, readContent, hvalue]
    | some value => simp [accepts_lift, accepts_pure, readContent, hvalue]

theorem parse_accepts {raw : List UInt8} {msg : MUSMessage} :
    Accepts (parseMUSMessageWithDecryption none raw) msg ↔
      HeadersRead raw msg ∧ ContentRead raw msg := by
  unfold parseMUSMessageWithDecryption
  dsimp only
  simp only [accepts_unless, accepts_bind, uint32At_accepts, accepts_adapt,
    clearPacket_none_accepts, Prod.exists]
  constructor
  · rintro ⟨hlength, rawmsg, ⟨hheader, rfl⟩, size, hsize, hdeclared, errCode, herrCode, timeStamp,
      htimeStamp, subject, n₁, hsubject, senderID, n₂, hsenderID, recptID, n₃, hrecptID, hrest⟩
    obtain ⟨value, hvalue, rfl⟩ := (rest_accepts fun rest decrypted value =>
      ⟨toInt32 size, toInt32 errCode, toInt32 timeStamp, subject, senderID, recptID, rest,
        decrypted, value⟩).mp hrest
    obtain ⟨-, -, rfl⟩ := extractMUSMsgHeaderString_accepts.mp hsubject
    obtain ⟨-, -, rfl⟩ := extractMUSMsgHeaderString_accepts.mp hsenderID
    obtain ⟨-, n, hstrings, rfl⟩ := extractMUSMsgHeaderStringList_accepts.mp hrecptID
    obtain rfl := extractStrings_consumed hstrings
    rw [not_or, Int32.not_lt, not_lt] at hdeclared
    exact ⟨⟨hheader, by rw [hsize]; rfl, hdeclared, by rw [herrCode]; rfl, by rw [htimeStamp]; rfl,
      hsubject, hsenderID, hrecptID⟩, hvalue, rfl, rfl⟩
  · rintro ⟨hheaders, hcontent⟩
    obtain ⟨size, hsize, hsize'⟩ := Option.map_eq_some_iff.mp hheaders.contentSize
    obtain ⟨errCode, herrCode, herrCode'⟩ := Option.map_eq_some_iff.mp hheaders.errCode
    obtain ⟨timeStamp, htimeStamp, htimeStamp'⟩ := Option.map_eq_some_iff.mp hheaders.timeStamp
    have hlength := le_length_of_uintAt htimeStamp
    have hdeclared : ¬ (toInt32 size < 0 ∨ (raw.length : ℤ) < 6 + (toInt32 size).toInt) := by
      rw [hsize', not_or, Int32.not_lt, not_lt]
      exact hheaders.declared
    refine ⟨by omega, raw, ⟨hheaders.header, rfl⟩, size, hsize, hdeclared, errCode, herrCode,
      timeStamp, htimeStamp, msg.subject, _, hheaders.subject, msg.senderID, _, hheaders.senderID,
      msg.recptID, _, hheaders.recptID, ?_⟩
    refine (rest_accepts fun rest decrypted value =>
      ⟨toInt32 size, toInt32 errCode, toInt32 timeStamp, msg.subject, msg.senderID, msg.recptID,
        rest, decrypted, value⟩).mpr ⟨msg.msgContent, hcontent.msgContent, ?_⟩
    rw [hsize', herrCode', htimeStamp']
    exact congrArg₂ (fun rest decrypted =>
      { msg with rawContents := rest, decryptedContents := decrypted })
      hcontent.rawContents.symm hcontent.decryptedContents.symm

/-- What the headers of a packet and of a long enough beginning of it have in common. -/
theorem headersRead_take_of_start {raw : List UInt8} {msg : MUSMessage} {k : ℕ}
    (hk : 6 + msg.contentSize.toInt ≤ k) (hstart : msg.recptStart + 4 ≤ k) :
    HeadersRead (raw.take k) msg ↔
      HeadersRead raw msg ∧ TextsWithin k (msg.recptStart + 4) msg.recptID.strings := by
  have hsubject : 14 + 4 + msg.subject.length ≤ k ∧
      14 + msg.subject.consumed + 4 + msg.senderID.length ≤ k := by
    simp only [MUSMessage.recptStart, MUSMsgHeaderString.consumed] at hstart ⊢
    omega
  have hword : ∀ offset ≤ 10, uintAt 4 (raw.take k) offset = uintAt 4 raw offset := by
    intro offset hoffset
    rw [uintAt_take, if_pos (by omega)]
  have hheader : (raw.take k).take 2 = raw.take 2 := by
    rw [List.take_take, min_eq_left (by omega)]
  have hdeclared : 6 + msg.contentSize.toInt ≤ (raw.take k).length ↔
      6 + msg.contentSize.toInt ≤ raw.length := by
    rw [List.length_take]
    omega
  constructor
  · rintro ⟨h₁, h₂, h₃, h₄, h₅, h₆, h₇, h₈⟩
    rw [hheader] at h₁
    rw [hdeclared] at h₃
    rw [hword _ (by omega)] at h₂ h₄ h₅
    rw [extractMUSMsgHeaderString_take] at h₆ h₇
    rw [extractMUSMsgHeaderStringList_take] at h₈
    exact ⟨⟨h₁, h₂, h₃, h₄, h₅, h₆.1, h₇.1, h₈.1⟩, h₈.2.2⟩
  · rintro ⟨⟨h₁, h₂, h₃, h₄, h₅, h₆, h₇, h₈⟩, hwithin⟩
    constructor
    case header => rw [hheader, h₁]
    case contentSize => rw [hword _ (by omega), h₂]
    case declared => rwa [hdeclared]
    case errCode => rw [hword _ (by omega), h₄]
    case timeStamp => rw [hword _ (by omega), h₅]
    case subject => exact extractMUSMsgHeaderString_take.mpr ⟨h₆, hsubject.1⟩
    case senderID => exact extractMUSMsgHeaderString_take.mpr ⟨h₇, hsubject.2⟩
    case recptID => exact extractMUSMsgHeaderStringList_take.mpr ⟨h₈, hstart, hwithin⟩

theorem headersRead_take {raw : List UInt8} {msg : MUSMessage} {k : ℕ}
    (hk : 6 + msg.contentSize.toInt ≤ k) :
    HeadersRead (raw.take k) msg ↔ HeadersRead raw msg ∧ msg.HeadersWithin k := by
  constructor
  · intro h
    have hstart : msg.recptStart + 4 ≤ k := (extractMUSMsgHeaderStringList_take.mp h.recptID).2.1
    obtain ⟨hraw, hwithin⟩ := (headersRead_take_of_start hk hstart).mp h
    exact ⟨hraw, hstart, hwithin⟩
  · rintro ⟨h, hstart, hwithin⟩
    exact (headersRead_take_of_start hk hstart).mpr ⟨h, hwithin⟩

theorem HeadersRead.le_declaredEnd {raw : List UInt8} {msg : MUSMessage} (h : HeadersRead raw msg) :
    6 + msg.contentSize.toInt ≤ msg.declaredEnd := by
  have hnonneg := Int32.le_iff_toInt_le.mp h.declared.1
  rw [Int32.toInt_zero] at hnonneg
  unfold MUSMessage.declaredEnd
  omega

theorem MUSMessage.SameAs.headersEnd {msg' msg : MUSMessage} (h : msg'.SameAs msg) :
    msg'.recptStart = msg.recptStart ∧ msg'.headersEnd = msg.headersEnd := by
  have hstart : msg'.recptStart = msg.recptStart := by
    rw [MUSMessage.recptStart, h.subject, h.senderID, MUSMessage.recptStart]
  refine ⟨hstart, ?_⟩
  rw [MUSMessage.headersEnd, hstart, h.recipients, MUSMessage.headersEnd]

/-- What is left of a message that is cut off at its declared end. -/
def Bounded (raw : List UInt8) (msg : MUSMessage) : Prop :=
  ∃ msg', Accepts (parseMUSMessageWithDecryption none (raw.take (declaredEnd raw))) msg' ∧
    msg'.SameAs msg

theorem parse_take_iff (raw : List UInt8) (msg : MUSMessage)
    (h : Accepts (parseMUSMessageWithDecryption none raw) msg) :
    (∃ msg', Accepts (parseMUSMessageWithDecryption none (raw.take msg.declaredEnd)) msg' ∧
      msg'.SameAs msg) ↔
      msg.HeadersWithin msg.declaredEnd ∧
        readRest ((raw.take msg.declaredEnd).drop msg.headersEnd) =
          readRest (raw.drop msg.headersEnd) := by
  obtain ⟨hheaders, hcontent⟩ := parse_accepts.mp h
  have hdeclared := hheaders.le_declaredEnd
  constructor
  · rintro ⟨msg', hmsg', hsame⟩
    obtain ⟨hheaders', hcontent'⟩ := parse_accepts.mp hmsg'
    obtain ⟨hstart, hend⟩ := hsame.headersEnd
    have hwithin := (extractMUSMsgHeaderStringList_take.mp hheaders'.recptID).2
    have hrest := hcontent'.msgContent
    rw [hstart, hsame.recipients] at hwithin
    rw [hend, hsame.msgContent] at hrest
    exact ⟨hwithin, hrest.trans hcontent.msgContent.symm⟩
  · rintro ⟨hwithin, hrest⟩
    refine ⟨{ msg with
      rawContents := (raw.take msg.declaredEnd).drop msg.headersEnd
      decryptedContents := (raw.take msg.declaredEnd).drop msg.headersEnd }, ?_,
      ⟨rfl, rfl, rfl, rfl, rfl, rfl⟩⟩
    obtain ⟨h₁, h₂, h₃, h₄, h₅, h₆, h₇, h₈⟩ := (headersRead_take hdeclared).mpr ⟨hheaders, hwithin⟩
    exact parse_accepts.mpr ⟨⟨h₁, h₂, h₃, h₄, h₅, h₆, h₇, h₈⟩, hrest.trans hcontent.msgContent,
      rfl, rfl⟩

theorem readRest_encoded_append {v : LValue} (hv : v.Encodable) {content : List UInt8}
    (hcontent : v.getBytes = some content) (tail : List UInt8) :
    readRest (content ++ tail) = some v.decoded := by
  obtain ⟨enc, henc, hlength, hread⟩ := (LValue.readsBack_decoded v hv).child
  obtain rfl := Option.some.inj (hcontent.symm.trans henc)
  have hne : content ++ tail ≠ [] := by
    intro hnil
    rw [(List.append_eq_nil_iff.mp hnil).1] at hlength
    exact absurd hlength (by decide)
  have hat : StandsAt (content ++ tail) 0 content := ⟨[], tail, rfl, rfl⟩
  rw [readRest, if_neg hne, LValue.fromRawBytes, if_pos (by norm_num), (hread _ 0 hat).1]

/-- The positions that the bytes say are those of the message that is read from them. -/
theorem HeadersRead.positions {raw : List UInt8} {msg : MUSMessage} (h : HeadersRead raw msg) :
    declaredEnd raw = msg.declaredEnd ∧ headersEnd raw = msg.headersEnd ∧
      (HeadersCovered raw ↔ msg.HeadersWithin msg.declaredEnd) := by
  obtain ⟨size, hsize, hsize'⟩ := Option.map_eq_some_iff.mp h.contentSize
  have hdeclared : declaredEnd raw = msg.declaredEnd := by
    rw [declaredEnd, wordAt_of_uintAt hsize, hsize', MUSMessage.declaredEnd]
  have hstart : recptStart raw = msg.recptStart := by
    rw [recptStart, (textEnd_of_accepts h.subject).2, (textEnd_of_accepts h.senderID).2]
    rfl
  obtain ⟨hcount, n, hstrings, -⟩ := extractMUSMsgHeaderStringList_accepts.mp h.recptID
  have hcount' : recptCount raw = msg.recptID.count := by
    rw [recptCount, hstart, wordAt_of_uintAt hcount]
  obtain ⟨hreach, hend⟩ := strings_of_accepts (k := msg.declaredEnd) hstrings
  refine ⟨hdeclared, ?_, ?_⟩
  · rw [headersEnd, hstart, hcount', hend, MUSMessage.headersEnd, Nat.add_assoc]
  · rw [HeadersCovered, hdeclared, hstart, hcount', max_le_iff, hreach]
    rfl

theorem readRest_take {content : List UInt8} {m : ℕ} (hm : 0 < m)
    (hreach : LValue.reach content 0 ≤ m) : readRest (content.take m) = readRest content := by
  unfold readRest
  by_cases hempty : content = []
  · simp [hempty]
  · have hcut : content.take m ≠ [] := by simp [hempty, hm.ne']
    rw [if_neg hempty, if_neg hcut, LValue.fromRawBytes_take hreach]

theorem readRest_ne_nil {content : List UInt8} (h : content ≠ []) :
    readRest content ≠ readRest [] := by
  obtain ⟨v, hv, hne⟩ :=
    LValue.fromRawBytes_total content (show 0 + 2 < 2 ^ 63 by norm_num)
  rw [readRest, if_neg h, hv, readRest, if_pos rfl]
  exact fun heq => hne (Option.some.inj heq)

/-- A message that is cut off at its declared end is still accepted, with the same error code,
time stamp, subject, sender, recipients and content, if the headers end by the declared end and
so does all that the decoder looks at of the content, or if a value as it is encoded stands
there. It is not unless the headers end there and some of the content, if there is one, stands
before. -/
theorem declared_size_covered (raw : List UInt8) (msg : MUSMessage)
    (h : Accepts (parseMUSMessageWithDecryption none raw) msg) :
    (HeadersCovered raw ∧ ContentCovered raw → Bounded raw msg) ∧
      (HeadersCovered raw → ∀ v : LValue, v.Encodable →
        v.getBytes = some ((raw.take (declaredEnd raw)).drop (headersEnd raw)) →
        Bounded raw msg) ∧
      (Bounded raw msg → HeadersCovered raw ∧
        (headersEnd raw < raw.length → headersEnd raw < declaredEnd raw)) := by
  obtain ⟨hdeclared, hend, hcovered⟩ := (parse_accepts.mp h).1.positions
  have hiff : Bounded raw msg ↔ HeadersCovered raw ∧
      readRest ((raw.drop (headersEnd raw)).take (declaredEnd raw - headersEnd raw)) =
        readRest (raw.drop (headersEnd raw)) := by
    rw [Bounded, hcovered, hdeclared, hend, ← List.drop_take]
    exact parse_take_iff raw msg h
  refine ⟨fun ⟨hheaders, hcontent⟩ => hiff.mpr ⟨hheaders, ?_⟩, fun hheaders v hv hbytes => ?_,
    fun hbounded => ?_⟩
  · rcases hcontent with hnone | ⟨hsome, hreach⟩
    · rw [List.drop_eq_nil_of_le hnone, List.take_nil]
    · exact readRest_take (by omega) (by omega)
  · refine hiff.mpr ⟨hheaders, ?_⟩
    rw [List.drop_take] at hbytes
    have hcut := readRest_encoded_append hv hbytes []
    have hwhole := readRest_encoded_append hv hbytes
      ((raw.drop (headersEnd raw)).drop (declaredEnd raw - headersEnd raw))
    rw [List.append_nil] at hcut
    rw [List.take_append_drop] at hwhole
    rw [hcut, hwhole]
  · obtain ⟨hheaders, hrest⟩ := hiff.mp hbounded
    refine ⟨hheaders, fun hcontent => ?_⟩
    by_contra hlate
    rw [Nat.sub_eq_zero_of_le (Nat.not_lt.mp hlate), List.take_zero] at hrest
    refine readRest_ne_nil (fun hnil => ?_) hrest.symm
    rw [List.drop_eq_nil_iff] at hnil
    omega

/-- A packet with empty header strings, its declared size and its content. -/
def bareEnvelope (size : UInt8) (content : List UInt8) : List UInt8 :=
  musHeader ++ [0, 0, 0, size] ++ List.replicate 20 0 ++ content

/-- What is read from such a packet. -/
def bareMessage (size : Int32) (rest : List UInt8) (content : LValue) : MUSMessage :=
  ⟨size, 0, 0, ⟨0, []⟩, ⟨0, []⟩, ⟨0, []⟩, rest, rest, content⟩

/-- A declared size of 26 that covers the headers and an integer; two more bytes follow. -/
theorem declared_size_covered_integer :
    Accepts (parseMUSMessageWithDecryption none (bareEnvelope 26 [0, 1, 0, 0, 0, 5, 9, 9]))
        (bareMessage 26 [0, 1, 0, 0, 0, 5, 9, 9] (.integer 5)) ∧
      ∃ msg', Accepts (parseMUSMessageWithDecryption none
          ((bareEnvelope 26 [0, 1, 0, 0, 0, 5, 9, 9]).take 32)) msg' ∧
        msg'.SameAs (bareMessage 26 [0, 1, 0, 0, 0, 5, 9, 9] (.integer 5)) := by
  have haccepts : Accepts (parseMUSMessageWithDecryption none
      (bareEnvelope 26 [0, 1, 0, 0, 0, 5, 9, 9]))
      (bareMessage 26 [0, 1, 0, 0, 0, 5, 9, 9] (.integer 5)) := by
    unfold Accepts
    decide +kernel
  refine ⟨haccepts, (declared_size_covered _ _ haccepts).1 ⟨?_, .inr ?_⟩⟩
  · unfold HeadersCovered
    decide +kernel
  · decide +kernel

-- an integer of zero bytes reads the same without them, so that what the decoder looks at need
-- not end by the declared end
example : readRest [0, 1, 0, 0, 0, 0] = readRest [0, 1] ∧
    LValue.reach [0, 1, 0, 0, 0, 0] 0 = 6 := by
  decide +kernel

/-- A declared size of 0 is accepted, while the six bytes it declares are refused; and the
content may stand after the declared end altogether. -/
theorem declared_size_ignored :
    (Accepts (parseMUSMessageWithDecryption none (bareEnvelope 0 [])) (bareMessage 0 [] .nil) ∧
      (parseMUSMessageWithDecryption none ((bareEnvelope 0 []).take 6)).run =
        some (.error .tooShort)) ∧
    (Accepts (parseMUSMessageWithDecryption none (bareEnvelope 20 [0, 1, 0, 0, 0, 5]))
        (bareMessage 20 [0, 1, 0, 0, 0, 5] (.integer 5)) ∧
      Accepts (parseMUSMessageWithDecryption none
        ((bareEnvelope 20 [0, 1, 0, 0, 0, 5]).take 26)) (bareMessage 20 [] .nil)) := by
  unfold Accepts
  decide +kernel

end Message

end Musgos.Smus
