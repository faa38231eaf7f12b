import Musgos.Lingo.Wire
import Musgos.Domain.Ports

/-!
# MUS messages

The header strings, the parser `ParseMUSMessageWithDecryption` and the encoder
`GetBytes`. A slice expression outside the buffer panics, which is `none`; the
parser's own errors are values of `ParseError`.
-/
namespace Musgos.Smus

open Foundation Lingo Domain

def musHeader : List UInt8 := [0x72, 0x00]

/-- A string with its length in front of it. -/
structure MUSMsgHeaderString where
  length : ℕ
  value : GoString
  deriving DecidableEq

/-- A list of strings with their number in front of it. -/
structure MUSMsgHeaderStringList where
  count : ℕ
  strings : List MUSMsgHeaderString
  deriving DecidableEq

/-- A message as it is parsed. -/
structure MUSMessage where
  contentSize : Int32
  errCode : Int32
  timeStamp : Int32
  subject : MUSMsgHeaderString
  senderID : MUSMsgHeaderString
  recptID : MUSMsgHeaderStringList
  rawContents : List UInt8
  decryptedContents : List UInt8
  msgContent : LValue
  deriving DecidableEq

/-- The errors of a header field. -/
inductive FieldError where
  | stringLength
  | stringContent
  | listCount
  | listTooLong
  deriving DecidableEq

/-- Why a message is not accepted. -/
inductive ParseError where
  | tooShort
  | invalidHeader
  | invalidHeaderAfterDecryption
  | invalidContentSize
  | subject (e : FieldError)
  | senderID (e : FieldError)
  | recipients (e : FieldError)
  deriving DecidableEq

/-- A parser with errors in `ε`: `none` is a panic. -/
abbrev Parse (ε α : Type) := ExceptT ε Option α

/-- `binary.BigEndian.Uint32(rawmsg[offset:])`. -/
def uint32At {ε : Type} (b : List UInt8) (offset : ℕ) : Parse ε ℕ :=
  ExceptT.lift (uintAt 4 b offset)

/-- `int32(…)` of an unsigned word. -/
def toInt32 (n : ℕ) : Int32 := Int32.ofNat n

def MUSMsgHeaderString.ofValue (value : GoString) : MUSMsgHeaderString := ⟨value.length, value⟩

/-- A length prefix, the text, and a pad byte after an odd text; returns the string and
the bytes consumed. Nothing checks that the pad byte is there. -/
def extractMUSMsgHeaderString (data : List UInt8) (offset : ℕ) :
    Parse FieldError (MUSMsgHeaderString × ℕ) := do
  if offset + 4 > data.length then throw .stringLength
  let length ← uint32At data offset
  if offset + 4 + length > data.length then throw .stringContent
  let value ← ExceptT.lift (slice data (offset + 4) length)
  return (⟨length, value⟩, 4 + length + length % 2)

/-- The loop over the elements of a string list. -/
def extractStrings (data : List UInt8) : ℕ → ℕ → Parse FieldError (List MUSMsgHeaderString × ℕ)
  | 0, _ => return ([], 0)
  | remaining + 1, offset => do
    let (str, consumed) ← extractMUSMsgHeaderString data offset
    let (strs, rest) ← extractStrings data remaining (offset + consumed)
    return (str :: strs, consumed + rest)

def extractMUSMsgHeaderStringList (data : List UInt8) (offset : ℕ) :
    Parse FieldError (MUSMsgHeaderStringList × ℕ) := do
  if offset + 4 > data.length then throw .listCount
  let count ← uint32At data offset
  -- every element takes at least its own length prefix
  if count > (data.length - offset - 4) / 4 then throw .listTooLong
  let (strings, consumed) ← extractStrings data count (offset + 4)
  return (⟨count, strings⟩, 4 + consumed)

/-- The packet in clear: in #All mode a packet without the header is decrypted. The error
of a decrypted packet prints its first two bytes. -/
def clearPacket (cipher : Option Cipher) (raw : List UInt8) : Parse ParseError (List UInt8) :=
  if raw.take 2 = musHeader then return raw
  else
    match cipher with
    | none => throw .invalidHeader
    | some c => do
      let clear := c.decrypt raw
      if clear.length < 14 ∨ clear.take 2 ≠ musHeader then
        let _ ← ExceptT.lift (slice clear 0 2)
        throw .invalidHeaderAfterDecryption
      return clear

/-- The content after the headers; that of a Logon is encrypted. -/
def readContent (cipher : Option Cipher) (subject : GoString) (remaining : List UInt8) :
    Option (List UInt8 × LValue) := do
  let content := match cipher with
    | some c => if subject = lit "Logon" then c.decrypt remaining else remaining
    | none => remaining
  let value ← LValue.fromRawBytes content 0
  return (content, value)

def parseMUSMessageWithDecryption (cipher : Option Cipher) (raw : List UInt8) :
    Parse ParseError MUSMessage := do
  if raw.length < 14 then throw .tooShort
  let rawmsg ← clearPacket cipher raw
  let contentSize := toInt32 (← uint32At rawmsg 2)
  if contentSize < 0 ∨ (rawmsg.length : ℤ) < 6 + contentSize.toInt then throw .invalidContentSize
  let errCode := toInt32 (← uint32At rawmsg 6)
  let timeStamp := toInt32 (← uint32At rawmsg 10)
  let (subject, n₁) ← (extractMUSMsgHeaderString rawmsg 14).adapt .subject
  let (senderID, n₂) ← (extractMUSMsgHeaderString rawmsg (14 + n₁)).adapt .senderID
  let (recptID, n₃) ← (extractMUSMsgHeaderStringList rawmsg (14 + n₁ + n₂)).adapt .recipients
  let remaining := rawmsg.drop (14 + n₁ + n₂ + n₃)
  if remaining = [] then
    return ⟨contentSize, errCode, timeStamp, subject, senderID, recptID, [], [], .nil⟩
  else
    let (content, value) ← ExceptT.lift (readContent cipher subject.value remaining)
    return ⟨contentSize, errCode, timeStamp, subject, senderID, recptID, remaining, content, value⟩

/-- `int32` as the four bytes of `binary.Write`. -/
def int32Bytes (n : ℤ) : List UInt8 := beBytes 4 (n % 2 ^ 32).toNat

namespace MUSMsgHeaderString

def writeBytes (s : MUSMsgHeaderString) : List UInt8 :=
  int32Bytes s.value.length ++ s.value ++ if s.value.length % 2 ≠ 0 then [0] else []

end MUSMsgHeaderString

namespace MUSMsgHeaderStringList

def writeBytes (l : MUSMsgHeaderStringList) : List UInt8 :=
  int32Bytes l.strings.length ++ l.strings.flatMap (·.writeBytes)

end MUSMsgHeaderStringList

namespace MUSMessage

/-- `GetBytes`: it panics with its content, and writes none for nil. -/
def getBytes (msg : MUSMessage) : Option (List UInt8) := do
  let content ← match msg.msgContent with
    | .nil => some []
    | v => v.getBytes
  let payload := int32Bytes msg.errCode.toInt ++ int32Bytes msg.timeStamp.toInt ++
    msg.subject.writeBytes ++ msg.senderID.writeBytes ++ msg.recptID.writeBytes ++ content
  return musHeader ++ int32Bytes payload.length ++ payload

theorem getBytes_isSome {msg : MUSMessage}
    (h : msg.msgContent = .nil ∨ msg.msgContent.WellFormed) : msg.getBytes.isSome := by
  unfold getBytes
  rcases h with hnil | hwellFormed
  · simp [hnil]
  · obtain ⟨content, hcontent⟩ := Option.isSome_iff_exists.mp (LValue.getBytes_isSome hwellFormed)
    have hne := hwellFormed.ne_nil
    split
    · contradiction
    · simp [hcontent]

end MUSMessage

section ErrorCodes

/-- `mus_error_code.go`: the codes run from `0x800414A1`; those the services use. -/
def errNoError : Int32 := 0
def errInvalidUserID : Int32 := -0x7FFBEB5D
def errInvalidPassword : Int32 := -0x7FFBEB5C
def errConnectionRefused : Int32 := -0x7FFBEB51
def errInvalidMessageFormat : Int32 := -0x7FFBEB4F
def errServerInternalError : Int32 := -0x7FFBEB45
def errInvalidServerCommand : Int32 := -0x7FFBEB41
def errDatabaseUserIDNotFound : Int32 := -0x7FFBEB3B
def errDatabaseDataNotFound : Int32 := -0x7FFBEB34

end ErrorCodes

end Musgos.Smus
