import Musgos.Domain.Ports
import Musgos.Foundation.PackedTable
import Musgos.Outbound.BlowfishBoxes

/-!
# The Blowfish cipher

`blowfish.go`: the block transform, the key schedule and the byte stream built
on them. A table lookup may fall outside its table, which is a panic. The
evaluator on packed tables computes the same as the source's code on every box
content, so no lookup ever does; it also lets a key schedule, 521 block
transforms over a table of 1024 words, be carried out by evaluation.

Every call of `Encrypt` or `Decrypt` starts the stream anew, and both call the
same routine: byte `n` of the input is masked with byte `n` of a keystream that
depends on the boxes alone.
-/
namespace Musgos.Outbound

open Foundation Domain

/-- `kEncrypt` is the first constant of its block, hence zero. -/
def kEncrypt : ℤ := 0

/-- The two halves `data[0]` and `data[1]`. -/
abbrev Block := UInt32 × UInt32

def blowfishEncode (LL R : UInt32) (S : Vector UInt32 1024) (P : UInt32) : Option UInt32 := do
  let s₀ ← S[(R >>> 24).toNat]?
  let s₁ ← S[0x0100 + ((R >>> 16) &&& 0xff).toNat]?
  let s₂ ← S[0x0200 + ((R >>> 8) &&& 0xff).toNat]?
  let s₃ ← S[0x0300 + (R &&& 0xff).toNat]?
  return LL ^^^ P ^^^ (((s₀ + s₁) ^^^ s₂) + s₃)

namespace Boxes

/-- The unrolled calls of `blowfishEncode`, by the index of their word of `P`. A call
changes the second half by the first, and the next one takes them the other way round. -/
def rounds (b : Boxes) : List (Fin 18) → Block → Option Block
  | [], block => some block
  | i :: is, (l, r) => do
    let r' ← blowfishEncode r l b.S b.P[i]
    b.rounds is (r', l)

/-- With `kEncrypt` the second branch is taken. -/
def doCrypto (b : Boxes) (data : Block) (encrypt : ℤ) : Option Block :=
  if encrypt ≠ 0 then do
    let (l, r) ← b.rounds [1, 2, 3, 4, 5, 6, 7, 8, 9, 10, 11, 12, 13, 14, 15, 16]
      (data.1 ^^^ b.P[0], data.2)
    return (r ^^^ b.P[17], l)
  else do
    let (l, r) ← b.rounds [16, 15, 14, 13, 12, 11, 10, 9, 8, 7, 6, 5, 4, 3, 2, 1]
      (data.1 ^^^ b.P[17], data.2)
    return (r ^^^ b.P[0], l)

/-- `p[i] = w`. -/
def putP (b : Boxes) (i : ℕ) (w : UInt32) : Option Boxes :=
  if h : i < 18 then some { b with P := b.P.set i w h } else none

/-- `s[i] = w`. -/
def putS (b : Boxes) (i : ℕ) (w : UInt32) : Option Boxes :=
  if h : i < 1024 then some { b with S := b.S.set i w h } else none

/-- Four key bytes from `d` on, as a word, and the position after them. -/
def keyWord (key : List UInt8) (d : ℕ) : Option (UInt32 × ℕ) := do
  let b₀ ← key[d]?
  let d := (d + 1) % key.length
  let b₁ ← key[d]?
  let d := (d + 1) % key.length
  let b₂ ← key[d]?
  let d := (d + 1) % key.length
  let b₃ ← key[d]?
  let d := (d + 1) % key.length
  return (b₀.toUInt32 <<< 24 ||| b₁.toUInt32 <<< 16 ||| b₂.toUInt32 <<< 8 ||| b₃.toUInt32, d)

/-- The first loop of `SetKey`: the key, repeated, is mixed into `P`. -/
def mixKey (key : List UInt8) : List (Fin 18) → ℕ → Boxes → Option Boxes
  | [], _, b => some b
  | i :: is, d, b => do
    let (ri, d) ← keyWord key d
    mixKey key is d { b with P := b.P.set i (b.P[i] ^^^ ri) }

/-- The other loops of `SetKey`: the words of a table are replaced in pairs by a block
that is transformed again each time, under the boxes as they are by then. -/
def refill (put : Boxes → ℕ → UInt32 → Option Boxes) :
    List ℕ → Boxes × Block → Option (Boxes × Block)
  | [], s => some s
  | i :: is, (b, block) => do
    let block ← b.doCrypto block kEncrypt
    let b ← put b i block.1
    let b ← put b (i + 1) block.2
    refill put is (b, block)

end Boxes

/-- The key is the argument of `NewBlowfish`. Calls are serialised by a mutex; the last
operation is recorded and never read. -/
structure Blowfish where
  key : List UInt8
  boxes : Boxes
  state : UInt32
  stateOffset : ℕ

def newBlowfish (keyStr : GoString) : Blowfish := ⟨keyStr, initBoxes, 0, 0⟩

namespace Blowfish

def clearState (b : Blowfish) : Blowfish := { b with stateOffset := 0, state := 0 }

def setKey (b : Blowfish) : Option Blowfish := do
  let key := b.key.take 72
  let boxes ← Boxes.mixKey key (List.finRange 18) 0 b.boxes
  let (boxes, input) ← Boxes.refill Boxes.putP (List.range' 0 9 2) (boxes, (0, 0))
  let (boxes, _) ← Boxes.refill Boxes.putS (List.range' 0 512 2) (boxes, input)
  return { b with boxes := boxes }.clearState

/-- The bytes of a block in `d`. -/
def blockBytes (block : Block) : List UInt8 :=
  beBytes 4 block.1.toNat ++ beBytes 4 block.2.toNat

/-- At the start of every eight bytes a new block is made. -/
def refresh (boxes : Boxes) (ti : Block) (curStateOffset : ℕ) : Option Block :=
  if curStateOffset = 0 then boxes.doCrypto ti kEncrypt else some ti

/-- The loop of `mungeData`. Its buffer `d` holds the bytes of `ti` all the time. -/
def mungeBytes (boxes : Boxes) : List UInt8 → Block → ℕ → Option (List UInt8 × Block × ℕ)
  | [], ti, curStateOffset => some ([], ti, curStateOffset)
  | x :: inBuffer, ti, curStateOffset => do
    let ti ← refresh boxes ti curStateOffset
    let mask ← (blockBytes ti)[curStateOffset]?
    let (outBuffer, s) ← mungeBytes boxes inBuffer ti ((curStateOffset + 1) &&& 0x07)
    return ((x ^^^ mask) :: outBuffer, s)

/-- The state is saved only after a transform; without one `ti[0]` is the state still. -/
def mungeData (b : Blowfish) (inBuffer : List UInt8) : Option (List UInt8 × Blowfish) := do
  let (outBuffer, ti, curStateOffset) ← mungeBytes b.boxes inBuffer (b.state, 0) b.stateOffset
  return (outBuffer, { b with state := ti.1, stateOffset := curStateOffset })

def encrypt (b : Blowfish) (inBuffer : List UInt8) : Option (List UInt8 × Blowfish) :=
  b.clearState.mungeData inBuffer

def decrypt (b : Blowfish) (inBuffer : List UInt8) : Option (List UInt8 × Blowfish) :=
  b.clearState.mungeData inBuffer

end Blowfish

section Packed

open PackedTable

/-- Both tables, each packed into a number. -/
structure PackedBoxes where
  P : ℕ
  S : ℕ

namespace PackedBoxes

def mask (t : PackedBoxes) (R : UInt32) : UInt32 :=
  ((word t.S (R >>> 24).toNat + word t.S (0x0100 + ((R >>> 16) &&& 0xff).toNat)) ^^^
    word t.S (0x0200 + ((R >>> 8) &&& 0xff).toNat)) + word t.S (0x0300 + (R &&& 0xff).toNat)

def rounds (t : PackedBoxes) : List (Fin 18) → Block → Block
  | [], block => block
  | i :: is, (l, r) => t.rounds is (r ^^^ word t.P i ^^^ t.mask l, l)

/-- The block transform with `kEncrypt`. -/
def nextBlock (t : PackedBoxes) (data : Block) : Block :=
  let block := t.rounds [16, 15, 14, 13, 12, 11, 10, 9, 8, 7, 6, 5, 4, 3, 2, 1]
    (data.1 ^^^ word t.P 17, data.2)
  (block.2 ^^^ word t.P 0, block.1)

def putP (t : PackedBoxes) (i : ℕ) (w : UInt32) : PackedBoxes := { t with P := setWord t.P i w }

def putS (t : PackedBoxes) (i : ℕ) (w : UInt32) : PackedBoxes := { t with S := setWord t.S i w }

def refill (put : PackedBoxes → ℕ → UInt32 → PackedBoxes) :
    List ℕ → PackedBoxes × Block → PackedBoxes × Block
  | [], s => s
  | i :: is, (t, block) =>
    let block := t.nextBlock block
    refill put is (put (put t i block.1) (i + 1) block.2, block)

/-- The boxes a packed pair stands for. -/
structure Holds (t : PackedBoxes) (b : Boxes) : Prop where
  P : PackedTable.Holds t.P b.P
  S : PackedTable.Holds t.S b.S

end PackedBoxes

def Boxes.pack (b : Boxes) : PackedBoxes :=
  ⟨PackedTable.pack b.P.toList, PackedTable.pack b.S.toList⟩

theorem Boxes.holds_pack (b : Boxes) : b.pack.Holds b :=
  ⟨PackedTable.holds_pack b.P, PackedTable.holds_pack b.S⟩

variable {t : PackedBoxes} {b : Boxes}

/-- A byte of a word selects an entry of one of the four boxes. -/
theorem byte_lt (x : UInt32) : (x &&& 0xff).toNat < 0x100 := by
  rw [UInt32.toNat_and]
  exact Nat.and_lt_two_pow x.toNat (n := 8) (by decide)

theorem top_byte_lt (R : UInt32) : (R >>> 24).toNat < 0x100 := by
  rw [UInt32.toNat_shiftRight]
  have hR := R.toNat_lt
  simp
  omega

theorem PackedBoxes.Holds.lookup (h : t.Holds b) {i : ℕ} (hi : i < 1024) :
    b.S[i]? = some (word t.S i) := by
  rw [Vector.getElem?_eq_getElem hi, h.S i hi]

theorem PackedBoxes.Holds.blowfishEncode (h : t.Holds b) (LL R P : UInt32) :
    blowfishEncode LL R b.S P = some (LL ^^^ P ^^^ t.mask R) := by
  have h₀ := top_byte_lt R
  have h₁ := byte_lt (R >>> 16)
  have h₂ := byte_lt (R >>> 8)
  have h₃ := byte_lt R
  unfold Outbound.blowfishEncode
  rw [h.lookup (by omega), h.lookup (by omega), h.lookup (by omega), h.lookup (by omega)]
  rfl

theorem PackedBoxes.Holds.rounds (h : t.Holds b) (is : List (Fin 18)) (block : Block) :
    b.rounds is block = some (t.rounds is block) := by
  induction is generalizing block with
  | nil => rfl
  | cons i is ih =>
    obtain ⟨l, r⟩ := block
    have hP : word t.P i = b.P[i] := h.P i i.isLt
    rw [Boxes.rounds, h.blowfishEncode, Option.bind_eq_bind, Option.bind_some, ih,
      PackedBoxes.rounds, hP]

theorem PackedBoxes.Holds.doCrypto (h : t.Holds b) (block : Block) :
    b.doCrypto block kEncrypt = some (t.nextBlock block) := by
  have hfirst : word t.P 0 = b.P[0] := h.P 0 (by decide)
  have hlast : word t.P 17 = b.P[17] := h.P 17 (by decide)
  rw [Boxes.doCrypto, if_neg (by decide), h.rounds, PackedBoxes.nextBlock, hfirst, hlast]
  rfl

/-- A write of one pair of tables follows the other at the indices below `bound`. -/
def PackedBoxes.Follows (put' : PackedBoxes → ℕ → UInt32 → PackedBoxes)
    (put : Boxes → ℕ → UInt32 → Option Boxes) (bound : ℕ) : Prop :=
  ∀ (t : PackedBoxes) (b : Boxes), t.Holds b → ∀ i < bound, ∀ w,
    ∃ b', put b i w = some b' ∧ (put' t i w).Holds b'

theorem PackedBoxes.follows_putP : PackedBoxes.Follows .putP Boxes.putP 18 := by
  intro t b h i hi w
  exact ⟨_, dif_pos hi, h.P.set w hi, h.S⟩

theorem PackedBoxes.follows_putS : PackedBoxes.Follows .putS Boxes.putS 1024 := by
  intro t b h i hi w
  exact ⟨_, dif_pos hi, h.P, h.S.set w hi⟩

theorem PackedBoxes.Follows.refill {put' : PackedBoxes → ℕ → UInt32 → PackedBoxes}
    {put : Boxes → ℕ → UInt32 → Option Boxes} {bound : ℕ}
    (hput : PackedBoxes.Follows put' put bound)
    {is : List ℕ} (his : ∀ i ∈ is, i + 1 < bound) (h : t.Holds b) (block : Block) :
    ∃ b', Boxes.refill put is (b, block) = some (b', (PackedBoxes.refill put' is (t, block)).2) ∧
      (PackedBoxes.refill put' is (t, block)).1.Holds b' := by
  induction is generalizing t b block with
  | nil => exact ⟨b, rfl, h⟩
  | cons i is ih =>
    have hi := his i List.mem_cons_self
    obtain ⟨b₁, hb₁, h₁⟩ := hput t b h i (by omega) (t.nextBlock block).1
    obtain ⟨b₂, hb₂, h₂⟩ := hput _ b₁ h₁ (i + 1) hi (t.nextBlock block).2
    obtain ⟨b', hb', h'⟩ :=
      ih (fun j hj => his j (List.mem_cons_of_mem i hj)) h₂ (t.nextBlock block)
    refine ⟨b', ?_, h'⟩
    simp only [Boxes.refill, h.doCrypto, hb₁, hb₂, Option.bind_eq_bind, Option.bind_some]
    exact hb'

/-- The boxes after the key schedule, from those that the key was mixed into. -/
def PackedBoxes.schedule (t : PackedBoxes) : PackedBoxes :=
  let s := PackedBoxes.refill .putP (List.range' 0 9 2) (t, (0, 0))
  (PackedBoxes.refill .putS (List.range' 0 512 2) s).1

theorem keyWord_isSome {key : List UInt8} {d : ℕ} (hd : d < key.length) :
    ∃ ri d', Boxes.keyWord key d = some (ri, d') ∧ d' < key.length := by
  have hnext : ∀ d, (d + 1) % key.length < key.length := fun d => Nat.mod_lt _ (by omega)
  unfold Boxes.keyWord
  simp only [List.getElem?_eq_getElem hd, List.getElem?_eq_getElem (hnext _),
    Option.bind_eq_bind, Option.bind_some]
  exact ⟨_, _, rfl, hnext _⟩

theorem mixKey_isSome {key : List UInt8} (is : List (Fin 18)) {d : ℕ} (hd : d < key.length)
    (b : Boxes) : ∃ b', Boxes.mixKey key is d b = some b' := by
  induction is generalizing d b with
  | nil => exact ⟨b, rfl⟩
  | cons i is ih =>
    obtain ⟨ri, d', hword, hd'⟩ := keyWord_isSome hd
    obtain ⟨b', hb'⟩ := ih hd' { b with P := b.P.set i (b.P[i] ^^^ ri) }
    exact ⟨b', by rw [Boxes.mixKey, hword]; exact hb'⟩

/-- A key schedule never panics on a key that is not empty, and its boxes are those of
the packed schedule. -/
theorem setKey_eq {blowfish : Blowfish} {mixed : Boxes}
    (hmixed : Boxes.mixKey (blowfish.key.take 72) (List.finRange 18) 0 blowfish.boxes =
      some mixed) :
    ∃ boxes, blowfish.setKey = some ⟨blowfish.key, boxes, 0, 0⟩ ∧
      mixed.pack.schedule.Holds boxes := by
  obtain ⟨b₁, hb₁, h₁⟩ := PackedBoxes.follows_putP.refill
    (show ∀ i ∈ List.range' 0 9 2, i + 1 < 18 by decide) mixed.holds_pack (0, 0)
  generalize hP : PackedBoxes.refill .putP (List.range' 0 9 2) (mixed.pack, (0, 0)) = s at hb₁ h₁
  obtain ⟨t, input⟩ := s
  obtain ⟨b₂, hb₂, h₂⟩ := PackedBoxes.follows_putS.refill
    (show ∀ i ∈ List.range' 0 512 2, i + 1 < 1024 by simp [List.mem_range']; omega) h₁ input
  have hschedule : mixed.pack.schedule =
      (PackedBoxes.refill .putS (List.range' 0 512 2) (t, input)).1 := by
    rw [PackedBoxes.schedule, hP]
  refine ⟨b₂, ?_, hschedule ▸ h₂⟩
  rw [Blowfish.setKey, hmixed, Option.bind_eq_bind, Option.bind_some, hb₁]
  simp only [Option.bind_eq_bind, Option.bind_some]
  rw [hb₂]
  rfl

end Packed

section Keystream

/-- The block transform with `kEncrypt`, which never panics. -/
def Boxes.nextBlock (b : Boxes) (block : Block) : Block := b.pack.nextBlock block

theorem Boxes.doCrypto_kEncrypt (b : Boxes) (block : Block) :
    b.doCrypto block kEncrypt = some (b.nextBlock block) :=
  b.holds_pack.doCrypto block

/-- Byte `n` of the keystream: the zero block is transformed once for the first eight
bytes and once more for every further eight. -/
def Boxes.keystream (b : Boxes) (n : ℕ) : UInt8 :=
  (Blowfish.blockBytes (b.nextBlock^[n / 8 + 1] (0, 0))).getD (n % 8) 0

namespace Blowfish

@[simp] theorem length_blockBytes (block : Block) : (blockBytes block).length = 8 := by
  simp [blockBytes]

/-- The loop of `mungeData` after `n` bytes: the offset is `n` modulo eight, and one block
has been used for every eight bytes begun. -/
theorem mungeBytes_eq (boxes : Boxes) (data : List UInt8) (n : ℕ) :
    mungeBytes boxes data (boxes.nextBlock^[(n + 7) / 8] (0, 0)) (n % 8) =
      some (data.mapIdx fun i x => x ^^^ boxes.keystream (n + i),
        boxes.nextBlock^[(n + data.length + 7) / 8] (0, 0), (n + data.length) % 8) := by
  induction data generalizing n with
  | nil => rfl
  | cons x data ih =>
    have hblock : refresh boxes (boxes.nextBlock^[(n + 7) / 8] (0, 0)) (n % 8) =
        some (boxes.nextBlock^[n / 8 + 1] (0, 0)) := by
      unfold refresh
      split_ifs with haligned
      · rw [boxes.doCrypto_kEncrypt, show (n + 7) / 8 = n / 8 by omega,
          Function.iterate_succ_apply']
      · rw [show (n + 7) / 8 = n / 8 + 1 by omega]
    have hmask : (blockBytes (boxes.nextBlock^[n / 8 + 1] (0, 0)))[n % 8]? =
        some (boxes.keystream n) := by
      have hlt : n % 8 < (blockBytes (boxes.nextBlock^[n / 8 + 1] (0, 0))).length := by
        rw [length_blockBytes]
        omega
      rw [Boxes.keystream, List.getD_eq_getElem?_getD, List.getElem?_eq_getElem hlt,
        Option.getD_some]
    have hoffset : (n % 8 + 1) &&& 0x07 = (n + 1) % 8 := by
      rw [show 0x07 = 2 ^ 3 - 1 from rfl, Nat.and_two_pow_sub_one_eq_mod]
      omega
    have hrest := ih (n + 1)
    rw [show (n + 1 + 7) / 8 = n / 8 + 1 by omega] at hrest
    simp only [mungeBytes, hblock, hmask, hoffset, hrest, Option.bind_eq_bind, Option.bind_some]
    simp [List.mapIdx_cons, Nat.add_assoc, Nat.add_comm 1]

/-- Whatever the earlier calls left in the state, a call masks its input with the keystream
from the start. -/
theorem encrypt_eq (b : Blowfish) (data : List UInt8) :
    b.encrypt data = some (data.mapIdx fun i x => x ^^^ b.boxes.keystream i,
      { b with
        state := (b.boxes.nextBlock^[(data.length + 7) / 8] (0, 0)).1
        stateOffset := data.length % 8 }) := by
  have hloop := mungeBytes_eq b.boxes data 0
  simp only [Nat.zero_add] at hloop
  simp only [encrypt, mungeData, clearState]
  rw [show mungeBytes b.boxes data (0, 0) 0 = _ from hloop]
  rfl

/-- The port of an instance: what its calls return. -/
def cipher (b : Blowfish) : Cipher where
  encrypt data := ((b.encrypt data).map Prod.fst).getD []
  decrypt data := ((b.decrypt data).map Prod.fst).getD []

theorem cipher_encrypt (b : Blowfish) (data : List UInt8) :
    b.cipher.encrypt data = data.mapIdx fun i x => x ^^^ b.boxes.keystream i := by
  simp [cipher, encrypt_eq]

theorem cipher_decrypt (b : Blowfish) (data : List UInt8) :
    b.cipher.decrypt data = data.mapIdx fun i x => x ^^^ b.boxes.keystream i :=
  b.cipher_encrypt data

end Blowfish

theorem Boxes.keystream_first (b : Boxes) {n : ℕ} (hn : n < 8) :
    b.keystream n = (Blowfish.blockBytes (b.nextBlock (0, 0))).getD n 0 := by
  rw [keystream, Nat.div_eq_of_lt hn, Nat.mod_eq_of_lt hn]
  rfl

theorem eq_zero_of_beBytes {w : UInt32} (h : beBytes 4 w.toNat = List.replicate 4 0) : w = 0 := by
  have hvalue := beNat_beBytes 4 w.toNat
  rw [h, show beNat (List.replicate 4 0) = 0 by decide] at hvalue
  have hlt := w.toNat_lt
  apply UInt32.toNat.inj
  rw [UInt32.toNat_zero]
  omega

theorem Blowfish.blockBytes_eq_replicate_iff (block : Block) :
    blockBytes block = List.replicate 8 0 ↔ block = (0, 0) := by
  constructor
  · intro h
    obtain ⟨hl, hr⟩ : beBytes 4 block.1.toNat = List.replicate 4 0 ∧
        beBytes 4 block.2.toNat = List.replicate 4 0 := List.append_inj h (by simp)
    exact Prod.ext (eq_zero_of_beBytes hl) (eq_zero_of_beBytes hr)
  · rintro rfl
    decide

/-- The keystream is zero when its first block is: the transform then maps the zero
block to itself, block after block. -/
theorem Boxes.keystream_eq_zero {b : Boxes} (h : b.nextBlock (0, 0) = (0, 0)) (n : ℕ) :
    b.keystream n = 0 := by
  have hfixed : b.nextBlock^[n / 8 + 1] (0, 0) = (0, 0) := Function.iterate_fixed h _
  rw [keystream, hfixed, (Blowfish.blockBytes_eq_replicate_iff _).mpr rfl,
    List.getD_replicate _ (Nat.mod_lt n (by decide))]

theorem Boxes.nextBlock_eq_zero {b : Boxes} (h : ∀ n < 8, b.keystream n = 0) :
    b.nextBlock (0, 0) = (0, 0) := by
  rw [← Blowfish.blockBytes_eq_replicate_iff]
  apply List.ext_getElem (by simp)
  intro n hn _
  have hzero := h n (by simpa using hn)
  rw [b.keystream_first (by simpa using hn), List.getD_eq_getElem _ _ hn] at hzero
  rw [hzero, List.getElem_replicate]

/-- The first block of the keystream of a key, by the evaluator. -/
def firstBlock (key : GoString) : Option Block := do
  let mixed ← Boxes.mixKey (key.take 72) (List.finRange 18) 0 initBoxes
  return mixed.pack.schedule.nextBlock (0, 0)

/-- A key that is not empty can be set, and the evaluator finds the first block. -/
theorem exists_setKey {key : GoString} (hkey : key ≠ []) :
    ∃ boxes, (newBlowfish key).setKey = some ⟨key, boxes, 0, 0⟩ ∧
      firstBlock key = some (boxes.nextBlock (0, 0)) := by
  have hlength : 0 < (key.take 72).length := by
    have := List.length_pos_iff.mpr hkey
    rw [List.length_take]
    omega
  obtain ⟨mixed, hmixed⟩ := mixKey_isSome (List.finRange 18) hlength initBoxes
  obtain ⟨boxes, hsetKey, hholds⟩ := @setKey_eq (newBlowfish key) mixed hmixed
  have hblock : mixed.pack.schedule.nextBlock (0, 0) = boxes.nextBlock (0, 0) :=
    Option.some.inj ((hholds.doCrypto (0, 0)).symm.trans (boxes.doCrypto_kEncrypt (0, 0)))
  refine ⟨boxes, hsetKey, ?_⟩
  rw [firstBlock, hmixed, ← hblock]
  rfl

end Keystream

end Musgos.Outbound
