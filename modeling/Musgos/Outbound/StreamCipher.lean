import Musgos.Outbound.Blowfish

/-!
# The cipher as a stream cipher

One instance of the cipher is shared by all connections and serves their calls one after
the other. Its key schedule and its calls stay inside their tables, and a call masks its
input with a keystream that the key alone determines. Everything else is what masking does:
it keeps the length, undoes itself, and treats a prefix without looking further.
-/
namespace Musgos.Outbound

open Foundation

section Mask

variable (k : ℕ → UInt8)

/-- Every byte masked with the byte of the keystream at its position. -/
def maskWith (data : List UInt8) : List UInt8 := data.mapIdx fun i x => x ^^^ k i

theorem length_maskWith (data : List UInt8) : (maskWith k data).length = data.length :=
  List.length_mapIdx

theorem maskWith_maskWith (data : List UInt8) : maskWith k (maskWith k data) = data := by
  apply List.ext_getElem
  · rw [length_maskWith, length_maskWith]
  · intro n _ hn
    simp only [maskWith, List.getElem_mapIdx]
    rw [UInt8.xor_assoc, UInt8.xor_self, UInt8.xor_zero]

theorem take_maskWith_append (data more : List UInt8) :
    (maskWith k (data ++ more)).take data.length = maskWith k data := by
  rw [maskWith, List.mapIdx_append]
  exact List.take_left' (length_maskWith k data)

end Mask

/-- The calls a connection makes. -/
inductive CipherCall where
  | encrypt (data : List UInt8)
  | decrypt (data : List UInt8)

namespace Blowfish

/-- The instance after a call; `none` is an index outside of a table. -/
def call (b : Blowfish) : CipherCall → Option Blowfish
  | .encrypt data => (b.encrypt data).map Prod.snd
  | .decrypt data => (b.decrypt data).map Prod.snd

def callAll (b : Blowfish) : List CipherCall → Option Blowfish
  | [] => some b
  | c :: calls => do (← b.call c).callAll calls

/-- Encryption never fails and leaves the boxes alone. -/
theorem exists_encrypt (b : Blowfish) (data : List UInt8) :
    ∃ b', b.encrypt data = some (maskWith b.boxes.keystream data, b') ∧ b'.boxes = b.boxes :=
  ⟨_, b.encrypt_eq data, rfl⟩

theorem exists_decrypt (b : Blowfish) (data : List UInt8) :
    ∃ b', b.decrypt data = some (maskWith b.boxes.keystream data, b') ∧ b'.boxes = b.boxes :=
  b.exists_encrypt data

theorem exists_call (b : Blowfish) (c : CipherCall) :
    ∃ b', b.call c = some b' ∧ b'.boxes = b.boxes := by
  cases c with
  | encrypt data =>
    obtain ⟨b', hcall, hboxes⟩ := b.exists_encrypt data
    exact ⟨b', by rw [call, hcall]; rfl, hboxes⟩
  | decrypt data =>
    obtain ⟨b', hcall, hboxes⟩ := b.exists_decrypt data
    exact ⟨b', by rw [call, hcall]; rfl, hboxes⟩

/-- Whatever was called before, the boxes are those of the key. -/
theorem exists_callAll (b : Blowfish) (calls : List CipherCall) :
    ∃ b', b.callAll calls = some b' ∧ b'.boxes = b.boxes := by
  induction calls generalizing b with
  | nil => exact ⟨b, rfl, rfl⟩
  | cons c calls ih =>
    obtain ⟨b₁, hcall, hboxes₁⟩ := b.exists_call c
    obtain ⟨b₂, hrest, hboxes₂⟩ := ih b₁
    refine ⟨b₂, ?_, hboxes₂.trans hboxes₁⟩
    rw [callAll, hcall]
    exact hrest

end Blowfish

/-- The key can be set, and then there are two functions of the input such that after every
sequence of calls the instance encrypts by the one and decrypts by the other, without ever
leaving its tables. They keep the length, invert each other, and the first bytes of an
encryption do not depend on the later ones of the input. -/
theorem stream_cipher_laws {key : GoString} (hkey : key ≠ []) :
    ∃ (b₀ : Blowfish) (enc dec : List UInt8 → List UInt8), (newBlowfish key).setKey = some b₀ ∧
      (∀ calls, ∃ b, b₀.callAll calls = some b ∧ ∀ p,
        (∃ b', b.encrypt p = some (enc p, b')) ∧ ∃ b', b.decrypt p = some (dec p, b')) ∧
      ∀ p, (enc p).length = p.length ∧ dec (enc p) = p ∧ enc (dec p) = p ∧
        ∀ q, (enc (p ++ q)).take p.length = enc p := by
  obtain ⟨boxes, hsetKey, -⟩ := exists_setKey hkey
  refine ⟨_, maskWith boxes.keystream, maskWith boxes.keystream, hsetKey, ?_, ?_⟩
  · intro calls
    obtain ⟨b, hcalls, hboxes⟩ := Blowfish.exists_callAll ⟨key, boxes, 0, 0⟩ calls
    refine ⟨b, hcalls, fun p => ?_⟩
    obtain ⟨b₁, hencrypt, -⟩ := b.exists_encrypt p
    obtain ⟨b₂, hdecrypt, -⟩ := b.exists_decrypt p
    rw [hboxes] at hencrypt hdecrypt
    exact ⟨⟨b₁, hencrypt⟩, b₂, hdecrypt⟩
  · intro p
    have hback := maskWith_maskWith boxes.keystream p
    exact ⟨length_maskWith _ p, hback, hback, take_maskWith_append _ p⟩

/-- A key of one byte. -/
theorem stream_cipher_laws_short :
    ∃ (b₀ : Blowfish) (enc dec : List UInt8 → List UInt8),
      (newBlowfish (lit "k")).setKey = some b₀ ∧
      (∀ calls, ∃ b, b₀.callAll calls = some b ∧ ∀ p,
        (∃ b', b.encrypt p = some (enc p, b')) ∧ ∃ b', b.decrypt p = some (dec p, b')) ∧
      ∀ p, (enc p).length = p.length ∧ dec (enc p) = p ∧ enc (dec p) = p ∧
        ∀ q, (enc (p ++ q)).take p.length = enc p :=
  stream_cipher_laws (by decide)

end Musgos.Outbound
