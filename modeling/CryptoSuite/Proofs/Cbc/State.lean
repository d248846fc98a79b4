import CryptoSuite.Proofs.Aes.Inverse
import CryptoSuite.Proofs.Memory.Exhaustion

/-! States for one direction of the cipher, and what one call on them does. The block being worked on is
shared by all calls, but each call writes over all of it. -/
namespace CryptoSuite

namespace Aes.Block

theorem mask_mask (b : Block) (iv : Bytes) : (b.mask iv).mask iv = b := by
  ext i hi
  rw [getElem_mask, getElem_mask, UInt8.xor_assoc, UInt8.xor_self, UInt8.xor_zero]

/-- A block has no more bytes to be masked. -/
theorem mask_take (b : Block) (iv : Bytes) : b.mask (iv.take 16) = b.mask iv := by
  ext i hi
  simp [List.getD_eq_getElem?_getD, hi]

/-- The bytes that the mask does not reach stay. -/
theorem toList_mask (b : Block) (iv : Bytes) :
    (b.mask iv).toList = Bytes.xor b.toList iv ++ b.toList.drop iv.length := by
  apply List.ext_getElem
  · simp
    omega
  · intro i hi _
    rw [Vector.length_toList] at hi
    rw [Vector.getElem_toList, getElem_mask, List.getElem_append]
    split_ifs with hm
    · rw [Bytes.length_xor, Vector.length_toList] at hm
      simp [Bytes.xor, List.getD_eq_getElem?_getD, show i < iv.length by omega]
    · rw [Bytes.length_xor, Vector.length_toList] at hm
      have hiv : iv.length ≤ i := by omega
      simp [List.getD_eq_getElem?_getD, hiv, Nat.min_eq_right (show iv.length ≤ 16 by omega)]

end Aes.Block

namespace Cbc

open BlockCipher (Direction Call)
open Aes (encipher decipher)

variable {κ : Type} {m : RoundMultiplier} {key iv input out : Bytes} {d : Direction} {s : State}

/-- The ciphertext of one block under a vector. -/
def encrypted (m : RoundMultiplier) (key iv x : Bytes) : Bytes :=
  (encipher m key ((Aes.Block.read x 0).mask iv)).toList

/-- The block of which `y` is the ciphertext under a vector. -/
def decrypted (m : RoundMultiplier) (key iv y : Bytes) : Bytes :=
  ((decipher m key (Aes.Block.read y 0)).mask iv).toList

@[simp] theorem length_encrypted (m : RoundMultiplier) (key iv x : Bytes) :
    (encrypted m key iv x).length = 16 := Vector.length_toList

@[simp] theorem length_decrypted (m : RoundMultiplier) (key iv y : Bytes) :
    (decrypted m key iv y).length = 16 := Vector.length_toList

/-- Only the bytes that the vector has are masked. -/
theorem encrypted_eq (m : RoundMultiplier) (key iv : Bytes) {x : Bytes} (h : x.length = 16) :
    encrypted m key iv x =
      (Aes.encipher m key (Aes.Block.read (Bytes.xor x iv ++ x.drop iv.length) 0)).toList := by
  have hmask := Aes.Block.toList_mask (Aes.Block.read x 0) iv
  rw [Aes.Block.toList_read h] at hmask
  rw [encrypted, ← hmask, Aes.Block.read_toList]

theorem decrypted_eq (m : RoundMultiplier) (key iv y : Bytes) :
    decrypted m key iv y = Bytes.xor (Aes.decipher m key (Aes.Block.read y 0)).toList iv ++
      (Aes.decipher m key (Aes.Block.read y 0)).toList.drop iv.length :=
  Aes.Block.toList_mask _ iv

theorem decrypted_encrypted (m : RoundMultiplier) (key iv : Bytes) {x : Bytes} (h : x.length = 16) :
    decrypted m key iv (encrypted m key iv x) = x := by
  rw [decrypted, encrypted, Aes.Block.read_toList, Aes.decipher_encipher, Aes.Block.mask_mask,
    Aes.Block.toList_read h]

theorem encrypted_decrypted (m : RoundMultiplier) (key iv : Bytes) {y : Bytes} (h : y.length = 16) :
    encrypted m key iv (decrypted m key iv y) = y := by
  rw [encrypted, decrypted, Aes.Block.read_toList, Aes.Block.mask_mask, Aes.encipher_decipher,
    Aes.Block.toList_read h]

/-- The schedule computes the cipher in the direction of the state, and there is a block to work on. -/
structure State.Keyed (m : RoundMultiplier) (key : Bytes) (d : Direction) (s : State) : Prop where
  direction_eq : s.direction = d
  size : s.working.bytes.length = 16
  encrypts : d = .encryption → s.key.encryptBlock = encipher m key
  decrypts : d = .decryption → s.key.decryptBlock = decipher m key

theorem keyed_of_runFrom_create {μ ν : Machine κ} (h : (create m key d).runFrom μ = (.ok s, ν)) :
    s.Keyed m key d := by
  have hl : key.length = 32 := by
    by_contra hne
    rw [create, if_pos hne, Fallible.runFrom_bind, Fallible.runFrom_throw] at h
    cases h
  simp only [create, hl, ne_eq, not_true_eq_false, ↓reduceIte] at h
  obtain ⟨k, ξ, hk, h⟩ := Fallible.of_runFrom_bind h
  obtain ⟨working, hworking, rfl⟩ := Fallible.of_runFrom_bind_pure h
  obtain ⟨rfl, -⟩ := Buffer.of_runFrom_newFor (Fallible.of_runFrom_releasing hworking)
  cases d with
  | encryption =>
    have hk := Fallible.of_runFrom_adapt hk
    refine ⟨rfl, rfl, fun _ => AesKey.encryptBlock_of_runFrom_encryption hk, ?_⟩
    intro hd
    cases hd
  | decryption =>
    have hk := Fallible.of_runFrom_adapt hk
    refine ⟨rfl, rfl, ?_, fun _ => AesKey.decryptBlock_of_runFrom_decryption hk⟩
    intro hd
    cases hd

/-- Nothing of what the working block held is left. -/
theorem load_eq (s : State) (hin : input.length = 16) : load s input = .ok (Aes.Block.read input 0) := by
  have hblock : (s.working.write 0 input).bytes.take 16 = input := by
    show (s.working.bytes.overwrite 0 input).take 16 = input
    rw [← hin]
    exact Bytes.take_overwrite_zero _ input
  have hread : Aes.Block.ofBytes? input = some (Aes.Block.read input 0) := if_pos hin
  rw [load, if_neg (not_not.mpr hin), hblock, hread]

/-- The block takes up all of an output of its length. -/
theorem deliver_eq (s : State) (hout : out.length = 16) (block : Aes.Block) :
    deliver s out block = (.ok (), block.toList, (deliver s out block).2.2) := by
  have hall : out.overwrite 0 block.toList = block.toList := by
    rw [Bytes.overwrite_zero, Vector.length_toList, List.drop_of_length_le hout.le, List.append_nil]
  simp only [deliver, hall]

/-- Only as many bytes of a vector count as a block has. -/
theorem encrypt_take (s : State) (iv input out : Bytes) :
    encrypt s (iv.take 16) input out = encrypt s iv input out := by
  simp only [encrypt, Aes.Block.mask_take]

theorem decrypt_take (s : State) (iv input out : Bytes) :
    decrypt s (iv.take 16) input out = decrypt s iv input out := by
  simp only [decrypt, Aes.Block.mask_take]

namespace State.Keyed

theorem deliver (h : s.Keyed m key d) (out : Bytes) (block : Aes.Block) :
    (deliver s out block).2.2.Keyed m key d where
  direction_eq := h.direction_eq
  size := by
    have hl : (s.working.bytes.overwrite 0 block.toList).length = s.working.bytes.length := by
      apply Bytes.length_overwrite
      rw [h.size, Vector.length_toList]
    exact hl.trans h.size
  encrypts := h.encrypts
  decrypts := h.decrypts

theorem encrypt_eq (h : s.Keyed m key .encryption) (iv : Bytes) (hin : input.length = 16)
    (hout : out.length = 16) :
    ∃ t, encrypt s iv input out = (.ok (), encrypted m key iv input, t) ∧ t.Keyed m key .encryption := by
  have hdeliver := h.deliver out (encipher m key ((Aes.Block.read input 0).mask iv))
  refine ⟨_, ?_, hdeliver⟩
  rw [Cbc.encrypt, if_neg (not_not.mpr h.direction_eq), load_eq s hin, h.encrypts rfl]
  exact deliver_eq s hout _

theorem decrypt_eq (h : s.Keyed m key .decryption) (iv : Bytes) (hin : input.length = 16)
    (hout : out.length = 16) :
    ∃ t, decrypt s iv input out = (.ok (), decrypted m key iv input, t) ∧ t.Keyed m key .decryption := by
  have hdeliver := h.deliver out ((decipher m key (Aes.Block.read input 0)).mask iv)
  refine ⟨_, ?_, hdeliver⟩
  rw [Cbc.decrypt, if_neg (not_not.mpr h.direction_eq), load_eq s hin, h.decrypts rfl]
  exact deliver_eq s hout _

end State.Keyed

/-- What a call leaves of a state, whether it fails or not. -/
def State.step (s : State) : Call → State
  | .encrypt iv input out => (Cbc.encrypt s iv input out).2.2
  | .decrypt iv input out => (Cbc.decrypt s iv input out).2.2

theorem State.Keyed.step (h : s.Keyed m key d) (call : Call) : (s.step call).Keyed m key d := by
  cases call with
  | encrypt iv input out =>
    show (Cbc.encrypt s iv input out).2.2.Keyed m key d
    unfold Cbc.encrypt
    split_ifs
    · exact h
    · cases load s input with
      | error e => exact h
      | ok block => exact h.deliver out _
  | decrypt iv input out =>
    show (Cbc.decrypt s iv input out).2.2.Keyed m key d
    unfold Cbc.decrypt
    split_ifs
    · exact h
    · cases load s input with
      | error e => exact h
      | ok block => exact h.deliver out _

theorem State.Keyed.foldl_step (h : s.Keyed m key d) (calls : List Call) :
    (calls.foldl State.step s).Keyed m key d := by
  induction calls generalizing s with
  | nil => exact h
  | cons call calls ih => exact ih (h.step call)

end Cbc

end CryptoSuite
