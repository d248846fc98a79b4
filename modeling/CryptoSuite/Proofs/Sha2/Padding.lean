import CryptoSuite.Proofs.Bytes.Endian
import CryptoSuite.Proofs.Sha2.Blocks
import Mathlib.Algebra.Order.Floor.Div

/-! The padding of a message, as it is written in two steps, and what it determines. The length
field tells messages apart that differ by a marker and zeros at their end. -/
namespace CryptoSuite

theorem Bytes.zeros_append (a b : Nat) : zeros a ++ zeros b = zeros (a + b) := by simp [zeros]

namespace Sha2

variable {a b message : Bytes}

/-- The number of bits of a message of `length` bytes, in 16 big-endian bytes. -/
def lengthField (length : Nat) : Bytes := (Bytes.ofNatLittleEndian 16 (8 * length)).reverse

@[simp] theorem length_lengthField (length : Nat) : (lengthField length).length = 16 := by
  simp [lengthField]

/-- How many zeros fill the block behind the marker byte, if the length field no longer fits. -/
def closingZeros (length : Nat) : Nat := if length % 128 < 112 then 0 else 127 - length % 128

/-- The message with its marker byte and the zeros that close a block without a length field. -/
def closed (message : Bytes) : Bytes :=
  message ++ ([0x80] ++ Bytes.zeros (closingZeros message.length))

/-- What completes the last block of a closed message. -/
def ending (message : Bytes) : Bytes :=
  Bytes.zeros (112 - (closed message).length % 128) ++ lengthField message.length

theorem length_closed (message : Bytes) :
    (closed message).length = message.length + 1 + closingZeros message.length := by
  rw [closed, List.length_append, List.length_append, List.length_singleton, Bytes.length_zeros,
    Nat.add_assoc]

theorem length_closed_mod_le (message : Bytes) : (closed message).length % 128 ≤ 112 := by
  rw [length_closed, closingZeros]
  split_ifs <;> omega

theorem length_ending (message : Bytes) :
    (closed message).length % 128 + (ending message).length = 128 := by
  have hl := length_closed_mod_le message
  rw [ending, List.length_append, Bytes.length_zeros, length_lengthField]
  omega

theorem closed_append_ending (message : Bytes) : closed message ++ ending message = pad message := by
  have hz : closingZeros message.length + (112 - (closed message).length % 128) =
      paddingZeros message.length := by
    rw [length_closed, closingZeros, paddingZeros]
    split_ifs <;> omega
  rw [pad, ← hz, ← Bytes.zeros_append]
  simp only [closed, ending, lengthField, List.append_assoc]

/-- The padded message is the shortest whole number of blocks with room for 17 more bytes. -/
theorem length_pad (message : Bytes) :
    (pad message).length = 128 * ((message.length + 17) ⌈/⌉ 128) := by
  have hl : (pad message).length = message.length + 17 + paddingZeros message.length := by
    simp only [pad, List.length_append, List.length_singleton, Bytes.length_zeros,
      List.length_reverse, Bytes.length_ofNatLittleEndian]
    omega
  rw [hl, Nat.ceilDiv_eq_add_pred_div, paddingZeros]
  omega

theorem lengthField_injective {m n : Nat} (hm : m < 2 ^ 61) (hn : n < 2 ^ 61)
    (h : lengthField m = lengthField n) : m = n := by
  have hb := congrArg Bytes.littleEndian (List.reverse_inj.mp h)
  rw [Bytes.littleEndian_ofNatLittleEndian, Bytes.littleEndian_ofNatLittleEndian,
    Nat.mod_eq_of_lt (by omega), Nat.mod_eq_of_lt (by omega)] at hb
  omega

theorem pad_injective (ha : a.length < 2 ^ 61) (hb : b.length < 2 ^ 61) (h : pad a = pad b) :
    a = b := by
  obtain ⟨hbody, hfield⟩ := List.append_inj' h (by simp)
  have hl : a.length = b.length := lengthField_injective ha hb hfield
  rw [List.append_assoc, List.append_assoc] at hbody
  exact (List.append_inj hbody hl).1

theorem length_blocks_pad (message : Bytes) :
    (blocks (pad message)).length = (message.length + 17) ⌈/⌉ 128 := by
  rw [length_blocks, length_pad, Nat.mul_div_cancel_left _ (by decide)]

theorem blocks_pad_inj (ha : a.length < 2 ^ 61) (hb : b.length < 2 ^ 61) :
    blocks (pad a) = blocks (pad b) ↔ a = b := by
  refine ⟨fun h => pad_injective ha hb ?_, fun h => congrArg (blocks ∘ pad) h⟩
  have hd : ∀ message, 128 ∣ (pad message).length := fun message => ⟨_, length_pad message⟩
  rw [← flatten_blocks (hd a), h, flatten_blocks (hd b)]

end Sha2

end CryptoSuite
