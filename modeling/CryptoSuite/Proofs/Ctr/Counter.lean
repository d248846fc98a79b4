import CryptoSuite.StreamCipher.Ctr
import CryptoSuite.Proofs.Bytes.Endian
import CryptoSuite.Proofs.Bytes.Overwrite

/-! The counter block as one 128-bit number. Counting is addition of one to it, so the block
reached by counting is the block written by a seek. -/
namespace CryptoSuite.Ctr

theorem littleEndian_incrementLittleEndian (b : Bytes) :
    Bytes.littleEndian (incrementLittleEndian b) =
      (Bytes.littleEndian b + 1) % 256 ^ b.length := by
  induction b with
  | nil => simp [incrementLittleEndian]
  | cons x b ih =>
    have hb := Bytes.littleEndian_lt b
    have hx := x.toNat_lt
    have hadd : (x + 1).toNat = (x.toNat + 1) % 2 ^ 8 := UInt8.toNat_add x 1
    rw [incrementLittleEndian, List.length_cons, Nat.pow_succ', Bytes.littleEndian_cons]
    split_ifs with hc
    · -- the octet is 255 and its sum carries into the rest
      have hx' : x.toNat = 255 := by
        rw [hc] at hadd
        simp only [UInt8.toNat_zero] at hadd
        omega
      rw [Bytes.littleEndian_cons, ih, hx', UInt8.toNat_zero, Nat.zero_add,
        ← Nat.mul_mod_mul_left]
      congr 1
      omega
    · have hx' : x.toNat ≠ 255 := by
        intro h
        apply hc
        apply UInt8.toNat_inj.mp
        rw [hadd, h]
        rfl
      rw [Bytes.littleEndian_cons, hadd, Nat.mod_eq_of_lt (by omega), Nat.mod_eq_of_lt (by omega)]
      omega

theorem bigEndian_increment (b : Bytes) :
    Bytes.bigEndian (increment b) = (Bytes.bigEndian b + 1) % 256 ^ b.length := by
  rw [increment, Bytes.bigEndian_reverse, littleEndian_incrementLittleEndian, List.length_reverse,
    ← Bytes.bigEndian_eq_littleEndian]

/-- Block `n` of the counter blocks that begin with the nonce followed by zeros. -/
def counterBlock (nonce : Bytes) (n : Nat) : Bytes :=
  (Bytes.ofNatLittleEndian 16 (Bytes.bigEndian nonce * 2 ^ 64 + n)).reverse

@[simp] theorem length_counterBlock (nonce : Bytes) (n : Nat) :
    (counterBlock nonce n).length = 16 := by simp [counterBlock]

theorem bigEndian_counterBlock (nonce : Bytes) (n : Nat) :
    Bytes.bigEndian (counterBlock nonce n) = (Bytes.bigEndian nonce * 2 ^ 64 + n) % 2 ^ 128 := by
  rw [counterBlock, Bytes.bigEndian_reverse, Bytes.littleEndian_ofNatLittleEndian]
  rfl

theorem increment_counterBlock (nonce : Bytes) (n : Nat) :
    increment (counterBlock nonce n) = counterBlock nonce (n + 1) := by
  apply Bytes.bigEndian_injective (by simp)
  rw [bigEndian_increment, bigEndian_counterBlock, bigEndian_counterBlock, length_counterBlock]
  omega

/-- Below 2^64 blocks the counter is the nonce followed by the number of the block. -/
theorem counterBlock_eq_append {nonce : Bytes} {n : Nat} (hl : nonce.length = nonceSize)
    (hn : n < 2 ^ 64) : counterBlock nonce n = nonce ++ Bytes.ofUInt64 (UInt64.ofNat n) := by
  have hnonce := Bytes.bigEndian_lt nonce
  simp only [hl, nonceSize] at hnonce
  apply Bytes.bigEndian_injective (by simp [hl, nonceSize])
  rw [bigEndian_counterBlock, Bytes.bigEndian_append, Bytes.bigEndian_ofUInt64,
    Bytes.length_ofUInt64, UInt64.toNat_ofNat_of_lt' hn]
  omega

namespace State

variable {s : State} {src : Bytes}

theorem length_counter (h : s.blocks.size = 32) : s.counter.length = 16 := by
  have hl : s.blocks.bytes.length = 32 := h
  simp [counter, hl]

/-- A keystream block is always made, and only the second half of the buffer changes. -/
theorem refill_of_size (h : s.blocks.size = 32) : s.refill = (.ok (), { s with
    blocks := s.blocks.write 16 (s.key.encryptBlock (Aes.Block.read s.counter 0)).toList }) := by
  simp only [refill, Aes.Block.ofBytes?, length_counter h, ↓reduceIte]

theorem counter_write (h : s.blocks.size = 32) :
    ({ s with blocks := s.blocks.write 16 src } : State).counter = s.counter :=
  Bytes.take_overwrite le_rfl (by rw [← Buffer.size, h]; decide)

theorem counter_setCounter (hs : src.length = 16) : (s.setCounter src).counter = src := by
  unfold counter setCounter Buffer.write
  rw [Buffer.bytes_setBytes, ← hs]
  exact Bytes.take_overwrite_zero _ _

end State

end CryptoSuite.Ctr
