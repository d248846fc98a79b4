import CryptoSuite.Proofs.Aes.Key
import CryptoSuite.Proofs.Ctr.Counter

/-! The keystream under a nonce, and the states that stand at a position of it. A state may have
spent its keystream block or not have begun it, so a position does not determine the counter. -/
namespace CryptoSuite.Ctr

open Aes (Block encipher)

/-- Byte `n` of the keystream under a key and a nonce. -/
def keystream (m : RoundMultiplier) (key nonce : Bytes) (n : Nat) : UInt8 :=
  (encipher m key (Block.read (counterBlock nonce (n / 16)) 0)).get ⟨n % 16, Nat.mod_lt n (by decide)⟩

/-- The counter and the keystream block have room, and the key is the one that counts. -/
structure Keyed (m : RoundMultiplier) (key : Bytes) (s : State) : Prop where
  cipher : s.key.encryptBlock = encipher m key
  size : s.blocks.bytes.length = 32

/-- A started state whose next keystream byte is number `position`. Its keystream block, number
`block`, may be spent. -/
structure Follows (m : RoundMultiplier) (key nonce : Bytes) (position : Nat) (s : State) : Prop
    extends Keyed m key s where
  started : s.started = true
  used_le : s.used ≤ 16
  position_eq : ∃ block, 16 * block + s.used = position ∧ s.counter = counterBlock nonce block ∧
    s.blocks.bytes.drop 16 = (encipher m key (Block.read (counterBlock nonce block) 0)).toList

variable {m : RoundMultiplier} {key nonce : Bytes} {position : Nat} {s : State}

namespace State

theorem refill_eq (h : Keyed m key s) :
    s.refill = (.ok (), { s with
      blocks := s.blocks.write 16 (encipher m key (Block.read s.counter 0)).toList }) := by
  rw [refill_of_size h.size, h.cipher]

theorem drop_write {src : Bytes} (h : Keyed m key s) (hs : src.length = 16) :
    (s.blocks.write 16 src).bytes.drop 16 = src := by
  have hl : ((s.blocks.write 16 src).bytes.drop 16).length = src.length := by
    rw [List.length_drop, Buffer.write, Buffer.bytes_setBytes, Bytes.length_overwrite] <;>
      simp [h.size, hs]
  rw [← List.take_length (l := (s.blocks.write 16 src).bytes.drop 16), hl]
  exact Bytes.take_drop_overwrite (by rw [h.size]; decide)

end State

theorem Keyed.write {src : Bytes} {start : Nat} (h : Keyed m key s) (hs : start + src.length ≤ 32) :
    Keyed m key { s with blocks := s.blocks.write start src } where
  cipher := h.cipher
  size := by
    rw [Buffer.write, Buffer.bytes_setBytes, Bytes.length_overwrite, h.size]
    rwa [h.size]

/-- Making the keystream block of block `n`, of which `used` bytes then count as spent. -/
theorem Follows.of_refill {n used : Nat} (h : Keyed m key s) (hc : s.counter = counterBlock nonce n)
    (hu : used ≤ 16) :
    ∃ t, s.refill = (.ok (), t) ∧ t.started = s.started ∧
      Follows m key nonce (16 * n + used) { t with used, started := true } := by
  refine ⟨_, State.refill_eq h, rfl, ?_⟩
  have hl : 16 + (encipher m key (Block.read s.counter 0)).toList.length ≤ 32 := by simp
  have hk := h.write hl
  refine ⟨⟨hk.cipher, hk.size⟩, rfl, hu, n, rfl, ?_, ?_⟩
  · exact (State.counter_write h.size).trans hc
  · rw [← hc]
    exact State.drop_write h (by simp)

namespace Follows

/-- A spent keystream block is replaced by the next one, at the same position. -/
theorem ready_eq (h : Follows m key nonce position s) :
    ∃ t, s.ready = (.ok (), t) ∧ Follows m key nonce position t ∧ t.used < 16 := by
  obtain ⟨n, hp, hc, -⟩ := h.position_eq
  by_cases hu : s.used = 16
  · have hk : Keyed m key (s.setCounter (increment s.counter)) :=
      h.toKeyed.write (by simp [hc])
    have hc' : (s.setCounter (increment s.counter)).counter = counterBlock nonce (n + 1) := by
      rw [hc, increment_counterBlock]
      exact State.counter_setCounter (length_counterBlock nonce (n + 1))
    obtain ⟨t, ht, hs, hf⟩ := of_refill hk hc' (Nat.zero_le 16)
    have hst : t.started = true := hs.trans h.started
    refine ⟨{ t with used := 0 }, ?_, ?_, Nat.zero_lt_succ 15⟩
    · simp only [State.ready, hu, ↓reduceIte, State.advance, ht]
    · have he : 16 * (n + 1) + 0 = position := by omega
      rw [he, ← hst] at hf
      exact hf
  · refine ⟨s, by simp only [State.ready, hu, ↓reduceIte], h, ?_⟩
    have hle := h.used_le
    omega

theorem nextByte_eq (h : Follows m key nonce position s) :
    ∃ t, s.nextByte = (.ok (keystream m key nonce position), t) ∧
      Follows m key nonce (position + 1) t := by
  obtain ⟨t, ht, hf, hu⟩ := h.ready_eq
  obtain ⟨n, hp, hc, hb⟩ := hf.position_eq
  have hn : position / 16 = n := by omega
  have hr : position % 16 = t.used := by omega
  have hk : t.blocks.bytes.getD (16 + t.used) 0 = keystream m key nonce position := by
    rw [List.getD_eq_getElem?_getD, ← List.getElem?_drop, hb]
    simp [keystream, hn, hr, hu, Vector.get]
  refine ⟨{ t with used := t.used + 1 }, ?_, ⟨hf.cipher, hf.size⟩, hf.started, hu, n, ?_, hc, hb⟩
  · simp only [State.nextByte, ht, hk]
  · simp only
    omega

end Follows

end CryptoSuite.Ctr
