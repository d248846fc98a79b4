import CryptoSuite.Proofs.Sha2.Padding
import CryptoSuite.Proofs.Sha2.Streaming

/-! Closing a message. The padding that is written into the block makes the absorbed message the
padded one, whether or not the length field still fits behind the marker. -/
namespace CryptoSuite.Sha2

variable {message : Bytes} {s : State}

/-- The block after the marker byte, which always has room. -/
def State.marked (s : State) : State :=
  { s.store s.chain (s.block.overwrite s.filled [0x80]) with filled := s.filled + 1 }

theorem State.closeMessage_of_le (h : s.filled + 1 ≤ 112) : s.closeMessage = s.marked :=
  if_neg (Nat.not_lt.mpr h)

theorem State.chain_marked (hs : s.storage.bytes.length = 192) : s.marked.chain = s.chain :=
  chain_store (length_chain hs)

/-- Behind the marker byte, zeros up to the end of the block make one write with it. -/
theorem State.overwrite_marked (hs : s.storage.bytes.length = 192) (hf : s.filled < 128) :
    s.marked.block.overwrite (s.filled + 1) (Bytes.zeros (128 - (s.filled + 1))) =
      s.block.overwrite s.filled ([0x80] ++ Bytes.zeros (127 - s.filled)) := by
  have hb := length_block hs
  have hz : 128 - (s.filled + 1) = 127 - s.filled := by omega
  have hm : s.marked.block = s.block.overwrite s.filled [0x80] := block_store (length_chain hs)
  rw [hm, hz]
  exact Bytes.overwrite_overwrite (by omega) rfl

/-- When the length field no longer fits, marker and zeros fill the block, which is compressed. -/
theorem State.closeMessage_of_lt (hs : s.storage.bytes.length = 192) (hf : s.filled < 128)
    (h : 112 < s.filled + 1) :
    s.closeMessage = { (s.store s.chain (s.block.overwrite s.filled
      ([0x80] ++ Bytes.zeros (127 - s.filled)))).compressBlock with filled := 0 } := by
  have hcm : s.closeMessage = { (s.marked.store s.marked.chain (s.marked.block.overwrite
      (s.filled + 1) (Bytes.zeros (128 - (s.filled + 1))))).compressBlock with filled := 0 } :=
    if_pos h
  rw [hcm, chain_marked hs, overwrite_marked hs hf]
  rfl

/-- With the length field out of room, marker and zeros fill the block. -/
theorem Holds.filled_closing (h : Holds message s) (hf : ¬s.filled < 112) :
    s.filled + ([0x80] ++ Bytes.zeros (127 - s.filled)).length = 128 := by
  have hm := h.filled_eq
  rw [List.length_append, List.length_singleton, Bytes.length_zeros]
  omega

/-- The marker alone tops up the block; with the zeros behind it, it fills the block up. -/
theorem Holds.closeMessage (h : Holds message s) : Holds (closed message) s.closeMessage := by
  have hm := h.filled_eq
  rw [closed, closingZeros, ← hm]
  split_ifs with hf
  · have hl : s.filled + 1 < 128 := by omega
    rw [State.closeMessage_of_le hf]
    exact h.top_up hl
  · obtain ⟨hsize, hchain, hrest⟩ := h.fill_up (h.filled_closing hf)
    rw [State.closeMessage_of_lt h.size (by omega) (by omega)]
    refine ⟨hsize, hchain, ?_, ?_⟩
    · rw [← length_rest, hrest]
      rfl
    · rw [hrest]
      rfl

/-- The zeros and the length field are written one after the other. -/
theorem Holds.overwrite_ending (h : Holds message s) (hb : s.bits = 8 * message.length % 2 ^ 128) :
    (s.closeMessage.block.overwrite s.closeMessage.filled
      (Bytes.zeros (112 - s.closeMessage.filled))).overwrite 112
        (Bytes.ofUInt64 s.bitsHigh ++ Bytes.ofUInt64 s.bitsLow) =
      s.closeMessage.block.overwrite s.closeMessage.filled (ending message) := by
  have hf := h.closeMessage.filled_eq
  have hl := length_closed_mod_le message
  have hbl := State.length_block h.closeMessage.size
  have hsize : Bytes.ofUInt64 s.bitsHigh ++ Bytes.ofUInt64 s.bitsLow = lengthField message.length :=
    Bytes.ofUInt64_append_ofUInt64 hb
  rw [hsize, Bytes.overwrite_overwrite (by omega) (by simp; omega), ending, hf]

/-- The chaining value of a finished state is that of the padded message. -/
theorem Holds.chain_finish (h : Holds message s) (hb : s.bits = 8 * message.length % 2 ^ 128) :
    s.finish.chain = (chained s.variant (pad message)).toBytes := by
  have hv : s.closeMessage.variant = s.variant := by
    unfold State.closeMessage
    dsimp only
    split_ifs <;> rfl
  have hl : s.closeMessage.filled + (ending message).length = 128 := by
    rw [h.closeMessage.filled_eq, length_ending]
  obtain ⟨-, hchain, -⟩ := h.closeMessage.fill_up hl
  rw [State.finish, h.overwrite_ending hb, hchain, hv, closed_append_ending]

end CryptoSuite.Sha2
