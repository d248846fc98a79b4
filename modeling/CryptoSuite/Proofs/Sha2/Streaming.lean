import CryptoSuite.Sha2.State
import CryptoSuite.Proofs.Bytes.Endian
import CryptoSuite.Proofs.Bytes.Overwrite
import CryptoSuite.Proofs.Sha2.Blocks
import Mathlib.Tactic.SplitIfs

/-! The state of a computation against the message absorbed so far. The bytes of the block behind
the ones that are filled are left over from earlier blocks, and nothing is said of them. -/
namespace CryptoSuite.Sha2

@[simp] theorem Chain.ofBytes_toBytes (c : Chain) : Chain.ofBytes c.toBytes = c := by
  have h : Bytes.words64 c.toBytes = c.words := by
    simp only [Chain.toBytes, Chain.words, List.flatMap_cons, Bytes.words64_ofUInt64_append]
    rfl
  rw [Chain.ofBytes, h, Chain.ofWords_words]

theorem absorbBlocks_toBytes (c : Chain) (data : Bytes) :
    absorbBlocks c.toBytes data = (((blocks data).foldl compress c).toBytes, rest data) := by
  fun_induction blocks data generalizing c with
  | case1 data block hl ih =>
    have hr : rest data = rest (data.drop 128) := by
      have hb : block ++ data.drop 128 = data := List.take_append_drop 128 data
      rw [← hb, rest_append_left ⟨1, hl⟩, hb]
    rw [absorbBlocks, dif_pos hl, Chain.ofBytes_toBytes, ih, List.foldl_cons, hr]
  | case2 data block hl =>
    have hb : data.length < 128 := by
      simp only [block, List.length_take] at hl
      omega
    rw [absorbBlocks, dif_neg hl, List.foldl_nil, rest_of_lt hb]

/-- The chaining value and the block of a state hold the message. -/
structure Holds (message : Bytes) (s : State) : Prop where
  size : s.storage.bytes.length = 192
  chain_eq : s.chain = (chained s.variant message).toBytes
  filled_eq : s.filled = message.length % 128
  block_eq : s.block.take s.filled = rest message

namespace State

variable {s : State}

theorem length_chain (h : s.storage.bytes.length = 192) : s.chain.length = 64 := by
  simp [chain, h]

theorem length_block (h : s.storage.bytes.length = 192) : s.block.length = 128 := by
  simp [block, h]

theorem chain_store {c b : Bytes} (h : c.length = 64) : (s.store c b).chain = c :=
  List.take_left' h

theorem block_store {c b : Bytes} (h : c.length = 64) : (s.store c b).block = b :=
  List.drop_left' h

theorem size_store {c b : Bytes} (hc : c.length = 64) (hb : b.length = 128) :
    (s.store c b).storage.bytes.length = 192 := by
  simp [store, hc, hb]

def bits (s : State) : Nat := s.bitsHigh.toNat * 2 ^ 64 + s.bitsLow.toNat

/-- Counting is addition of eight times the length modulo 2^128. -/
theorem bits_countBits (s : State) {length : Nat} (h : length < 2 ^ 64) :
    (s.countBits length).bits = (s.bits + 8 * length) % 2 ^ 128 := by
  have hn : (UInt64.ofNat length).toNat = length := UInt64.toNat_ofNat_of_lt' h
  have hl := s.bitsLow.toNat_lt
  have hh := s.bitsHigh.toNat_lt
  have hlow : (s.bitsLow + (UInt64.ofNat length <<< 3)).toNat =
      (s.bitsLow.toNat + 8 * length % 2 ^ 64) % 2 ^ 64 := by
    rw [UInt64.toNat_add, UInt64.toNat_shiftLeft, hn, Nat.shiftLeft_eq]
    simp only [UInt64.reduceToNat, Nat.reduceMod, Nat.reducePow]
    omega
  have hhigh : (UInt64.ofNat length >>> 61).toNat = length / 2 ^ 61 := by
    rw [UInt64.toNat_shiftRight, hn, Nat.shiftRight_eq_div_pow]
    rfl
  simp only [bits, countBits, UInt64.toNat_add, hlow, hhigh, UInt64.lt_iff_toNat_lt]
  split_ifs <;> simp only [UInt64.toNat_zero, UInt64.toNat_one] <;> omega

end State

variable {message data : Bytes} {s : State}

namespace Holds

/-- With nothing left over, complete blocks go from the data straight into the chaining value. -/
theorem absorb (hsize : s.storage.bytes.length = 192)
    (hchain : s.chain = (chained s.variant message).toBytes) (hrest : rest message = [])
    (data : Bytes) : Holds (message ++ data) (s.absorb data) := by
  have hlen : message.length % 128 = 0 := by rw [← length_rest, hrest, List.length_nil]
  have hr : rest (message ++ data) = rest data := by rw [rest_append, hrest, List.nil_append]
  have hd : (rest data).length ≤ s.block.length := by
    rw [State.length_block hsize, length_rest]
    omega
  have hb : (s.block.overwrite 0 (rest data)).length = 128 := by
    rw [Bytes.length_overwrite (by omega), State.length_block hsize]
  have ha : s.absorb data = { s.store ((blocks data).foldl compress (chained s.variant message)).toBytes
      (s.block.overwrite 0 (rest data)) with filled := (rest data).length } := by
    rw [State.absorb, hchain, absorbBlocks_toBytes]
  rw [ha]
  refine ⟨State.size_store (Chain.length_toBytes _) hb, ?_, ?_, ?_⟩
  · refine (State.chain_store (Chain.length_toBytes _)).trans ?_
    rw [chained_append, hrest]
    rfl
  · change (rest data).length = (message ++ data).length % 128
    rw [length_rest, List.length_append]
    omega
  · refine (congrArg (List.take (rest data).length)
      (State.block_store (Chain.length_toBytes _))).trans ?_
    rw [hr, Bytes.take_overwrite_zero]

theorem top_up (h : Holds message s) (hlt : s.filled + data.length < 128) :
    Holds (message ++ data) { s.store s.chain (s.block.overwrite s.filled data) with
      filled := s.filled + data.length } := by
  have hc := State.length_chain h.size
  have hb := State.length_block h.size
  have hm := h.filled_eq
  have hr : rest (message ++ data) = rest message ++ data := by
    rw [rest_append, rest_of_lt]
    rw [List.length_append, length_rest]
    omega
  refine ⟨State.size_store hc (by rw [Bytes.length_overwrite] <;> omega), ?_, ?_, ?_⟩
  · refine (State.chain_store hc).trans ?_
    rw [h.chain_eq, chained_append, blocks_of_lt, List.foldl_nil]
    · rfl
    · rw [List.length_append, length_rest]
      omega
  · change s.filled + data.length = (message ++ data).length % 128
    rw [List.length_append]
    omega
  · refine (congrArg (List.take (s.filled + data.length)) (State.block_store hc)).trans ?_
    rw [Bytes.take_overwrite_end (by omega), h.block_eq, hr]

/-- Bytes that fill the block stand behind what was left of the message. -/
theorem overwrite_block (h : Holds message s) (heq : s.filled + data.length = 128) :
    s.block.overwrite s.filled data = rest message ++ data := by
  have hb := State.length_block h.size
  rw [← h.block_eq, ← Bytes.take_overwrite_end (by omega), heq, List.take_of_length_le]
  rw [Bytes.length_overwrite] <;> omega

theorem length_rest_append (h : Holds message s) (heq : s.filled + data.length = 128) :
    (rest message ++ data).length = 128 := by
  have hm := h.filled_eq
  rw [List.length_append, length_rest]
  omega

/-- Bytes that fill the block complete it, and it is compressed. -/
theorem fill_up (h : Holds message s) (heq : s.filled + data.length = 128) :
    let t := (s.store s.chain (s.block.overwrite s.filled data)).compressBlock
    t.storage.bytes.length = 192 ∧ t.chain = (chained s.variant (message ++ data)).toBytes ∧
      rest (message ++ data) = [] := by
  have hc := State.length_chain h.size
  have hl := h.length_rest_append heq
  simp only [State.compressBlock, State.chain_store hc, State.block_store hc, h.overwrite_block heq]
  refine ⟨State.size_store (Chain.length_toBytes _) hl, ?_, ?_⟩
  · rw [State.chain_store (Chain.length_toBytes _), h.chain_eq, Chain.ofBytes_toBytes, chained_append,
      blocks_eq_singleton hl, List.foldl_cons, List.foldl_nil]
  · rw [rest_append, rest_of_dvd ⟨1, hl⟩]

theorem countBits (h : Holds message s) (length : Nat) : Holds message (s.countBits length) :=
  ⟨h.size, h.chain_eq, h.filled_eq, h.block_eq⟩

/-- The three ways through an update: the block is topped up, or completed and the rest absorbed,
or was empty and everything is absorbed. -/
theorem update (h : Holds message s) (data : Bytes) : Holds (message ++ data) (s.update data) := by
  rw [State.update]
  split_ifs with he
  · have hd : data = [] := List.isEmpty_iff.mp he
    rwa [hd, List.append_nil]
  have hs := h.countBits data.length
  generalize s.countBits data.length = t at hs
  have hm := hs.filled_eq
  dsimp only
  split_ifs with hz hlt
  · refine absorb hs.size hs.chain_eq (List.eq_nil_of_length_eq_zero ?_) data
    rw [length_rest]
    omega
  · have ht : min (128 - t.filled) data.length = data.length := by omega
    rw [ht, List.take_length]
    exact hs.top_up (by omega)
  · have ht : min (128 - t.filled) data.length = 128 - t.filled := by omega
    rw [ht] at hlt ⊢
    have hl : t.filled + (data.take (128 - t.filled)).length = 128 := by
      rw [List.length_take]
      omega
    obtain ⟨hsize, hchain, hrest⟩ := hs.fill_up hl
    have ha := absorb hsize hchain hrest (data.drop (128 - t.filled))
    rwa [List.append_assoc, List.take_append_drop] at ha

end Holds

end CryptoSuite.Sha2
