import CryptoSuite.Proofs.Bytes.Access
import CryptoSuite.Proofs.Hash.Mirror
import CryptoSuite.Proofs.Memory.Hashing
import CryptoSuite.Proofs.Sha2.Counting

/-! The accesses of a hash computation to its storage and to its arguments. On states whose block is open all
of them are in range, and the operations answer what they answer without the conditions. -/
namespace CryptoSuite.Sha2

namespace State

/-- A state in which no access fails. -/
structure InRange (s : State) : Prop where
  size : s.storage.size = 192
  filled_lt : s.filled < 128

/-- The chaining value and the block, side by side in the storage. -/
def split? (s : State) : Option (Bytes × Bytes) := do
  let chain ← s.storage.bytes.slice? 0 64
  let block ← s.storage.bytes.slice? 64 s.storage.size
  pure (chain, block)

def reset? (s : State) : Option State := do
  let _ ← s.split?
  pure s.reset

/-- Compresses the complete blocks of `data` and copies the rest to the front of the block. -/
def absorb? (s : State) (chain block data : Bytes) : Option State := do
  let (chain, rest) := absorbBlocks chain data
  let block ← block.fill? 0 rest.length rest
  pure { s.store chain block with filled := rest.length }

def update? (s : State) (data : Bytes) : Option State :=
  if data.isEmpty then some s
  else do
    let s := s.countBits data.length
    let (chain, block) ← s.split?
    if s.filled = 0 then s.absorb? chain block data
    else do
      let taken := min (← minus? 128 s.filled) data.length
      let filled ← size? (s.filled + taken)
      let block ← block.fill? s.filled filled (← data.slice? 0 taken)
      let rest ← data.slice? taken data.length
      if filled < 128 then some { s.store chain block with filled }
      else s.absorb? (compress (Chain.ofBytes chain) block).toBytes block rest

/-- The chaining value, the block and how much of it is filled, once the message is closed. -/
def closeMessage? (s : State) : Option (Bytes × Bytes × Nat) := do
  let (chain, block) ← s.split?
  let filled ← size? (s.filled + 1)
  let block ← block.fill? s.filled filled [0x80]
  if 112 < filled then do
    let block ← block.fill? filled block.length (Bytes.zeros (block.length - filled))
    pure ((compress (Chain.ofBytes chain) block).toBytes, block, 0)
  else pure (chain, block, filled)

def finish? (s : State) : Option State := do
  let (chain, block, filled) ← s.closeMessage?
  let block ← block.fill? filled 112 (Bytes.zeros (112 - filled))
  let block ← block.fill? 112 120 (Bytes.ofUInt64 s.bitsHigh)
  let block ← block.fill? 120 block.length (Bytes.ofUInt64 s.bitsLow)
  pure { s.store (compress (Chain.ofBytes chain) block).toBytes block with filled }

def finalize? (s : State) (out : Bytes) : Option (Status × Bytes × State) :=
  let size := s.variant.digestSize
  if out.length < size then
    some (.error (.invalidArgument .hash (.shortDigestOutput size)), out, s)
  else do
    let t ← s.finish?
    let out ← out.fill? 0 size (← t.chain.slice? 0 size)
    pure (.ok (), out, ← t.reset?)

variable {s : State}

theorem store_self (s : State) : s.store s.chain s.block = s := by
  unfold store chain block
  rw [List.take_append_drop]
  rfl

theorem compressBlock_store {chain block : Bytes} (hc : chain.length = 64) :
    (s.store chain block).compressBlock =
      s.store (compress (Chain.ofBytes chain) block).toBytes block := by
  rw [compressBlock, chain_store hc, block_store hc]
  rfl

theorem absorb?_eq {chain block : Bytes} (hc : chain.length = 64) (hb : block.length = 128) (data : Bytes) :
    s.absorb? chain block data = some ((s.store chain block).absorb data) := by
  rcases habsorb : absorbBlocks chain data with ⟨made, rest⟩
  have hl : rest.length = data.length % 128 := by rw [← length_absorbBlocks chain data, habsorb]
  unfold absorb? absorb
  rw [chain_store hc, block_store hc, habsorb]
  dsimp only
  rw [Bytes.fill?_eq (Nat.zero_le _) (by omega) (Nat.sub_zero _).symm]
  rfl

theorem split?_eq (h : s.storage.size = 192) : s.split? = some (s.chain, s.block) := by
  have hl : s.storage.bytes.length = 192 := h
  unfold split? Buffer.size
  rw [Bytes.slice?_front (by omega), Bytes.slice?_back (by omega)]
  rfl

theorem reset?_eq (h : s.storage.size = 192) : s.reset? = some s.reset := by
  unfold reset?
  rw [split?_eq h]
  rfl

namespace InRange

theorem update?_eq (h : s.InRange) (data : Bytes) : s.update? data = some (s.update data) := by
  unfold update? update
  split_ifs with he
  · rfl
  have hc : (s.countBits data.length).InRange := ⟨h.size, h.filled_lt⟩
  have hb : (s.countBits data.length).block.length = 128 := length_block hc.size
  dsimp only
  rw [split?_eq hc.size]
  simp only [Option.bind_eq_bind, Option.bind_some]
  generalize s.countBits data.length = t at hc hb
  have hf := hc.filled_lt
  split_ifs with hz hlt
  · rw [absorb?_eq (length_chain hc.size) hb, store_self]
  all_goals
    have htaken : min (128 - t.filled) data.length ≤ data.length := Nat.min_le_right _ _
    have hfits : t.filled + min (128 - t.filled) data.length ≤ t.block.length := by omega
    have hsize : t.filled + min (128 - t.filled) data.length ≤ 1 <<< 32 := by omega
    have hpiece : (data.take (min (128 - t.filled) data.length)).length =
        t.filled + min (128 - t.filled) data.length - t.filled := by
      rw [List.length_take]
      omega
    simp only [minus?_eq hf.le, size?_eq hsize, Bytes.slice?_front htaken, Bytes.slice?_back htaken,
      Bytes.fill?_eq (Nat.le_add_right _ _) hfits hpiece, Option.bind_some]
  · rw [if_pos hlt]
  · rw [if_neg hlt]
    have hblock : (t.block.overwrite t.filled (data.take (min (128 - t.filled) data.length))).length = 128 := by
      rw [Bytes.length_overwrite (by omega), hb]
    rw [absorb?_eq (Chain.length_toBytes _) hblock, ← compressBlock_store (length_chain hc.size)]

theorem closeMessage?_eq (h : s.InRange) :
    s.closeMessage? = some (s.closeMessage.chain, s.closeMessage.block, s.closeMessage.filled) ∧
      s.closeMessage.storage.size = 192 ∧ s.closeMessage.filled ≤ 112 := by
  have hf := h.filled_lt
  have hchain := length_chain h.size
  have hblock := length_block h.size
  have hmarked : (s.block.overwrite s.filled [0x80]).length = 128 := by
    rw [Bytes.length_overwrite (by simp; omega), hblock]
  have hsize : s.filled + 1 ≤ 1 <<< 32 := by omega
  have hmark : ([0x80] : Bytes).length = s.filled + 1 - s.filled := by simp
  unfold closeMessage?
  simp only [split?_eq h.size, Option.bind_eq_bind, Option.bind_some, size?_eq hsize,
    Bytes.fill?_eq (Nat.le_add_right _ _) (by omega : s.filled + 1 ≤ s.block.length) hmark]
  have hmb : s.marked.block = s.block.overwrite s.filled [0x80] := block_store hchain
  split_ifs with hlong
  · have hzeros : (Bytes.zeros (128 - (s.filled + 1))).length = 128 - (s.filled + 1) :=
      Bytes.length_zeros _
    have hfull := overwrite_marked h.size hf
    rw [hmb] at hfull
    have hl : (s.block.overwrite s.filled ([0x80] ++ Bytes.zeros (127 - s.filled))).length = 128 := by
      rw [Bytes.length_overwrite (by simp; omega), hblock]
    rw [closeMessage_of_lt h.size hf hlong, hmarked, Bytes.fill?_eq (by omega) (by omega) hzeros, hfull]
    rw [compressBlock_store hchain]
    refine ⟨?_, size_store (Chain.length_toBytes _) hl, Nat.zero_le _⟩
    generalize s.block.overwrite s.filled ([0x80] ++ Bytes.zeros (127 - s.filled)) = b
    have hc : (compress (Chain.ofBytes s.chain) b).toBytes.length = 64 := Chain.length_toBytes _
    change _ = some ((s.store (compress (Chain.ofBytes s.chain) b).toBytes b).chain,
      (s.store (compress (Chain.ofBytes s.chain) b).toBytes b).block, 0)
    rw [chain_store hc, block_store hc]
    rfl
  · rw [closeMessage_of_le (by omega), chain_marked h.size, hmb]
    exact ⟨rfl, size_store hchain hmarked, by change s.filled + 1 ≤ 112; omega⟩

theorem finish?_eq (h : s.InRange) : s.finish? = some s.finish ∧ s.finish.storage.size = 192 := by
  obtain ⟨hclose, hsize, hf⟩ := h.closeMessage?_eq
  have hstore (c b : Bytes) : s.closeMessage.store c b =
      { s.store c b with filled := s.closeMessage.filled } := by
    unfold closeMessage
    dsimp only
    split_ifs <;> rfl
  unfold finish? finish
  simp only [hclose, Option.bind_eq_bind, Option.bind_some]
  generalize s.closeMessage = t at hclose hsize hf hstore
  have hchain := length_chain hsize
  have hblock := length_block hsize
  have hzeros : (Bytes.zeros (112 - t.filled)).length = 112 - t.filled := Bytes.length_zeros _
  generalize hzeroed : t.block.overwrite t.filled (Bytes.zeros (112 - t.filled)) = zeroed
  have hz : zeroed.length = 128 := by rw [← hzeroed, Bytes.length_overwrite (by omega), hblock]
  have hhigh : zeroed.fill? 112 120 (Bytes.ofUInt64 s.bitsHigh) =
      some (zeroed.overwrite 112 (Bytes.ofUInt64 s.bitsHigh)) :=
    Bytes.fill?_eq (by decide) (by omega) (Bytes.length_ofUInt64 _)
  have hh : (zeroed.overwrite 112 (Bytes.ofUInt64 s.bitsHigh)).length = 128 := by
    rw [Bytes.length_overwrite (by simp; omega), hz]
  have hlow : (zeroed.overwrite 112 (Bytes.ofUInt64 s.bitsHigh)).fill? 120 128 (Bytes.ofUInt64 s.bitsLow) =
      some (zeroed.overwrite 112 (Bytes.ofUInt64 s.bitsHigh ++ Bytes.ofUInt64 s.bitsLow)) := by
    rw [Bytes.fill?_eq (by decide) hh.ge (Bytes.length_ofUInt64 _)]
    exact congrArg some (Bytes.overwrite_overwrite (by omega) rfl)
  have hl : (zeroed.overwrite 112 (Bytes.ofUInt64 s.bitsHigh ++ Bytes.ofUInt64 s.bitsLow)).length = 128 := by
    rw [Bytes.length_overwrite (by simp; omega), hz]
  rw [Bytes.fill?_eq hf (by omega) hzeros, hzeroed]
  simp only [Option.bind_some, hhigh, hh, hlow]
  rw [compressBlock_store hchain, hstore]
  exact ⟨rfl, size_store (Chain.length_toBytes _) hl⟩

theorem finalize?_eq (h : s.InRange) (out : Bytes) : s.finalize? out = some (s.finalize out) := by
  obtain ⟨hfinish, hsize⟩ := h.finish?_eq
  have hd := s.variant.digestSize_le
  have hchain := length_chain hsize
  unfold finalize? finalize
  dsimp only
  split_ifs with hshort
  · rfl
  have hdigest : (s.finish.chain.take s.variant.digestSize).length = s.variant.digestSize - 0 := by
    rw [List.length_take]
    omega
  simp only [hfinish, Option.bind_eq_bind, Option.bind_some, Bytes.slice?_front (hd.trans hchain.ge),
    Bytes.fill?_eq (Nat.zero_le _) (Nat.le_of_not_lt hshort) hdigest, reset?_eq hsize]
  rfl

end InRange

/-- A full block would leave no room for what comes. -/
example : update? ⟨.sha512, ⟨⟨0, Bytes.zeros 192⟩⟩, 0, 0, 129⟩ [7] = none := by cbv

theorem Sound.inRange {v : Variant} (h : s.Sound v) : s.InRange := by
  obtain ⟨-, message, hs⟩ := h
  have hf := hs.filled_eq
  exact ⟨hs.size, by omega⟩

theorem Sound.finalize_any {v : Variant} (h : s.Sound v) (out : Bytes) :
    Status.Ordinary (s.finalize out).1 ∧ (s.finalize out).2.1.length = out.length ∧
      (s.finalize out).2.2.Sound v := by
  by_cases ho : v.digestSize ≤ out.length
  · obtain ⟨digest, t, hrun, hl, ht, -⟩ := h.finalize ho
    rw [hrun]
    exact ⟨.ok, hl, ht⟩
  · have hshort : out.length < s.variant.digestSize := by
      rw [h.1]
      omega
    have hreason : Rejection.shortDigestOutput s.variant.digestSize ≠ .chunkCounterOverflow := by
      intro hr
      cases hr
    rw [State.finalize, if_pos hshort]
    exact ⟨.error hreason, rfl, h⟩

end State

variable {κ : Type}

/-- The hash function with `fault` in place of every access out of range. -/
def guarded (fault : CryptoError) (v : Variant) : Hash.Algorithm κ State := { algorithm v with
  create := do
    let storage ← Buffer.newFor .hash (64 + 128)
    Attempt.obtain fault (State.reset? ⟨v, storage, 0, 0, 0⟩)
  update := fun s data => pure (((s.update? data).map fun t => (.ok (), t)).getD (.error fault, s))
  finalize := fun s out => pure ((s.finalize? out).getD (.error fault, out, s))
  reset := fun s => s.reset?.getD s }

/-- No access is out of range, so that nothing is seen of what stands in the place of one. -/
theorem mirrors_guarded (fault : CryptoError) (v : Variant) :
    (guarded (κ := κ) fault v).Mirrors (algorithm v) (State.Sound v) where
  digestSize_eq := rfl
  blockSize_eq := rfl
  create := by
    apply (Buffer.mirrors_newFor .hash (64 + 128)).bind
    rintro storage _ ⟨rfl, hsize⟩
    rw [State.reset?_eq (s := ⟨v, storage, 0, 0, 0⟩) hsize]
    exact .pure ⟨rfl, rfl, [], State.holds_reset _⟩
  update s data hs := by
    have hrun : (s.update? data).map (fun t => ((.ok (), t) : Status × State)) =
        some (.ok (), s.update data) := by
      rw [hs.inRange.update?_eq]
      rfl
    exact .getD ⟨hrun, .ok, (hs.update data).1⟩
  finalize _ out hs := .getD ⟨hs.inRange.finalize?_eq out, hs.finalize_any out⟩
  reset s hs := by
    have hreset : (guarded (κ := κ) fault v).reset s = s.reset := by
      simp only [guarded, State.reset?_eq hs.inRange.size, Option.getD_some]
    exact ⟨hreset, hs.reset.1⟩
  release _ := rfl

end CryptoSuite.Sha2
