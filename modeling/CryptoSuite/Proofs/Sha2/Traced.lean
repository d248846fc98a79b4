import CryptoSuite.Proofs.Sha2.Session

/-! The blocks that a computation hands to the compression function. The traced operations are those
of the state with a list of the blocks beside them: forgetting it gives the operations back. -/
namespace CryptoSuite.Sha2

open Hash (Call)

/-- A value along with the blocks that were compressed on the way to it, in order. -/
structure Traced (α : Type) where
  value : α
  handed : List Bytes

namespace Traced

instance : Monad Traced where
  pure a := ⟨a, []⟩
  bind x f := ⟨(f x.value).value, x.handed ++ (f x.value).handed⟩

section Monad

variable {α β : Type} (a : α) (x : Traced α) (f : α → Traced β)

@[simp] theorem value_pure : (pure a : Traced α).value = a := rfl

@[simp] theorem handed_pure : (pure a : Traced α).handed = [] := rfl

@[simp] theorem value_bind : (x >>= f).value = (f x.value).value := rfl

@[simp] theorem handed_bind : (x >>= f).handed = x.handed ++ (f x.value).handed := rfl

end Monad

/-- Compresses a block. There is no compression in the operations below but this one. -/
def handOver (chain block : Bytes) : Traced Bytes :=
  ⟨(compress (Chain.ofBytes chain) block).toBytes, [block]⟩

def absorbBlocks (chain data : Bytes) : Traced (Bytes × Bytes) :=
  let block := data.take 128
  if _ : block.length = 128 then do
    let chain ← handOver chain block
    absorbBlocks chain (data.drop 128)
  else pure (chain, data)
termination_by data.length
decreasing_by
  simp only [block, List.length_take, List.length_drop] at *
  omega

def compressBlock (s : State) : Traced State := do
  let chain ← handOver s.chain s.block
  pure (s.store chain s.block)

def absorb (s : State) (data : Bytes) : Traced State := do
  let (chain, rest) ← absorbBlocks s.chain data
  pure { s.store chain (s.block.overwrite 0 rest) with filled := rest.length }

def update (s : State) (data : Bytes) : Traced State :=
  if data.isEmpty then pure s
  else
    let s := s.countBits data.length
    if s.filled = 0 then absorb s data
    else
      let taken := min (128 - s.filled) data.length
      let s' := s.store s.chain (s.block.overwrite s.filled (data.take taken))
      if s.filled + taken < 128 then pure { s' with filled := s.filled + taken }
      else do
        let s' ← compressBlock s'
        absorb s' (data.drop taken)

def closeMessage (s : State) : Traced State :=
  let s := { s with filled := s.filled + 1 }.store s.chain (s.block.overwrite s.filled [0x80])
  if 112 < s.filled then do
    let t ← compressBlock
      (s.store s.chain (s.block.overwrite s.filled (Bytes.zeros (128 - s.filled))))
    pure { t with filled := 0 }
  else pure s

def finish (s : State) : Traced State := do
  let t ← closeMessage s
  let zeroed := t.block.overwrite t.filled (Bytes.zeros (112 - t.filled))
  let sized := zeroed.overwrite 112 (Bytes.ofUInt64 s.bitsHigh ++ Bytes.ofUInt64 s.bitsLow)
  compressBlock (t.store t.chain sized)

def finalize (s : State) (out : Bytes) : Traced (Status × Bytes × State) :=
  let size := s.variant.digestSize
  if out.length < size then
    pure (.error (.invalidArgument .hash (.shortDigestOutput size)), out, s)
  else do
    let t ← finish s
    pure (.ok (), out.overwrite 0 (t.chain.take size), t.reset)

/-- Absorbs the pieces of a message and finalizes it. -/
def hash (s : State) (pieces : List Bytes) (out : Bytes) : Traced (Status × Bytes × State) := do
  let s ← pieces.foldlM update s
  finalize s out

@[simp] theorem value_handOver (chain block : Bytes) :
    (handOver chain block).value = (compress (Chain.ofBytes chain) block).toBytes := rfl

@[simp] theorem handed_handOver (chain block : Bytes) : (handOver chain block).handed = [block] := rfl

@[simp] theorem value_absorbBlocks (chain data : Bytes) :
    (absorbBlocks chain data).value = Sha2.absorbBlocks chain data := by
  fun_induction Sha2.absorbBlocks chain data with
  | case1 chain data block hl ih => rw [absorbBlocks, dif_pos hl, value_bind, value_handOver, ih]
  | case2 chain data block hl => rw [absorbBlocks, dif_neg hl, value_pure]

@[simp] theorem handed_absorbBlocks (chain data : Bytes) :
    (absorbBlocks chain data).handed = blocks data := by
  fun_induction blocks data generalizing chain with
  | case1 data block hl ih =>
    rw [absorbBlocks, dif_pos hl, handed_bind, handed_handOver, ih, List.singleton_append]
  | case2 data block hl => rw [absorbBlocks, dif_neg hl, handed_pure]

variable (s : State) (data out : Bytes)

@[simp] theorem value_compressBlock : (compressBlock s).value = s.compressBlock := rfl

@[simp] theorem handed_compressBlock : (compressBlock s).handed = [s.block] := rfl

theorem handed_compressBlock_store {c b : Bytes} (h : c.length = 64) :
    (compressBlock (s.store c b)).handed = [b] := by
  rw [handed_compressBlock, State.block_store h]

@[simp] theorem value_absorb : (absorb s data).value = s.absorb data := by
  simp [absorb, State.absorb]

@[simp] theorem handed_absorb : (absorb s data).handed = blocks data := by
  simp [absorb]

@[simp] theorem value_update : (update s data).value = s.update data := by
  simp only [update, State.update, apply_ite value, value_pure, value_bind, value_absorb,
    value_compressBlock]

@[simp] theorem value_closeMessage : (closeMessage s).value = s.closeMessage := by
  simp only [closeMessage, State.closeMessage, apply_ite value, value_pure, value_bind,
    value_compressBlock]

@[simp] theorem value_finish : (finish s).value = s.finish := by
  simp only [finish, State.finish, value_bind, value_closeMessage, value_compressBlock]

@[simp] theorem value_finalize : (finalize s out).value = s.finalize out := by
  simp only [finalize, State.finalize, apply_ite value, value_pure, value_bind, value_finish]

@[simp] theorem value_updates (pieces : List Bytes) :
    (pieces.foldlM update s).value = pieces.foldl State.update s := by
  induction pieces generalizing s with
  | nil => rfl
  | cons piece pieces ih =>
    rw [List.foldlM_cons, value_bind, value_update, ih, List.foldl_cons]

theorem handed_finalize (h : s.variant.digestSize ≤ out.length) :
    (finalize s out).handed = (finish s).handed := by
  simp [finalize, Nat.not_lt.mpr h]

theorem value_hash (pieces : List Bytes) :
    (hash s pieces out).value = (pieces.foldl State.update s).finalize out := by
  simp [hash]

end Traced

/-- The blocks that lead from the complete ones of a message to those of a longer one. -/
def Completes (message next : Bytes) (handed : List Bytes) : Prop :=
  blocks message ++ handed = blocks next

theorem Completes.refl (message : Bytes) : Completes message message [] :=
  List.append_nil (blocks message)

theorem Completes.trans {a b c : Bytes} {x y : List Bytes} (hx : Completes a b x)
    (hy : Completes b c y) : Completes a c (x ++ y) := by
  unfold Completes at *
  rw [← List.append_assoc, hx, hy]

theorem completes_rest (message data : Bytes) :
    Completes message (message ++ data) (blocks (rest message ++ data)) :=
  (blocks_append message data).symm

variable {message data : Bytes} {origin s : State}

namespace Holds

theorem completes_blocks (hrest : rest message = []) (data : Bytes) :
    Completes message (message ++ data) (blocks data) := by
  have h := completes_rest message data
  rwa [hrest, List.nil_append] at h

theorem completes_top_up (h : Holds message s) (hlt : s.filled + data.length < 128) :
    Completes message (message ++ data) [] := by
  have hl : (rest message ++ data).length < 128 := by
    rwa [List.length_append, length_rest, ← h.filled_eq]
  have hr := completes_rest message data
  rwa [blocks_of_lt hl] at hr

theorem completes_fill_up (h : Holds message s) (heq : s.filled + data.length = 128) :
    Completes message (message ++ data) [s.block.overwrite s.filled data] := by
  have hr := completes_rest message data
  rwa [blocks_eq_singleton (h.length_rest_append heq), ← h.overwrite_block heq] at hr

/-- An update hands over the blocks that its data completes, left-over bytes included. -/
theorem completes_update (h : Holds message s) (data : Bytes) :
    Completes message (message ++ data) (Traced.update s data).handed := by
  rw [Traced.update]
  split_ifs with he
  · rw [List.isEmpty_iff.mp he, List.append_nil]
    exact Completes.refl message
  have hs := h.countBits data.length
  generalize s.countBits data.length = t at hs
  have hm := hs.filled_eq
  dsimp only
  split_ifs with hz hlt
  · rw [Traced.handed_absorb]
    refine completes_blocks (List.eq_nil_of_length_eq_zero ?_) data
    rw [length_rest]
    omega
  · exact hs.completes_top_up (by omega)
  · have ht : min (128 - t.filled) data.length = 128 - t.filled := by omega
    rw [ht] at hlt ⊢
    have hl : t.filled + (data.take (128 - t.filled)).length = 128 := by
      rw [List.length_take]
      omega
    -- nothing is left over behind the block that is filled up: what follows has its own blocks
    obtain ⟨-, -, hrest⟩ := hs.fill_up hl
    have hc := (hs.completes_fill_up hl).trans (completes_blocks hrest (data.drop (128 - t.filled)))
    rw [List.append_assoc, List.take_append_drop] at hc
    rwa [Traced.handed_bind, Traced.handed_absorb,
      Traced.handed_compressBlock_store t (State.length_chain hs.size)]

theorem completes_updates (h : Holds message s) (pieces : List Bytes) :
    Completes message (message ++ pieces.flatten) (pieces.foldlM Traced.update s).handed := by
  induction pieces generalizing message s with
  | nil =>
    rw [List.flatten_nil, List.append_nil]
    exact Completes.refl message
  | cons piece pieces ih =>
    have hc := (h.completes_update piece).trans (ih (h.update piece))
    rwa [List.append_assoc, ← List.flatten_cons, ← Traced.value_update] at hc

theorem completes_closeMessage (h : Holds message s) :
    Completes message (closed message) (Traced.closeMessage s).handed := by
  have hm := h.filled_eq
  rw [closed, closingZeros, ← hm]
  split_ifs with hf
  · have hl : s.filled + 1 < 128 := by omega
    have ht : Traced.closeMessage s = pure s.marked := if_neg (Nat.not_lt.mpr hf)
    rw [ht]
    exact h.completes_top_up hl
  · have hc : s.marked.chain.length = 64 := by
      rw [State.chain_marked h.size, State.length_chain h.size]
    have ht : Traced.closeMessage s = Traced.compressBlock (s.marked.store s.marked.chain
        (s.marked.block.overwrite (s.filled + 1) (Bytes.zeros (128 - (s.filled + 1))))) >>=
          fun t => pure { t with filled := 0 } := if_pos (by change 112 < s.filled + 1; omega)
    rw [ht, Traced.handed_bind, Traced.handed_compressBlock_store s.marked hc, Traced.handed_pure,
      List.append_nil, State.overwrite_marked h.size (by omega)]
    exact h.completes_fill_up (h.filled_closing hf)

end Holds

/-- Absorbing and finishing hand over the blocks of the padded message. -/
theorem Represents.completes_finish (h : Represents origin message s) :
    Completes message (pad message) (Traced.finish s).handed := by
  have hl : s.closeMessage.filled + (ending message).length = 128 := by
    rw [h.closeMessage.filled_eq, length_ending]
  have hc := h.completes_closeMessage.trans (h.closeMessage.completes_fill_up hl)
  rw [closed_append_ending] at hc
  rw [Traced.finish, Traced.handed_bind, Traced.value_closeMessage]
  dsimp only
  rwa [h.overwrite_ending h.bits_eq,
    Traced.handed_compressBlock_store _ (State.length_chain h.closeMessage.size)]

theorem Represents.updates (h : Represents origin message s) {pieces : List Bytes}
    (hp : pieces.flatten.length < 2 ^ 64) :
    Represents origin (message ++ pieces.flatten) (pieces.foldl State.update s) := by
  induction pieces generalizing message s with
  | nil => rwa [List.flatten_nil, List.append_nil]
  | cons piece pieces ih =>
    rw [List.flatten_cons, List.length_append] at hp
    have hd : piece.length < 2 ^ 64 := by omega
    have hr := ih (h.update hd) (by omega)
    rwa [List.append_assoc] at hr

variable {v w : Variant} {s₀ t₀ t : State} {pieces others : List Bytes} {out other : Bytes}

theorem StateReached.handed_hash (h : StateReached v s₀ [] s) (hp : pieces.flatten.length < 2 ^ 64)
    (ho : v.digestSize ≤ out.length) :
    (Traced.hash s pieces out).handed = blocks (pad pieces.flatten) := by
  obtain ⟨hr, rfl⟩ := h.represents
  have hs := hr.updates hp
  have hc : blocks [] ++ _ = _ := (hr.completes_updates pieces).trans hs.completes_finish
  have hb : blocks [] = [] := blocks_of_lt (by decide)
  rw [← hs.variant_eq] at ho
  rw [hb, List.nil_append, ← Traced.handed_finalize _ out ho] at hc
  rw [Traced.hash, Traced.handed_bind, Traced.value_updates, hc]
  rfl

/-- The digest is what compressing the blocks that were handed over, and nothing else, makes of the
initial chaining value. -/
theorem StateReached.digest_of_handed (h : StateReached v s₀ [] s)
    (hp : pieces.flatten.length < 2 ^ 64) (ho : v.digestSize ≤ out.length) :
    (Traced.hash s pieces out).value =
      (.ok (), ((Traced.hash s pieces out).handed.foldl compress v.initial).toBytes.take v.digestSize
        ++ out.drop v.digestSize, s₀) := by
  rw [h.handed_hash hp ho, Traced.value_hash]
  obtain ⟨hr, rfl⟩ := h.represents
  have hs := hr.updates hp
  rw [← hs.variant_eq] at ho ⊢
  exact hs.finalize_eq ho

/-- Two messages, fed in whatever pieces and whatever was hashed before, hand the same blocks to the
compression function only if they are equal. The blocks are as few as hold the message and 17 more
bytes, and the computation that is traced is that of the state. -/
theorem handed_blocks_determine_message (hs : StateReached v s₀ [] s) (ht : StateReached w t₀ [] t)
    (hp : pieces.flatten.length < 2 ^ 61) (hq : others.flatten.length < 2 ^ 61)
    (ho : v.digestSize ≤ out.length) (ho' : w.digestSize ≤ other.length) :
    ((Traced.hash s pieces out).handed = (Traced.hash t others other).handed ↔
      pieces.flatten = others.flatten) ∧
    (Traced.hash s pieces out).handed.length = (pieces.flatten.length + 17) ⌈/⌉ 128 ∧
    (∀ block ∈ (Traced.hash s pieces out).handed, block.length = 128) ∧
    (Traced.hash s pieces out).value = (pieces.foldl State.update s).finalize out := by
  have hblocks := hs.handed_hash (hp.trans (by decide)) ho
  have hblocks' := ht.handed_hash (hq.trans (by decide)) ho'
  refine ⟨?_, ?_, ?_, Traced.value_hash s out pieces⟩
  · rw [hblocks, hblocks', blocks_pad_inj hp hq]
  · rw [hblocks, length_blocks_pad]
  · rw [hblocks]
    intro block hb
    exact length_of_mem_blocks hb

/-- A marker byte at the end of the message is not taken for the one of the padding, and 112 zeros
hand over two blocks, in one piece or in two. -/
theorem handed_blocks_of_marker_byte : ∃ s t₀ t : State,
    StateReached .sha384 s [] s ∧ StateReached .sha512 t₀ [] t ∧
    (Traced.hash s [[1]] (Bytes.zeros 48)).handed ≠
      (Traced.hash t [[1], [0x80]] (Bytes.zeros 64)).handed ∧
    (Traced.hash s [Bytes.zeros 100, Bytes.zeros 12] (Bytes.zeros 48)).handed =
      (Traced.hash t [Bytes.zeros 112] (Bytes.zeros 64)).handed ∧
    (Traced.hash s [Bytes.zeros 100, Bytes.zeros 12] (Bytes.zeros 48)).handed.length = 2 := by
  have hg : Machine.system.Grants [192] := Machine.system_grants (by decide)
  obtain ⟨s, hnew⟩ := runFrom_new_served (κ := Unit) .sha384 hg.head
  obtain ⟨t₀, hnew'⟩ := runFrom_new_served (κ := Unit) .sha512 hg.head
  let calls : List Call := [.digest [9], .reset]
  have hc : ∀ call ∈ calls, Sliced call := by simp [calls, Sliced, Hash.Call.data]
  have hs : StateReached .sha384 s [] s := ⟨_, _, [], [], hnew, by simp, rfl, rfl⟩
  have ht : StateReached .sha512 t₀ [] (t₀.session calls).2 :=
    ⟨_, _, calls, _, hnew', hc, rfl, rfl⟩
  have ho : Variant.sha384.digestSize ≤ (Bytes.zeros 48).length := by decide
  have ho' : Variant.sha512.digestSize ≤ (Bytes.zeros 64).length := by decide
  obtain ⟨hmarker, -⟩ := handed_blocks_determine_message hs ht
    (by decide : ([[1]] : List Bytes).flatten.length < 2 ^ 61)
    (by decide : ([[1], [0x80]] : List Bytes).flatten.length < 2 ^ 61) ho ho'
  obtain ⟨hzeros, hcount, -⟩ := handed_blocks_determine_message hs ht
    (by decide : [Bytes.zeros 100, Bytes.zeros 12].flatten.length < 2 ^ 61)
    (by decide : [Bytes.zeros 112].flatten.length < 2 ^ 61) ho ho'
  refine ⟨s, t₀, _, hs, ht, ?_, hzeros.mpr (by decide), hcount⟩
  intro h
  exact absurd (hmarker.mp h) (by decide)

end CryptoSuite.Sha2
