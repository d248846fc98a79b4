import CryptoSuite.Proofs.Sha2.Representation

/-! What a state counts. Every exit of an update leaves the same count, whatever the count was before, so only
the number of bytes absorbed since is seen in it; and the block is never left full. -/
namespace CryptoSuite.Sha2

/-- What complete blocks leave over does not depend on the chaining value. -/
theorem length_absorbBlocks (chain data : Bytes) : (absorbBlocks chain data).2.length = data.length % 128 := by
  fun_induction absorbBlocks chain data with
  | case1 chain data block hl ih =>
    simp only [block, List.length_take] at hl
    rw [ih, List.length_drop]
    omega
  | case2 chain data block hl =>
    simp only [block, List.length_take] at hl
    dsimp only
    omega

namespace State

/-- The count decides both of its words. -/
theorem words_eq_of_bits_eq {s t : State} (h : s.bits = t.bits) :
    s.bitsLow = t.bitsLow ∧ s.bitsHigh = t.bitsHigh := by
  have hs := s.bitsLow.toNat_lt
  have ht := t.bitsLow.toNat_lt
  unfold bits at h
  constructor <;>
    · apply UInt64.toNat_inj.mp
      omega

/-- The three exits of an update: nothing to absorb, a block that is still open, and blocks completed. -/
theorem filled_update (s : State) (hf : s.filled < 128) (data : Bytes) :
    (s.update data).filled = (s.filled + data.length) % 128 := by
  unfold update
  split_ifs with he
  · rw [List.isEmpty_iff.mp he, List.length_nil, Nat.add_zero, Nat.mod_eq_of_lt hf]
  · have hc : (s.countBits data.length).filled = s.filled := rfl
    dsimp only
    rw [hc]
    split_ifs with hz hopen
    · rw [hz, Nat.zero_add]
      exact length_absorbBlocks _ _
    · dsimp only
      omega
    · refine (length_absorbBlocks _ _).trans ?_
      rw [List.length_drop]
      omega

variable {pieces : List Bytes}

theorem filled_foldl_update (s : State) (hf : s.filled < 128) (pieces : List Bytes) :
    (pieces.foldl update s).filled = (s.filled + (pieces.map List.length).sum) % 128 := by
  induction pieces generalizing s with
  | nil => exact (Nat.mod_eq_of_lt hf).symm
  | cons data rest ih =>
    have hnext := s.filled_update hf data
    rw [List.foldl_cons, ih _ (by omega), hnext, List.map_cons, List.sum_cons]
    omega

theorem bits_foldl_update (s : State) (hp : ∀ data ∈ pieces, data.length < 2 ^ 64) :
    (pieces.foldl update s).bits = (s.bits + 8 * (pieces.map List.length).sum) % 2 ^ 128 := by
  induction pieces generalizing s with
  | nil =>
    have hl := s.bits_lt
    simp only [List.foldl_nil, List.map_nil, List.sum_nil]
    omega
  | cons data rest ih =>
    rw [List.foldl_cons, ih _ fun d hd => hp d (List.mem_cons_of_mem data hd),
      s.bits_update (hp data List.mem_cons_self), List.map_cons, List.sum_cons]
    omega

/-- Whatever the two words of the count were, they count the bits of the pieces on modulo 2^128, and the block
stays open; a message cut in two ways is counted the same. -/
theorem count_foldl_update (s : State) (hf : s.filled < 128) (hp : ∀ data ∈ pieces, data.length < 2 ^ 64) :
    (pieces.foldl update s).filled < 128 ∧
    (pieces.foldl update s).bitsHigh.toNat * 2 ^ 64 + (pieces.foldl update s).bitsLow.toNat =
      (s.bitsHigh.toNat * 2 ^ 64 + s.bitsLow.toNat + 8 * (pieces.map List.length).sum) % 2 ^ 128 ∧
    ∀ pieces' : List Bytes, pieces'.flatten = pieces.flatten → (∀ data ∈ pieces', data.length < 2 ^ 64) →
      (pieces'.foldl update s).bitsLow = (pieces.foldl update s).bitsLow ∧
      (pieces'.foldl update s).bitsHigh = (pieces.foldl update s).bitsHigh ∧
      (pieces'.foldl update s).filled = (pieces.foldl update s).filled := by
  refine ⟨?_, s.bits_foldl_update hp, ?_⟩
  · rw [s.filled_foldl_update hf]
    exact Nat.mod_lt _ (by decide)
  · intro pieces' hcut hp'
    have hsum : (pieces'.map List.length).sum = (pieces.map List.length).sum := by
      rw [← List.length_flatten, ← List.length_flatten, hcut]
    have hbits : (pieces'.foldl update s).bits = (pieces.foldl update s).bits := by
      rw [s.bits_foldl_update hp, s.bits_foldl_update hp', hsum]
    obtain ⟨hlow, hhigh⟩ := words_eq_of_bits_eq hbits
    refine ⟨hlow, hhigh, ?_⟩
    rw [s.filled_foldl_update hf, s.filled_foldl_update hf, hsum]

/-- Eight bits short of a full low word, sixteen more carry into the high one. -/
theorem count_foldl_update_carry : ∃ s t : State, s.filled < 128 ∧ s.bitsLow = 0xfffffffffffffff8 ∧
    s.bitsHigh = 0 ∧ t = [[7], [], [9]].foldl update s ∧
    t.bitsHigh.toNat * 2 ^ 64 + t.bitsLow.toNat = 2 ^ 64 + 8 := by
  have hp : ∀ data ∈ ([[7], [], [9]] : List Bytes), data.length < 2 ^ 64 := by decide
  have h := count_foldl_update ⟨.sha512, ⟨⟨0, Bytes.zeros 192⟩⟩, 0xfffffffffffffff8, 0, 0⟩ (by decide) hp
  refine ⟨⟨.sha512, ⟨⟨0, Bytes.zeros 192⟩⟩, 0xfffffffffffffff8, 0, 0⟩, _, by decide, rfl, rfl, rfl, ?_⟩
  rw [h.2.1]
  rfl

end State

end CryptoSuite.Sha2
