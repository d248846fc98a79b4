import CryptoSuite.Bytes

/-! Octet strings in pieces: the pieces make up the whole, and a string without a short last piece is cut at the
multiples of the size. -/
namespace CryptoSuite.Bytes

theorem chunks_nil (size : Nat) : chunks size [] = [] := by
  rw [chunks, dif_pos (.inr rfl)]

theorem chunks_of_ne_nil {size : Nat} {b : Bytes} (hs : 0 < size) (hb : b ≠ []) :
    chunks size b = b.take size :: chunks size (b.drop size) := by
  have hne : ¬(size = 0 ∨ b = []) := by
    simp only [hb, or_false]
    omega
  rw [chunks, dif_neg hne]

/-- The pieces are the whole again. -/
theorem flatten_chunks {size : Nat} (hs : 0 < size) (b : Bytes) : (chunks size b).flatten = b := by
  induction hn : b.length using Nat.strongRecOn generalizing b with
  | ind n ih =>
    by_cases hb : b = []
    · rw [hb, chunks_nil, List.flatten_nil]
    · have hl := List.length_pos_iff.mpr hb
      rw [chunks_of_ne_nil hs hb, List.flatten_cons, ih _ (by rw [← hn, List.length_drop]; omega) _ rfl,
        List.take_append_drop]

/-- A string of `n` times the size is cut at the multiples of the size. -/
theorem chunks_eq_map_range {size n : Nat} (hs : 0 < size) {b : Bytes} (h : b.length = size * n) :
    chunks size b = (List.range n).map fun i => (b.drop (size * i)).take size := by
  induction n generalizing b with
  | zero =>
    rw [List.length_eq_zero_iff.mp h]
    exact chunks_nil size
  | succ n ih =>
    rw [Nat.mul_succ] at h
    have hne : b ≠ [] := List.ne_nil_of_length_pos (by omega)
    rw [chunks_of_ne_nil hs hne, ih (by rw [List.length_drop]; omega), List.range_succ_eq_map,
      List.map_cons, List.map_map, Nat.mul_zero, List.drop_zero]
    congr 2
    funext i
    rw [Function.comp_apply, List.drop_drop, Nat.succ_eq_add_one, Nat.mul_succ, Nat.add_comm]

end CryptoSuite.Bytes
