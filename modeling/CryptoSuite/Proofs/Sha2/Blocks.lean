import CryptoSuite.Sha2.Digest

/-! Cutting a message into complete blocks and what is left behind them. -/
namespace CryptoSuite.Sha2

/-- What is left of an octet string behind its complete blocks. -/
def rest (b : Bytes) : Bytes := b.drop (128 * (b.length / 128))

@[simp] theorem length_rest (b : Bytes) : (rest b).length = b.length % 128 := by
  rw [rest, List.length_drop]
  omega

theorem rest_of_lt {b : Bytes} (h : b.length < 128) : rest b = b := by
  rw [rest, Nat.div_eq_of_lt h, Nat.mul_zero, List.drop_zero]

theorem blocks_of_lt {b : Bytes} (h : b.length < 128) : blocks b = [] := by
  have hl : ¬(b.take 128).length = 128 := by
    rw [List.length_take]
    omega
  rw [blocks, dif_neg hl]

theorem blocks_append_left {b : Bytes} (h : b.length = 128) (c : Bytes) :
    blocks (b ++ c) = b :: blocks c := by
  have hl : ((b ++ c).take 128).length = 128 := by
    rw [List.take_left' h, h]
  rw [blocks, dif_pos hl, List.take_left' h, List.drop_left' h]

theorem blocks_eq_singleton {b : Bytes} (h : b.length = 128) : blocks b = [b] := by
  have hb := blocks_append_left h []
  have hn : blocks [] = [] := blocks_of_lt (by decide)
  rwa [List.append_nil, hn] at hb

theorem rest_append_left {b : Bytes} (h : 128 ∣ b.length) (c : Bytes) : rest (b ++ c) = rest c := by
  obtain ⟨k, hk⟩ := h
  have hd : 128 * ((b ++ c).length / 128) = b.length + 128 * (c.length / 128) := by
    rw [List.length_append]
    omega
  rw [rest, hd, ← List.drop_drop, List.drop_left, rest]

/-- A string is its complete blocks followed by what is left. -/
theorem flatten_blocks_append_rest (b : Bytes) : (blocks b).flatten ++ rest b = b := by
  fun_induction blocks b with
  | case1 b block hl ih =>
    have hb : block ++ b.drop 128 = b := List.take_append_drop 128 b
    have hr : rest b = rest (b.drop 128) := by
      rw [← hb, rest_append_left ⟨1, hl⟩, hb]
    rw [List.flatten_cons, List.append_assoc, hr, ih, hb]
  | case2 b block hl =>
    have hb : b.length < 128 := by
      simp only [block, List.length_take] at hl
      omega
    rw [List.flatten_nil, List.nil_append, rest_of_lt hb]

theorem length_of_mem_blocks {b c : Bytes} (h : c ∈ blocks b) : c.length = 128 := by
  fun_induction blocks b with
  | case1 b block hl ih =>
    rcases List.mem_cons.mp h with rfl | h
    · exact hl
    · exact ih h
  | case2 b block hl => cases h

theorem blocks_flatten_append {bs : List Bytes} (h : ∀ b ∈ bs, b.length = 128) (c : Bytes) :
    blocks (bs.flatten ++ c) = bs ++ blocks c := by
  induction bs with
  | nil => rfl
  | cons b bs ih =>
    rw [List.flatten_cons, List.append_assoc, blocks_append_left (h b List.mem_cons_self),
      ih fun x hx => h x (List.mem_cons_of_mem b hx), List.cons_append]

/-- Appending to a message completes blocks from what was left of it. -/
theorem blocks_append (b c : Bytes) : blocks (b ++ c) = blocks b ++ blocks (rest b ++ c) := by
  have h := blocks_flatten_append (fun _ hx => length_of_mem_blocks (b := b) hx) (rest b ++ c)
  rwa [← List.append_assoc, flatten_blocks_append_rest] at h

theorem rest_append (b c : Bytes) : rest (b ++ c) = rest (rest b ++ c) := by
  have hd : 128 ∣ (blocks b).flatten.length := by
    have h := congrArg List.length (flatten_blocks_append_rest b)
    rw [List.length_append, length_rest] at h
    omega
  have h := rest_append_left hd (rest b ++ c)
  rwa [← List.append_assoc, flatten_blocks_append_rest] at h

theorem rest_of_dvd {b : Bytes} (h : 128 ∣ b.length) : rest b = [] := by
  apply List.eq_nil_of_length_eq_zero
  rw [length_rest]
  exact Nat.mod_eq_zero_of_dvd h

theorem blocks_eq (b : Bytes) :
    blocks b = (List.range (b.length / 128)).map fun i => (b.drop (128 * i)).take 128 := by
  fun_induction blocks b with
  | case1 b block hl ih =>
    have hn : b.length / 128 = (b.drop 128).length / 128 + 1 := by
      simp only [block, List.length_take, List.length_drop] at hl ⊢
      omega
    rw [ih, hn, List.range_succ_eq_map, List.map_cons, List.map_map]
    congr 1
    refine List.map_congr_left fun i _ => ?_
    rw [List.drop_drop, Function.comp_apply, Nat.mul_succ, Nat.add_comm]
  | case2 b block hl =>
    have hb : b.length / 128 = 0 := by
      simp only [block, List.length_take] at hl
      omega
    rw [hb]
    rfl

@[simp] theorem length_blocks (b : Bytes) : (blocks b).length = b.length / 128 := by
  rw [blocks_eq, List.length_map, List.length_range]

theorem flatten_blocks {b : Bytes} (h : 128 ∣ b.length) : (blocks b).flatten = b := by
  have hb := flatten_blocks_append_rest b
  rwa [rest_of_dvd h, List.append_nil] at hb

/-- The chaining value of a variant after the complete blocks of a message. -/
def chained (v : Variant) (message : Bytes) : Chain := (blocks message).foldl compress v.initial

theorem chained_append (v : Variant) (a b : Bytes) :
    chained v (a ++ b) = (blocks (rest a ++ b)).foldl compress (chained v a) := by
  rw [chained, blocks_append, List.foldl_append, chained]

theorem digest_eq_chained (v : Variant) (message : Bytes) :
    digest v message = (chained v (pad message)).toBytes.take v.digestSize := rfl

end CryptoSuite.Sha2
