import CryptoSuite.Bytes
import Mathlib.Tactic.SplitIfs

/-! What an in-place write changes and what it leaves. -/
namespace CryptoSuite.Bytes

variable {dst src : Bytes} {start n : Nat}

theorem overwrite_zero (dst src : Bytes) : overwrite dst 0 src = src ++ dst.drop src.length := by
  simp [overwrite]

theorem take_overwrite_zero (dst src : Bytes) : (overwrite dst 0 src).take src.length = src := by
  rw [overwrite_zero, List.take_left]

@[simp] theorem overwrite_nil (dst : Bytes) (start : Nat) : overwrite dst start [] = dst := by
  simp [overwrite]

theorem take_overwrite (hn : n ≤ start) (hs : start ≤ dst.length) :
    (overwrite dst start src).take n = dst.take n := by
  rw [overwrite, List.append_assoc, List.take_append_of_le_length (by simp; omega), List.take_take,
    Nat.min_eq_left hn]

theorem drop_overwrite (hn : start + src.length ≤ n) (hs : start ≤ dst.length) :
    (overwrite dst start src).drop n = dst.drop n := by
  have hl : (dst.take start ++ src).length ≤ n := by simp; omega
  rw [overwrite, List.drop_append, List.drop_eq_nil_of_le hl, List.nil_append, List.drop_drop]
  congr 1
  simp only [List.length_append, List.length_take]
  omega

theorem take_overwrite_end (hs : start ≤ dst.length) :
    (overwrite dst start src).take (start + src.length) = dst.take start ++ src := by
  have hl : (dst.take start ++ src).length = start + src.length := by simp; omega
  rw [overwrite, ← hl, List.take_left]

theorem take_drop_overwrite (hs : start ≤ dst.length) :
    ((overwrite dst start src).drop start).take src.length = src := by
  rw [overwrite, List.append_assoc, List.drop_append_of_le_length (by simp; omega)]
  have hd : (dst.take start).drop start = [] := List.drop_eq_nil_of_le (List.length_take_le _ _)
  rw [hd, List.nil_append, List.take_left]

/-- Two writes, the second one behind the first, are one. -/
theorem overwrite_overwrite {next : Bytes} (hs : start ≤ dst.length) (hn : n = start + src.length) :
    overwrite (overwrite dst start src) n next = overwrite dst start (src ++ next) := by
  rw [hn, overwrite, take_overwrite_end hs, drop_overwrite (by omega) hs, overwrite,
    List.append_assoc (dst.take start), List.length_append, Nat.add_assoc]

theorem getElem?_overwrite (h : start + src.length ≤ dst.length) (i : Nat) :
    (overwrite dst start src)[i]? =
      if i < start then dst[i]? else if i < start + src.length then src[i - start]? else dst[i]? := by
  have hs : (dst.take start).length = start := by simp; omega
  rw [overwrite, List.append_assoc]
  split_ifs with h1 h2
  · rw [List.getElem?_append_left (by omega), List.getElem?_take_of_lt h1]
  · rw [List.getElem?_append_right (by omega), hs, List.getElem?_append_left (by omega)]
  · rw [List.getElem?_append_right (by omega), hs, List.getElem?_append_right (by omega),
      List.getElem?_drop]
    congr 1
    omega

end CryptoSuite.Bytes
