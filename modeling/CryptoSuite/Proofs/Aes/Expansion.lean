import CryptoSuite.Proofs.Aes.Key
import CryptoSuite.Proofs.Aes.StandardLayers

/-! The schedule is the words of the standard in their order. The expansion carries a round constant along
where the standard takes a power; the invariant is that the two are equal at the next use. -/
namespace CryptoSuite.Aes

section Words

variable (v w : Standard.Word)

theorem Word.xor_ofFn :
    Word.xor (Vector.ofFn v) (Vector.ofFn w) = Vector.ofFn (Standard.addWords v w) := by
  ext i hi : 1
  simp only [Word.xor, Vector.getElem_zipWith, Vector.getElem_ofFn, Standard.addWords]

theorem Word.substitute_ofFn : Word.substitute (Vector.ofFn v) = Vector.ofFn (Standard.subWord v) := by
  ext i hi : 1
  simp only [Word.substitute, Vector.getElem_map, Vector.getElem_ofFn, Standard.subWord, substitute_eq]

theorem Word.rotate_ofFn : Word.rotate (Vector.ofFn v) = Vector.ofFn (Standard.rotWord v) := by
  ext i hi : 1
  rcases (by omega : i = 0 ∨ i = 1 ∨ i = 2 ∨ i = 3) with rfl | rfl | rfl | rfl <;>
    simp [rotate, Standard.rotWord]

theorem Word.ofFn_rcon (j : Nat) :
    Vector.ofFn (Standard.rcon j) = (#v[octet (root ^ (j - 1)), 0, 0, 0] : Word) := by
  ext i hi : 1
  rcases (by omega : i = 0 ∨ i = 1 ∨ i = 2 ∨ i = 3) with rfl | rfl | rfl | rfl <;>
    simp [Standard.rcon]

end Words

theorem Standard.word_of_lt {key : Bytes} {i : Nat} (h : i < key.length / 4) :
    Standard.word key i = fun r : Fin 4 => key.getD (4 * i + r.val) 0 := by
  rw [word, if_neg (by omega)]

theorem Standard.word_of_le {key : Bytes} {i : Nat} (hk : 0 < key.length / 4) (h : key.length / 4 ≤ i) :
    Standard.word key i = addWords (word key (i - key.length / 4))
      (if i % (key.length / 4) = 0 then
        addWords (subWord (rotWord (word key (i - 1)))) (rcon (i / (key.length / 4)))
      else if 6 < key.length / 4 ∧ i % (key.length / 4) = 4 then subWord (word key (i - 1))
      else word key (i - 1)) := by
  rw [word, if_pos ⟨hk, h⟩]

theorem octet_root_pow_succ (n : Nat) : octet (root ^ (n + 1)) = xtime (octet (root ^ n)) := by
  rw [← octet_element (xtime _), element_xtime, element_octet, pow_succ']

/-- The words so far are those of the standard, and the constant is the one that comes next. -/
structure Expansion.Follows (key : Bytes) (e : Expansion) : Prop where
  size : key.length / 4 ≤ e.words.size
  word : ∀ i < e.words.size, e.words.getD i Word.zero = Vector.ofFn (Standard.word key i)
  constant : e.constant = octet (root ^ ((e.words.size - 1) / (key.length / 4)))

namespace Expansion.Follows

variable {key : Bytes} {e : Expansion}

theorem push (h : Follows key e) {w : Word} {c : UInt8}
    (hw : w = Vector.ofFn (Standard.word key e.words.size))
    (hc : c = octet (root ^ (e.words.size / (key.length / 4)))) : Follows key ⟨e.words.push w, c⟩ where
  size := by
    have hs := h.size
    rw [Array.size_push]
    omega
  word := by
    intro i hi
    rw [Array.size_push] at hi
    rw [Array.getD_eq_getD_getElem?, Array.getElem?_push]
    split_ifs with hn
    · rw [Option.getD_some, hw, hn]
    · rw [← Array.getD_eq_getD_getElem?]
      exact h.word i (by omega)
  constant := by rw [Array.size_push, Nat.add_sub_cancel, hc]

/-- The number of round constants spent goes up at the multiples of the number of words of the key. -/
theorem size_div (h : Follows key e) (hk : 0 < key.length / 4) :
    e.words.size / (key.length / 4) = (e.words.size - 1) / (key.length / 4) +
      if e.words.size % (key.length / 4) = 0 then 1 else 0 := by
  have hs := h.size
  have hn : e.words.size - 1 + 1 = e.words.size := by omega
  have hdiv := @Nat.succ_div (e.words.size - 1) (key.length / 4)
  simpa only [hn, Nat.dvd_iff_mod_eq_zero] using hdiv

theorem next (h : Follows key e) (hk : 0 < key.length / 4) : Follows key (e.next (key.length / 4)) := by
  have hs := h.size
  have hlast := h.word (e.words.size - 1) (by omega)
  have hbefore := h.word (e.words.size - key.length / 4) (by omega)
  have hword := Standard.word_of_le hk hs
  have hdiv := h.size_div hk
  unfold Expansion.next
  simp only [hlast, hbefore]
  -- the same three cases as in the recurrence
  split_ifs with hz hf
  · rw [if_pos hz] at hword hdiv
    apply h.push
    · rw [hword, Word.rotate_ofFn, Word.substitute_ofFn, h.constant, ← Word.xor_ofFn, ← Word.xor_ofFn,
        Word.ofFn_rcon, hdiv, Nat.add_sub_cancel]
    · rw [hdiv, octet_root_pow_succ, h.constant]
  · rw [if_neg hz] at hword hdiv
    rw [if_pos hf] at hword
    apply h.push
    · rw [hword, Word.substitute_ofFn, ← Word.xor_ofFn]
    · rw [hdiv, h.constant, Nat.add_zero]
  · rw [if_neg hz] at hword hdiv
    rw [if_neg hf] at hword
    apply h.push
    · rw [hword, ← Word.xor_ofFn]
    · rw [hdiv, h.constant, Nat.add_zero]

end Expansion.Follows

theorem Word.getElem?_split (b : Bytes) {i : Nat} (h : i < b.length / 4) :
    (split b)[i]? = some (Vector.ofFn fun r : Fin 4 => b.getD (4 * i + r.val) 0) := by
  fun_induction split b generalizing i with
  | case1 a b c d rest ih =>
    cases i with
    | zero => rfl
    | succ i =>
      simp only [List.length_cons] at h
      rw [List.getElem?_cons_succ, ih (by omega)]
      rfl
  | case2 b hb =>
    have hs := length_split b
    rw [split] at hs
    · rw [List.length_nil] at hs
      omega
    · exact hb

namespace Expansion

variable {key : Bytes}

theorem follows_start (key : Bytes) : Follows key (start key) where
  size := (Word.length_split key).ge
  word := by
    intro i hi
    have hl : i < key.length / 4 := by
      rw [← Word.length_split]
      exact hi
    rw [Standard.word_of_lt hl, start, Array.getD_eq_getD_getElem?, List.getElem?_toArray,
      Word.getElem?_split key hl, Option.getD_some]
  constant := by
    have hs : (start key).words.size = key.length / 4 := Word.length_split key
    have hz : (key.length / 4 - 1) / (key.length / 4) = 0 := by
      rw [Nat.div_eq_zero_iff]
      omega
    rw [hs, hz, pow_zero, ← element_one, octet_element, start]

theorem follows_repeat (hk : 0 < key.length / 4) (n : Nat) :
    Follows key (Nat.repeat (next (key.length / 4)) n (start key)) := by
  induction n with
  | zero => exact follows_start key
  | succ n ih => exact ih.next hk

end Expansion

theorem wordBytes_eq (words : Array Word) : wordBytes words =
    (List.range words.size).flatMap fun i => (words.getD i Word.zero).toList := by
  have hw : words.toList = (List.range words.size).map fun i => words.getD i Word.zero := by
    apply List.ext_getElem
    · simp
    · intro i h₁ h₂
      rw [Array.length_toList] at h₁
      simp [Array.getD_eq_getD_getElem?, h₁]
  rw [wordBytes, hw, List.flatMap_map]

theorem encryptionSchedule_eq {key : Bytes} {rounds : Nat} (hk : 0 < key.length / 4)
    (h : key.length / 4 ≤ 4 * (rounds + 1)) :
    encryptionSchedule key rounds = Standard.expandedKey key (4 * (rounds + 1)) := by
  have hf := Expansion.follows_repeat hk (4 * (rounds + 1) - key.length / 4)
  have hs : (Nat.repeat (Expansion.next (key.length / 4)) (4 * (rounds + 1) - key.length / 4)
      (Expansion.start key)).words.size = 4 * (rounds + 1) := by
    have hstart : (Expansion.start key).words.size = key.length / 4 := Word.length_split key
    rw [Expansion.size_repeat, hstart]
    omega
  rw [encryptionSchedule, wordBytes_eq, Standard.expandedKey, hs]
  apply List.flatMap_congr
  intro i hi
  rw [hf.word i (by rw [hs]; exact List.mem_range.mp hi), Vector.toList_ofFn]

/-- Octet `r` of word `i` stands `r` places after those of the words before. -/
theorem Standard.getD_expandedKey (key : Bytes) {n i : Nat} (h : i < n) (r : Fin 4) :
    (expandedKey key n).getD (4 * i + r.val) 0 = word key i r := by
  have hl (n : Nat) : (expandedKey key n).length = 4 * n := by
    simp [expandedKey, List.length_flatMap, Nat.mul_comm]
  induction n with
  | zero => omega
  | succ n ih =>
    have hn : expandedKey key (n + 1) = expandedKey key n ++ List.ofFn (word key n) := by
      rw [expandedKey, List.range_succ, List.flatMap_append, List.flatMap_singleton, expandedKey]
    have hln := hl n
    rw [hn, List.getD_eq_getElem?_getD]
    by_cases hi : i < n
    · rw [List.getElem?_append_left (by omega), ← List.getD_eq_getElem?_getD, ih hi]
    · obtain rfl : i = n := by omega
      rw [List.getElem?_append_right (by omega), hln, Nat.add_sub_cancel_left, List.getElem?_ofFn]
      simp

end CryptoSuite.Aes
