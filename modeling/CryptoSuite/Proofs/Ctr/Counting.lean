import CryptoSuite.Proofs.Ctr.Counter
import Mathlib.Data.List.Nodup
import Mathlib.Logic.Function.Iterate

/-! Counting over long runs. No counter block comes again within 2^128 blocks, and the nonce in front of the
block number stays until the number overflows its eight bytes. -/
namespace CryptoSuite.Ctr

variable {counter nonce : Bytes} {n : Nat}

theorem length_iterate_increment (counter : Bytes) (n : Nat) :
    (increment^[n] counter).length = counter.length := by
  induction n with
  | zero => rfl
  | succ n ih => rw [Function.iterate_succ_apply', length_increment, ih]

theorem bigEndian_iterate_increment (h : counter.length = 16) (n : Nat) :
    Bytes.bigEndian (increment^[n] counter) = (Bytes.bigEndian counter + n) % 2 ^ 128 := by
  induction n with
  | zero =>
    have hlt := Bytes.bigEndian_lt counter
    rw [h] at hlt
    exact (Nat.mod_eq_of_lt hlt).symm
  | succ n ih =>
    have hpow : 256 ^ (increment^[n] counter).length = 2 ^ 128 := by
      rw [length_iterate_increment, h]
      rfl
    rw [Function.iterate_succ_apply', bigEndian_increment, hpow, ih]
    omega

/-- Two numbers of increments below 2^128 that lead to one block are the same. -/
theorem eq_of_iterate_increment_eq (h : counter.length = 16) {i j : Nat} (hi : i < 2 ^ 128)
    (hj : j < 2 ^ 128) (hij : increment^[i] counter = increment^[j] counter) : i = j := by
  have hnumbers := congrArg Bytes.bigEndian hij
  rw [bigEndian_iterate_increment h, bigEndian_iterate_increment h] at hnumbers
  omega

theorem nodup_iterate_increment (h : counter.length = 16) (hn : n < 2 ^ 128) :
    ((List.range (n + 1)).map fun i => increment^[i] counter).Nodup := by
  apply List.Nodup.map_on
  · intro i hi j hj hij
    rw [List.mem_range] at hi hj
    exact eq_of_iterate_increment_eq h (by omega) (by omega) hij
  · exact List.nodup_range

theorem iterate_increment_counterBlock (nonce : Bytes) (i n : Nat) :
    increment^[n] (counterBlock nonce i) = counterBlock nonce (i + n) := by
  induction n with
  | zero => rfl
  | succ n ih => rw [Function.iterate_succ_apply', ih, increment_counterBlock, Nat.add_assoc]

/-- The nonce is not touched as long as the number of the block fits its eight bytes. -/
theorem iterate_increment_append (hl : nonce.length = nonceSize) (index : UInt64)
    (hn : index.toNat + n < 2 ^ 64) :
    increment^[n] (nonce ++ Bytes.ofUInt64 index) =
      nonce ++ Bytes.ofUInt64 (UInt64.ofNat (index.toNat + n)) := by
  have hstart := counterBlock_eq_append hl index.toNat_lt
  rw [UInt64.ofNat_toNat] at hstart
  rw [← hstart, iterate_increment_counterBlock, counterBlock_eq_append hl hn]

namespace State

variable {s : State}

/-- `n` keystream blocks on; the first failure ends it. -/
def advances : Nat → State → Status × State
  | 0, s => (.ok (), s)
  | n + 1, s =>
    match s.advances n with
    | (.error e, s) => (.error e, s)
    | (.ok _, s) => s.advance

theorem size_write (h : s.blocks.size = 32) {start : Nat} {src : Bytes} (hs : start + src.length ≤ 32) :
    (s.blocks.write start src).size = 32 := by
  rw [← h] at hs ⊢
  exact Bytes.length_overwrite hs

theorem refill_keeps_counter (h : s.blocks.size = 32) :
    ∃ t, s.refill = (.ok (), t) ∧ t.blocks.size = 32 ∧ t.counter = s.counter :=
  ⟨_, refill_of_size h, size_write h (by simp), counter_write h⟩

theorem advance_of_size (h : s.blocks.size = 32) :
    ∃ t, s.advance = (.ok (), t) ∧ t.blocks.size = 32 ∧ t.counter = increment s.counter := by
  have hl : (increment s.counter).length = 16 := by rw [length_increment, length_counter h]
  have hsize : (s.setCounter (increment s.counter)).blocks.size = 32 := size_write h (by omega)
  obtain ⟨t, ht, hsize', hcounter⟩ := refill_keeps_counter hsize
  exact ⟨t, ht, hsize', hcounter.trans (counter_setCounter hl)⟩

theorem seek_of_size (h : s.blocks.size = 32) (position : UInt64) :
    ∃ t, s.seek position = (.ok (), t) ∧ t.blocks.size = 32 ∧
      t.counter = s.counter.take nonceSize ++ Bytes.ofUInt64 (position / 16) := by
  have hsize : (s.blocks.write nonceSize (Bytes.ofUInt64 (position / 16))).size = 32 :=
    size_write h (by rw [Bytes.length_ofUInt64]; decide)
  have hroom : nonceSize ≤ s.blocks.bytes.length := by
    rw [← Buffer.size, h]
    decide
  have hnonce : s.counter.take nonceSize = s.blocks.bytes.take nonceSize := by
    rw [counter, List.take_take]
    rfl
  obtain ⟨t, ht, hsize', hcounter⟩ := refill_keeps_counter
    (s := { s with blocks := s.blocks.write nonceSize (Bytes.ofUInt64 (position / 16)) }) hsize
  refine ⟨{ t with used := (position % 16).toNat, started := true }, by rw [seek, ht], hsize', ?_⟩
  rw [hnonce]
  apply hcounter.trans
  exact @Bytes.take_overwrite_end _ (Bytes.ofUInt64 (position / 16)) _ hroom

/-- The counter block after `n` blocks is the one that `n` increments lead to. -/
theorem advances_of_size (h : s.blocks.size = 32) (n : Nat) :
    ∃ t, s.advances n = (.ok (), t) ∧ t.blocks.size = 32 ∧ t.counter = increment^[n] s.counter := by
  induction n with
  | zero => exact ⟨s, rfl, h, rfl⟩
  | succ n ih =>
    obtain ⟨t, ht, hsize, hcounter⟩ := ih
    obtain ⟨u, hu, hsize', hcounter'⟩ := advance_of_size hsize
    refine ⟨u, ?_, hsize', ?_⟩
    · rw [advances, ht]
      exact hu
    · rw [hcounter', hcounter, Function.iterate_succ_apply']

end State

/-- Incrementing a counter block adds one modulo 2^128. From any position sought, counting on goes through the
blocks that increments lead to; fewer than 2^128 of them are all different, and they keep the nonce while the
number of the block stays below 2^64. -/
theorem counting_from_seek :
    (∀ counter : Bytes, counter.length = 16 → (increment counter).length = 16 ∧
      Bytes.bigEndian (increment counter) = (Bytes.bigEndian counter + 1) % 2 ^ 128) ∧
    ∀ (s : State) (position : UInt64), s.blocks.size = 32 → ∃ t, s.seek position = (.ok (), t) ∧
      t.counter = s.counter.take nonceSize ++ Bytes.ofUInt64 (position / 16) ∧
      ∀ n, (∃ u, t.advances n = (.ok (), u) ∧ u.counter = increment^[n] t.counter) ∧
        (n < 2 ^ 128 → ((List.range (n + 1)).map fun i => increment^[i] t.counter).Nodup) ∧
        ((position / 16).toNat + n < 2 ^ 64 → increment^[n] t.counter =
          s.counter.take nonceSize ++ Bytes.ofUInt64 (UInt64.ofNat ((position / 16).toNat + n))) := by
  constructor
  · intro counter h
    refine ⟨(length_increment counter).trans h, ?_⟩
    rw [bigEndian_increment, h]
    rfl
  · intro s position h
    obtain ⟨t, hseek, hsize, hcounter⟩ := s.seek_of_size h position
    refine ⟨t, hseek, hcounter, ?_⟩
    intro n
    obtain ⟨u, hu, -, hvisit⟩ := t.advances_of_size hsize n
    have hnonce : (s.counter.take nonceSize).length = nonceSize := by
      rw [List.length_take, State.length_counter h]
      rfl
    refine ⟨⟨u, hu, hvisit⟩, nodup_iterate_increment (State.length_counter hsize), ?_⟩
    rw [hcounter]
    exact iterate_increment_append hnonce (position / 16)

/-- The greatest block wraps to zero; and four blocks from the last byte of the stream on, under a nonce of
zeros. -/
theorem counting_from_seek_end :
    Bytes.bigEndian (increment (List.replicate 16 255)) = 0 ∧
    ∃ s t : State, s.blocks.size = 32 ∧ s.seek 0xffffffffffffffff = (.ok (), t) ∧
      ((List.range 4).map fun i => increment^[i] t.counter).Nodup ∧
      increment^[3] t.counter = Bytes.zeros 8 ++ Bytes.ofUInt64 0x1000000000000002 := by
  have h := counting_from_seek
  constructor
  · rw [(h.1 (List.replicate 16 255) (by decide)).2]
    decide
  · obtain ⟨t, hseek, -, hcount⟩ := h.2
      ⟨⟨⟨0, Bytes.zeros 240⟩, 14⟩, ⟨⟨1, Bytes.zeros 32⟩⟩, 0, false⟩ 0xffffffffffffffff rfl
    obtain ⟨-, hdistinct, hnonce⟩ := hcount 3
    exact ⟨_, t, rfl, hseek, hdistinct (by decide), hnonce (by decide)⟩

end CryptoSuite.Ctr
