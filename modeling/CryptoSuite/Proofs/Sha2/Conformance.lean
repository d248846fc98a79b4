import CryptoSuite.Proofs.Bytes.Endian
import CryptoSuite.Proofs.Sha2.Blocks
import CryptoSuite.Proofs.Sha2.Standard
import Mathlib.Data.Fintype.Basic
import Mathlib.Tactic.FinCases
import Mathlib.Tactic.SplitIfs

/-! The digests are those of the standard: words and their operations correspond, so do rounds and
schedules, hence compressions, hence hash values of padded messages. -/
namespace CryptoSuite

theorem Bytes.words64_eq (b : Bytes) :
    words64 b = (List.range (b.length / 8)).map fun i => ⟨Sha2.Standard.wordAt b i⟩ := by
  fun_induction words64 b with
  | case1 a b c d e f g h rest ih =>
    have hw : [a, b, c, d, e, f, g, h].foldl (fun (w : UInt64) x => (w <<< 8) ||| x.toUInt64) 0 =
        ⟨Sha2.Standard.wordAt (a :: b :: c :: d :: e :: f :: g :: h :: rest) 0⟩ := by
      apply UInt64.toNat_inj.mp
      rw [toNat_foldl_shiftLeft, UInt64.toNat_zero, Nat.zero_mul, Nat.zero_add]
      rfl
    have hl : (a :: b :: c :: d :: e :: f :: g :: h :: rest).length / 8 = rest.length / 8 + 1 := by
      simp only [List.length_cons]
      omega
    rw [hl, List.range_succ_eq_map, List.map_cons, List.map_map, hw, ih]
    rfl
  | case2 b hb =>
    have hl : b.length < 8 := by
      rcases b with _ | ⟨a, _ | ⟨b, _ | ⟨c, _ | ⟨d, _ | ⟨e, _ | ⟨f, _ | ⟨g, _ | ⟨h, t⟩⟩⟩⟩⟩⟩⟩⟩ <;>
        first | exact absurd rfl (hb _ _ _ _ _ _ _ _ _) | simp
    rw [Nat.div_eq_of_lt hl]
    rfl

theorem Bytes.ofNatLittleEndian_eq (count n : Nat) :
    ofNatLittleEndian count n = (List.range count).map fun i => UInt8.ofNat (n / 256 ^ i) := by
  induction count generalizing n with
  | zero => rfl
  | succ count ih =>
    rw [ofNatLittleEndian, ih, List.range_succ_eq_map, List.map_cons, List.map_map]
    congr 1
    · apply UInt8.toNat_inj.mp
      simp
    · refine List.map_congr_left fun i _ => ?_
      rw [Function.comp_apply, Nat.pow_succ', Nat.div_div_eq_div_mul]

namespace Sha2

def Chain.value (c : Chain) : Standard.Value :=
  ![c.a.toBitVec, c.b.toBitVec, c.c.toBitVec, c.d.toBitVec, c.e.toBitVec, c.f.toBitVec,
    c.g.toBitVec, c.h.toBitVec]

theorem toBitVec_rotateRight (x : UInt64) {n : UInt64} (h : 0 < n.toNat) (hn : n.toNat < 64) :
    (rotateRight x n).toBitVec = x.toBitVec.rotateRight n.toNat := by
  rw [rotateRight, BitVec.rotateRight_def, UInt64.toBitVec_or, UInt64.toBitVec_shiftRight,
    UInt64.toBitVec_shiftLeft, BitVec.ushiftRight_eq', BitVec.shiftLeft_eq', UInt64.toBitVec_sub]
  congr 2
  simp
  omega

@[simp] theorem toBitVec_bigSigma0 (x : UInt64) :
    (bigSigma0 x).toBitVec = Standard.bigSigma0 x.toBitVec := by
  simp (disch := decide) only [bigSigma0, UInt64.toBitVec_xor, toBitVec_rotateRight]
  rfl

@[simp] theorem toBitVec_bigSigma1 (x : UInt64) :
    (bigSigma1 x).toBitVec = Standard.bigSigma1 x.toBitVec := by
  simp (disch := decide) only [bigSigma1, UInt64.toBitVec_xor, toBitVec_rotateRight]
  rfl

@[simp] theorem toBitVec_smallSigma0 (x : UInt64) :
    (smallSigma0 x).toBitVec = Standard.smallSigma0 x.toBitVec := by
  simp (disch := decide) only [smallSigma0, UInt64.toBitVec_xor, toBitVec_rotateRight]
  rfl

@[simp] theorem toBitVec_smallSigma1 (x : UInt64) :
    (smallSigma1 x).toBitVec = Standard.smallSigma1 x.toBitVec := by
  simp (disch := decide) only [smallSigma1, UInt64.toBitVec_xor, toBitVec_rotateRight]
  rfl

theorem value_round (v : Chain) (kw : UInt64 × UInt64) :
    (round v kw).value = Standard.round kw.1.toBitVec kw.2.toBitVec v.value := by
  simp only [round, Chain.value, UInt64.toBitVec_add, toBitVec_bigSigma0, toBitVec_bigSigma1]
  rfl

/-- Trial division below 21 is enough for the numbers among which the primes are sought. -/
theorem prime_iff {n : Nat} (h : n < 410) :
    n.Prime ↔ 2 ≤ n ∧ ∀ m < 21, 2 ≤ m → m * m ≤ n → ¬m ∣ n := by
  rw [Nat.prime_def_le_sqrt]
  refine and_congr_right fun _ => ⟨fun hp m _ hm hs => hp m hm (Nat.le_sqrt.mpr hs), ?_⟩
  intro hp m hm hs
  have hmm := Nat.le_sqrt.mp hs
  refine hp m ?_ hm hmm
  by_contra hge
  have := Nat.mul_le_mul (Nat.not_lt.mp hge) (Nat.not_lt.mp hge)
  omega

theorem primes_eq : Standard.primes =
    [2, 3, 5, 7, 11, 13, 17, 19, 23, 29, 31, 37, 41, 43, 47, 53, 59, 61, 67, 71, 73, 79, 83, 89, 97,
      101, 103, 107, 109, 113, 127, 131, 137, 139, 149, 151, 157, 163, 167, 173, 179, 181, 191, 193,
      197, 199, 211, 223, 227, 229, 233, 239, 241, 251, 257, 263, 269, 271, 277, 281, 283, 293, 307,
      311, 313, 317, 331, 337, 347, 349, 353, 359, 367, 373, 379, 383, 389, 397, 401, 409] := by
  have hf : Standard.primes = (List.range 410).filter fun n =>
      2 ≤ n ∧ ∀ m < 21, 2 ≤ m → m * m ≤ n → ¬m ∣ n := by
    refine List.filter_congr fun n hn => ?_
    exact decide_eq_decide.mpr (prime_iff (List.mem_range.mp hn))
  rw [hf]
  decide +kernel

theorem toBitVec_constants : constants.map (·.toBitVec) = (List.range 80).map Standard.constant := by
  have hp : (List.range 80).map (Standard.primes.getD · 0) = Standard.primes := by
    rw [primes_eq]
    decide +kernel
  have hc : (List.range 80).map Standard.constant = Standard.primes.map (Standard.fraction 3) := by
    conv => rhs; rw [← hp, List.map_map]
    rfl
  rw [hc, primes_eq]
  decide +kernel

theorem extendSchedule_eq (s : Nat → UInt64) {n : Nat} (h : 16 ≤ n) :
    extendSchedule ((List.range n).map s).toArray =
      ((List.range n).map s ++ [smallSigma1 (s (n - 2)) + s (n - 7) + smallSigma0 (s (n - 15))
        + s (n - 16)]).toArray := by
  have hg : ∀ i < n, ((List.range n).map s).toArray.getD i 0 = s i := by
    intro i hi
    simp [hi]
  simp only [extendSchedule, List.size_toArray, List.length_map, List.length_range]
  rw [hg _ (by omega), hg _ (by omega), hg _ (by omega), hg _ (by omega), List.push_toArray]

/-- The words computed so far are those of the recurrence. -/
theorem repeat_extendSchedule (block : Nat → Standard.Word) (n : Nat) :
    Nat.repeat extendSchedule n ((List.range 16).map fun t => (⟨block t⟩ : UInt64)).toArray =
      ((List.range (16 + n)).map fun t => (⟨Standard.schedule block t⟩ : UInt64)).toArray := by
  induction n with
  | zero =>
    refine congrArg List.toArray (List.map_congr_left fun t ht => ?_)
    rw [Standard.schedule, if_pos (List.mem_range.mp ht)]
  | succ n ih =>
    have hs := Standard.schedule.eq_1 block (16 + n)
    rw [if_neg (by omega)] at hs
    rw [Nat.repeat, ih, extendSchedule_eq _ (by omega), ← Nat.add_assoc, List.range_succ, List.map_append,
      List.map_singleton, hs]
    congr 3

theorem messageSchedule_eq {block : Bytes} (h : block.length = 128) :
    (messageSchedule (Bytes.words64 block)).toList.map (·.toBitVec) =
      (List.range 80).map (Standard.schedule (Standard.wordAt block)) := by
  rw [messageSchedule, Bytes.words64_eq, h, repeat_extendSchedule, List.map_map]
  rfl

theorem value_foldl_round (kws : List (UInt64 × UInt64)) (v : Chain) :
    (kws.foldl round v).value =
      (kws.map fun kw => (kw.1.toBitVec, kw.2.toBitVec)).foldl
        (fun v kw => Standard.round kw.1 kw.2 v) v.value := by
  induction kws generalizing v with
  | nil => rfl
  | cons kw kws ih => rw [List.foldl_cons, ih, value_round, List.map_cons, List.foldl_cons]

theorem value_add (v w : Chain) : (v.add w).value = fun i => v.value i + w.value i := by
  funext i
  fin_cases i <;> rfl

theorem value_compress (c : Chain) {block : Bytes} (h : block.length = 128) :
    (compress c block).value = Standard.compress c.value (Standard.wordAt block) := by
  have hk : (constants.zip (messageSchedule (Bytes.words64 block)).toList).map
      (fun kw => (kw.1.toBitVec, kw.2.toBitVec)) = (List.range 80).map fun t =>
        (Standard.constant t, Standard.schedule (Standard.wordAt block) t) := by
    calc
      _ = (constants.map (·.toBitVec)).zip
          ((messageSchedule (Bytes.words64 block)).toList.map (·.toBitVec)) := List.zip_map.symm
      _ = _ := by rw [toBitVec_constants, messageSchedule_eq h, List.zip_map']
  rw [compress, value_add, value_foldl_round, hk, List.foldl_map]
  rfl

/-- A schedule reads the first sixteen words of its block only. -/
theorem schedule_congr {b c : Nat → Standard.Word} (h : ∀ t < 16, b t = c t) (t : Nat) :
    Standard.schedule b t = Standard.schedule c t := by
  induction t using Nat.strong_induction_on with
  | _ t ih =>
    rw [Standard.schedule.eq_def b t, Standard.schedule.eq_def c t]
    split_ifs with ht
    · exact h t ht
    · rw [ih (t - 2) (by omega), ih (t - 7) (by omega), ih (t - 15) (by omega),
        ih (t - 16) (by omega)]

theorem compress_congr (v : Standard.Value) {b c : Nat → Standard.Word} (h : ∀ t < 16, b t = c t) :
    Standard.compress v b = Standard.compress v c := by
  have hs : Standard.schedule b = Standard.schedule c := funext (schedule_congr h)
  unfold Standard.compress
  rw [hs]

theorem wordAt_block (b : Bytes) (i : Nat) {t : Nat} (h : t < 16) :
    Standard.wordAt ((b.drop (128 * i)).take 128) t = Standard.wordAt b (16 * i + t) := by
  have hi : 8 * (16 * i + t) = 128 * i + 8 * t := by omega
  rw [Standard.wordAt, Standard.wordAt, List.drop_take, List.take_take, List.drop_drop, hi,
    Nat.min_eq_left (by omega)]

theorem pad_eq_padded (message : Bytes) : pad message = Standard.padded message := by
  have hz : paddingZeros message.length = Nat.find (Standard.exists_zeros message.length) := by
    symm
    rw [Nat.find_eq_iff]
    unfold paddingZeros
    refine ⟨by omega, fun z hz => ?_⟩
    omega
  rw [pad, Standard.padded, hz, Bytes.ofNatLittleEndian_eq]
  rfl

theorem value_foldl_compress {bs : List Bytes} (h : ∀ b ∈ bs, b.length = 128) (c : Chain) :
    (bs.foldl compress c).value =
      bs.foldl (fun v b => Standard.compress v (Standard.wordAt b)) c.value := by
  induction bs generalizing c with
  | nil => rfl
  | cons b bs ih =>
    rw [List.foldl_cons, List.foldl_cons, ih fun x hx => h x (List.mem_cons_of_mem b hx),
      value_compress c (h b List.mem_cons_self)]

theorem value_foldl_blocks (c : Chain) (message : Bytes) :
    ((blocks (pad message)).foldl compress c).value = Standard.hashFrom c.value message := by
  have hf : (fun v i => Standard.compress v
      (Standard.wordAt (((Standard.padded message).drop (128 * i)).take 128))) =
      fun v i => Standard.compress v fun t => Standard.wordAt (Standard.padded message) (16 * i + t) := by
    funext v i
    exact compress_congr v fun t ht => wordAt_block _ i ht
  rw [value_foldl_compress fun _ hb => length_of_mem_blocks hb, blocks_eq, List.foldl_map,
    pad_eq_padded, hf, Standard.hashFrom]

/-- SHA-512 with the initial value from which the one of SHA-512/256 is generated. -/
def generator : Chain :=
  let c := Variant.sha512.initial
  let x : UInt64 := 0xa5a5a5a5a5a5a5a5
  ⟨c.a ^^^ x, c.b ^^^ x, c.c ^^^ x, c.d ^^^ x, c.e ^^^ x, c.f ^^^ x, c.g ^^^ x, c.h ^^^ x⟩

theorem value_initial (v : Variant) : v.initial.value = Standard.initial v := by
  cases v with
  | sha384 =>
    unfold Standard.initial
    rw [primes_eq]
    decide +kernel
  | sha512 =>
    unfold Standard.initial
    rw [primes_eq]
    decide +kernel
  | sha512_256 =>
    let name : Bytes := "SHA-512/256".toList.map fun c => UInt8.ofNat c.toNat
    have hg : generator.value = fun i : Fin 8 =>
        Standard.fraction 2 (Standard.primes.getD i 0) ^^^ 0xa5a5a5a5a5a5a5a5 := by
      rw [primes_eq]
      decide +kernel
    have hb : blocks (pad name) = [pad name] := blocks_eq_singleton (by decide +kernel)
    have hc : compress generator (pad name) = Variant.sha512_256.initial := by decide +kernel
    rw [Standard.initial, ← hg, ← value_foldl_blocks, hb, ← hc]
    rfl

theorem bytesOf_toBitVec (w : UInt64) : Standard.bytesOf w.toBitVec = Bytes.ofUInt64 w := by
  have hr : Standard.bytesOf w.toBitVec = (Bytes.ofNatLittleEndian 8 w.toNat).reverse := by
    rw [Bytes.ofNatLittleEndian_eq]
    rfl
  rw [hr]
  apply Bytes.bigEndian_injective (by simp)
  rw [Bytes.bigEndian_reverse, Bytes.littleEndian_ofNatLittleEndian, Bytes.bigEndian_ofUInt64]
  exact Nat.mod_eq_of_lt w.toNat_lt

theorem toBytes_eq (c : Chain) :
    c.toBytes = (List.finRange 8).flatMap fun i => Standard.bytesOf (c.value i) := by
  have hw : (List.finRange 8).map c.value = c.words.map (·.toBitVec) := rfl
  rw [← List.flatMap_map c.value Standard.bytesOf, hw, List.flatMap_map]
  simp only [bytesOf_toBitVec]
  rfl

theorem digest_eq_standard (v : Variant) (message : Bytes) :
    digest v message = Standard.digest v message := by
  have hs : v.digestSize = Standard.digestBits v / 8 := by cases v <;> rfl
  rw [digest, toBytes_eq, value_foldl_blocks, value_initial, hs]
  rfl

@[simp] theorem Standard.length_digest (v : Variant) (message : Bytes) :
    (Standard.digest v message).length = v.digestSize := by
  rw [← digest_eq_standard, Sha2.digest, List.length_take, Chain.length_toBytes]
  exact Nat.min_eq_left v.digestSize_le

end Sha2

end CryptoSuite
