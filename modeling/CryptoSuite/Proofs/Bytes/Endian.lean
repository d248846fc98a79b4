import CryptoSuite.Bytes
import Mathlib.Data.Int.ModEq

/-! The numbers that octet strings denote. Among strings of one length a number determines its
octets, so equations between encodings reduce to equations between numbers. -/
namespace CryptoSuite.Bytes

@[simp] theorem littleEndian_nil : littleEndian [] = 0 := rfl

@[simp] theorem littleEndian_cons (x : UInt8) (b : Bytes) :
    littleEndian (x :: b) = x.toNat + 256 * littleEndian b := rfl

theorem littleEndian_lt (b : Bytes) : littleEndian b < 256 ^ b.length := by
  induction b with
  | nil => simp
  | cons x b ih =>
    have hx := x.toNat_lt
    rw [littleEndian_cons, List.length_cons, Nat.pow_succ]
    omega

theorem littleEndian_injective {a b : Bytes} (hl : a.length = b.length)
    (h : littleEndian a = littleEndian b) : a = b := by
  induction a generalizing b with
  | nil => exact (List.length_eq_zero_iff.mp hl.symm).symm
  | cons x a ih =>
    cases b with
    | nil => simp at hl
    | cons y b =>
      have hx := x.toNat_lt
      have hy := y.toNat_lt
      simp only [littleEndian_cons] at h
      have hxy : x.toNat = y.toNat := by omega
      have hab : littleEndian a = littleEndian b := by omega
      rw [UInt8.toNat_inj.mp hxy, ih (by simpa using hl) hab]

theorem littleEndian_ofNatLittleEndian (count n : Nat) :
    littleEndian (ofNatLittleEndian count n) = n % 256 ^ count := by
  induction count generalizing n with
  | zero => simp [ofNatLittleEndian, Nat.mod_one]
  | succ count ih =>
    have hb : (UInt8.ofNat (n % 256)).toNat = n % 256 := by simp
    rw [ofNatLittleEndian, littleEndian_cons, ih, hb, Nat.pow_succ, Nat.mul_comm (256 ^ count)]
    exact (Nat.mod_mul).symm

theorem foldl_bigEndian (b : Bytes) (n : Nat) :
    b.foldl (fun n x => 256 * n + x.toNat) n = n * 256 ^ b.length + bigEndian b := by
  induction b generalizing n with
  | nil => simp [bigEndian]
  | cons x b ih =>
    simp only [bigEndian, List.foldl_cons, List.length_cons, Nat.mul_zero, Nat.zero_add]
    rw [ih, ih, Nat.pow_succ, Nat.add_mul, ← Nat.add_assoc]
    congr 2
    rw [Nat.mul_comm 256 n, Nat.mul_assoc, Nat.mul_comm 256]

theorem bigEndian_append (a b : Bytes) :
    bigEndian (a ++ b) = bigEndian a * 256 ^ b.length + bigEndian b := by
  rw [bigEndian, List.foldl_append]
  exact foldl_bigEndian b (bigEndian a)

theorem bigEndian_reverse (b : Bytes) : bigEndian b.reverse = littleEndian b := by
  induction b with
  | nil => rfl
  | cons x b ih =>
    rw [List.reverse_cons, bigEndian_append, ih, littleEndian_cons]
    simp only [bigEndian, List.foldl_cons, List.foldl_nil, List.length_singleton]
    omega

theorem bigEndian_eq_littleEndian (b : Bytes) : bigEndian b = littleEndian b.reverse := by
  rw [← bigEndian_reverse, List.reverse_reverse]

theorem bigEndian_lt (b : Bytes) : bigEndian b < 256 ^ b.length := by
  rw [bigEndian_eq_littleEndian, ← List.length_reverse]
  exact littleEndian_lt b.reverse

theorem bigEndian_injective {a b : Bytes} (hl : a.length = b.length)
    (h : bigEndian a = bigEndian b) : a = b := by
  rw [bigEndian_eq_littleEndian, bigEndian_eq_littleEndian] at h
  exact List.reverse_inj.mp (littleEndian_injective (by simpa using hl) h)

theorem bigEndian_ofUInt64 (w : UInt64) : bigEndian (ofUInt64 w) = w.toNat := by
  have hw := w.toNat_lt
  simp only [ofUInt64, bigEndian, List.foldl_cons, List.foldl_nil, UInt64.toNat_toUInt8,
    UInt64.toNat_shiftRight, UInt64.reduceToNat, Nat.reduceMod, Nat.shiftRight_eq_div_pow]
  omega

/-- Shifting an octet into a word, whose top octet is lost. -/
theorem toNat_shiftLeft_or (w : UInt64) (x : UInt8) :
    ((w <<< 8) ||| x.toUInt64).toNat = w.toNat * 256 % 2 ^ 64 + x.toNat := by
  have hx : x.toNat < 2 ^ 8 := x.toNat_lt
  have hs : w.toNat <<< 8 % 2 ^ 64 = (w.toNat % 2 ^ 56) <<< 8 := by
    rw [Nat.shiftLeft_eq, Nat.shiftLeft_eq]
    omega
  rw [UInt64.toNat_or, UInt64.toNat_shiftLeft, UInt8.toNat_toUInt64]
  simp only [UInt64.reduceToNat, Nat.reduceMod]
  rw [hs, ← Nat.shiftLeft_add_eq_or_of_lt hx, Nat.shiftLeft_eq]
  omega

/-- Shifting octets into a word reads them with the first one most significant. -/
theorem toNat_foldl_shiftLeft (b : Bytes) (w : UInt64) :
    (b.foldl (fun (w : UInt64) x => (w <<< 8) ||| x.toUInt64) w).toNat =
      (w.toNat * 256 ^ b.length + bigEndian b) % 2 ^ 64 := by
  induction b generalizing w with
  | nil => simp [bigEndian]
  | cons x b ih =>
    have hb : bigEndian (x :: b) = x.toNat * 256 ^ b.length + bigEndian b := by
      simpa [bigEndian] using foldl_bigEndian b (256 * 0 + x.toNat)
    have hp : w.toNat * 256 ^ (b.length + 1) = w.toNat * 256 * 256 ^ b.length := by
      rw [Nat.pow_succ', Nat.mul_assoc]
    rw [List.foldl_cons, ih, toNat_shiftLeft_or, hb, List.length_cons, hp, ← Nat.add_assoc,
      ← Nat.add_mul]
    exact Nat.ModEq.add_right _ (Nat.ModEq.mul_right _ (Nat.ModEq.add_right _ (Nat.mod_modEq _ _)))

theorem words64_ofUInt64_append (w : UInt64) (b : Bytes) :
    words64 (ofUInt64 w ++ b) = w :: words64 b := by
  have hw : (ofUInt64 w).foldl (fun (w : UInt64) x => (w <<< 8) ||| x.toUInt64) 0 = w := by
    apply UInt64.toNat_inj.mp
    rw [toNat_foldl_shiftLeft, bigEndian_ofUInt64, UInt64.toNat_zero, Nat.zero_mul, Nat.zero_add,
      Nat.mod_eq_of_lt w.toNat_lt]
  exact congrArg (· :: words64 b) hw

/-- Two words in order are the 128-bit number with the first one in its upper half. -/
theorem ofUInt64_append_ofUInt64 {high low : UInt64} {n : Nat}
    (h : high.toNat * 2 ^ 64 + low.toNat = n % 2 ^ 128) :
    ofUInt64 high ++ ofUInt64 low = (ofNatLittleEndian 16 n).reverse := by
  apply bigEndian_injective (by simp)
  rw [bigEndian_append, bigEndian_ofUInt64, bigEndian_ofUInt64, bigEndian_reverse,
    littleEndian_ofNatLittleEndian, length_ofUInt64]
  exact h

end CryptoSuite.Bytes
