import CryptoSuite.Proofs.Aes.Mixing
import Mathlib.Algebra.Field.ZMod
import Mathlib.Algebra.Module.ZMod
import Mathlib.RingTheory.AdjoinRoot
import Mathlib.RingTheory.PrincipalIdealDomain
import Mathlib.Tactic.ComputeDegree
import Mathlib.Tactic.LinearCombination

/-! The field of 256 elements as a quotient of polynomials over the field of two, and octets as its
elements. That every octet but zero has an inverse is checked on octets; the rest of the field follows. -/
namespace CryptoSuite.Aes

open Polynomial

/-- The polynomial x^8 + x^4 + x^3 + x + 1. -/
noncomputable def modulus : (ZMod 2)[X] := X ^ 8 + X ^ 4 + X ^ 3 + X + 1

abbrev GF : Type := AdjoinRoot modulus

/-- The class of x. -/
noncomputable abbrev root : GF := AdjoinRoot.root modulus

/-- Whether x^i is a term of the polynomial that an octet stands for. -/
def bit (a : UInt8) (i : Nat) : Bool := a.toNat.testBit i

/-- The coefficient of x^i, as an element of the field. -/
noncomputable def coefficient (a : UInt8) (i : Nat) : GF := if bit a i then 1 else 0

/-- The element that an octet stands for. -/
noncomputable def element (a : UInt8) : GF := ∑ i ∈ Finset.range 8, coefficient a i * root ^ i

theorem natDegree_modulus : modulus.natDegree = 8 := by
  unfold modulus
  compute_degree!

theorem modulus_ne_zero : modulus ≠ 0 := by
  intro h
  have hd := natDegree_modulus
  rw [h, natDegree_zero] at hd
  omega

instance : Nontrivial GF := by
  apply AdjoinRoot.nontrivial
  rw [degree_eq_natDegree modulus_ne_zero, natDegree_modulus]
  decide

theorem add_self (x : GF) : x + x = 0 := ZModModule.add_self x

theorem root_pow_eight : root ^ 8 = root ^ 4 + root ^ 3 + root + 1 := by
  have h : AdjoinRoot.mk modulus (X ^ 8 + X ^ 4 + X ^ 3 + X + 1) = 0 := AdjoinRoot.mk_self
  simp only [map_add, map_pow, AdjoinRoot.mk_X, map_one] at h
  linear_combination h - add_self (root ^ 4 + root ^ 3 + root + 1)

theorem coefficient_xor (a b : UInt8) (i : Nat) :
    coefficient (a ^^^ b) i = coefficient a i + coefficient b i := by
  have hb : bit (a ^^^ b) i = (bit a i ^^ bit b i) := by
    rw [bit, UInt8.toNat_xor, Nat.testBit_xor]
    rfl
  unfold coefficient
  rw [hb]
  cases bit a i <;> cases bit b i <;> simp [add_self]

/-- Exclusive or is addition. -/
theorem element_xor (a b : UInt8) : element (a ^^^ b) = element a + element b := by
  simp only [element, coefficient_xor, add_mul, Finset.sum_add_distrib]

theorem element_zero : element 0 = 0 := by
  have h := element_xor 0 0
  rw [UInt8.xor_self] at h
  exact left_eq_add.mp h

theorem element_one : element 1 = 1 := by
  simp [element, coefficient, bit, Finset.sum_range_succ, Nat.testBit_succ]

/-- The bits move up by one place; the top one is added where the modulus has terms. -/
theorem bit_xtime (a : UInt8) {i : Nat} (h : i < 8) :
    bit (xtime a) i = ((decide (0 < i) && bit a (i - 1)) ^^ (bit a 7 && bit 0x1b i)) := by
  have hall := forall_octet (p := fun a => ∀ i < 8, bit (xtime a) i =
    ((decide (0 < i) && bit a (i - 1)) ^^ (bit a 7 && bit 0x1b i))) (by decide +kernel)
  exact hall a i h

theorem coefficient_xtime (a : UInt8) {i : Nat} (h : i < 8) :
    coefficient (xtime a) i =
      (if 0 < i then coefficient a (i - 1) else 0) + coefficient a 7 * coefficient 0x1b i := by
  unfold coefficient
  rw [bit_xtime a h]
  by_cases hi : 0 < i <;> cases bit a (i - 1) <;> cases bit a 7 <;> cases bit 0x1b i <;>
    simp [hi, add_self]

theorem element_xtime (a : UInt8) : element (xtime a) = root * element a := by
  have h27 : ∀ i < 8, coefficient 0x1b i = if i = 0 ∨ i = 1 ∨ i = 3 ∨ i = 4 then 1 else 0 := by
    intro i hi
    have hb : bit 0x1b i = decide (i = 0 ∨ i = 1 ∨ i = 3 ∨ i = 4) := by
      have hall : ∀ i < 8, bit 0x1b i = decide (i = 0 ∨ i = 1 ∨ i = 3 ∨ i = 4) := by decide
      exact hall i hi
    simp only [coefficient, hb, decide_eq_true_eq]
  have hsum : element (xtime a) = ∑ i ∈ Finset.range 8,
      ((if 0 < i then coefficient a (i - 1) else 0) +
        coefficient a 7 * if i = 0 ∨ i = 1 ∨ i = 3 ∨ i = 4 then 1 else 0) * root ^ i := by
    apply Finset.sum_congr rfl
    intro i hi
    rw [coefficient_xtime a (Finset.mem_range.mp hi), h27 i (Finset.mem_range.mp hi)]
  have hterms : element (xtime a) = coefficient a 7 + (coefficient a 0 + coefficient a 7) * root +
      coefficient a 1 * root ^ 2 + (coefficient a 2 + coefficient a 7) * root ^ 3 +
      (coefficient a 3 + coefficient a 7) * root ^ 4 + coefficient a 4 * root ^ 5 +
      coefficient a 5 * root ^ 6 + coefficient a 6 * root ^ 7 := by
    rw [hsum]
    simp [Finset.sum_range_succ]
  rw [hterms, element]
  simp only [Finset.sum_range_succ, Finset.sum_range_zero]
  linear_combination -coefficient a 7 * root_pow_eight

theorem coefficient_shiftRight (b : UInt8) (i : Nat) : coefficient (b >>> 1) i = coefficient b (i + 1) := by
  have hb : bit (b >>> 1) i = bit b (i + 1) := by
    rw [bit, UInt8.toNat_shiftRight, Nat.testBit_shiftRight, bit, Nat.add_comm]
    rfl
  rw [coefficient, hb, coefficient]

/-- Each bit of the second factor adds its multiple of the first one. -/
theorem element_mulInto (count : Nat) (a b product : UInt8) :
    element (mulInto count a b product) =
      element product + element a * ∑ i ∈ Finset.range count, coefficient b i * root ^ i := by
  induction count generalizing a b product with
  | zero => simp [mulInto]
  | succ count ih =>
    have hlow : element (if b &&& 1 = 0 then product else product ^^^ a) =
        element product + element a * coefficient b 0 := by
      have hall := forall_octet (p := fun b => b &&& 1 = 0 ↔ bit b 0 = false) (by decide +kernel)
      simp only [hall b, coefficient]
      cases bit b 0 <;> simp [element_xor]
    rw [mulInto, ih, hlow, element_xtime, Finset.sum_range_succ']
    simp only [coefficient_shiftRight, pow_succ, pow_zero, mul_one, ← mul_assoc, ← Finset.sum_mul]
    ring

theorem element_gmul (a b : UInt8) : element (gmul a b) = element a * element b := by
  rw [gmul, element_mulInto, element_zero, zero_add]
  rfl

def rotateLeft (a : UInt8) (count : UInt8) : UInt8 := (a <<< count) ||| (a >>> (8 - count))

/-- The reciprocal of an octet, which the substitution table holds under an affine map. -/
def reciprocal (a : UInt8) : UInt8 :=
  rotateLeft (sbox a) 1 ^^^ rotateLeft (sbox a) 3 ^^^ rotateLeft (sbox a) 6 ^^^ 0x05

theorem gmul_reciprocal {a : UInt8} (h : a ≠ 0) : gmul a (reciprocal a) = 1 := by
  have hall := forall_octet (p := fun a => a ≠ 0 → gmul a (reciprocal a) = 1) (by decide +kernel)
  exact hall a h

theorem element_mul_reciprocal {a : UInt8} (h : a ≠ 0) : element a * element (reciprocal a) = 1 := by
  rw [← element_gmul, gmul_reciprocal h, element_one]

theorem element_injective : Function.Injective element := by
  have hzero (d : UInt8) (hd : element d = 0) : d = 0 := by
    by_contra hne
    have hone := element_mul_reciprocal hne
    rw [hd, zero_mul] at hone
    exact zero_ne_one hone
  intro a b h
  have hsum : element (a ^^^ b) = 0 := by rw [element_xor, h, add_self]
  exact UInt8.xor_eq_zero_iff.mp (hzero _ hsum)

/-- Octets are closed under what polynomials are made of. -/
theorem element_surjective : Function.Surjective element := by
  intro x
  obtain ⟨p, rfl⟩ := AdjoinRoot.mk_surjective x
  induction p using Polynomial.induction_on with
  | C c =>
    have hc : ∀ c : ZMod 2, c = 0 ∨ c = 1 := by decide
    rcases hc c with rfl | rfl
    · exact ⟨0, by rw [element_zero, C_0, map_zero]⟩
    · exact ⟨1, by rw [element_one, C_1, map_one]⟩
  | add p q hp hq =>
    obtain ⟨a, ha⟩ := hp
    obtain ⟨b, hb⟩ := hq
    exact ⟨a ^^^ b, by rw [element_xor, ha, hb, map_add]⟩
  | monomial n c hn =>
    obtain ⟨a, ha⟩ := hn
    have hroot : root = AdjoinRoot.mk modulus X := AdjoinRoot.mk_X.symm
    refine ⟨xtime a, ?_⟩
    rw [element_xtime, ha, hroot, ← map_mul]
    congr 1
    ring

theorem isField : IsField GF where
  exists_pair_ne := ⟨0, 1, zero_ne_one⟩
  mul_comm := mul_comm
  mul_inv_cancel := by
    intro x hx
    obtain ⟨a, rfl⟩ := element_surjective x
    have ha : a ≠ 0 := by
      rintro rfl
      exact hx element_zero
    exact ⟨_, element_mul_reciprocal ha⟩

theorem irreducible_modulus : Irreducible modulus := by
  have hmax : (Ideal.span {modulus}).IsMaximal := Ideal.Quotient.maximal_of_isField _ isField
  exact ((Ideal.span_singleton_prime modulus_ne_zero).mp hmax.isPrime).irreducible

instance : Fact (Irreducible modulus) := ⟨irreducible_modulus⟩

/-- The octet that stands for an element. -/
noncomputable def octet (x : GF) : UInt8 := Function.invFun element x

@[simp] theorem octet_element (a : UInt8) : octet (element a) = a :=
  Function.leftInverse_invFun element_injective a

@[simp] theorem element_octet (x : GF) : element (octet x) = x :=
  Function.rightInverse_invFun element_surjective x

/-- Zero stands for its own reciprocal, as it does in the table. -/
theorem element_reciprocal (a : UInt8) : element (reciprocal a) = (element a)⁻¹ := by
  by_cases h : a = 0
  · have hr : reciprocal 0 = 0 := by decide +kernel
    rw [h, hr, element_zero, inv_zero]
  · exact eq_inv_of_mul_eq_one_right (element_mul_reciprocal h)

end CryptoSuite.Aes
