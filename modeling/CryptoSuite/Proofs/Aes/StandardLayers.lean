import CryptoSuite.Proofs.Aes.Layers
import CryptoSuite.Proofs.Aes.Standard

/-! The layers of a round are those of the standard: the table is the inverse under the affine map, and
the shifts and sums of a column are a product of polynomials. -/
namespace CryptoSuite.Aes

open Polynomial

/-- The affine map undoes the one under which the table holds the reciprocals. -/
theorem affine_inverse (b : UInt8) :
    Standard.affine (rotateLeft b 1 ^^^ rotateLeft b 3 ^^^ rotateLeft b 6 ^^^ 0x05) = b :=
  forall_octet (p := fun b =>
    Standard.affine (rotateLeft b 1 ^^^ rotateLeft b 3 ^^^ rotateLeft b 6 ^^^ 0x05) = b)
    (by decide +kernel) b

theorem substitute_eq (a : UInt8) : Standard.substitute a = sbox a := by
  rw [Standard.substitute, ← element_reciprocal, octet_element, reciprocal, affine_inverse]

/-- Products modulo x^4 + 1 wrap around. -/
theorem modByMonic_wrap (c₀ c₁ c₂ c₃ c₄ c₅ c₆ : GF) :
    (C c₆ * X ^ 6 + C c₅ * X ^ 5 + C c₄ * X ^ 4 + C c₃ * X ^ 3 + C c₂ * X ^ 2 + C c₁ * X + C c₀) %ₘ
        (X ^ 4 + 1) =
      C c₃ * X ^ 3 + C (c₂ - c₆) * X ^ 2 + C (c₁ - c₅) * X + C (c₀ - c₄) := by
  have hm : (X ^ 4 + 1 : GF[X]).Monic := monic_X_pow_add_C 1 (by decide)
  refine (div_modByMonic_unique (C c₆ * X ^ 2 + C c₅ * X + C c₄) _ hm ⟨?_, ?_⟩).2
  · simp only [C_sub]
    ring
  · have hd : (X ^ 4 + 1 : GF[X]).degree = 4 := by
      compute_degree!
    rw [hd]
    exact lt_of_le_of_lt degree_cubic_le (by decide)

theorem element_mixRow (w x y z : UInt8) : element (mixRow w x y z) =
    root * element w + (root + 1) * element x + element y + element z := by
  simp only [mixRow, element_xor, element_xtime]
  ring

namespace Standard

theorem mixer_eq : mixer = C (root + 1) * X ^ 3 + X ^ 2 + X + C root := by
  have h2 : element 0x02 = root := by
    have hx : (0x02 : UInt8) = xtime 1 := by decide
    rw [hx, element_xtime, element_one, mul_one]
  have h3 : element 0x03 = root + 1 := by
    have hx : (0x03 : UInt8) = 0x02 ^^^ 1 := by decide
    rw [hx, element_xor, element_one, h2]
  rw [mixer, h2, h3, element_one, C_1, one_mul, one_mul]

/-- The coefficients of the product are the shifts and sums of the rows. -/
theorem mixer_mul (w : Word) : mixer * columnPolynomial w %ₘ (X ^ 4 + 1) =
    C (element (mixRow (w 3) (w 0) (w 1) (w 2))) * X ^ 3 +
      C (element (mixRow (w 2) (w 3) (w 0) (w 1))) * X ^ 2 +
      C (element (mixRow (w 1) (w 2) (w 3) (w 0))) * X +
      C (element (mixRow (w 0) (w 1) (w 2) (w 3))) := by
  have hcolumn : columnPolynomial w = C (element (w 0)) + C (element (w 1)) * X +
      C (element (w 2)) * X ^ 2 + C (element (w 3)) * X ^ 3 := by
    simp [columnPolynomial, Fin.sum_univ_four]
  have hproduct : mixer * columnPolynomial w =
      C ((root + 1) * element (w 3)) * X ^ 6 +
        C ((root + 1) * element (w 2) + element (w 3)) * X ^ 5 +
        C ((root + 1) * element (w 1) + element (w 2) + element (w 3)) * X ^ 4 +
        C ((root + 1) * element (w 0) + element (w 1) + element (w 2) + root * element (w 3)) * X ^ 3 +
        C (element (w 0) + element (w 1) + root * element (w 2)) * X ^ 2 +
        C (element (w 0) + root * element (w 1)) * X + C (root * element (w 0)) := by
    rw [mixer_eq, hcolumn]
    simp only [C_add, C_mul, C_1]
    ring
  rw [hproduct, modByMonic_wrap]
  -- subtraction is addition here, so the two sides differ in the order of their terms only
  simp only [ZModModule.sub_eq_add, element_mixRow, C_add, C_mul, C_1]
  ring

theorem mixColumn_eq (w : Word) : mixColumn w = fun r => (Word.mix (Vector.ofFn w))[r] := by
  have hw : Vector.ofFn w = #v[w 0, w 1, w 2, w 3] := by
    ext i hi : 1
    rcases (by omega : i = 0 ∨ i = 1 ∨ i = 2 ∨ i = 3) with rfl | rfl | rfl | rfl <;> rfl
  funext r
  rw [mixColumn, mixer_mul, hw, Word.mix_octets]
  fin_cases r <;> simp [coeff_X, coeff_C, coeff_X_pow]

@[simp] theorem toState_substitute (b : Block) : toState b.substitute = subBytes (toState b) := by
  funext r c
  simp only [toState, subBytes, substitute_eq, Block.getElem_substitute]

@[simp] theorem toState_shiftRows (b : Block) : toState b.shiftRows = shiftRows (toState b) := by
  funext r c
  simp only [toState, shiftRows, Block.getElem_shiftRows]
  congr 1
  rw [Fin.val_add]
  omega

@[simp] theorem toState_mixColumns (b : Block) : toState b.mixColumns = mixColumns (toState b) := by
  funext r c
  have hc : (r.val + 4 * c.val) / 4 = c.val := by omega
  have hr : (r.val + 4 * c.val) % 4 = r.val := by omega
  have hcolumn : b.column c = Vector.ofFn fun i => toState b i c := by
    ext i hi : 1
    rw [Block.getElem_column, Vector.getElem_ofFn, toState]
    congr 1
    exact Nat.add_comm _ _
  rw [mixColumns, mixColumn_eq, ← hcolumn]
  simp only [toState, Block.mixColumns, Block.getElem_mapColumns, hc, hr, Fin.getElem_fin]

theorem toState_xor (a b : Block) (r c : Fin 4) :
    toState (a.xor b) r c = toState a r c ^^^ toState b r c := by
  simp only [toState, Block.getElem_xor]

@[simp] theorem ofState_toState (b : Block) : ofState (toState b) = b := by
  ext i hi : 1
  simp only [ofState, toState, Vector.getElem_ofFn]
  congr 1
  exact Nat.mod_add_div i 4

end Standard

end CryptoSuite.Aes
