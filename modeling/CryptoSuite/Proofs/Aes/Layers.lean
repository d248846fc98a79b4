import CryptoSuite.Aes.Cipher
import CryptoSuite.Proofs.Aes.Mixing

/-! The layers of a round on blocks: each is undone by its inverse, substitution commutes with the
shifting of rows, and mixing is additive. -/
namespace CryptoSuite.Aes

/-- A table is inverse to another one whose entries, in order, it sends to their positions. -/
theorem getD_getD {t u : Array UInt8}
    (h : t.toList.map (fun x => u.getD x.toNat 0) = (List.range 256).map UInt8.ofNat) (a : UInt8) :
    u.getD (t.getD a.toNat 0).toNat 0 = a := by
  have ha : a.toNat < 256 := a.toNat_lt
  have hl : t.size = 256 := by simpa using congrArg List.length h
  have hg := congrArg (·[a.toNat]?) h
  simp only [List.getElem?_map, Array.getElem?_toList] at hg
  rw [Array.getElem?_eq_getElem (by omega), List.getElem?_range ha, Option.map_some, Option.map_some,
    UInt8.ofNat_toNat, Option.some.injEq] at hg
  have ht : t.getD a.toNat 0 = t[a.toNat] := by
    rw [Array.getD_eq_getD_getElem?, Array.getElem?_eq_getElem (by omega), Option.getD_some]
  rwa [ht]

theorem inverseSbox_sbox (a : UInt8) : inverseSbox (sbox a) = a :=
  getD_getD (t := sboxTable) (u := inverseSboxTable) (by decide +kernel) a

theorem sbox_inverseSbox (a : UInt8) : sbox (inverseSbox a) = a :=
  getD_getD (t := inverseSboxTable) (u := sboxTable) (by decide +kernel) a

namespace Block

theorem xor_xor_cancel (a b : Block) : (a.xor b).xor b = a := by
  ext i hi : 1
  rw [getElem_xor, getElem_xor, UInt8.xor_assoc, UInt8.xor_self, UInt8.xor_zero]

theorem inverseSubstitute_substitute (a : Block) : a.substitute.inverseSubstitute = a := by
  ext i hi : 1
  rw [getElem_inverseSubstitute, getElem_substitute, inverseSbox_sbox]

theorem substitute_inverseSubstitute (a : Block) : a.inverseSubstitute.substitute = a := by
  ext i hi : 1
  rw [getElem_substitute, getElem_inverseSubstitute, sbox_inverseSbox]

theorem inverseShiftRows_shiftRows (a : Block) : a.shiftRows.inverseShiftRows = a := by
  ext i hi : 1
  rw [getElem_inverseShiftRows, getElem_shiftRows]
  congr 1
  omega

theorem shiftRows_inverseShiftRows (a : Block) : a.inverseShiftRows.shiftRows = a := by
  ext i hi : 1
  rw [getElem_shiftRows, getElem_inverseShiftRows]
  congr 1
  omega

theorem inverseSubstitute_shiftRows (a : Block) :
    a.shiftRows.inverseSubstitute = a.inverseSubstitute.shiftRows := by
  ext i hi : 1
  rw [getElem_inverseSubstitute, getElem_shiftRows, getElem_shiftRows, getElem_inverseSubstitute]

theorem substitute_inverseShiftRows (a : Block) :
    a.inverseShiftRows.substitute = a.substitute.inverseShiftRows := by
  ext i hi : 1
  rw [getElem_substitute, getElem_inverseShiftRows, getElem_inverseShiftRows, getElem_substitute]

theorem getElem_column (a : Block) (c : Fin 4) (r : Nat) (h : r < 4) :
    (a.column c)[r] = a[4 * c.val + r] := by
  rcases (by omega : r = 0 ∨ r = 1 ∨ r = 2 ∨ r = 3) with rfl | rfl | rfl | rfl <;> rfl

theorem getElem_mapColumns (f : Word → Word) (a : Block) (i : Nat) (h : i < 16) :
    (mapColumns f a)[i] = (f (a.column ⟨i / 4, by omega⟩))[i % 4] := by
  simp [mapColumns]

theorem column_mapColumns (f : Word → Word) (a : Block) (c : Fin 4) :
    (mapColumns f a).column c = f (a.column c) := by
  ext r hr : 1
  have hc : (4 * c.val + r) / 4 = c.val := by omega
  have hm : (4 * c.val + r) % 4 = r := by omega
  rw [getElem_column, getElem_mapColumns]
  simp only [hc, hm]

theorem mapColumns_mapColumns {f g : Word → Word} (h : ∀ w, f (g w) = w) (a : Block) :
    mapColumns f (mapColumns g a) = a := by
  ext i hi : 1
  rw [getElem_mapColumns, column_mapColumns, h, getElem_column]
  congr 1
  exact Nat.div_add_mod i 4

theorem column_xor (a b : Block) (c : Fin 4) : (a.xor b).column c = (a.column c).xor (b.column c) := by
  ext r hr : 1
  rw [getElem_column, getElem_xor, Word.xor, Vector.getElem_zipWith, getElem_column, getElem_column]

theorem mapColumns_xor {f : Word → Word} (h : ∀ v w, f (v.xor w) = (f v).xor (f w)) (a b : Block) :
    mapColumns f (a.xor b) = (mapColumns f a).xor (mapColumns f b) := by
  ext i hi : 1
  rw [getElem_xor, getElem_mapColumns, getElem_mapColumns, getElem_mapColumns, column_xor, h, Word.xor,
    Vector.getElem_zipWith]

end Block

end CryptoSuite.Aes
