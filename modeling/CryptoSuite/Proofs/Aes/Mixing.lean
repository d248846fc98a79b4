import CryptoSuite.Aes.Block
import CryptoSuite.Proofs.Bytes.Octet

/-! The mixing of a column is additive and has order four, for which nothing is needed of the
multiplication by `x` but that it is additive. Its inverse is its third power. -/
namespace CryptoSuite.Aes

theorem xor_cancel (a b : UInt8) : a ^^^ (a ^^^ b) = b := by
  rw [← UInt8.xor_assoc, UInt8.xor_self, UInt8.zero_xor]

theorem xor_left_comm (a b c : UInt8) : a ^^^ (b ^^^ c) = b ^^^ (a ^^^ c) := by ac_rfl

/-- The reduction depends on the top bit only, and the top bits of a sum add. -/
theorem xtime_xor (a b : UInt8) : xtime (a ^^^ b) = xtime a ^^^ xtime b := by
  have htop := forall_octet (p := fun c : UInt8 => c >>> 7 = 0 ∨ c >>> 7 = 1) (by decide +kernel)
  have hr : ∀ x y : UInt8, x = 0 ∨ x = 1 → y = 0 ∨ y = 1 →
      ((x ^^^ y) &&& 1) * 0x1b = ((x &&& 1) * 0x1b) ^^^ ((y &&& 1) * 0x1b) := by
    rintro _ _ (rfl | rfl) (rfl | rfl) <;> decide
  rw [xtime, xtime, xtime, UInt8.shiftLeft_xor, UInt8.shiftRight_xor, hr _ _ (htop a) (htop b)]
  ac_rfl

theorem gmul_9 (a : UInt8) : gmul a 9 = a ^^^ xtime (xtime (xtime a)) := by
  change 0 ^^^ a ^^^ xtime (xtime (xtime a)) = _
  rw [UInt8.zero_xor]

theorem gmul_11 (a : UInt8) : gmul a 11 = a ^^^ xtime a ^^^ xtime (xtime (xtime a)) := by
  change 0 ^^^ a ^^^ xtime a ^^^ xtime (xtime (xtime a)) = _
  rw [UInt8.zero_xor]

theorem gmul_13 (a : UInt8) : gmul a 13 = a ^^^ xtime (xtime a) ^^^ xtime (xtime (xtime a)) := by
  change 0 ^^^ a ^^^ xtime (xtime a) ^^^ xtime (xtime (xtime a)) = _
  rw [UInt8.zero_xor]

theorem gmul_14 (a : UInt8) :
    gmul a 14 = xtime a ^^^ xtime (xtime a) ^^^ xtime (xtime (xtime a)) := by
  change 0 ^^^ xtime a ^^^ xtime (xtime a) ^^^ xtime (xtime (xtime a)) = _
  rw [UInt8.zero_xor]

/-- One row of the mixing of a column, which begins at the row's own octet. -/
def mixRow (w x y z : UInt8) : UInt8 := xtime w ^^^ xtime x ^^^ x ^^^ y ^^^ z

/-- What two mixings in a row amount to, between an octet and the one two rows away. -/
def squareRow (w y : UInt8) : UInt8 := w ^^^ xtime (xtime (w ^^^ y))

theorem mixRow_mixRow (w x y z : UInt8) :
    mixRow (mixRow w x y z) (mixRow x y z w) (mixRow y z w x) (mixRow z w x y) = squareRow w y := by
  simp only [mixRow, squareRow, xtime_xor, UInt8.xor_assoc, UInt8.xor_comm, xor_left_comm, xor_cancel]

theorem squareRow_squareRow (w y : UInt8) : squareRow (squareRow w y) (squareRow y w) = w := by
  have hs : squareRow w y ^^^ squareRow y w = w ^^^ y := by
    simp only [squareRow, UInt8.xor_comm, xor_left_comm, UInt8.xor_self, UInt8.xor_zero]
  rw [squareRow, hs, squareRow, UInt8.xor_assoc, UInt8.xor_self, UInt8.xor_zero]

/-- The inverse mixing is two mixings and then a third one. -/
theorem gmul_row (w x y z : UInt8) : gmul w 14 ^^^ gmul x 11 ^^^ gmul y 13 ^^^ gmul z 9 =
    mixRow (squareRow w y) (squareRow x z) (squareRow y w) (squareRow z x) := by
  simp only [gmul_9, gmul_11, gmul_13, gmul_14, mixRow, squareRow, xtime_xor, UInt8.xor_assoc,
    UInt8.xor_comm, xor_left_comm, xor_cancel]

theorem mixRow_xor (w x y z w' x' y' z' : UInt8) :
    mixRow (w ^^^ w') (x ^^^ x') (y ^^^ y') (z ^^^ z') = mixRow w x y z ^^^ mixRow w' x' y' z' := by
  simp only [mixRow, xtime_xor]
  ac_rfl

namespace Word

theorem exists_octets (a : Word) : ∃ w x y z, a = #v[w, x, y, z] := by
  refine ⟨a[0], a[1], a[2], a[3], ?_⟩
  ext i hi : 1
  rcases (by omega : i = 0 ∨ i = 1 ∨ i = 2 ∨ i = 3) with rfl | rfl | rfl | rfl <;> rfl

theorem octets_congr {w x y z w' x' y' z' : UInt8} (hw : w = w') (hx : x = x') (hy : y = y')
    (hz : z = z') : (#v[w, x, y, z] : Word) = #v[w', x', y', z'] := by
  rw [hw, hx, hy, hz]

theorem xor_octets (w x y z w' x' y' z' : UInt8) :
    xor #v[w, x, y, z] #v[w', x', y', z'] = #v[w ^^^ w', x ^^^ x', y ^^^ y', z ^^^ z'] := by
  simp [xor]

theorem mix_octets (w x y z : UInt8) :
    mix #v[w, x, y, z] = #v[mixRow w x y z, mixRow x y z w, mixRow y z w x, mixRow z w x y] := by
  change #v[xtime w ^^^ xtime x ^^^ x ^^^ y ^^^ z, w ^^^ xtime x ^^^ xtime y ^^^ y ^^^ z,
    w ^^^ x ^^^ xtime y ^^^ xtime z ^^^ z, xtime w ^^^ w ^^^ x ^^^ y ^^^ xtime z] = _
  apply octets_congr <;>
    simp only [mixRow] <;>
    ac_rfl

theorem mix_mix_octets (w x y z : UInt8) : mix (mix #v[w, x, y, z]) =
    #v[squareRow w y, squareRow x z, squareRow y w, squareRow z x] := by
  rw [mix_octets, mix_octets]
  apply octets_congr <;> exact mixRow_mixRow _ _ _ _

/-- Mixing four times is the identity. -/
theorem mix_mix_mix_mix (a : Word) : mix (mix (mix (mix a))) = a := by
  obtain ⟨w, x, y, z, rfl⟩ := exists_octets a
  rw [mix_mix_octets, mix_mix_octets]
  apply octets_congr <;> exact squareRow_squareRow _ _

theorem inverseMix_eq (a : Word) : inverseMix a = mix (mix (mix a)) := by
  obtain ⟨w, x, y, z, rfl⟩ := exists_octets a
  rw [mix_mix_octets, mix_octets]
  apply octets_congr
  · exact gmul_row _ _ _ _
  all_goals
    refine Eq.trans ?_ (gmul_row _ _ _ _)
    ac_rfl

theorem inverseMix_mix (a : Word) : inverseMix (mix a) = a := by
  rw [inverseMix_eq, mix_mix_mix_mix]

theorem mix_inverseMix (a : Word) : mix (inverseMix a) = a := by
  rw [inverseMix_eq, mix_mix_mix_mix]

theorem mix_xor (a b : Word) : mix (a.xor b) = (mix a).xor (mix b) := by
  obtain ⟨w, x, y, z, rfl⟩ := exists_octets a
  obtain ⟨w', x', y', z', rfl⟩ := exists_octets b
  rw [xor_octets, mix_octets, mix_octets, mix_octets, xor_octets]
  apply octets_congr <;> exact mixRow_xor _ _ _ _ _ _ _ _

theorem inverseMix_xor (a b : Word) : inverseMix (a.xor b) = (inverseMix a).xor (inverseMix b) := by
  simp only [inverseMix_eq, mix_xor]

end Word

end CryptoSuite.Aes
