import CryptoSuite.Proofs.Aes.Key
import CryptoSuite.Proofs.Aes.Layers
import Mathlib.Logic.Function.Basic

/-! Decryption inverts encryption, and encryption inverts decryption. Both are one theorem about
transforms whose layers undo each other, over round keys in reverse order. -/
namespace CryptoSuite

namespace Aes

section Transform

variable {f g mix unmix : Block → Block} {key key' : Nat → Block} {rounds : Nat}

/-- The block after the first round key and `n` rounds. -/
def innerRounds (round : Block → Block → Block) (key : Nat → Block) (b : Block) (n : Nat) : Block :=
  (List.range n).foldl (fun b r => round b (key (r + 1))) (b.xor (key 0))

theorem innerRounds_succ (round : Block → Block → Block) (key : Nat → Block) (b : Block) (n : Nat) :
    innerRounds round key b (n + 1) = round (innerRounds round key b n) (key (n + 1)) := by
  rw [innerRounds, List.range_succ, List.foldl_append]
  rfl

/-- After `j` rounds on the way back the block is the one that stood `j` rounds before the end, in
front of the mixing. -/
theorem innerRounds_back (hf : ∀ b, g (f b) = b) (hm : ∀ b, unmix (mix b) = b)
    (hx : ∀ a b, unmix (a.xor b) = (unmix a).xor (unmix b)) (hfirst : key' 0 = key rounds)
    (hinner : ∀ r, 0 < r → r < rounds → key' r = unmix (key (rounds - r))) (b : Block) {j : Nat}
    (hj : j ≤ rounds - 1) :
    innerRounds (fun b k => (unmix (g b)).xor k) key'
        ((f (innerRounds (fun b k => (mix (f b)).xor k) key b (rounds - 1))).xor (key rounds)) j =
      f (innerRounds (fun b k => (mix (f b)).xor k) key b (rounds - 1 - j)) := by
  induction j with
  | zero =>
    change (Block.xor _ _).xor (key' 0) = _
    rw [hfirst, Block.xor_xor_cancel, Nat.sub_zero]
  | succ j ih =>
    obtain ⟨i, hi⟩ : ∃ i, rounds - 1 - j = i + 1 := ⟨rounds - 1 - j - 1, by omega⟩
    have hi' : rounds - 1 - (j + 1) = i := by omega
    have hk : rounds - (j + 1) = i + 1 := by omega
    rw [innerRounds_succ, ih (by omega), hf, hinner (j + 1) (by omega) (by omega), hk, hi,
      innerRounds_succ, hx, hm, Block.xor_xor_cancel, hi']

/-- A transform over the reversed round keys, the inner ones unmixed, undoes the transform. -/
theorem transform_transform (hf : ∀ b, g (f b) = b) (hm : ∀ b, unmix (mix b) = b)
    (hx : ∀ a b, unmix (a.xor b) = (unmix a).xor (unmix b)) (hfirst : key' 0 = key rounds)
    (hinner : ∀ r, 0 < r → r < rounds → key' r = unmix (key (rounds - r)))
    (hlast : key' rounds = key 0) (b : Block) :
    transform (fun b k => (unmix (g b)).xor k) (fun b k => (g b).xor k) key' rounds
      (transform (fun b k => (mix (f b)).xor k) (fun b k => (f b).xor k) key rounds b) = b := by
  have hback := innerRounds_back hf hm hx hfirst hinner b (Nat.le_refl (rounds - 1))
  rw [Nat.sub_self] at hback
  calc
    _ = (g (innerRounds (fun b k => (unmix (g b)).xor k) key'
          ((f (innerRounds (fun b k => (mix (f b)).xor k) key b (rounds - 1))).xor (key rounds))
          (rounds - 1))).xor (key' rounds) := rfl
    _ = (g (f (b.xor (key 0)))).xor (key 0) := by rw [hback, hlast]; rfl
    _ = b := by rw [hf, Block.xor_xor_cancel]

end Transform

section Schedule

theorem read_append_left {a b : Bytes} {start : Nat} (h : start + 16 ≤ a.length) :
    Block.read (a ++ b) start = Block.read a start := by
  ext i hi : 1
  rw [Block.getElem_read, Block.getElem_read, List.getD_eq_getElem?_getD, List.getD_eq_getElem?_getD,
    List.getElem?_append_left (by omega)]

theorem read_append_right (a : Bytes) (b : Block) : Block.read (a ++ b.toList) a.length = b := by
  ext i hi : 1
  rw [Block.getElem_read, List.getD_eq_getElem?_getD, List.getElem?_append_right (by omega),
    Nat.add_sub_cancel_left]
  simp [hi]

theorem Block.toList_read_of_le {b : Bytes} {start : Nat} (h : start + 16 ≤ b.length) :
    (read b start).toList = (b.drop start).take 16 := by
  apply List.ext_getElem
  · simp
    omega
  · intro i h₁ h₂
    rw [Vector.length_toList] at h₁
    have hi : start + i < b.length := by omega
    simp [List.getD_eq_getElem?_getD, hi]

theorem Block.toList_read {b : Bytes} (h : b.length = 16) : (read b 0).toList = b := by
  rw [toList_read_of_le (by omega), List.drop_zero, List.take_of_length_le (Nat.le_of_eq h)]

theorem Block.read_toList (b : Block) : read b.toList 0 = b := read_append_right [] b

theorem length_flatMap_blocks (p : Nat → Block) (n : Nat) :
    ((List.range n).flatMap fun r => (p r).toList).length = 16 * n := by
  induction n with
  | zero => rfl
  | succ n ih =>
    rw [List.range_succ, List.flatMap_append, List.length_append, ih]
    simp
    omega

/-- Blocks in a row are read back by their positions. -/
theorem read_flatMap (p : Nat → Block) {n r : Nat} (h : r < n) :
    Block.read ((List.range n).flatMap fun r => (p r).toList) (16 * r) = p r := by
  induction n with
  | zero => omega
  | succ n ih =>
    have hl := length_flatMap_blocks p n
    rw [List.range_succ, List.flatMap_append, List.flatMap_singleton]
    by_cases hr : r < n
    · rw [read_append_left (by omega), ih hr]
    · have hn : r = n := by omega
      rw [hn, ← hl, read_append_right]

theorem roundKey_decryptionSchedule (schedule : Bytes) {rounds r : Nat} (h : r ≤ rounds) :
    roundKey (decryptionSchedule schedule rounds) r =
      if r = 0 ∨ r = rounds then roundKey schedule (rounds - r)
      else (roundKey schedule (rounds - r)).inverseMixColumns :=
  read_flatMap _ (Nat.lt_succ_of_le h)

end Schedule

theorem inverse_layers (b : Block) : b.substitute.shiftRows.inverseSubstitute.inverseShiftRows = b := by
  rw [Block.inverseSubstitute_shiftRows, Block.inverseSubstitute_substitute,
    Block.inverseShiftRows_shiftRows]

theorem layers_inverse (b : Block) : b.inverseSubstitute.inverseShiftRows.substitute.shiftRows = b := by
  rw [Block.substitute_inverseShiftRows, Block.substitute_inverseSubstitute,
    Block.shiftRows_inverseShiftRows]

variable (schedule : Bytes) (rounds : Nat) (b : Block)

theorem decryptBlock_encryptBlock :
    decryptBlock (roundKey (decryptionSchedule schedule rounds)) rounds
      (encryptBlock (roundKey schedule) rounds b) = b := by
  refine transform_transform (f := fun b => b.substitute.shiftRows) inverse_layers
    (Block.mapColumns_mapColumns Word.inverseMix_mix) (Block.mapColumns_xor Word.inverseMix_xor)
    ?_ ?_ ?_ b
  · rw [roundKey_decryptionSchedule schedule (Nat.zero_le rounds), if_pos (.inl rfl), Nat.sub_zero]
  · intro r hr hlt
    rw [roundKey_decryptionSchedule schedule (by omega), if_neg (by omega)]
    rfl
  · rw [roundKey_decryptionSchedule schedule (Nat.le_refl rounds), if_pos (.inr rfl), Nat.sub_self]

theorem encryptBlock_decryptBlock :
    encryptBlock (roundKey schedule) rounds
      (decryptBlock (roundKey (decryptionSchedule schedule rounds)) rounds b) = b := by
  refine transform_transform (f := fun b => b.inverseSubstitute.inverseShiftRows) layers_inverse
    (Block.mapColumns_mapColumns Word.mix_inverseMix) (Block.mapColumns_xor Word.mix_xor) ?_ ?_ ?_ b
  · rw [roundKey_decryptionSchedule schedule (Nat.le_refl rounds), if_pos (.inr rfl), Nat.sub_self]
  · intro r hr hlt
    have hs : rounds - (rounds - r) = r := by omega
    rw [roundKey_decryptionSchedule schedule (by omega), if_neg (by omega), hs]
    exact (Block.mapColumns_mapColumns Word.mix_inverseMix _).symm
  · rw [roundKey_decryptionSchedule schedule (Nat.zero_le rounds), if_pos (.inl rfl), Nat.sub_zero]

theorem decipher_encipher (m : RoundMultiplier) (key : Bytes) (b : Block) :
    decipher m key (encipher m key b) = b := decryptBlock_encryptBlock _ _ b

theorem encipher_decipher (m : RoundMultiplier) (key : Bytes) (b : Block) :
    encipher m key (decipher m key b) = b := encryptBlock_decryptBlock _ _ b

end Aes

namespace AesKey

variable {κ : Type}

/-- Under the expanded keys of one key decryption and encryption invert each other, so each permutes
the blocks; and keys of the three lengths are expanded whenever memory is granted. -/
theorem decryption_inverts_encryption (m : RoundMultiplier) (key : Bytes) :
    (∀ (μ₁ ν₁ μ₂ ν₂ : Machine κ) (e d : AesKey),
      (encryption key m).runFrom μ₁ = (.ok e, ν₁) → (decryption key m).runFrom μ₂ = (.ok d, ν₂) →
      (∀ b, d.decryptBlock (e.encryptBlock b) = b) ∧ (∀ b, e.encryptBlock (d.decryptBlock b) = b) ∧
        Function.Bijective e.encryptBlock ∧ Function.Bijective d.decryptBlock) ∧
    (key.length = 16 ∨ key.length = 24 ∨ key.length = 32 →
      ∃ rounds, m.rounds? key.length = some rounds ∧
        (∀ μ : Machine κ, μ.Grants [16 * (rounds + 1)] →
          ∃ e ν, (encryption key m).runFrom μ = (.ok e, ν)) ∧
        ∀ μ : Machine κ, μ.Grants [16 * (rounds + 1), 16 * (rounds + 1)] →
          ∃ d ν, (decryption key m).runFrom μ = (.ok d, ν)) := by
  constructor
  · intro μ₁ ν₁ μ₂ ν₂ e d he hd
    rw [encryptBlock_of_runFrom_encryption he, decryptBlock_of_runFrom_decryption hd]
    have hde := Aes.decipher_encipher m key
    have hed := Aes.encipher_decipher m key
    exact ⟨hde, hed, ⟨Function.LeftInverse.injective hde, Function.RightInverse.surjective hed⟩,
      Function.LeftInverse.injective hed, Function.RightInverse.surjective hde⟩
  · intro hl
    obtain ⟨rounds, hr⟩ := Option.isSome_iff_exists.mp ((m.rounds?_isSome_iff key.length).mpr hl)
    exact ⟨rounds, hr, fun μ hg => ⟨_, _, runFrom_encryption_served hr hg.head⟩,
      fun μ hg => runFrom_decryption_served hr hg⟩

/-- Keys of the middle length at three times the rounds, on a new machine. -/
theorem decryption_inverts_encryption_triple : ∃ (e d : AesKey) (ν ν' : Machine Unit),
    (encryption (Bytes.zeros 24) .triple).runFrom Machine.system = (.ok e, ν) ∧
      (decryption (Bytes.zeros 24) .triple).runFrom Machine.system = (.ok d, ν') ∧
      (∀ b, d.decryptBlock (e.encryptBlock b) = b) ∧ ∀ b, e.encryptBlock (d.decryptBlock b) = b := by
  obtain ⟨hinverse, hexists⟩ :=
    decryption_inverts_encryption (κ := Unit) .triple (Bytes.zeros 24)
  obtain ⟨rounds, hr, henc, hdec⟩ := hexists (.inr (.inl rfl))
  obtain rfl : 36 = rounds := Option.some.inj hr
  obtain ⟨e, ν, he⟩ := henc Machine.system (Machine.system_grants (by decide))
  obtain ⟨d, ν', hd⟩ := hdec Machine.system (Machine.system_grants (by decide))
  obtain ⟨hde, hed, -⟩ := hinverse _ _ _ _ e d he hd
  exact ⟨e, d, ν, ν', he, hd, hde, hed⟩

end AesKey

end CryptoSuite
