import CryptoSuite.Proofs.Aes.Expansion

/-! Encryption is the cipher of the standard at any multiple of its rounds. -/
namespace CryptoSuite

namespace Aes.Standard

variable {key : Bytes} {keys : Nat → Block} {rounds : Nat}

/-- Round keys that are the words of the expanded key, four by four. -/
def Spells (keys : Nat → Block) (key : Bytes) (rounds : Nat) : Prop :=
  ∀ round ≤ rounds, ∀ r c : Fin 4, toState (keys round) r c = word key (4 * round + c) r

theorem spells_encryptionSchedule (hk : 0 < key.length / 4) (h : key.length / 4 ≤ 4 * (rounds + 1)) :
    Spells (roundKey (encryptionSchedule key rounds)) key rounds := by
  intro round hr r c
  have hi : 16 * round + (r.val + 4 * c.val) = 4 * (4 * round + c.val) + r.val := by omega
  rw [toState, roundKey, Block.getElem_read, encryptionSchedule_eq hk h, hi,
    getD_expandedKey key (by omega)]

namespace Spells

theorem toState_xor (h : Spells keys key rounds) {round : Nat} (hr : round ≤ rounds) (b : Block) :
    toState (b.xor (keys round)) = addRoundKey key round (toState b) := by
  funext r c
  rw [Standard.toState_xor, h round hr, addRoundKey]

/-- Round by round the state of the block is the state of the standard. -/
theorem toState_inner (h : Spells keys key rounds) (b : Block) {n : Nat} (hn : n ≤ rounds) :
    toState ((List.range n).foldl (fun b r => encryptRound b (keys (r + 1))) (b.xor (keys 0))) =
      (List.range n).foldl
        (fun s i => addRoundKey key (i + 1) (mixColumns (shiftRows (subBytes s))))
        (addRoundKey key 0 (toState b)) := by
  induction n with
  | zero => exact h.toState_xor (Nat.zero_le rounds) b
  | succ n ih =>
    rw [List.range_succ, List.foldl_concat, List.foldl_concat, ← ih (by omega), encryptRound,
      h.toState_xor hn, toState_mixColumns, toState_shiftRows, toState_substitute]

theorem encryptBlock_eq (h : Spells keys key rounds) (b : Block) :
    encryptBlock keys rounds b = cipher key rounds b := by
  have hstate : toState (encryptBlock keys rounds b) = cipherState key rounds (toState b) := by
    rw [encryptBlock, transform, h.toState_xor (Nat.le_refl rounds), toState_shiftRows,
      toState_substitute, h.toState_inner b (Nat.sub_le rounds 1), cipherState]
  rw [cipher, ← hstate, ofState_toState]

end Spells

end Aes.Standard

namespace AesKey

variable {κ : Type}

/-- Under keys of four, six and eight words and every multiplier encryption is the cipher of the standard
with its rounds multiplied, over a schedule that is the expanded key of the standard; and such keys are
expanded whenever memory is granted. -/
theorem encryption_standard (m : RoundMultiplier) (key : Bytes)
    (h : key.length = 16 ∨ key.length = 24 ∨ key.length = 32) :
    let rounds := m.factor * (key.length / 4 + 6)
    (∀ μ : Machine κ, μ.Grants [16 * (rounds + 1)] → ∃ e ν, (encryption key m).runFrom μ = (.ok e, ν)) ∧
      ∀ (μ ν : Machine κ) (e : AesKey), (encryption key m).runFrom μ = (.ok e, ν) →
        e.rounds = rounds ∧
        e.schedule.bytes = Aes.Standard.expandedKey key (4 * (rounds + 1)) ∧
        ∀ b, e.encryptBlock b = Aes.Standard.cipher key rounds b := by
  intro rounds
  have hr : m.rounds? key.length = some rounds := m.rounds?_eq h
  have hk : 0 < key.length / 4 := by omega
  have hle := RoundMultiplier.keyWords_le hr
  constructor
  · intro μ hg
    exact ⟨_, _, runFrom_encryption_served hr hg.head⟩
  · intro μ ν e he
    obtain ⟨rounds', hr', rfl, -⟩ := of_runFrom_encryption he
    obtain rfl : rounds = rounds' := Option.some.inj (hr.symm.trans hr')
    exact ⟨rfl, Aes.encryptionSchedule_eq hk hle,
      (Aes.Standard.spells_encryptionSchedule hk hle).encryptBlock_eq⟩

/-- Keys of the longest kind at four times the rounds, on a new machine. -/
theorem encryption_standard_quadruple : ∃ (e : AesKey) (ν : Machine Unit),
    (encryption (Bytes.zeros 32) .quadruple).runFrom Machine.system = (.ok e, ν) ∧
      e.schedule.bytes = Aes.Standard.expandedKey (Bytes.zeros 32) 228 ∧
      ∀ b, e.encryptBlock b = Aes.Standard.cipher (Bytes.zeros 32) 56 b := by
  obtain ⟨hserved, hstandard⟩ :=
    encryption_standard (κ := Unit) .quadruple (Bytes.zeros 32) (.inr (.inr rfl))
  obtain ⟨e, ν, he⟩ := hserved Machine.system (Machine.system_grants (by decide))
  obtain ⟨-, hs, hb⟩ := hstandard _ _ e he
  exact ⟨e, ν, he, hs, hb⟩

end AesKey

end CryptoSuite
