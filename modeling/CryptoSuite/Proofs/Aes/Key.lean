import CryptoSuite.Aes.Key
import CryptoSuite.Proofs.Memory.Grants
import Mathlib.Tactic.SplitIfs

/-! The cipher under a key as a function on blocks, and the expanded keys that compute it. -/
namespace CryptoSuite

namespace Aes

/-- The block cipher under a key. A length that the cipher does not have counts as no rounds. -/
def encipher (m : RoundMultiplier) (key : Bytes) (b : Block) : Block :=
  let rounds := (m.rounds? key.length).getD 0
  encryptBlock (roundKey (encryptionSchedule key rounds)) rounds b

/-- The inverse transform under a key, by the equivalent inverse cipher. -/
def decipher (m : RoundMultiplier) (key : Bytes) (b : Block) : Block :=
  let rounds := (m.rounds? key.length).getD 0
  decryptBlock (roundKey (decryptionSchedule (encryptionSchedule key rounds) rounds)) rounds b

theorem Word.length_split (b : Bytes) : (Word.split b).length = b.length / 4 := by
  fun_induction Word.split b with
  | case1 a b c d rest ih =>
    simp only [List.length_cons, ih]
    omega
  | case2 b hb =>
    rcases b with _ | ⟨a, _ | ⟨b, _ | ⟨c, _ | ⟨d, t⟩⟩⟩⟩ <;> first | exact absurd rfl (hb _ _ _ _ _) | simp

theorem Expansion.size_next (keyWords : Nat) (e : Expansion) :
    (e.next keyWords).words.size = e.words.size + 1 := by
  unfold Expansion.next
  dsimp only
  split_ifs <;> exact Array.size_push _

theorem Expansion.size_repeat (keyWords n : Nat) (e : Expansion) :
    (Nat.repeat (Expansion.next keyWords) n e).words.size = e.words.size + n := by
  induction n with
  | zero => rfl
  | succ n ih => rw [Nat.repeat, Expansion.size_next, ih, Nat.add_assoc]

theorem length_wordBytes (words : Array Word) : (wordBytes words).length = 4 * words.size := by
  rw [wordBytes, ← Array.length_toList]
  induction words.toList with
  | nil => rfl
  | cons w ws ih =>
    rw [List.flatMap_cons, List.length_append, ih, Vector.length_toList, List.length_cons]
    omega

/-- A schedule has one block more than there are rounds. -/
theorem length_encryptionSchedule {key : Bytes} {rounds : Nat} (h : key.length / 4 ≤ 4 * (rounds + 1)) :
    (encryptionSchedule key rounds).length = 16 * (rounds + 1) := by
  have hs : (Expansion.start key).words.size = key.length / 4 := Word.length_split key
  rw [encryptionSchedule, length_wordBytes, Expansion.size_repeat, hs]
  omega

end Aes

namespace RoundMultiplier

/-- The cipher has keys of four, six and eight words, whatever the multiplier. -/
theorem rounds?_isSome_iff (m : RoundMultiplier) (length : Nat) :
    (m.rounds? length).isSome ↔ length = 16 ∨ length = 24 ∨ length = 32 := by
  unfold rounds?
  split_ifs <;> simp_all

theorem rounds?_eq (m : RoundMultiplier) {length : Nat} (h : length = 16 ∨ length = 24 ∨ length = 32) :
    m.rounds? length = some (m.factor * (length / 4 + 6)) := by
  rcases h with rfl | rfl | rfl <;> simp [rounds?, Nat.mul_comm]

theorem rounds?_pos {m : RoundMultiplier} {length rounds : Nat}
    (h : m.rounds? length = some rounds) : 10 ≤ rounds ∧ rounds ≤ 56 := by
  unfold rounds? at h
  cases m <;> split_ifs at h <;> cases h <;> simp [factor]

/-- A key is never longer than the schedule made from it. -/
theorem keyWords_le {m : RoundMultiplier} {length rounds : Nat} (h : m.rounds? length = some rounds) :
    length / 4 ≤ 4 * (rounds + 1) := by
  have hp := (rounds?_pos h).1
  have hl := (m.rounds?_isSome_iff length).mp (by rw [h, Option.isSome_some])
  omega

end RoundMultiplier

namespace AesKey

variable {κ : Type} {μ ν : Machine κ} {key : Bytes} {m : RoundMultiplier} {rounds : Nat} {k : AesKey}

theorem of_runFrom_storage {size : Nat} {b : Buffer}
    (h : (storage size).runFrom μ = (.ok b, ν)) : b = Buffer.served μ size ∧ ν = μ.requested size :=
  (Buffer.of_runFrom_new (Fallible.of_runFrom_adapt h)).2.2

theorem runFrom_storage_served {size : Nat} (hs : 0 < size)
    (h : μ.heap.policy μ.heap.requests.length size = some size) :
    (storage size).runFrom μ = (.ok (Buffer.served μ size), μ.requested size) :=
  Fallible.runFrom_adapt_ok (Buffer.runFrom_new_served hs h)

theorem of_runFrom_encryption (h : (encryption key m).runFrom μ = (.ok k, ν)) :
    ∃ rounds, m.rounds? key.length = some rounds ∧
      k = ⟨(Buffer.served μ (16 * (rounds + 1))).setBytes (Aes.encryptionSchedule key rounds),
        rounds⟩ ∧ ν = μ.requested (16 * (rounds + 1)) := by
  rw [encryption] at h
  cases hr : m.rounds? key.length with
  | none => simp [hr] at h
  | some rounds =>
    simp only [hr] at h
    obtain ⟨b, hb, rfl⟩ := Fallible.of_runFrom_bind_pure h
    obtain ⟨rfl, rfl⟩ := of_runFrom_storage hb
    exact ⟨rounds, rfl, rfl, rfl⟩

theorem runFrom_encryption_served (hr : m.rounds? key.length = some rounds)
    (h : μ.heap.policy μ.heap.requests.length (16 * (rounds + 1)) = some (16 * (rounds + 1))) :
    (encryption key m).runFrom μ =
      (.ok ⟨(Buffer.served μ (16 * (rounds + 1))).setBytes (Aes.encryptionSchedule key rounds),
        rounds⟩, μ.requested (16 * (rounds + 1))) := by
  simp only [encryption, hr]
  rw [Fallible.runFrom_bind_ok (runFrom_storage_served (by omega) h)]
  rfl

theorem encryptBlock_of_runFrom_encryption (h : (encryption key m).runFrom μ = (.ok k, ν)) :
    k.encryptBlock = Aes.encipher m key := by
  obtain ⟨rounds, hr, rfl, -⟩ := of_runFrom_encryption h
  funext b
  simp only [encryptBlock, Aes.encipher, hr, Option.getD_some]
  rfl

/-- A decryption key holds the inverse schedule; the encryption schedule is given back. -/
theorem of_runFrom_decryption (h : (decryption key m).runFrom μ = (.ok k, ν)) :
    ∃ rounds, m.rounds? key.length = some rounds ∧ k.rounds = rounds ∧
      k.schedule.bytes = Aes.decryptionSchedule (Aes.encryptionSchedule key rounds) rounds := by
  obtain ⟨e, μ₁, he, h⟩ := Fallible.of_runFrom_bind h
  obtain ⟨rounds, hr, rfl, -⟩ := of_runFrom_encryption he
  obtain ⟨b, μ₂, -, h⟩ := Fallible.of_runFrom_bind h
  rw [Fallible.runFrom_bind_ok (Fallible.runFrom_perform _ μ₂), Fallible.runFrom_pure] at h
  cases h
  exact ⟨rounds, hr, rfl, rfl⟩

theorem runFrom_decryption_served (hr : m.rounds? key.length = some rounds)
    (h : μ.Grants [16 * (rounds + 1), 16 * (rounds + 1)]) :
    ∃ k ν, (decryption key m).runFrom μ = (.ok k, ν) := by
  have he := runFrom_encryption_served hr h.head
  have hl := Aes.length_encryptionSchedule (RoundMultiplier.keyWords_le hr)
  have hb := runFrom_storage_served (by omega) h.tail.head
  rw [decryption, Fallible.runFrom_bind_ok he]
  simp only [Buffer.size, Buffer.bytes_setBytes, hl]
  rw [Fallible.runFrom_bind_ok (Fallible.runFrom_releasing_ok hb),
    Fallible.runFrom_bind_ok (Fallible.runFrom_perform _ _), Fallible.runFrom_pure]
  exact ⟨_, _, rfl⟩

theorem decryptBlock_of_runFrom_decryption (h : (decryption key m).runFrom μ = (.ok k, ν)) :
    k.decryptBlock = Aes.decipher m key := by
  obtain ⟨rounds, hr, hk, hs⟩ := of_runFrom_decryption h
  funext b
  unfold decryptBlock roundKey
  rw [hk, hs, Aes.decipher, hr, Option.getD_some]

end AesKey

end CryptoSuite
