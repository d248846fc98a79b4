import CryptoSuite.Proofs.Aes.Inverse
import CryptoSuite.Proofs.Bytes.Chunks

/-! Schedules of one key for different numbers of rounds. The expansion only ever appends words, so the schedule
for fewer rounds is where the one for more rounds begins, and both begin with the key; and a schedule for
decryption is one for encryption read from its end, with the inner round keys unmixed. -/
namespace CryptoSuite

namespace Aes

namespace Expansion

theorem words_prefix_next (keyWords : Nat) (e : Expansion) :
    e.words.toList <+: (e.next keyWords).words.toList := by
  unfold next
  dsimp only
  split_ifs <;> simp only [Array.toList_push, List.prefix_append]

theorem words_prefix_repeat (keyWords : Nat) (e : Expansion) {m n : Nat} (h : m ≤ n) :
    (Nat.repeat (next keyWords) m e).words.toList <+: (Nat.repeat (next keyWords) n e).words.toList := by
  induction h with
  | refl => exact List.prefix_refl _
  | step _ ih => exact ih.trans (words_prefix_next keyWords _)

end Expansion

theorem wordBytes_prefix {v w : Array Word} (h : v.toList <+: w.toList) : wordBytes v <+: wordBytes w := by
  obtain ⟨rest, hr⟩ := h
  unfold wordBytes
  rw [← hr, List.flatMap_append]
  exact List.prefix_append _ _

/-- The words of a whole number of words are the string again. -/
theorem Word.flatMap_split {b : Bytes} (h : b.length % 4 = 0) : (split b).flatMap Vector.toList = b := by
  fun_induction split b with
  | case1 a b c d rest ih =>
    simp only [List.length_cons] at h
    rw [List.flatMap_cons, ih (by omega)]
    rfl
  | case2 b hb =>
    rcases b with _ | ⟨a, _ | ⟨b, _ | ⟨c, _ | ⟨d, t⟩⟩⟩⟩
    · rfl
    all_goals simp at h
    exact absurd rfl (hb a b c d t)

theorem encryptionSchedule_prefix (key : Bytes) {rounds rounds' : Nat} (h : rounds ≤ rounds') :
    encryptionSchedule key rounds <+: encryptionSchedule key rounds' := by
  unfold encryptionSchedule
  apply wordBytes_prefix
  apply Expansion.words_prefix_repeat
  omega

theorem key_prefix_encryptionSchedule {key : Bytes} (h : key.length % 4 = 0) (rounds : Nat) :
    key <+: encryptionSchedule key rounds := by
  have hkey : wordBytes (Expansion.start key).words = key := Word.flatMap_split h
  have hp := Expansion.words_prefix_repeat (key.length / 4) (Expansion.start key)
    (Nat.zero_le (4 * (rounds + 1) - key.length / 4))
  have hw := wordBytes_prefix hp
  rwa [Nat.repeat, hkey] at hw

/-- The pieces of a schedule are its round keys. -/
theorem chunks_schedule {schedule : Bytes} {n : Nat} (h : schedule.length = 16 * n) :
    Bytes.chunks blockSize schedule = (List.range n).map fun r => (roundKey schedule r).toList := by
  rw [blockSize, Bytes.chunks_eq_map_range (by omega) h]
  apply List.map_congr_left
  intro r hr
  rw [List.mem_range] at hr
  rw [roundKey, Block.toList_read_of_le (by omega)]

/-- The round keys of a schedule in their order, the columns of all but the first and the last unmixed. -/
def unmixedKeys (schedule : Bytes) (rounds : Nat) : List Bytes :=
  (Bytes.chunks blockSize schedule).mapIdx fun round k =>
    if round = 0 ∨ round = rounds then k else (Block.read k 0).inverseMixColumns.toList

theorem reverse_chunks_decryptionSchedule {schedule : Bytes} {rounds : Nat}
    (h : schedule.length = 16 * (rounds + 1)) :
    (Bytes.chunks blockSize (decryptionSchedule schedule rounds)).reverse = unmixedKeys schedule rounds := by
  have hl : (decryptionSchedule schedule rounds).length = 16 * (rounds + 1) := length_flatMap_blocks _ _
  unfold unmixedKeys
  rw [chunks_schedule hl, chunks_schedule h]
  apply List.ext_getElem
  · simp
  · intro r h₁ h₂
    simp only [List.length_reverse, List.length_map, List.length_range] at h₁
    have hr : rounds - (rounds - r) = r := by omega
    have hends : (rounds - r = 0 ∨ rounds - r = rounds) ↔ (r = 0 ∨ r = rounds) := by omega
    simp only [List.getElem_reverse, List.getElem_map, List.getElem_range, List.length_map,
      List.length_range, List.getElem_mapIdx, Nat.add_sub_cancel]
    rw [roundKey_decryptionSchedule schedule (by omega), hr]
    simp only [hends]
    split_ifs
    · rfl
    · rw [Block.read_toList]

end Aes

theorem RoundMultiplier.rounds?_mono {m m' : RoundMultiplier} (h : m.factor ≤ m'.factor)
    {length rounds rounds' : Nat} (hr : m.rounds? length = some rounds)
    (hr' : m'.rounds? length = some rounds') : rounds ≤ rounds' := by
  have hl := (m.rounds?_isSome_iff length).mp (by rw [hr, Option.isSome_some])
  rw [m.rounds?_eq hl, Option.some.injEq] at hr
  rw [m'.rounds?_eq hl, Option.some.injEq] at hr'
  rw [← hr, ← hr']
  exact Nat.mul_le_mul_right _ h

namespace AesKey

variable {κ : Type} {key : Bytes} {m m' : RoundMultiplier} {e e' d : AesKey}

/-- An encryption schedule has one block more than rounds, and begins with the key. -/
theorem schedule_of_runFrom_encryption {μ ν : Machine κ} (h : (encryption key m).runFrom μ = (.ok e, ν)) :
    m.rounds? key.length = some e.rounds ∧
      e.schedule.bytes = Aes.encryptionSchedule key e.rounds ∧
      e.schedule.size = 16 * (e.rounds + 1) ∧ key <+: e.schedule.bytes := by
  obtain ⟨rounds, hr, rfl, -⟩ := of_runFrom_encryption h
  have hl := (m.rounds?_isSome_iff key.length).mp (by rw [hr, Option.isSome_some])
  have hkey : key.length % 4 = 0 := by omega
  exact ⟨hr, rfl, Aes.length_encryptionSchedule (RoundMultiplier.keyWords_le hr),
    Aes.key_prefix_encryptionSchedule hkey rounds⟩

theorem schedule_of_runFrom_decryption {μ ν : Machine κ} (h : (decryption key m).runFrom μ = (.ok d, ν)) :
    m.rounds? key.length = some d.rounds ∧ d.schedule.size = 16 * (d.rounds + 1) ∧
      (Bytes.chunks Aes.blockSize d.schedule.bytes).reverse =
        Aes.unmixedKeys (Aes.encryptionSchedule key d.rounds) d.rounds := by
  obtain ⟨rounds, hr, rfl, hs⟩ := of_runFrom_decryption h
  have hl := Aes.length_encryptionSchedule (RoundMultiplier.keyWords_le hr)
  refine ⟨hr, ?_, ?_⟩
  · rw [Buffer.size, hs]
    exact Aes.length_flatMap_blocks _ _
  · rw [hs]
    exact Aes.reverse_chunks_decryptionSchedule hl

/-- For every key of the three lengths the schedules exist wherever memory is granted. The one for more rounds
goes on where the one for fewer ends, both begin with the key, and the schedule for decryption, read backwards
round key by round key, is the schedule for encryption with its inner round keys unmixed. -/
theorem schedules_extend (hl : key.length = 16 ∨ key.length = 24 ∨ key.length = 32)
    (hm : m.factor ≤ m'.factor) : ∃ rounds rounds',
    m.rounds? key.length = some rounds ∧ m'.rounds? key.length = some rounds' ∧
    (∀ (μ ν μ' ν' : Machine κ) (e e' : AesKey), (encryption key m).runFrom μ = (.ok e, ν) →
      (encryption key m').runFrom μ' = (.ok e', ν') →
        e.rounds = rounds ∧ e'.rounds = rounds' ∧
        e.schedule.size = 16 * (rounds + 1) ∧ e'.schedule.size = 16 * (rounds' + 1) ∧
        e.schedule.bytes <+: e'.schedule.bytes ∧ key <+: e.schedule.bytes ∧ key <+: e'.schedule.bytes) ∧
    (∀ (μ ν μ' ν' : Machine κ) (e d : AesKey), (encryption key m).runFrom μ = (.ok e, ν) →
      (decryption key m).runFrom μ' = (.ok d, ν') →
        d.rounds = rounds ∧ d.schedule.size = 16 * (rounds + 1) ∧
        (Bytes.chunks Aes.blockSize d.schedule.bytes).reverse = Aes.unmixedKeys e.schedule.bytes rounds) ∧
    (∀ b : Aes.Block, b.mixColumns.inverseMixColumns = b ∧ b.inverseMixColumns.mixColumns = b) ∧
    (∀ μ : Machine κ, μ.Grants [16 * (rounds + 1)] → ∃ e ν, (encryption key m).runFrom μ = (.ok e, ν)) ∧
    (∀ μ : Machine κ, μ.Grants [16 * (rounds' + 1)] → ∃ e ν, (encryption key m').runFrom μ = (.ok e, ν)) ∧
    ∀ μ : Machine κ, μ.Grants [16 * (rounds + 1), 16 * (rounds + 1)] →
      ∃ d ν, (decryption key m).runFrom μ = (.ok d, ν) := by
  have hr := m.rounds?_eq hl
  have hr' := m'.rounds?_eq hl
  refine ⟨_, _, hr, hr', ?_, ?_, ?_, ?_, ?_, ?_⟩
  · intro μ ν μ' ν' e e' he he'
    obtain ⟨hrounds, hbytes, hsize, hkey⟩ := schedule_of_runFrom_encryption he
    obtain ⟨hrounds', hbytes', hsize', hkey'⟩ := schedule_of_runFrom_encryption he'
    have hle := RoundMultiplier.rounds?_mono hm hrounds hrounds'
    rw [hr, Option.some.injEq] at hrounds
    rw [hr', Option.some.injEq] at hrounds'
    refine ⟨hrounds.symm, hrounds'.symm, ?_, ?_, ?_, hkey, hkey'⟩
    · rw [hsize, hrounds]
    · rw [hsize', hrounds']
    · rw [hbytes, hbytes']
      exact Aes.encryptionSchedule_prefix key hle
  · intro μ ν μ' ν' e d he hd
    obtain ⟨hrounds, hbytes, -⟩ := schedule_of_runFrom_encryption he
    obtain ⟨hrounds', hsize, hkeys⟩ := schedule_of_runFrom_decryption hd
    rw [hr, Option.some.injEq] at hrounds hrounds'
    rw [hbytes, ← hrounds, hrounds']
    exact ⟨rfl, hsize, hkeys⟩
  · intro b
    exact ⟨Aes.Block.mapColumns_mapColumns Aes.Word.inverseMix_mix b,
      Aes.Block.mapColumns_mapColumns Aes.Word.mix_inverseMix b⟩
  · intro μ hg
    exact ⟨_, _, runFrom_encryption_served hr hg.head⟩
  · intro μ hg
    exact ⟨_, _, runFrom_encryption_served hr' hg.head⟩
  · intro μ hg
    exact runFrom_decryption_served hr hg

/-- A key of the middle length with the standard rounds and with four times as many, on a new machine. -/
theorem schedules_extend_quadruple : ∃ (e e' d : AesKey) (ν ν' ν'' : Machine Unit),
    (encryption (Bytes.zeros 24) .fips).runFrom Machine.system = (.ok e, ν) ∧
    (encryption (Bytes.zeros 24) .quadruple).runFrom Machine.system = (.ok e', ν') ∧
    (decryption (Bytes.zeros 24) .fips).runFrom Machine.system = (.ok d, ν'') ∧
    e.schedule.size = 208 ∧ e'.schedule.size = 784 ∧ e.schedule.bytes <+: e'.schedule.bytes ∧
    Bytes.zeros 24 <+: e.schedule.bytes ∧
    (Bytes.chunks Aes.blockSize d.schedule.bytes).reverse = Aes.unmixedKeys e.schedule.bytes 12 := by
  have hl : (Bytes.zeros 24).length = 16 ∨ (Bytes.zeros 24).length = 24 ∨ (Bytes.zeros 24).length = 32 :=
    .inr (.inl rfl)
  have hm : RoundMultiplier.fips.factor ≤ RoundMultiplier.quadruple.factor := by decide
  obtain ⟨rounds, rounds', hr, hr', henc, hdec, -, hmake, hmake', hmaked⟩ := schedules_extend (κ := Unit) hl hm
  obtain rfl : 12 = rounds := Option.some.inj hr
  obtain rfl : 48 = rounds' := Option.some.inj hr'
  obtain ⟨e, ν, he⟩ := hmake Machine.system (Machine.system_grants (by decide))
  obtain ⟨e', ν', he'⟩ := hmake' Machine.system (Machine.system_grants (by decide))
  obtain ⟨d, ν'', hd⟩ := hmaked Machine.system (Machine.system_grants (by decide))
  obtain ⟨-, -, hsize, hsize', hprefix, hkey, -⟩ := henc _ _ _ _ e e' he he'
  obtain ⟨-, -, hkeys⟩ := hdec _ _ _ _ e d he hd
  exact ⟨e, e', d, ν, ν', ν'', he, he', hd, hsize, hsize', hprefix, hkey, hkeys⟩

end AesKey

end CryptoSuite
