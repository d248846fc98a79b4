import CryptoSuite.Proofs.Hmac.State

/-! New states are primed, whatever the length of the key, and are there whenever the requests for
their memory are served. -/
namespace CryptoSuite.Hmac

open Sha2 (Variant Carries)

variable {κ : Type} {v : Variant} {key block : Bytes} {μ ν : Machine κ} {sizes : List Nat}

theorem runFrom_doubled {size : Nat} (h : 2 * size < 1 <<< 64) (μ : Machine κ) :
    (doubled size).runFrom μ = (.ok (2 * size), μ) := by
  rw [doubled, if_pos h, Fallible.runFrom_pure]

theorem runFrom_doubled_blockSize (v : Variant) (μ : Machine κ) :
    (doubled (Sha2.algorithm (κ := κ) v).blockSize).runFrom μ = (.ok 256, μ) :=
  runFrom_doubled (show 2 * 128 < 1 <<< 64 by decide) μ

theorem runFrom_doubled_digestSize (v : Variant) (μ : Machine κ) :
    (doubled (Sha2.algorithm (κ := κ) v).digestSize).runFrom μ = (.ok (2 * v.digestSize), μ) := by
  have hv := v.digestSize_le
  exact runFrom_doubled (show 2 * v.digestSize < 1 <<< 64 by omega) μ

theorem runFrom_update (s : Sha2.State) (data : Bytes) (μ : Machine κ) :
    (Fallible.perform ((Sha2.algorithm v).update s data) : Attempt κ _).runFrom μ =
      (.ok (.ok (), s.update data), μ) := rfl

theorem of_runFrom_createHash {s : Sha2.State}
    (h : (createHash (Sha2.algorithm v)).runFrom μ = (.ok s, ν)) : Carries v [] s :=
  Carries.of_runFrom_new (Fallible.of_runFrom_adapt h)

theorem runFrom_createHash_served (v : Variant) (h : μ.Grants (192 :: sizes)) :
    ∃ s ν, (createHash (Sha2.algorithm v)).runFrom μ = (.ok s, ν) ∧ ν.Grants sizes := by
  obtain ⟨s, hs⟩ := Sha2.runFrom_new_served v h.head
  exact ⟨s, μ.requested 192, Fallible.runFrom_adapt_ok hs, h.tail⟩

theorem runFrom_paddedKey_short (h : key.length ≤ 128) (μ : Machine κ) :
    (paddedKey (Sha2.algorithm v) key).runFrom μ = (.ok (Standard.blockKey v key), μ) := by
  have hl : ¬128 < key.length := Nat.not_lt.mpr h
  rw [Standard.blockKey, if_neg hl]
  exact congrArg (Fallible.runFrom · μ) (if_neg hl)

/-- A long key is hashed by a computation of its own, which is given back. -/
theorem runFrom_paddedKey_of_finalize (hl : 128 < key.length) {s t : Sha2.State}
    (hs : (createHash (Sha2.algorithm v)).runFrom μ = (.ok s, ν))
    (ht : (s.update key).finalize (Bytes.zeros 128) = (.ok (), block, t)) :
    ∃ ξ, (paddedKey (Sha2.algorithm v) key).runFrom μ = (.ok block, ξ) ∧
      ∀ sizes, ν.Grants sizes → ξ.Grants sizes := by
  have hrun : (paddedKey (Sha2.algorithm v) key).runFrom μ = _ :=
    congrArg (Fallible.runFrom · μ) (if_pos hl)
  rw [hrun, Fallible.runFrom_bind_ok hs]
  simp only [Sha2.algorithm, Sha2.blockSize, Fallible.runFrom_bind, Fallible.runFrom_perform,
    Fallible.runFrom_releasing, Attempt.runFrom_require, Action.runFrom_pure, Fallible.runFrom_pure, ht]
  exact ⟨_, rfl, fun _ hg => hg.giveBack _⟩

/-- The digest of a long key fits in front of the zeros. -/
theorem digestSize_le_zeros (v : Variant) : v.digestSize ≤ (Bytes.zeros 128).length := by
  have hv := v.digestSize_le
  rw [Bytes.length_zeros]
  omega

theorem runFrom_paddedKey_long (hl : 128 < key.length) (hk : key.length < 2 ^ 64) {s : Sha2.State}
    (hs : (createHash (Sha2.algorithm v)).runFrom μ = (.ok s, ν)) :
    ∃ ξ, (paddedKey (Sha2.algorithm v) key).runFrom μ = (.ok (Standard.blockKey v key), ξ) ∧
      ∀ sizes, ν.Grants sizes → ξ.Grants sizes := by
  obtain ⟨t, ht, -⟩ := ((of_runFrom_createHash hs).update hk).finalize (digestSize_le_zeros v)
  have hb : Sha2.Standard.digest v ([] ++ key) ++ (Bytes.zeros 128).drop v.digestSize =
      Standard.blockKey v key := by
    rw [Standard.blockKey, if_pos hl, Sha2.Standard.length_digest, List.nil_append, Bytes.zeros,
      List.drop_replicate]
  rw [hb] at ht
  exact runFrom_paddedKey_of_finalize hl hs ht

/-- What is requested to hash a key, which only long keys are. -/
def keySizes (key : Bytes) : List Nat := if 128 < key.length then [192] else []

def stateSizes (v : Variant) (key : Bytes) : List Nat :=
  [256, 2 * v.digestSize] ++ keySizes key ++ [192, 192]

/-- A key of at most one block is not hashed. -/
theorem stateSizes_of_le (h : key.length ≤ 128) :
    stateSizes v key = [256, 2 * v.digestSize, 192, 192] := by
  rw [stateSizes, keySizes, if_neg (Nat.not_lt.mpr h)]
  rfl

theorem runFrom_paddedKey_served (hk : key.length < 2 ^ 64) (h : μ.Grants (keySizes key ++ sizes)) :
    ∃ ν, (paddedKey (Sha2.algorithm v) key).runFrom μ = (.ok (Standard.blockKey v key), ν) ∧
      ν.Grants sizes := by
  unfold keySizes at h
  split_ifs at h with hl
  · obtain ⟨s, ξ, hs, hg⟩ := runFrom_createHash_served v h
    obtain ⟨ν, hrun, hν⟩ := runFrom_paddedKey_long hl hk hs
    exact ⟨ν, hrun, hν sizes hg⟩
  · exact ⟨μ, runFrom_paddedKey_short (Nat.le_of_not_lt hl) μ, h⟩

theorem of_runFrom_paddedKey (hk : key.length < 2 ^ 64)
    (h : (paddedKey (Sha2.algorithm v) key).runFrom μ = (.ok block, ν)) :
    block = Standard.blockKey v key := by
  by_cases hl : 128 < key.length
  · have hrun : (paddedKey (Sha2.algorithm v) key).runFrom μ = _ :=
      congrArg (Fallible.runFrom · μ) (if_pos hl)
    rw [hrun] at h
    obtain ⟨s, ξ, hs, -⟩ := Fallible.of_runFrom_bind h
    obtain ⟨_, hb, -⟩ := runFrom_paddedKey_long hl hk hs
    rw [hrun, h] at hb
    cases hb
    rfl
  · rw [runFrom_paddedKey_short (Nat.le_of_not_lt hl)] at h
    cases h
    rfl

/-- What a new state is made of: the padded key, two hash computations and room for two digests. -/
theorem parts_of_runFrom_create {s : State Sha2.State}
    (h : (create (Sha2.algorithm v) key).runFrom μ = (.ok s, ν)) :
    ∃ (block : Bytes) (inner : Sha2.State) (ξ₁ ξ₂ ξ₃ : Machine κ),
      (paddedKey (Sha2.algorithm v) key).runFrom ξ₁ = (.ok block, ξ₂) ∧
      (createHash (Sha2.algorithm v)).runFrom ξ₂ = (.ok inner, ξ₃) ∧
      (createHash (Sha2.algorithm v)).runFrom ξ₃ = (.ok s.outer, ν) ∧
      s.inner = inner.update ((padsOf block).take 128) ∧ s.pads.bytes = padsOf block ∧
      s.work.bytes = Bytes.zeros (2 * v.digestSize) := by
  rw [create] at h
  obtain ⟨n, ξ₀, hn, h⟩ := Fallible.of_runFrom_bind h
  rw [runFrom_doubled_blockSize] at hn
  cases hn
  obtain ⟨pads, ξ₁, hpads, h⟩ := Fallible.of_runFrom_bind h
  have h := Fallible.of_runFrom_releasing h
  obtain ⟨n, ξ₂, hn, h⟩ := Fallible.of_runFrom_bind h
  rw [runFrom_doubled_digestSize] at hn
  cases hn
  obtain ⟨work, ξ₃, hwork, h⟩ := Fallible.of_runFrom_bind h
  have h := Fallible.of_runFrom_releasing h
  obtain ⟨block, ξ₄, hblock, h⟩ := Fallible.of_runFrom_bind h
  obtain ⟨inner, ξ₅, hinner, h⟩ := Fallible.of_runFrom_bind h
  rw [Fallible.runFrom_bind_ok (runFrom_update _ _ _)] at h
  obtain ⟨outer, ξ₆, houter, h⟩ := Fallible.of_runFrom_bind h
  have houter := Attempt.of_runFrom_releasing_require houter
  rw [Fallible.runFrom_pure] at h
  cases h
  obtain ⟨rfl, -⟩ := Buffer.of_runFrom_newFor hwork
  exact ⟨block, inner, ξ₃, ξ₄, ξ₅, hblock, hinner, houter, rfl, rfl, rfl⟩

theorem of_runFrom_create {s : State Sha2.State} (hk : key.length < 2 ^ 64)
    (h : (create (Sha2.algorithm v) key).runFrom μ = (.ok s, ν)) : Primed v key [] s := by
  obtain ⟨block, inner, ξ₁, ξ₂, ξ₃, hblock, hinner, houter, hupdate, hpads, hwork⟩ :=
    parts_of_runFrom_create h
  obtain rfl := of_runFrom_paddedKey hk hblock
  have htake : (padsOf (Standard.blockKey v key)).take 128 = Standard.innerKey v key :=
    List.take_left' (Standard.length_innerKey v key)
  refine ⟨?_, of_runFrom_createHash houter, hpads, ?_⟩
  · rw [List.append_nil, hupdate, htake]
    exact (of_runFrom_createHash hinner).update (by simp)
  · rw [hwork, Bytes.length_zeros]

theorem runFrom_create_served (hk : key.length < 2 ^ 64) (h : μ.Grants (stateSizes v key ++ sizes)) :
    ∃ s ν, (create (Sha2.algorithm v) key).runFrom μ = (.ok s, ν) ∧ ν.Grants sizes := by
  have hpos := v.digestSize_pos
  rw [stateSizes, List.append_assoc, List.append_assoc] at h
  have hpads := Buffer.runFrom_newFor_served .mac (by decide) h.head
  have hwork := Buffer.runFrom_newFor_served .mac (by omega) h.tail.head
  obtain ⟨ξ₁, hblock, hg⟩ := runFrom_paddedKey_served (v := v) hk h.tail.tail
  obtain ⟨inner, ξ₂, hinner, hg⟩ := runFrom_createHash_served v hg
  obtain ⟨outer, ξ₃, houter, hg⟩ := runFrom_createHash_served v hg
  let pads := (Buffer.served μ 256).setBytes (padsOf (Standard.blockKey v key))
  let work := Buffer.served (μ.requested 256) (2 * v.digestSize)
  refine ⟨⟨inner.update (pads.bytes.take 128), outer, pads, work⟩, ξ₃, ?_, hg⟩
  rw [create, Fallible.runFrom_bind_ok (runFrom_doubled_blockSize v μ),
    Fallible.runFrom_bind_ok hpads]
  apply Fallible.runFrom_releasing_ok
  rw [Fallible.runFrom_bind_ok (runFrom_doubled_digestSize v _),
    Fallible.runFrom_bind_ok hwork]
  apply Fallible.runFrom_releasing_ok
  rw [Fallible.runFrom_bind_ok hblock, Fallible.runFrom_bind_ok hinner,
    Fallible.runFrom_bind_ok (runFrom_update _ _ _)]
  exact Fallible.runFrom_bind_ok (Attempt.runFrom_releasing_require houter)

end CryptoSuite.Hmac
