import CryptoSuite.Proofs.KeyAgreement.Lengths
import CryptoSuite.Proofs.KeyAgreement.Secrets

/-! The derivation of secrets: what is written once the lengths are right and memory is granted, and what
is refused. -/
namespace CryptoSuite.Curve25519

open Sha2 (Variant Carries)

variable {κ : Type} {multiply : X25519.Multiplication} {v : Variant} {μ ν : Machine κ}
variable {privateKey publicKey nonceA nonceB out shared : Bytes} {sizes : List Nat}

theorem runFrom_longTermSecret_error {e : CryptoError} (hout : out.length = v.digestSize)
    (h : sharedCoordinate multiply privateKey publicKey = .error e) (μ : Machine κ) :
    (longTermSecret multiply v privateKey publicKey out).runFrom μ = ((.error e, out), μ) := by
  have hdigest : (sharedDigest multiply v privateKey publicKey out).runFrom μ = (.error e, μ) := by
    rw [sharedDigest, checkLength, if_pos hout, Fallible.runFrom_bind_ok (Attempt.runFrom_require _ μ),
      h]
    rfl
  rw [answers_longTermSecret privateKey publicKey out μ, hdigest]

theorem runFrom_longTermSecret_ok (hout : out.length = v.digestSize)
    (h : sharedCoordinate multiply privateKey publicKey = .ok shared) (hl : shared.length < 2 ^ 64)
    (hmemory : μ.Grants (192 :: sizes)) :
    ∃ ν, (longTermSecret multiply v privateKey publicKey out).runFrom μ =
      ((.ok (), Sha2.Standard.digest v shared), ν) ∧ ν.Grants sizes := by
  obtain ⟨s, hs⟩ := Sha2.runFrom_new_served v hmemory.head
  have hdigest : (sharedDigest multiply v privateKey publicKey out).runFrom μ =
      (.ok (s.update shared), μ.requested 192) := by
    rw [sharedDigest, checkLength, if_pos hout, Fallible.runFrom_bind_ok (Attempt.runFrom_require _ μ),
      h]
    exact Fallible.runFrom_bind_ok (Fallible.runFrom_adapt_ok hs)
  obtain ⟨t, ht, -⟩ := ((Carries.of_runFrom_new hs).update hl).finalize_exact hout
  rw [answers_longTermSecret privateKey publicKey out μ, hdigest]
  dsimp only [writeDigest]
  rw [ht]
  exact ⟨_, rfl, hmemory.tail.giveBack _⟩

/-- Two pieces are absorbed as one. -/
theorem runFrom_absorbNonces_served {key : Bytes} (hkey : key.length < 2 ^ 64)
    (ha : nonceA.length < 2 ^ 64) (hb : nonceB.length < 2 ^ 64)
    (hmemory : μ.Grants (Hmac.stateSizes v key ++ sizes)) :
    ∃ c ν, (absorbNonces v key nonceA nonceB).runFrom μ = (.ok c, ν) ∧
      Hmac.ContextPrimed (agreementName v) v key (nonceA ++ nonceB) c := by
  obtain ⟨s, ν, hs, -⟩ := Hmac.runFrom_create_served hkey hmemory
  have hprimed := ((Hmac.of_runFrom_create hkey hs).update ha).update hb
  rw [List.nil_append] at hprimed
  exact ⟨_, ν, runFrom_absorbNonces hs, rfl, hprimed⟩

/-- What is done once there is a buffer for the long-term secret. -/
def nonceCodeIn (multiply : X25519.Multiplication) (v : Variant)
    (privateKey publicKey nonceA nonceB : Bytes) (b : Buffer) :
    Attempt κ (Buffer × Mac.Context κ (Hmac.State Sha2.State)) := do
  let key ← Fallible.releasing b.release
    (Attempt.checked (longTermSecret multiply v privateKey publicKey b.bytes))
  let b := b.setBytes key
  let c ← Fallible.releasing b.release (absorbNonces v b.bytes nonceA nonceB)
  pure (b, c)

theorem nonceCode_eq (multiply : X25519.Multiplication) (v : Variant)
    (privateKey publicKey nonceA nonceB out : Bytes) :
    (nonceCode multiply v privateKey publicKey nonceA nonceB out : Attempt κ _) =
      Attempt.require (checkAll (nonceArguments v nonceA nonceB out)) >>= fun _ =>
        Buffer.newFor .keyAgreement v.digestSize >>=
          nonceCodeIn multiply v privateKey publicKey nonceA nonceB := by
  rw [nonceArguments, checkAll_three]
  rfl

/-- The nonces and the output are checked before there is any memory. -/
theorem runFrom_nonceCode_misfit {x : Argument} (h : misfit? (nonceArguments v nonceA nonceB out) = some x)
    (μ : Machine κ) :
    (nonceCode multiply v privateKey publicKey nonceA nonceB out).runFrom μ = (.error x.error, μ) := by
  rw [nonceCode_eq, checkAll_eq, h, Fallible.runFrom_bind, Attempt.runFrom_require]

theorem runFrom_nonceCode_fits (h : misfit? (nonceArguments v nonceA nonceB out) = none)
    (hmemory : μ.Grants (v.digestSize :: sizes)) :
    (nonceCode multiply v privateKey publicKey nonceA nonceB out).runFrom μ =
      (nonceCodeIn multiply v privateKey publicKey nonceA nonceB
        (Buffer.served μ v.digestSize)).runFrom (μ.requested v.digestSize) := by
  have hserved := Buffer.runFrom_newFor_served .keyAgreement v.digestSize_pos hmemory.head
  rw [nonceCode_eq, checkAll_eq, h, Fallible.runFrom_bind_ok (Attempt.runFrom_require _ μ),
    Fallible.runFrom_bind_ok hserved]

theorem runFrom_nonceCodeIn_error {b : Buffer} {e : CryptoError} (nonceA nonceB : Bytes)
    (hb : b.bytes.length = v.digestSize)
    (h : sharedCoordinate multiply privateKey publicKey = .error e) (μ : Machine κ) :
    ∃ ν, (nonceCodeIn multiply v privateKey publicKey nonceA nonceB b).runFrom μ = (.error e, ν) := by
  rw [nonceCodeIn, Fallible.runFrom_bind, Fallible.runFrom_releasing, Attempt.runFrom_checked,
    runFrom_longTermSecret_error hb h μ]
  exact ⟨_, rfl⟩

theorem runFrom_nonceCodeIn_ok {b : Buffer} (hroom : b.bytes.length = v.digestSize)
    (ha : nonceA.length = v.digestSize) (hb : nonceB.length = v.digestSize)
    (h : sharedCoordinate multiply privateKey publicKey = .ok shared) (hl : shared.length < 2 ^ 64)
    (hmemory : μ.Grants [192, 256, 2 * v.digestSize, 192, 192]) :
    ∃ d c ν, (nonceCodeIn multiply v privateKey publicKey nonceA nonceB b).runFrom μ =
        (.ok (d, c), ν) ∧
      Hmac.ContextPrimed (agreementName v) v (Sha2.Standard.digest v shared) (nonceA ++ nonceB) c := by
  have hv := v.digestSize_le
  have hkey : (Sha2.Standard.digest v shared).length = v.digestSize := Sha2.Standard.length_digest v shared
  obtain ⟨ξ, hlong, hgrants⟩ := runFrom_longTermSecret_ok hroom h hl hmemory
  have hchecked := Attempt.runFrom_checked (longTermSecret multiply v privateKey publicKey b.bytes) μ
  rw [hlong] at hchecked
  have hsizes : Hmac.stateSizes v (Sha2.Standard.digest v shared) ++ [] =
      [256, 2 * v.digestSize, 192, 192] := by
    rw [List.append_nil, Hmac.stateSizes_of_le (by omega)]
  have hsliced {bytes : Bytes} (hbytes : bytes.length = v.digestSize) : bytes.length < 2 ^ 64 := by omega
  obtain ⟨c, ν, hc, hprimed⟩ :=
    runFrom_absorbNonces_served (hsliced hkey) (hsliced ha) (hsliced hb) (hsizes ▸ hgrants)
  refine ⟨b.setBytes (Sha2.Standard.digest v shared), c, ν, ?_, hprimed⟩
  rw [nonceCodeIn, Fallible.runFrom_bind_ok (Fallible.runFrom_releasing_ok hchecked)]
  dsimp only
  rw [Buffer.bytes_setBytes, Fallible.runFrom_bind_ok (Fallible.runFrom_releasing_ok hc)]
  rfl

theorem runFrom_shortTermSecret_misfit {x : Argument}
    (h : misfit? (nonceArguments v nonceA nonceB out) = some x) (μ : Machine κ) :
    (shortTermSecret multiply v privateKey publicKey nonceA nonceB out).runFrom μ =
      ((.error x.error, out), μ) := by
  rw [answers_shortTermSecret privateKey publicKey nonceA nonceB out μ, runFrom_nonceCode_misfit h]

theorem runFrom_shortTermSecret_error {e : CryptoError}
    (hfits : misfit? (nonceArguments v nonceA nonceB out) = none)
    (h : sharedCoordinate multiply privateKey publicKey = .error e)
    (hmemory : μ.Grants (v.digestSize :: sizes)) :
    ((shortTermSecret multiply v privateKey publicKey nonceA nonceB out).runFrom μ).1 =
      (.error e, out) := by
  have hroom : (Buffer.served μ v.digestSize).bytes.length = v.digestSize := Bytes.length_zeros _
  obtain ⟨ν, hν⟩ := runFrom_nonceCodeIn_error nonceA nonceB hroom h (μ.requested v.digestSize)
  rw [answers_shortTermSecret privateKey publicKey nonceA nonceB out μ,
    runFrom_nonceCode_fits hfits hmemory, hν]

theorem runFrom_shortTermSecret_ok (hfits : misfit? (nonceArguments v nonceA nonceB out) = none)
    (h : sharedCoordinate multiply privateKey publicKey = .ok shared) (hl : shared.length < 2 ^ 64)
    (hmemory : μ.Grants [v.digestSize, 192, 256, 2 * v.digestSize, 192, 192]) :
    ((shortTermSecret multiply v privateKey publicKey nonceA nonceB out).runFrom μ).1 =
      (.ok (), Hmac.Standard.code v (Sha2.Standard.digest v shared) (nonceA ++ nonceB)) := by
  obtain ⟨hout, ha, hb⟩ := nonceArguments_fit.mp hfits
  have hroom : (Buffer.served μ v.digestSize).bytes.length = v.digestSize := Bytes.length_zeros _
  obtain ⟨d, c, ν, hν, hprimed⟩ := runFrom_nonceCodeIn_ok hroom ha hb h hl hmemory.tail
  have hpos : 0 < out.length := hout ▸ v.digestSize_pos
  obtain ⟨c', hc', -⟩ := hprimed.finalize_eq hpos (Nat.le_of_eq hout) ν
  rw [hout, ← Hmac.Standard.length_code v (Sha2.Standard.digest v shared) (nonceA ++ nonceB),
    List.take_length] at hc'
  rw [answers_shortTermSecret privateKey publicKey nonceA nonceB out μ,
    runFrom_nonceCode_fits hfits hmemory, hν]
  dsimp only [writeCode]
  rw [Action.runFrom_bind, hc']
  rfl

theorem longTermSecret_misfit {x : Argument}
    (h : misfit? (longTermArguments v privateKey publicKey out) = some x) (μ : Machine κ) :
    ((longTermSecret multiply v privateKey publicKey out).runFrom μ).1 = (.error x.error, out) := by
  rw [longTermArguments, misfit?_cons] at h
  split_ifs at h with hout
  · have hlength : out.length = v.digestSize := hout
    rw [runFrom_longTermSecret_error hlength (sharedCoordinate_misfit h)]
  · cases h
    have hlength : ¬out.length = v.digestSize := hout
    have hdigest : (sharedDigest multiply v privateKey publicKey out).runFrom μ =
        (.error (room v out).error, μ) := by
      rw [sharedDigest, checkLength, if_neg hlength, Fallible.runFrom_bind, Attempt.runFrom_require]
      rfl
    rw [answers_longTermSecret privateKey publicKey out μ, hdigest]

theorem shortTermSecret_misfit {x : Argument}
    (h : misfit? (shortTermArguments v privateKey publicKey nonceA nonceB out) = some x)
    (hmemory : μ.Grants [v.digestSize]) :
    ((shortTermSecret multiply v privateKey publicKey nonceA nonceB out).runFrom μ).1 =
      (.error x.error, out) := by
  have happend : (misfit? (nonceArguments v nonceA nonceB out)).or (misfit? (keys privateKey publicKey)) =
      some x := List.find?_append.symm.trans h
  cases hfits : misfit? (nonceArguments v nonceA nonceB out) with
  | none =>
    rw [hfits, Option.none_or] at happend
    exact runFrom_shortTermSecret_error hfits (sharedCoordinate_misfit happend) hmemory
  | some y =>
    rw [hfits, Option.some_or] at happend
    cases happend
    rw [runFrom_shortTermSecret_misfit hfits]

theorem nonceArguments_fit_of_ok
    (h : ((shortTermSecret multiply v privateKey publicKey nonceA nonceB out :
      Action κ _).runFrom μ).1.1 = .ok ()) : misfit? (nonceArguments v nonceA nonceB out) = none := by
  cases hfits : misfit? (nonceArguments v nonceA nonceB out) with
  | none => rfl
  | some x =>
    rw [runFrom_shortTermSecret_misfit hfits] at h
    cases h

end CryptoSuite.Curve25519
