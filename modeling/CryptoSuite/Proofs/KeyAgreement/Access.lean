import CryptoSuite.KeyAgreement.Curve25519
import CryptoSuite.Proofs.Hmac.Access

/-! The accesses of the computations that an agreement makes: the digest of the shared coordinate, and the code
of the nonces. They are those of the hash function and of the code. -/
namespace CryptoSuite.Curve25519

variable {κ : Type} (multiply : X25519.Multiplication) (v : Sha2.Variant)

/-- The digest computation with `fault` in place of every access out of range. -/
def sharedDigestGuarded (fault : CryptoError) (privateKey publicKey out : Bytes) : Attempt κ Sha2.State := do
  Attempt.require (checkLength .sharedSecret v.digestSize out)
  let shared ← ExceptT.mk (pure (sharedCoordinate multiply privateKey publicKey))
  let state ← (Sha2.guarded fault v).create.within .keyAgreement
  Attempt.obtain fault (state.update? shared)

def longTermSecretGuarded (fault : CryptoError) (privateKey publicKey out : Bytes) :
    Action κ (Status × Bytes) := do
  match ← (sharedDigestGuarded multiply v fault privateKey publicKey out).run with
  | .error e => pure (.error e, out)
  | .ok state =>
    let (status, out, state) := (state.finalize? out).getD (.error fault, out, state)
    state.release
    pure (status, out)

def absorbNoncesGuarded (fault : CryptoError) (key nonceA nonceB : Bytes) :
    Attempt κ (Mac.Context κ (Hmac.State Sha2.State)) := do
  let mac := Hmac.guarded fault (agreementName v) (Sha2.guarded fault v)
  let c ← (mac.init key).within .keyAgreement
  let (status, c) ← Fallible.perform (c.digest nonceA)
  Fallible.releasing c.release (Attempt.require status)
  let (status, c) ← Fallible.perform (c.digest nonceB)
  Fallible.releasing c.release (Attempt.require status)
  pure c

def nonceCodeGuarded (fault : CryptoError) (privateKey publicKey nonceA nonceB out : Bytes) :
    Attempt κ (Buffer × Mac.Context κ (Hmac.State Sha2.State)) := do
  Attempt.require do
    checkLength .sharedSecret v.digestSize out
    checkLength .nonce v.digestSize nonceA
    checkLength .nonce v.digestSize nonceB
  let longTerm ← Buffer.newFor .keyAgreement v.digestSize
  let key ← Fallible.releasing longTerm.release
    (Attempt.checked (longTermSecretGuarded multiply v fault privateKey publicKey longTerm.bytes))
  let longTerm := longTerm.setBytes key
  let c ← Fallible.releasing longTerm.release (absorbNoncesGuarded v fault longTerm.bytes nonceA nonceB)
  pure (longTerm, c)

def shortTermSecretGuarded (fault : CryptoError) (privateKey publicKey nonceA nonceB out : Bytes) :
    Action κ (Status × Bytes) := do
  match ← (nonceCodeGuarded multiply v fault privateKey publicKey nonceA nonceB out).run with
  | .error e => pure (.error e, out)
  | .ok (longTerm, c) =>
    let (status, out, c) ← c.finalize out
    c.release
    longTerm.release
    pure (status, out)

/-- The agreement with `fault` in place of every access out of range. -/
def guarded (fault : CryptoError) : KeyAgreement.Algorithm κ :=
  { agreement multiply v with
    longTermSecret := longTermSecretGuarded multiply v fault
    shortTermSecret := shortTermSecretGuarded multiply v fault }

variable {multiply v}

theorem ordinary_checkLength (part : Part) (expected : Nat) (given : Bytes) :
    Status.Ordinary (checkLength part expected given) := by
  unfold checkLength
  split_ifs
  · exact .ok
  · exact .error nofun

theorem ordinary_sharedCoordinate (privateKey publicKey : Bytes) :
    ∀ e, sharedCoordinate multiply privateKey publicKey = .error e → e.Ordinary := by
  intro e he
  unfold sharedCoordinate at he
  rcases hk : checkLength .privateKey privateKeySize privateKey with e' | _ <;> rw [hk] at he
  · cases he
    exact ordinary_checkLength _ _ _ _ hk
  rcases hp : checkLength .publicKey publicKeySize publicKey with e' | _ <;> rw [hp] at he
  · cases he
    exact ordinary_checkLength _ _ _ _ hp
  dsimp only [Bind.bind, Except.bind] at he
  split_ifs at he
  cases he
  nofun

/-- The lengths of the secret and of both nonces, judged one after the other. -/
theorem ordinary_lengths (nonceA nonceB out : Bytes) : Status.Ordinary (do
    checkLength .sharedSecret v.digestSize out
    checkLength .nonce v.digestSize nonceA
    checkLength .nonce v.digestSize nonceB) := by
  rcases ho : checkLength .sharedSecret v.digestSize out with e | _
  · exact .error (ordinary_checkLength _ _ _ _ ho)
  rcases ha : checkLength .nonce v.digestSize nonceA with e | _
  · exact .error (ordinary_checkLength _ _ _ _ ha)
  exact ordinary_checkLength .nonce v.digestSize nonceB

theorem mirrors_sharedDigest (fault : CryptoError) (privateKey publicKey out : Bytes) :
    Attempt.Mirrors (fun s s' => s = s' ∧ s'.Sound v)
      (sharedDigestGuarded (κ := κ) multiply v fault privateKey publicKey out)
      (sharedDigest multiply v privateKey publicKey out) := by
  apply (Attempt.mirrors_require (ordinary_checkLength .sharedSecret v.digestSize out)).bind
  intro _ _ _
  have hshared := @ordinary_sharedCoordinate multiply privateKey publicKey
  cases hs : sharedCoordinate multiply privateKey publicKey with
  | error e => exact .throw (hshared e hs)
  | ok shared =>
    apply (Attempt.mirrors_within (Sha2.mirrors_guarded fault v).create .keyAgreement).bind
    rintro s _ ⟨rfl, hs⟩
    rw [hs.inRange.update?_eq]
    exact .pure ⟨rfl, (hs.update shared).1⟩

theorem mirrors_longTermSecret (fault : CryptoError) (privateKey publicKey out : Bytes) :
    Action.Mirrors (fun r r' => r = r' ∧ Status.Ordinary r'.1)
      (longTermSecretGuarded (κ := κ) multiply v fault privateKey publicKey out)
      (longTermSecret multiply v privateKey publicKey out) := by
  apply (mirrors_sharedDigest fault privateKey publicKey out).run_bind
  · intro e he
    exact .pure ⟨rfl, .error he⟩
  · rintro s _ ⟨rfl, hs⟩
    simp only [hs.inRange.finalize?_eq, Option.getD_some]
    exact fun μ => ⟨rfl, rfl, (hs.finalize_any out).1⟩

/-- The states under the guarded and under the plain code of an agreement. -/
abbrev PairedNonces (κ : Type) (v : Sha2.Variant) (fault : CryptoError) :
    Mac.Context κ (Hmac.State Sha2.State) → Mac.Context κ (Hmac.State Sha2.State) → Prop :=
  Mac.Paired (Hmac.guarded fault (agreementName v) (Sha2.guarded fault v))
    (Hmac.algorithm (agreementName v) (Sha2.algorithm v)) (Hmac.SoundOver κ v)

theorem mirrors_absorbNonces (fault : CryptoError) (key nonceA nonceB : Bytes) :
    Attempt.Mirrors (PairedNonces κ v fault) (absorbNoncesGuarded v fault key nonceA nonceB)
      (absorbNonces v key nonceA nonceB) := by
  have h := Hmac.mirrors_guarded_sha2 (κ := κ) fault (agreementName v) v
  apply (Attempt.mirrors_within (h.init key) .keyAgreement).bind
  intro c c' hc
  apply (Fallible.Mirrors.perform (h.digest hc nonceA)).bind
  rintro ⟨_, d⟩ ⟨status, d'⟩ ⟨rfl, hok, hd⟩
  apply ((Attempt.mirrors_require hok).releasing (h.releaseContext hd)).bind
  intro _ _ _
  apply (Fallible.Mirrors.perform (h.digest hd nonceB)).bind
  rintro ⟨_, e⟩ ⟨status, e'⟩ ⟨rfl, hok, he⟩
  apply ((Attempt.mirrors_require hok).releasing (h.releaseContext he)).bind
  intro _ _ _
  exact .pure he

theorem mirrors_nonceCode (fault : CryptoError) (privateKey publicKey nonceA nonceB out : Bytes) :
    Attempt.Mirrors (fun r r' => r.1 = r'.1 ∧ PairedNonces κ v fault r.2 r'.2)
      (nonceCodeGuarded multiply v fault privateKey publicKey nonceA nonceB out)
      (nonceCode multiply v privateKey publicKey nonceA nonceB out) := by
  apply (Attempt.mirrors_require (ordinary_lengths nonceA nonceB out)).bind
  intro _ _ _
  apply (Buffer.mirrors_newFor .keyAgreement v.digestSize).bind
  rintro longTerm _ ⟨rfl, -⟩
  have hkey := Attempt.mirrors_checked
    (@mirrors_longTermSecret κ multiply v fault privateKey publicKey longTerm.bytes)
  apply (hkey.releasing longTerm.mirrors_release).bind
  rintro key _ rfl
  have habsorb := mirrors_absorbNonces (κ := κ) (v := v) fault key nonceA nonceB
  apply (habsorb.releasing (longTerm.setBytes key).mirrors_release).bind
  intro c c' hc
  exact .pure ⟨rfl, hc⟩

theorem mirrors_shortTermSecret (fault : CryptoError) (privateKey publicKey nonceA nonceB out : Bytes) :
    Action.Mirrors (fun r r' => r = r' ∧ Status.Ordinary r'.1)
      (shortTermSecretGuarded (κ := κ) multiply v fault privateKey publicKey nonceA nonceB out)
      (shortTermSecret multiply v privateKey publicKey nonceA nonceB out) := by
  have h := Hmac.mirrors_guarded_sha2 (κ := κ) fault (agreementName v) v
  apply (mirrors_nonceCode fault privateKey publicKey nonceA nonceB out).run_bind
  · intro e he
    exact .pure ⟨rfl, .error he⟩
  · rintro ⟨longTerm, c⟩ ⟨_, c'⟩ ⟨rfl, hc⟩
    apply (h.finalizeContext hc out).bind
    rintro ⟨status, code, d⟩ ⟨_, _, d'⟩ ⟨rfl, rfl, hok, hd⟩
    apply (h.releaseContext hd).bind
    intro _ _ _
    apply longTerm.mirrors_release.bind
    intro _ _ _
    exact .pure ⟨rfl, hok⟩

end CryptoSuite.Curve25519
