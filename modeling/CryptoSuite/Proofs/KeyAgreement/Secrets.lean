import CryptoSuite.KeyAgreement.Curve25519
import CryptoSuite.Proofs.Hmac.Session

/-! What the agreement of secrets answers, from the computations that it makes for them. -/
namespace CryptoSuite.Curve25519

variable {κ : Type} {multiply : X25519.Multiplication} {v : Sha2.Variant} {μ ν : Machine κ}

/-- What is done with the digest computation of a long-term secret. -/
def writeDigest (out : Bytes) (s : Sha2.State) : Action κ (Status × Bytes) := do
  let (status, out, s) := s.finalize out
  s.release
  pure (status, out)

/-- What is done with the keyed computation of a short-term secret. -/
def writeCode (out : Bytes) (r : Buffer × Mac.Context κ (Hmac.State Sha2.State)) :
    Action κ (Status × Bytes) := do
  let (status, out, c) ← r.2.finalize out
  c.release
  r.1.release
  pure (status, out)

theorem answers_longTermSecret (privateKey publicKey out : Bytes) :
    Attempt.Answers (longTermSecret multiply v privateKey publicKey out : Action κ _)
      (sharedDigest multiply v privateKey publicKey out) out (writeDigest out) := by
  intro μ
  rcases h : (sharedDigest multiply v privateKey publicKey out).runFrom μ with ⟨_ | s, ν⟩
  all_goals
    rw [Fallible.runFrom] at h
    simp only [Action.runFrom, longTermSecret, bind, StateT.bind, h]
    rfl

theorem answers_shortTermSecret (privateKey publicKey nonceA nonceB out : Bytes) :
    Attempt.Answers (shortTermSecret multiply v privateKey publicKey nonceA nonceB out : Action κ _)
      (nonceCode multiply v privateKey publicKey nonceA nonceB out) out (writeCode out) := by
  intro μ
  rcases h : (nonceCode multiply v privateKey publicKey nonceA nonceB out).runFrom μ with ⟨_ | r, ν⟩
  all_goals
    rw [Fallible.runFrom] at h
    simp only [Action.runFrom, shortTermSecret, bind, StateT.bind, h]
    rfl

/-- Once there is a state, both nonces are absorbed, the initiator's first. -/
theorem runFrom_absorbNonces {key nonceA nonceB : Bytes} {s : Hmac.State Sha2.State}
    (hs : (Hmac.create (Sha2.algorithm v) key).runFrom μ = (.ok s, ν)) :
    (absorbNonces v key nonceA nonceB).runFrom μ =
      (.ok ⟨Hmac.ofVariant (agreementName v) v,
        { s with inner := (s.inner.update nonceA).update nonceB }⟩, ν) := by
  have hinit := Fallible.runFrom_adapt_ok (g := CryptoError.within .keyAgreement)
    (Mac.Algorithm.runFrom_init (a := Hmac.ofVariant (agreementName v) v) hs)
  refine (Fallible.runFrom_bind_ok hinit).trans ?_
  rw [Fallible.runFrom_bind_ok (Hmac.runFrom_digest s nonceA ν)]
  dsimp only
  rw [Fallible.runFrom_bind_ok (Fallible.runFrom_releasing_ok (Attempt.runFrom_require _ _)),
    Fallible.runFrom_bind_ok (Hmac.runFrom_digest _ nonceB ν)]
  dsimp only
  rw [Fallible.runFrom_bind_ok (Fallible.runFrom_releasing_ok (Attempt.runFrom_require _ _)),
    Fallible.runFrom_pure]

end CryptoSuite.Curve25519
