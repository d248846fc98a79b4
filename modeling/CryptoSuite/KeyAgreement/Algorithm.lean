import CryptoSuite.Memory.Buffer
import CryptoSuite.Text.Record
import CryptoSuite.Text.Quoted

/-! Key agreement: what an algorithm provides. Two parties derive a long-term secret from their
keys, and short-term secrets from their keys and a nonce of each. -/
namespace CryptoSuite.KeyAgreement

/-- A key agreement algorithm. The secret is written to the last argument. -/
structure Algorithm (κ : Type) where
  name : String
  privateKeySize : Nat
  publicKeySize : Nat
  sharedSecretSize : Nat
  nonceSize : Nat
  /-- Writes a fresh private key and its public key. -/
  createKeypair : Bytes → Bytes → Action κ (Status × Bytes × Bytes)
  /-- The arguments are one's own private key and the other party's public key. -/
  longTermSecret : Bytes → Bytes → Bytes → Action κ (Status × Bytes)
  /-- The keys are followed by the nonces, the initiator's first. -/
  shortTermSecret : Bytes → Bytes → Bytes → Bytes → Bytes → Action κ (Status × Bytes)

namespace Algorithm

variable {κ : Type}

def privateKeyBuffer (a : Algorithm κ) : Attempt κ Buffer := Buffer.new a.privateKeySize

def publicKeyBuffer (a : Algorithm κ) : Attempt κ Buffer := Buffer.new a.publicKeySize

def sharedSecretBuffer (a : Algorithm κ) : Attempt κ Buffer := Buffer.new a.sharedSecretSize

def nonceBuffer (a : Algorithm κ) : Attempt κ Buffer := Buffer.new a.nonceSize

def text (a : Algorithm κ) : String :=
  Text.RecordText.render ⟨"KeyAgreementOptions", [("algorithm", Text.quote a.name)], true⟩

def contextText (a : Algorithm κ) : String :=
  Text.RecordText.render ⟨"KeyAgreementContext", [("algorithm", Text.quote a.name)], false⟩

end Algorithm

end CryptoSuite.KeyAgreement
