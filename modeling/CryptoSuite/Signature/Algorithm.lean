import CryptoSuite.Memory.Buffer
import CryptoSuite.Text.Record
import CryptoSuite.Text.Quoted

/-! Digital signatures: what an algorithm provides. There is no state between the operations. -/
namespace CryptoSuite.Signature

/-- A signature algorithm. Slices that an operation writes are passed in the order of the
algorithm's arguments and come back in that order. -/
structure Algorithm (κ : Type) where
  name : String
  signatureSize : Nat
  privateKeySize : Nat
  publicKeySize : Nat
  /-- Writes a fresh private key and its public key. -/
  createKeypair : Bytes → Bytes → Action κ (Status × Bytes × Bytes)
  /-- Writes the signature under a private key of a message. -/
  sign : Bytes → Bytes → Bytes → Action κ (Status × Bytes)
  /-- Judges a signature under a public key of a message. -/
  verify : Bytes → Bytes → Bytes → Action κ Status

namespace Algorithm

variable {κ : Type}

def signatureBuffer (a : Algorithm κ) : Attempt κ Buffer := Buffer.new a.signatureSize

def privateKeyBuffer (a : Algorithm κ) : Attempt κ Buffer := Buffer.new a.privateKeySize

def publicKeyBuffer (a : Algorithm κ) : Attempt κ Buffer := Buffer.new a.publicKeySize

def text (a : Algorithm κ) : String :=
  Text.RecordText.render ⟨"SignatureOptions", [("algorithm", Text.quote a.name)], true⟩

def contextText (a : Algorithm κ) : String :=
  Text.RecordText.render ⟨"SignatureContext", [("algorithm", Text.quote a.name)], false⟩

end Algorithm

end CryptoSuite.Signature
