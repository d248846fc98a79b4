import CryptoSuite.BlockCipher.Algorithm
import CryptoSuite.Hash.Algorithm
import CryptoSuite.KeyAgreement.Algorithm
import CryptoSuite.KeyDerivation.Algorithm
import CryptoSuite.Random.Algorithm
import CryptoSuite.Signature.Algorithm
import CryptoSuite.StreamCipher.Algorithm

/-! Algorithms that forward every operation to a slot table. They advertise the sizes of the
suite they stand in for, keep no state and request no memory. -/
namespace CryptoSuite.Mock

variable {κ : Type}

/-- The content of the writable slice at a place among a call's slices. -/
def Reply.output (r : Reply) (place : Nat) (before : Bytes) : Bytes := r.outputs.getD place before

/-- An operation that only reads. -/
def consult (t : Handle) (op : Operation) (inputs : List Argument) : Action κ Status := do
  let r ← Action.dispatch t op ⟨inputs, [], none⟩
  pure r.status

def fillOne (t : Handle) (op : Operation) (inputs : List Argument) (out : Bytes) :
    Action κ (Status × Bytes) := do
  let r ← Action.dispatch t op ⟨inputs, [out], none⟩
  pure (r.status, r.output 0 out)

def fillTwo (t : Handle) (op : Operation) (first second : Bytes) :
    Action κ (Status × Bytes × Bytes) := do
  let r ← Action.dispatch t op ⟨[], [first, second], none⟩
  pure (r.status, r.output 0 first, r.output 1 second)

def hash (t : Handle) : Hash.Algorithm κ Unit where
  name := "mock-hash"
  digestSize := 64
  blockSize := 128
  create := pure ()
  update _ data := do
    let status ← consult t .hashDigest [.bytes data]
    pure (status, ())
  finalize _ out := do
    let (status, out) ← fillOne t .hashFinalize [] out
    pure (status, out, ())
  reset _ := ()
  release _ := pure ()

/-- The full-length code, or the short one. -/
def mac (t : Handle) (short : Bool) : Mac.Algorithm κ Unit where
  name := if short then "mock-mac-short" else "mock-mac"
  macSize := if short then 32 else 64
  keySize := if short then 32 else 64
  create _ := pure ()
  update _ data := do
    let status ← consult t (if short then .macShortDigest else .macDigest) [.bytes data]
    pure (status, ())
  finalize _ out := do
    let (status, out) ← fillOne t (if short then .macShortFinalize else .macFinalize) [] out
    pure (status, out, ())
  release _ := pure ()

/-- One direction of the block cipher. -/
def transformBlock (t : Handle) (op : Operation) (iv input out : Bytes) :
    Action κ (Status × Bytes × Unit) := do
  let (status, out) ← fillOne t op [.bytes iv, .bytes input] out
  pure (status, out, ())

def block (t : Handle) : BlockCipher.Algorithm κ Unit where
  name := "mock-block"
  keySize := 32
  ivSize := 16
  blockSize := 16
  create _ _ := pure ()
  encrypt _ := transformBlock t .blockEncrypt
  decrypt _ := transformBlock t .blockDecrypt
  release _ := pure ()

open StreamCipher (Cursor)

def writeStream (t : Handle) (op : Operation) (input : Bytes) (out : Cursor) :
    Action κ (Status × Cursor × Unit) := do
  let r ← Action.dispatch t op ⟨[.bytes input], [out.output], some out.offset⟩
  pure (r.status, ⟨r.output 0 out.output, r.offset.getD out.offset⟩, ())

def resumeStream (t : Handle) (op : Operation) (iv : Bytes) (position : UInt64) :
    Action κ (Status × Unit) := do
  let status ← consult t op [.bytes iv, .number position.toNat]
  pure (status, ())

def stream (t : Handle) : StreamCipher.Algorithm κ Unit where
  name := "mock-stream"
  keySize := 32
  ivSize := 8
  create _ := pure ()
  startEncryption _ := writeStream t .streamStartEncryption
  startDecryption _ input offset := do
    let r ← Action.dispatch t .streamStartDecryption ⟨[.bytes input], [], some offset⟩
    pure (r.status, r.offset.getD offset, ())
  continueEncryption _ := resumeStream t .streamContinueEncryption
  continueDecryption _ := resumeStream t .streamContinueDecryption
  encrypt _ := writeStream t .streamEncrypt
  decrypt _ := writeStream t .streamDecrypt
  release _ := pure ()

def signature (t : Handle) : Signature.Algorithm κ where
  name := "mock-signature"
  signatureSize := 64
  privateKeySize := 64
  publicKeySize := 32
  createKeypair := fillTwo t .signatureKeypairCreate
  sign signature privateKey message :=
    fillOne t .signatureSign [.bytes privateKey, .bytes message] signature
  verify signature publicKey message :=
    consult t .signatureVerify [.bytes signature, .bytes publicKey, .bytes message]

/-- The agreement on cipher keys, or the one on authentication keys. -/
def keyAgreement (t : Handle) (cipher : Bool) : KeyAgreement.Algorithm κ where
  name := if cipher then "mock-cipher-key-agreement" else "mock-auth-key-agreement"
  privateKeySize := 32
  publicKeySize := 32
  sharedSecretSize := if cipher then 32 else 64
  nonceSize := if cipher then 32 else 64
  createKeypair := fillTwo t (if cipher then .cipherKeypairCreate else .authKeypairCreate)
  longTermSecret privateKey publicKey :=
    fillOne t (if cipher then .cipherLongTermSecretCreate else .authLongTermSecretCreate)
      [.bytes privateKey, .bytes publicKey]
  shortTermSecret privateKey publicKey nonceA nonceB :=
    fillOne t (if cipher then .cipherShortTermSecretCreate else .authShortTermSecretCreate)
      [.bytes privateKey, .bytes publicKey, .bytes nonceA, .bytes nonceB]

def random (t : Handle) : Random.Algorithm κ where
  name := "mock-prng"
  read := fillOne t .prngRead []

/-- The keyed algorithm that comes with a derivation is not used. -/
def keyDerivation (t : Handle) : KeyDerivation.Algorithm κ where
  name := "mock-key-derivation"
  derive _ key password salt rounds :=
    fillOne t .keyDerivationDerive [.bytes password, .bytes salt, .number rounds] key

/-- The text of a slot shows whether it is installed. -/
def slotText (installed : Bool) : String := if installed then "Mocked" else "NotMocked"

def tableText : String := Text.RecordText.render ⟨"MockSuite", [], true⟩

end CryptoSuite.Mock
