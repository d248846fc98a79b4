import CryptoSuite.Curve25519.Ed25519
import CryptoSuite.Signature.Algorithm

/-! Ed25519 keys and signatures as fixed byte layouts. A private key is a seed followed by its
public key. -/
namespace CryptoSuite.Ed25519

def seedSize : Nat := 32

def publicKeySize : Nat := 32

def privateKeySize : Nat := seedSize + publicKeySize

def signatureSize : Nat := 64

def checkLength (part : Part) (expected : Nat) (given : Bytes) : Status :=
  if given.length = expected then .ok ()
  else .error (.invalidArgument .signature (.length part expected given.length))

variable {κ : Type} (scheme : Scheme)

def keypairFromSeed (seed privateKey publicKey : Bytes) : Status × Bytes × Bytes :=
  let checked := do
    checkLength .seed seedSize seed
    checkLength .privateKey privateKeySize privateKey
    checkLength .publicKey publicKeySize publicKey
  match checked with
  | .error e => (.error e, privateKey, publicKey)
  | .ok _ => (.ok (), seed ++ scheme.publicKey seed, scheme.publicKey seed)

/-- Draws a seed before anything is checked. -/
def createKeypair (privateKey publicKey : Bytes) : Action κ (Status × Bytes × Bytes) := do
  let seed ← Action.readEntropy seedSize
  pure (keypairFromSeed scheme seed privateKey publicKey)

/-- Writes a signature, if the halves of the private key belong together. -/
def signWith (signature privateKey message : Bytes) : Status × Bytes :=
  let checked := do
    checkLength .signature signatureSize signature
    checkLength .privateKey privateKeySize privateKey
    if scheme.pairs (privateKey.take seedSize) (privateKey.drop seedSize) then .ok ()
    else .error (.invalidArgument .signature .seedMismatch)
  match checked with
  | .error e => (.error e, signature)
  | .ok _ => (.ok (), scheme.sign (privateKey.take seedSize) message)

def verifyWith (signature publicKey message : Bytes) : Status := do
  checkLength .signature signatureSize signature
  checkLength .publicKey publicKeySize publicKey
  if scheme.verifies publicKey message signature then .ok ()
  else .error (.verificationFailed .signature)

def algorithm : Signature.Algorithm κ where
  name := "Ed25519"
  signatureSize := signatureSize
  privateKeySize := privateKeySize
  publicKeySize := publicKeySize
  createKeypair := createKeypair scheme
  sign signature privateKey message := pure (signWith scheme signature privateKey message)
  verify signature publicKey message := pure (verifyWith scheme signature publicKey message)

end CryptoSuite.Ed25519
