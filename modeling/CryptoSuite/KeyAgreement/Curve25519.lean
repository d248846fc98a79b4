import CryptoSuite.Curve25519.X25519
import CryptoSuite.Hash.Sha2
import CryptoSuite.KeyAgreement.Algorithm
import CryptoSuite.Mac.Hmac

/-! Agreement on the curve with hashed secrets. The long-term secret is the digest of the shared
coordinate; a short-term secret is the code, keyed with the long-term secret, of both nonces. -/
namespace CryptoSuite.Curve25519

def privateKeySize : Nat := 32

def publicKeySize : Nat := 32

def agreementName : Sha2.Variant → String
  | .sha384 => "Curve25519-SHA384"
  | .sha512 => "Curve25519-SHA512"
  | .sha512_256 => "Curve25519-SHA512/256"

def checkLength (part : Part) (expected : Nat) (given : Bytes) : Status :=
  if given.length = expected then .ok ()
  else .error (.invalidArgument .keyAgreement (.length part expected given.length))

variable {κ : Type} (multiply : X25519.Multiplication) (v : Sha2.Variant)

def publicKeyOf (privateKey : Bytes) : Bytes := multiply privateKey X25519.basePoint

def createKeypair (privateKey publicKey : Bytes) : Action κ (Status × Bytes × Bytes) := do
  let checked := do
    checkLength .privateKey privateKeySize privateKey
    checkLength .publicKey publicKeySize publicKey
  match checked with
  | .error e => pure (.error e, privateKey, publicKey)
  | .ok _ => do
    let secret ← Action.readEntropy privateKeySize
    pure (.ok (), secret, publicKeyOf multiply secret)

/-- The shared coordinate. Zero, which a point of small order forces, is refused. -/
def sharedCoordinate (privateKey publicKey : Bytes) : Except CryptoError Bytes := do
  checkLength .privateKey privateKeySize privateKey
  checkLength .publicKey publicKeySize publicKey
  let shared := multiply privateKey publicKey
  if shared.all (· == 0) then .error (.invalidArgument .keyAgreement .nonContributory)
  else .ok shared

/-- The digest computation of a long-term secret, which has absorbed the shared coordinate. -/
def sharedDigest (privateKey publicKey out : Bytes) : Attempt κ Sha2.State := do
  Attempt.require (checkLength .sharedSecret v.digestSize out)
  let shared ← ExceptT.mk (pure (sharedCoordinate multiply privateKey publicKey))
  let state ← (Sha2.State.new v).within .keyAgreement
  pure (state.update shared)

/-- Writes the long-term secret, whose length the digest fixes, once the computation stands. -/
def longTermSecret (privateKey publicKey out : Bytes) : Action κ (Status × Bytes) := do
  match ← (sharedDigest multiply v privateKey publicKey out).run with
  | .error e => pure (.error e, out)
  | .ok state =>
    let (status, out, state) := state.finalize out
    state.release
    pure (status, out)

/-- A keyed computation that has absorbed both nonces. -/
def absorbNonces (key nonceA nonceB : Bytes) :
    Attempt κ (Mac.Context κ (Hmac.State Sha2.State)) := do
  let mac := Hmac.algorithm (agreementName v) (Sha2.algorithm v)
  let c ← (mac.init key).within .keyAgreement
  let (status, c) ← Fallible.perform (c.digest nonceA)
  Fallible.releasing c.release (Attempt.require status)
  let (status, c) ← Fallible.perform (c.digest nonceB)
  Fallible.releasing c.release (Attempt.require status)
  pure c

/-- The long-term secret in a buffer of its own, and the computation keyed with it. -/
def nonceCode (privateKey publicKey nonceA nonceB out : Bytes) :
    Attempt κ (Buffer × Mac.Context κ (Hmac.State Sha2.State)) := do
  Attempt.require do
    checkLength .sharedSecret v.digestSize out
    checkLength .nonce v.digestSize nonceA
    checkLength .nonce v.digestSize nonceB
  let longTerm ← Buffer.newFor .keyAgreement v.digestSize
  let key ← Fallible.releasing longTerm.release
    (Attempt.checked (longTermSecret multiply v privateKey publicKey longTerm.bytes))
  let longTerm := longTerm.setBytes key
  let c ← Fallible.releasing longTerm.release (absorbNonces v longTerm.bytes nonceA nonceB)
  pure (longTerm, c)

/-- Writes the code of both nonces under the long-term secret. -/
def shortTermSecret (privateKey publicKey nonceA nonceB out : Bytes) :
    Action κ (Status × Bytes) := do
  match ← (nonceCode multiply v privateKey publicKey nonceA nonceB out).run with
  | .error e => pure (.error e, out)
  | .ok (longTerm, c) =>
    let (status, out, c) ← c.finalize out
    c.release
    longTerm.release
    pure (status, out)

def agreement : KeyAgreement.Algorithm κ where
  name := agreementName v
  privateKeySize := privateKeySize
  publicKeySize := publicKeySize
  sharedSecretSize := v.digestSize
  nonceSize := v.digestSize
  createKeypair := createKeypair multiply
  longTermSecret := longTermSecret multiply v
  shortTermSecret := shortTermSecret multiply v

end CryptoSuite.Curve25519
