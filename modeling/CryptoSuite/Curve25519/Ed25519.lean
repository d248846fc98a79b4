import CryptoSuite.Curve25519.Edwards
import CryptoSuite.Curve25519.X25519
import CryptoSuite.Sha2.Digest

/-! Signatures over the Edwards form of the curve with SHA-512. -/
namespace CryptoSuite.Ed25519

open Curve25519

/-- What a signature scheme computes: the public key of a seed, whether a seed and a public key make
a pair, the signature of a message under a seed, and whether a public key, a message and a signature
belong together. -/
structure Scheme where
  publicKey : Bytes → Bytes
  pairs : Bytes → Bytes → Bool
  sign : Bytes → Bytes → Bytes
  verifies : Bytes → Bytes → Bytes → Bool

def sha512 (message : Bytes) : Bytes := Sha2.digest .sha512 message

/-- The secret scalar of a seed. -/
def scalar (seed : Bytes) : Nat := X25519.clamp ((sha512 seed).take 32)

/-- What makes the signatures under a seed unpredictable. -/
def blinding (seed : Bytes) : Bytes := (sha512 seed).drop 32

def publicKey (seed : Bytes) : Bytes := (Point.base.multiple (scalar seed)).encode

/-- The scalar that binds a signature to its commitment, its key and its message. -/
def challenge (commitment publicKey message : Bytes) : Nat :=
  (sha512 (commitment ++ publicKey ++ message)).littleEndian % order

def sign (seed message : Bytes) : Bytes :=
  let nonce := (sha512 (blinding seed ++ message)).littleEndian % order
  let commitment := (Point.base.multiple nonce).encode
  let response := nonce + challenge commitment (publicKey seed) message * scalar seed
  commitment ++ Bytes.ofNatLittleEndian 32 (response % order)

/-- Recomputes the commitment and compares its encoding with the one given. The response must
be below the order. -/
def verifies (publicKey message signature : Bytes) : Bool :=
  let commitment := signature.take 32
  let response := Bytes.littleEndian (signature.drop 32)
  match Point.decode? publicKey with
  | none => false
  | some key =>
    if order ≤ response then false
    else
      let h := challenge commitment publicKey message
      ((Point.base.multiple response).add (key.neg.multiple h)).encode == commitment

def standard : Scheme := ⟨publicKey, fun seed key => publicKey seed == key, sign, verifies⟩

end CryptoSuite.Ed25519
