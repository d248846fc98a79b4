import CryptoSuite.Provider
import CryptoSuite.Text.Record

/-! The records that a registry holds. -/
namespace CryptoSuite

/-- The provider that a record brings, for the one interface that it serves. -/
inductive Factory
  | hash (provider : Hash.Provider)
  | mac (provider : Mac.Provider)
  | blockCipher (provider : BlockCipher.Provider)
  | streamCipher (provider : StreamCipher.Provider)
  | digitalSignature (provider : Signature.Provider)
  | keyAgreement (provider : KeyAgreement.Provider)
  | prng (provider : Random.Provider)
  | keyDerivation (provider : KeyDerivation.Provider)
  deriving DecidableEq, Repr

def Factory.interface : Factory → Interface
  | hash _ => .hash
  | mac _ => .mac
  | blockCipher _ => .blockCipher
  | streamCipher _ => .streamCipher
  | digitalSignature _ => .digitalSignature
  | keyAgreement _ => .keyAgreement
  | prng _ => .prng
  | keyDerivation _ => .keyDerivation

def Factory.name : Factory → String
  | hash p => p.name
  | mac p => p.name
  | blockCipher p => p.name
  | streamCipher p => p.name
  | digitalSignature p => p.name
  | keyAgreement p => p.name
  | prng p => p.name
  | keyDerivation p => p.name

/-- Where a record comes from. Records from different places are different records, whatever
they hold. -/
inductive Origin
  | builtIn
  | custom (key : String)
  deriving DecidableEq, Repr

/-- A record serves an interface under an identifier and claims features by a mask. -/
structure Registration where
  origin : Origin
  implementation : UInt32
  features : UInt32
  factory : Factory
  deriving DecidableEq, Repr

namespace Registration

def interface (r : Registration) : Interface := r.factory.interface

def serves (r : Registration) (i : Interface) (id : UInt32) : Bool :=
  r.interface == i && r.implementation == id

def offers (r : Registration) (i : Interface) (mask : UInt32) : Bool :=
  r.interface == i && r.features &&& mask == mask

def text (r : Registration) : String :=
  Text.RecordText.render
    ⟨"Registration",
      [("interface", r.interface.label), ("implementation", Hex.identifier r.implementation),
        ("features", Hex.identifier r.features)],
      false⟩

end Registration

end CryptoSuite
