import CryptoSuite.BlockCipher.Cbc
import CryptoSuite.KeyAgreement.Curve25519
import CryptoSuite.Mock.Algorithms
import CryptoSuite.Signature.Ed25519
import CryptoSuite.StreamCipher.Ctr

/-! The algorithms of the library as data: for each interface, which of them stands behind it,
and what that algorithm is. -/
namespace CryptoSuite

namespace Hash

inductive Provider
  | sha2 (variant : Sha2.Variant)
  | mock (table : Mock.Handle)
  deriving DecidableEq, Repr

abbrev Provider.State : Provider → Type
  | sha2 _ => Sha2.State
  | mock _ => Unit

def Provider.algorithm {κ : Type} : (p : Provider) → Algorithm κ p.State
  | sha2 v => Sha2.algorithm v
  | mock t => Mock.hash t

def Provider.name (p : Provider) : String := (@algorithm Unit p).name

end Hash

namespace Mac

inductive Provider
  | hmac (name : String) (variant : Sha2.Variant)
  | mock (table : Mock.Handle) (short : Bool)
  deriving DecidableEq, Repr

abbrev Provider.State : Provider → Type
  | hmac _ _ => Hmac.State Sha2.State
  | mock _ _ => Unit

def Provider.algorithm {κ : Type} : (p : Provider) → Algorithm κ p.State
  | hmac name v => Hmac.algorithm name (Sha2.algorithm v)
  | mock t short => Mock.mac t short

def Provider.name (p : Provider) : String := (@algorithm Unit p).name

end Mac

namespace BlockCipher

inductive Provider
  | aesCbc (multiplier : RoundMultiplier)
  | mock (table : Mock.Handle)
  deriving DecidableEq, Repr

abbrev Provider.State : Provider → Type
  | aesCbc _ => Cbc.State
  | mock _ => Unit

def Provider.algorithm {κ : Type} : (p : Provider) → Algorithm κ p.State
  | aesCbc m => Cbc.algorithm m
  | mock t => Mock.block t

def Provider.name (p : Provider) : String := (@algorithm Unit p).name

end BlockCipher

namespace StreamCipher

inductive Provider
  | aesCtr (multiplier : RoundMultiplier)
  | mock (table : Mock.Handle)
  deriving DecidableEq, Repr

abbrev Provider.State : Provider → Type
  | aesCtr _ => Ctr.State
  | mock _ => Unit

def Provider.algorithm {κ : Type} : (p : Provider) → Algorithm κ p.State
  | aesCtr m => Ctr.algorithm m
  | mock t => Mock.stream t

def Provider.name (p : Provider) : String := (@algorithm Unit p).name

end StreamCipher

namespace Signature

inductive Provider
  | ed25519
  | mock (table : Mock.Handle)
  deriving DecidableEq, Repr

/-- The provider's algorithm, given what computes the signatures of the curve. -/
def Provider.algorithm {κ : Type} (scheme : Ed25519.Scheme) : Provider → Algorithm κ
  | ed25519 => Ed25519.algorithm scheme
  | mock t => Mock.signature t

def Provider.name (p : Provider) : String := (@algorithm Unit Ed25519.standard p).name

end Signature

namespace KeyAgreement

inductive Provider
  | curve25519 (variant : Sha2.Variant)
  | mock (table : Mock.Handle) (cipher : Bool)
  deriving DecidableEq, Repr

/-- The provider's algorithm, given what multiplies points of the curve. -/
def Provider.algorithm {κ : Type} (multiply : X25519.Multiplication) : Provider → Algorithm κ
  | curve25519 v => Curve25519.agreement multiply v
  | mock t cipher => Mock.keyAgreement t cipher

def Provider.name (p : Provider) : String := (@algorithm Unit X25519.multiply p).name

end KeyAgreement

namespace Random

inductive Provider
  | operatingSystem
  | mock (table : Mock.Handle)
  deriving DecidableEq, Repr

def Provider.algorithm {κ : Type} : Provider → Algorithm κ
  | .operatingSystem => Random.operatingSystem
  | mock t => Mock.random t

def Provider.name (p : Provider) : String := (@algorithm Unit p).name

end Random

namespace KeyDerivation

inductive Provider
  | pbkdf2
  | mock (table : Mock.Handle)
  deriving DecidableEq, Repr

def Provider.algorithm {κ : Type} : Provider → Algorithm κ
  | .pbkdf2 => KeyDerivation.pbkdf2
  | mock t => Mock.keyDerivation t

def Provider.name (p : Provider) : String := (@algorithm Unit p).name

end KeyDerivation

end CryptoSuite
