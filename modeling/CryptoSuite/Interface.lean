import CryptoSuite.Json.Value

/-! The capability interfaces that an implementation can serve. -/
namespace CryptoSuite

inductive Interface
  | hash
  | mac
  | blockCipher
  | streamCipher
  | digitalSignature
  | keyAgreement
  | prng
  | keyDerivation
  deriving DecidableEq, Repr

namespace Interface

def all : List Interface :=
  [hash, mac, blockCipher, streamCipher, digitalSignature, keyAgreement, prng, keyDerivation]

def title : Interface → String
  | hash => "hash"
  | mac => "mac"
  | blockCipher => "block cipher"
  | streamCipher => "stream cipher"
  | digitalSignature => "digital signature"
  | keyAgreement => "key agreement"
  | prng => "prng"
  | keyDerivation => "key derivation"

def key : Interface → String
  | hash => "hash"
  | mac => "mac"
  | blockCipher => "block_cipher"
  | streamCipher => "stream_cipher"
  | digitalSignature => "digital_signature"
  | keyAgreement => "key_agreement"
  | prng => "prng"
  | keyDerivation => "key_derivation"

def label : Interface → String
  | hash => "Hash"
  | mac => "Mac"
  | blockCipher => "BlockCipher"
  | streamCipher => "StreamCipher"
  | digitalSignature => "DigitalSignature"
  | keyAgreement => "KeyAgreement"
  | prng => "Prng"
  | keyDerivation => "KeyDerivation"

def ofKey? (name : String) : Option Interface := all.find? fun i => i.key == name

def reader : Json.Reader Interface := Json.Reader.variant (all.map fun i => (i.key, i))

def ofJson (text : String) : Except Json.Fault Interface := Json.Reader.readAll reader text

def toJson (i : Interface) : String := "\"" ++ i.key ++ "\""

end Interface

end CryptoSuite
