import CryptoSuite.Suite.Suite

/-! The capabilities of a suite: contexts of its algorithms, and buffers of the size that a role
in them asks for. -/
namespace CryptoSuite

/-- What a buffer of a suite is for. -/
inductive Role
  | hash
  | signature
  | signaturePrivateKey
  | signaturePublicKey
  | authPrivateKey
  | authPublicKey
  | authNonce
  | authSharedSecret
  | cipherPrivateKey
  | cipherPublicKey
  | cipherNonce
  | cipherSharedSecret
  | macCode
  | macShortCode
  | macKey
  | blockKey
  | block
  | streamKey
  | streamIv
  | uuid
  deriving DecidableEq, Repr

namespace Role

def all : List Role :=
  [hash, signature, signaturePrivateKey, signaturePublicKey, authPrivateKey, authPublicKey,
    authNonce, authSharedSecret, cipherPrivateKey, cipherPublicKey, cipherNonce,
    cipherSharedSecret, macCode, macShortCode, macKey, blockKey, block, streamKey, streamIv, uuid]

def name : Role → String
  | hash => "hash"
  | signature => "signature"
  | signaturePrivateKey => "signature_private_key"
  | signaturePublicKey => "signature_public_key"
  | authPrivateKey => "auth_key_agreement_private_key"
  | authPublicKey => "auth_key_agreement_public_key"
  | authNonce => "auth_key_agreement_nonce"
  | authSharedSecret => "auth_key_agreement_shared_secret"
  | cipherPrivateKey => "cipher_key_agreement_private_key"
  | cipherPublicKey => "cipher_key_agreement_public_key"
  | cipherNonce => "cipher_key_agreement_nonce"
  | cipherSharedSecret => "cipher_key_agreement_shared_secret"
  | macCode => "mac_authentication_code"
  | macShortCode => "mac_short_authentication_code"
  | macKey => "mac_private_key"
  | blockKey => "block_secret_key"
  | block => "block"
  | streamKey => "stream_secret_key"
  | streamIv => "stream_iv"
  | uuid => "uuid"

def ofName? (text : String) : Option Role := all.find? fun r => r.name == text

end Role

inductive Slot
  | hash
  | mac
  | macShort
  | random
  | signature
  | authAgreement
  | cipherAgreement
  | block
  | stream
  | keyDerivation
  deriving DecidableEq, Repr

namespace Slot

def all : List Slot :=
  [hash, mac, macShort, random, signature, authAgreement, cipherAgreement, block, stream,
    keyDerivation]

def name : Slot → String
  | hash => "hash"
  | mac => "mac"
  | macShort => "mac_short"
  | random => "prng"
  | signature => "signature"
  | authAgreement => "auth"
  | cipherAgreement => "cipher"
  | block => "block"
  | stream => "stream"
  | keyDerivation => "kdf"

def ofName? (text : String) : Option Slot := all.find? fun s => s.name == text

def interface : Slot → Interface
  | hash => .hash
  | mac => .mac
  | macShort => .mac
  | random => .prng
  | signature => .digitalSignature
  | authAgreement => .keyAgreement
  | cipherAgreement => .keyAgreement
  | block => .blockCipher
  | stream => .streamCipher
  | keyDerivation => .keyDerivation

end Slot

def Suite.provider (s : Suite) : Slot → Factory
  | .hash => .hash s.hash
  | .mac => .mac s.mac
  | .macShort => .mac s.macShort
  | .random => .prng s.random
  | .signature => .digitalSignature s.signature
  | .authAgreement => .keyAgreement s.authAgreement
  | .cipherAgreement => .keyAgreement s.cipherAgreement
  | .block => .blockCipher s.block
  | .stream => .streamCipher s.stream
  | .keyDerivation => .keyDerivation s.keyDerivation

namespace Suite

variable {κ : Type} (s : Suite)

def hashInit : Attempt κ (Hash.Context κ s.hash.State) := s.hash.algorithm.init

def macInit (key : Bytes) : Attempt κ (Mac.Context κ s.mac.State) := s.mac.algorithm.init key

def macShortInit (key : Bytes) : Attempt κ (Mac.Context κ s.macShort.State) :=
  s.macShort.algorithm.init key

def blockInit (key : Bytes) (d : BlockCipher.Direction) :
    Attempt κ (BlockCipher.Context κ s.block.State) := s.block.algorithm.init key d

def streamInit (key : Bytes) : Attempt κ (StreamCipher.Context κ s.stream.State) :=
  s.stream.algorithm.init key

/-- A zeroed buffer of the size that a role asks for. The computations on the curve play no part
in any size. -/
def buffer : Role → Attempt κ Buffer
  | .hash => s.hash.algorithm.buffer
  | .signature => (s.signature.algorithm Ed25519.standard).signatureBuffer
  | .signaturePrivateKey => (s.signature.algorithm Ed25519.standard).privateKeyBuffer
  | .signaturePublicKey => (s.signature.algorithm Ed25519.standard).publicKeyBuffer
  | .authPrivateKey => (s.authAgreement.algorithm X25519.multiply).privateKeyBuffer
  | .authPublicKey => (s.authAgreement.algorithm X25519.multiply).publicKeyBuffer
  | .authNonce => (s.authAgreement.algorithm X25519.multiply).nonceBuffer
  | .authSharedSecret => (s.authAgreement.algorithm X25519.multiply).sharedSecretBuffer
  | .cipherPrivateKey => (s.cipherAgreement.algorithm X25519.multiply).privateKeyBuffer
  | .cipherPublicKey => (s.cipherAgreement.algorithm X25519.multiply).publicKeyBuffer
  | .cipherNonce => (s.cipherAgreement.algorithm X25519.multiply).nonceBuffer
  | .cipherSharedSecret => (s.cipherAgreement.algorithm X25519.multiply).sharedSecretBuffer
  | .macCode => s.mac.algorithm.buffer
  | .macShortCode => s.macShort.algorithm.buffer
  | .macKey => s.mac.algorithm.keyBuffer
  | .blockKey => s.block.algorithm.keyBuffer
  | .block => s.block.algorithm.blockBuffer
  | .streamKey => s.stream.algorithm.keyBuffer
  | .streamIv => s.stream.algorithm.ivBuffer
  | .uuid => Buffer.new Random.uuidSize

end Suite

end CryptoSuite
