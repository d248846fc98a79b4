/-! The operations of a suite that a test double can answer, one slot each. -/
namespace CryptoSuite.Mock

inductive Operation
  | hashDigest
  | hashFinalize
  | macDigest
  | macFinalize
  | macShortDigest
  | macShortFinalize
  | blockEncrypt
  | blockDecrypt
  | streamStartEncryption
  | streamStartDecryption
  | streamContinueEncryption
  | streamContinueDecryption
  | streamEncrypt
  | streamDecrypt
  | signatureKeypairCreate
  | signatureSign
  | signatureVerify
  | authKeypairCreate
  | authLongTermSecretCreate
  | authShortTermSecretCreate
  | cipherKeypairCreate
  | cipherLongTermSecretCreate
  | cipherShortTermSecretCreate
  | prngRead
  | keyDerivationDerive
  deriving DecidableEq, Repr

namespace Operation

def all : List Operation :=
  [hashDigest, hashFinalize, macDigest, macFinalize, macShortDigest, macShortFinalize,
    blockEncrypt, blockDecrypt, streamStartEncryption, streamStartDecryption,
    streamContinueEncryption, streamContinueDecryption, streamEncrypt, streamDecrypt,
    signatureKeypairCreate, signatureSign, signatureVerify, authKeypairCreate,
    authLongTermSecretCreate, authShortTermSecretCreate, cipherKeypairCreate,
    cipherLongTermSecretCreate, cipherShortTermSecretCreate, prngRead, keyDerivationDerive]

def name : Operation → String
  | hashDigest => "hash_digest"
  | hashFinalize => "hash_finalize"
  | macDigest => "mac_digest"
  | macFinalize => "mac_finalize"
  | macShortDigest => "mac_short_digest"
  | macShortFinalize => "mac_short_finalize"
  | blockEncrypt => "block_encrypt"
  | blockDecrypt => "block_decrypt"
  | streamStartEncryption => "stream_start_encryption"
  | streamStartDecryption => "stream_start_decryption"
  | streamContinueEncryption => "stream_continue_encryption"
  | streamContinueDecryption => "stream_continue_decryption"
  | streamEncrypt => "stream_encrypt"
  | streamDecrypt => "stream_decrypt"
  | signatureKeypairCreate => "signature_keypair_create"
  | signatureSign => "signature_sign"
  | signatureVerify => "signature_verify"
  | authKeypairCreate => "auth_keypair_create"
  | authLongTermSecretCreate => "auth_long_term_secret_create"
  | authShortTermSecretCreate => "auth_short_term_secret_create"
  | cipherKeypairCreate => "cipher_keypair_create"
  | cipherLongTermSecretCreate => "cipher_long_term_secret_create"
  | cipherShortTermSecretCreate => "cipher_short_term_secret_create"
  | prngRead => "prng_read"
  | keyDerivationDerive => "key_derivation_derive"

def ofName? (text : String) : Option Operation := all.find? fun o => o.name == text

end Operation

end CryptoSuite.Mock
