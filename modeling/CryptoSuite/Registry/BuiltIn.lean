import CryptoSuite.Registry.Registration

/-! The identifiers of the built-in algorithms, and their records. A built-in record claims its
own identifier as its features. -/
namespace CryptoSuite.BuiltIn

def registration (id : UInt32) (factory : Factory) : Registration := ⟨.builtIn, id, id, factory⟩

def hashId : Sha2.Variant → UInt32
  | .sha384 => 0x0200
  | .sha512 => 0x0400
  | .sha512_256 => 0x1000

def macSha512Id : UInt32 := 0x0400

def macSha512_256Id : UInt32 := 0x1000

/-- The block cipher and the stream cipher of a multiplier share their identifier. -/
def cipherId : RoundMultiplier → UInt32
  | .fips => 0x0100
  | .double => 0x0200
  | .triple => 0x0400
  | .quadruple => 0x0800

def ed25519Id : UInt32 := 0x0100

def curve25519Sha512Id : UInt32 := 0x0100

def curve25519Sha512_256Id : UInt32 := 0x0200

def operatingSystemId : UInt32 := 0x0100

def pbkdf2Id : UInt32 := 0x0100

def sha2 (v : Sha2.Variant) : Registration := registration (hashId v) (.hash (.sha2 v))

def hmacSha512 : Registration := registration macSha512Id (.mac (.hmac "HMAC-SHA-512" .sha512))

def hmacSha512_256 : Registration :=
  registration macSha512_256Id (.mac (.hmac "HMAC-SHA-512/256" .sha512_256))

def aesCbc (m : RoundMultiplier) : Registration :=
  registration (cipherId m) (.blockCipher (.aesCbc m))

def aesCtr (m : RoundMultiplier) : Registration :=
  registration (cipherId m) (.streamCipher (.aesCtr m))

def ed25519 : Registration := registration ed25519Id (.digitalSignature .ed25519)

def curve25519Sha512 : Registration :=
  registration curve25519Sha512Id (.keyAgreement (.curve25519 .sha512))

def curve25519Sha512_256 : Registration :=
  registration curve25519Sha512_256Id (.keyAgreement (.curve25519 .sha512_256))

def operatingSystem : Registration := registration operatingSystemId (.prng .operatingSystem)

def pbkdf2 : Registration := registration pbkdf2Id (.keyDerivation .pbkdf2)

def all : List (String × Registration) :=
  [("sha_2_384", sha2 .sha384), ("sha_2_512", sha2 .sha512), ("sha_2_512_256", sha2 .sha512_256),
    ("hmac_sha_2_512", hmacSha512), ("hmac_sha_2_512_256", hmacSha512_256),
    ("aes_256_cbc_fips", aesCbc .fips), ("aes_256_2x_cbc", aesCbc .double),
    ("aes_256_3x_cbc", aesCbc .triple), ("aes_256_4x_cbc", aesCbc .quadruple),
    ("aes_256_ctr_fips", aesCtr .fips), ("aes_256_2x_ctr", aesCtr .double),
    ("aes_256_3x_ctr", aesCtr .triple), ("aes_256_4x_ctr", aesCtr .quadruple),
    ("ed25519", ed25519), ("curve25519_sha512", curve25519Sha512),
    ("curve25519_sha512_256", curve25519Sha512_256),
    ("operating_system_source", operatingSystem), ("pbkdf2", pbkdf2)]

end CryptoSuite.BuiltIn
