import CryptoSuite.Sha2.Compression

/-! The members of the SHA-2 family with the 64-bit compression function. They differ in the
initial chaining value and in how many bytes of the last one are kept. -/
namespace CryptoSuite.Sha2

inductive Variant
  | sha384
  | sha512
  | sha512_256
  deriving DecidableEq, Repr

namespace Variant

def all : List Variant := [sha384, sha512, sha512_256]

def key : Variant → String
  | sha384 => "sha384"
  | sha512 => "sha512"
  | sha512_256 => "sha512_256"

def ofKey? (text : String) : Option Variant := all.find? fun v => v.key == text

def digestSize : Variant → Nat
  | sha384 => 48
  | sha512 => 64
  | sha512_256 => 32

def name : Variant → String
  | sha384 => "SHA-384"
  | sha512 => "SHA-512"
  | sha512_256 => "SHA-512/256"

def initial : Variant → Chain
  | sha384 => ⟨0xcbbb9d5dc1059ed8, 0x629a292a367cd507, 0x9159015a3070dd17, 0x152fecd8f70e5939,
    0x67332667ffc00b31, 0x8eb44a8768581511, 0xdb0c2e0d64f98fa7, 0x47b5481dbefa4fa4⟩
  | sha512 => ⟨0x6a09e667f3bcc908, 0xbb67ae8584caa73b, 0x3c6ef372fe94f82b, 0xa54ff53a5f1d36f1,
    0x510e527fade682d1, 0x9b05688c2b3e6c1f, 0x1f83d9abfb41bd6b, 0x5be0cd19137e2179⟩
  | sha512_256 => ⟨0x22312194fc2bf72c, 0x9f555fa3c84c64c2, 0x2393b86b6f53b151, 0x963877195940eabd,
    0x96283ee2a88effe3, 0xbe5e1e2553863992, 0x2b0199fc2c85b8aa, 0x0eb72ddc81c52ca2⟩

theorem digestSize_pos (v : Variant) : 0 < v.digestSize := by cases v <;> decide

theorem digestSize_le (v : Variant) : v.digestSize ≤ 64 := by cases v <;> decide

end Variant

end CryptoSuite.Sha2
