import CryptoSuite.Sha2.Variant
import Mathlib.Data.Fin.VecNotation
import Mathlib.Data.Nat.Find
import Mathlib.Data.Nat.NthRoot.Defs
import Mathlib.Data.Nat.Prime.Defs

/-! The hash functions of FIPS 180-4 with 64-bit words, written after the standard: words are bit
vectors, the constants are fractional parts of roots of primes, the message schedule is a
recurrence, and a message is padded as a whole. -/
namespace CryptoSuite.Sha2.Standard

abbrev Word := BitVec 64

/-- The eight words of a hash value, and the working variables a to h. -/
abbrev Value := Fin 8 → Word

def bigSigma0 (x : Word) : Word := x.rotateRight 28 ^^^ x.rotateRight 34 ^^^ x.rotateRight 39

def bigSigma1 (x : Word) : Word := x.rotateRight 14 ^^^ x.rotateRight 18 ^^^ x.rotateRight 41

def smallSigma0 (x : Word) : Word := x.rotateRight 1 ^^^ x.rotateRight 8 ^^^ x >>> 7

def smallSigma1 (x : Word) : Word := x.rotateRight 19 ^^^ x.rotateRight 61 ^^^ x >>> 6

def choose (x y z : Word) : Word := (x &&& y) ^^^ (~~~x &&& z)

def majority (x y z : Word) : Word := (x &&& y) ^^^ (x &&& z) ^^^ (y &&& z)

/-- The first eighty primes. -/
def primes : List Nat := (List.range 410).filter fun n => n.Prime

/-- The first sixty-four bits of the fractional part of the `k`-th root of `n`. -/
def fraction (k n : Nat) : Word := BitVec.ofNat 64 (Nat.nthRoot k (n * 2 ^ (64 * k)))

/-- The constant of round `t`, from the cube root of a prime. -/
def constant (t : Nat) : Word := fraction 3 (primes.getD t 0)

def schedule (block : Nat → Word) (t : Nat) : Word :=
  if t < 16 then block t
  else smallSigma1 (schedule block (t - 2)) + schedule block (t - 7)
    + smallSigma0 (schedule block (t - 15)) + schedule block (t - 16)

def round (k w : Word) (v : Value) : Value :=
  let t1 := v 7 + bigSigma1 (v 4) + choose (v 4) (v 5) (v 6) + k + w
  let t2 := bigSigma0 (v 0) + majority (v 0) (v 1) (v 2)
  ![t1 + t2, v 0, v 1, v 2, v 3 + t1, v 4, v 5, v 6]

def compress (h : Value) (block : Nat → Word) : Value := fun i =>
  h i + (List.range 80).foldl (fun v t => round (constant t) (schedule block t) v) h i

theorem exists_zeros (length : Nat) : ∃ z, (length + 1 + z) % 128 = 112 :=
  ⟨(239 - length % 128) % 128, by omega⟩

/-- The message, a marker byte, the least number of zero bytes that ends 16 bytes before the end of
a block, and the length of the message in bits as a 128-bit number. -/
def padded (message : Bytes) : Bytes :=
  message ++ [0x80] ++ List.replicate (Nat.find (exists_zeros message.length)) 0
    ++ (List.range 16).map fun i => UInt8.ofNat (8 * message.length / 256 ^ (15 - i))

/-- Word `i` of an octet string, its first byte most significant. -/
def wordAt (b : Bytes) (i : Nat) : Word := BitVec.ofNat 64 (Bytes.bigEndian ((b.drop (8 * i)).take 8))

/-- The final hash value of a message, begun at an initial one. -/
def hashFrom (initial : Value) (message : Bytes) : Value :=
  (List.range ((padded message).length / 128)).foldl
    (fun h i => compress h fun t => wordAt (padded message) (16 * i + t)) initial

/-- The square roots of the first eight primes begin SHA-512, those of the next eight SHA-384. The
value for a truncated variant is the hash of its name by a changed SHA-512. -/
def initial : Variant → Value
  | .sha384 => fun i => fraction 2 (primes.getD (8 + i) 0)
  | .sha512 => fun i => fraction 2 (primes.getD i 0)
  | .sha512_256 => hashFrom (fun i => fraction 2 (primes.getD i 0) ^^^ 0xa5a5a5a5a5a5a5a5)
      ("SHA-512/256".toList.map fun c => UInt8.ofNat c.toNat)

def bytesOf (w : Word) : Bytes := (List.range 8).map fun i => UInt8.ofNat (w.toNat / 256 ^ (7 - i))

def digestBits : Variant → Nat
  | .sha384 => 384
  | .sha512 => 512
  | .sha512_256 => 256

def digest (v : Variant) (message : Bytes) : Bytes :=
  ((List.finRange 8).flatMap fun i => bytesOf (hashFrom (initial v) message i)).take
    (digestBits v / 8)

end CryptoSuite.Sha2.Standard
