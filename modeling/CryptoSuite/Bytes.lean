/-! Octet strings as lists, with the fixed-width big-endian encodings and the in-place
writes that the primitives share. -/
namespace CryptoSuite

/-- Octet strings. Slices and concatenations are the list operations. -/
abbrev Bytes := List UInt8

namespace Bytes

def zeros (n : Nat) : Bytes := List.replicate n 0

@[simp] theorem length_zeros (n : Nat) : (zeros n).length = n := by simp [zeros]

/-- Bytewise exclusive or, as long as the shorter operand. -/
def xor (a b : Bytes) : Bytes := List.zipWith (· ^^^ ·) a b

@[simp] theorem length_xor (a b : Bytes) : (xor a b).length = min a.length b.length := by
  simp [xor]

/-- `dst` with `src` written over it from position `start` on. -/
def overwrite (dst : Bytes) (start : Nat) (src : Bytes) : Bytes :=
  dst.take start ++ src ++ dst.drop (start + src.length)

theorem length_overwrite {dst src : Bytes} {start : Nat} (h : start + src.length ≤ dst.length) :
    (overwrite dst start src).length = dst.length := by
  simp [overwrite]
  omega

/-- The octet string in pieces of `size` bytes; the last piece may be shorter. -/
def chunks (size : Nat) (b : Bytes) : List Bytes :=
  if h : size = 0 ∨ b = [] then []
  else b.take size :: chunks size (b.drop size)
termination_by b.length
decreasing_by
  have := List.length_pos_iff.2 fun e => h (.inr e)
  simp only [List.length_drop]
  omega

/-- Whether two octet strings agree, deciding equal lengths from the accumulated differences of
all positions. -/
def agree (a b : Bytes) : Bool :=
  a.length == b.length && (xor a b).foldl (· ||| ·) 0 == 0

def ofUInt32 (w : UInt32) : Bytes :=
  [(w >>> 24).toUInt8, (w >>> 16).toUInt8, (w >>> 8).toUInt8, w.toUInt8]

def ofUInt64 (w : UInt64) : Bytes :=
  [(w >>> 56).toUInt8, (w >>> 48).toUInt8, (w >>> 40).toUInt8, (w >>> 32).toUInt8,
    (w >>> 24).toUInt8, (w >>> 16).toUInt8, (w >>> 8).toUInt8, w.toUInt8]

@[simp] theorem length_ofUInt32 (w : UInt32) : (ofUInt32 w).length = 4 := rfl

@[simp] theorem length_ofUInt64 (w : UInt64) : (ofUInt64 w).length = 8 := rfl

/-- The big-endian 64-bit words of an octet string; an incomplete last word is dropped. -/
def words64 : Bytes → List UInt64
  | a :: b :: c :: d :: e :: f :: g :: h :: rest =>
      [a, b, c, d, e, f, g, h].foldl (fun w x => (w <<< 8) ||| x.toUInt64) 0 :: words64 rest
  | _ => []

/-- The number an octet string denotes with its first byte least significant. -/
def littleEndian (b : Bytes) : Nat := b.foldr (fun x n => x.toNat + 256 * n) 0

/-- The number an octet string denotes with its first byte most significant. -/
def bigEndian (b : Bytes) : Nat := b.foldl (fun n x => 256 * n + x.toNat) 0

/-- The `count` low-order bytes of `n`, least significant first. -/
def ofNatLittleEndian : Nat → Nat → Bytes
  | 0, _ => []
  | count + 1, n => UInt8.ofNat (n % 256) :: ofNatLittleEndian count (n / 256)

@[simp] theorem length_ofNatLittleEndian (count n : Nat) :
    (ofNatLittleEndian count n).length = count := by
  induction count generalizing n with
  | zero => rfl
  | succ count ih => simp [ofNatLittleEndian, ih]

end Bytes

end CryptoSuite
