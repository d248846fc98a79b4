import CryptoSuite.Bytes
import CryptoSuite.Curve25519.Field

/-! Scalar multiplication on the Montgomery form of the curve, on first coordinates only. -/
namespace CryptoSuite.X25519

open Curve25519

/-- Multiplication of a point, given by the encoding of its first coordinate, by a scalar. The
scalar comes first. -/
abbrev Multiplication := Bytes → Bytes → Bytes

/-- The scalar that 32 bytes stand for: a multiple of eight with its highest bit at 254. -/
def clamp (scalar : Bytes) : Nat :=
  let n := scalar.littleEndian % (1 <<< 254)
  (1 <<< 254) + (n - n % 8)

/-- A coordinate is read without its highest bit and reduced. -/
def coordinate (point : Bytes) : Element := Element.reduce (point.littleEndian % (1 <<< 255))

/-- Two multiples of one point whose difference is the point, as fractions. -/
structure Ladder where
  x₁ : Element
  z₁ : Element
  x₂ : Element
  z₂ : Element
  deriving DecidableEq, Repr

namespace Ladder

def swap (l : Ladder) : Ladder := ⟨l.x₂, l.z₂, l.x₁, l.z₁⟩

/-- Doubles the first multiple and adds the two, which differ by the point with coordinate `u`. -/
def doubleAdd (u : Element) (l : Ladder) : Ladder :=
  let a := Element.add l.x₁ l.z₁
  let b := Element.sub l.x₁ l.z₁
  let aa := Element.square a
  let bb := Element.square b
  let e := Element.sub aa bb
  let da := Element.mul (Element.sub l.x₂ l.z₂) a
  let cb := Element.mul (Element.add l.x₂ l.z₂) b
  ⟨Element.mul aa bb,
    Element.mul e (Element.add aa (Element.mul 121665 e)),
    Element.square (Element.add da cb),
    Element.mul u (Element.square (Element.sub da cb))⟩

/-- Moves from the multiples by `n` and `n + 1` to those by `2n` and `2n + 1`, or, on a set bit,
to those by `2n + 1` and `2n + 2`. -/
def step (u : Element) (l : Ladder) (bit : Bool) : Ladder :=
  if bit then (doubleAdd u l.swap).swap else doubleAdd u l

end Ladder

/-- The bits of a number below 2^255, highest first. -/
def bits (n : Nat) : List Bool := (List.range 255).reverse.map n.testBit

/-- Computes the coordinate of a multiple of a point. -/
def multiply : Multiplication := fun scalar point =>
  let u := coordinate point
  let l := (bits (clamp scalar)).foldl (Ladder.step u) ⟨1, 0, u, 1⟩
  Bytes.ofNatLittleEndian 32 (Element.mul l.x₁ (Element.inverse l.z₁))

/-- The coordinate of the generator. -/
def basePoint : Bytes := 9 :: Bytes.zeros 31

@[simp] theorem length_multiply (scalar point : Bytes) : (multiply scalar point).length = 32 := by
  simp [multiply]

end CryptoSuite.X25519
