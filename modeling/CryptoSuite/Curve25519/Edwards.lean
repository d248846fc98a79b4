import CryptoSuite.Bytes
import CryptoSuite.Curve25519.Field

/-! The twisted Edwards form of the curve, `-x² + y² = 1 + d x² y²`, in extended coordinates,
with the 32-byte encoding of its points. -/
namespace CryptoSuite.Curve25519

/-- The point `(x/z, y/z)`, where `t` is the product of its coordinates times `z`. -/
structure Point where
  x : Element
  y : Element
  z : Element
  t : Element
  deriving DecidableEq, Repr

def order : Nat := (1 <<< 252) + 27742317777372353535851937790883648493

/-- The constant of the curve, -121665/121666. -/
def constantD : Element := Element.mul (Element.sub 0 121665) (Element.inverse 121666)

def rootOfMinusOne : Element := Element.power 2 ((prime - 1) / 4)

namespace Point

def zero : Point := ⟨0, 1, 1, 0⟩

def ofAffine (x y : Element) : Point := ⟨x, y, 1, Element.mul x y⟩

/-- The sum; the same formula covers doubling, since the constant of the curve is no square. -/
def add (p q : Point) : Point :=
  let a := Element.mul (Element.sub p.y p.x) (Element.sub q.y q.x)
  let b := Element.mul (Element.add p.y p.x) (Element.add q.y q.x)
  let c := Element.mul (Element.mul 2 constantD) (Element.mul p.t q.t)
  let d := Element.mul 2 (Element.mul p.z q.z)
  let e := Element.sub b a
  let f := Element.sub d c
  let g := Element.add d c
  let h := Element.add b a
  ⟨Element.mul e f, Element.mul g h, Element.mul f g, Element.mul e h⟩

def neg (p : Point) : Point := ⟨Element.sub 0 p.x, p.y, p.z, Element.sub 0 p.t⟩

/-- The multiple of `p` by `n`, by halving `n`. -/
def multiple (p : Point) (n : Nat) : Point :=
  if n = 0 then zero
  else
    let half := multiple (add p p) (n / 2)
    if n % 2 = 1 then add p half else half
termination_by n

/-- The second coordinate, with the parity of the first in the highest bit. -/
def encode (p : Point) : Bytes :=
  let inverse := Element.inverse p.z
  let x := Element.mul p.x inverse
  let y := Element.mul p.y inverse
  Bytes.ofNatLittleEndian 32 (y + ((x % 2) <<< 255))

/-- The quotient's square root, if it has one: the candidate is right up to a fourth root of
unity. -/
def rootOfQuotient? (u v : Element) : Option Element :=
  let v₃ := Element.mul (Element.square v) v
  let v₇ := Element.mul (Element.square v₃) v
  let x := Element.mul (Element.mul u v₃) (Element.power (Element.mul u v₇) ((prime - 5) / 8))
  let check := Element.mul v (Element.square x)
  if check = u then some x
  else if check = Element.sub 0 u then some (Element.mul x rootOfMinusOne)
  else none

/-- The point with second coordinate `y` and first coordinate of the given parity. Zero stands
for either parity. -/
def ofCoordinate? (y : Element) (odd : Bool) : Option Point := do
  let yy := Element.square y
  let x ← rootOfQuotient? (Element.sub yy 1) (Element.add (Element.mul constantD yy) 1)
  pure (ofAffine (if (x % 2 == 1) == odd then x else Element.sub 0 x) y)

/-- Reads an encoding; a coordinate that is not below the prime is reduced. -/
def decode? (encoding : Bytes) : Option Point :=
  let n := encoding.littleEndian
  ofCoordinate? (Element.reduce (n % (1 <<< 255))) (n.testBit 255)

/-- The generator: second coordinate 4/5, first coordinate even. -/
def base : Point := (ofCoordinate? (Element.mul 4 (Element.inverse 5)) false).getD zero

@[simp] theorem length_encode (p : Point) : p.encode.length = 32 := by simp [encode]

end Point

end CryptoSuite.Curve25519
