/-! Arithmetic on octets as polynomials over the field of two elements, reduced by
x^8 + x^4 + x^3 + x + 1. -/
namespace CryptoSuite.Aes

/-- The product with the polynomial `x`, computed without a branch on the octet. -/
def xtime (a : UInt8) : UInt8 := (a <<< 1) ^^^ (((a >>> 7) &&& 1) * 0x1b)

/-- Adds `a` times the low `count` bits of `b` to `product`. -/
def mulInto : Nat → UInt8 → UInt8 → UInt8 → UInt8
  | 0, _, _, product => product
  | count + 1, a, b, product =>
      mulInto count (xtime a) (b >>> 1) (if b &&& 1 = 0 then product else product ^^^ a)

/-- The product of two octets by shifting and adding. -/
def gmul (a b : UInt8) : UInt8 := mulInto 8 a b 0

end CryptoSuite.Aes
