/-! Arithmetic modulo the prime 2^255 - 19, on numbers below it. -/
namespace CryptoSuite.Curve25519

/-- A number modulo the prime. -/
abbrev Element := Nat

def prime : Nat := (1 <<< 255) - 19

namespace Element

def reduce (n : Nat) : Element := n % prime

def add (a b : Element) : Element := reduce (a + b)

def sub (a b : Element) : Element := reduce (a + (prime - reduce b))

def mul (a b : Element) : Element := reduce (a * b)

def square (a : Element) : Element := mul a a

/-- `a` to the power of `n`, by halving the exponent. -/
def power (a : Element) (n : Nat) : Element :=
  if n = 0 then 1
  else
    let root := power (square a) (n / 2)
    if n % 2 = 1 then mul a root else root
termination_by n

/-- The inverse of a nonzero number; zero goes to zero. -/
def inverse (a : Element) : Element := power a (prime - 2)

theorem reduce_lt (n : Nat) : reduce n < prime := Nat.mod_lt n (by decide)

theorem add_lt (a b : Element) : add a b < prime := reduce_lt _

theorem sub_lt (a b : Element) : sub a b < prime := reduce_lt _

theorem mul_lt (a b : Element) : mul a b < prime := reduce_lt _

end Element

end CryptoSuite.Curve25519
