import CryptoSuite.Error

/-! The round multiplier: how many times the standard number of rounds the cipher runs. -/
namespace CryptoSuite

inductive RoundMultiplier
  | fips
  | double
  | triple
  | quadruple
  deriving DecidableEq, Repr

namespace RoundMultiplier

def all : List RoundMultiplier := [fips, double, triple, quadruple]

def factor : RoundMultiplier → Nat
  | fips => 1
  | double => 2
  | triple => 3
  | quadruple => 4

def label : RoundMultiplier → String
  | fips => "Fips"
  | double => "Double"
  | triple => "Triple"
  | quadruple => "Quadruple"

def ofFactor? (n : Nat) : Option RoundMultiplier := all.find? fun m => m.factor == n

/-- The multiplier with factor `n`; only 1 to 4 have one. -/
def ofFactor (n : Nat) : Except CryptoError RoundMultiplier :=
  match ofFactor? n with
  | some m => .ok m
  | none => .error (.invalidConfiguration (.unsupportedMultiplier n))

/-- The number of rounds under a key of `keyLength` bytes, if the cipher has such keys. -/
def rounds? (m : RoundMultiplier) (keyLength : Nat) : Option Nat :=
  if keyLength = 16 then some (10 * m.factor)
  else if keyLength = 24 then some (12 * m.factor)
  else if keyLength = 32 then some (14 * m.factor)
  else none

/-- A multiplier is read from the octet that is its factor. -/
def reader : Json.Reader RoundMultiplier := do
  let n ← Json.Reader.octet
  match ofFactor? n with
  | some m => pure m
  | none => Json.Reader.refuse (.unsupportedMultiplier n)

def ofJson (text : String) : Except Json.Fault RoundMultiplier := Json.Reader.readAll reader text

def toJson (m : RoundMultiplier) : String := toString m.factor

theorem ofFactor_factor (m : RoundMultiplier) : ofFactor m.factor = .ok m := by
  cases m <;> rfl

end RoundMultiplier

end CryptoSuite
