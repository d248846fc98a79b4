/-! Binary floating point of 64 bits, as far as messages show it: what a decimal number rounds to,
and the shortest decimal number that rounds to a given one. -/
namespace CryptoSuite.Json

/-- The magnitude of a finite number, in units of 2^-1074. -/
abbrev Magnitude := Nat

namespace Magnitude

def one : Nat := 1 <<< 1074

/-- The magnitudes from here on are infinite. -/
def infinity : Nat := one <<< 1024

/-- The distance to the next larger magnitude. -/
def gap (x : Magnitude) : Nat := 1 <<< (x.log2 - 52)

/-- The magnitude nearest to a fraction, the even one of two. -/
def ofFraction (numerator denominator : Nat) : Magnitude :=
  let scaled := numerator * one
  let unit := gap (scaled / denominator)
  let whole := scaled / (denominator * unit)
  let rest := 2 * (scaled % (denominator * unit))
  let up := denominator * unit < rest ∨ (rest = denominator * unit ∧ whole % 2 = 1)
  (if up then whole + 1 else whole) * unit

def power (n : Nat) : Magnitude := ofFraction (Nat.pow 10 n) 1

def mul (x y : Magnitude) : Magnitude := ofFraction (x * y) (one * one)

def div (x y : Magnitude) : Magnitude := ofFraction x y

/-- The magnitude of a significand times a power of ten, rounded at each of at most three steps;
`none` beyond the finite ones. -/
def ofDecimal (significand : Nat) (exponent : Int) : Option Magnitude :=
  let x := ofFraction significand 1
  if 308 < exponent then (if x = 0 then some 0 else none)
  else if 0 ≤ exponent then
    let y := mul x (power exponent.toNat)
    if y < infinity then some y else none
  else shrink 3 x (-exponent).toNat
where
  /-- Divides by powers of ten whose exponents are 308 at most. Three of them leave nothing. -/
  shrink : Nat → Magnitude → Nat → Option Magnitude
    | 0, _, _ => some 0
    | steps + 1, x, n =>
        if n ≤ 308 then some (div x (power n)) else shrink steps (div x (power 308)) (n - 308)

/-- A multiple of 10^k that rounds to `x`, nearest to it, as the factor. Everything is measured in
quarters of a unit, so that the bounds half way to the neighbours are whole. -/
def factor? (x : Magnitude) (k : Int) : Option Nat :=
  let scale := Nat.pow 10 (-k).toNat
  let step := 4 * one * Nat.pow 10 k.toNat
  let centre := 4 * x * scale
  let above := 2 * gap x * scale
  let below := if x = 1 <<< x.log2 ∧ 1 < gap x then gap x * scale else above
  let even := x / gap x % 2 = 0
  let inside (n : Nat) : Bool :=
    n ≠ 0 && if even then centre ≤ n * step + below && n * step ≤ centre + above
      else centre < n * step + below && n * step < centre + above
  let low := centre / step
  let rest := 2 * (centre % step)
  let nearest := if step < rest ∨ (rest = step ∧ low % 2 = 1) then low + 1 else low
  [nearest, low, low + 1].find? inside

/-- The shortest digits that round to `x`, as a number and the exponent of its last digit. -/
def shortest (x : Magnitude) : Nat × Int :=
  let exponents := (List.range 633).map fun (i : Nat) => (308 : Int) - i
  (exponents.findSome? fun k => (x.factor? k).map fun n => (n, k)).getD (0, 0)

/-- Digits with a point or an exponent. Numbers that are neither large nor small have no
exponent. -/
def text (x : Magnitude) : String :=
  if x = 0 then "0.0"
  else
    let (n, k) := x.shortest
    let digits := toString n
    let length : Int := digits.length
    let point := length + k
    if 0 ≤ k ∧ point ≤ 16 then digits ++ String.ofList (List.replicate k.toNat '0') ++ ".0"
    else if 0 < point ∧ point ≤ 16 then
      String.ofList (digits.toList.take point.toNat) ++ "."
        ++ String.ofList (digits.toList.drop point.toNat)
    else if -5 < point ∧ point ≤ 0 then
      "0." ++ String.ofList (List.replicate (-point).toNat '0') ++ digits
    else
      let tail := digits.toList.drop 1
      String.ofList (digits.toList.take 1 ++ if tail.isEmpty then [] else '.' :: tail)
        ++ (if 0 < point then "e+" else "e") ++ toString (point - 1)

end Magnitude

end CryptoSuite.Json
