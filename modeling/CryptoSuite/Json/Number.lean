import CryptoSuite.Json.Floating
import CryptoSuite.Json.Reader

/-! Numbers. A number is an integer if it has neither fraction nor exponent and 64 bits hold it;
every other number is a floating point number. -/
namespace CryptoSuite.Json

def isDigit (c : Char) : Bool := '0' ≤ c && c ≤ '9'

def digitValue (c : Char) : Nat := c.toNat - 48

/-- Appends digits to a significand as long as 64 bits hold it. Also counts the digits that were
left out, which are all from the first one that did not fit. -/
def appendDigits (significand : Nat) : List Char → Nat × Nat
  | [] => (significand, 0)
  | d :: ds =>
      let next := 10 * significand + digitValue d
      if next < 1 <<< 64 then appendDigits next ds else (significand, ds.length + 1)

namespace Reader

def digits : Reader (List Char) := fun text => .ok (text.takeWhile isDigit, text.dropWhile isDigit)

/-- The character that comes next, which has to exist. -/
def someChar : Reader Char := do
  match ← peek with
  | some c => pure c
  | none => refuse (.unfinished .value)

def floating (negative : Bool) (significand : Nat) (exponent : Int) : Reader Seen :=
  match Magnitude.ofDecimal significand exponent with
  | none => refuse .numberOutOfRange
  | some x => pure (.floating ((if negative then "-" else "") ++ x.text))

/-- The exponent, from its letter on. One beyond 32 bits leaves only zero. -/
def exponent (negative : Bool) (significand : Nat) (start : Int) : Reader Seen := do
  skip
  let sign ← peek
  if sign = some '+' ∨ sign = some '-' then skip
  if isDigit (← someChar) then
    let size := (← digits).foldl (fun n d => 10 * n + digitValue d) 0
    if 1 <<< 31 ≤ size then
      if significand ≠ 0 ∧ sign ≠ some '-' then refuse .numberOutOfRange
      else floating negative 0 0
    else floating negative significand (if sign = some '-' then start - size else start + size)
  else refuse .invalidNumber

/-- The fraction, from its point on, and the exponent if there is one. -/
def fraction (negative : Bool) (significand : Nat) (start : Int) : Reader Seen := do
  skip
  let ds ← digits
  if ds.isEmpty then
    let _ ← someChar
    refuse .invalidNumber
  else
    let (significand, left) := appendDigits significand ds
    let start := start - ((ds.length - left : Nat) : Int)
    let next ← peek
    if next = some 'e' ∨ next = some 'E' then exponent negative significand start
    else floating negative significand start

/-- An integer of 64 bits. The negative ones reach less far, and zero has no negative. -/
def integer (negative : Bool) (significand : Nat) : Reader Seen :=
  if !negative then pure (.natural significand)
  else if 0 < significand ∧ significand ≤ 1 <<< 63 then pure (.negative significand)
  else floating true significand 0

def unsigned (negative : Bool) : Reader Seen := do
  if isDigit (← someChar) then
    let ds ← digits
    if 1 < ds.length ∧ ds.head? = some '0' then refuse .invalidNumber
    else
      let (significand, left) := appendDigits 0 ds
      let next ← peek
      if next = some '.' then fraction negative significand left
      else if next = some 'e' ∨ next = some 'E' then exponent negative significand left
      else if left = 0 then integer negative significand
      else floating negative significand left
  else refuse .invalidNumber

def number : Reader Seen := do
  if (← peek) = some '-' then
    skip
    unsigned true
  else unsigned false

end Reader

end CryptoSuite.Json
