import CryptoSuite.Bytes

/-! Hexadecimal text: lower case is written, either case is read, and a text that is not
hexadecimal is refused with the position of its first fault. -/
namespace CryptoSuite.Hex

/-- Why a text is not hexadecimal. An odd length is noticed before any bad symbol. -/
inductive Fault
  | length (position : Nat)
  | symbol (position : Nat)
  deriving DecidableEq, Repr

def Fault.text : Fault → String
  | .length position => s!"invalid length at {position}"
  | .symbol position => s!"invalid symbol at {position}"

def digit (n : Nat) : Char := "0123456789abcdef".toList.getD n '0'

def encodeByte (b : UInt8) : List Char := [digit (b.toNat / 16), digit (b.toNat % 16)]

def encode (b : Bytes) : String := String.ofList (b.flatMap encodeByte)

/-- The value of an octet read as a hexadecimal digit in US-ASCII. -/
def value? (c : UInt8) : Option UInt8 :=
  if 48 ≤ c ∧ c ≤ 57 then some (c - 48)
  else if 65 ≤ c ∧ c ≤ 70 then some (c - 55)
  else if 97 ≤ c ∧ c ≤ 102 then some (c - 87)
  else none

/-- The octets spelled by pairs of digits, or `none` at a symbol that is no digit. -/
def pairs : Bytes → Option Bytes
  | [] => some []
  | [_] => none
  | a :: b :: rest => do
      let high ← value? a
      let low ← value? b
      let tail ← pairs rest
      pure ((16 * high + low) :: tail)

/-- Positions count octets of the UTF-8 encoding. -/
def decode (text : String) : Except Fault Bytes :=
  let symbols := text.toUTF8.toList
  if symbols.length % 2 = 1 then .error (.length (symbols.length - 1))
  else match pairs symbols with
    | some bytes => .ok bytes
    | none => .error (.symbol (symbols.findIdx fun c => (value? c).isNone))

/-- The lower-case digits of `n`, at least `width` of them. -/
def padded (width n : Nat) : String :=
  let digits := Nat.toDigits 16 n
  String.ofList (List.replicate (width - digits.length) '0' ++ digits)

/-- An identifier as `0x` and eight digits. -/
def identifier (id : UInt32) : String := "0x" ++ padded 8 id.toNat

end CryptoSuite.Hex
