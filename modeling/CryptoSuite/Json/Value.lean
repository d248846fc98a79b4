import CryptoSuite.Json.Literal
import CryptoSuite.Json.Number
import CryptoSuite.Text.Quoted

/-! The typed values that configuration texts consist of: one of a set of names, and a small
number. A value of another type is named in the refusal. -/
namespace CryptoSuite.Json.Reader

variable {α : Type}

/-- The type of the value that begins with `first`, which is read as far as its refusal shows. -/
def seen (first : Char) : Reader Seen :=
  if first = 'n' then do
    skip
    keyword "ull".toList
    pure .null
  else if first = 't' then do
    skip
    keyword "rue".toList
    pure (.boolean true)
  else if first = 'f' then do
    skip
    keyword "alse".toList
    pure (.boolean false)
  else if first = '-' ∨ isDigit first then number
  else if first = '"' then do
    let content ← string
    pure (.string (Text.quote content))
  else if first = '[' then pure .sequence
  else if first = '\x7b' then pure .map
  else refuse .expectedValue

/-- Refuses the value that begins with `first` for its type. -/
def refuseType (first : Char) (wanted : Wanted) : Reader α := do
  refuse (.wrongType (← seen first) wanted)

/-- A number that one octet holds. -/
def octet : Reader Nat := do
  let first ← someToken .value
  if first = '-' ∨ isDigit first then
    match ← number with
    | .natural n => if n < 256 then pure n else refuse (.outOfRange (.natural n) .multiplier)
    | .negative n => refuse (.outOfRange (.negative n) .multiplier)
    | other => refuse (.wrongType other .multiplier)
  else refuseType first .multiplier

/-- The colon between a name and its value. -/
def colon : Reader Unit := do
  if (← someToken .object) = ':' then skip else refuse .expectedColon

def nothing : Reader Unit := do
  let first ← someToken .value
  if first = 'n' then
    skip
    keyword "ull".toList
  else refuseType first .unit

/-- What a name stands for. -/
def named (names : List (String × α)) (name : String) : Reader α :=
  match names.lookup name with
  | some a => pure a
  | none => refuse (.unknownVariant name (names.map Prod.fst))

/-- One of a set of names: the name as a string, or an object that maps the name to nothing. -/
def variant (names : List (String × α)) : Reader α := do
  let first ← someToken .value
  if first = '"' then
    let name ← string
    named names name
  else if first = '\x7b' then
    skip
    let second ← someToken .object
    let name ←
      if second = '"' then string
      else if second = '\x7d' then refuse .expectedValue
      else refuse .keyNotString
    let a ← named names name
    colon
    nothing
    if (← someToken .object) = '\x7d' then skip else refuse .expectedValue
    pure a
  else refuse .expectedValue

end CryptoSuite.Json.Reader
