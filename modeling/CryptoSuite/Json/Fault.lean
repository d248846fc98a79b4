/-! Why a JSON text was refused, with the wording of each cause. -/
namespace CryptoSuite.Json

/-- What the text ended inside. -/
inductive Unfinished
  | value
  | object
  | list
  | string
  deriving DecidableEq, Repr

/-- What a reader was asked for when it met a value of another type. -/
inductive Wanted
  | multiplier
  | unit
  | configuration
  deriving DecidableEq, Repr

/-- A value named by its type, as far as a message shows it. -/
inductive Seen
  | null
  | boolean (value : Bool)
  | natural (value : Nat)
  | negative (magnitude : Nat)
  | floating (digits : String)
  | string (quoted : String)
  | sequence
  | map
  deriving DecidableEq, Repr

inductive Fault
  | unfinished (place : Unfinished)
  | expectedColon
  | expectedCommaOrBracket
  | expectedCommaOrBrace
  | expectedIdent
  | expectedValue
  | invalidEscape
  | invalidNumber
  | numberOutOfRange
  | controlCharacter
  | keyNotString
  | loneSurrogate
  | unfinishedSurrogate
  | trailingComma
  | trailingCharacters
  | wrongType (seen : Seen) (wanted : Wanted)
  | outOfRange (seen : Seen) (wanted : Wanted)
  | unsupportedMultiplier (factor : Nat)
  | unknownVariant (name : String) (known : List String)
  | unknownField (name : String) (known : List String)
  | duplicateField (name : String)
  deriving DecidableEq, Repr

def Unfinished.text : Unfinished → String
  | value => "a value"
  | object => "an object"
  | list => "a list"
  | string => "a string"

def Wanted.text : Wanted → String
  | multiplier => "u8"
  | unit => "unit"
  | configuration => "struct SuiteConfig"

def Seen.text : Seen → String
  | null => "null"
  | boolean true => "boolean `true`"
  | boolean false => "boolean `false`"
  | natural value => s!"integer `{value}`"
  | negative magnitude => s!"integer `-{magnitude}`"
  | floating digits => s!"floating point `{digits}`"
  | string quoted => s!"string {quoted}"
  | sequence => "sequence"
  | map => "map"

/-- The names that a list of alternatives admits: two are joined by `or`, more are listed. -/
def alternatives : List String → String
  | [a] => s!"`{a}`"
  | [a, b] => s!"`{a}` or `{b}`"
  | names => "one of " ++ String.intercalate ", " (names.map fun n => s!"`{n}`")

def Fault.text : Fault → String
  | unfinished place => s!"EOF while parsing {place.text}"
  | expectedColon => "expected `:`"
  | expectedCommaOrBracket => "expected `,` or `]`"
  | expectedCommaOrBrace => "expected `,` or `\x7d`"
  | expectedIdent => "expected ident"
  | expectedValue => "expected value"
  | invalidEscape => "invalid escape"
  | invalidNumber => "invalid number"
  | numberOutOfRange => "number out of range"
  | controlCharacter => "control character (\\u0000-\\u001F) found while parsing a string"
  | keyNotString => "key must be a string"
  | loneSurrogate => "lone leading surrogate in hex escape"
  | unfinishedSurrogate => "unexpected end of hex escape"
  | trailingComma => "trailing comma"
  | trailingCharacters => "trailing characters"
  | wrongType seen wanted => s!"invalid type: {seen.text}, expected {wanted.text}"
  | outOfRange seen wanted => s!"invalid value: {seen.text}, expected {wanted.text}"
  | unsupportedMultiplier factor =>
      s!"invalid suite configuration: unsupported AES round multiplier: {factor} (expected 1-4)"
  | unknownVariant name known => s!"unknown variant `{name}`, expected {alternatives known}"
  | unknownField name known => s!"unknown field `{name}`, expected {alternatives known}"
  | duplicateField name => s!"duplicate field `{name}`"

end CryptoSuite.Json
