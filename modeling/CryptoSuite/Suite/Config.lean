import CryptoSuite.Aes.Rounds

/-! Which suite to build, and with which round multipliers. The selection can be written as a
JSON text and read from one. -/
namespace CryptoSuite

inductive SuiteId
  | veloV1
  | mock
  deriving DecidableEq, Repr

namespace SuiteId

def all : List SuiteId := [veloV1, mock]

def name : SuiteId → String
  | veloV1 => "velo_v1"
  | mock => "mock"

def label : SuiteId → String
  | veloV1 => "VeloV1"
  | mock => "Mock"

def number : SuiteId → UInt32
  | veloV1 => 0x00000001
  | mock => 0x80000000

def ofName (name : String) : Except CryptoError SuiteId :=
  match all.find? fun s => s.name == name with
  | some s => .ok s
  | none => .error (.invalidConfiguration (.unknownSuite name))

def ofNumber (number : UInt32) : Except CryptoError SuiteId :=
  match all.find? fun s => s.number == number with
  | some s => .ok s
  | none => .error (.invalidConfiguration (.unknownSuiteId number))

def toJson (s : SuiteId) : String := "\"" ++ s.name ++ "\""

def reader : Json.Reader SuiteId := Json.Reader.variant (all.map fun s => (s.name, s))

theorem ofName_name (s : SuiteId) : ofName s.name = .ok s := by cases s <;> rfl

theorem ofNumber_number (s : SuiteId) : ofNumber s.number = .ok s := by cases s <;> rfl

end SuiteId

structure Config where
  suite : SuiteId
  block : RoundMultiplier
  stream : RoundMultiplier
  deriving DecidableEq, Repr

namespace Config

/-- The selection that every field left out falls back to. -/
def default : Config := ⟨.veloV1, .fips, .fips⟩

def ofSuite (s : SuiteId) : Config := { default with suite := s }

inductive Field
  | suite
  | block
  | stream
  deriving DecidableEq, Repr

def Field.all : List Field := [suite, block, stream]

def Field.name : Field → String
  | suite => "suite"
  | block => "block_cipher_rounds"
  | stream => "stream_cipher_rounds"

def readField (c : Config) : Field → Json.Reader Config
  | .suite => do pure { c with suite := ← SuiteId.reader }
  | .block => do pure { c with block := ← RoundMultiplier.reader }
  | .stream => do pure { c with stream := ← RoundMultiplier.reader }

/-- The field of a name that has not been given before. -/
def fieldOf (given : List Field) (name : String) : Json.Reader Field :=
  match Field.all.find? fun f => f.name == name with
  | none => Json.Reader.refuse (.unknownField name (Field.all.map Field.name))
  | some f =>
    if f ∈ given then Json.Reader.refuse (.duplicateField name)
    else pure f

open Json (Reader)
open Json.Reader

/-- Whether another element follows, in front of which the reader stops. -/
def nextElement (first : Bool) : Reader Bool := do
  let c ← someToken .list
  if c = ']' then pure false
  else if first then pure true
  else if c = ',' then
    skip
    if (← someToken .value) = ']' then refuse .trailingComma else pure true
  else refuse .expectedCommaOrBracket

/-- The fields in their order, as many of them as the list has. -/
def readElements (first : Bool) (c : Config) : List Field → Reader Config
  | [] => pure c
  | f :: fs => do
      if ← nextElement first then
        let c ← c.readField f
        readElements false c fs
      else pure c

def closeList : Reader Unit := do
  let c ← someToken .list
  if c = ']' then skip
  else if c = ',' then
    skip
    if (← nextToken) = some ']' then refuse .trailingComma else refuse .trailingCharacters
  else refuse .trailingCharacters

/-- Whether another member follows, in front of whose name the reader stops. -/
def nextMember (first : Bool) : Reader Bool := do
  let c ← someToken .object
  if c = '\x7d' then pure false
  else if first then
    if c = '"' then pure true else refuse .keyNotString
  else if c = ',' then
    skip
    let c ← someToken .value
    if c = '"' then pure true
    else if c = '\x7d' then refuse .trailingComma
    else refuse .keyNotString
  else refuse .expectedCommaOrBrace

/-- Members in any order, none twice, so that `room` fields are left at most. -/
def readMembers (given : List Field) (c : Config) : (room : Nat) → Reader Config
  | 0 => do
      if ← nextMember given.isEmpty then
        let name ← string
        let _ ← fieldOf given name
      pure c
  | room + 1 => do
      if ← nextMember given.isEmpty then
        let name ← string
        let f ← fieldOf given name
        colon
        let c ← c.readField f
        readMembers (f :: given) c room
      else pure c

/-- A configuration: an object with some of the fields, or a list of the first few. -/
def reader : Reader Config := do
  let first ← someToken .value
  if first = '[' then
    skip
    let c ← readElements true default Field.all
    closeList
    pure c
  else if first = '\x7b' then
    skip
    let c ← readMembers [] default Field.all.length
    skip
    pure c
  else refuseType first .configuration

def ofJson (text : String) : Except CryptoError Config :=
  (readAll reader text).mapError fun fault => .invalidConfiguration (.json fault)

def toJson (c : Config) : String :=
  "\x7b\"suite\":" ++ c.suite.toJson ++ ",\"block_cipher_rounds\":" ++ c.block.toJson
    ++ ",\"stream_cipher_rounds\":" ++ c.stream.toJson ++ "\x7d"

end Config

end CryptoSuite
