import CryptoSuite.Json.Fault

/-! Readers of JSON texts. A reader takes something off the front of a text or refuses the text;
what it meets first decides how. -/
namespace CryptoSuite.Json

abbrev Reader (α : Type) := StateT (List Char) (Except Fault) α

def isSpace (c : Char) : Bool := c == ' ' || c == '\n' || c == '\t' || c == '\r'

namespace Reader

variable {α : Type}

def refuse (fault : Fault) : Reader α := fun _ => .error fault

/-- The next character, if any, which stays where it is. -/
def peek : Reader (Option Char) := fun text => .ok (text.head?, text)

def skip : Reader Unit := fun text => .ok ((), text.drop 1)

def skipSpace : Reader Unit := fun text => .ok ((), text.dropWhile isSpace)

/-- The first character of the next token, which stays where it is. -/
def nextToken : Reader (Option Char) := do
  skipSpace
  peek

/-- The first character of the next token, which has to exist. -/
def someToken (place : Unfinished) : Reader Char := do
  match ← nextToken with
  | some c => pure c
  | none => refuse (.unfinished place)

/-- The rest of a literal name. -/
def keyword : List Char → Reader Unit
  | [] => pure ()
  | expected :: rest => do
      match ← peek with
      | none => refuse (.unfinished .value)
      | some c =>
        if c = expected then
          skip
          keyword rest
        else refuse .expectedIdent

/-- Only space may follow. -/
def finish : Reader Unit := do
  match ← nextToken with
  | none => pure ()
  | some _ => refuse .trailingCharacters

/-- What a whole text stands for. -/
def readAll (reader : Reader α) (text : String) : Except Fault α :=
  (do let a ← reader; finish; pure a : Reader α).run' text.toList

end Reader

end CryptoSuite.Json
