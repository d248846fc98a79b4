import CryptoSuite.Memory.Buffer
import CryptoSuite.Text.Record
import CryptoSuite.Text.Quoted

/-! Random byte sources, and the identifiers made from their bytes. -/
namespace CryptoSuite.Random

/-- A source fills the slice it is given. -/
structure Algorithm (κ : Type) where
  name : String
  read : Bytes → Action κ (Status × Bytes)

def uuidSize : Nat := 16

/-- The fixed bits of a random identifier: version 4 in the high nibble of byte 6, and the
variant in the two high bits of byte 8. -/
def markUuid (random : Bytes) : Bytes :=
  (random.modify 6 fun b => (b &&& 0x0F) ||| 0x40).modify 8 fun b => (b &&& 0x3F) ||| 0x80

@[simp] theorem length_markUuid (random : Bytes) : (markUuid random).length = random.length := by
  simp [markUuid]

/-- The source of the machine, which never fails. -/
def operatingSystem {κ : Type} : Algorithm κ where
  name := "OS"
  read out := do
    let bytes ← Action.readEntropy out.length
    pure (.ok (), bytes)

namespace Algorithm

variable {κ : Type}

def readBuffer (a : Algorithm κ) (size : Nat) : Attempt κ Buffer := do
  let out ← Buffer.new size
  let (status, bytes) ← Fallible.perform (a.read out.bytes)
  Fallible.releasing out.release (Attempt.require status)
  pure (out.setBytes bytes)

def readUuid (a : Algorithm κ) (out : Bytes) : Action κ (Status × Bytes) := do
  if out.length ≠ uuidSize then
    pure (.error (.invalidArgument .prng (.length .uuidBuffer uuidSize out.length)), out)
  else do
    match ← a.read out with
    | (.error e, out) => pure (.error e, out)
    | (.ok _, out) => pure (.ok (), markUuid out)

def text (a : Algorithm κ) : String :=
  Text.RecordText.render ⟨"PrngOptions", [("algorithm", Text.quote a.name)], true⟩

def contextText (a : Algorithm κ) : String :=
  Text.RecordText.render ⟨"PrngContext", [("algorithm", Text.quote a.name)], false⟩

end Algorithm

end CryptoSuite.Random
