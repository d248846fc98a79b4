import CryptoSuite.Machine
import CryptoSuite.Text.Hex

/-! Owned, fixed-size, never empty byte regions that are zeroed before they go back to the
allocator. -/
namespace CryptoSuite

structure Buffer where
  region : Region
  deriving DecidableEq, Repr

namespace Buffer

variable {κ : Type}

def bytes (b : Buffer) : Bytes := b.region.bytes

def size (b : Buffer) : Nat := b.bytes.length

def setBytes (b : Buffer) (bytes : Bytes) : Buffer := ⟨{ b.region with bytes }⟩

@[simp] theorem bytes_setBytes (b : Buffer) (bytes : Bytes) : (b.setBytes bytes).bytes = bytes := rfl

@[simp] theorem region_id_setBytes (b : Buffer) (bytes : Bytes) :
    (b.setBytes bytes).region.id = b.region.id := rfl

def write (b : Buffer) (start : Nat) (src : Bytes) : Buffer :=
  b.setBytes (b.bytes.overwrite start src)

/-- Overwrites the whole content with zeros. -/
def wipe (b : Buffer) : Buffer := b.setBytes (Bytes.zeros b.size)

/-- A zeroed buffer. A region of the wrong size is given back at once and counts as refused. -/
def new (size : Nat) : Attempt κ Buffer := do
  if size = 0 then throw (.invalidArgument .buffer .emptyBuffer)
  match ← Fallible.perform (Action.onHeap fun h => h.request size) with
  | none => throw (.outOfMemory .buffer)
  | some region =>
    if region.bytes.length = size then
      pure ⟨region⟩
    else do
      Fallible.perform (Action.onHeap fun h => ((), h.giveBack region))
      throw (.outOfMemory .buffer)

/-- Working storage of a component, against which refused memory is reported. -/
def newFor (c : Component) (size : Nat) : Attempt κ Buffer := (new size).within c

/-- Zeroes the buffer, then gives its region back. -/
def release (b : Buffer) : Action κ Unit :=
  Action.onHeap fun h => ((), h.giveBack b.wipe.region)

def ofBytes (content : Bytes) : Attempt κ Buffer := do
  let b ← new content.length
  pure (b.setBytes content)

def ofHex (text : String) : Attempt κ Buffer :=
  match Hex.decode text with
  | .error fault => throw (.invalidArgument .buffer (.hex fault))
  | .ok content => ofBytes content

def toHex (b : Buffer) : String := Hex.encode b.bytes

/-- Copies `src` into the beginning of the buffer. -/
def readData (b : Buffer) (src : Bytes) : Except CryptoError Buffer :=
  if src.length ≤ b.size then .ok (b.write 0 src)
  else .error (.copySizeMismatch b.size src.length)

/-- The beginning of the buffer, as many bytes as the destination holds. -/
def writeData (b : Buffer) (dst : Bytes) : Except CryptoError Bytes :=
  if dst.length ≤ b.size then .ok (b.bytes.take dst.length)
  else .error (.copySizeMismatch b.size dst.length)

/-- Copies the whole content of a buffer of the same size. -/
def copyFrom (b src : Buffer) : Except CryptoError Buffer :=
  if src.size = b.size then .ok (b.setBytes src.bytes)
  else .error (.copySizeMismatch b.size src.size)

def text : String := "Buffer(***)"

end Buffer

end CryptoSuite
