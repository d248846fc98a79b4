import CryptoSuite.Memory.Buffer
import CryptoSuite.Sha2.Variant

/-! Hashing a message that arrives in pieces. The chaining value and the block under
construction lie in one buffer of the machine's allocator. -/
namespace CryptoSuite.Sha2

/-- The buffer holds the 64 bytes of the chaining value, then the 128 bytes of the block. The
block's bytes from position `filled` on are left over from earlier blocks. -/
structure State where
  variant : Variant
  storage : Buffer
  /-- The low and the high word of the number of bits absorbed. -/
  bitsLow : UInt64
  bitsHigh : UInt64
  filled : Nat
  deriving DecidableEq, Repr

/-- Compresses the complete blocks of `data`, and returns what is left. -/
def absorbBlocks (chain data : Bytes) : Bytes × Bytes :=
  let block := data.take 128
  if _ : block.length = 128 then
    absorbBlocks (compress (Chain.ofBytes chain) block).toBytes (data.drop 128)
  else (chain, data)
termination_by data.length
decreasing_by
  simp only [block, List.length_take, List.length_drop] at *
  omega

namespace State

variable {κ : Type}

def chain (s : State) : Bytes := s.storage.bytes.take 64

def block (s : State) : Bytes := s.storage.bytes.drop 64

def store (s : State) (chain block : Bytes) : State :=
  { s with storage := s.storage.setBytes (chain ++ block) }

/-- The chaining value after the block, which stays in place. -/
def compressBlock (s : State) : State :=
  s.store (compress (Chain.ofBytes s.chain) s.block).toBytes s.block

def reset (s : State) : State :=
  { s.store s.variant.initial.toBytes (Bytes.zeros 128) with
    bitsLow := 0, bitsHigh := 0, filled := 0 }

def new (v : Variant) : Attempt κ State := do
  let storage ← Buffer.newFor .hash (64 + 128)
  pure (State.reset ⟨v, storage, 0, 0, 0⟩)

def release (s : State) : Action κ Unit := s.storage.release

/-- Adds the bits of `length` bytes to the 128-bit count: the three bits that the shift loses
belong to the high word, as does the carry out of the low one. -/
def countBits (s : State) (length : Nat) : State :=
  let n := UInt64.ofNat length
  let low := s.bitsLow + (n <<< 3)
  let carry : UInt64 := if low < s.bitsLow then 1 else 0
  { s with bitsLow := low, bitsHigh := s.bitsHigh + (n >>> 61) + carry }

/-- Absorbs `data` into a state whose block is empty. -/
def absorb (s : State) (data : Bytes) : State :=
  let (chain, rest) := absorbBlocks s.chain data
  { s.store chain (s.block.overwrite 0 rest) with filled := rest.length }

def update (s : State) (data : Bytes) : State :=
  if data.isEmpty then s
  else
    let s := s.countBits data.length
    if s.filled = 0 then s.absorb data
    else
      let taken := min (128 - s.filled) data.length
      let s' := s.store s.chain (s.block.overwrite s.filled (data.take taken))
      if s.filled + taken < 128 then { s' with filled := s.filled + taken }
      else s'.compressBlock.absorb (data.drop taken)

/-- Marks the end of the message and closes the block; when the length field no longer fits, the
block is compressed and an empty one follows. -/
def closeMessage (s : State) : State :=
  let s := { s with filled := s.filled + 1 }.store s.chain (s.block.overwrite s.filled [0x80])
  if 112 < s.filled then
    { (s.store s.chain (s.block.overwrite s.filled (Bytes.zeros (128 - s.filled)))).compressBlock with
      filled := 0 }
  else s

def finish (s : State) : State :=
  let t := s.closeMessage
  let zeroed := t.block.overwrite t.filled (Bytes.zeros (112 - t.filled))
  let sized := zeroed.overwrite 112 (Bytes.ofUInt64 s.bitsHigh ++ Bytes.ofUInt64 s.bitsLow)
  (t.store t.chain sized).compressBlock

/-- Writes the digest to the beginning of `out` and starts over. An output shorter than the
digest changes nothing. -/
def finalize (s : State) (out : Bytes) : Status × Bytes × State :=
  let size := s.variant.digestSize
  if out.length < size then
    (.error (.invalidArgument .hash (.shortDigestOutput size)), out, s)
  else
    let t := s.finish
    (.ok (), out.overwrite 0 (t.chain.take size), t.reset)

def text (s : State) : String := s!"Sha512State({s.variant.name}, ***)"

end State

end CryptoSuite.Sha2
