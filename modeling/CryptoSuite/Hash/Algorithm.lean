import CryptoSuite.Memory.Buffer
import CryptoSuite.Text.Record
import CryptoSuite.Text.Quoted

/-! Hash functions: what an algorithm provides, and the checked operations on top of it. An
operation that writes answers its outcome, the output afterwards and the state afterwards. -/
namespace CryptoSuite.Hash

/-- A hash function whose computations have states in `σ`. -/
structure Algorithm (κ σ : Type) where
  name : String
  digestSize : Nat
  /-- The length of an internal block, to which keys are padded. -/
  blockSize : Nat
  create : Attempt κ σ
  update : σ → Bytes → Action κ (Status × σ)
  /-- Writes the digest to the beginning of the output and starts over. -/
  finalize : σ → Bytes → Action κ (Status × Bytes × σ)
  reset : σ → σ
  /-- Gives back the memory that a state owns. -/
  release : σ → Action κ Unit

/-- One computation of an algorithm. -/
structure Context (κ σ : Type) where
  algorithm : Algorithm κ σ
  state : σ

variable {κ σ : Type}

namespace Context

def digestSize (c : Context κ σ) : Nat := c.algorithm.digestSize

def digest (c : Context κ σ) (data : Bytes) : Action κ (Status × Context κ σ) := do
  let (status, state) ← c.algorithm.update c.state data
  pure (status, { c with state })

/-- An output shorter than the digest is refused before the algorithm sees it. -/
def finalize (c : Context κ σ) (out : Bytes) : Action κ (Status × Bytes × Context κ σ) := do
  if out.length < c.digestSize then
    pure (.error (.invalidArgument .hash (.shortDigestBuffer out.length c.digestSize)), out, c)
  else do
    let (status, out, state) ← c.algorithm.finalize c.state out
    pure (status, out, { c with state })

def reset (c : Context κ σ) : Context κ σ := { c with state := c.algorithm.reset c.state }

def release (c : Context κ σ) : Action κ Unit := c.algorithm.release c.state

def text : String := "HashContext(***)"

end Context

namespace Algorithm

def init (a : Algorithm κ σ) : Attempt κ (Context κ σ) := do
  let state ← a.create
  pure ⟨a, state⟩

def buffer (a : Algorithm κ σ) : Attempt κ Buffer := Buffer.new a.digestSize

/-- The digest of `data` in a new buffer. -/
def hash (a : Algorithm κ σ) (data : Bytes) : Attempt κ Buffer := do
  let c ← a.init
  let (status, c) ← Fallible.perform (c.digest data)
  let out ← Fallible.releasing c.release do
    Attempt.require status
    a.buffer
  let (status, digest, c) ← Fallible.perform (c.finalize out.bytes)
  Fallible.perform c.release
  Fallible.releasing out.release (Attempt.require status)
  pure (out.setBytes digest)

def text (a : Algorithm κ σ) : String :=
  Text.RecordText.render
    ⟨"HashOptions", [("algorithm", Text.quote a.name), ("digest_size", toString a.digestSize)], true⟩

end Algorithm

end CryptoSuite.Hash
