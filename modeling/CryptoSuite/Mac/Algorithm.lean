import CryptoSuite.Memory.Buffer
import CryptoSuite.Text.Record
import CryptoSuite.Text.Quoted

/-! Message authentication: what a keyed algorithm provides, and the one-shot operations on top
of it. -/
namespace CryptoSuite.Mac

/-- A keyed algorithm whose computations have states in `σ`. -/
structure Algorithm (κ σ : Type) where
  name : String
  macSize : Nat
  /-- The recommended key length; other lengths are accepted. -/
  keySize : Nat
  create : Bytes → Attempt κ σ
  update : σ → Bytes → Action κ (Status × σ)
  /-- Writes the leading bytes of the code, as many as the output holds, and starts over under
  the same key. -/
  finalize : σ → Bytes → Action κ (Status × Bytes × σ)
  release : σ → Action κ Unit

/-- One computation of an algorithm under one key. -/
structure Context (κ σ : Type) where
  algorithm : Algorithm κ σ
  state : σ

variable {κ σ : Type}

namespace Context

def macSize (c : Context κ σ) : Nat := c.algorithm.macSize

def digest (c : Context κ σ) (data : Bytes) : Action κ (Status × Context κ σ) := do
  let (status, state) ← c.algorithm.update c.state data
  pure (status, { c with state })

def finalize (c : Context κ σ) (out : Bytes) : Action κ (Status × Bytes × Context κ σ) := do
  let (status, out, state) ← c.algorithm.finalize c.state out
  pure (status, out, { c with state })

def release (c : Context κ σ) : Action κ Unit := c.algorithm.release c.state

def text : String := "MacContext(***)"

end Context

namespace Algorithm

def init (a : Algorithm κ σ) (key : Bytes) : Attempt κ (Context κ σ) := do
  let state ← a.create key
  pure ⟨a, state⟩

def buffer (a : Algorithm κ σ) : Attempt κ Buffer := Buffer.new a.macSize

def keyBuffer (a : Algorithm κ σ) : Attempt κ Buffer := Buffer.new a.keySize

/-- The full code of `message` under `key`, in a new buffer that is requested once the message
is absorbed. -/
def compute (a : Algorithm κ σ) (key message : Bytes) : Attempt κ Buffer := do
  let c ← a.init key
  let (status, c) ← Fallible.perform (c.digest message)
  let out ← Fallible.releasing c.release do
    Attempt.require status
    a.buffer
  let (status, code, c) ← Fallible.perform (c.finalize out.bytes)
  Fallible.perform c.release
  Fallible.releasing out.release (Attempt.require status)
  pure (out.setBytes code)

/-- Checks a tag, which may be a truncated code. -/
def verify (a : Algorithm κ σ) (key message tag : Bytes) : Attempt κ Unit := do
  let c ← a.init key
  let (status, c) ← Fallible.perform (c.digest message)
  Fallible.releasing c.release (Attempt.require status)
  let (status, expected, c) ← Fallible.perform (c.finalize (Bytes.zeros tag.length))
  Fallible.perform c.release
  Attempt.require status
  if expected.agree tag then pure () else throw (.verificationFailed .mac)

def text (a : Algorithm κ σ) : String :=
  Text.RecordText.render
    ⟨"MacOptions", [("algorithm", Text.quote a.name), ("mac_size", toString a.macSize)], true⟩

end Algorithm

end CryptoSuite.Mac
