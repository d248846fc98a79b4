import CryptoSuite.Memory.Buffer
import CryptoSuite.Text.Record
import CryptoSuite.Text.Quoted

/-! Stream ciphers. A stream writes into an output that the caller keeps, at an offset that
advances past what was written. -/
namespace CryptoSuite.StreamCipher

/-- An output and the place in it where the next byte goes. -/
structure Cursor where
  output : Bytes
  offset : Nat
  deriving DecidableEq, Repr

/-- A stream cipher whose keyed states lie in `σ`. -/
structure Algorithm (κ σ : Type) where
  name : String
  keySize : Nat
  ivSize : Nat
  create : Bytes → Attempt κ σ
  /-- Begins a stream under a vector and writes the vector to the front of the output. -/
  startEncryption : σ → Bytes → Cursor → Action κ (Status × Cursor × σ)
  /-- Begins a stream whose vector is at the front of the input. -/
  startDecryption : σ → Bytes → Nat → Action κ (Status × Nat × σ)
  /-- Resumes a stream under a vector at an absolute position. -/
  continueEncryption : σ → Bytes → UInt64 → Action κ (Status × σ)
  continueDecryption : σ → Bytes → UInt64 → Action κ (Status × σ)
  encrypt : σ → Bytes → Cursor → Action κ (Status × Cursor × σ)
  decrypt : σ → Bytes → Cursor → Action κ (Status × Cursor × σ)
  release : σ → Action κ Unit

/-- A keyed state of an algorithm. -/
structure Context (κ σ : Type) where
  algorithm : Algorithm κ σ
  state : σ

variable {κ σ : Type}

namespace Context

def startEncryption (c : Context κ σ) (iv : Bytes) (out : Cursor) :
    Action κ (Status × Cursor × Context κ σ) := do
  let (status, out, state) ← c.algorithm.startEncryption c.state iv out
  pure (status, out, { c with state })

def startDecryption (c : Context κ σ) (input : Bytes) (offset : Nat) :
    Action κ (Status × Nat × Context κ σ) := do
  let (status, offset, state) ← c.algorithm.startDecryption c.state input offset
  pure (status, offset, { c with state })

def continueEncryption (c : Context κ σ) (iv : Bytes) (position : UInt64) :
    Action κ (Status × Context κ σ) := do
  let (status, state) ← c.algorithm.continueEncryption c.state iv position
  pure (status, { c with state })

def continueDecryption (c : Context κ σ) (iv : Bytes) (position : UInt64) :
    Action κ (Status × Context κ σ) := do
  let (status, state) ← c.algorithm.continueDecryption c.state iv position
  pure (status, { c with state })

def encrypt (c : Context κ σ) (input : Bytes) (out : Cursor) :
    Action κ (Status × Cursor × Context κ σ) := do
  let (status, out, state) ← c.algorithm.encrypt c.state input out
  pure (status, out, { c with state })

def decrypt (c : Context κ σ) (input : Bytes) (out : Cursor) :
    Action κ (Status × Cursor × Context κ σ) := do
  let (status, out, state) ← c.algorithm.decrypt c.state input out
  pure (status, out, { c with state })

def release (c : Context κ σ) : Action κ Unit := c.algorithm.release c.state

def text : String := "StreamContext(***)"

end Context

namespace Algorithm

def init (a : Algorithm κ σ) (key : Bytes) : Attempt κ (Context κ σ) := do
  let state ← a.create key
  pure ⟨a, state⟩

def keyBuffer (a : Algorithm κ σ) : Attempt κ Buffer := Buffer.new a.keySize

def ivBuffer (a : Algorithm κ σ) : Attempt κ Buffer := Buffer.new a.ivSize

def text (a : Algorithm κ σ) : String :=
  Text.RecordText.render ⟨"StreamOptions", [("algorithm", Text.quote a.name)], true⟩

end Algorithm

end CryptoSuite.StreamCipher
