import CryptoSuite.Memory.Buffer
import CryptoSuite.Text.Record
import CryptoSuite.Text.Quoted

/-! Ciphers that transform one block per call, chained on an initialization vector that the
caller passes each time. -/
namespace CryptoSuite.BlockCipher

inductive Direction
  | encryption
  | decryption
  deriving DecidableEq, Repr

/-- A block cipher whose keyed states lie in `σ`. -/
structure Algorithm (κ σ : Type) where
  name : String
  keySize : Nat
  ivSize : Nat
  blockSize : Nat
  create : Bytes → Direction → Attempt κ σ
  /-- The arguments are the vector, the input and the output. -/
  encrypt : σ → Bytes → Bytes → Bytes → Action κ (Status × Bytes × σ)
  decrypt : σ → Bytes → Bytes → Bytes → Action κ (Status × Bytes × σ)
  release : σ → Action κ Unit

/-- A keyed state of an algorithm for one direction. -/
structure Context (κ σ : Type) where
  algorithm : Algorithm κ σ
  state : σ

variable {κ σ : Type}

namespace Context

/-- The lengths of the vector, then of input and output, against those of the cipher. -/
def checkLengths (c : Context κ σ) (iv input out : Bytes) : Status :=
  let size := c.algorithm.blockSize
  if iv.length ≠ c.algorithm.ivSize then
    .error (.invalidArgument .block (.length .iv c.algorithm.ivSize iv.length))
  else if input.length ≠ size ∨ out.length ≠ size then
    .error (.invalidArgument .block (.blockLengths size input.length out.length))
  else .ok ()

/-- Runs one direction of the cipher once the lengths are checked. -/
def apply (c : Context κ σ) (run : σ → Bytes → Bytes → Bytes → Action κ (Status × Bytes × σ))
    (iv input out : Bytes) : Action κ (Status × Bytes × Context κ σ) := do
  match c.checkLengths iv input out with
  | .error e => pure (.error e, out, c)
  | .ok _ => do
    let (status, out, state) ← run c.state iv input out
    pure (status, out, { c with state })

def encrypt (c : Context κ σ) (iv input out : Bytes) : Action κ (Status × Bytes × Context κ σ) :=
  c.apply c.algorithm.encrypt iv input out

def decrypt (c : Context κ σ) (iv input out : Bytes) : Action κ (Status × Bytes × Context κ σ) :=
  c.apply c.algorithm.decrypt iv input out

/-- Encrypts blocks in a row, each under the ciphertext of the one before. The first error ends the
row. -/
def encryptChain (c : Context κ σ) (iv : Bytes) :
    List Bytes → Action κ (Except CryptoError (List Bytes) × Context κ σ)
  | [] => pure (.ok [], c)
  | input :: rest => do
      match ← c.encrypt iv input (Bytes.zeros c.algorithm.blockSize) with
      | (.error e, _, c) => pure (.error e, c)
      | (.ok _, out, c) => do
        let (made, c) ← c.encryptChain out rest
        pure (made.map (out :: ·), c)

/-- Decrypts blocks in a row, each under the ciphertext of the one before. The first error ends the
row. -/
def decryptChain (c : Context κ σ) (iv : Bytes) :
    List Bytes → Action κ (Except CryptoError (List Bytes) × Context κ σ)
  | [] => pure (.ok [], c)
  | input :: rest => do
      match ← c.decrypt iv input (Bytes.zeros c.algorithm.blockSize) with
      | (.error e, _, c) => pure (.error e, c)
      | (.ok _, out, c) => do
        let (made, c) ← c.decryptChain input rest
        pure (made.map (out :: ·), c)

def release (c : Context κ σ) : Action κ Unit := c.algorithm.release c.state

def text : String := "BlockContext(***)"

end Context

namespace Algorithm

def init (a : Algorithm κ σ) (key : Bytes) (d : Direction) : Attempt κ (Context κ σ) := do
  let state ← a.create key d
  pure ⟨a, state⟩

def keyBuffer (a : Algorithm κ σ) : Attempt κ Buffer := Buffer.new a.keySize

def blockBuffer (a : Algorithm κ σ) : Attempt κ Buffer := Buffer.new a.blockSize

def text (a : Algorithm κ σ) : String :=
  Text.RecordText.render ⟨"BlockOptions", [("algorithm", Text.quote a.name)], true⟩

end Algorithm

end CryptoSuite.BlockCipher
