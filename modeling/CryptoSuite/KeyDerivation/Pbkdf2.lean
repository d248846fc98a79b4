import CryptoSuite.Mac.Algorithm

/-! PBKDF2 over any keyed algorithm. The derived key is made in chunks of the size of one code;
each chunk is the sum of a chain of codes that starts at the salt and the chunk's number. -/
namespace CryptoSuite.Pbkdf2

/-- The keyed computation, the last code of the chain and the sum of the chain. -/
structure Chain (σ : Type) where
  mac : σ
  last : Buffer
  sum : Buffer

/-- A step on a chain that may fail; what it did before failing stays done. -/
abbrev Step (κ σ : Type) := ExceptT CryptoError (StateT (Chain σ) (Action κ))

variable {κ σ : Type}

def absorb (prf : Mac.Algorithm κ σ) (data : Bytes) : Step κ σ Unit := ExceptT.mk fun c => do
  let (status, mac) ← prf.update c.mac data
  pure (status, { c with mac })

/-- Replaces the last code by the code of what was absorbed since. -/
def squeeze (prf : Mac.Algorithm κ σ) : Step κ σ Unit := ExceptT.mk fun c => do
  let (status, code, mac) ← prf.finalize c.mac c.last.bytes
  pure (status, { c with mac, last := c.last.setBytes code })

def modifySum (f : Chain σ → Bytes) : Step κ σ Unit := ExceptT.mk fun c =>
  pure (.ok (), { c with sum := c.sum.setBytes (f c) })

/-- Extends the chain by `count` codes, each the code of the one before, and adds them up. -/
def iterate (prf : Mac.Algorithm κ σ) : Nat → Step κ σ Unit
  | 0 => pure ()
  | count + 1 => do
      absorb prf (← get).last.bytes
      squeeze prf
      modifySum fun c => c.sum.bytes.xor c.last.bytes
      iterate prf count

/-- The sum of a chain of `rounds` codes that starts at `seed`. -/
def chunk (prf : Mac.Algorithm κ σ) (seed : Bytes) (rounds : Nat) : Step κ σ Bytes := do
  absorb prf seed
  squeeze prf
  modifySum fun c => c.last.bytes
  iterate prf (rounds - 1)
  pure (← get).sum.bytes

/-- The chunks after chunk number `counter`, one after the other. The number goes into four
bytes behind the salt. -/
def chunks (prf : Mac.Algorithm κ σ) (salt : Bytes) (rounds : Nat) : Nat → Nat → Step κ σ Bytes
  | 0, _ => pure []
  | count + 1, counter => do
      if 1 <<< 32 ≤ counter + 1 then
        throw (.invalidArgument .keyDerivation .chunkCounterOverflow)
      let first ← chunk prf (salt ++ Bytes.ofUInt32 (UInt32.ofNat (counter + 1))) rounds
      let rest ← chunks prf salt rounds count (counter + 1)
      pure (first ++ rest)

def chunkCount (length size : Nat) : Nat := (length + size - 1) / size

/-- The arguments, in the order in which they are judged. -/
def check (macSize length : Nat) (salt : Bytes) (rounds : Nat) : Status :=
  let refuse reason := .error (.invalidArgument .keyDerivation reason)
  if rounds = 0 then refuse .noRounds
  else if length = 0 then refuse .emptyDerivedKey
  else if salt.isEmpty then refuse .emptySalt
  else if macSize = 0 then refuse .emptyPrfOutput
  else if 1 <<< 32 ≤ chunkCount length macSize then refuse .tooManyChunks
  else .ok ()

def deriveBytes (prf : Mac.Algorithm κ σ) (length : Nat) (password salt : Bytes) (rounds : Nat) :
    Attempt κ Bytes := do
  Attempt.require (check prf.macSize length salt rounds)
  let mac ← prf.create password
  let last ← Fallible.releasing (prf.release mac) (Buffer.newFor .keyDerivation prf.macSize)
  let sum ← Fallible.releasing (do last.release; prf.release mac)
    (Buffer.newFor .keyDerivation prf.macSize)
  let (outcome, c) ← Fallible.perform
    ((chunks prf salt rounds (chunkCount length prf.macSize) 0).run ⟨mac, last, sum⟩)
  Fallible.perform do
    c.sum.release
    c.last.release
    prf.release c.mac
  let made ← ExceptT.mk (pure outcome)
  pure (made.take length)

/-- Fills `key`. A failure leaves zeros in all of it. -/
def derive (prf : Mac.Algorithm κ σ) (key password salt : Bytes) (rounds : Nat) :
    Action κ (Status × Bytes) := do
  match ← (deriveBytes prf key.length password salt rounds).run with
  | .ok made => pure (.ok (), made)
  | .error e => pure (.error e, Bytes.zeros key.length)

end CryptoSuite.Pbkdf2
