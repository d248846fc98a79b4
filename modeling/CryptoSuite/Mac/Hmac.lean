import CryptoSuite.Hash.Algorithm
import CryptoSuite.Mac.Algorithm

/-! HMAC over any hash function. The inner computation is primed with the inner pad, so that
absorbing data is absorbing it there; finishing a code primes it again. -/
namespace CryptoSuite.Hmac

def innerPad : UInt8 := 0x36

def outerPad : UInt8 := 0x5C

/-- The two computations, the inner pad followed by the outer pad, and room for the inner digest
followed by the code. -/
structure State (σ : Type) where
  inner : σ
  outer : σ
  pads : Buffer
  work : Buffer

/-- Twice a size, if regions of that size have addresses. -/
def doubled {κ : Type} (size : Nat) : Attempt κ Nat :=
  if 2 * size < 1 <<< 64 then pure (2 * size)
  else throw (.invalidArgument .mac .hashSizesOverflow)

variable {κ σ : Type}

/-- A computation of the hash function that counts as memory of the code. -/
def createHash (h : Hash.Algorithm κ σ) : Attempt κ σ := h.create.within .mac

/-- The key as one block: a key longer than a block is hashed first, and zeros fill the rest. -/
def paddedKey (h : Hash.Algorithm κ σ) (key : Bytes) : Attempt κ Bytes := do
  if h.blockSize < key.length then
    let state ← createHash h
    let (status, state) ← Fallible.perform (h.update state key)
    Fallible.releasing (h.release state) (Attempt.require status)
    let (status, block, state) ← Fallible.perform (h.finalize state (Bytes.zeros h.blockSize))
    Fallible.perform (h.release state)
    Attempt.require status
    pure block
  else pure (key ++ Bytes.zeros (h.blockSize - key.length))

/-- The inner pad followed by the outer pad of a padded key. -/
def padsOf (key : Bytes) : Bytes := key.map (· ^^^ innerPad) ++ key.map (· ^^^ outerPad)

/-- Memory is requested in the order pads, room, key hash, inner and outer computation. -/
def create (h : Hash.Algorithm κ σ) (key : Bytes) : Attempt κ (State σ) := do
  let pads ← Buffer.newFor .mac (← doubled h.blockSize)
  Fallible.releasing pads.release do
    let work ← Buffer.newFor .mac (← doubled h.digestSize)
    Fallible.releasing work.release do
      let pads := pads.setBytes (padsOf (← paddedKey h key))
      let inner ← createHash h
      let (status, inner) ← Fallible.perform (h.update inner (pads.bytes.take h.blockSize))
      let outer ← Fallible.releasing (h.release inner) do
        Attempt.require status
        createHash h
      pure ⟨inner, outer, pads, work⟩

def release (h : Hash.Algorithm κ σ) (s : State σ) : Action κ Unit := do
  h.release s.inner
  h.release s.outer
  s.pads.release
  s.work.release

def update (h : Hash.Algorithm κ σ) (s : State σ) (data : Bytes) : Action κ (Status × State σ) := do
  let (status, inner) ← h.update s.inner data
  pure (status, { s with inner })

/-- Computes the code into the room, behind the inner digest. A failure of the hash function ends
the computation where it is. -/
def computeCode (h : Hash.Algorithm κ σ) (s : State σ) : Action κ (Status × State σ) := do
  match ← h.finalize s.inner (s.work.bytes.take h.digestSize) with
  | (.error e, digest, inner) => pure (.error e, { s with inner, work := s.work.write 0 digest })
  | (.ok _, digest, inner) =>
    let s := { s with inner, work := s.work.write 0 digest }
    match ← h.update s.outer (s.pads.bytes.drop h.blockSize) with
    | (.error e, outer) => pure (.error e, { s with outer })
    | (.ok _, outer) =>
      match ← h.update outer digest with
      | (.error e, outer) => pure (.error e, { s with outer })
      | (.ok _, outer) =>
        let (status, code, outer) ← h.finalize outer (s.work.bytes.drop h.digestSize)
        pure (status, { s with outer, work := s.work.write h.digestSize code })

/-- Writes the leading bytes of the code to all of `out`, wipes the room and primes the inner
computation for the next message. -/
def finalize (h : Hash.Algorithm κ σ) (s : State σ) (out : Bytes) :
    Action κ (Status × Bytes × State σ) := do
  if out.isEmpty ∨ h.digestSize < out.length then
    pure (.error (.invalidArgument .mac (.macBuffer h.digestSize out.length)), out, s)
  else
    match ← computeCode h s with
    | (.error e, s) => pure (.error e, out, s)
    | (.ok _, s) =>
      let out := out.overwrite 0 ((s.work.bytes.drop h.digestSize).take out.length)
      let (status, inner) ← h.update s.inner (s.pads.bytes.take h.blockSize)
      pure (status, out, { s with inner, work := s.work.wipe })

def algorithm (name : String) (h : Hash.Algorithm κ σ) : Mac.Algorithm κ (State σ) where
  name := name
  macSize := h.digestSize
  keySize := h.digestSize
  create := create h
  update := update h
  finalize := finalize h
  release := release h

def text (name : String) : String :=
  Text.RecordText.render ⟨"Hmac", [("name", Text.quote name)], false⟩

end CryptoSuite.Hmac
