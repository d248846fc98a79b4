import CryptoSuite.StreamCipher.Algorithm
import CryptoSuite.Aes.Key

/-! AES-256 in counter mode. The counter block is an 8-byte nonce and a big-endian block index;
the keystream is the encryption of the counter blocks in order. -/
namespace CryptoSuite.Ctr

open StreamCipher (Cursor)

def nonceSize : Nat := 8

/-- The buffer holds the counter block, then the keystream block it encrypts to, of which the
first `used` bytes are spent. The next keystream block is made when a byte of it is needed. -/
structure State where
  key : AesKey
  blocks : Buffer
  used : Nat
  started : Bool
  deriving DecidableEq, Repr

def name : RoundMultiplier → String
  | .fips => "AES-256-CTR"
  | .double => "AES-256-2X-CTR"
  | .triple => "AES-256-3X-CTR"
  | .quadruple => "AES-256-4X-CTR"

variable {κ : Type}

def create (m : RoundMultiplier) (key : Bytes) : Attempt κ State := do
  if key.length ≠ 32 then throw (.badEncryptionKey .stream)
  let schedule ← (AesKey.encryption key m).adapt (ScheduleError.forEncryption .stream)
  let blocks ← Fallible.releasing schedule.release (Buffer.newFor .stream 32)
  pure ⟨schedule, blocks, 0, false⟩

def release (s : State) : Action κ Unit := do
  s.key.release
  s.blocks.release

/-- Adds one to a number given by its bytes, least significant first; the sum wraps around. -/
def incrementLittleEndian : Bytes → Bytes
  | [] => []
  | b :: rest => if b + 1 = 0 then 0 :: incrementLittleEndian rest else (b + 1) :: rest

/-- Adds one to a big-endian number; the sum wraps around. -/
def increment (counter : Bytes) : Bytes := (incrementLittleEndian counter.reverse).reverse

@[simp] theorem length_incrementLittleEndian (b : Bytes) :
    (incrementLittleEndian b).length = b.length := by
  induction b with
  | nil => rfl
  | cons b rest ih =>
    simp only [incrementLittleEndian]
    split <;> simp [ih]

@[simp] theorem length_increment (b : Bytes) : (increment b).length = b.length := by
  simp [increment]

namespace State

def counter (s : State) : Bytes := s.blocks.bytes.take 16

def setCounter (s : State) (counter : Bytes) : State :=
  { s with blocks := s.blocks.write 0 counter }

/-- Makes the keystream block of the counter block. -/
def refill (s : State) : Status × State :=
  match Aes.Block.ofBytes? s.counter with
  | none => (.error (.failure .stream .keystreamBlockTooSmall), s)
  | some counter =>
      (.ok (), { s with blocks := s.blocks.write 16 (s.key.encryptBlock counter).toList })

def advance (s : State) : Status × State := (s.setCounter (increment s.counter)).refill

/-- Takes the nonce into the counter block. -/
def loadNonce (s : State) (nonce : Bytes) : Except CryptoError State :=
  if nonce.length ≠ nonceSize then
    .error (.invalidArgument .stream (.length .iv nonceSize nonce.length))
  else .ok { s with blocks := s.blocks.write 0 nonce }

/-- Moves to a byte position of the stream under the nonce that is loaded. -/
def seek (s : State) (position : UInt64) : Status × State :=
  let s := { s with blocks := s.blocks.write nonceSize (Bytes.ofUInt64 (position / 16)) }
  match s.refill with
  | (.error e, s) => (.error e, s)
  | (.ok _, s) => (.ok (), { s with used := (position % 16).toNat, started := true })

/-- Makes sure that a keystream byte is unspent. -/
def ready (s : State) : Status × State :=
  if s.used = 16 then
    match s.advance with
    | (.error e, s) => (.error e, s)
    | (.ok _, s) => (.ok (), { s with used := 0 })
  else (.ok (), s)

def nextByte (s : State) : Except CryptoError UInt8 × State :=
  match s.ready with
  | (.error e, s) => (.error e, s)
  | (.ok _, s) => (.ok (s.blocks.bytes.getD (16 + s.used) 0), { s with used := s.used + 1 })

end State

/-- An input under transformation: the outcome so far, the bytes already made in reverse order,
and the state. -/
structure Progress where
  status : Status
  made : Bytes
  state : State

/-- Transforms one more byte, unless an earlier one failed. -/
def Progress.step (p : Progress) (x : UInt8) : Progress :=
  match p.status with
  | .error _ => p
  | .ok _ =>
    match p.state.nextByte with
    | (.error e, state) => ⟨.error e, p.made, state⟩
    | (.ok k, state) => ⟨.ok (), (x ^^^ k) :: p.made, state⟩

/-- Masks `input` with the keystream; the output must have room for all of it. -/
def apply (s : State) (input : Bytes) (out : Cursor) : Status × Cursor × State :=
  if !s.started then (.error (.invalidArgument .stream .notStarted), out, s)
  else if out.output.length < out.offset + input.length then
    (.error (.invalidArgument .stream
      (.outputOverflow out.output.length input.length out.offset)), out, s)
  else
    let p := input.foldl Progress.step ⟨.ok (), [], s⟩
    let output := out.output.overwrite out.offset p.made.reverse
    match p.status with
    | .error e => (.error e, ⟨output, out.offset⟩, p.state)
    | .ok _ => (.ok (), ⟨output, out.offset + input.length⟩, p.state)

def startEncryption (s : State) (nonce : Bytes) (out : Cursor) : Status × Cursor × State :=
  if out.output.length < nonceSize then
    (.error (.invalidArgument .stream .outputBelowIv), out, s)
  else
    match s.loadNonce nonce with
    | .error e => (.error e, out, s)
    | .ok s =>
      let output := out.output.overwrite 0 nonce
      match s.seek 0 with
      | (.error e, s) => (.error e, ⟨output, out.offset⟩, s)
      | (.ok _, s) => (.ok (), ⟨output, nonceSize⟩, s)

def resume (s : State) (nonce : Bytes) (position : UInt64) : Status × State :=
  match s.loadNonce nonce with
  | .error e => (.error e, s)
  | .ok s => s.seek position

def startDecryption (s : State) (input : Bytes) (offset : Nat) : Status × Nat × State :=
  if input.length < nonceSize then
    (.error (.invalidArgument .stream .inputBelowIv), offset, s)
  else
    match resume s (input.take nonceSize) 0 with
    | (.error e, s) => (.error e, offset, s)
    | (.ok _, s) => (.ok (), nonceSize, s)

def algorithm (m : RoundMultiplier) : StreamCipher.Algorithm κ State where
  name := name m
  keySize := 32
  ivSize := nonceSize
  create := create m
  startEncryption s iv out := pure (startEncryption s iv out)
  startDecryption s input offset := pure (startDecryption s input offset)
  continueEncryption s iv position := pure (resume s iv position)
  continueDecryption s iv position := pure (resume s iv position)
  encrypt s input out := pure (apply s input out)
  decrypt s input out := pure (apply s input out)
  release := release

end CryptoSuite.Ctr
