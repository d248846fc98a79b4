import CryptoSuite.BlockCipher.Algorithm
import CryptoSuite.Aes.Key

/-! AES-256 with cipher block chaining, the chaining left to the caller: encryption transforms
the input masked with the vector, decryption masks the transformed input. -/
namespace CryptoSuite.Cbc

open BlockCipher (Direction)

/-- A schedule for one direction and the block being worked on. -/
structure State where
  direction : Direction
  key : AesKey
  working : Buffer
  deriving DecidableEq, Repr

def name : RoundMultiplier → String
  | .fips => "AES-256-CBC"
  | .double => "AES-256-2X-CBC"
  | .triple => "AES-256-3X-CBC"
  | .quadruple => "AES-256-4X-CBC"

variable {κ : Type}

/-- The schedule for one direction; a rejected key is reported for that direction. -/
def schedule (m : RoundMultiplier) (key : Bytes) : Direction → Attempt κ AesKey
  | .encryption => (AesKey.encryption key m).adapt (ScheduleError.forEncryption .block)
  | .decryption => (AesKey.decryption key m).adapt (ScheduleError.forDecryption .block)

def badKey : Direction → CryptoError
  | .encryption => .badEncryptionKey .block
  | .decryption => .badDecryptionKey .block

def create (m : RoundMultiplier) (key : Bytes) (d : Direction) : Attempt κ State := do
  if key.length ≠ 32 then throw (badKey d)
  let schedule ← schedule m key d
  let working ← Fallible.releasing schedule.release (Buffer.newFor .block 16)
  pure ⟨d, schedule, working⟩

def release (s : State) : Action κ Unit := do
  s.key.release
  s.working.release

def load (s : State) (input : Bytes) : Except CryptoError Aes.Block :=
  if input.length ≠ 16 then .error (.invalidArgument .block (.notABlock 16 input.length))
  else
    match Aes.Block.ofBytes? ((s.working.write 0 input).bytes.take 16) with
    | some block => .ok block
    | none => .error (.failure .block .workingBlockTooSmall)

/-- Leaves `block` in the working block and copies it to the output. -/
def deliver (s : State) (out : Bytes) (block : Aes.Block) : Status × Bytes × State :=
  (.ok (), out.overwrite 0 block.toList, { s with working := s.working.write 0 block.toList })

def encrypt (s : State) (iv input out : Bytes) : Status × Bytes × State :=
  if s.direction ≠ .encryption then
    (.error (.invalidArgument .block .keyedForDecryption), out, s)
  else
    match load s input with
    | .error e => (.error e, out, s)
    | .ok block => deliver s out (s.key.encryptBlock (block.mask iv))

def decrypt (s : State) (iv input out : Bytes) : Status × Bytes × State :=
  if s.direction ≠ .decryption then
    (.error (.invalidArgument .block .keyedForEncryption), out, s)
  else
    match load s input with
    | .error e => (.error e, out, s)
    | .ok block => deliver s out ((s.key.decryptBlock block).mask iv)

def algorithm (m : RoundMultiplier) : BlockCipher.Algorithm κ State where
  name := name m
  keySize := 32
  ivSize := 16
  blockSize := 16
  create := create m
  encrypt s iv input out := pure (encrypt s iv input out)
  decrypt s iv input out := pure (decrypt s iv input out)
  release := release

end CryptoSuite.Cbc
