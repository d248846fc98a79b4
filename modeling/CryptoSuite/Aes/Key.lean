import CryptoSuite.Memory.Buffer
import CryptoSuite.Aes.Cipher
import CryptoSuite.Aes.Rounds

/-! Expanded keys for one direction, held in memory of the machine's allocator. -/
namespace CryptoSuite

/-- Why a key schedule could not be built. -/
inductive ScheduleError
  | unsupportedKeyLength (length : Nat)
  | outOfMemory
  deriving DecidableEq, Repr

namespace ScheduleError

def message : ScheduleError → String
  | unsupportedKeyLength length =>
      s!"unsupported AES key length: {length} bytes (expected 16, 24 or 32)"
  | outOfMemory => "out of memory while expanding the AES key schedule"

def forEncryption (c : Component) : ScheduleError → CryptoError
  | unsupportedKeyLength _ => .badEncryptionKey c
  | outOfMemory => .outOfMemory c

def forDecryption (c : Component) : ScheduleError → CryptoError
  | unsupportedKeyLength _ => .badDecryptionKey c
  | outOfMemory => .outOfMemory c

end ScheduleError

/-- A key schedule for one direction: the round keys and their number, less one. -/
structure AesKey where
  schedule : Buffer
  rounds : Nat
  deriving DecidableEq, Repr

namespace AesKey

variable {κ : Type}

def storage (size : Nat) : Fallible ScheduleError κ Buffer :=
  (Buffer.new size).adapt fun _ => .outOfMemory

def encryption (key : Bytes) (m : RoundMultiplier) : Fallible ScheduleError κ AesKey := do
  match m.rounds? key.length with
  | none => throw (.unsupportedKeyLength key.length)
  | some rounds =>
    let schedule ← storage (16 * (rounds + 1))
    pure ⟨schedule.setBytes (Aes.encryptionSchedule key rounds), rounds⟩

def release (k : AesKey) : Action κ Unit := k.schedule.release

/-- The encryption schedule exists while the decryption schedule is made from it, and is given
back in every case. -/
def decryption (key : Bytes) (m : RoundMultiplier) : Fallible ScheduleError κ AesKey := do
  let enc ← encryption key m
  let schedule ← Fallible.releasing enc.release (storage enc.schedule.size)
  Fallible.perform enc.release
  pure ⟨schedule.setBytes (Aes.decryptionSchedule enc.schedule.bytes enc.rounds), enc.rounds⟩

def roundKey (k : AesKey) (round : Nat) : Aes.Block := Aes.roundKey k.schedule.bytes round

def encryptBlock (k : AesKey) (b : Aes.Block) : Aes.Block :=
  Aes.encryptBlock k.roundKey k.rounds b

def decryptBlock (k : AesKey) (b : Aes.Block) : Aes.Block :=
  Aes.decryptBlock k.roundKey k.rounds b

/-- The text of a key shows its rounds only. -/
def text (k : AesKey) : String := s!"AesKey(rounds = {k.rounds}, ***)"

end AesKey

end CryptoSuite
