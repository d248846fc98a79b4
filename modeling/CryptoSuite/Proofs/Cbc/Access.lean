import CryptoSuite.BlockCipher.Cbc
import CryptoSuite.Proofs.Aes.Access
import CryptoSuite.Proofs.BlockCipher.Mirror

/-! The accesses of a block cipher to its working block, to its key and to an output of one block. -/
namespace CryptoSuite.Cbc

open BlockCipher (Direction)

variable {κ : Type}

namespace State

/-- A state in which no access fails. -/
structure InRange (s : State) : Prop where
  key : s.key.Whole
  size : s.working.size = 16

/-- Copies one block of input over the working block. -/
def load? (s : State) (input : Bytes) : Option (Except CryptoError Aes.Block) :=
  if input.length ≠ 16 then some (.error (.invalidArgument .block (.notABlock 16 input.length)))
  else do
    let working ← s.working.bytes.fill? 0 16 input
    let block ← Aes.Block.ofBytes? (← working.slice? 0 16)
    pure (.ok block)

def deliver? (s : State) (out : Bytes) (block : Aes.Block) : Option (Status × Bytes × State) := do
  let working ← s.working.bytes.fill? 0 16 block.toList
  let out ← out.fill? 0 out.length block.toList
  pure (.ok (), out, { s with working := s.working.setBytes working })

def encrypt? (s : State) (iv input out : Bytes) : Option (Status × Bytes × State) :=
  if s.direction ≠ .encryption then some (.error (.invalidArgument .block .keyedForDecryption), out, s)
  else do
    match ← s.load? input with
    | .error e => pure (.error e, out, s)
    | .ok block => s.deliver? out (← s.key.encryptBlock? (block.mask iv))

def decrypt? (s : State) (iv input out : Bytes) : Option (Status × Bytes × State) :=
  if s.direction ≠ .decryption then some (.error (.invalidArgument .block .keyedForEncryption), out, s)
  else do
    match ← s.load? input with
    | .error e => pure (.error e, out, s)
    | .ok block =>
      let block ← s.key.decryptBlock? block
      s.deliver? out (block.mask iv)

namespace InRange

variable {s : State} {out : Bytes}

/-- The working block is never too small. -/
theorem load (h : s.InRange) (input : Bytes) :
    s.load? input = some (Cbc.load s input) ∧ ∀ e, Cbc.load s input = .error e → e.Ordinary := by
  have hl : s.working.bytes.length = 16 := h.size
  unfold load? Cbc.load
  split_ifs with hi
  · exact ⟨rfl, fun _ he => by cases he; nofun⟩
  · have hi : input.length = 16 - 0 := not_not.mp hi
    have hw : (s.working.bytes.overwrite 0 input).length = 16 := by rw [Bytes.length_overwrite] <;> omega
    have hblock : Aes.Block.ofBytes? ((s.working.bytes.overwrite 0 input).take 16) =
        some (Aes.Block.read ((s.working.bytes.overwrite 0 input).take 16) 0) := by
      apply if_pos
      rw [List.length_take]
      omega
    simp only [Bytes.fill?_eq (Nat.zero_le _) hl.ge hi, Bytes.slice?_front hw.ge, Option.bind_eq_bind,
      Option.bind_some, Buffer.write, Buffer.bytes_setBytes, hblock]
    exact ⟨rfl, nofun⟩

theorem deliver (h : s.InRange) (hout : out.length = 16) (block : Aes.Block) :
    s.deliver? out block = some (Cbc.deliver s out block) ∧ (Cbc.deliver s out block).2.2.InRange := by
  have hl : s.working.bytes.length = 16 := h.size
  have hb : block.toList.length = 16 - 0 := by simp
  constructor
  · unfold deliver?
    rw [hout, Bytes.fill?_eq (Nat.zero_le _) hl.ge hb, Bytes.fill?_eq (Nat.zero_le _) hout.ge hb]
    rfl
  · refine ⟨h.key, (Bytes.length_overwrite ?_).trans hl⟩
    omega

theorem encrypt (h : s.InRange) (iv input : Bytes) (hout : out.length = 16) :
    s.encrypt? iv input out = some (Cbc.encrypt s iv input out) ∧
      Status.Ordinary (Cbc.encrypt s iv input out).1 ∧ (Cbc.encrypt s iv input out).2.2.InRange := by
  obtain ⟨hload, herror⟩ := h.load input
  unfold encrypt? Cbc.encrypt
  split_ifs with hd
  · exact ⟨rfl, .error nofun, h⟩
  · rw [hload]
    cases hb : Cbc.load s input with
    | error e => exact ⟨rfl, .error (herror e hb), h⟩
    | ok block =>
      obtain ⟨hdeliver, ht⟩ := h.deliver hout (s.key.encryptBlock (block.mask iv))
      simp only [Option.bind_eq_bind, Option.bind_some, h.key.encryptBlock?_eq, hdeliver]
      exact ⟨trivial, .ok, ht⟩

theorem decrypt (h : s.InRange) (iv input : Bytes) (hout : out.length = 16) :
    s.decrypt? iv input out = some (Cbc.decrypt s iv input out) ∧
      Status.Ordinary (Cbc.decrypt s iv input out).1 ∧ (Cbc.decrypt s iv input out).2.2.InRange := by
  obtain ⟨hload, herror⟩ := h.load input
  unfold decrypt? Cbc.decrypt
  split_ifs with hd
  · exact ⟨rfl, .error nofun, h⟩
  · rw [hload]
    cases hb : Cbc.load s input with
    | error e => exact ⟨rfl, .error (herror e hb), h⟩
    | ok block =>
      obtain ⟨hdeliver, ht⟩ := h.deliver hout ((s.key.decryptBlock block).mask iv)
      simp only [Option.bind_eq_bind, Option.bind_some, h.key.decryptBlock?_eq, hdeliver]
      exact ⟨trivial, .ok, ht⟩

end InRange

end State

/-- The schedule for one direction, with `fault` in place of every access out of range. -/
def scheduleGuarded (fault : CryptoError) (m : RoundMultiplier) (key : Bytes) : Direction → Attempt κ AesKey
  | .encryption => AesKey.orFault fault (ScheduleError.forEncryption .block) (AesKey.encryption? key m)
  | .decryption => AesKey.orFault fault (ScheduleError.forDecryption .block) (AesKey.decryption? key m)

def createGuarded (fault : CryptoError) (m : RoundMultiplier) (key : Bytes) (d : Direction) :
    Attempt κ State := do
  if key.length ≠ 32 then throw (badKey d)
  let schedule ← scheduleGuarded fault m key d
  let working ← Fallible.releasing schedule.release (Buffer.newFor .block 16)
  pure ⟨d, schedule, working⟩

/-- The cipher with `fault` in place of every access out of range. -/
def guarded (fault : CryptoError) (m : RoundMultiplier) : BlockCipher.Algorithm κ State :=
  { algorithm m with
    create := createGuarded fault m
    encrypt := fun s iv input out => pure ((s.encrypt? iv input out).getD (.error fault, out, s))
    decrypt := fun s iv input out => pure ((s.decrypt? iv input out).getD (.error fault, out, s)) }

theorem mirrors_schedule (fault : CryptoError) (m : RoundMultiplier) (key : Bytes) (d : Direction) :
    Attempt.Mirrors (fun k k' => k = k' ∧ k'.Whole) (scheduleGuarded (κ := κ) fault m key d)
      (schedule m key d) := by
  cases d with
  | encryption =>
    exact AesKey.mirrors_orFault fault (AesKey.ordinary_forEncryption .block) (AesKey.mirrors_encryption key m)
  | decryption =>
    exact AesKey.mirrors_orFault fault (AesKey.ordinary_forDecryption .block) (AesKey.mirrors_decryption key m)

theorem mirrors_create (fault : CryptoError) (m : RoundMultiplier) (key : Bytes) (d : Direction) :
    Attempt.Mirrors (fun s s' => s = s' ∧ s'.InRange) (createGuarded (κ := κ) fault m key d)
      (create m key d) := by
  unfold createGuarded create
  split_ifs
  · cases d <;> exact .throw trivial
  apply (mirrors_schedule fault m key d).bind
  rintro schedule _ ⟨rfl, hs⟩
  apply ((Buffer.mirrors_newFor .block 16).releasing schedule.mirrors_releaseKey).bind
  rintro working _ ⟨rfl, hw⟩
  exact .pure ⟨rfl, hs, hw⟩

/-- No access is out of range, so that nothing is seen of what stands in the place of one. -/
theorem mirrors_guarded (fault : CryptoError) (m : RoundMultiplier) :
    (guarded (κ := κ) fault m).Mirrors (algorithm m) State.InRange where
  ivSize_eq := rfl
  blockSize_eq := rfl
  create := mirrors_create fault m
  encrypt _ iv input _ hs hout := .getD (hs.encrypt iv input hout)
  decrypt _ iv input _ hs hout := .getD (hs.decrypt iv input hout)
  release _ := rfl

end CryptoSuite.Cbc
