import CryptoSuite.Proofs.Aes.Access
import CryptoSuite.Proofs.Ctr.Counting
import CryptoSuite.Proofs.StreamCipher.Mirror

/-! The accesses of a stream to its two blocks, to its key and to its arguments. At most sixteen bytes of the
keystream block are used at any time, and the next byte is taken after the block has been made anew. -/
namespace CryptoSuite.Ctr

open StreamCipher (Cursor)

namespace State

/-- A state in which no access fails. -/
structure InRange (s : State) : Prop where
  key : s.key.Whole
  size : s.blocks.size = 32
  used_le : s.used ≤ 16

/-- Copies the counter block over the keystream block and transforms it there. -/
def refill? (s : State) : Option State := do
  let counter ← Aes.Block.ofBytes? (← s.blocks.bytes.slice? 0 16)
  let stream ← s.key.encryptBlock? counter
  let blocks ← s.blocks.bytes.fill? 16 32 stream.toList
  pure { s with blocks := s.blocks.setBytes blocks }

def advance? (s : State) : Option State := do
  let counter ← s.blocks.bytes.slice? 0 16
  let blocks ← s.blocks.bytes.fill? 0 16 (increment counter)
  refill? { s with blocks := s.blocks.setBytes blocks }

def loadNonce? (s : State) (nonce : Bytes) : Option (Except CryptoError State) :=
  if nonce.length ≠ nonceSize then some (.error (.invalidArgument .stream (.length .iv nonceSize nonce.length)))
  else do
    let blocks ← s.blocks.bytes.fill? 0 nonceSize nonce
    pure (.ok { s with blocks := s.blocks.setBytes blocks })

def seek? (s : State) (position : UInt64) : Option State := do
  let blocks ← s.blocks.bytes.fill? nonceSize 16 (Bytes.ofUInt64 (position / 16))
  let s ← refill? { s with blocks := s.blocks.setBytes blocks }
  pure { s with used := (position % 16).toNat, started := true }

def ready? (s : State) : Option State :=
  if s.used = 16 then do
    let s ← s.advance?
    pure { s with used := 0 }
  else some s

def nextByte? (s : State) : Option (UInt8 × State) := do
  let s ← s.ready?
  let k ← s.blocks.bytes[16 + s.used]?
  let used ← size? (s.used + 1)
  pure (k, { s with used })

/-- The input masked with the keystream, a byte at a time. -/
def mask? (s : State) : Bytes → Option (Bytes × State)
  | [] => some ([], s)
  | x :: input => do
    let (k, s) ← s.nextByte?
    let (made, s) ← s.mask? input
    pure ((x ^^^ k) :: made, s)

def process? (s : State) (input : Bytes) (out : Cursor) : Option (Status × Cursor × State) :=
  if !s.started then some (.error (.invalidArgument .stream .notStarted), out, s)
  else if out.output.length < out.offset + input.length then
    some (.error (.invalidArgument .stream
      (.outputOverflow out.output.length input.length out.offset)), out, s)
  else do
    let (made, s) ← s.mask? input
    let output ← out.output.fill? out.offset (out.offset + input.length) made
    pure (.ok (), ⟨output, out.offset + input.length⟩, s)

def startEncryption? (s : State) (nonce : Bytes) (out : Cursor) : Option (Status × Cursor × State) :=
  if out.output.length < nonceSize then some (.error (.invalidArgument .stream .outputBelowIv), out, s)
  else do
    match ← s.loadNonce? nonce with
    | .error e => pure (.error e, out, s)
    | .ok s => do
      let output ← out.output.fill? 0 nonceSize nonce
      let s ← s.seek? 0
      pure (.ok (), ⟨output, nonceSize⟩, s)

def resume? (s : State) (nonce : Bytes) (position : UInt64) : Option (Status × State) := do
  match ← s.loadNonce? nonce with
  | .error e => pure (.error e, s)
  | .ok s => do
    let s ← s.seek? position
    pure (.ok (), s)

def startDecryption? (s : State) (input : Bytes) (offset : Nat) : Option (Status × Nat × State) :=
  if input.length < nonceSize then some (.error (.invalidArgument .stream .inputBelowIv), offset, s)
  else do
    match ← s.resume? (← input.slice? 0 nonceSize) 0 with
    | (.error e, s) => pure (.error e, offset, s)
    | (.ok _, s) => pure (.ok (), nonceSize, s)

namespace InRange

variable {s : State}

theorem refill (h : s.InRange) : ∃ t, s.refill? = some t ∧ s.refill = (.ok (), t) ∧ t.InRange := by
  have hl : s.blocks.bytes.length = 32 := h.size
  have hcounter := length_counter h.size
  have hstream : (s.key.encryptBlock (Aes.Block.read s.counter 0)).toList.length = 32 - 16 := by simp
  refine ⟨_, ?_, refill_of_size h.size, h.key, size_write h.size (by simp), h.used_le⟩
  unfold refill?
  rw [Bytes.slice?_front (by omega), Option.bind_eq_bind, Option.bind_some]
  change (do let counter ← Aes.Block.ofBytes? s.counter; _) = _
  rw [Aes.Block.ofBytes?, if_pos hcounter, Option.bind_eq_bind, Option.bind_some, h.key.encryptBlock?_eq,
    Option.bind_some, Bytes.fill?_eq (by decide) hl.ge hstream]
  rfl

/-- A copy into the blocks that has room there. -/
theorem write (h : s.InRange) (start : Nat) (src : Bytes) (hs : start + src.length ≤ 32) :
    InRange { s with blocks := s.blocks.write start src } :=
  ⟨h.key, size_write h.size hs, h.used_le⟩

theorem advance (h : s.InRange) : ∃ t, s.advance? = some t ∧ s.advance = (.ok (), t) ∧ t.InRange := by
  have hl : s.blocks.bytes.length = 32 := h.size
  have hcounter : (increment s.counter).length = 16 := by rw [length_increment, length_counter h.size]
  obtain ⟨t, ht, hrun, hr⟩ := (h.write 0 (increment s.counter) (by omega)).refill
  refine ⟨t, ?_, hrun, hr⟩
  unfold advance?
  rw [Bytes.slice?_front (by omega), Option.bind_eq_bind, Option.bind_some]
  change (do let blocks ← s.blocks.bytes.fill? 0 16 (increment s.counter); _) = _
  rw [Bytes.fill?_eq (by decide) (by omega) hcounter]
  exact ht

theorem loadNonce (h : s.InRange) (nonce : Bytes) :
    s.loadNonce? nonce = some (s.loadNonce nonce) ∧ (∀ e, s.loadNonce nonce = .error e → e.Ordinary) ∧
      ∀ t, s.loadNonce nonce = .ok t → nonce.length = nonceSize ∧ t.InRange := by
  have hl : s.blocks.bytes.length = 32 := h.size
  unfold loadNonce? State.loadNonce
  split_ifs with hn
  · exact ⟨rfl, fun _ he => by cases he; nofun, nofun⟩
  · have hn : nonce.length = nonceSize - 0 := not_not.mp hn
    rw [Bytes.fill?_eq (Nat.zero_le _) (by rw [hl]; decide) hn]
    refine ⟨rfl, nofun, ?_⟩
    rintro _ ⟨⟩
    exact ⟨hn, h.write 0 nonce (by rw [hn]; decide)⟩

theorem seek (h : s.InRange) (position : UInt64) :
    ∃ t, s.seek? position = some t ∧ s.seek position = (.ok (), t) ∧ t.InRange := by
  have hl : s.blocks.bytes.length = 32 := h.size
  have hindex : (Bytes.ofUInt64 (position / 16)).length = 16 - nonceSize := Bytes.length_ofUInt64 _
  have hw := h.write nonceSize (Bytes.ofUInt64 (position / 16)) (by rw [hindex]; decide)
  obtain ⟨t, ht, hrun, hr⟩ := hw.refill
  have hused : (position % 16).toNat ≤ 16 := by
    rw [UInt64.toNat_mod]
    exact (Nat.mod_lt _ (by decide)).le
  refine ⟨{ t with used := (position % 16).toNat, started := true }, ?_, ?_, hr.key, hr.size, hused⟩
  · unfold seek?
    rw [Bytes.fill?_eq (by decide) (by omega) hindex, Option.bind_eq_bind, Option.bind_some]
    exact congrArg (Option.bind · _) ht
  · unfold State.seek
    dsimp only
    rw [hrun]

/-- A byte of the keystream block is unused. -/
theorem ready (h : s.InRange) :
    ∃ t, s.ready? = some t ∧ s.ready = (.ok (), t) ∧ t.InRange ∧ t.used < 16 := by
  unfold ready? State.ready
  by_cases hu : s.used = 16
  · obtain ⟨t, ht, hrun, hr⟩ := h.advance
    simp only [if_pos hu, ht, hrun]
    exact ⟨{ t with used := 0 }, rfl, rfl, ⟨hr.key, hr.size, Nat.zero_le _⟩, Nat.zero_lt_succ _⟩
  · have hle := h.used_le
    simp only [if_neg hu]
    exact ⟨s, rfl, rfl, h, by omega⟩

theorem nextByte (h : s.InRange) :
    ∃ k t, s.nextByte? = some (k, t) ∧ s.nextByte = (.ok k, t) ∧ t.InRange := by
  obtain ⟨u, hu, hrun, hr, hlt⟩ := h.ready
  have hl : u.blocks.bytes.length = 32 := hr.size
  have hk : u.blocks.bytes[16 + u.used]? = some (u.blocks.bytes.getD (16 + u.used) 0) := by
    rw [List.getD_eq_getElem?_getD, List.getElem?_eq_getElem (by omega)]
    rfl
  refine ⟨u.blocks.bytes.getD (16 + u.used) 0, { u with used := u.used + 1 }, ?_, ?_, hr.key, hr.size, hlt⟩
  · unfold nextByte?
    rw [hu, Option.bind_eq_bind, Option.bind_some, hk, size?_eq (by omega)]
    rfl
  · unfold State.nextByte
    rw [hrun]

/-- There is no byte after seventeen of sixteen. -/
example : nextByte? ⟨⟨⟨0, Bytes.zeros 240⟩, 14⟩, ⟨⟨1, Bytes.zeros 32⟩⟩, 17, true⟩ = none := by decide

/-- No byte fails, so that the loop masks all of the input. -/
theorem mask (h : s.InRange) (input made : Bytes) : ∃ masked t, s.mask? input = some (masked, t) ∧
    input.foldl Progress.step ⟨.ok (), made, s⟩ = ⟨.ok (), masked.reverse ++ made, t⟩ ∧
      masked.length = input.length ∧ t.InRange := by
  induction input generalizing s made with
  | nil => exact ⟨[], s, rfl, rfl, rfl, h⟩
  | cons x input ih =>
    obtain ⟨k, t, hnext, hrun, ht⟩ := h.nextByte
    obtain ⟨masked, u, hmask, hfold, hl, hu⟩ := ih ht ((x ^^^ k) :: made)
    refine ⟨(x ^^^ k) :: masked, u, ?_, ?_, congrArg (· + 1) hl, hu⟩
    · unfold mask?
      rw [hnext, Option.bind_eq_bind, Option.bind_some]
      dsimp only
      rw [hmask]
      rfl
    · have hstep : Progress.step ⟨.ok (), made, s⟩ x = ⟨.ok (), (x ^^^ k) :: made, t⟩ := by
        unfold Progress.step
        rw [hrun]
      rw [List.foldl_cons, hstep, hfold, List.reverse_cons, List.append_assoc]
      rfl

theorem apply (h : s.InRange) (input : Bytes) (out : Cursor) :
    s.process? input out = some (Ctr.apply s input out) ∧ Status.Ordinary (Ctr.apply s input out).1 ∧
      (Ctr.apply s input out).2.2.InRange := by
  obtain ⟨masked, t, hmask, hfold, hl, ht⟩ := h.mask input []
  unfold process? Ctr.apply
  split_ifs with hs ho
  · exact ⟨rfl, .error nofun, h⟩
  · exact ⟨rfl, .error nofun, h⟩
  · rw [hmask, hfold, List.append_nil]
    simp only [Option.bind_eq_bind, Option.bind_some, List.reverse_reverse]
    rw [Bytes.fill?_eq (Nat.le_add_right _ _) (by omega) (by omega)]
    exact ⟨rfl, .ok, ht⟩

theorem startEncryption (h : s.InRange) (nonce : Bytes) (out : Cursor) :
    s.startEncryption? nonce out = some (Ctr.startEncryption s nonce out) ∧
      Status.Ordinary (Ctr.startEncryption s nonce out).1 ∧ (Ctr.startEncryption s nonce out).2.2.InRange := by
  unfold startEncryption? Ctr.startEncryption
  split_ifs with ho
  · exact ⟨rfl, .error nofun, h⟩
  · obtain ⟨hload, herror, hok⟩ := h.loadNonce nonce
    rw [hload]
    cases hn : s.loadNonce nonce with
    | error e => exact ⟨rfl, .error (herror e hn), h⟩
    | ok t =>
      obtain ⟨hl, ht⟩ := hok t hn
      obtain ⟨u, hseek, hrun, hu⟩ := ht.seek 0
      have hfit : nonce.length = nonceSize - 0 := hl
      simp only [Option.bind_eq_bind, Option.bind_some, hrun, hseek]
      rw [Bytes.fill?_eq (Nat.zero_le _) (Nat.le_of_not_lt ho) hfit]
      exact ⟨rfl, .ok, hu⟩

theorem resume (h : s.InRange) (nonce : Bytes) (position : UInt64) :
    s.resume? nonce position = some (Ctr.resume s nonce position) ∧
      Status.Ordinary (Ctr.resume s nonce position).1 ∧ (Ctr.resume s nonce position).2.InRange := by
  obtain ⟨hload, herror, hok⟩ := h.loadNonce nonce
  unfold resume? Ctr.resume
  rw [hload]
  cases hn : s.loadNonce nonce with
  | error e => exact ⟨rfl, .error (herror e hn), h⟩
  | ok t =>
    obtain ⟨u, hseek, hrun, hu⟩ := (hok t hn).2.seek position
    simp only [Option.bind_eq_bind, Option.bind_some, hrun, hseek]
    exact ⟨rfl, .ok, hu⟩

theorem startDecryption (h : s.InRange) (input : Bytes) (offset : Nat) :
    s.startDecryption? input offset = some (Ctr.startDecryption s input offset) ∧
      Status.Ordinary (Ctr.startDecryption s input offset).1 ∧
        (Ctr.startDecryption s input offset).2.2.InRange := by
  unfold startDecryption? Ctr.startDecryption
  split_ifs with hi
  · exact ⟨rfl, .error nofun, h⟩
  · obtain ⟨hresume, hok, hr⟩ := h.resume (input.take nonceSize) 0
    rw [Bytes.slice?_front (by omega), Option.bind_eq_bind, Option.bind_some, hresume]
    rcases hrun : Ctr.resume s (input.take nonceSize) 0 with ⟨e | _, t⟩ <;> rw [hrun] at hok hr
    · exact ⟨rfl, hok, hr⟩
    · exact ⟨rfl, .ok, hr⟩

end InRange

end State

variable {κ : Type}

/-- Creates with `fault` in place of every access out of range. -/
def createGuarded (fault : CryptoError) (m : RoundMultiplier) (key : Bytes) : Attempt κ State := do
  if key.length ≠ 32 then throw (.badEncryptionKey .stream)
  let schedule ← AesKey.orFault fault (ScheduleError.forEncryption .stream) (AesKey.encryption? key m)
  let blocks ← Fallible.releasing schedule.release (Buffer.newFor .stream 32)
  pure ⟨schedule, blocks, 0, false⟩

/-- The cipher with `fault` in place of every access out of range. -/
def guarded (fault : CryptoError) (m : RoundMultiplier) : StreamCipher.Algorithm κ State :=
  { algorithm m with
    create := createGuarded fault m
    startEncryption := fun s iv out => pure ((s.startEncryption? iv out).getD (.error fault, out, s))
    startDecryption := fun s input offset =>
      pure ((s.startDecryption? input offset).getD (.error fault, offset, s))
    continueEncryption := fun s iv position => pure ((s.resume? iv position).getD (.error fault, s))
    continueDecryption := fun s iv position => pure ((s.resume? iv position).getD (.error fault, s))
    encrypt := fun s input out => pure ((s.process? input out).getD (.error fault, out, s))
    decrypt := fun s input out => pure ((s.process? input out).getD (.error fault, out, s)) }

theorem mirrors_create (fault : CryptoError) (m : RoundMultiplier) (key : Bytes) :
    Attempt.Mirrors (fun s s' => s = s' ∧ s'.InRange) (createGuarded (κ := κ) fault m key) (create m key) := by
  unfold createGuarded create
  split_ifs
  · exact .throw trivial
  have hkey := AesKey.mirrors_orFault fault (AesKey.ordinary_forEncryption .stream)
    (AesKey.mirrors_encryption (κ := κ) key m)
  apply hkey.bind
  rintro schedule _ ⟨rfl, hs⟩
  apply ((Buffer.mirrors_newFor .stream 32).releasing schedule.mirrors_releaseKey).bind
  rintro blocks _ ⟨rfl, hb⟩
  exact .pure ⟨rfl, hs, hb, Nat.zero_le _⟩

/-- No access is out of range, so that nothing is seen of what stands in the place of one. -/
theorem mirrors_guarded (fault : CryptoError) (m : RoundMultiplier) :
    (guarded (κ := κ) fault m).Mirrors (algorithm m) State.InRange where
  create := mirrors_create fault m
  startEncryption _ iv out hs := .getD (hs.startEncryption iv out)
  startDecryption _ input offset hs := .getD (hs.startDecryption input offset)
  continueEncryption _ iv position hs := .getD (hs.resume iv position)
  continueDecryption _ iv position hs := .getD (hs.resume iv position)
  encrypt _ input out hs := .getD (hs.apply input out)
  decrypt _ input out hs := .getD (hs.apply input out)
  release _ := rfl

end CryptoSuite.Ctr
