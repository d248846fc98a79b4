import CryptoSuite.BlockCipher.Cbc
import CryptoSuite.Proofs.Aes.Inverse
import CryptoSuite.Proofs.BlockCipher.Call
import CryptoSuite.Proofs.Bytes.Overwrite
import CryptoSuite.Proofs.Memory.Ownership
import CryptoSuite.Proofs.StreamCipher.Call
import CryptoSuite.StreamCipher.Ctr

/-! The accounts of the ciphers. A keyed state owns its schedule and its working storage, and no call
on it changes which regions these are. -/
namespace CryptoSuite

open Fallible
open CryptoSuite.Action (Turns)

/-- The failures of a step whose arguments are rejected if `p` holds, and which reports refused
memory against `c`. -/
def Failures.rejecting (p : Prop) (c : Component) : Failures CryptoError :=
  ⟨fun _ => p, fun e => e = .outOfMemory c⟩

theorem Failures.rejecting_among_any (p : Prop) (c : Component) :
    (Failures.rejecting p c).Among .any where
  served _ _ := trivial
  refused _ he := ⟨c, he⟩

namespace AesKey

variable {κ : Type} {key : Bytes} {m : RoundMultiplier}

/-- Only a key of a length that the cipher does not have is rejected. -/
def failures (key : Bytes) (m : RoundMultiplier) : Failures ScheduleError where
  served e := m.rounds? key.length = none ∧ e = .unsupportedKeyLength key.length
  refused e := e = .outOfMemory

def own (k : AesKey) : Holdings := {k.schedule.holding}

theorem keeps_storage {f : Failures ScheduleError} {size : Nat} (hs : 0 < size)
    (hr : f.refused .outOfMemory) :
    Keeps f 0 (storage size : Fallible ScheduleError κ Buffer) (fun b => b.bytes = Bytes.zeros size)
      (fun b => {b.holding}) 0 := by
  have hnew := Buffer.keeps_new (κ := κ) (f := .only .buffer) (fun hz => absurd hz hs.ne') rfl
  exact hnew.adapt (fun _ he => he.elim) fun _ _ => hr

theorem keeps_encryption (key : Bytes) (m : RoundMultiplier) :
    Keeps (failures key m) 0 (encryption key m : Fallible ScheduleError κ AesKey)
      (fun k => k.schedule.size = 16 * (k.rounds + 1)) own 0 := by
  unfold encryption
  cases hr : m.rounds? key.length with
  | none => exact Keeps.throw ⟨hr, rfl⟩
  | some rounds =>
    have hl := Aes.length_encryptionSchedule (RoundMultiplier.keyWords_le hr)
    refine (keeps_storage (by omega) rfl).bind fun b hb => Keeps.pure hl ?_
    refine congrArg _ (Buffer.holding_setBytes ?_)
    rw [hl, Buffer.size, hb, Bytes.length_zeros]

/-- The encryption schedule is given back in every case. -/
theorem keeps_decryption (key : Bytes) (m : RoundMultiplier) :
    Keeps (failures key m) 0 (decryption key m : Fallible ScheduleError κ AesKey) (fun _ => True) own
      0 := by
  refine (keeps_encryption key m).bind fun enc henc => ?_
  have hpos : 0 < enc.schedule.size := by omega
  have hstorage := (keeps_storage (κ := κ) (f := failures key m) hpos rfl).beside enc.own
  refine (hstorage.releasing enc.schedule.turns_release).bind fun b hb => ?_
  refine Keeps.turn enc.schedule.turns_release {b.holding} (add_comm _ _) fun _ _ => ?_
  rw [zero_add]
  refine Keeps.pure trivial (congrArg _ (Buffer.holding_setBytes ?_))
  rw [Aes.decryptionSchedule, Aes.length_flatMap_blocks, Buffer.size, hb, Bytes.length_zeros, henc]

/-- A schedule, then working storage beside it, for want of which the schedule is given back. -/
theorem keeps_workspace {α : Type} {p : Prop} {c : Component} {x : Attempt κ AesKey} {size : Nat}
    {make : AesKey → Buffer → α} {Sound : α → Prop} {own : α → Holdings}
    (hx : Keeps (.rejecting p c) 0 x (fun _ => True) AesKey.own 0) (hs : 0 < size)
    (hsound : ∀ k b, b.size = size → Sound (make k b))
    (hown : ∀ k b, own (make k b) = k.own + {b.holding}) :
    Keeps (.rejecting p c) 0 (do
        let k ← x
        let b ← Fallible.releasing k.release (Buffer.newFor c size)
        pure (make k b))
      Sound own 0 := by
  apply hx.bind
  intro k _
  have hnew := Buffer.keeps_newFor (κ := κ) (f := .rejecting p c) hs rfl
  apply ((hnew.beside k.own).releasing k.schedule.turns_release).bind
  intro b hb
  apply Keeps.pure
  · apply hsound
    rw [Buffer.size, hb, Bytes.length_zeros]
  · rw [hown, add_comm]

/-- Keys of the length that both ciphers ask for have a schedule. -/
theorem rounds?_ne_none (hl : key.length = 32) : m.rounds? key.length ≠ none := by
  rw [← Option.isSome_iff_ne_none, m.rounds?_isSome_iff]
  exact .inr (.inr hl)

end AesKey

namespace Cbc

open BlockCipher (Direction Context Call)

variable {κ : Type} {m : RoundMultiplier} {key : Bytes}

structure State.Sound (s : State) : Prop where
  working_size : s.working.size = 16

def State.own (s : State) : Holdings := s.key.own + {s.working.holding}

theorem keeps_schedule (m : RoundMultiplier) (key : Bytes) (d : Direction) :
    Keeps (.rejecting (m.rounds? key.length = none) .block) 0 (schedule m key d : Attempt κ AesKey)
      (fun _ => True) AesKey.own 0 := by
  cases d with
  | encryption =>
    have hkey := (AesKey.keeps_encryption (κ := κ) key m).imp (W := fun _ => True) fun _ _ =>
      ⟨trivial, rfl⟩
    refine hkey.adapt (fun _ he => he.1) ?_
    rintro _ rfl
    rfl
  | decryption =>
    refine (AesKey.keeps_decryption key m).adapt (fun _ he => he.1) ?_
    rintro _ rfl
    rfl

theorem keeps_create (m : RoundMultiplier) (key : Bytes) (d : Direction) :
    Keeps (.rejecting (key.length ≠ 32) .block) 0 (create m key d : Attempt κ State) State.Sound
      State.own 0 := by
  unfold create
  split_ifs with hl
  · exact Keeps.throw hl
  have hsupported := AesKey.rounds?_ne_none (m := m) (not_not.mp hl)
  have hschedule : Keeps (.rejecting (key.length ≠ 32) .block) 0 (schedule m key d : Attempt κ AesKey)
      (fun _ => True) AesKey.own 0 :=
    (keeps_schedule m key d).widen ⟨fun _ he => absurd he hsupported, fun _ he => he⟩
  exact AesKey.keeps_workspace hschedule (by decide) (fun _ _ hb => ⟨hb⟩) fun _ _ => rfl

theorem turns_release (s : State) : Turns s.own (release s : Action κ Unit) (fun _ => True) fun _ => 0 := by
  apply (s.key.schedule.turns_release.beside {s.working.holding}).bind
  intro _ _
  exact s.working.turns_release

/-- The working block has room for the block that is left in it. -/
theorem State.Sound.deliver {s : State} (h : s.Sound) (out : Bytes) (block : Aes.Block) :
    (deliver s out block).2.2.Sound ∧ (deliver s out block).2.2.own = s.own := by
  have hl : (s.working.write 0 block.toList).size = s.working.size := by
    apply Bytes.length_overwrite
    rw [Vector.length_toList]
    exact h.working_size.ge
  have hw : (s.working.write 0 block.toList).holding = s.working.holding := Buffer.holding_setBytes hl
  constructor
  · exact ⟨hl.trans h.working_size⟩
  · exact congrArg (fun x => s.key.own + {x}) hw

theorem State.Sound.encrypt {s : State} (h : s.Sound) (iv input out : Bytes) :
    (encrypt s iv input out).2.2.Sound ∧ (encrypt s iv input out).2.2.own = s.own := by
  unfold Cbc.encrypt
  split_ifs
  · exact ⟨h, rfl⟩
  · cases load s input with
    | error e => exact ⟨h, rfl⟩
    | ok block => exact h.deliver out _

theorem State.Sound.decrypt {s : State} (h : s.Sound) (iv input out : Bytes) :
    (decrypt s iv input out).2.2.Sound ∧ (decrypt s iv input out).2.2.own = s.own := by
  unfold Cbc.decrypt
  split_ifs
  · exact ⟨h, rfl⟩
  · cases load s input with
    | error e => exact ⟨h, rfl⟩
    | ok block => exact h.deliver out _

/-- A context of the cipher in a sound state. -/
def Runs (m : RoundMultiplier) (c : Context κ State) : Prop := c.algorithm = algorithm m ∧ c.state.Sound

theorem keeps_init (m : RoundMultiplier) (key : Bytes) (d : Direction) :
    Keeps (.rejecting (key.length ≠ 32) .block) 0 ((algorithm m).init key d : Attempt κ _) (Runs m)
      (fun c => c.state.own) 0 := by
  apply (keeps_create m key d).bind
  intro s hs
  exact Keeps.pure ⟨rfl, hs⟩ rfl

variable {c : Context κ State}

/-- Both directions: a call that passes the checks leaves a sound state with the same storage. -/
theorem turns_apply (hc : Runs m c) {run : State → Bytes → Bytes → Bytes → Status × Bytes × State}
    (hrun : ∀ s iv input out, s.Sound →
      (run s iv input out).2.2.Sound ∧ (run s iv input out).2.2.own = s.own) (iv input out : Bytes) :
    Turns c.state.own (c.apply (fun s iv input out => pure (run s iv input out)) iv input out)
      (fun r => Runs m r.2.2 ∧ r.2.2.state.own = c.state.own) fun _ => c.state.own := by
  obtain ⟨hs, hown⟩ := hrun c.state iv input out hc.2
  unfold Context.apply
  cases c.checkLengths iv input out with
  | error e => exact Turns.pure ⟨hc, rfl⟩ rfl
  | ok _ =>
    show Turns _ (pure ((run c.state iv input out).1, (run c.state iv input out).2.1,
      { c with state := (run c.state iv input out).2.2 })) _ _
    exact Turns.pure ⟨⟨hc.1, hs⟩, hown⟩ rfl

theorem turns_call (hc : Runs m c) (call : Call) :
    Turns c.state.own (c.call call) (fun r => Runs m r.2 ∧ r.2.state.own = c.state.own)
      fun _ => c.state.own := by
  cases call with
  | encrypt iv input out =>
    unfold Context.call Context.encrypt
    rw [hc.1]
    apply (turns_apply hc (fun _ iv input out hs => hs.encrypt iv input out) iv input out).bind
    intro r hr
    exact Turns.pure hr rfl
  | decrypt iv input out =>
    unfold Context.call Context.decrypt
    rw [hc.1]
    apply (turns_apply hc (fun _ iv input out hs => hs.decrypt iv input out) iv input out).bind
    intro r hr
    exact Turns.pure hr rfl

theorem turns_releaseContext (hc : Runs m c) :
    Turns c.state.own c.release (fun _ => True) fun _ => 0 := by
  unfold Context.release
  rw [hc.1]
  exact turns_release c.state

end Cbc

namespace Ctr

open StreamCipher (Context Call Cursor)

variable {κ : Type} {m : RoundMultiplier} {key : Bytes}

def State.own (s : State) : Holdings := s.key.own + {s.blocks.holding}

/-- The same storage, and room in it for the counter block and the keystream block. -/
structure State.Stays (s t : State) : Prop where
  size : t.blocks.size = 32
  own_eq : t.own = s.own

namespace State

variable {s t u : State}

theorem Stays.trans (h : s.Stays t) (h' : t.Stays u) : s.Stays u where
  size := h'.size
  own_eq := h'.own_eq.trans h.own_eq

theorem Stays.refl (h : s.blocks.size = 32) : s.Stays s := ⟨h, rfl⟩

theorem stays_write (h : s.blocks.size = 32) {start : Nat} {src : Bytes} (hs : start + src.length ≤ 32) :
    s.Stays { s with blocks := s.blocks.write start src } := by
  have hl : (s.blocks.write start src).size = s.blocks.size := by
    apply Bytes.length_overwrite
    exact hs.trans h.ge
  constructor
  · exact hl.trans h
  · have hw : (s.blocks.write start src).holding = s.blocks.holding := Buffer.holding_setBytes hl
    exact congrArg (fun x => s.key.own + {x}) hw

theorem stays_refill (h : s.blocks.size = 32) : s.Stays s.refill.2 := by
  unfold refill
  cases Aes.Block.ofBytes? s.counter with
  | none => exact .refl h
  | some counter =>
    apply stays_write h
    rw [Vector.length_toList]

theorem stays_advance (h : s.blocks.size = 32) : s.Stays s.advance.2 := by
  have hc : s.counter.length ≤ 16 := List.length_take_le _ _
  have hw : s.Stays (s.setCounter (increment s.counter)) := by
    apply stays_write h
    rw [length_increment]
    omega
  exact hw.trans (stays_refill hw.size)

theorem stays_ready (h : s.blocks.size = 32) : s.Stays s.ready.2 := by
  unfold ready
  split_ifs
  · have ha := stays_advance h
    rcases hrun : s.advance with ⟨_ | _, t⟩ <;> rw [hrun] at ha <;> exact ⟨ha.size, ha.own_eq⟩
  · exact .refl h

theorem stays_nextByte (h : s.blocks.size = 32) : s.Stays s.nextByte.2 := by
  have hr := stays_ready h
  unfold nextByte
  rcases hrun : s.ready with ⟨_ | _, t⟩ <;> rw [hrun] at hr <;> exact ⟨hr.size, hr.own_eq⟩

theorem stays_seek (h : s.blocks.size = 32) (position : UInt64) : s.Stays (s.seek position).2 := by
  have hw : s.Stays { s with blocks := s.blocks.write nonceSize (Bytes.ofUInt64 (position / 16)) } := by
    apply stays_write h
    rw [Bytes.length_ofUInt64]
    decide
  have hr := hw.trans (stays_refill hw.size)
  unfold seek
  dsimp only
  rcases hrun : refill _ with ⟨_ | _, t⟩ <;> rw [hrun] at hr <;> exact ⟨hr.size, hr.own_eq⟩

theorem stays_loadNonce (h : s.blocks.size = 32) {nonce : Bytes} (hn : s.loadNonce nonce = .ok t) :
    s.Stays t := by
  unfold loadNonce at hn
  split_ifs at hn with hl
  cases hn
  apply stays_write h
  rw [not_not.mp hl]
  decide

theorem stays_resume (h : s.blocks.size = 32) (nonce : Bytes) (position : UInt64) :
    s.Stays (resume s nonce position).2 := by
  unfold resume
  cases hn : s.loadNonce nonce with
  | error e => exact .refl h
  | ok t =>
    have ht := stays_loadNonce h hn
    exact ht.trans (stays_seek ht.size position)

theorem stays_startEncryption (h : s.blocks.size = 32) (nonce : Bytes) (out : Cursor) :
    s.Stays (startEncryption s nonce out).2.2 := by
  unfold startEncryption
  split_ifs
  · exact .refl h
  · cases hn : s.loadNonce nonce with
    | error e => exact .refl h
    | ok t =>
      have ht := stays_loadNonce h hn
      have hs := ht.trans (stays_seek ht.size 0)
      dsimp only
      rcases hrun : t.seek 0 with ⟨_ | _, u⟩ <;> rw [hrun] at hs <;> exact hs

theorem stays_startDecryption (h : s.blocks.size = 32) (input : Bytes) (offset : Nat) :
    s.Stays (startDecryption s input offset).2.2 := by
  unfold startDecryption
  split_ifs
  · exact .refl h
  · have hr := stays_resume h (input.take nonceSize) 0
    rcases hrun : resume s (input.take nonceSize) 0 with ⟨_ | _, t⟩ <;> rw [hrun] at hr <;> exact hr

/-- The storage stays from byte to byte, also behind a byte that failed. -/
theorem stays_foldl (input : Bytes) (p : Progress) (h : p.state.blocks.size = 32) :
    p.state.Stays (input.foldl Progress.step p).state := by
  induction input generalizing p with
  | nil => exact .refl h
  | cons x input ih =>
    have hstep : p.state.Stays (p.step x).state := by
      have hn := stays_nextByte h
      unfold Progress.step
      cases p.status with
      | error e => exact .refl h
      | ok _ =>
        dsimp only
        rcases hrun : p.state.nextByte with ⟨_ | _, t⟩ <;> rw [hrun] at hn <;> exact hn
    rw [List.foldl_cons]
    exact hstep.trans (ih (p.step x) hstep.size)

theorem stays_apply (h : s.blocks.size = 32) (input : Bytes) (out : Cursor) :
    s.Stays (apply s input out).2.2 := by
  have hf := stays_foldl input ⟨.ok (), [], s⟩ h
  unfold apply
  split_ifs
  · exact .refl h
  · exact .refl h
  · dsimp only
    cases (input.foldl Progress.step ⟨.ok (), [], s⟩).status <;> exact hf

end State

theorem keeps_create (m : RoundMultiplier) (key : Bytes) :
    Keeps (.rejecting (key.length ≠ 32) .stream) 0 (create m key : Attempt κ State)
      (fun s => s.blocks.size = 32) State.own 0 := by
  unfold create
  split_ifs with hl
  · exact Keeps.throw hl
  have hsupported := AesKey.rounds?_ne_none (m := m) (not_not.mp hl)
  have hkey := (AesKey.keeps_encryption (κ := κ) key m).imp (W := fun _ => True) fun _ _ =>
    ⟨trivial, rfl⟩
  have hschedule : Keeps (.rejecting (key.length ≠ 32) .stream) 0
      (ExceptT.adapt (ScheduleError.forEncryption .stream) (AesKey.encryption key m) : Attempt κ AesKey)
      (fun _ => True) AesKey.own 0 := by
    apply hkey.adapt (fun _ he => absurd he.1 hsupported)
    rintro _ rfl
    rfl
  exact AesKey.keeps_workspace hschedule (by decide) (fun _ _ hb => hb) fun _ _ => rfl

theorem turns_release (s : State) : Turns s.own (release s : Action κ Unit) (fun _ => True) fun _ => 0 := by
  apply (s.key.schedule.turns_release.beside {s.blocks.holding}).bind
  intro _ _
  exact s.blocks.turns_release

/-- A context of the cipher with room for its blocks. -/
def Runs (m : RoundMultiplier) (c : Context κ State) : Prop :=
  c.algorithm = algorithm m ∧ c.state.blocks.size = 32

theorem keeps_init (m : RoundMultiplier) (key : Bytes) :
    Keeps (.rejecting (key.length ≠ 32) .stream) 0 ((algorithm m).init key : Attempt κ _) (Runs m)
      (fun c => c.state.own) 0 := by
  apply (keeps_create m key).bind
  intro s hs
  exact Keeps.pure ⟨rfl, hs⟩ rfl

variable {c : Context κ State}

theorem turns_call (hc : Runs m c) (call : Call) :
    Turns c.state.own (c.call call) (fun r => Runs m r.2 ∧ r.2.state.own = c.state.own)
      fun _ => c.state.own := by
  obtain ⟨_, s⟩ := c
  obtain ⟨rfl, h⟩ := hc
  have hpure {r : StreamCipher.Answer × State} (hr : s.Stays r.2) :
      Turns s.own (pure (r.1, ⟨algorithm m, r.2⟩) : Action κ (StreamCipher.Answer × Context κ State))
        (fun r => Runs m r.2 ∧ r.2.state.own = s.own) fun _ => s.own :=
    Turns.pure ⟨⟨rfl, hr.size⟩, hr.own_eq⟩ rfl
  cases call with
  | startEncryption iv out => exact hpure (r := (_, _)) (State.stays_startEncryption h iv out)
  | startDecryption input offset => exact hpure (r := (_, _)) (State.stays_startDecryption h input offset)
  | continueEncryption iv position => exact hpure (r := (_, _)) (State.stays_resume h iv position)
  | continueDecryption iv position => exact hpure (r := (_, _)) (State.stays_resume h iv position)
  | encrypt input out => exact hpure (r := (_, _)) (State.stays_apply h input out)
  | decrypt input out => exact hpure (r := (_, _)) (State.stays_apply h input out)

theorem turns_releaseContext (hc : Runs m c) :
    Turns c.state.own c.release (fun _ => True) fun _ => 0 := by
  unfold Context.release
  rw [hc.1]
  exact turns_release c.state

end Ctr

end CryptoSuite
