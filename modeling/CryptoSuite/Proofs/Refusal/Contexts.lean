import CryptoSuite.BlockCipher.Cbc
import CryptoSuite.Proofs.BlockCipher.Call
import CryptoSuite.Proofs.Ctr.Session
import CryptoSuite.Proofs.Hmac.Session
import CryptoSuite.Proofs.Memory.Hashing

/-! The four kinds of contexts refuse a call before they change anything. For the code and the stream this
rests on states whose buffers have room, so that nothing fails half-way. -/
namespace CryptoSuite

/-- If an operation on an output and a state failed, both are as they were. -/
def Untouched {τ σ : Type} (answer : Status × τ × σ) (out : τ) (s : σ) : Prop :=
  ∀ e, answer.1 = .error e → answer.2.1 = out ∧ answer.2.2 = s

namespace Untouched

variable {τ σ σ' : Type} {out : τ} {s : σ}

theorem refl (status : Status) (out : τ) (s : σ) : Untouched (status, out, s) out s :=
  fun _ _ => ⟨rfl, rfl⟩

theorem of_ok (after : τ × σ) : Untouched (.ok (), after) out s := nofun

/-- What holds of a state holds of what the state is part of. -/
theorem map {status : Status} {out' : τ} {t : σ} (h : Untouched (status, out', t) out s) (f : σ → σ') :
    Untouched (status, out', f t) out (f s) :=
  fun e he => ⟨(h e he).1, congrArg f (h e he).2⟩

end Untouched

namespace Hash

/-- The output of a call; only a digest has one. -/
def Call.out : Call → Bytes
  | .digest _ => []
  | .finalize out => out
  | .reset => []

def view : Session.View Call Answer Bytes where
  given := Call.out
  returned := Answer.out
  status := Answer.status

end Hash

namespace Sha2

variable {κ : Type}

theorem Carries.sound {v : Variant} {message : Bytes} {s : State} (h : Carries v message s) :
    s.Sound v := by
  obtain ⟨origin, hv, hr⟩ := h
  exact ⟨hr.variant_eq.trans hv, message, hr.toHolds⟩

/-- A digest is refused for want of room, and before anything is done. -/
theorem State.untouched_finalize (s : State) (out : Bytes) : Untouched (s.finalize out) out s := by
  unfold finalize
  dsimp only
  split_ifs
  · exact .refl _ out s
  · exact .of_ok _

theorem refuses (v : Variant) :
    Hash.view.Refuses (fun c => c.algorithm = algorithm v) (Hash.Context.call (κ := κ)) := by
  rintro ⟨_, s⟩ call μ rfl
  cases call with
  | digest data => exact ⟨⟨.ok (), []⟩, ⟨algorithm v, s.update data⟩, rfl, rfl, nofun⟩
  | reset => exact ⟨⟨.ok (), []⟩, ⟨algorithm v, s.reset⟩, rfl, rfl, nofun⟩
  | finalize out =>
    unfold Hash.Context.call Hash.Context.finalize
    dsimp only
    split_ifs
    · exact ⟨_, _, rfl, rfl, fun _ _ => ⟨rfl, rfl⟩⟩
    · have hu := s.untouched_finalize out
      rcases hrun : s.finalize out with ⟨status, out', t⟩
      rw [hrun] at hu
      refine ⟨⟨status, out'⟩, ⟨algorithm v, t⟩, ?_, rfl, hu.map _⟩
      simp only [algorithm, hrun, Action.runFrom_bind, Action.runFrom_pure]

end Sha2

namespace BlockCipher

def Call.out : Call → Bytes
  | .encrypt _ _ out => out
  | .decrypt _ _ out => out

def view : Session.View Call Answer Bytes where
  given := Call.out
  returned := Answer.out
  status := Answer.status

end BlockCipher

namespace Cbc

open BlockCipher (Context Call)

variable {κ : Type} {m : RoundMultiplier}

/-- The direction and the input are checked before the working block is written. -/
theorem untouched_encrypt (s : State) (iv input out : Bytes) :
    Untouched (encrypt s iv input out) out s := by
  unfold encrypt
  split_ifs
  · exact .refl _ out s
  · cases load s input with
    | error e => exact .refl _ out s
    | ok block => exact .of_ok _

theorem untouched_decrypt (s : State) (iv input out : Bytes) :
    Untouched (decrypt s iv input out) out s := by
  unfold decrypt
  split_ifs
  · exact .refl _ out s
  · cases load s input with
    | error e => exact .refl _ out s
    | ok block => exact .of_ok _

/-- Either direction of the cipher, behind the checks of the lengths. -/
theorem runFrom_apply {run : State → Bytes → Bytes → Bytes → Status × Bytes × State}
    (hrun : ∀ s iv input out, Untouched (run s iv input out) out s) (m : RoundMultiplier) (s : State)
    (iv input out : Bytes) (μ : Machine κ) :
    ∃ status out' t, (Context.apply ⟨algorithm m, s⟩ (fun s iv input out => pure (run s iv input out))
        iv input out).runFrom μ = ((status, out', ⟨algorithm m, t⟩), μ) ∧
      Untouched (status, out', t) out s := by
  unfold Context.apply
  cases Context.checkLengths ⟨algorithm m, s⟩ iv input out with
  | error e => exact ⟨_, out, s, rfl, .refl _ out s⟩
  | ok _ => exact ⟨_, _, _, rfl, hrun s iv input out⟩

theorem refuses (m : RoundMultiplier) :
    BlockCipher.view.Refuses (fun c => c.algorithm = algorithm m) (Context.call (κ := κ)) := by
  rintro ⟨_, s⟩ call μ rfl
  cases call with
  | encrypt iv input out =>
    obtain ⟨status, out', t, ht, hu⟩ := runFrom_apply untouched_encrypt m s iv input out μ
    have ht : (Context.encrypt ⟨algorithm m, s⟩ iv input out).runFrom μ = _ := ht
    refine ⟨⟨status, out'⟩, ⟨algorithm m, t⟩, ?_, rfl, hu.map _⟩
    simp only [Context.call, Action.runFrom_bind, ht, Action.runFrom_pure]
  | decrypt iv input out =>
    obtain ⟨status, out', t, ht, hu⟩ := runFrom_apply untouched_decrypt m s iv input out μ
    have ht : (Context.decrypt ⟨algorithm m, s⟩ iv input out).runFrom μ = _ := ht
    refine ⟨⟨status, out'⟩, ⟨algorithm m, t⟩, ?_, rfl, hu.map _⟩
    simp only [Context.call, Action.runFrom_bind, ht, Action.runFrom_pure]

theorem runFrom_create_served {key : Bytes} {rounds : Nat} {μ : Machine κ} (hl : key.length = 32)
    (hr : m.rounds? 32 = some rounds) (h : μ.Grants [16 * (rounds + 1), 16]) :
    ∃ s ν, (create m key .encryption).runFrom μ = (.ok s, ν) := by
  have hk := AesKey.runFrom_encryption_served (hl ▸ hr) h.head
  have hb := Buffer.runFrom_newFor_served .block (by decide) h.tail.head
  simp only [create, schedule, hl, ne_eq, not_true_eq_false, ↓reduceIte]
  rw [Fallible.runFrom_bind_ok (Fallible.runFrom_adapt_ok hk),
    Fallible.runFrom_bind_ok (Fallible.runFrom_releasing_ok hb), Fallible.runFrom_pure]
  exact ⟨_, _, rfl⟩

theorem runFrom_init_served {key : Bytes} {rounds : Nat} {μ : Machine κ} (hl : key.length = 32)
    (hr : m.rounds? 32 = some rounds) (h : μ.Grants [16 * (rounds + 1), 16]) :
    ∃ c ν, ((algorithm m).init key .encryption).runFrom μ = (.ok c, ν) := by
  obtain ⟨s, ν, hs⟩ := runFrom_create_served hl hr h
  exact ⟨⟨algorithm m, s⟩, ν, BlockCipher.Algorithm.runFrom_init hs⟩

end Cbc

namespace StreamCipher

/-- The output and the offset of a call, as far as it has them. -/
def Call.out : Call → Cursor
  | .startEncryption _ out => out
  | .startDecryption _ offset => ⟨[], offset⟩
  | .continueEncryption _ _ => ⟨[], 0⟩
  | .continueDecryption _ _ => ⟨[], 0⟩
  | .encrypt _ out => out
  | .decrypt _ out => out

def view : Session.View Call Answer Cursor where
  given := Call.out
  returned := Answer.out
  status := Answer.status

end StreamCipher

namespace Ctr

open StreamCipher (Context Call Cursor)

variable {κ : Type} {m : RoundMultiplier} {key : Bytes} {place : Option Place} {s : State}

theorem Keyed.untouched_resume (h : Keyed m key s) (nonce : Bytes) (target : UInt64) (out : Cursor) :
    Untouched ((resume s nonce target).1, out, (resume s nonce target).2) out s := by
  by_cases hl : nonce.length = nonceSize
  · obtain ⟨t, ht, -⟩ := h.resume_eq hl target
    rw [ht]
    exact .of_ok _
  · rw [resume_length hl]
    exact .refl _ out s

theorem Keyed.untouched_startEncryption (h : Keyed m key s) (nonce : Bytes) (out : Cursor) :
    Untouched (startEncryption s nonce out) out s := by
  by_cases ho : out.output.length < nonceSize
  · rw [startEncryption, if_pos ho]
    exact .refl _ out s
  by_cases hl : nonce.length = nonceSize
  · obtain ⟨t, ht, -⟩ := h.startEncryption_eq hl (Nat.le_of_not_lt ho)
    rw [ht]
    exact .of_ok _
  · rw [startEncryption, if_neg ho, State.loadNonce, if_pos hl]
    exact .refl _ out s

theorem Keyed.untouched_startDecryption (h : Keyed m key s) (input : Bytes) (offset : Nat) :
    Untouched (startDecryption s input offset) offset s := by
  by_cases hi : input.length < nonceSize
  · rw [startDecryption, if_pos hi]
    exact .refl _ offset s
  · obtain ⟨t, ht, -⟩ : ∃ t, startDecryption s input offset = (.ok (), nonceSize, t) ∧ _ :=
      h.startDecryption_eq (Nat.le_of_not_lt hi)
    rw [ht]
    exact .of_ok _

/-- A stream that stands somewhere transforms all of an input that fits. -/
theorem At.untouched_apply (h : At m key place s) (input : Bytes) (out : Cursor) :
    Untouched (apply s input out) out s := by
  cases place with
  | none =>
    rw [apply_not_started (h.idle rfl)]
    exact .refl _ out s
  | some p =>
    obtain ⟨-, hf⟩ := h.follows p rfl
    by_cases hfit : out.offset + input.length ≤ out.output.length
    · obtain ⟨t, ht, -⟩ := hf.apply_eq hfit
      rw [ht]
      exact .of_ok _
    · rw [apply_overflow hf.started (Nat.lt_of_not_le hfit)]
      exact .refl _ out s

/-- Every call is one operation on the state. -/
theorem At.runFrom_call (h : At m key place s) (call : Call) (μ : Machine κ) :
    ∃ status out t, (Context.call ⟨algorithm m, s⟩ call).runFrom μ =
        ((⟨status, out⟩, ⟨algorithm m, t⟩), μ) ∧ Untouched (status, out, t) call.out s := by
  cases call with
  | startEncryption iv out => exact ⟨_, _, _, rfl, h.keyed.untouched_startEncryption iv out⟩
  | startDecryption input offset =>
    refine ⟨_, _, _, rfl, ?_⟩
    intro e he
    obtain ⟨ho, hs⟩ := h.keyed.untouched_startDecryption input offset e he
    exact ⟨congrArg (Cursor.mk []) ho, hs⟩
  | continueEncryption iv target => exact ⟨_, _, _, rfl, h.keyed.untouched_resume iv target _⟩
  | continueDecryption iv target => exact ⟨_, _, _, rfl, h.keyed.untouched_resume iv target _⟩
  | encrypt input out => exact ⟨_, _, _, rfl, h.untouched_apply input out⟩
  | decrypt input out => exact ⟨_, _, _, rfl, h.untouched_apply input out⟩

theorem refuses (m : RoundMultiplier) (key : Bytes) :
    StreamCipher.view.Refuses (fun c => ∃ place, ContextAt m key place c)
      (Context.call (κ := κ)) := by
  rintro ⟨_, s⟩ call μ ⟨place, rfl, h⟩
  obtain ⟨status, out, t, ht, hu⟩ := h.runFrom_call call μ
  obtain ⟨d, hd, hat⟩ := simulates_ideal m key place ⟨algorithm m, s⟩ call μ trivial ⟨rfl, h⟩
  rw [ht] at hd
  obtain rfl : ⟨algorithm m, t⟩ = d := congrArg (·.1.2) hd
  exact ⟨⟨status, out⟩, ⟨algorithm m, t⟩, ht, ⟨_, hat⟩, hu.map _⟩

end Ctr

namespace Mac

/-- The output of a call; only a code has one. -/
def Call.out : Call → Bytes
  | .digest _ => []
  | .finalize out => out

def view : Session.View Call Answer Bytes where
  given := Call.out
  returned := Answer.out
  status := Answer.status

end Mac

namespace Hmac

open Sha2 (Variant)
open Mac (Context Call)

variable {κ : Type} {name : String} {v : Variant} {key : Bytes} {s : State Sha2.State}
  {μ ν : Machine κ}

/-- The computations are of the variant, and the room has place for a digest and a code. -/
structure State.Fits (v : Variant) (s : State Sha2.State) : Prop where
  inner : s.inner.Sound v
  outer : s.outer.Sound v
  work_size : s.work.size = 2 * v.digestSize

/-- Nothing can go wrong between the first digest and the code. -/
theorem State.Fits.runFrom_computeCode (h : s.Fits v) (μ : Machine κ) :
    ∃ t, (computeCode (Sha2.algorithm v) s).runFrom μ = ((.ok (), t), μ) ∧ t.Fits v := by
  have hwork : s.work.bytes.length = 2 * v.digestSize := h.work_size
  obtain ⟨digest, inner, hi, hd, hinner, -⟩ := h.inner.finalize (length_take_room hwork).ge
  rw [length_take_room hwork] at hd
  have hout := length_drop_room hwork hd
  obtain ⟨code, outer, ho, hc, houter, -⟩ :=
    ((h.outer.update (s.pads.bytes.drop 128)).1.update digest).1.finalize hout.ge
  rw [hout] at hc
  refine ⟨_, computeCode_of_finalize hi ho μ, hinner, houter, ?_⟩
  change ((s.work.bytes.overwrite 0 digest).overwrite v.digestSize code).length = _
  rw [overwrite_room hwork hd hc, List.length_append]
  omega

/-- An output is refused for its length, before the code is computed. -/
theorem State.Fits.runFrom_finalize (h : s.Fits v) (out : Bytes) (μ : Machine κ) :
    ∃ status out' t, (finalize (Sha2.algorithm v) s out).runFrom μ = ((status, out', t), μ) ∧
      t.Fits v ∧ Untouched (status, out', t) out s := by
  unfold finalize
  split_ifs with ho
  · exact ⟨_, out, s, rfl, h, .refl _ out s⟩
  · obtain ⟨t, ht, hfits⟩ := h.runFrom_computeCode μ
    rw [Action.runFrom_bind, ht]
    refine ⟨_, _, _, rfl, ⟨(hfits.inner.update _).1, hfits.outer, ?_⟩, .of_ok _⟩
    exact (Bytes.length_zeros _).trans hfits.work_size

theorem refuses (name : String) (v : Variant) :
    Mac.view.Refuses (fun c => c.algorithm = ofVariant name v ∧ c.state.Fits v)
      (Context.call (κ := κ)) := by
  rintro ⟨_, s⟩ call μ ⟨rfl, h⟩
  cases call with
  | digest data =>
    exact ⟨⟨.ok (), []⟩, ⟨ofVariant name v, { s with inner := s.inner.update data }⟩, rfl,
      ⟨rfl, { h with inner := (h.inner.update data).1 }⟩, nofun⟩
  | finalize out =>
    obtain ⟨status, out', t, ht, hfits, hu⟩ := h.runFrom_finalize out μ
    have ht := Context.runFrom_finalize (c := ⟨ofVariant name v, s⟩) ht
    refine ⟨⟨status, out'⟩, ⟨ofVariant name v, t⟩, ?_, ⟨rfl, hfits⟩, hu.map _⟩
    simp only [Context.call, Action.runFrom_bind, ht, Action.runFrom_pure]

/-- New states fit, whatever the length of the key. -/
theorem fits_of_runFrom_create (h : (create (Sha2.algorithm v) key).runFrom μ = (.ok s, ν)) :
    s.Fits v := by
  obtain ⟨block, inner, ξ₁, ξ₂, ξ₃, -, hinner, houter, hupdate, -, hwork⟩ := parts_of_runFrom_create h
  refine ⟨?_, (of_runFrom_createHash houter).sound, ?_⟩
  · rw [hupdate]
    exact ((of_runFrom_createHash hinner).sound.update _).1
  · rw [Buffer.size, hwork, Bytes.length_zeros]

end Hmac

end CryptoSuite
