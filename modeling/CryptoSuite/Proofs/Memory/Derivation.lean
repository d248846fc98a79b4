import CryptoSuite.KeyDerivation.Algorithm
import CryptoSuite.Proofs.KeyAgreement.Secrets
import CryptoSuite.Proofs.KeyDerivation.Step
import CryptoSuite.Proofs.Memory.Keyed

/-! The accounts of derived keys and agreed secrets. Both hold keyed computations and buffers of their
own while they work, and nothing afterwards but what they were asked to make. -/
namespace CryptoSuite

open Fallible
open CryptoSuite.Action (Turns)

namespace Attempt

variable {κ α β : Type} {pre rest : Holdings} {Q : α → Prop} {R : β → Prop} {own : α → Holdings}

/-- An outcome that is known already. -/
theorem keeps_outcome (outcome : Except CryptoError α) :
    Keeps .any pre (ExceptT.mk (pure outcome) : Attempt κ α) (fun a => outcome = .ok a) (fun _ => pre)
      pre := by
  cases outcome with
  | error e => exact Keeps.throw trivial
  | ok a => exact Keeps.pure rfl rfl

/-- A step that answers what `next` makes of the computation `x`. -/
theorem keeps_checked {y : Action κ (Status × β)} {x : Attempt κ α} {default : β}
    {next : α → Action κ (Status × β)} (hy : Answers y x default next)
    (hx : Keeps .any pre x Q own rest)
    (hn : ∀ a, Q a → (next a).Turns (own a) (fun r => R r.2) fun _ => rest) :
    Keeps .any pre (checked y) R (fun _ => rest) rest := by
  intro μ frame h
  have hx := hx μ frame h
  rw [runFrom_checked, hy μ]
  rcases hrun : x.runFrom μ with ⟨e | a, ν⟩ <;> simp only [hrun] at hx ⊢
  · exact hx
  · obtain ⟨sizes, ha, hg, hq, ho⟩ := hx
    obtain ⟨hb, hr, hp⟩ := hn a hq ν frame ho
    have hab := ha.trans hb
    rw [List.append_nil] at hab
    cases ((next a).runFrom ν).1.1 with
    | error e => exact ⟨sizes, hab, .inl ⟨hg, trivial⟩, hp⟩
    | ok _ => exact ⟨sizes, hab, hg, hr, hp⟩

end Attempt

namespace Pbkdf2

variable {κ σ α β : Type}

/-- A chain whose two buffers are as large as a code. -/
structure Chain.Sound (prf : Mac.Algorithm κ σ) (Keyed : σ → Prop) (c : Chain σ) : Prop where
  mac : Keyed c.mac
  last_size : c.last.size = prf.macSize
  sum_size : c.sum.size = prf.macSize

def Chain.own (mac : σ → Holdings) (c : Chain σ) : Holdings :=
  mac c.mac + ({c.last.holding} + {c.sum.holding})

variable {prf : Mac.Algorithm κ σ} {Keyed : σ → Prop} {own : σ → Holdings} {c : Chain σ}

/-- A step on a sound chain leaves a sound one that owns the same, also when it fails. -/
def Step.Tidy (prf : Mac.Algorithm κ σ) (Keyed : σ → Prop) (own : σ → Holdings) (x : Step κ σ α)
    (Q : α → Prop) : Prop :=
  ∀ c : Chain σ, c.Sound prf Keyed → Turns (c.own own) (x.on c)
    (fun r => r.2.Sound prf Keyed ∧ ∀ a, r.1 = .ok a → Q a) fun r => r.2.own own

namespace Step.Tidy

theorem pure {a : α} {Q : α → Prop} (h : Q a) : Tidy prf Keyed own (pure a : Step κ σ α) Q := by
  intro c hc
  apply Turns.pure
  · refine ⟨hc, ?_⟩
    rintro _ ⟨⟩
    exact h
  · rfl

theorem bind {x : Step κ σ α} {f : α → Step κ σ β} {Q : α → Prop} {R : β → Prop}
    (hx : Tidy prf Keyed own x Q) (hf : ∀ a, Q a → Tidy prf Keyed own (f a) R) :
    Tidy prf Keyed own (x >>= f) R := by
  intro c hc
  rw [on_bind]
  apply (hx c hc).bind
  rintro ⟨outcome, d⟩ ⟨hd, hq⟩
  cases outcome with
  | error e => exact Turns.pure ⟨hd, nofun⟩ rfl
  | ok a => exact hf a (hq a rfl) d hd

/-- The chain itself can be looked at. -/
theorem get : Tidy prf Keyed own (get : Step κ σ (Chain σ)) fun c => c.Sound prf Keyed := by
  intro c hc
  apply Turns.pure
  · refine ⟨hc, ?_⟩
    rintro _ ⟨⟩
    exact hc
  · rfl

theorem throw {e : CryptoError} {Q : α → Prop} : Tidy prf Keyed own (throw e : Step κ σ α) Q := by
  intro c hc
  exact Turns.pure ⟨hc, nofun⟩ rfl

theorem modifySum {f : Chain σ → Bytes} (hf : ∀ c : Chain σ, c.Sound prf Keyed → (f c).length = prf.macSize) :
    Tidy prf Keyed own (modifySum f : Step κ σ Unit) fun _ => True := by
  intro c hc
  have hl : (f c).length = c.sum.size := (hf c hc).trans hc.sum_size.symm
  apply Turns.pure
  · exact ⟨⟨hc.mac, hc.last_size, hf c hc⟩, fun _ _ => trivial⟩
  · simp only [Chain.own, Buffer.holding_setBytes hl]

variable (h : prf.Tidy Keyed own)

include h

theorem absorb (data : Bytes) : Tidy prf Keyed own (absorb prf data) fun _ => True := by
  intro c hc
  apply (h.update c.mac data hc.mac).seq ({c.last.holding} + {c.sum.holding}) rfl
  rintro ⟨status, mac⟩ ⟨hmac, hown⟩
  apply Turns.pure
  · exact ⟨⟨hmac, hc.last_size, hc.sum_size⟩, fun _ _ => trivial⟩
  · simp only [Chain.own, hown]

theorem squeeze : Tidy prf Keyed own (squeeze prf) fun _ => True := by
  intro c hc
  apply (h.finalize c.mac c.last.bytes hc.mac).seq ({c.last.holding} + {c.sum.holding}) rfl
  rintro ⟨status, code, mac⟩ ⟨hl, hmac, hown⟩
  apply Turns.pure
  · exact ⟨⟨hmac, hl.trans hc.last_size, hc.sum_size⟩, fun _ _ => trivial⟩
  · simp only [Chain.own, hown, Buffer.holding_setBytes hl]

theorem loops : Loops prf (fun c => c.Sound prf Keyed) fun _ => Tidy prf Keyed own where
  sized _ hc := ⟨hc.last_size, hc.sum_size⟩
  pure := Tidy.pure
  bind := Tidy.bind
  get := Tidy.get
  modifySum := Tidy.modifySum
  absorb := Tidy.absorb h
  squeeze := Tidy.squeeze h

theorem chunks (salt : Bytes) (rounds count counter : Nat) :
    Tidy prf Keyed own (chunks prf salt rounds count counter)
      fun made => made.length = count * prf.macSize := by
  induction count generalizing counter with
  | zero => exact Tidy.pure (Nat.zero_mul _).symm
  | succ count ih =>
    unfold Pbkdf2.chunks
    split_ifs
    · exact (Tidy.throw (Q := fun _ => False)).bind fun _ he => he.elim
    · apply ((loops h).chunk _ rounds).bind
      intro first hfirst
      apply (ih (counter + 1)).bind
      intro rest hrest
      apply Tidy.pure
      rw [List.length_append, hfirst, hrest, Nat.succ_mul, Nat.add_comm]

end Step.Tidy

/-- The buffers of a chain and its computation are given back once the chunks are made, or are not. -/
theorem keeps_deriveBytes (h : prf.Tidy Keyed own) (length : Nat) (password salt : Bytes)
    (rounds : Nat) :
    Keeps .any 0 (deriveBytes prf length password salt rounds) (fun made => made.length = length)
      (fun _ => 0) 0 := by
  apply (Attempt.keeps_require fun _ _ => trivial).bind
  intro _ hcheck
  obtain ⟨-, -, -, hsize, -⟩ := (check_eq_ok_iff prf.macSize length salt rounds).mp hcheck
  have hnew := Buffer.keeps_newFor (κ := κ) (f := .any) (c := .keyDerivation) hsize ⟨_, rfl⟩
  apply ((h.create password).widen (Failures.only_among_any .mac)).bind
  intro mac hmac
  apply ((hnew.beside (own mac)).releasing (h.release mac hmac)).bind
  intro last hlast
  have hcleanup : Turns ({last.holding} + own mac) (do last.release; prf.release mac : Action κ Unit)
      (fun _ => True) fun _ => 0 := by
    apply (last.turns_release.beside (own mac)).bind
    intro _ _
    exact h.release mac hmac
  apply ((hnew.beside ({last.holding} + own mac)).releasing hcleanup).bind
  intro sum hsum
  have hsound : (⟨mac, last, sum⟩ : Chain σ).Sound prf Keyed := by
    refine ⟨hmac, ?_, ?_⟩
    · rw [Buffer.size, hlast, Bytes.length_zeros]
    · rw [Buffer.size, hsum, Bytes.length_zeros]
  have hown : {sum.holding} + ({last.holding} + own mac) = (⟨mac, last, sum⟩ : Chain σ).own own := by
    simp only [Chain.own]
    abel
  rw [hown]
  have hmake := Step.Tidy.chunks h salt rounds (chunkCount length prf.macSize) 0 _ hsound
  apply (Keeps.perform hmake).bind
  rintro ⟨outcome, c⟩ ⟨hc, hmade⟩
  have hrelease : Turns (c.own own)
      (do c.sum.release; c.last.release; prf.release c.mac : Action κ Unit) (fun _ => True)
      fun _ => 0 := by
    apply c.sum.turns_release.seq (own c.mac + {c.last.holding}) (by simp only [Chain.own]; abel)
    intro _ _
    rw [zero_add]
    apply c.last.turns_release.seq (own c.mac) (add_comm _ _)
    intro _ _
    rw [zero_add]
    exact h.release c.mac hc.mac
  apply (Keeps.perform hrelease).bind
  intro _ _
  apply (Attempt.keeps_outcome outcome).bind
  intro made hout
  apply Keeps.pure
  · have hl := hmade made hout
    have hle := le_chunkCount_mul length hsize
    rw [List.length_take]
    omega
  · rfl

theorem keeps_derive (h : prf.Tidy Keyed own) (key password salt : Bytes) (rounds : Nat) :
    Keeps .any 0 (Attempt.checked (derive prf key password salt rounds))
      (fun made => made.length = key.length) (fun _ => 0) 0 := by
  apply Attempt.keeps_checked (answers_derive key password salt rounds)
  · exact keeps_deriveBytes h key.length password salt rounds
  · intro made hl
    exact Turns.pure hl rfl

theorem keeps_deriveBuffer (h : prf.Tidy Keyed own) (size : Nat) (password salt : Bytes)
    (rounds : Nat) :
    Keeps .any 0 (KeyDerivation.pbkdf2.deriveBuffer prf size password salt rounds) (fun _ => True)
      (fun b => {b.holding}) 0 := by
  apply (Buffer.keeps_new (f := .any) (fun _ => trivial) ⟨.buffer, rfl⟩).bind
  intro key _
  have hmake := (keeps_derive h key.bytes password salt rounds).beside {key.holding}
  apply (hmake.releasing key.turns_release).bind
  intro made hl
  apply Keeps.pure trivial
  rw [zero_add, Buffer.holding_setBytes hl]

end Pbkdf2

namespace Curve25519

variable {κ : Type} {multiply : X25519.Multiplication} {v : Sha2.Variant}

theorem keeps_sharedDigest (privateKey publicKey out : Bytes) :
    Keeps .any 0 (sharedDigest multiply v privateKey publicKey out : Attempt κ Sha2.State)
      (fun s => s.Sound v ∧ v.digestSize = out.length) Sha2.State.own 0 := by
  have hcreate : Keeps .any 0 (Attempt.within .keyAgreement (Sha2.State.new v) : Attempt κ Sha2.State)
      (Sha2.State.Sound v) Sha2.State.own 0 :=
    (Attempt.keeps_within (Sha2.tidy_algorithm v).create).widen (Failures.only_among_any .keyAgreement)
  apply (Attempt.keeps_require fun _ _ => trivial).bind
  intro _ hcheck
  apply (Attempt.keeps_outcome (sharedCoordinate multiply privateKey publicKey)).bind
  intro shared _
  apply hcreate.bind
  intro s hs
  apply Keeps.pure
  · refine ⟨(hs.update shared).1, ?_⟩
    unfold checkLength at hcheck
    split_ifs at hcheck with hl
    exact hl.symm
  · exact (hs.update shared).2

/-- The digest computation is given back once the secret is written. -/
theorem keeps_longTermSecret (privateKey publicKey out : Bytes) :
    Keeps .any 0 (Attempt.checked (longTermSecret multiply v privateKey publicKey out : Action κ _))
      (fun secret => secret.length = out.length) (fun _ => 0) 0 := by
  apply Attempt.keeps_checked (answers_longTermSecret privateKey publicKey out)
  · exact keeps_sharedDigest privateKey publicKey out
  · rintro s ⟨hs, hl⟩
    obtain ⟨digest, t, ht, hd, -, hown⟩ := hs.finalize hl.le
    unfold writeDigest
    rw [ht, ← hown]
    apply t.storage.turns_release.bind
    intro _ _
    exact Turns.pure hd rfl

/-- The computation keyed with a secret is given back if it cannot absorb the nonces. -/
theorem keeps_absorbNonces (key nonceA nonceB : Bytes) :
    Keeps .any 0 (absorbNonces v key nonceA nonceB : Attempt κ _)
      ((Hmac.algorithm (agreementName v) (Sha2.algorithm v)).Runs (Hmac.SoundOver κ v))
      (fun c => Hmac.ownAll c.state) 0 := by
  have h := Hmac.tidy_sha2 (κ := κ) (agreementName v) v
  have hinit := (Attempt.keeps_within (d := .keyAgreement) (h.keeps_init key)).widen
    (Failures.only_among_any .keyAgreement)
  apply hinit.bind
  intro c hc
  apply (Keeps.perform (h.turns_digest hc nonceA)).bind
  rintro ⟨status, d⟩ ⟨hd, hown⟩
  rw [← hown]
  apply ((Attempt.keeps_outcome status).releasing (h.turns_release hd)).bind
  intro _ _
  apply (Keeps.perform (h.turns_digest hd nonceB)).bind
  rintro ⟨status, e⟩ ⟨he, hown⟩
  rw [← hown]
  apply ((Attempt.keeps_outcome status).releasing (h.turns_release he)).bind
  intro _ _
  exact Keeps.pure he rfl

/-- The long-term secret is given back if no computation can be keyed with it. -/
theorem keeps_nonceCode (privateKey publicKey nonceA nonceB out : Bytes) :
    Keeps .any 0 (nonceCode multiply v privateKey publicKey nonceA nonceB out : Attempt κ _)
      (fun r => (Hmac.algorithm (agreementName v) (Sha2.algorithm v)).Runs (Hmac.SoundOver κ v) r.2)
      (fun r => Hmac.ownAll r.2.state + {r.1.holding}) 0 := by
  apply (Attempt.keeps_require fun _ _ => trivial).bind
  intro _ _
  apply (Buffer.keeps_newFor (f := .any) v.digestSize_pos ⟨.keyAgreement, rfl⟩).bind
  intro longTerm _
  apply (((keeps_longTermSecret privateKey publicKey longTerm.bytes).beside
    {longTerm.holding}).releasing longTerm.turns_release).bind
  intro key hl
  have hheld : (longTerm.setBytes key).holding = longTerm.holding := Buffer.holding_setBytes hl
  rw [zero_add, ← hheld]
  have habsorb := (keeps_absorbNonces (κ := κ) (v := v) key nonceA nonceB).beside
    {(longTerm.setBytes key).holding}
  apply (habsorb.releasing (longTerm.setBytes key).turns_release).bind
  intro c hc
  exact Keeps.pure hc rfl

theorem keeps_shortTermSecret (privateKey publicKey nonceA nonceB out : Bytes) :
    Keeps .any 0 (Attempt.checked
      (shortTermSecret multiply v privateKey publicKey nonceA nonceB out : Action κ _))
      (fun secret => secret.length = out.length) (fun _ => 0) 0 := by
  have h := Hmac.tidy_sha2 (κ := κ) (agreementName v) v
  apply Attempt.keeps_checked (answers_shortTermSecret privateKey publicKey nonceA nonceB out)
  · exact keeps_nonceCode privateKey publicKey nonceA nonceB out
  · rintro ⟨longTerm, c⟩ hc
    apply (h.turns_finalize hc out).seq {longTerm.holding} rfl
    rintro ⟨status, code, d⟩ ⟨hl, hd, hown⟩
    rw [← hown]
    apply ((h.turns_release hd).beside {longTerm.holding}).bind
    intro _ _
    apply longTerm.turns_release.bind
    intro _ _
    exact Turns.pure hl rfl

end Curve25519

end CryptoSuite
