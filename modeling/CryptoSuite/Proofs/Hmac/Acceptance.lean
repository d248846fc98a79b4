import CryptoSuite.Proofs.Hmac.Verification

/-! Which tags are accepted, for keys and messages of any length. The code depends neither on where the
memory of a computation lies nor on when it is asked for, and a tag is measured against its beginning. -/
namespace CryptoSuite

namespace Sha2.State

variable {κ : Type} {v : Variant} {s : State} {μ ν : Machine κ}

/-- The same computation in another region. -/
def moved (s : State) (id : Nat) : State := { s with storage := ⟨⟨id, s.storage.bytes⟩⟩ }

def fresh (v : Variant) : State := reset ⟨v, ⟨⟨0, []⟩⟩, 0, 0, 0⟩

/-- The digest of what has been absorbed. -/
def digest (s : State) : Bytes := s.finish.chain.take s.variant.digestSize

theorem update_moved (s : State) (id : Nat) (data : Bytes) :
    (s.moved id).update data = (s.update data).moved id := by
  simp only [update, apply_ite (moved · id)]
  rfl

theorem digest_moved (s : State) (id : Nat) : (s.moved id).digest = s.digest := by
  have hclose : (s.moved id).closeMessage = s.closeMessage.moved id := by
    simp only [closeMessage, apply_ite (moved · id)]
    rfl
  simp only [digest, finish, hclose]
  rfl

theorem exists_moved_of_runFrom_new (h : (new v).runFrom μ = (.ok s, ν)) : ∃ id, s = (fresh v).moved id := by
  obtain ⟨storage, -, rfl⟩ := Fallible.of_runFrom_bind_pure h
  exact ⟨storage.region.id, rfl⟩

theorem length_digest (s : State) : s.digest.length = s.variant.digestSize := by
  have hchain : s.finish.chain.length = 64 := by
    unfold finish
    dsimp only
    rw [compressBlock, chain_store (Chain.length_toBytes _)]
    exact Chain.length_toBytes _
  rw [digest, List.length_take, hchain]
  exact Nat.min_eq_left s.variant.digestSize_le

theorem Sound.finalize_eq (h : s.Sound v) {out : Bytes} (ho : v.digestSize ≤ out.length) :
    s.finalize out = (.ok (), s.digest ++ out.drop v.digestSize, s.finish.reset) := by
  have hl : (s.finish.chain.take v.digestSize).length = v.digestSize := h.1 ▸ s.length_digest
  rw [State.finalize, h.1, if_neg (Nat.not_lt.mpr ho)]
  dsimp only
  rw [Bytes.overwrite_zero, hl, digest, h.1]

theorem Sound.finalize_exact (h : s.Sound v) {out : Bytes} (ho : out.length = v.digestSize) :
    s.finalize out = (.ok (), s.digest, s.finish.reset) := by
  rw [h.finalize_eq ho.ge, List.drop_of_length_le ho.le, List.append_nil]

theorem sound_fresh (v : Variant) : (fresh v).Sound v := ⟨rfl, [], holds_reset _⟩

end Sha2.State

namespace Hmac

open Sha2 (Variant)
open Sha2.State (fresh)
open Fallible

variable {κ : Type} {name : String} {v : Variant} {key block message tag out : Bytes}
  {s : State Sha2.State} {μ ν : Machine κ}

/-- The key as one block, by a fresh computation if it is long. -/
def blockOf (v : Variant) (key : Bytes) : Bytes :=
  if 128 < key.length then ((fresh v).update key).digest ++ Bytes.zeros (128 - v.digestSize)
  else key ++ Bytes.zeros (128 - key.length)

/-- The code that a state is about to deliver. -/
def State.code (s : State Sha2.State) : Bytes :=
  ((s.outer.update (s.pads.bytes.drop 128)).update s.inner.digest).digest

/-- The code of a message under a key, by fresh computations. -/
def codeOf (v : Variant) (key message : Bytes) : Bytes :=
  let pads := padsOf (blockOf v key)
  let inner := ((fresh v).update (pads.take 128)).update message
  (((fresh v).update (pads.drop 128)).update inner.digest).digest

theorem length_codeOf (v : Variant) (key message : Bytes) : (codeOf v key message).length = v.digestSize := by
  rw [codeOf, Sha2.State.length_digest]
  exact congrArg _ (((Sha2.State.sound_fresh v).update _).1.update _).1.1

theorem eq_blockOf_of_runFrom_paddedKey (h : (paddedKey (Sha2.algorithm v) key).runFrom μ = (.ok block, ν)) :
    block = blockOf v key := by
  by_cases hl : 128 < key.length
  · have hrun : (paddedKey (Sha2.algorithm v) key).runFrom μ = _ :=
      congrArg (Fallible.runFrom · μ) (if_pos hl)
    obtain ⟨s, ξ, hs, -⟩ := of_runFrom_bind (hrun.symm.trans h)
    have hsound := ((of_runFrom_createHash hs).sound.update key).1
    obtain ⟨_, hblock, -⟩ :=
      runFrom_paddedKey_of_finalize hl hs (hsound.finalize_eq (digestSize_le_zeros v))
    rw [hblock] at h
    cases h
    obtain ⟨id, rfl⟩ := Sha2.State.exists_moved_of_runFrom_new (of_runFrom_adapt hs)
    rw [blockOf, if_pos hl, Sha2.State.update_moved, Sha2.State.digest_moved, Bytes.zeros, List.drop_replicate]
    rfl
  · rw [blockOf, if_neg hl]
    have hrun : (paddedKey (Sha2.algorithm v) key).runFrom μ = _ :=
      congrArg (Fallible.runFrom · μ) (if_neg hl)
    rw [hrun] at h
    cases h
    rfl

/-- New states agree but for where they lie. -/
theorem code_of_runFrom_create (h : (create (Sha2.algorithm v) key).runFrom μ = (.ok s, ν)) (message : Bytes) :
    State.code { s with inner := s.inner.update message } = codeOf v key message := by
  obtain ⟨block, inner, ξ₁, ξ₂, ξ₃, hblock, hinner, houter, hupdate, hpads, -⟩ := parts_of_runFrom_create h
  obtain rfl := eq_blockOf_of_runFrom_paddedKey hblock
  obtain ⟨i, rfl⟩ := Sha2.State.exists_moved_of_runFrom_new (of_runFrom_adapt hinner)
  obtain ⟨o, hout⟩ := Sha2.State.exists_moved_of_runFrom_new (of_runFrom_adapt houter)
  simp only [State.code, codeOf, hupdate, hpads, hout, Sha2.State.update_moved, Sha2.State.digest_moved]

theorem State.Fits.length_code (h : s.Fits v) : s.code.length = v.digestSize := by
  rw [State.code, Sha2.State.length_digest]
  exact congrArg _ ((h.outer.update _).1.update _).1.1

/-- The room behind the inner digest holds the code. -/
theorem State.Fits.computeCode_eq (h : s.Fits v) (μ : Machine κ) :
    ∃ t, (computeCode (Sha2.algorithm v) s).runFrom μ = ((.ok (), t), μ) ∧
      t.work.bytes.drop v.digestSize = s.code := by
  have hwork : s.work.bytes.length = 2 * v.digestSize := h.work_size
  have hd : s.inner.digest.length = v.digestSize := h.inner.1 ▸ s.inner.length_digest
  have hi := h.inner.finalize_exact (length_take_room hwork)
  have ho := ((h.outer.update (s.pads.bytes.drop 128)).1.update s.inner.digest).1.finalize_exact
    (length_drop_room hwork hd)
  refine ⟨_, computeCode_of_finalize hi ho μ, ?_⟩
  change ((s.work.bytes.overwrite 0 s.inner.digest).overwrite v.digestSize s.code).drop v.digestSize = _
  rw [overwrite_room hwork hd h.length_code, List.drop_left' hd]

/-- An output of a length that codes have gets that much of the code. -/
theorem State.Fits.finalize_eq (h : s.Fits v) (hpos : 0 < out.length) (ho : out.length ≤ v.digestSize)
    (μ : Machine κ) :
    ∃ t, (finalize (Sha2.algorithm v) s out).runFrom μ = ((.ok (), s.code.take out.length, t), μ) := by
  obtain ⟨_, ht, hcode⟩ := h.computeCode_eq μ
  exact ⟨_, finalize_of_computeCode hpos ho ht hcode h.length_code⟩

/-- A state that fits, once it has absorbed the message. -/
theorem State.Fits.update (h : s.Fits v) (message : Bytes) :
    State.Fits v { s with inner := s.inner.update message } :=
  { h with inner := (h.inner.update message).1 }

/-- The code in one operation is the same on every machine that has memory for it. -/
theorem eq_codeOf_of_runFrom_compute {b : Buffer}
    (h : ((ofVariant name v).compute key message).runFrom μ = (.ok b, ν)) : b.bytes = codeOf v key message := by
  obtain ⟨_, μ₁, hinit, h⟩ := of_runFrom_bind h
  obtain ⟨s, hs, rfl⟩ := Mac.Algorithm.of_runFrom_init hinit
  rw [runFrom_bind_ok (runFrom_digest s message μ₁)] at h
  obtain ⟨out, μ₂, hout, h⟩ := of_runFrom_bind h
  have hl : out.bytes.length = v.digestSize :=
    Buffer.length_of_runFrom_new (Attempt.of_runFrom_releasing_require hout)
  have hfits := (fits_of_runFrom_create hs).update message
  obtain ⟨t, ht⟩ := hfits.finalize_eq (by rw [hl]; exact v.digestSize_pos) hl.le μ₂
  rw [hl, ← hfits.length_code, List.take_length, code_of_runFrom_create hs] at ht
  have hf := Mac.Context.runFrom_finalize (c := ⟨ofVariant name v, _⟩) ht
  rw [runFrom_bind, runFrom_perform, hf] at h
  cases h
  rfl

/-- What a check makes of a tag, once it has the code. -/
def verdict (v : Variant) (code tag : Bytes) : Except CryptoError Unit :=
  if tag = [] ∨ v.digestSize < tag.length then
    .error (.invalidArgument .mac (.macBuffer v.digestSize tag.length))
  else if code.take tag.length = tag then .ok () else .error (.verificationFailed .mac)

theorem runFrom_verify (name : String) (v : Variant) (key message tag : Bytes)
    (hg : μ.Grants (stateSizes v key)) :
    (((ofVariant name v).verify key message tag).runFrom μ).1 = verdict v (codeOf v key message) tag := by
  rw [← map_size_demands .mac (stateSizes v key)] at hg
  obtain ⟨⟨_, s⟩, ξ, hinit, rfl, (hs : s.Fits v)⟩ := (draws_init name v key).succeeds hg
  obtain ⟨_, hcreate, heq⟩ := Mac.Algorithm.of_runFrom_init hinit
  cases heq
  have hfits := hs.update message
  have hcode := code_of_runFrom_create hcreate message
  rw [Mac.Algorithm.verify, runFrom_bind_ok hinit, runFrom_bind_ok (runFrom_digest s message ξ)]
  dsimp only
  rw [runFrom_bind_ok (runFrom_releasing_ok (Attempt.runFrom_require (.ok ()) ξ)), runFrom_bind, runFrom_perform]
  have hroom : (Bytes.zeros tag.length).length = tag.length := Bytes.length_zeros _
  by_cases hl : tag = [] ∨ v.digestSize < tag.length
  · rw [verdict, if_pos hl]
    rw [← List.length_eq_zero_iff, ← hroom] at hl
    have hf := Mac.Context.runFrom_finalize (c := ⟨ofVariant name v, { s with inner := s.inner.update message }⟩)
      (Primed.finalize_refused (Sha2.algorithm v) _ hl ξ)
    rw [hf, hroom]
    rfl
  · rw [verdict, if_neg hl]
    rw [not_or, ← List.length_eq_zero_iff, Nat.not_lt, ← hroom] at hl
    obtain ⟨t, ht⟩ := hfits.finalize_eq (Nat.pos_of_ne_zero hl.1) hl.2 ξ
    rw [hcode, hroom] at ht
    rw [Mac.Context.runFrom_finalize (c := ⟨ofVariant name v, _⟩) ht]
    dsimp only
    rw [runFrom_bind_ok (runFrom_perform _ ξ), runFrom_bind_ok (Attempt.runFrom_require (.ok ()) _)]
    simp only [Bytes.agree_iff]
    split_ifs
    · rfl
    · rfl

/-- A tag is accepted exactly if it is the beginning of the code, and refused for its length exactly if it is
empty or longer than the code. Any other tag fails the check. -/
theorem verify_accepts_beginnings (name : String) (v : Variant) (key message : Bytes) :
    let a : Mac.Algorithm κ (State Sha2.State) := ofVariant name v
    (∀ μ : Machine κ, μ.Grants (stateSizes v key ++ [v.digestSize]) →
      ∃ b ν, (a.compute key message).runFrom μ = (.ok b, ν)) ∧
    ∀ (b : Buffer) (μ₁ ν₁ : Machine κ), (a.compute key message).runFrom μ₁ = (.ok b, ν₁) →
      b.bytes.length = a.macSize ∧
      ∀ (tag : Bytes) (μ : Machine κ), μ.Grants (stateSizes v key) →
        let outcome := ((a.verify key message tag).runFrom μ).1
        (outcome = .ok () ↔ 1 ≤ tag.length ∧ tag.length ≤ a.macSize ∧ tag = b.bytes.take tag.length) ∧
        ((∃ reason, outcome = .error (.invalidArgument .mac reason)) ↔ tag = [] ∨ a.macSize < tag.length) ∧
        (outcome = .error (.verificationFailed .mac) ↔
          1 ≤ tag.length ∧ tag.length ≤ a.macSize ∧ tag ≠ b.bytes.take tag.length) := by
  intro a
  have hsize : a.macSize = v.digestSize := rfl
  refine ⟨?_, ?_⟩
  · intro μ hg
    obtain ⟨b, ν, h, -⟩ := (draws_compute name v key message).succeeds (μ := μ) (by simpa using hg)
    exact ⟨b, ν, h⟩
  · intro b μ₁ ν₁ hb
    have hbytes := eq_codeOf_of_runFrom_compute hb
    refine ⟨by rw [hbytes, length_codeOf, hsize], ?_⟩
    intro tag μ hg outcome
    have houtcome : outcome = verdict v b.bytes tag := hbytes ▸ runFrom_verify name v key message tag hg
    have hlength (P : Prop) : 1 ≤ tag.length ∧ tag.length ≤ v.digestSize ∧ P ↔
        ¬(tag = [] ∨ v.digestSize < tag.length) ∧ P := by
      rw [← and_assoc, ← List.length_eq_zero_iff]
      refine and_congr_left fun _ => ?_
      omega
    rw [houtcome, hsize, hlength, hlength, verdict]
    split_ifs with hl htag
    · simp [hl]
    · simp [hl, htag]
    · simp [hl, Ne.symm htag]

/-- A tag of ten octets under a key that has to be hashed, the same with one bit of each octet changed, and
two tags of wrong lengths. -/
theorem verify_accepts_ten_octets :
    ∃ b ν, ((ofVariant "mac" .sha512).compute (Bytes.zeros 200) [2, 3]).runFrom Machine.system = (.ok b, ν) ∧
      let check (tag : Bytes) := (((ofVariant "mac" .sha512).verify (Bytes.zeros 200) [2, 3] tag).runFrom
        Machine.system).1
      check (b.bytes.take 10) = .ok () ∧
      check ((b.bytes.take 10).map (· ^^^ 1)) = .error (.verificationFailed .mac) ∧
      (∃ reason, check [] = .error (.invalidArgument .mac reason)) ∧
      ∃ reason, check (b.bytes ++ [0]) = .error (.invalidArgument .mac reason) := by
  obtain ⟨hcompute, hverify⟩ := verify_accepts_beginnings (κ := Unit) "mac" .sha512 (Bytes.zeros 200) [2, 3]
  obtain ⟨b, ν, hb⟩ := hcompute Machine.system (Machine.system_grants (by decide +kernel))
  obtain ⟨(hlength : b.bytes.length = 64), hcheck⟩ := hverify b _ ν hb
  have hg : Machine.system.Grants (stateSizes .sha512 (Bytes.zeros 200)) :=
    Machine.system_grants (by decide +kernel)
  have hten : (b.bytes.take 10).length = 10 := by
    rw [List.length_take, hlength]
    rfl
  refine ⟨b, ν, hb, (hcheck _ _ hg).1.mpr ?_, (hcheck _ _ hg).2.2.mpr ?_, (hcheck _ _ hg).2.1.mpr (.inl rfl),
    (hcheck _ _ hg).2.1.mpr (.inr ?_)⟩
  · rw [hten]
    exact ⟨by decide, by decide, rfl⟩
  · rw [List.length_map, hten]
    refine ⟨by decide, by decide, ?_⟩
    intro h
    obtain ⟨x, rest, hx⟩ := List.exists_cons_of_length_pos (show 0 < (b.bytes.take 10).length by omega)
    rw [hx, List.map_cons, List.cons_eq_cons] at h
    have hbit : x ^^^ (x ^^^ 1) = 0 := UInt8.xor_eq_zero_iff.mpr h.1.symm
    rw [← UInt8.xor_assoc, UInt8.xor_self, UInt8.zero_xor] at hbit
    exact absurd hbit (by decide)
  · rw [List.length_append, hlength]
    decide

end Hmac

end CryptoSuite
