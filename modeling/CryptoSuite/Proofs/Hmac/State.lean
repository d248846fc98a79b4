import CryptoSuite.Hash.Sha2
import CryptoSuite.Mac.Hmac
import CryptoSuite.Proofs.Sha2.Representation

/-! The code of RFC 2104 over the SHA-2 family, and the states that compute it. A state is primed: its
inner computation has absorbed the inner pad in front of the message. -/
namespace CryptoSuite.Hmac

open Sha2 (Variant Carries)

namespace Standard

open Sha2.Standard (digest)

/-- The key as one block: longer keys are hashed, and zeros fill the rest. -/
def blockKey (v : Variant) (key : Bytes) : Bytes :=
  if 128 < key.length then digest v key ++ List.replicate (128 - (digest v key).length) 0
  else key ++ List.replicate (128 - key.length) 0

def innerKey (v : Variant) (key : Bytes) : Bytes := (blockKey v key).map fun x => x ^^^ 0x36

def outerKey (v : Variant) (key : Bytes) : Bytes := (blockKey v key).map fun x => x ^^^ 0x5c

def code (v : Variant) (key message : Bytes) : Bytes :=
  digest v (outerKey v key ++ digest v (innerKey v key ++ message))

@[simp] theorem length_blockKey (v : Variant) (key : Bytes) : (blockKey v key).length = 128 := by
  have hv := v.digestSize_le
  unfold blockKey
  split_ifs <;> simp <;> omega

@[simp] theorem length_innerKey (v : Variant) (key : Bytes) : (innerKey v key).length = 128 := by
  simp [innerKey]

@[simp] theorem length_outerKey (v : Variant) (key : Bytes) : (outerKey v key).length = 128 := by
  simp [outerKey]

@[simp] theorem length_code (v : Variant) (key message : Bytes) :
    (code v key message).length = v.digestSize := Sha2.Standard.length_digest v _

end Standard

/-- A state under a key that has absorbed the message. -/
structure Primed (v : Variant) (key message : Bytes) (s : State Sha2.State) : Prop where
  inner : Carries v (Standard.innerKey v key ++ message) s.inner
  outer : Carries v [] s.outer
  pads_eq : s.pads.bytes = Standard.innerKey v key ++ Standard.outerKey v key
  size : s.work.bytes.length = 2 * v.digestSize

variable {κ : Type} {v : Variant} {key message : Bytes} {s : State Sha2.State}

/-- The inner digest is finished into the front of the room and given to the outer computation, which is
finished into the rest. -/
theorem computeCode_of_finalize {digest code : Bytes} {inner outer : Sha2.State}
    (hi : s.inner.finalize (s.work.bytes.take v.digestSize) = (.ok (), digest, inner))
    (ho : ((s.outer.update (s.pads.bytes.drop 128)).update digest).finalize
      ((s.work.bytes.overwrite 0 digest).drop v.digestSize) = (.ok (), code, outer)) (μ : Machine κ) :
    (computeCode (Sha2.algorithm v) s).runFrom μ =
      ((.ok (), { s with inner, outer, work := (s.work.write 0 digest).write v.digestSize code }), μ) := by
  simp only [computeCode, Sha2.algorithm, Sha2.blockSize, Action.runFrom_bind, Action.runFrom_pure, hi]
  rw [show (s.work.write 0 digest).bytes = s.work.bytes.overwrite 0 digest from rfl, ho]

/-- An output of a length that codes have gets that much of the code out of the room. -/
theorem finalize_of_computeCode {t : State Sha2.State} {code out : Bytes} (hpos : 0 < out.length)
    (ho : out.length ≤ v.digestSize) {μ : Machine κ}
    (ht : (computeCode (Sha2.algorithm v) s).runFrom μ = ((.ok (), t), μ))
    (hcode : t.work.bytes.drop v.digestSize = code) (hl : code.length = v.digestSize) :
    (finalize (Sha2.algorithm v) s out).runFrom μ = ((.ok (), code.take out.length,
      { t with inner := t.inner.update (t.pads.bytes.take 128), work := t.work.wipe }), μ) := by
  have hne : ¬(out.isEmpty ∨ v.digestSize < out.length) := by
    rw [List.isEmpty_iff_length_eq_zero]
    omega
  have hrun : (finalize (Sha2.algorithm v) s out).runFrom μ = _ :=
    congrArg (Action.runFrom · μ) (if_neg hne)
  have htake : (code.take out.length).length = out.length := by
    rw [List.length_take, hl]
    exact Nat.min_eq_left ho
  rw [hrun, Action.runFrom_bind, ht]
  simp only [Sha2.algorithm, Sha2.blockSize, Action.runFrom_bind, Action.runFrom_pure, hcode,
    Bytes.overwrite_zero, htake, List.drop_length, List.append_nil]

section Room

variable {room digest code : Bytes} (h : room.length = 2 * v.digestSize)
include h

theorem length_take_room : (room.take v.digestSize).length = v.digestSize := by
  rw [List.length_take]
  omega

variable (hd : digest.length = v.digestSize)
include hd

theorem length_drop_room : ((room.overwrite 0 digest).drop v.digestSize).length = v.digestSize := by
  rw [List.length_drop, Bytes.length_overwrite] <;> omega

theorem overwrite_room (hc : code.length = v.digestSize) :
    (room.overwrite 0 digest).overwrite v.digestSize code = digest ++ code := by
  rw [Bytes.overwrite_overwrite (Nat.zero_le _) (by omega), Bytes.overwrite_zero,
    List.drop_of_length_le (by rw [List.length_append]; omega), List.append_nil]

end Room

namespace Primed

theorem update (h : Primed v key message s) {data : Bytes} (hd : data.length < 2 ^ 64) :
    Primed v key (message ++ data) { s with inner := s.inner.update data } where
  inner := by
    rw [← List.append_assoc]
    exact h.inner.update hd
  outer := h.outer
  pads_eq := h.pads_eq
  size := h.size

theorem take_pads (h : Primed v key message s) : s.pads.bytes.take 128 = Standard.innerKey v key := by
  rw [h.pads_eq, List.take_left' (Standard.length_innerKey v key)]

theorem drop_pads (h : Primed v key message s) : s.pads.bytes.drop 128 = Standard.outerKey v key := by
  rw [h.pads_eq, List.drop_left' (Standard.length_innerKey v key)]

/-- Both computations are finished once, and the room holds the inner digest and the code. -/
theorem computeCode_eq (h : Primed v key message s) (μ : Machine κ) :
    ∃ t, (computeCode (Sha2.algorithm v) s).runFrom μ = ((.ok (), t), μ) ∧ Carries v [] t.inner ∧
      Carries v [] t.outer ∧ t.pads = s.pads ∧
      t.work.bytes = Sha2.Standard.digest v (Standard.innerKey v key ++ message) ++
        Standard.code v key message := by
  obtain ⟨i, hi, hinner⟩ := h.inner.finalize_exact (length_take_room h.size)
  let digest := Sha2.Standard.digest v (Standard.innerKey v key ++ message)
  have hd : digest.length = v.digestSize := Sha2.Standard.length_digest v _
  have hv := v.digestSize_le
  have hkey : (s.pads.bytes.drop 128).length < 2 ^ 64 := by simp [h.drop_pads]
  have houter := (h.outer.update hkey).update (show digest.length < 2 ^ 64 by omega)
  obtain ⟨o, ho, houter⟩ := houter.finalize_exact (length_drop_room h.size hd)
  have hcode : Sha2.Standard.digest v ([] ++ s.pads.bytes.drop 128 ++ digest) = Standard.code v key message := by
    rw [List.nil_append, h.drop_pads]
    rfl
  rw [hcode] at ho
  exact ⟨_, computeCode_of_finalize hi ho μ, hinner, houter, rfl,
    overwrite_room h.size hd (Sha2.Standard.length_digest v _)⟩

/-- A code may be truncated by a shorter output. The state is primed again afterwards. -/
theorem finalize_eq (h : Primed v key message s) {out : Bytes} (hpos : 0 < out.length)
    (ho : out.length ≤ v.digestSize) (μ : Machine κ) :
    ∃ t, (finalize (Sha2.algorithm v) s out).runFrom μ =
        ((.ok (), (Standard.code v key message).take out.length, t), μ) ∧ Primed v key [] t := by
  obtain ⟨t, ht, hinner, houter, hpads, hwork⟩ := h.computeCode_eq μ
  have hcode : t.work.bytes.drop v.digestSize = Standard.code v key message := by
    rw [hwork, List.drop_left' (Sha2.Standard.length_digest v _)]
  refine ⟨_, finalize_of_computeCode hpos ho ht hcode (Standard.length_code v key message), ?_, houter, ?_, ?_⟩
  · rw [List.append_nil, hpads, h.take_pads]
    exact hinner.update (by simp)
  · exact hpads ▸ h.pads_eq
  · change (Bytes.zeros t.work.bytes.length).length = _
    rw [Bytes.length_zeros, hwork, List.length_append, Sha2.Standard.length_digest, Standard.length_code]
    omega

theorem finalize_refused (h : Hash.Algorithm κ Sha2.State) (s : State Sha2.State) {out : Bytes}
    (ho : out.length = 0 ∨ h.digestSize < out.length) (μ : Machine κ) :
    (finalize h s out).runFrom μ =
      ((.error (.invalidArgument .mac (.macBuffer h.digestSize out.length)), out, s), μ) := by
  rw [← List.isEmpty_iff_length_eq_zero] at ho
  rw [finalize, if_pos ho]
  rfl

end Primed

end CryptoSuite.Hmac
