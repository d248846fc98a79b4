import CryptoSuite.Proofs.Refusal.Contexts

/-! Keyed computations that cannot fail: they take any data, and give a code to any output of a length
that codes have. Codes over the SHA-2 family are computed by such. -/
namespace CryptoSuite

namespace Mac.Algorithm

variable {κ σ : Type}

/-- States that satisfy `Keyed` stay such, and no use of them fails or touches the machine. -/
structure Steady (a : Algorithm κ σ) (Keyed : σ → Prop) : Prop where
  update : ∀ s data μ, Keyed s → ∃ t, (a.update s data).runFrom μ = ((.ok (), t), μ) ∧ Keyed t
  finalize : ∀ s out μ, Keyed s → 0 < out.length → out.length ≤ a.macSize →
    ∃ code t, (a.finalize s out).runFrom μ = ((.ok (), code, t), μ) ∧ code.length = out.length ∧ Keyed t

end Mac.Algorithm

namespace Hmac

variable {κ : Type} {v : Sha2.Variant} {s : State Sha2.State}

/-- The code is as long as the output, which is what it is cut to. -/
theorem State.Fits.finalize_ok (h : s.Fits v) {out : Bytes} (hpos : 0 < out.length)
    (ho : out.length ≤ v.digestSize) (μ : Machine κ) :
    ∃ code t, (finalize (Sha2.algorithm v) s out).runFrom μ = ((.ok (), code, t), μ) ∧
      code.length = out.length ∧ t.Fits v := by
  have hne : ¬(out.isEmpty ∨ v.digestSize < out.length) := by
    rw [List.isEmpty_iff_length_eq_zero]
    omega
  have hrun : (finalize (Sha2.algorithm v) s out).runFrom μ = _ :=
    congrArg (Action.runFrom · μ) (if_neg hne)
  obtain ⟨t, ht, hfits⟩ := h.runFrom_computeCode μ
  rw [hrun, Action.runFrom_bind, ht]
  refine ⟨_, _, rfl, ?_, (hfits.inner.update _).1, hfits.outer, ?_⟩
  · apply Bytes.length_overwrite
    rw [List.length_take]
    omega
  · exact (Bytes.length_zeros _).trans hfits.work_size

theorem steady (name : String) (v : Sha2.Variant) :
    (ofVariant (κ := κ) name v).Steady (State.Fits v) where
  update s data _ h := ⟨{ s with inner := s.inner.update data }, rfl,
    { h with inner := (h.inner.update data).1 }⟩
  finalize _ _ μ h hpos ho := h.finalize_ok hpos ho μ

end Hmac

end CryptoSuite
