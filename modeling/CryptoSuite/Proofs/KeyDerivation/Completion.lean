import CryptoSuite.Proofs.Mac.Steady
import CryptoSuite.Proofs.Memory.Derivation

/-! The loops of a derivation complete once it has its memory. All that could end them early is a
failing keyed computation or a number of chunks that does not fit in four octets. -/
namespace CryptoSuite.Pbkdf2

variable {κ σ α β : Type} {prf : Mac.Algorithm κ σ} {Keyed : σ → Prop}

/-- On every sound chain the step answers something that satisfies `Q`, and leaves a sound chain and
the machine as it was. -/
def Step.Completes (prf : Mac.Algorithm κ σ) (Keyed : σ → Prop) (x : Step κ σ α) (Q : α → Prop) : Prop :=
  ∀ (c : Chain σ) (μ : Machine κ), c.Sound prf Keyed →
    ∃ a d, (x.on c).runFrom μ = ((.ok a, d), μ) ∧ d.Sound prf Keyed ∧ Q a

namespace Step.Completes

theorem pure {a : α} {Q : α → Prop} (h : Q a) : Completes prf Keyed (pure a : Step κ σ α) Q :=
  fun c _ hc => ⟨a, c, rfl, hc, h⟩

theorem bind {x : Step κ σ α} {f : α → Step κ σ β} {Q : α → Prop} {R : β → Prop}
    (hx : Completes prf Keyed x Q) (hf : ∀ a, Q a → Completes prf Keyed (f a) R) :
    Completes prf Keyed (x >>= f) R := by
  intro c μ hc
  obtain ⟨a, d, hd, hsound, hq⟩ := hx c μ hc
  rw [runFrom_on_bind hd]
  exact hf a hq d μ hsound

theorem get : Completes prf Keyed (get : Step κ σ (Chain σ)) fun c => c.Sound prf Keyed :=
  fun c _ hc => ⟨c, c, rfl, hc, hc⟩

theorem modifySum {f : Chain σ → Bytes} (hf : ∀ c : Chain σ, c.Sound prf Keyed → (f c).length = prf.macSize) :
    Completes prf Keyed (modifySum f : Step κ σ Unit) fun _ => True :=
  fun c _ hc => ⟨(), _, rfl, ⟨hc.mac, hc.last_size, hf c hc⟩, trivial⟩

variable (h : prf.Steady Keyed)

include h

theorem absorb (data : Bytes) : Completes prf Keyed (absorb prf data) fun _ => True := by
  intro c μ hc
  obtain ⟨mac, hrun, hmac⟩ := h.update c.mac data μ hc.mac
  refine ⟨(), { c with mac }, ?_, ⟨hmac, hc.last_size, hc.sum_size⟩, trivial⟩
  show Action.runFrom (prf.update c.mac data >>= fun r => Pure.pure (r.1, { c with mac := r.2 })) μ = _
  rw [Action.runFrom_bind, hrun]
  rfl

/-- The room for the last code has the size of a code. -/
theorem squeeze (hsize : 0 < prf.macSize) : Completes prf Keyed (squeeze prf) fun _ => True := by
  intro c μ hc
  have hlast : c.last.bytes.length = prf.macSize := hc.last_size
  obtain ⟨code, mac, hrun, hlen, hmac⟩ := h.finalize c.mac c.last.bytes μ hc.mac (by omega) hlast.le
  refine ⟨(), { c with mac, last := c.last.setBytes code }, ?_,
    ⟨hmac, hlen.trans hlast, hc.sum_size⟩, trivial⟩
  show Action.runFrom (prf.finalize c.mac c.last.bytes >>= fun r =>
    Pure.pure (r.1, { c with mac := r.2.2, last := c.last.setBytes r.2.1 })) μ = _
  rw [Action.runFrom_bind, hrun]
  rfl

theorem loops (hsize : 0 < prf.macSize) :
    Loops prf (fun c => c.Sound prf Keyed) fun _ => Completes prf Keyed where
  sized _ hc := ⟨hc.last_size, hc.sum_size⟩
  pure := Completes.pure
  bind := Completes.bind
  get := Completes.get
  modifySum := Completes.modifySum
  absorb := Completes.absorb h
  squeeze := Completes.squeeze h hsize

/-- The numbers of the chunks stay below the bound that the check of the arguments sets. -/
theorem chunks (hsize : 0 < prf.macSize) (salt : Bytes) (rounds : Nat) {count counter : Nat}
    (hc : counter + count < 2 ^ 32) :
    Completes prf Keyed (chunks prf salt rounds count counter) fun _ => True := by
  induction count generalizing counter with
  | zero => exact Completes.pure trivial
  | succ count ih =>
    have hcounter : ¬1 <<< 32 ≤ counter + 1 := by omega
    unfold Pbkdf2.chunks
    rw [if_neg hcounter]
    apply ((loops h hsize).chunk _ rounds).bind
    intro first _
    apply (ih (by omega)).bind
    intro rest _
    exact Completes.pure trivial

end Step.Completes

end CryptoSuite.Pbkdf2
