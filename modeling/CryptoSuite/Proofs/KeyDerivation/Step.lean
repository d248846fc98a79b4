import CryptoSuite.KeyDerivation.Pbkdf2
import CryptoSuite.Proofs.Machine
import Mathlib.Algebra.Group.Nat.Defs
import Mathlib.Tactic.SplitIfs

/-! Steps on a chain as actions, what holds of the loops because it holds of the steps that they are made
of, and the arguments that a derivation accepts. -/
namespace CryptoSuite.Pbkdf2

variable {κ σ α β : Type} {prf : Mac.Algorithm κ σ}

namespace Step

/-- The step begun on a chain; the chain that it leaves stands beside its outcome. -/
def on (x : Step κ σ α) (c : Chain σ) : Action κ (Except CryptoError α × Chain σ) := x.run c

/-- A failed step ends the composition, with the chain it left. -/
theorem on_bind (x : Step κ σ α) (f : α → Step κ σ β) (c : Chain σ) :
    (x >>= f).on c = x.on c >>= fun
      | (.ok a, c) => (f a).on c
      | (.error e, c) => pure (.error e, c) := by
  funext μ
  rcases h : x.on c μ with ⟨⟨_ | a, c'⟩, ν⟩
  all_goals
    simp only [on] at h
    simp only [on, ExceptT.run_bind]
    simp only [bind, StateT.bind, h]
  rfl

theorem runFrom_on_bind {x : Step κ σ α} {f : α → Step κ σ β} {c d : Chain σ} {a : α} {μ ν : Machine κ}
    (h : (x.on c).runFrom μ = ((.ok a, d), ν)) : ((x >>= f).on c).runFrom μ = ((f a).on d).runFrom ν := by
  rw [on_bind, Action.runFrom_bind, h]

end Step

/-- A way of judging steps and their answers that goes along with how the loops are made of steps. Chains that
satisfy `P` have room for codes. -/
structure Step.Loops (prf : Mac.Algorithm κ σ) (P : Chain σ → Prop)
    (J : (α : Type) → Step κ σ α → (α → Prop) → Prop) : Prop where
  sized : ∀ c, P c → c.last.size = prf.macSize ∧ c.sum.size = prf.macSize
  pure : ∀ {α : Type} {a : α} {Q : α → Prop}, Q a → J α (pure a) Q
  bind : ∀ {α β : Type} {x : Step κ σ α} {f : α → Step κ σ β} {Q : α → Prop} {R : β → Prop},
    J α x Q → (∀ a, Q a → J β (f a) R) → J β (x >>= f) R
  get : J (Chain σ) get P
  modifySum : ∀ {f : Chain σ → Bytes}, (∀ c, P c → (f c).length = prf.macSize) →
    J Unit (modifySum f) fun _ => True
  absorb : ∀ data, J Unit (absorb prf data) fun _ => True
  squeeze : J Unit (squeeze prf) fun _ => True

namespace Step.Loops

variable {P : Chain σ → Prop} {J : (α : Type) → Step κ σ α → (α → Prop) → Prop}

theorem iterate (h : Loops prf P J) (count : Nat) : J Unit (iterate prf count) fun _ => True := by
  induction count with
  | zero => exact h.pure trivial
  | succ count ih =>
    apply h.bind h.get
    intro c _
    apply h.bind (h.absorb c.last.bytes)
    intro _ _
    apply h.bind h.squeeze
    intro _ _
    have hsum : J Unit (Pbkdf2.modifySum fun c => c.sum.bytes.xor c.last.bytes) fun _ => True := by
      apply h.modifySum
      intro c hc
      obtain ⟨hlast, hsum⟩ := h.sized c hc
      rw [Bytes.length_xor]
      exact (congrArg₂ min hsum hlast).trans (Nat.min_self _)
    apply h.bind hsum
    intro _ _
    exact ih

theorem chunk (h : Loops prf P J) (seed : Bytes) (rounds : Nat) :
    J Bytes (chunk prf seed rounds) fun made => made.length = prf.macSize := by
  apply h.bind (h.absorb seed)
  intro _ _
  apply h.bind h.squeeze
  intro _ _
  apply h.bind (h.modifySum fun c hc => (h.sized c hc).1)
  intro _ _
  apply h.bind (h.iterate (rounds - 1))
  intro _ _
  apply h.bind h.get
  intro c hc
  exact h.pure (h.sized c hc).2

end Step.Loops

/-- The arguments that pass are those that no condition rejects. -/
theorem check_eq_ok_iff (macSize length : Nat) (salt : Bytes) (rounds : Nat) :
    check macSize length salt rounds = .ok () ↔
      0 < rounds ∧ 0 < length ∧ salt ≠ [] ∧ 0 < macSize ∧ chunkCount length macSize < 2 ^ 32 := by
  unfold check
  split_ifs <;> simp_all [Nat.pos_iff_ne_zero]

/-- The chunks together are long enough. -/
theorem le_chunkCount_mul (length : Nat) {size : Nat} (h : 0 < size) :
    length ≤ chunkCount length size * size := by
  have hd := Nat.div_add_mod (length + size - 1) size
  have hm := Nat.mod_lt (length + size - 1) h
  rw [chunkCount, Nat.mul_comm]
  omega

/-- A derivation answers with the bytes that it makes, or with zeros. -/
theorem answers_derive (key password salt : Bytes) (rounds : Nat) :
    Attempt.Answers (derive prf key password salt rounds)
      (deriveBytes prf key.length password salt rounds) (Bytes.zeros key.length)
      fun made => pure (.ok (), made) := by
  intro μ
  rcases h : (deriveBytes prf key.length password salt rounds).runFrom μ with ⟨_ | made, ν⟩
  all_goals
    rw [Fallible.runFrom] at h
    simp only [Action.runFrom, derive, bind, StateT.bind, h]
  rfl

end CryptoSuite.Pbkdf2
