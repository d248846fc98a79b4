import CryptoSuite.Memory.Buffer

/-! Running steps from a given machine: one equation for each way in which steps are composed,
and the outcome of asking for memory. -/
namespace CryptoSuite

variable {ε ε' κ α β : Type}

namespace Action

/-- The answer of a step begun on `μ`, with the machine it leaves behind. -/
def runFrom (x : Action κ α) (μ : Machine κ) : α × Machine κ := x μ

@[simp] theorem runFrom_pure (a : α) (μ : Machine κ) : (pure a : Action κ α).runFrom μ = (a, μ) := rfl

@[simp] theorem runFrom_bind (x : Action κ α) (f : α → Action κ β) (μ : Machine κ) :
    (x >>= f).runFrom μ = (f (x.runFrom μ).1).runFrom (x.runFrom μ).2 := rfl

@[simp] theorem runFrom_onHeap (f : Heap → α × Heap) (μ : Machine κ) :
    (onHeap f : Action κ α).runFrom μ = ((f μ.heap).1, { μ with heap := (f μ.heap).2 }) := rfl

@[simp] theorem runFrom_onMocks (f : Mock.Tables → α × Mock.Tables) (μ : Machine κ) :
    (onMocks f : Action κ α).runFrom μ = ((f μ.mocks).1, { μ with mocks := (f μ.mocks).2 }) := rfl

end Action

namespace Fallible

/-- The outcome of a step begun on `μ`, with the machine it leaves behind. -/
def runFrom (x : Fallible ε κ α) (μ : Machine κ) : Except ε α × Machine κ := x.run μ

@[simp] theorem runFrom_pure (a : α) (μ : Machine κ) :
    (pure a : Fallible ε κ α).runFrom μ = (.ok a, μ) := rfl

@[simp] theorem runFrom_throw (e : ε) (μ : Machine κ) :
    (throw e : Fallible ε κ α).runFrom μ = (.error e, μ) := rfl

/-- A failed step ends the composition, on the machine it left behind. -/
theorem runFrom_bind (x : Fallible ε κ α) (f : α → Fallible ε κ β) (μ : Machine κ) :
    (x >>= f).runFrom μ = match x.runFrom μ with
      | (.ok a, ν) => (f a).runFrom ν
      | (.error e, ν) => (.error e, ν) := by
  rcases h : x.runFrom μ with ⟨_ | a, ν⟩
  all_goals
    simp only [runFrom, ExceptT.run_bind] at h ⊢
    simp only [bind, StateT.bind, h]
  rfl

theorem runFrom_bind_ok {x : Fallible ε κ α} {f : α → Fallible ε κ β} {μ ν : Machine κ} {a : α}
    (h : x.runFrom μ = (.ok a, ν)) : (x >>= f).runFrom μ = (f a).runFrom ν := by
  simp only [runFrom_bind, h]

/-- A composition that succeeds did so in both of its steps. -/
theorem of_runFrom_bind {x : Fallible ε κ α} {f : α → Fallible ε κ β} {μ ν : Machine κ} {b : β}
    (h : (x >>= f).runFrom μ = (.ok b, ν)) :
    ∃ a ξ, x.runFrom μ = (.ok a, ξ) ∧ (f a).runFrom ξ = (.ok b, ν) := by
  rw [runFrom_bind] at h
  split at h
  next a ξ hx => exact ⟨a, ξ, hx, h⟩
  next => cases h

theorem of_runFrom_bind_pure {x : Fallible ε κ α} {f : α → β} {μ ν : Machine κ} {b : β}
    (h : (x >>= fun a => (pure (f a) : Fallible ε κ β)).runFrom μ = (.ok b, ν)) :
    ∃ a, x.runFrom μ = (.ok a, ν) ∧ b = f a := by
  obtain ⟨a, ξ, ha, hb⟩ := of_runFrom_bind h
  rw [runFrom_pure] at hb
  cases hb
  exact ⟨a, ha, rfl⟩

@[simp] theorem runFrom_perform (x : Action κ α) (μ : Machine κ) :
    (perform x : Fallible ε κ α).runFrom μ = (.ok (x.runFrom μ).1, (x.runFrom μ).2) := rfl

theorem runFrom_adapt (g : ε → ε') (x : Fallible ε κ α) (μ : Machine κ) :
    runFrom (ExceptT.adapt g x : Fallible ε' κ α) μ =
      ((x.runFrom μ).1.mapError g, (x.runFrom μ).2) := rfl

theorem runFrom_adapt_ok {g : ε → ε'} {x : Fallible ε κ α} {μ ν : Machine κ} {a : α}
    (h : x.runFrom μ = (.ok a, ν)) : runFrom (ExceptT.adapt g x : Fallible ε' κ α) μ = (.ok a, ν) := by
  rw [runFrom_adapt, h]
  rfl

theorem of_runFrom_adapt {g : ε → ε'} {x : Fallible ε κ α} {μ ν : Machine κ} {a : α}
    (h : runFrom (ExceptT.adapt g x : Fallible ε' κ α) μ = (.ok a, ν)) :
    x.runFrom μ = (.ok a, ν) := by
  rw [runFrom_adapt] at h
  cases hx : x.runFrom μ with
  | mk answer ξ =>
    rw [hx] at h
    cases answer with
    | error e => cases h
    | ok b =>
      cases h
      rfl

theorem runFrom_releasing (cleanup : Action κ Unit) (body : Fallible ε κ α) (μ : Machine κ) :
    (releasing cleanup body).runFrom μ = match body.runFrom μ with
      | (.ok a, ν) => (.ok a, ν)
      | (.error e, ν) => (.error e, (cleanup.runFrom ν).2) := by
  rcases h : body.runFrom μ with ⟨_ | a, ν⟩
  all_goals
    simp only [runFrom] at h
    simp only [runFrom, releasing, ExceptT.run_mk, bind, StateT.bind, h]
    rfl

theorem runFrom_releasing_ok {cleanup : Action κ Unit} {body : Fallible ε κ α} {μ ν : Machine κ}
    {a : α} (h : body.runFrom μ = (.ok a, ν)) : (releasing cleanup body).runFrom μ = (.ok a, ν) := by
  simp only [runFrom_releasing, h]

theorem of_runFrom_releasing {cleanup : Action κ Unit} {body : Fallible ε κ α} {μ ν : Machine κ}
    {a : α} (h : (releasing cleanup body).runFrom μ = (.ok a, ν)) :
    body.runFrom μ = (.ok a, ν) := by
  rw [runFrom_releasing] at h
  split at h
  next hb => rw [hb, h]
  next => cases h

end Fallible

namespace Attempt

open Fallible

theorem runFrom_checked (x : Action κ (Status × α)) (μ : Machine κ) :
    (checked x).runFrom μ = ((x.runFrom μ).1.1.map fun _ => (x.runFrom μ).1.2, (x.runFrom μ).2) := by
  rcases h : x.runFrom μ with ⟨⟨_ | _, a⟩, ν⟩
  all_goals
    rw [Action.runFrom] at h
    simp only [runFrom, checked, ExceptT.run_mk, bind, StateT.bind, h]
    rfl

/-- `y` does `x`, then what `next` makes of its answer; when `x` fails, the answer is `default`. -/
def Answers (y : Action κ (Status × β)) (x : Attempt κ α) (default : β)
    (next : α → Action κ (Status × β)) : Prop :=
  ∀ μ, y.runFrom μ = match x.runFrom μ with
    | (.ok a, ν) => (next a).runFrom ν
    | (.error e, ν) => ((.error e, default), ν)

@[simp] theorem runFrom_require (status : Status) (μ : Machine κ) :
    (require status : Attempt κ Unit).runFrom μ = (status, μ) := rfl

variable {cleanup : Action κ Unit} {next : Attempt κ α} {μ ν : Machine κ} {a : α}

/-- A status that was a success does not keep the next step from running, and a next step that
succeeds does not release. -/
theorem runFrom_releasing_require (h : next.runFrom μ = (.ok a, ν)) :
    (releasing cleanup (do require (.ok ()); next)).runFrom μ = (.ok a, ν) := by
  apply runFrom_releasing_ok
  rw [runFrom_bind_ok (runFrom_require (.ok ()) μ)]
  exact h

theorem of_runFrom_releasing_require
    (h : (releasing cleanup (do require (.ok ()); next)).runFrom μ = (.ok a, ν)) :
    next.runFrom μ = (.ok a, ν) := by
  have hn := of_runFrom_releasing h
  rw [runFrom_bind_ok (runFrom_require (.ok ()) μ)] at hn
  exact hn

end Attempt

end CryptoSuite
