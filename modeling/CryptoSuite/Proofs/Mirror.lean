import CryptoSuite.Proofs.Memory.Demands

/-! Steps that go alike on every machine: they leave the same machine behind, and their answers are related.
What is composed of such steps goes alike again. A failure has to be the same on both sides, and to be one that
callers can bring about. -/
namespace CryptoSuite

variable {ε ε' κ α α' β β' : Type}

/-- Not an error of a branch that guards against what should not come about. -/
def CryptoError.Ordinary : CryptoError → Prop
  | failure _ _ => False
  | invalidArgument _ reason => reason ≠ .chunkCounterOverflow
  | _ => True

/-- A success, or a failure for which `E` holds. -/
def Status.Within (E : CryptoError → Prop) (status : Status) : Prop := ∀ e, status = .error e → E e

abbrev Status.Ordinary (status : Status) : Prop := status.Within CryptoError.Ordinary

namespace Status.Within

variable {E : CryptoError → Prop}

theorem ok : Status.Within E (.ok ()) := nofun

theorem error {e : CryptoError} (h : E e) : Status.Within E (.error e) := by
  rintro _ ⟨⟩
  exact h

end Status.Within

theorem CryptoError.Ordinary.within {e : CryptoError} (h : e.Ordinary) (c : Component) :
    (e.within c).Ordinary := by
  cases e <;> exact h

/-- Requests that are not served end as the plan says. -/
theorem Demand.ordinary_verdict {policy : Nat → Nat → Option Nat} {n : Nat}
    {plan : List (Demand CryptoError)} (h : ∀ d ∈ plan, d.refusal.Ordinary) :
    Status.Ordinary (verdict policy n plan) := by
  induction plan generalizing n with
  | nil => exact .ok
  | cons d rest ih =>
    unfold verdict
    split_ifs
    · exact ih fun d' hd => h d' (List.mem_cons_of_mem d hd)
    · exact .error (h d List.mem_cons_self)

theorem ordinary_demands (c : Component) (sizes : List Nat) : ∀ d ∈ demands c sizes, d.refusal.Ordinary := by
  intro d hd
  obtain ⟨size, -, rfl⟩ := List.mem_map.mp hd
  trivial

namespace Action

/-- Begun on one machine, the steps leave the same machine behind and have related answers. -/
def Mirrors (R : α → α' → Prop) (x : Action κ α) (y : Action κ α') : Prop :=
  ∀ μ : Machine κ, (x.runFrom μ).2 = (y.runFrom μ).2 ∧ R (x.runFrom μ).1 (y.runFrom μ).1

namespace Mirrors

variable {R : α → α' → Prop} {S : β → β' → Prop} {x : Action κ α} {y : Action κ α'}
  {f : α → Action κ β} {g : α' → Action κ β'}

theorem pure {a : α} {a' : α'} (h : R a a') : Mirrors R (pure a : Action κ α) (pure a') := fun _ =>
  ⟨rfl, h⟩

theorem bind (hx : Mirrors R x y) (hf : ∀ a a', R a a' → Mirrors S (f a) (g a')) :
    Mirrors S (x >>= f) (y >>= g) := by
  intro μ
  obtain ⟨hm, hr⟩ := hx μ
  rw [runFrom_bind, runFrom_bind, hm]
  exact hf _ _ hr _

/-- A step beside itself. -/
theorem refl {x : Action κ α} {Q : α → Prop} (h : ∀ μ, Q (x.runFrom μ).1) :
    Mirrors (fun a a' => a = a' ∧ Q a') x x := fun μ => ⟨rfl, rfl, h μ⟩

/-- Where there is something, nothing is seen of what would stand for it. -/
theorem getD {o : Option α} {a d : α} {Q : α → Prop} (h : o = some a ∧ Q a) :
    Mirrors (fun a a' => a = a' ∧ Q a') (Pure.pure (o.getD d) : Action κ α) (Pure.pure a) := by
  obtain ⟨rfl, hq⟩ := h
  exact .pure ⟨rfl, hq⟩

theorem runFrom_eq {x y : Action κ α} {Q : α → Prop} (h : Mirrors (fun a a' => a = a' ∧ Q a') x y)
    (μ : Machine κ) : x.runFrom μ = y.runFrom μ ∧ Q (y.runFrom μ).1 := by
  obtain ⟨hm, ha, hq⟩ := h μ
  exact ⟨Prod.ext ha hm, hq⟩

end Mirrors

end Action

/-- The same failure, for which `E` holds, or related answers. -/
def Outcomes (E : ε → Prop) (R : α → α' → Prop) : Except ε α → Except ε α' → Prop
  | .ok a, .ok a' => R a a'
  | .error e, .error e' => e = e' ∧ E e'
  | _, _ => False

namespace Fallible

def Mirrors (E : ε → Prop) (R : α → α' → Prop) (x : Fallible ε κ α) (y : Fallible ε κ α') : Prop :=
  ∀ μ : Machine κ, (x.runFrom μ).2 = (y.runFrom μ).2 ∧ Outcomes E R (x.runFrom μ).1 (y.runFrom μ).1

namespace Mirrors

variable {E : ε → Prop} {E' : ε' → Prop} {R : α → α' → Prop} {S : β → β' → Prop}
  {x : Fallible ε κ α} {y : Fallible ε κ α'} {f : α → Fallible ε κ β} {g : α' → Fallible ε κ β'}

theorem pure {a : α} {a' : α'} (h : R a a') : Mirrors E R (pure a : Fallible ε κ α) (pure a') := fun _ =>
  ⟨rfl, h⟩

theorem throw {e : ε} (h : E e) : Mirrors E R (throw e : Fallible ε κ α) (throw e) := fun _ =>
  ⟨rfl, rfl, h⟩

theorem bind (hx : Mirrors E R x y) (hf : ∀ a a', R a a' → Mirrors E S (f a) (g a')) :
    Mirrors E S (x >>= f) (y >>= g) := by
  intro μ
  obtain ⟨hm, ho⟩ := hx μ
  rw [runFrom_bind, runFrom_bind]
  rcases hrun : x.runFrom μ with ⟨e | a, ν⟩ <;> rcases hrun' : y.runFrom μ with ⟨e' | a', ν'⟩ <;>
    simp only [hrun, hrun', Outcomes] at hm ho ⊢
  · exact ⟨hm, ho⟩
  · subst hm
    exact hf a a' ho ν

theorem perform {x : Action κ α} {y : Action κ α'} (h : Action.Mirrors R x y) :
    Mirrors E R (perform x : Fallible ε κ α) (perform y) := h

/-- What goes on after a failure as well. -/
theorem run_bind {f : Except ε α → Action κ β} {g : Except ε α' → Action κ β'} (hx : Mirrors E R x y)
    (herror : ∀ e, E e → Action.Mirrors S (f (.error e)) (g (.error e)))
    (hok : ∀ a a', R a a' → Action.Mirrors S (f (.ok a)) (g (.ok a'))) :
    Action.Mirrors S (x.run >>= f) (y.run >>= g) := by
  have hrun : Action.Mirrors (Outcomes E R) x.run y.run := hx
  apply hrun.bind
  rintro (e | a) (e' | a') hr
  · obtain ⟨rfl, he⟩ := hr
    exact herror e he
  · exact hr.elim
  · exact hr.elim
  · exact hok a a' hr

/-- What is given back after a failure is given back on both sides. -/
theorem releasing {c c' : Action κ Unit} (hx : Mirrors E R x y)
    (hc : Action.Mirrors (fun _ _ => True) c c') :
    Mirrors E R (Fallible.releasing c x) (Fallible.releasing c' y) := by
  intro μ
  obtain ⟨hm, ho⟩ := hx μ
  rw [runFrom_releasing, runFrom_releasing]
  rcases hrun : x.runFrom μ with ⟨e | a, ν⟩ <;> rcases hrun' : y.runFrom μ with ⟨e' | a', ν'⟩ <;>
    simp only [hrun, hrun', Outcomes] at hm ho ⊢
  · subst hm
    exact ⟨(hc ν).1, ho⟩
  · exact ⟨hm, ho⟩

theorem adapt {k : ε → ε'} (hx : Mirrors E R x y) (hk : ∀ e, E e → E' (k e)) :
    Mirrors E' R (ExceptT.adapt k x : Fallible ε' κ α) (ExceptT.adapt k y : Fallible ε' κ α') := by
  intro μ
  obtain ⟨hm, ho⟩ := hx μ
  rw [runFrom_adapt, runFrom_adapt]
  rcases hrun : x.runFrom μ with ⟨e | a, ν⟩ <;> rcases hrun' : y.runFrom μ with ⟨e' | a', ν'⟩ <;>
    simp only [hrun, hrun', Outcomes, Except.mapError] at hm ho ⊢
  · exact ⟨hm, congrArg k ho.1, hk e' ho.2⟩
  · exact ⟨hm, ho⟩

/-- A step beside itself. -/
theorem refl {Q : α → Prop} {x : Fallible ε κ α} (hE : ∀ μ e, (x.runFrom μ).1 = .error e → E e)
    (hQ : ∀ μ a, (x.runFrom μ).1 = .ok a → Q a) : Mirrors E (fun a a' => a = a' ∧ Q a') x x := by
  intro μ
  refine ⟨rfl, ?_⟩
  rcases hrun : (x.runFrom μ).1 with e | a
  · exact ⟨rfl, hE μ e hrun⟩
  · exact ⟨rfl, hQ μ a hrun⟩

/-- What succeeds on one side succeeds on the other. -/
theorem of_ok {a' : α'} {μ : Machine κ} (hx : Mirrors E R x y) (h : (y.runFrom μ).1 = .ok a') :
    ∃ a, (x.runFrom μ).1 = .ok a ∧ R a a' := by
  obtain ⟨-, ho⟩ := hx μ
  rw [h] at ho
  cases hrun : (x.runFrom μ).1 with
  | error e =>
    rw [hrun] at ho
    exact ho.elim
  | ok a =>
    rw [hrun] at ho
    exact ⟨a, rfl, ho⟩

theorem mono {E' : ε → Prop} (hx : Mirrors E R x y) (h : ∀ e, E e → E' e) : Mirrors E' R x y := by
  intro μ
  obtain ⟨hm, ho⟩ := hx μ
  refine ⟨hm, ?_⟩
  rcases hrun : (x.runFrom μ).1 with e | a <;> rcases hrun' : (y.runFrom μ).1 with e' | a' <;>
    simp only [hrun, hrun', Outcomes] at ho ⊢
  · exact ⟨ho.1, h e' ho.2⟩
  · exact ho

end Mirrors

end Fallible

namespace Attempt

abbrev Mirrors (R : α → α' → Prop) (x : Attempt κ α) (y : Attempt κ α') : Prop :=
  Fallible.Mirrors CryptoError.Ordinary R x y

variable {R : α → α' → Prop} {Q : α → Prop}

/-- Ends in `fault` unless `p` holds. -/
def insist (fault : CryptoError) (p : Prop) [Decidable p] : Attempt κ Unit :=
  if p then pure () else throw fault

/-- Ends in `fault` where there is nothing. -/
def obtain {m : Type → Type} [Monad m] (fault : CryptoError) : Option α → ExceptT CryptoError m α
  | some a => pure a
  | none => throw fault

theorem insist_bind {fault : CryptoError} {p : Prop} [Decidable p] (hp : p) (x : Unit → Attempt κ α) :
    (insist fault p >>= x) = x () := by
  rw [insist, if_pos hp, pure_bind]

/-- A step that fails only for want of memory, beside itself. -/
theorem mirrors_self {plan : List (Demand CryptoError)} {x : Attempt κ α} (h : Fallible.Draws plan x Q)
    (hplan : ∀ d ∈ plan, d.refusal.Ordinary) : Mirrors (fun a a' => a = a' ∧ Q a') x x := by
  apply Fallible.Mirrors.refl
  · intro μ e he
    obtain ⟨hv, -⟩ := h μ
    rw [he] at hv
    exact Demand.ordinary_verdict hplan e hv.symm
  · intro μ a ha
    exact (h μ).2.2 a ha

theorem mirrors_require {status : Status} (h : Status.Ordinary status) :
    Mirrors (fun _ _ => status = .ok ()) (require status : Attempt κ Unit) (require status) := by
  intro μ
  cases status with
  | error e => exact ⟨rfl, rfl, h e rfl⟩
  | ok _ => exact ⟨rfl, rfl⟩

theorem mirrors_within {x : Attempt κ α} {y : Attempt κ α'} (h : Mirrors R x y) (c : Component) :
    Mirrors R (x.within c) (y.within c) :=
  h.adapt fun _ he => he.within c

theorem mirrors_checked {x y : Action κ (Status × α)}
    (h : Action.Mirrors (fun r r' => r = r' ∧ Status.Ordinary r'.1) x y) :
    Mirrors (fun a a' => a = a') (checked x) (checked y) := by
  intro μ
  obtain ⟨hrun, hs⟩ := h.runFrom_eq μ
  rw [runFrom_checked, runFrom_checked, hrun]
  refine ⟨rfl, ?_⟩
  rcases hstatus : (y.runFrom μ).1.1 with e | _
  · exact ⟨rfl, hs e hstatus⟩
  · exact rfl

/-- Where there always is something, nothing is seen of the fault. -/
theorem mirrors_obtain (fault : CryptoError) {x : Attempt κ (Option α)} {y : Attempt κ α}
    (h : Mirrors (fun o a => o = some a ∧ Q a) x y) :
    Mirrors (fun a a' => a = a' ∧ Q a') (do obtain fault (← x)) y := by
  rw [← bind_pure y]
  apply h.bind
  rintro _ a ⟨rfl, hq⟩
  exact .pure ⟨rfl, hq⟩

end Attempt

namespace Buffer

theorem mirrors_release (b : Buffer) :
    Action.Mirrors (fun _ _ => True) (b.release : Action κ Unit) b.release := fun _ => ⟨rfl, trivial⟩

theorem mirrors_new (size : Nat) : Attempt.Mirrors (fun b b' => b = b' ∧ b'.size = size)
    (new size : Attempt κ Buffer) (new size) := by
  rcases Nat.eq_zero_or_pos size with rfl | h
  · exact fun μ => ⟨rfl, rfl, nofun⟩
  · exact Attempt.mirrors_self (draws_new h) (ordinary_demands .buffer [size])

theorem mirrors_newFor (c : Component) (size : Nat) :
    Attempt.Mirrors (fun b b' => b = b' ∧ b'.size = size) (newFor c size : Attempt κ Buffer)
      (newFor c size) :=
  Attempt.mirrors_within (mirrors_new size) c

variable {χ : Type} {Paired : χ → χ → Prop} {make make' : χ → Bytes → Action κ (Status × Bytes × χ)}
  {release release' : χ → Action κ Unit} {c c' : χ}

/-- An answer delivered in a new buffer by computations that go alike. -/
theorem mirrors_delivery {status : Status} {size : Nat} (hs : Status.Ordinary status) (hc : Paired c c')
    (hmake : ∀ d d' out, Paired d d' → Action.Mirrors (fun r r' => r.1 = r'.1 ∧ r.2.1 = r'.2.1 ∧
      Status.Ordinary r'.1 ∧ Paired r.2.2 r'.2.2) (make d out) (make' d' out))
    (hrelease : ∀ d d', Paired d d' → Action.Mirrors (fun _ _ => True) (release d) (release' d')) :
    Attempt.Mirrors (fun b b' => b = b')
      (do
        let out ← Fallible.releasing (release c) do
          Attempt.require status
          new size
        let (status, answer, c) ← Fallible.perform (make c out.bytes)
        Fallible.perform (release c)
        Fallible.releasing out.release (Attempt.require status)
        pure (out.setBytes answer))
      (do
        let out ← Fallible.releasing (release' c') do
          Attempt.require status
          new size
        let (status, answer, c) ← Fallible.perform (make' c' out.bytes)
        Fallible.perform (release' c)
        Fallible.releasing out.release (Attempt.require status)
        pure (out.setBytes answer)) := by
  have hroom : Attempt.Mirrors (fun b b' => b = b' ∧ b'.size = size)
      (do Attempt.require status; new size : Attempt κ Buffer) (do Attempt.require status; new size) :=
    (Attempt.mirrors_require hs).bind fun _ _ _ => mirrors_new size
  apply (hroom.releasing (hrelease c c' hc)).bind
  rintro out _ ⟨rfl, -⟩
  apply (Fallible.Mirrors.perform (hmake c c' out.bytes hc)).bind
  rintro ⟨_, _, d⟩ ⟨status, answer, d'⟩ ⟨rfl, rfl, hok, hd⟩
  apply (Fallible.Mirrors.perform (hrelease d d' hd)).bind
  intro _ _ _
  apply ((Attempt.mirrors_require hok).releasing out.mirrors_release).bind
  intro _ _ _
  exact .pure rfl

end Buffer

end CryptoSuite
