import CryptoSuite.Proofs.Memory.Ownership

/-! The requests that a step is going to make, one after the other, and the error that each of them
ends in when the allocator does not serve it. Plans of requests compose as the steps do. -/
namespace CryptoSuite

/-- A request to come: how much is asked for, and how it is reported that it was not served. -/
structure Demand (ε : Type) where
  size : Nat
  refusal : ε

namespace Demand

variable {ε ε' : Type} (policy : Nat → Nat → Option Nat)

def map (f : ε → ε') (d : Demand ε) : Demand ε' := ⟨d.size, f d.refusal⟩

/-- How requests end that are made in turn, numbered from `n` on: the first that is not served decides.
A region of another size than was asked for does not serve a request. -/
def verdict : Nat → List (Demand ε) → Except ε Unit
  | _, [] => .ok ()
  | n, d :: rest =>
    if policy n d.size = some d.size then verdict (n + 1) rest else .error d.refusal

/-- The sizes asked for. After a request that is not served there is none. -/
def made : Nat → List (Demand ε) → List Nat
  | _, [] => []
  | n, d :: rest => d.size :: if policy n d.size = some d.size then made (n + 1) rest else []

variable {policy} {n : Nat} {p : List (Demand ε)}

theorem verdict_append (p q : List (Demand ε)) (n : Nat) :
    verdict policy n (p ++ q) = verdict policy n p >>= fun _ => verdict policy (n + p.length) q := by
  induction p generalizing n with
  | nil => rfl
  | cons d p ih =>
    simp only [List.cons_append, verdict, List.length_cons, Nat.add_comm p.length 1, ← Nat.add_assoc]
    split_ifs
    · exact ih (n + 1)
    · rfl

theorem made_append_of_ok (h : verdict policy n p = .ok ()) (q : List (Demand ε)) :
    made policy n (p ++ q) = made policy n p ++ made policy (n + p.length) q := by
  induction p generalizing n with
  | nil => rfl
  | cons d p ih =>
    simp only [verdict] at h
    split_ifs at h with hd
    simp only [List.cons_append, made, if_pos hd, ih h, List.length_cons, Nat.add_comm p.length 1,
      ← Nat.add_assoc]

theorem made_append_of_error {e : ε} (h : verdict policy n p = .error e) (q : List (Demand ε)) :
    made policy n (p ++ q) = made policy n p := by
  induction p generalizing n with
  | nil => cases h
  | cons d p ih =>
    simp only [List.cons_append, made]
    split_ifs with hd
    · simp only [verdict, if_pos hd] at h
      rw [ih h]
    · rfl

theorem length_made (h : verdict policy n p = .ok ()) : (made policy n p).length = p.length := by
  induction p generalizing n with
  | nil => rfl
  | cons d p ih =>
    simp only [verdict] at h
    split_ifs at h with hd
    simp only [made, if_pos hd, List.length_cons, ih h]

theorem verdict_map (f : ε → ε') (p : List (Demand ε)) (n : Nat) :
    verdict policy n (p.map (map f)) = (verdict policy n p).mapError f := by
  induction p generalizing n with
  | nil => rfl
  | cons d p ih =>
    simp only [List.map_cons, verdict, map]
    split_ifs
    · exact ih (n + 1)
    · rfl

theorem made_map (f : ε → ε') (p : List (Demand ε)) (n : Nat) :
    made policy n (p.map (map f)) = made policy n p := by
  induction p generalizing n with
  | nil => rfl
  | cons d p ih => simp only [List.map_cons, made, map, ih]

/-- All of the requests are served exactly if the allocator grants their sizes. -/
theorem verdict_eq_ok_iff : verdict policy n p = .ok () ↔ Serves policy n (p.map size) := by
  induction p generalizing n with
  | nil => exact iff_of_true rfl trivial
  | cons d p ih =>
    simp only [verdict, List.map_cons, Serves]
    split_ifs with hd
    · rw [ih, and_iff_right hd]
    · constructor
      · intro h
        cases h
      · intro h
        exact absurd h.1 hd

end Demand

/-- Requests that are reported against one component. -/
def demands (c : Component) (sizes : List Nat) : List (Demand CryptoError) :=
  sizes.map fun size => ⟨size, .outOfMemory c⟩

@[simp] theorem demands_append (c : Component) (a b : List Nat) :
    demands c (a ++ b) = demands c a ++ demands c b := List.map_append

@[simp] theorem map_size_demands (c : Component) (sizes : List Nat) :
    (demands c sizes).map Demand.size = sizes :=
  List.map_map.trans (List.map_id sizes)

theorem map_within_demands (c d : Component) (sizes : List Nat) :
    (demands c sizes).map (Demand.map (.within d)) = demands d sizes := List.map_map

namespace Machine

variable {ε κ : Type}

def verdict (μ : Machine κ) (plan : List (Demand ε)) : Except ε Unit :=
  Demand.verdict μ.heap.policy μ.heap.requests.length plan

def made (μ : Machine κ) (plan : List (Demand ε)) : List Nat :=
  Demand.made μ.heap.policy μ.heap.requests.length plan

end Machine

variable {ε ε' κ α β : Type}

namespace Action

/-- The step asks for no memory, and its answer satisfies `Q`. -/
def Quiet (x : Action κ α) (Q : α → Prop) : Prop :=
  ∀ μ : Machine κ, (x.runFrom μ).2.After μ [] ∧ Q (x.runFrom μ).1

namespace Quiet

variable {x : Action κ α} {f : α → Action κ β} {Q : α → Prop} {R : β → Prop}

theorem pure {a : α} (h : Q a) : Quiet (pure a : Action κ α) Q := fun μ => ⟨.refl μ, h⟩

theorem bind (hx : x.Quiet Q) (hf : ∀ a, Q a → (f a).Quiet R) : (x >>= f).Quiet R := by
  intro μ
  obtain ⟨ha, hq⟩ := hx μ
  obtain ⟨hb, hr⟩ := hf _ hq (x.runFrom μ).2
  exact ⟨ha.trans hb, hr⟩

/-- A step that leaves the machine as it is. -/
theorem of_runFrom (h : ∀ μ, ∃ a, x.runFrom μ = (a, μ) ∧ Q a) : x.Quiet Q := by
  intro μ
  obtain ⟨a, ha, hq⟩ := h μ
  rw [ha]
  exact ⟨.refl μ, hq⟩

end Quiet

end Action

namespace Fallible

/-- The step makes the requests of `plan` in turn until one is not served, and ends as they do. The answer
of a success satisfies `Q`. -/
def Draws (plan : List (Demand ε)) (x : Fallible ε κ α) (Q : α → Prop) : Prop :=
  ∀ μ : Machine κ, ((x.runFrom μ).1.map fun _ => ()) = μ.verdict plan ∧
    (x.runFrom μ).2.After μ (μ.made plan) ∧ ∀ a, (x.runFrom μ).1 = .ok a → Q a

namespace Draws

variable {plan p q : List (Demand ε)} {x : Fallible ε κ α} {f : α → Fallible ε κ β}
  {Q W : α → Prop} {R : β → Prop}

theorem pure {a : α} (h : Q a) : Draws [] (pure a : Fallible ε κ α) Q := by
  intro μ
  refine ⟨rfl, .refl μ, ?_⟩
  rintro _ ⟨⟩
  exact h

/-- The requests of the second step follow those of the first. -/
theorem bind (hplan : plan = p ++ q) (hx : Draws p x Q) (hf : ∀ a, Q a → Draws q (f a) R) :
    Draws plan (x >>= f) R := by
  intro μ
  subst hplan
  obtain ⟨hv, ha, hq⟩ := hx μ
  rw [runFrom_bind]
  rcases hrun : x.runFrom μ with ⟨e | a, ν⟩ <;> simp only [hrun] at hv ha hq ⊢
  · have hp : Demand.verdict μ.heap.policy μ.heap.requests.length p = .error e := hv.symm
    refine ⟨?_, ?_, nofun⟩
    · rw [Machine.verdict, Demand.verdict_append, hp]
      rfl
    · rwa [Machine.made, Demand.made_append_of_error hp]
  · have hp : Demand.verdict μ.heap.policy μ.heap.requests.length p = .ok () := hv.symm
    have hn : μ.heap.requests.length + p.length = ν.heap.requests.length := by
      rw [ha.requests_eq, List.length_append, Machine.made, Demand.length_made hp]
    obtain ⟨hv', hb, hr⟩ := hf a (hq a rfl) ν
    refine ⟨?_, ?_, hr⟩
    · rw [hv', Machine.verdict, Machine.verdict, Demand.verdict_append, hp, hn, ha.policy_eq]
      rfl
    · have hab := ha.trans hb
      rwa [Machine.made, Machine.made, ha.policy_eq, ← hn, ← Demand.made_append_of_ok hp] at hab

/-- A first step that asks for nothing. -/
theorem seq (hx : Draws [] x Q) (hf : ∀ a, Q a → Draws plan (f a) R) : Draws plan (x >>= f) R :=
  hx.bind rfl hf

theorem perform {y : Action κ α} (hy : y.Quiet Q) : Draws [] (perform y : Fallible ε κ α) Q := by
  intro μ
  refine ⟨rfl, (hy μ).1, ?_⟩
  rintro _ ⟨⟩
  exact (hy μ).2

/-- What is given back after a failure does not change how it is reported. -/
theorem releasing {cleanup : Action κ Unit} (hx : Draws plan x Q) (hc : cleanup.Quiet fun _ => True) :
    Draws plan (releasing cleanup x) Q := by
  intro μ
  obtain ⟨hv, ha, hq⟩ := hx μ
  rw [runFrom_releasing]
  rcases hrun : x.runFrom μ with ⟨e | a, ν⟩ <;> simp only [hrun] at hv ha hq ⊢
  · have hb := ha.trans (hc ν).1
    rw [List.append_nil] at hb
    exact ⟨hv, hb, nofun⟩
  · exact ⟨hv, ha, hq⟩

theorem adapt {k : ε → ε'} (hx : Draws plan x Q) :
    Draws (plan.map (Demand.map k)) (ExceptT.adapt k x : Fallible ε' κ α) Q := by
  intro μ
  obtain ⟨hv, ha, hq⟩ := hx μ
  rw [runFrom_adapt, Machine.verdict, Machine.made, Demand.verdict_map, Demand.made_map]
  refine ⟨?_, ha, ?_⟩
  · rw [Machine.verdict] at hv
    rw [← hv]
    cases (x.runFrom μ).1 <;> rfl
  · intro a h
    apply hq
    rcases hrun : (x.runFrom μ).1 with e | b <;> rw [hrun] at h <;> cases h
    rfl

/-- Nothing but a request that is not served makes the step fail. -/
theorem succeeds (hx : Draws plan x Q) {μ : Machine κ} (hg : μ.Grants (plan.map Demand.size)) :
    ∃ a ν, x.runFrom μ = (.ok a, ν) ∧ Q a := by
  obtain ⟨hv, -, hq⟩ := hx μ
  have hok : ((x.runFrom μ).1.map fun _ => ()) = .ok () :=
    hv.trans (Demand.verdict_eq_ok_iff.mpr hg)
  rcases hrun : x.runFrom μ with ⟨e | a, ν⟩
  · rw [hrun] at hok
    cases hok
  · exact ⟨a, ν, rfl, hq a (congrArg Prod.fst hrun)⟩

/-- What is known of every answer when the requests are granted. -/
theorem of_answers (hx : Draws plan x Q)
    (h : ∀ μ ν a, μ.Grants (plan.map Demand.size) → x.runFrom μ = (.ok a, ν) → W a) :
    Draws plan x W := by
  intro μ
  obtain ⟨hv, ha, -⟩ := hx μ
  refine ⟨hv, ha, fun a hrun => h μ _ a ?_ (Prod.ext hrun rfl)⟩
  rw [hrun] at hv
  exact Demand.verdict_eq_ok_iff.mp hv.symm

theorem imp (hx : Draws plan x Q) (h : ∀ a, Q a → W a) : Draws plan x W := by
  intro μ
  obtain ⟨hv, ha, hq⟩ := hx μ
  exact ⟨hv, ha, fun a hrun => h a (hq a hrun)⟩

end Draws

end Fallible

namespace Attempt

open Fallible

variable {plan : List (Demand CryptoError)} {x : Attempt κ α} {Q : α → Prop} {R : β → Prop}

theorem draws_require {status : Status} (hs : status = .ok ()) :
    Draws [] (require status : Attempt κ Unit) fun _ => True := by
  subst hs
  exact Draws.pure trivial

/-- The requests of a part are reported against the whole. -/
theorem draws_within {c d : Component} {sizes : List Nat} (hx : Draws (demands c sizes) x Q) :
    Draws (demands d sizes) (x.within d) Q := by
  rw [← map_within_demands c d]
  exact hx.adapt

/-- A step that answers what `next` makes of the computation `x`, when that cannot fail any more. -/
theorem draws_checked {y : Action κ (Status × β)} {default : β} {next : α → Action κ (Status × β)}
    (hy : Answers y x default next) (hx : Draws plan x Q)
    (hn : ∀ a, Q a → (next a).Quiet fun r => r.1 = .ok () ∧ R r.2) : Draws plan (checked y) R := by
  intro μ
  obtain ⟨hv, ha, hq⟩ := hx μ
  rw [runFrom_checked, hy μ]
  rcases hrun : x.runFrom μ with ⟨e | a, ν⟩ <;> simp only [hrun] at hv ha hq ⊢
  · exact ⟨hv, ha, nofun⟩
  · obtain ⟨hb, hs, hr⟩ := hn a (hq a rfl) ν
    have hab := ha.trans hb
    rw [List.append_nil] at hab
    rw [hs]
    refine ⟨hv, hab, ?_⟩
    rintro _ ⟨⟩
    exact hr

end Attempt

namespace Buffer

open Fallible

/-- The three answers that an allocator can give. -/
theorem draws_new {size : Nat} (hs : 0 < size) :
    Draws (demands .buffer [size]) (new size : Attempt κ Buffer) fun b => b.bytes.length = size := by
  intro μ
  have hpolicy := Heap.request_policy μ.heap size
  have hrequests := Heap.request_requests μ.heap size
  have hmade : μ.made (demands .buffer [size]) = [size] := by
    simp [Machine.made, demands, Demand.made]
  rw [hmade]
  cases hp : μ.heap.policy μ.heap.requests.length size with
  | none =>
    rw [runFrom_new_refused hs.ne' hp]
    refine ⟨?_, ⟨hpolicy, hrequests⟩, nofun⟩
    simp [Machine.verdict, demands, Demand.verdict, hp, Except.map]
  | some granted =>
    by_cases hg : granted = size
    · subst hg
      rw [runFrom_new_served hs hp]
      refine ⟨?_, ⟨hpolicy, hrequests⟩, ?_⟩
      · simp [Machine.verdict, demands, Demand.verdict, hp, Except.map]
      · rintro _ ⟨⟩
        exact Bytes.length_zeros granted
    · rw [runFrom_new_misfit hs.ne' hp hg]
      refine ⟨?_, ⟨hpolicy, hrequests⟩, nofun⟩
      simp [Machine.verdict, demands, Demand.verdict, hp, hg, Except.map]

theorem draws_newFor (c : Component) {size : Nat} (hs : 0 < size) :
    Draws (demands c [size]) (newFor c size : Attempt κ Buffer) fun b => b.bytes.length = size :=
  Attempt.draws_within (draws_new hs)

theorem quiet_release (b : Buffer) : (b.release : Action κ Unit).Quiet fun _ => True := fun _ =>
  ⟨⟨rfl, (List.append_nil _).symm⟩, trivial⟩

/-- An answer is delivered in a new buffer by a computation that fails on none of that size. -/
theorem draws_delivery {χ : Type} {Runs : χ → Prop} {size : Nat}
    (make : χ → Bytes → Action κ (Status × Bytes × χ)) (release : χ → Action κ Unit)
    (hmake : ∀ c out, Runs c → out.length = size →
      (make c out).Quiet fun r => r.1 = .ok () ∧ Runs r.2.2)
    (hrelease : ∀ c, Runs c → (release c).Quiet fun _ => True)
    {c : χ} (hc : Runs c) {status : Status} (hs : status = .ok ()) (hsize : 0 < size) :
    Draws (demands .buffer [size]) (do
        let out ← Fallible.releasing (release c) do
          Attempt.require status
          new size
        let (status, answer, c) ← Fallible.perform (make c out.bytes)
        Fallible.perform (release c)
        Fallible.releasing out.release (Attempt.require status)
        pure (out.setBytes answer))
      fun _ => True := by
  have hroom : Draws (κ := κ) (demands .buffer [size]) (do Attempt.require status; new size)
      fun b => b.bytes.length = size := by
    apply (Attempt.draws_require hs).seq
    intro _ _
    exact draws_new hsize
  apply (hroom.releasing (hrelease c hc)).bind rfl
  intro out hout
  apply (Draws.perform (hmake c out.bytes hc hout)).seq
  rintro ⟨status, answer, c⟩ ⟨hok, hc⟩
  apply (Draws.perform (hrelease c hc)).seq
  intro _ _
  apply ((Attempt.draws_require hok).releasing out.quiet_release).seq
  intro _ _
  exact Draws.pure trivial

end Buffer

end CryptoSuite
