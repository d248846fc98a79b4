import CryptoSuite.Proofs.Memory.Accounts
import CryptoSuite.Proofs.Memory.Grants
import Mathlib.Algebra.Order.Group.Multiset
import Mathlib.Tactic.Abel

/-! What a step does to the accounts. A step is begun on the regions that it may use, beside any
others, and each of its ends says which regions are held then. Both ends of a fallible step are
spoken of, so a region that an early failure forgets breaks the statement. -/
namespace CryptoSuite

theorem serves_append {policy : Nat → Nat → Option Nat} {n : Nat} {a b : List Nat} :
    Serves policy n (a ++ b) ↔ Serves policy n a ∧ Serves policy (n + a.length) b := by
  induction a generalizing n with
  | nil => simp [Serves]
  | cons size a ih =>
    rw [List.cons_append, Serves, Serves, ih, and_assoc, List.length_cons, Nat.add_assoc n 1,
      Nat.add_comm 1]

variable {ε ε' κ α β : Type}

/-- `ν` is `μ` after requests of the given sizes. -/
structure Machine.After (ν μ : Machine κ) (sizes : List Nat) : Prop where
  policy_eq : ν.heap.policy = μ.heap.policy
  requests_eq : ν.heap.requests = μ.heap.requests ++ sizes

namespace Machine.After

variable {μ ν ξ : Machine κ} {a b : List Nat}

theorem refl (μ : Machine κ) : μ.After μ [] := ⟨rfl, (List.append_nil _).symm⟩

theorem trans (h : ν.After μ a) (h' : ξ.After ν b) : ξ.After μ (a ++ b) where
  policy_eq := h'.policy_eq.trans h.policy_eq
  requests_eq := by rw [h'.requests_eq, h.requests_eq, List.append_assoc]

theorem grants_append (h : ν.After μ a) : μ.Grants (a ++ b) ↔ μ.Grants a ∧ ν.Grants b := by
  unfold Grants
  rw [serves_append, h.policy_eq, h.requests_eq, List.length_append]

end Machine.After

/-- The errors that a step may end in when its requests were all served, and when one was not. -/
structure Failures (ε : Type) where
  served : ε → Prop
  refused : ε → Prop

namespace Failures

/-- Any error, but a request that was not served shows as refused memory. -/
def any : Failures CryptoError := ⟨fun _ => True, fun e => ∃ c, e = .outOfMemory c⟩

/-- No failure but for want of memory, which is reported against `c`. -/
def only (c : Component) : Failures CryptoError := ⟨fun _ => False, fun e => e = .outOfMemory c⟩

structure Among (f g : Failures ε) : Prop where
  served : ∀ e, f.served e → g.served e
  refused : ∀ e, f.refused e → g.refused e

theorem only_among_any (c : Component) : (only c).Among any where
  served _ he := he.elim
  refused _ he := ⟨c, he⟩

/-- A request that is not served ends the step, so that it is the last one. -/
def Explains (f : Failures ε) (μ : Machine κ) (sizes : List Nat) (e : ε) : Prop :=
  (μ.Grants sizes ∧ f.served e) ∨ (¬μ.Grants sizes ∧ μ.Grants sizes.dropLast ∧ f.refused e)

variable {f g : Failures ε} {μ ν : Machine κ} {a b : List Nat} {e : ε}

theorem Explains.served (h : f.served e) : f.Explains μ [] e := .inl ⟨trivial, h⟩

/-- The explanation of a later failure, after requests that were served. -/
theorem Explains.after (ha : ν.After μ a) (hg : μ.Grants a) (h : f.Explains ν b e) :
    f.Explains μ (a ++ b) e := by
  rcases h with ⟨hb, hs⟩ | ⟨hb, hd, hr⟩
  · exact .inl ⟨ha.grants_append.mpr ⟨hg, hb⟩, hs⟩
  · have hne : b ≠ [] := by
      rintro rfl
      exact hb trivial
    refine .inr ⟨fun hab => hb (ha.grants_append.mp hab).2, ?_, hr⟩
    rw [List.dropLast_append_of_ne_nil hne]
    exact ha.grants_append.mpr ⟨hg, hd⟩

theorem Explains.imp {g : Failures ε'} {e' : ε'} (h : f.Explains μ a e)
    (hs : f.served e → g.served e') (hr : f.refused e → g.refused e') : g.Explains μ a e' := by
  rcases h with ⟨ha, h⟩ | ⟨ha, hd, h⟩
  · exact .inl ⟨ha, hs h⟩
  · exact .inr ⟨ha, hd, hr h⟩

end Failures

namespace Action

/-- Without a request, `x` turns the holdings `pre` into those of its answer, whatever else is
held. -/
def Turns (pre : Holdings) (x : Action κ α) (Q : α → Prop) (own : α → Holdings) : Prop :=
  ∀ (μ : Machine κ) (frame : Holdings), μ.heap.Accounts (pre + frame) →
    (x.runFrom μ).2.After μ [] ∧ Q (x.runFrom μ).1 ∧
      (x.runFrom μ).2.heap.Accounts (own (x.runFrom μ).1 + frame)

namespace Turns

variable {total pre held : Holdings} {x : Action κ α} {Q W : α → Prop} {own own' : α → Holdings}
  {g : α → Action κ β} {R : β → Prop} {after : β → Holdings}

theorem pure {a : α} (hq : Q a) (ho : own a = pre) : Turns pre (pure a : Action κ α) Q own := by
  intro μ frame h
  refine ⟨.refl μ, hq, ?_⟩
  rwa [runFrom_pure, ho]

theorem bind (hx : Turns pre x Q own) (hg : ∀ a, Q a → Turns (own a) (g a) R after) :
    Turns pre (x >>= g) R after := by
  intro μ frame h
  obtain ⟨ha, hq, hm⟩ := hx μ frame h
  obtain ⟨hb, hr, ho⟩ := hg _ hq _ frame hm
  exact ⟨ha.trans hb, hr, ho⟩

theorem frame (hx : Turns pre x Q own) (held : Holdings) (ht : total = pre + held) :
    Turns total x Q fun a => own a + held := by
  intro μ frame h
  rw [ht, add_assoc] at h
  obtain ⟨ha, hq, ho⟩ := hx μ (held + frame) h
  refine ⟨ha, hq, ?_⟩
  rwa [add_assoc]

theorem imp (hx : Turns pre x Q own) (hq : ∀ a, Q a → W a ∧ own a = own' a) :
    Turns pre x W own' := by
  intro μ frame h
  obtain ⟨ha, h', ho⟩ := hx μ frame h
  obtain ⟨hq', he⟩ := hq _ h'
  exact ⟨ha, hq', he ▸ ho⟩

/-- A step that gives back all it was begun on leaves what else is held. -/
theorem beside (hx : Turns pre x Q fun _ => 0) (held : Holdings) :
    Turns (pre + held) x Q fun _ => held :=
  (hx.frame held rfl).imp fun _ hq => ⟨hq, zero_add held⟩

/-- A step on part of what is held, followed by a step on all of it. -/
theorem seq (hx : Turns pre x Q own) (held : Holdings) (ht : total = pre + held)
    (hg : ∀ a, Q a → Turns (own a + held) (g a) R after) : Turns total (x >>= g) R after :=
  (hx.frame held ht).bind hg

end Turns

end Action

namespace Fallible

/-- `x` ends well with what its answer owns, or fails with the holdings `rest`, whatever else is
held. -/
def Keeps (f : Failures ε) (pre : Holdings) (x : Fallible ε κ α) (Q : α → Prop)
    (own : α → Holdings) (rest : Holdings) : Prop :=
  ∀ (μ : Machine κ) (frame : Holdings), μ.heap.Accounts (pre + frame) →
    match x.runFrom μ with
    | (.ok a, ν) => ∃ sizes, ν.After μ sizes ∧ μ.Grants sizes ∧ Q a ∧ ν.heap.Accounts (own a + frame)
    | (.error e, ν) => ∃ sizes, ν.After μ sizes ∧ f.Explains μ sizes e ∧ ν.heap.Accounts (rest + frame)

namespace Keeps

variable {f f' : Failures ε} {g : Failures ε'} {total pre mid rest : Holdings} {x : Fallible ε κ α}
  {Q W : α → Prop} {own own' : α → Holdings} {next : α → Fallible ε κ β} {R : β → Prop}
  {after : β → Holdings} {cleanup : Action κ Unit}

theorem pure {a : α} (hq : Q a) (ho : own a = pre) :
    Keeps f pre (pure a : Fallible ε κ α) Q own rest := by
  intro μ frame h
  refine ⟨[], .refl μ, trivial, hq, ?_⟩
  rwa [ho]

theorem throw {e : ε} (he : f.served e) : Keeps f pre (throw e : Fallible ε κ α) Q own pre := by
  intro μ frame h
  exact ⟨[], .refl μ, .served he, h⟩

theorem bind (hx : Keeps f pre x Q own rest) (hn : ∀ a, Q a → Keeps f (own a) (next a) R after rest) :
    Keeps f pre (x >>= next) R after rest := by
  intro μ frame h
  have hx := hx μ frame h
  rw [runFrom_bind]
  rcases hrun : x.runFrom μ with ⟨e | a, ν⟩ <;> simp only [hrun] at hx ⊢
  · exact hx
  · obtain ⟨sizes, ha, hg, hq, ho⟩ := hx
    have hn := hn a hq ν frame ho
    rcases hrun' : (next a).runFrom ν with ⟨e | b, ξ⟩ <;> simp only [hrun'] at hn ⊢
    · obtain ⟨sizes', hb, he, hr⟩ := hn
      exact ⟨sizes ++ sizes', ha.trans hb, he.after ha hg, hr⟩
    · obtain ⟨sizes', hb, hg', hr, ho'⟩ := hn
      exact ⟨sizes ++ sizes', ha.trans hb, ha.grants_append.mpr ⟨hg, hg'⟩, hr, ho'⟩

theorem perform {y : Action κ α} (hy : y.Turns pre Q own) :
    Keeps f pre (perform y : Fallible ε κ α) Q own rest := by
  intro μ frame h
  obtain ⟨ha, hq, ho⟩ := hy μ frame h
  exact ⟨[], ha, trivial, hq, ho⟩

/-- What a failure leaves is what the cleanup makes of it. -/
theorem releasing (hx : Keeps f pre x Q own mid) (hc : cleanup.Turns mid (fun _ => True) fun _ => rest) :
    Keeps f pre (releasing cleanup x) Q own rest := by
  intro μ frame h
  have hx := hx μ frame h
  rw [runFrom_releasing]
  rcases hrun : x.runFrom μ with ⟨e | a, ν⟩ <;> simp only [hrun] at hx ⊢
  · obtain ⟨sizes, ha, he, hm⟩ := hx
    obtain ⟨hb, -, hr⟩ := hc ν frame hm
    have hab := ha.trans hb
    rw [List.append_nil] at hab
    exact ⟨sizes, hab, he, hr⟩
  · exact hx

theorem adapt {k : ε → ε'} (hx : Keeps f pre x Q own rest) (hs : ∀ e, f.served e → g.served (k e))
    (hr : ∀ e, f.refused e → g.refused (k e)) :
    Keeps g pre (ExceptT.adapt k x : Fallible ε' κ α) Q own rest := by
  intro μ frame h
  have hx := hx μ frame h
  rw [runFrom_adapt]
  rcases hrun : x.runFrom μ with ⟨e | a, ν⟩ <;> simp only [hrun] at hx ⊢
  · obtain ⟨sizes, ha, he, hm⟩ := hx
    exact ⟨sizes, ha, he.imp (hs e) (hr e), hm⟩
  · exact hx

theorem frame (hx : Keeps f pre x Q own rest) (held : Holdings) (ht : total = pre + held) :
    Keeps f total x Q (fun a => own a + held) (rest + held) := by
  intro μ frame h
  rw [ht, add_assoc] at h
  have hx := hx μ (held + frame) h
  rcases hrun : x.runFrom μ with ⟨e | a, ν⟩ <;> simp only [hrun, add_assoc] at hx ⊢ <;> exact hx

theorem imp (hx : Keeps f pre x Q own rest) (hq : ∀ a, Q a → W a ∧ own a = own' a) :
    Keeps f pre x W own' rest := by
  intro μ frame h
  have hx := hx μ frame h
  rcases hrun : x.runFrom μ with ⟨e | a, ν⟩ <;> simp only [hrun] at hx ⊢
  · exact hx
  · obtain ⟨sizes, ha, hg, h', hm⟩ := hx
    obtain ⟨hq', he⟩ := hq a h'
    exact ⟨sizes, ha, hg, hq', he ▸ hm⟩

theorem widen (hx : Keeps f pre x Q own rest) (hf : f.Among f') : Keeps f' pre x Q own rest := by
  intro μ frame h
  have hx := hx μ frame h
  rcases hrun : x.runFrom μ with ⟨e | a, ν⟩ <;> simp only [hrun] at hx ⊢
  · obtain ⟨sizes, ha, he, hm⟩ := hx
    exact ⟨sizes, ha, he.imp (hf.served e) (hf.refused e), hm⟩
  · exact hx

/-- What `x` acquires joins what is held meanwhile. -/
theorem beside (hx : Keeps f 0 x Q own 0) (held : Holdings) :
    Keeps f held x Q (fun a => own a + held) held := by
  have h := hx.frame held (zero_add held).symm
  rwa [zero_add] at h

theorem acquire (hx : Keeps f 0 x Q own 0) (held : Holdings)
    (hn : ∀ a, Q a → Keeps f (own a + held) (next a) R after held) :
    Keeps f held (x >>= next) R after held :=
  (hx.beside held).bind hn

/-- A step without requests on part of what is held. -/
theorem turn {y : Action κ α} (hy : y.Turns pre Q own) (held : Holdings) (ht : total = pre + held)
    (hn : ∀ a, Q a → Keeps f (own a + held) (next a) R after rest) :
    Keeps f total (Fallible.perform y >>= next) R after rest :=
  (perform (hy.frame held ht)).bind hn

end Keeps

end Fallible

namespace Attempt

open Fallible

variable {f : Failures CryptoError} {pre rest : Holdings} {x : Attempt κ α} {Q : α → Prop}
  {own : α → Holdings}

theorem keeps_require {status : Status} (hs : ∀ e, status = .error e → f.served e) :
    Keeps f pre (require status : Attempt κ Unit) (fun _ => status = .ok ()) (fun _ => pre) pre := by
  intro μ frame h
  rw [runFrom_require]
  rcases status with e | u
  · exact ⟨[], .refl μ, .served (hs e rfl), h⟩
  · exact ⟨[], .refl μ, trivial, rfl, h⟩

/-- Wherever memory was refused, it is `c` that reports it. -/
theorem keeps_within {c d : Component} (hx : Keeps (.only c) pre x Q own rest) :
    Keeps (.only d) pre (x.within d) Q own rest :=
  hx.adapt (fun _ he => he) fun e he => by
    cases he
    rfl

end Attempt

namespace Buffer

open Fallible

variable {f : Failures CryptoError}

theorem runFrom_new_refused {size : Nat} {μ : Machine κ} (hs : size ≠ 0)
    (hp : μ.heap.policy μ.heap.requests.length size = none) :
    (new size).runFrom μ =
      (.error (.outOfMemory .buffer), { μ with heap := (μ.heap.request size).2 }) := by
  simp only [new, if_neg hs]
  rw [runFrom_bind_ok (runFrom_perform _ μ)]
  simp only [Action.runFrom_onHeap, Heap.request_of_none hp, runFrom_throw]

/-- Between the request and the return of a region that does not fit there is nothing else. -/
theorem runFrom_new_misfit {size granted : Nat} {μ : Machine κ} (hs : size ≠ 0)
    (hp : μ.heap.policy μ.heap.requests.length size = some granted) (hg : granted ≠ size) :
    (new size).runFrom μ = (.error (.outOfMemory .buffer), { μ with
      heap := (μ.heap.request size).2.giveBack ⟨μ.heap.requests.length, Bytes.zeros granted⟩ }) := by
  simp only [new, if_neg hs]
  rw [runFrom_bind_ok (runFrom_perform _ μ)]
  simp only [Action.runFrom_onHeap, Heap.request_of_some hp, Bytes.length_zeros, if_neg hg]
  rfl

/-- The three answers that an allocator can give. -/
theorem keeps_new {size : Nat} (hs : size = 0 → f.served (.invalidArgument .buffer .emptyBuffer))
    (hr : f.refused (.outOfMemory .buffer)) :
    Keeps f 0 (new size : Attempt κ Buffer) (fun b => b.bytes = Bytes.zeros size)
      (fun b => {b.holding}) 0 := by
  intro μ frame h
  rw [zero_add] at h
  by_cases hz : size = 0
  · simp only [new, if_pos hz, runFrom_bind, runFrom_throw]
    exact ⟨[], .refl μ, .served (hs hz), by rwa [zero_add]⟩
  have hpolicy := Heap.request_policy μ.heap size
  have hrequests := Heap.request_requests μ.heap size
  have hlost (hne : μ.heap.policy μ.heap.requests.length size ≠ some size) :
      f.Explains μ [size] (.outOfMemory .buffer) := .inr ⟨fun hg => hne hg.head, trivial, hr⟩
  cases hp : μ.heap.policy μ.heap.requests.length size with
  | none =>
    rw [runFrom_new_refused hz hp]
    rw [hp] at hlost
    refine ⟨[size], ⟨hpolicy, hrequests⟩, hlost (Option.some_ne_none size).symm, ?_⟩
    rw [zero_add]
    exact h.refused hp
  | some granted =>
    by_cases hg : granted = size
    · subst hg
      have hl : (served μ granted).holding = (μ.heap.requests.length, granted) :=
        congrArg (Prod.mk _) (Bytes.length_zeros granted)
      rw [runFrom_new_served (Nat.pos_of_ne_zero hz) hp]
      refine ⟨[granted], ⟨hpolicy, hrequests⟩, ⟨hp, trivial⟩, rfl, ?_⟩
      show Heap.Accounts _ ({(served μ granted).holding} + frame)
      rw [hl, Multiset.singleton_add]
      exact h.served hp
    · rw [runFrom_new_misfit hz hp hg]
      rw [hp] at hlost
      refine ⟨[size], ⟨hpolicy, hrequests⟩, hlost fun he => hg (Option.some.inj he), ?_⟩
      rw [zero_add]
      exact h.misfit hp

theorem keeps_newFor {c : Component} {size : Nat} (hs : 0 < size) (hr : f.refused (.outOfMemory c)) :
    Keeps f 0 (newFor c size : Attempt κ Buffer) (fun b => b.bytes = Bytes.zeros size)
      (fun b => {b.holding}) 0 := by
  have hnew := keeps_new (κ := κ) (f := .only .buffer) (fun hz => absurd hz hs.ne') rfl
  refine (Attempt.keeps_within (d := c) hnew).widen ⟨fun _ he => he.elim, ?_⟩
  rintro _ rfl
  exact hr

theorem keeps_ofBytes (content : Bytes) :
    Keeps .any 0 (ofBytes content : Attempt κ Buffer) (fun _ => True) (fun b => {b.holding}) 0 := by
  refine (keeps_new (f := .any) (fun _ => trivial) ⟨.buffer, rfl⟩).bind fun b hb => Keeps.pure trivial ?_
  rw [holding_setBytes]
  rw [size, hb, Bytes.length_zeros]

theorem keeps_ofHex (text : String) :
    Keeps .any 0 (ofHex text : Attempt κ Buffer) (fun _ => True) (fun b => {b.holding}) 0 := by
  unfold ofHex
  cases Hex.decode text with
  | error fault => exact Keeps.throw trivial
  | ok content => exact keeps_ofBytes content

/-- Whatever a buffer holds, zeros are given back. -/
theorem turns_release (b : Buffer) :
    Action.Turns {b.holding} (b.release : Action κ Unit) (fun _ => True) fun _ => 0 := by
  intro μ frame h
  have hz : b.wipe.holding = b.holding := holding_setBytes (Bytes.length_zeros _)
  refine ⟨⟨rfl, (List.append_nil _).symm⟩, trivial, ?_⟩
  rw [← hz, Multiset.singleton_add] at h
  rw [zero_add]
  exact h.giveBack (congrArg Bytes.zeros (Bytes.length_zeros b.size).symm)

/-- An answer is delivered in a new buffer. The computation `c` that makes it is given back, and so
is the buffer when there is no answer. -/
theorem keeps_delivery {χ : Type} {Runs : χ → Prop} {own : χ → Holdings}
    (make : χ → Bytes → Action κ (Status × Bytes × χ)) (release : χ → Action κ Unit)
    (hmake : ∀ c out, Runs c → (make c out).Turns (own c)
      (fun r => r.2.1.length = out.length ∧ Runs r.2.2 ∧ own r.2.2 = own c) fun _ => own c)
    (hrelease : ∀ c, Runs c → (release c).Turns (own c) (fun _ => True) fun _ => 0)
    {c : χ} (hc : Runs c) (status : Status) (size : Nat) :
    Keeps .any (own c) (do
        let out ← Fallible.releasing (release c) do
          Attempt.require status
          new size
        let (status, answer, c) ← Fallible.perform (make c out.bytes)
        Fallible.perform (release c)
        Fallible.releasing out.release (Attempt.require status)
        pure (out.setBytes answer))
      (fun _ => True) (fun b => {b.holding}) 0 := by
  have hroom : Keeps (κ := κ) .any (own c) (do Attempt.require status; new size)
      (fun b => b.bytes = Bytes.zeros size) (fun b => {b.holding} + own c) (own c) := by
    refine (Attempt.keeps_require fun _ _ => trivial).bind fun _ _ => Keeps.beside ?_ (own c)
    exact keeps_new (f := .any) (fun _ => trivial) ⟨.buffer, rfl⟩
  refine (Keeps.releasing hroom (hrelease c hc)).bind fun out _ => ?_
  refine Keeps.turn (hmake c out.bytes hc) {out.holding} (add_comm _ _) ?_
  rintro ⟨status, answer, c⟩ ⟨hl, hc, hown⟩
  rw [← hown]
  refine Keeps.turn (hrelease c hc) {out.holding} rfl fun _ _ => ?_
  rw [zero_add]
  refine (Keeps.releasing (Attempt.keeps_require fun _ _ => trivial) out.turns_release).bind fun _ _ => ?_
  exact Keeps.pure trivial (congrArg _ (holding_setBytes hl))

end Buffer

end CryptoSuite
