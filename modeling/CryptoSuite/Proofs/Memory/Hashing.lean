import CryptoSuite.Hash.Sha2
import CryptoSuite.Proofs.Hash.Call
import CryptoSuite.Proofs.Memory.Ownership
import CryptoSuite.Proofs.Sha2.Representation

/-! The accounts of hash computations. An algorithm is tidy when its states say what they own, keep
it through every operation and give back all of it. -/
namespace CryptoSuite

open Fallible
open CryptoSuite.Action (Turns)

namespace Hash.Algorithm

variable {κ σ : Type}

/-- States that satisfy `Sound` own `own`. They are made for want of nothing but memory, absorb
whatever they are given, and deliver a digest to every output that has room for it. -/
structure Tidy (a : Algorithm κ σ) (Sound : σ → Prop) (own : σ → Holdings) : Prop where
  create : Keeps (.only .hash) 0 a.create Sound own 0
  update : ∀ s data, Sound s → Turns (own s) (a.update s data)
    (fun r => r.1 = .ok () ∧ Sound r.2 ∧ own r.2 = own s) fun _ => own s
  finalize : ∀ s out, Sound s → a.digestSize ≤ out.length → Turns (own s) (a.finalize s out)
    (fun r => r.1 = .ok () ∧ r.2.1.length = out.length ∧ Sound r.2.2 ∧ own r.2.2 = own s)
    fun _ => own s
  reset : ∀ s, Sound s → Sound (a.reset s) ∧ own (a.reset s) = own s
  release : ∀ s, Sound s → Turns (own s) (a.release s) (fun _ => True) fun _ => 0

variable {a : Algorithm κ σ} {Sound : σ → Prop} {own : σ → Holdings}

/-- A computation of the algorithm in a sound state. -/
def Runs (a : Algorithm κ σ) (Sound : σ → Prop) (c : Context κ σ) : Prop :=
  c.algorithm = a ∧ Sound c.state

theorem Tidy.keeps_init (h : a.Tidy Sound own) :
    Keeps (.only .hash) 0 a.init (a.Runs Sound) (fun c => own c.state) 0 :=
  h.create.bind fun _ hs => Keeps.pure ⟨rfl, hs⟩ rfl

variable {c : Context κ σ}

theorem Tidy.turns_digest (h : a.Tidy Sound own) (hc : a.Runs Sound c) (data : Bytes) :
    Turns (own c.state) (c.digest data)
      (fun r => a.Runs Sound r.2 ∧ own r.2.state = own c.state) fun _ => own c.state := by
  obtain ⟨_, s⟩ := c
  obtain ⟨rfl, hs⟩ := hc
  apply (h.update s data hs).bind
  rintro ⟨status, t⟩ ⟨-, ht, hown⟩
  exact Turns.pure ⟨⟨rfl, ht⟩, hown⟩ rfl

theorem Tidy.turns_finalize (h : a.Tidy Sound own) (hc : a.Runs Sound c) (out : Bytes) :
    Turns (own c.state) (c.finalize out)
      (fun r => r.2.1.length = out.length ∧ a.Runs Sound r.2.2 ∧ own r.2.2.state = own c.state)
      fun _ => own c.state := by
  obtain ⟨_, s⟩ := c
  obtain ⟨rfl, hs⟩ := hc
  unfold Context.finalize
  split_ifs with hl
  · exact Turns.pure ⟨rfl, ⟨rfl, hs⟩, rfl⟩ rfl
  · apply (h.finalize s out hs (Nat.le_of_not_lt hl)).bind
    rintro ⟨status, digest, t⟩ ⟨-, hd, ht, hown⟩
    exact Turns.pure ⟨hd, ⟨rfl, ht⟩, hown⟩ rfl

theorem Tidy.turns_release (h : a.Tidy Sound own) (hc : a.Runs Sound c) :
    Turns (own c.state) c.release (fun _ => True) fun _ => 0 := by
  obtain ⟨_, s⟩ := c
  obtain ⟨rfl, hs⟩ := hc
  exact h.release s hs

theorem Tidy.turns_call (h : a.Tidy Sound own) (hc : a.Runs Sound c) (call : Call) :
    Turns (own c.state) (c.call call) (fun r => a.Runs Sound r.2 ∧ own r.2.state = own c.state)
      fun _ => own c.state := by
  cases call with
  | digest data =>
    apply (h.turns_digest hc data).bind
    intro r hr
    exact Turns.pure hr rfl
  | finalize out =>
    apply (h.turns_finalize hc out).bind
    intro r hr
    exact Turns.pure hr.2 rfl
  | reset =>
    obtain ⟨hs, hown⟩ := h.reset c.state hc.2
    rw [← hc.1] at hs hown
    exact Turns.pure ⟨⟨hc.1, hs⟩, hown⟩ rfl

/-- The computation is given back whether or not there is room for the digest. -/
theorem Tidy.keeps_hash (h : a.Tidy Sound own) (data : Bytes) :
    Keeps .any 0 (a.hash data) (fun _ => True) (fun b => {b.holding}) 0 := by
  apply (h.keeps_init.widen (Failures.only_among_any .hash)).bind
  intro c hc
  apply (Keeps.perform (h.turns_digest hc data)).bind
  rintro ⟨status, d⟩ ⟨hd, hown⟩
  rw [← hown]
  exact Buffer.keeps_delivery Context.finalize Context.release
    (fun _ out hc => h.turns_finalize hc out) (fun _ hc => h.turns_release hc) hd status a.digestSize

end Hash.Algorithm

namespace Sha2

variable {κ : Type} {v : Variant} {s : State} {m : Bytes}

/-- The chaining value and the block fill the storage. -/
def State.Sound (v : Variant) (s : State) : Prop := s.variant = v ∧ ∃ message, Holds message s

def State.own (s : State) : Holdings := {s.storage.holding}

/-- Which region a state owns does not depend on its content. -/
theorem Holds.own_eq {t : State} {n : Bytes} (hs : Holds m s) (ht : Holds n t)
    (h : t.reset = s.reset) : t.own = s.own := by
  have hid : t.storage.region.id = s.storage.region.id := congrArg (·.storage.region.id) h
  have hl : t.storage.region.bytes.length = s.storage.region.bytes.length := ht.size.trans hs.size.symm
  simp only [State.own, Buffer.holding, Region.extent, hid, hl]

theorem State.Sound.of_reset_eq {t : State} (h : s.Sound v) {n : Bytes} (ht : Holds n t)
    (hr : t.reset = s.reset) : t.Sound v ∧ t.own = s.own := by
  obtain ⟨hv, _, hs⟩ := h
  have hvariant : t.variant = s.variant := congrArg (·.variant) hr
  exact ⟨⟨hvariant.trans hv, n, ht⟩, hs.own_eq ht hr⟩

theorem State.Sound.update (h : s.Sound v) (data : Bytes) :
    (s.update data).Sound v ∧ (s.update data).own = s.own := by
  obtain ⟨message, hs⟩ := h.2
  exact h.of_reset_eq (hs.update data) (s.reset_update data)

theorem State.Sound.reset (h : s.Sound v) : s.reset.Sound v ∧ s.reset.own = s.own :=
  h.of_reset_eq s.holds_reset rfl

theorem State.Sound.finalize (h : s.Sound v) {out : Bytes} (ho : v.digestSize ≤ out.length) :
    ∃ digest t, s.finalize out = (.ok (), digest, t) ∧ digest.length = out.length ∧ t.Sound v ∧
      t.own = s.own := by
  have hv := h.1
  have hr := h.reset
  rw [← s.reset_finish] at hr
  refine ⟨out.overwrite 0 (s.finish.chain.take v.digestSize), s.finish.reset, ?_, ?_, hr⟩
  · rw [State.finalize, hv, if_neg (Nat.not_lt.mpr ho)]
  · rw [Bytes.length_overwrite]
    rw [List.length_take]
    omega

theorem tidy_algorithm (v : Variant) :
    (algorithm (κ := κ) v).Tidy (State.Sound v) State.own where
  create := by
    apply (Buffer.keeps_newFor (by decide) rfl).bind
    intro b hb
    apply Keeps.pure
    · exact ⟨rfl, [], State.holds_reset _⟩
    · refine congrArg _ (Buffer.holding_setBytes ?_)
      rw [Buffer.size, hb, List.length_append, Chain.length_toBytes, Bytes.length_zeros,
        Bytes.length_zeros]
  update s data h := Turns.pure ⟨rfl, h.update data⟩ rfl
  finalize s out h ho := by
    obtain ⟨digest, t, ht, hl, hs, hown⟩ := h.finalize ho
    change Turns s.own (pure (s.finalize out)) _ _
    rw [ht]
    exact Turns.pure ⟨rfl, hl, hs, hown⟩ rfl
  reset s h := h.reset
  release s _ := s.storage.turns_release

end Sha2

end CryptoSuite
