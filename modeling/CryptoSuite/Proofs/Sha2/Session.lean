import CryptoSuite.Hash.Sha2
import CryptoSuite.Proofs.Hash.Call
import CryptoSuite.Proofs.Sha2.Representation

/-! Whole sessions on a computation. The answers are those of an ideal one that keeps the absorbed
message and digests it by the standard. -/
namespace CryptoSuite.Sha2

open Hash (Call Answer Context follow absorbed)

def State.call (s : State) : Call → Answer × State
  | .digest data => (⟨.ok (), []⟩, s.update data)
  | .finalize out =>
    let (status, out, s) := s.finalize out
    (⟨status, out⟩, s)
  | .reset => (⟨.ok (), []⟩, s.reset)

def State.session (s : State) (calls : List Call) : List Answer × State :=
  Session.trace State.call s calls

namespace Ideal

/-- The answer of a computation that has absorbed `message`, and refuses short outputs with the
given error. -/
def respond (v : Variant) (refusal : Bytes → CryptoError) (message : Bytes) : Call → Answer
  | .digest _ => ⟨.ok (), []⟩
  | .finalize out =>
    if out.length < v.digestSize then ⟨.error (refusal out), out⟩
    else ⟨.ok (), Standard.digest v message ++ out.drop v.digestSize⟩
  | .reset => ⟨.ok (), []⟩

def step (v : Variant) (refusal : Bytes → CryptoError) (message : Bytes) (call : Call) :
    Answer × Bytes :=
  (respond v refusal message call, follow message call (respond v refusal message call))

end Ideal

/-- The error of a state for an output that is too short. -/
def stateRefusal (v : Variant) (_ : Bytes) : CryptoError :=
  .invalidArgument .hash (.shortDigestOutput v.digestSize)

/-- The error of a context, which checks the output before the state does. -/
def contextRefusal (v : Variant) (out : Bytes) : CryptoError :=
  .invalidArgument .hash (.shortDigestBuffer out.length v.digestSize)

/-- Slices are shorter than the address space. -/
def Sliced (call : Call) : Prop := call.data.length < 2 ^ 64

variable {κ : Type} {v : Variant} {message : Bytes} {origin s : State} {μ ν : Machine κ}

theorem Represents.finalize_refused (h : Represents origin message s) (hv : origin.variant = v)
    {out : Bytes} (ho : out.length < v.digestSize) :
    s.finalize out = (.error (stateRefusal v out), out, s) := by
  rw [← hv, ← h.variant_eq] at ho ⊢
  exact finalize_short ho

/-- A state answers every call as the ideal computation does. -/
theorem call_ideal (hv : origin.variant = v) (message : Bytes) (s : State) (call : Call)
    (hc : Sliced call) (h : Represents origin message s) :
    (s.call call).1 = (Ideal.step v (stateRefusal v) message call).1 ∧
      Represents origin (Ideal.step v (stateRefusal v) message call).2 (s.call call).2 := by
  cases call with
  | digest data => exact ⟨rfl, h.update hc⟩
  | reset => exact ⟨rfl, h.reset⟩
  | finalize out =>
    by_cases ho : out.length < v.digestSize
    · simp only [State.call, h.finalize_refused hv ho, Ideal.step, Ideal.respond, ho, ↓reduceIte,
        follow]
      exact ⟨trivial, h⟩
    · have hs := h.finalize_standard hv (Nat.le_of_not_lt ho)
      simp only [State.call, hs, Ideal.step, Ideal.respond, ho, ↓reduceIte, follow]
      exact ⟨trivial, h.origin_empty⟩

/-- A context of the variant whose state, begun as `origin`, has absorbed the message. -/
def ContextRepresents (v : Variant) (origin : State) (message : Bytes) (c : Context κ State) : Prop :=
  c.algorithm = algorithm v ∧ Represents origin message c.state

theorem simulates_ideal (hv : origin.variant = v) :
    Session.Simulates Sliced (Ideal.step v (contextRefusal v)) (Context.call (κ := κ))
      (ContextRepresents v origin) := by
  rintro message ⟨_, s⟩ call μ hc ⟨rfl, h⟩
  cases call with
  | digest data => exact ⟨⟨algorithm v, s.update data⟩, rfl, rfl, h.update hc⟩
  | reset => exact ⟨⟨algorithm v, s.reset⟩, rfl, rfl, h.reset⟩
  | finalize out =>
    by_cases ho : out.length < v.digestSize
    · refine ⟨⟨algorithm v, s⟩, ?_, rfl, ?_⟩
      · simp [Context.call, Context.finalize, Context.digestSize, algorithm, ho, Ideal.step,
          Ideal.respond, contextRefusal]
      · simpa [Ideal.step, Ideal.respond, ho, follow] using h
    · have hs := h.finalize_standard hv (Nat.le_of_not_lt ho)
      refine ⟨⟨algorithm v, origin⟩, ?_, rfl, ?_⟩
      · simp [Context.call, Context.finalize, Context.digestSize, algorithm, hs, ho, Ideal.step,
          Ideal.respond]
      · simpa [Ideal.step, Ideal.respond, ho, follow] using h.origin_empty

/-- A state of the variant after some session since it was created as `origin`, in which its caller
saw it absorb the message. -/
def StateReached (v : Variant) (origin : State) (message : Bytes) (s : State) : Prop :=
  ∃ (μ ν : Machine Unit) (calls : List Call) (answers : List Answer),
    (State.new v).runFrom μ = (.ok origin, ν) ∧ (∀ call ∈ calls, Sliced call) ∧
      origin.session calls = (answers, s) ∧ absorbed calls answers = message

/-- The same for a context. -/
def ContextReached (v : Variant) (origin : Context κ State) (message : Bytes) (c : Context κ State) :
    Prop :=
  ∃ (μ₀ μ₁ μ₂ μ₃ : Machine κ) (calls : List Call) (answers : List Answer),
    (algorithm v).init.runFrom μ₀ = (.ok origin, μ₁) ∧ (∀ call ∈ calls, Sliced call) ∧
      (origin.session calls).runFrom μ₂ = ((answers, c), μ₃) ∧ absorbed calls answers = message

theorem StateReached.represents (h : StateReached v origin message s) :
    Represents origin message s ∧ origin.variant = v := by
  obtain ⟨μ, ν, calls, answers, hnew, hc, hrun, rfl⟩ := h
  obtain ⟨hempty, hv⟩ := of_runFrom_new hnew
  obtain ⟨ha, hr⟩ := Session.trace_related (call_ideal hv) calls hc hempty
  change Session.trace State.call origin calls = (answers, s) at hrun
  have hk := Session.trace_known follow (Ideal.respond v (stateRefusal v)) [] calls
  rw [hrun] at ha hr
  obtain rfl : answers = _ := ha
  refine ⟨?_, hv⟩
  rw [absorbed]
  exact hk ▸ hr

theorem ContextReached.represents {origin c : Context κ State}
    (h : ContextReached v origin message c) :
    ContextRepresents v origin.state message c ∧ origin.algorithm = algorithm v ∧
      origin.state.variant = v := by
  obtain ⟨μ₀, μ₁, μ₂, μ₃, calls, answers, hinit, hc, hrun, rfl⟩ := h
  obtain ⟨s, hs, rfl⟩ := Hash.Algorithm.of_runFrom_init hinit
  obtain ⟨hempty, hv⟩ := of_runFrom_new hs
  refine ⟨?_, rfl, hv⟩
  exact (simulates_ideal hv).known_of_run hc
    (show ContextRepresents v s [] ⟨algorithm v, s⟩ from ⟨rfl, hempty⟩) hrun

theorem ContextRepresents.finalize_eq {c : Context κ State} (h : ContextRepresents v origin message c)
    (hv : origin.variant = v) {out : Bytes} (ho : v.digestSize ≤ out.length) (μ : Machine κ) :
    (c.finalize out).runFrom μ =
      ((.ok (), Standard.digest v message ++ out.drop v.digestSize, { c with state := origin }), μ) := by
  obtain ⟨_, s⟩ := c
  obtain ⟨rfl, hr⟩ := h
  have hs := hr.finalize_standard hv ho
  simp [Context.finalize, Context.digestSize, algorithm, Nat.not_lt.mpr ho, hs]

theorem runFrom_digest (s : State) (data : Bytes) (μ : Machine κ) :
    (Fallible.perform (Context.digest ⟨algorithm v, s⟩ data) : Attempt κ _).runFrom μ =
      (.ok (.ok (), ⟨algorithm v, s.update data⟩), μ) := rfl

/-- Hashing in one operation, once a state and the room for the digest are there. -/
theorem runFrom_hash {data : Bytes} {out : Buffer} {μ₁ μ₂ : Machine κ} (hd : data.length < 2 ^ 64)
    (hs : (State.new v).runFrom μ = (.ok s, μ₁))
    (ho : (Buffer.new v.digestSize).runFrom μ₁ = (.ok out, μ₂)) :
    ∃ ν, ((algorithm v).hash data).runFrom μ = (.ok (out.setBytes (Standard.digest v data)), ν) := by
  obtain ⟨hempty, hv⟩ := of_runFrom_new hs
  have hr : ContextRepresents (κ := κ) v s data ⟨algorithm v, s.update data⟩ :=
    ⟨rfl, hempty.update hd⟩
  have hl : out.bytes.length = v.digestSize := Buffer.length_of_runFrom_new ho
  have hf := hr.finalize_eq hv (Nat.le_of_eq hl.symm) μ₂
  rw [List.drop_of_length_le (Nat.le_of_eq hl), List.append_nil] at hf
  have hroom : (algorithm v).buffer.runFrom μ₁ = (.ok out, μ₂) := ho
  rw [Hash.Algorithm.hash, Fallible.runFrom_bind_ok (Hash.Algorithm.runFrom_init hs),
    Fallible.runFrom_bind_ok (runFrom_digest s data μ₁)]
  dsimp only
  rw [Fallible.runFrom_bind_ok (Attempt.runFrom_releasing_require hroom), Fallible.runFrom_bind,
    Fallible.runFrom_perform, hf]
  exact ⟨_, rfl⟩

/-- The digest of a message in one operation, which fails only for want of memory. -/
theorem of_runFrom_hash {b : Buffer} {data : Bytes} (hd : data.length < 2 ^ 64)
    (h : ((algorithm v).hash data).runFrom μ = (.ok b, ν)) : b.bytes = Standard.digest v data := by
  have hrun := h
  obtain ⟨c, μ₁, hinit, h⟩ := Fallible.of_runFrom_bind h
  obtain ⟨s, hs, rfl⟩ := Hash.Algorithm.of_runFrom_init hinit
  rw [Fallible.runFrom_bind_ok (runFrom_digest s data μ₁)] at h
  obtain ⟨out, μ₂, hout, -⟩ := Fallible.of_runFrom_bind h
  have ho := Attempt.of_runFrom_releasing_require hout
  obtain ⟨ξ, hh⟩ := runFrom_hash hd hs ho
  rw [hrun] at hh
  cases hh
  rfl

/-- After any session the digest delivered is the standard's of what was absorbed, however it was
cut into pieces, the rest of the output is as it was, and the computation is as it was created.
Hashing in one operation delivers the same digest, whenever memory for it is granted. -/
theorem digest_after_session (v : Variant) (message : Bytes) :
    (∀ (s₀ s : State) (out : Bytes), StateReached v s₀ message s → v.digestSize ≤ out.length →
      s.finalize out = (.ok (), Standard.digest v message ++ out.drop v.digestSize, s₀)) ∧
    (∀ (c₀ c : Context κ State) (out : Bytes) (μ : Machine κ), ContextReached v c₀ message c →
      v.digestSize ≤ out.length → (c.finalize out).runFrom μ =
        ((.ok (), Standard.digest v message ++ out.drop v.digestSize, c₀), μ)) ∧
    (message.length < 2 ^ 64 → ∀ μ : Machine κ,
      (μ.Grants [192, v.digestSize] →
        ∃ b ν, ((algorithm v).hash message).runFrom μ = (.ok b, ν)) ∧
      ∀ b ν, ((algorithm v).hash message).runFrom μ = (.ok b, ν) →
        b.bytes = Standard.digest v message) := by
  refine ⟨?_, ?_, ?_⟩
  · intro s₀ s out h ho
    exact h.represents.1.finalize_standard h.represents.2 ho
  · rintro c₀ c out μ h ho
    obtain ⟨hc, ha, hv⟩ := h.represents
    rw [hc.finalize_eq hv ho, hc.1, ← ha]
  · intro hd μ
    refine ⟨fun hg => ?_, fun b ν h => of_runFrom_hash hd h⟩
    obtain ⟨s, hs⟩ := runFrom_new_served v hg.head
    have ho := Buffer.runFrom_new_served v.digestSize_pos hg.tail.head
    obtain ⟨ν, h⟩ := runFrom_hash hd hs ho
    exact ⟨_, ν, h⟩

/-- After a reset, an empty piece and a refused output, the digest is that of the two other pieces. -/
theorem digest_after_reset :
    (∃ s₀ s : State, StateReached .sha384 s₀ [1, 2, 3] s ∧ s.finalize (Bytes.zeros 49) =
      (.ok (), Standard.digest .sha384 [1, 2, 3] ++ [0], s₀)) ∧
    (∃ c₀ c : Context Unit State, ContextReached .sha384 c₀ [1, 2, 3] c ∧
      (c.finalize (Bytes.zeros 49)).runFrom Machine.system =
        ((.ok (), Standard.digest .sha384 [1, 2, 3] ++ [0], c₀), Machine.system)) ∧
    ∃ b ν, ((algorithm .sha384).hash [1, 2, 3]).runFrom Machine.system = (.ok b, ν) ∧
      b.bytes = Standard.digest .sha384 [1, 2, 3] := by
  let calls : List Call := [.digest [9], .reset, .digest [1], .digest [], .finalize [0], .digest [2, 3]]
  have hc : ∀ call ∈ calls, Sliced call := by simp [calls, Sliced, Hash.Call.data]
  have hg : Machine.system.Grants [192, 48] := Machine.system_grants (by decide)
  obtain ⟨hstate, hcontext, hhash⟩ := digest_after_session (κ := Unit) .sha384 [1, 2, 3]
  obtain ⟨s₀, hs⟩ := runFrom_new_served (κ := Unit) .sha384 hg.head
  obtain ⟨hempty, hv⟩ := of_runFrom_new hs
  refine ⟨?_, ?_, ?_⟩
  · have ha : (s₀.session calls).1 = _ := (Session.trace_related (call_ideal hv) calls hc hempty).1
    have hr : StateReached .sha384 s₀ [1, 2, 3] (s₀.session calls).2 := by
      refine ⟨_, _, calls, (s₀.session calls).1, hs, hc, rfl, ?_⟩
      rw [ha]
      rfl
    exact ⟨s₀, _, hr, hstate _ _ _ hr (by decide)⟩
  · obtain ⟨c, hrun, -⟩ := (simulates_ideal hv).run_eq calls hc
      (show ContextRepresents .sha384 s₀ [] ⟨algorithm .sha384, s₀⟩ from ⟨rfl, hempty⟩) Machine.system
    have hr : ContextReached .sha384 ⟨algorithm .sha384, s₀⟩ [1, 2, 3] c :=
      ⟨_, _, _, _, calls, _, Hash.Algorithm.runFrom_init hs, hc, hrun, rfl⟩
    exact ⟨_, c, hr, hcontext _ _ _ _ hr (by decide)⟩
  · obtain ⟨hok, hbytes⟩ := hhash (by decide) Machine.system
    obtain ⟨b, ν, h⟩ := hok hg
    exact ⟨b, ν, h, hbytes b ν h⟩

end CryptoSuite.Sha2
