import CryptoSuite.Proofs.Hmac.Creation
import CryptoSuite.Proofs.Mac.Call

/-! Whole sessions under one key. The answers are those of an ideal computation that keeps the
absorbed message and takes its code by the standard. -/
namespace CryptoSuite.Hmac

open Sha2 (Variant)
open Mac (Call Answer Context follow absorbed)

namespace Ideal

/-- The answer of a computation under `key` that has absorbed `message`. -/
def respond (v : Variant) (key message : Bytes) : Call → Answer
  | .digest _ => ⟨.ok (), []⟩
  | .finalize out =>
    if out.length = 0 ∨ v.digestSize < out.length then
      ⟨.error (.invalidArgument .mac (.macBuffer v.digestSize out.length)), out⟩
    else ⟨.ok (), (Standard.code v key message).take out.length⟩

def step (v : Variant) (key message : Bytes) (call : Call) : Answer × Bytes :=
  (respond v key message call, follow message call (respond v key message call))

end Ideal

/-- Slices are shorter than the address space. -/
def Sliced (call : Call) : Prop := call.data.length < 2 ^ 64

abbrev ofVariant {κ : Type} (name : String) (v : Variant) : Mac.Algorithm κ (State Sha2.State) :=
  algorithm name (Sha2.algorithm v)

/-- A context under `key` whose state has absorbed the message. -/
def ContextPrimed {κ : Type} (name : String) (v : Variant) (key message : Bytes)
    (c : Context κ (State Sha2.State)) : Prop :=
  c.algorithm = ofVariant name v ∧ Primed v key message c.state

variable {κ : Type} {name : String} {v : Variant} {key message : Bytes} {μ ν : Machine κ}

theorem ContextPrimed.finalize_eq {c : Context κ (State Sha2.State)}
    (h : ContextPrimed name v key message c) {out : Bytes} (hpos : 0 < out.length)
    (ho : out.length ≤ v.digestSize) (μ : Machine κ) :
    ∃ d, (c.finalize out).runFrom μ =
        ((.ok (), (Standard.code v key message).take out.length, d), μ) ∧
      ContextPrimed name v key [] d := by
  obtain ⟨_, s⟩ := c
  obtain ⟨rfl, hp⟩ := h
  obtain ⟨t, ht, hprimed⟩ := hp.finalize_eq hpos ho μ
  exact ⟨⟨ofVariant name v, t⟩, Context.runFrom_finalize ht, rfl, hprimed⟩

theorem simulates_ideal (name : String) (v : Variant) (key : Bytes) :
    Session.Simulates Sliced (Ideal.step v key) (Context.call (κ := κ))
      (ContextPrimed name v key) := by
  rintro message c call μ hc h
  cases call with
  | digest data =>
    obtain ⟨_, s⟩ := c
    obtain ⟨rfl, hp⟩ := h
    exact ⟨⟨ofVariant name v, { s with inner := s.inner.update data }⟩, rfl, rfl, hp.update hc⟩
  | finalize out =>
    by_cases ho : out.length = 0 ∨ v.digestSize < out.length
    · obtain ⟨_, s⟩ := c
      obtain ⟨rfl, hp⟩ := h
      have hs := Context.runFrom_finalize (c := ⟨ofVariant name v, s⟩)
        (Primed.finalize_refused (Sha2.algorithm v) s ho μ)
      refine ⟨⟨ofVariant name v, s⟩, ?_, rfl, ?_⟩
      · simp only [Context.call, Action.runFrom_bind, hs, Ideal.step, Ideal.respond, ho, ↓reduceIte,
          Action.runFrom_pure]
        rfl
      · simpa only [Ideal.step, Ideal.respond, ho, ↓reduceIte, follow] using hp
    · obtain ⟨d, hd, hp⟩ := h.finalize_eq (show 0 < out.length by omega) (by omega) μ
      refine ⟨d, ?_, ?_⟩
      · simp only [Context.call, Action.runFrom_bind, hd, Ideal.step, Ideal.respond, ho, ↓reduceIte,
          Action.runFrom_pure]
      · simpa only [Ideal.step, Ideal.respond, ho, ↓reduceIte, follow] using hp

theorem of_runFrom_init {c : Context κ (State Sha2.State)} (hk : key.length < 2 ^ 64)
    (h : ((ofVariant name v).init key).runFrom μ = (.ok c, ν)) : ContextPrimed name v key [] c := by
  obtain ⟨s, hs, rfl⟩ := Mac.Algorithm.of_runFrom_init h
  exact ⟨rfl, of_runFrom_create hk hs⟩

/-- A context under `key` after some session, in which its caller saw it absorb the message since it
was created or last delivered a code. -/
def Reached (name : String) (v : Variant) (key message : Bytes) (c : Context κ (State Sha2.State)) :
    Prop :=
  ∃ (c₀ : Context κ (State Sha2.State)) (μ₀ μ₁ μ₂ μ₃ : Machine κ) (calls : List Call)
    (answers : List Answer),
    ((ofVariant name v).init key).runFrom μ₀ = (.ok c₀, μ₁) ∧ (∀ call ∈ calls, Sliced call) ∧
      (c₀.session calls).runFrom μ₂ = ((answers, c), μ₃) ∧ absorbed calls answers = message

theorem Reached.primed {c : Context κ (State Sha2.State)} (hk : key.length < 2 ^ 64)
    (h : Reached name v key message c) : ContextPrimed name v key message c := by
  obtain ⟨c₀, μ₀, μ₁, μ₂, μ₃, calls, answers, hinit, hc, hrun, rfl⟩ := h
  exact (simulates_ideal name v key).known_of_run hc (of_runFrom_init hk hinit) hrun

theorem runFrom_digest (s : State Sha2.State) (data : Bytes) (μ : Machine κ) :
    (Fallible.perform (Context.digest ⟨ofVariant name v, s⟩ data) : Attempt κ _).runFrom μ =
      (.ok (.ok (), ⟨ofVariant name v, { s with inner := s.inner.update data }⟩), μ) := rfl

/-- The code in one operation, once a state and the room for the code are there. -/
theorem runFrom_compute {s : State Sha2.State} {out : Buffer} {μ₁ μ₂ : Machine κ}
    (hk : key.length < 2 ^ 64) (hd : message.length < 2 ^ 64)
    (hs : (create (Sha2.algorithm v) key).runFrom μ = (.ok s, μ₁))
    (ho : (Buffer.new v.digestSize).runFrom μ₁ = (.ok out, μ₂)) :
    ∃ ν, ((ofVariant name v).compute key message).runFrom μ =
      (.ok (out.setBytes (Standard.code v key message)), ν) := by
  have hp : ContextPrimed name v key message ⟨ofVariant (κ := κ) name v, _⟩ :=
    ⟨rfl, (of_runFrom_create hk hs).update hd⟩
  have hl : out.bytes.length = v.digestSize := Buffer.length_of_runFrom_new ho
  obtain ⟨d, hf, -⟩ := hp.finalize_eq (by rw [hl]; exact v.digestSize_pos) (Nat.le_of_eq hl) μ₂
  rw [hl, ← Standard.length_code v key message, List.take_length] at hf
  have hroom : (ofVariant name v).buffer.runFrom μ₁ = (.ok out, μ₂) := ho
  rw [Mac.Algorithm.compute, Fallible.runFrom_bind_ok (Mac.Algorithm.runFrom_init hs),
    Fallible.runFrom_bind_ok (runFrom_digest s message μ₁)]
  dsimp only
  rw [Fallible.runFrom_bind_ok (Attempt.runFrom_releasing_require hroom), Fallible.runFrom_bind,
    Fallible.runFrom_perform, hf]
  exact ⟨_, rfl⟩

/-- The code in one operation, which fails only for want of memory. -/
theorem of_runFrom_compute {b : Buffer} (hk : key.length < 2 ^ 64) (hd : message.length < 2 ^ 64)
    (h : ((ofVariant name v).compute key message).runFrom μ = (.ok b, ν)) :
    b.bytes = Standard.code v key message := by
  have hrun := h
  obtain ⟨c, μ₁, hinit, h⟩ := Fallible.of_runFrom_bind h
  obtain ⟨s, hs, rfl⟩ := Mac.Algorithm.of_runFrom_init hinit
  rw [Fallible.runFrom_bind_ok (runFrom_digest s message μ₁)] at h
  obtain ⟨out, μ₂, hout, -⟩ := Fallible.of_runFrom_bind h
  have ho := Attempt.of_runFrom_releasing_require hout
  obtain ⟨ξ, hh⟩ : ∃ ξ, ((ofVariant name v).compute key message).runFrom μ =
      (.ok (out.setBytes (Standard.code v key message)), ξ) := runFrom_compute hk hd hs ho
  rw [hrun] at hh
  cases hh
  rfl

/-- The answers of a context do not show how its message came about. -/
theorem ContextPrimed.session_eq {c d : Context κ (State Sha2.State)}
    (hc : ContextPrimed name v key message c) (hd : ContextPrimed name v key message d)
    {calls : List Call} (hcalls : ∀ call ∈ calls, Sliced call) (μ ν : Machine κ) :
    ((c.session calls).runFrom μ).1.1 = ((d.session calls).runFrom ν).1.1 := by
  obtain ⟨_, hrc, -⟩ := (simulates_ideal name v key).run_eq calls hcalls hc μ
  obtain ⟨_, hrd, -⟩ := (simulates_ideal name v key).run_eq calls hcalls hd ν
  rw [Context.session, Context.session, hrc, hrd]

/-- After any session under a key the code delivered is that of RFC 2104 for what was absorbed, as much
of it as the output holds, and the context goes on as a new one under the key. New contexts and the
code in one operation, which is the whole of it, are there whenever memory is granted. -/
theorem code_after_session (name : String) (v : Variant) (key : Bytes) (hk : key.length < 2 ^ 64) :
    (∀ (c : Context κ (State Sha2.State)) (message out : Bytes) (μ : Machine κ),
      Reached name v key message c → 1 ≤ out.length → out.length ≤ v.digestSize →
      ∃ d, (c.finalize out).runFrom μ =
          ((.ok (), (Standard.code v key message).take out.length, d), μ) ∧
        ∀ (c₀ : Context κ (State Sha2.State)) (μ₀ μ₁ : Machine κ),
          ((ofVariant name v).init key).runFrom μ₀ = (.ok c₀, μ₁) →
          ∀ (calls : List Call) (μ₂ μ₃ : Machine κ), (∀ call ∈ calls, Sliced call) →
            ((d.session calls).runFrom μ₂).1.1 = ((c₀.session calls).runFrom μ₃).1.1) ∧
    (∀ μ : Machine κ, μ.Grants (stateSizes v key) →
      ∃ c₀ ν, ((ofVariant name v).init key).runFrom μ = (.ok c₀, ν)) ∧
    (∀ (message : Bytes) (μ : Machine κ), message.length < 2 ^ 64 →
      (μ.Grants (stateSizes v key ++ [v.digestSize]) →
        ∃ b ν, ((ofVariant name v).compute key message).runFrom μ = (.ok b, ν)) ∧
      ∀ b ν, ((ofVariant name v).compute key message).runFrom μ = (.ok b, ν) →
        b.bytes = Standard.code v key message) := by
  refine ⟨?_, ?_, ?_⟩
  · intro c message out μ h hpos ho
    obtain ⟨d, hd, hp⟩ := (h.primed hk).finalize_eq hpos ho μ
    refine ⟨d, hd, fun c₀ μ₀ μ₁ hinit calls μ₂ μ₃ hcalls => ?_⟩
    exact hp.session_eq (of_runFrom_init hk hinit) hcalls μ₂ μ₃
  · intro μ hg
    rw [← List.append_nil (stateSizes v key)] at hg
    obtain ⟨s, ν, hs, -⟩ := runFrom_create_served hk hg
    exact ⟨_, ν, Mac.Algorithm.runFrom_init hs⟩
  · intro message μ hd
    refine ⟨fun hg => ?_, fun b ν h => of_runFrom_compute hk hd h⟩
    obtain ⟨s, ξ, hs, hg⟩ := runFrom_create_served hk hg
    have ho := Buffer.runFrom_new_served v.digestSize_pos hg.head
    obtain ⟨ν, h⟩ := runFrom_compute hk hd hs ho
    exact ⟨_, ν, h⟩

/-- Under a key that has to be hashed, after a code was delivered and an output refused. -/
theorem code_after_code :
    (∃ c d : Context Unit (State Sha2.State), Reached "mac" .sha512 (Bytes.zeros 200) [2, 3] c ∧
      (c.finalize (Bytes.zeros 10)).runFrom Machine.system =
        ((.ok (), (Standard.code .sha512 (Bytes.zeros 200) [2, 3]).take 10, d), Machine.system)) ∧
    ∃ b ν, ((ofVariant "mac" .sha512).compute (Bytes.zeros 200) [2, 3]).runFrom Machine.system =
        (.ok b, ν) ∧ b.bytes = Standard.code .sha512 (Bytes.zeros 200) [2, 3] := by
  let calls : List Call := [.digest [1], .finalize (Bytes.zeros 20), .digest [2], .digest [],
    .finalize [], .digest [3]]
  have hcalls : ∀ call ∈ calls, Sliced call := by simp [calls, Sliced, Call.data]
  have hl : (Bytes.zeros 200).length < 2 ^ 64 := by simp
  obtain ⟨hsession, hinit, hcompute⟩ :=
    code_after_session (κ := Unit) "mac" .sha512 (Bytes.zeros 200) hl
  constructor
  · obtain ⟨c₀, ν, hc₀⟩ := hinit Machine.system (Machine.system_grants (by decide +kernel))
    obtain ⟨c, hrun, -⟩ := (simulates_ideal "mac" .sha512 (Bytes.zeros 200)).run_eq calls hcalls
      (of_runFrom_init hl hc₀) Machine.system
    have hr : Reached "mac" .sha512 (Bytes.zeros 200) [2, 3] c :=
      ⟨c₀, _, ν, _, _, calls, _, hc₀, hcalls, hrun, rfl⟩
    obtain ⟨d, hd, -⟩ := hsession c _ (Bytes.zeros 10) Machine.system hr (by decide) (by decide)
    exact ⟨c, d, hr, hd⟩
  · obtain ⟨hok, hbytes⟩ := hcompute [2, 3] Machine.system (by decide)
    obtain ⟨b, ν, h⟩ := hok (Machine.system_grants (by decide +kernel))
    exact ⟨b, ν, h, hbytes b ν h⟩

end CryptoSuite.Hmac
