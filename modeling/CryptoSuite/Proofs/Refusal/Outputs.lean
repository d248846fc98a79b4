import CryptoSuite.Proofs.KeyAgreement.Secrets
import CryptoSuite.Proofs.Refusal.Contexts
import CryptoSuite.Signature.Ed25519

/-! Failures that show nowhere: neither in a session on a context nor in the outputs of operations that
keep no state between them, also when memory is refused. -/
namespace CryptoSuite

variable {κ : Type}

namespace Ed25519

theorem signWith_error {scheme : Scheme} {signature privateKey message : Bytes} {e : CryptoError}
    (h : (signWith scheme signature privateKey message).1 = .error e) :
    (signWith scheme signature privateKey message).2 = signature := by
  unfold signWith at h ⊢
  dsimp only at h ⊢
  split at h
  · rfl
  · cases h

theorem keypairFromSeed_error {scheme : Scheme} {seed privateKey publicKey : Bytes} {e : CryptoError}
    (h : (keypairFromSeed scheme seed privateKey publicKey).1 = .error e) :
    (keypairFromSeed scheme seed privateKey publicKey).2 = (privateKey, publicKey) := by
  unfold keypairFromSeed at h ⊢
  dsimp only at h ⊢
  split at h
  · rfl
  · cases h

end Ed25519

/-- What is returned when the first step fails or what is made of its answer does. -/
theorem Attempt.Answers.error_eq {α β : Type} {y : Action κ (Status × β)} {x : Attempt κ α}
    {default : β} {next : α → Action κ (Status × β)} (h : Answers y x default next)
    (hnext : ∀ a μ ν e, x.runFrom μ = (.ok a, ν) → ((next a).runFrom ν).1.1 = .error e →
      ((next a).runFrom ν).1.2 = default) {μ : Machine κ} {e : CryptoError}
    (he : (y.runFrom μ).1.1 = .error e) : (y.runFrom μ).1.2 = default := by
  rw [h μ] at he ⊢
  rcases hx : x.runFrom μ with ⟨e' | a, ν⟩
  · rfl
  · rw [hx] at he
    exact hnext a μ ν e hx he

namespace Curve25519

variable {multiply : X25519.Multiplication} {v : Sha2.Variant} {μ ν : Machine κ}

theorem longTermSecret_error {privateKey publicKey out : Bytes} {e : CryptoError}
    (h : ((longTermSecret multiply v privateKey publicKey out : Action κ _).runFrom μ).1.1 = .error e) :
    ((longTermSecret multiply v privateKey publicKey out).runFrom μ).1.2 = out := by
  refine (answers_longTermSecret privateKey publicKey out).error_eq ?_ h
  intro s _ _ e _ he
  exact (s.untouched_finalize out e he).1

/-- The computation that has absorbed both nonces has room for the code. -/
theorem fits_of_runFrom_absorbNonces {key nonceA nonceB : Bytes}
    {c : Mac.Context κ (Hmac.State Sha2.State)}
    (h : (absorbNonces v key nonceA nonceB).runFrom μ = (.ok c, ν)) :
    c.algorithm = Hmac.ofVariant (agreementName v) v ∧ c.state.Fits v := by
  obtain ⟨c₀, ξ, hinit, -⟩ := Fallible.of_runFrom_bind h
  obtain ⟨s, hs, rfl⟩ := Mac.Algorithm.of_runFrom_init (Fallible.of_runFrom_adapt hinit)
  have hfits := Hmac.fits_of_runFrom_create hs
  rw [runFrom_absorbNonces hs] at h
  cases h
  refine ⟨rfl, ?_, hfits.outer, hfits.work_size⟩
  exact ((hfits.inner.update nonceA).1.update nonceB).1

theorem shortTermSecret_error {privateKey publicKey nonceA nonceB out : Bytes} {e : CryptoError}
    (h : ((shortTermSecret multiply v privateKey publicKey nonceA nonceB out :
      Action κ _).runFrom μ).1.1 = .error e) :
    ((shortTermSecret multiply v privateKey publicKey nonceA nonceB out).runFrom μ).1.2 = out := by
  refine (answers_shortTermSecret privateKey publicKey nonceA nonceB out).error_eq ?_ h
  rintro ⟨longTerm, c⟩ μ ν e hrun he
  obtain ⟨_, ξ₁, -, hrun⟩ := Fallible.of_runFrom_bind hrun
  obtain ⟨b, ξ₂, -, hrun⟩ := Fallible.of_runFrom_bind hrun
  obtain ⟨key, ξ₃, -, hrun⟩ := Fallible.of_runFrom_bind hrun
  obtain ⟨d, hd, hc⟩ := Fallible.of_runFrom_bind_pure hrun
  cases hc
  obtain ⟨_, s⟩ := c
  obtain ⟨rfl, hfits⟩ := fits_of_runFrom_absorbNonces (Fallible.of_runFrom_releasing hd)
  obtain ⟨status, code, t, ht, -, hu⟩ := hfits.runFrom_finalize out ν
  have hf := Mac.Context.runFrom_finalize (c := ⟨Hmac.ofVariant (agreementName v) v, s⟩) ht
  simp only [writeCode, Action.runFrom_bind, hf, Action.runFrom_pure] at he ⊢
  exact (hu e he).1

end Curve25519

/-- In sessions of any length on new contexts of the four kinds, under any key, the calls that fail have
no effect: not on their outputs, and not on what any other call answers. The operations that sign,
expand a seed and agree on a secret leave their outputs alone when they fail, on any allocator. -/
theorem refusals_leave_no_trace :
    (∀ (v : Sha2.Variant) (c : Hash.Context κ Sha2.State) (μ ν : Machine κ),
      (Sha2.algorithm v).init.runFrom μ = (.ok c, ν) → Hash.view.Traceless Hash.Context.call c) ∧
    (∀ (name : String) (v : Sha2.Variant) (key : Bytes) (c : Mac.Context κ (Hmac.State Sha2.State))
      (μ ν : Machine κ), ((Hmac.algorithm name (Sha2.algorithm v)).init key).runFrom μ = (.ok c, ν) →
      Mac.view.Traceless Mac.Context.call c) ∧
    (∀ (m : RoundMultiplier) (key : Bytes) (d : BlockCipher.Direction)
      (c : BlockCipher.Context κ Cbc.State) (μ ν : Machine κ),
      ((Cbc.algorithm m).init key d).runFrom μ = (.ok c, ν) →
      BlockCipher.view.Traceless BlockCipher.Context.call c) ∧
    (∀ (m : RoundMultiplier) (key : Bytes) (c : StreamCipher.Context κ Ctr.State) (μ ν : Machine κ),
      ((Ctr.algorithm m).init key).runFrom μ = (.ok c, ν) →
      StreamCipher.view.Traceless StreamCipher.Context.call c) ∧
    (∀ (scheme : Ed25519.Scheme) (signature privateKey message : Bytes) (e : CryptoError),
      (Ed25519.signWith scheme signature privateKey message).1 = .error e →
      (Ed25519.signWith scheme signature privateKey message).2 = signature) ∧
    (∀ (scheme : Ed25519.Scheme) (seed privateKey publicKey : Bytes) (e : CryptoError),
      (Ed25519.keypairFromSeed scheme seed privateKey publicKey).1 = .error e →
      (Ed25519.keypairFromSeed scheme seed privateKey publicKey).2 = (privateKey, publicKey)) ∧
    (∀ (multiply : X25519.Multiplication) (v : Sha2.Variant) (privateKey publicKey out : Bytes)
      (μ : Machine κ) (e : CryptoError),
      let r := ((Curve25519.agreement multiply v).longTermSecret privateKey publicKey out).runFrom μ
      r.1.1 = .error e → r.1.2 = out) ∧
    (∀ (multiply : X25519.Multiplication) (v : Sha2.Variant)
      (privateKey publicKey nonceA nonceB out : Bytes) (μ : Machine κ) (e : CryptoError),
      let r := ((Curve25519.agreement multiply v).shortTermSecret privateKey publicKey nonceA nonceB
        out).runFrom μ
      r.1.1 = .error e → r.1.2 = out) := by
  refine ⟨?_, ?_, ?_, ?_, ?_, ?_, ?_, ?_⟩
  · intro v c μ ν h
    obtain ⟨s, -, rfl⟩ := Hash.Algorithm.of_runFrom_init h
    exact (Sha2.refuses v).traceless rfl
  · intro name v key c μ ν h
    obtain ⟨s, hs, rfl⟩ := Mac.Algorithm.of_runFrom_init h
    exact (Hmac.refuses name v).traceless ⟨rfl, Hmac.fits_of_runFrom_create hs⟩
  · intro m key d c μ ν h
    obtain ⟨s, -, rfl⟩ := BlockCipher.Algorithm.of_runFrom_init h
    exact (Cbc.refuses m).traceless rfl
  · intro m key c μ ν h
    exact (Ctr.refuses m key).traceless ⟨none, Ctr.of_runFrom_init h⟩
  · intro scheme signature privateKey message e h
    exact Ed25519.signWith_error h
  · intro scheme seed privateKey publicKey e h
    exact Ed25519.keypairFromSeed_error h
  · intro multiply v privateKey publicKey out μ e r h
    exact Curve25519.longTermSecret_error h
  · intro multiply v privateKey publicKey nonceA nonceB out μ e r h
    exact Curve25519.shortTermSecret_error h

/-- A stream is read too early, moved, overrun, moved by a short vector and begun anew. -/
def hastyCalls : List StreamCipher.Call :=
  [.encrypt [1] ⟨[0], 0⟩, .continueEncryption (Bytes.zeros 8) 5, .encrypt [1, 2] ⟨[0], 0⟩,
    .continueDecryption [] 0, .startEncryption (Bytes.zeros 8) ⟨Bytes.zeros 9, 3⟩]

/-- A machine whose allocator serves nothing. -/
def Machine.refusing : Machine Unit := { Machine.system with heap := Heap.start fun _ _ => none }

/-- Contexts of each kind, the hasty calls, of which only the moves count, and failures of the
operations without a state. -/
theorem refusals_leave_no_trace_hasty :
    (∃ (c : Hash.Context Unit Sha2.State) (ν : Machine Unit),
      (Sha2.algorithm .sha384).init.runFrom Machine.system = (.ok c, ν) ∧
        Hash.view.Traceless Hash.Context.call c) ∧
    (∃ (c : Mac.Context Unit (Hmac.State Sha2.State)) (ν : Machine Unit),
      ((Hmac.algorithm "mac" (Sha2.algorithm .sha512)).init (Bytes.zeros 200)).runFrom Machine.system =
        (.ok c, ν) ∧ Mac.view.Traceless Mac.Context.call c) ∧
    (∃ (c : BlockCipher.Context Unit Cbc.State) (ν : Machine Unit),
      ((Cbc.algorithm .triple).init (Bytes.zeros 32) .encryption).runFrom Machine.system = (.ok c, ν) ∧
        BlockCipher.view.Traceless BlockCipher.Context.call c) ∧
    (∃ (c d : StreamCipher.Context Unit Ctr.State) (ν : Machine Unit),
      ((Ctr.algorithm .double).init (Bytes.zeros 32)).runFrom Machine.system = (.ok c, ν) ∧
      (c.session hastyCalls).runFrom ν =
        (([⟨.error (.invalidArgument .stream .notStarted), ⟨[0], 0⟩⟩, ⟨.ok (), ⟨[], 0⟩⟩,
          ⟨.error (.invalidArgument .stream (.outputOverflow 1 2 0)), ⟨[0], 0⟩⟩,
          ⟨.error (.invalidArgument .stream (.length .iv 8 0)), ⟨[], 0⟩⟩,
          ⟨.ok (), ⟨Bytes.zeros 9, 8⟩⟩], d), ν) ∧
      (c.session [.continueEncryption (Bytes.zeros 8) 5,
        .startEncryption (Bytes.zeros 8) ⟨Bytes.zeros 9, 3⟩]).runFrom ν =
        (([⟨.ok (), ⟨[], 0⟩⟩, ⟨.ok (), ⟨Bytes.zeros 9, 8⟩⟩], d), ν)) ∧
    Ed25519.signWith Ed25519.standard [7] [] [] =
      (.error (.invalidArgument .signature (.length .signature 64 1)), [7]) ∧
    Ed25519.keypairFromSeed Ed25519.standard [] [7] [8] =
      (.error (.invalidArgument .signature (.length .seed 32 0)), [7], [8]) ∧
    (((Curve25519.agreement X25519.multiply .sha512).longTermSecret [] [] [7]).runFrom
      Machine.refusing).1 =
        (.error (.invalidArgument .keyAgreement (.length .sharedSecret 64 1)), [7]) ∧
    (((Curve25519.agreement X25519.multiply .sha512).shortTermSecret [] [] (Bytes.zeros 64)
      (Bytes.zeros 64) (Bytes.zeros 64)).runFrom Machine.refusing).1 =
        (.error (.outOfMemory .keyAgreement), Bytes.zeros 64) := by
  obtain ⟨hhash, hmac, hblock, hstream, hsign, hkeypair, hlong, hshort⟩ :=
    refusals_leave_no_trace (κ := Unit)
  have hl : (Bytes.zeros 32).length = 32 := rfl
  refine ⟨?_, ?_, ?_, ?_, ?_, ?_, ?_, ?_⟩
  · have hg : Machine.system.Grants [192] := Machine.system_grants (by decide +kernel)
    obtain ⟨s, hs⟩ := Sha2.runFrom_new_served .sha384 hg.head
    have hc := Hash.Algorithm.runFrom_init (a := Sha2.algorithm .sha384) hs
    exact ⟨_, _, hc, hhash _ _ _ _ hc⟩
  · have hg : Machine.system.Grants (Hmac.stateSizes .sha512 (Bytes.zeros 200) ++ []) :=
      Machine.system_grants (by decide +kernel)
    obtain ⟨s, ν, hs, -⟩ := Hmac.runFrom_create_served (by decide +kernel) hg
    have hc := Mac.Algorithm.runFrom_init
      (a := Hmac.algorithm "mac" (Sha2.algorithm .sha512)) hs
    exact ⟨_, _, hc, hmac _ _ _ _ _ _ hc⟩
  · have hr : RoundMultiplier.triple.rounds? 32 = some 42 := rfl
    obtain ⟨c, ν, hc⟩ := Cbc.runFrom_init_served (κ := Unit) hl hr
      (Machine.system_grants (by decide +kernel))
    exact ⟨c, ν, hc, hblock _ _ _ _ _ _ hc⟩
  · have hr : RoundMultiplier.double.rounds? 32 = some 28 := rfl
    obtain ⟨c, ν, hc⟩ := Ctr.runFrom_init_served (κ := Unit) hl hr
      (Machine.system_grants (by decide +kernel))
    obtain ⟨d, hd, -⟩ := (Ctr.simulates_ideal .double (Bytes.zeros 32)).run_eq hastyCalls
      (fun _ _ => trivial) (Ctr.of_runFrom_init hc) ν
    obtain ⟨-, -, hrun⟩ := hstream .double (Bytes.zeros 32) c Machine.system ν hc hastyCalls ν
    rw [hd] at hrun
    exact ⟨c, d, ν, hc, hd, hrun⟩
  · exact Prod.ext rfl (hsign _ _ _ _ _ rfl)
  · exact Prod.ext rfl (hkeypair _ _ _ _ _ rfl)
  · exact Prod.ext rfl (hlong _ _ _ _ _ _ _ rfl)
  · exact Prod.ext rfl (hshort _ _ _ _ _ _ _ _ _ rfl)

end CryptoSuite
