import CryptoSuite.Proofs.Registry.Order

/-! What a resolver meets in a record that is found for its interface. The interface of a record is that of
what it brings, so that a resolver fails only where there is no record. -/
namespace CryptoSuite.Registry

variable {α β : Type} {t : Registry} {i : Interface} {id : UInt32} {r : Registration}

theorem interface_of_find? (h : t.find? i id = some r) : r.interface = i := by
  have hserves := List.find?_some h
  rw [Registration.serves_eq, decide_eq_true_eq] at hserves
  exact congrArg Prod.fst hserves

theorem run_require_none (h : t.find? i id = none) :
    (require i id).run t = (.error (.notRegistered i id), t.report (.lookedUp i id false)) := by
  have hlookup : t.lookup i id = (none, t.report (.lookedUp i id false)) := by
    rw [lookup, h]
    rfl
  have hrun : (modifyGet fun t => t.lookup i id : Resolution (Option Registration)).run t =
      (.ok none, t.report (.lookedUp i id false)) := by
    change (Except.ok (t.lookup i id).1, (t.lookup i id).2) = _
    rw [hlookup]
  exact run_bind_ok hrun

/-- Where no record serves the identifier, the resolver fails; else it goes on with what the record brings,
which is of the interface that was asked for. -/
def Resolves (resolver : UInt32 → Resolution β) (i : Interface) (bring : α → Factory)
    (rest : α → Resolution β) : Prop :=
  ∀ (t : Registry) (id : UInt32),
    (t.find? i id = none ∧
      (resolver id).run t = (.error (.notRegistered i id), t.report (.lookedUp i id false))) ∨
    ∃ r a, t.find? i id = some r ∧ r.factory = bring a ∧
      (resolver id).run t = (rest a).run (t.report (.lookedUp i id true))

/-- What is picked from every record of the interface is never missed. -/
theorem resolves {pick : Factory → Option α} {bring : α → Factory}
    (h : ∀ f : Factory, f.interface = i → ∃ a, f = bring a ∧ pick f = some a) :
    Resolves (resolve i pick) i bring pure := by
  intro t id
  cases hfind : t.find? i id with
  | none => exact .inl ⟨rfl, run_bind_error (run_require_none hfind)⟩
  | some r =>
    obtain ⟨a, hbring, hpick⟩ := h r.factory (interface_of_find? hfind)
    refine .inr ⟨r, a, rfl, hbring, ?_⟩
    have hrun : (resolve i pick id).run t = _ := run_bind_ok (run_require_some hfind)
    rw [hrun, hpick]

theorem Resolves.bind {resolver : UInt32 → Resolution α} {bring : α → Factory}
    (h : Resolves resolver i bring pure) (rest : α → Resolution β) :
    Resolves (fun id => resolver id >>= rest) i bring rest := by
  intro t id
  obtain ⟨hfind, hrun⟩ | ⟨r, a, hfind, hbring, hrun⟩ := h t id
  · exact .inl ⟨hfind, run_bind_error hrun⟩
  · exact .inr ⟨r, a, hfind, hbring, run_bind_ok hrun⟩

/-- Every interface has its resolver; the derivation is found before its keyed algorithm is looked for. -/
structure Resolvers : Prop where
  hash : Resolves resolveHash .hash .hash pure
  mac : Resolves resolveMac .mac .mac pure
  blockCipher : Resolves resolveBlockCipher .blockCipher .blockCipher pure
  streamCipher : Resolves resolveStreamCipher .streamCipher .streamCipher pure
  signature : Resolves resolveSignature .digitalSignature .digitalSignature pure
  keyAgreement : Resolves resolveKeyAgreement .keyAgreement .keyAgreement pure
  random : Resolves resolveRandom .prng .prng pure
  keyDerivation : ∀ macId, Resolves (resolveKeyDerivation · macId) .keyDerivation .keyDerivation fun p => do
    pure (p, ← resolveMac macId)

theorem resolvers : Resolvers := by
  refine ⟨resolves ?_, resolves ?_, resolves ?_, resolves ?_, resolves ?_, resolves ?_, resolves ?_,
    fun macId => Resolves.bind (resolves ?_) _⟩
  all_goals
    intro f hf
    have hbrings := f.brings_interface
    rw [hf] at hbrings
    obtain ⟨p, rfl⟩ := hbrings
    exact ⟨p, rfl, rfl⟩

end CryptoSuite.Registry
