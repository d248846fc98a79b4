import CryptoSuite.Proofs.Registry.Order
import CryptoSuite.Proofs.Suite.Building

/-! Suites built on registries that hold the same records in another order. Building registers and
resolves, and neither makes a difference between them. -/
namespace CryptoSuite.Suite

open Registration
open Registry (Alike Indifferent)

variable {c : Config} {t u : Registry} {history other past : List Registration}

theorem indifferent_resolve (c : Config) : Indifferent (resolve c) := by
  unfold resolve
  refine .bind (Registry.indifferent_resolve _ _ _) fun hash => ?_
  refine .bind (Registry.indifferent_resolve _ _ _) fun mac => ?_
  refine .bind (Registry.indifferent_resolve _ _ _) fun macShort => ?_
  refine .bind (Registry.indifferent_resolve _ _ _) fun random => ?_
  refine .bind (Registry.indifferent_resolve _ _ _) fun signature => ?_
  refine .bind (Registry.indifferent_resolve _ _ _) fun authAgreement => ?_
  refine .bind (Registry.indifferent_resolve _ _ _) fun cipherAgreement => ?_
  refine .bind (Registry.indifferent_resolve _ _ _) fun block => ?_
  refine .bind (Registry.indifferent_resolve _ _ _) fun stream => ?_
  exact .bind (Registry.indifferent_resolveKeyDerivation _ _) fun derivation => .pure _

theorem reorders_registerFor (c : Config) (h : t.Reorders u) :
    (registerFor c t).Reorders (registerFor c u) := by
  unfold registerFor
  split_ifs
  · exact (h.registerAll _).registerAll _
  · exact ((h.registerAll _).report _ _).registerAll _

theorem ofConfig_eq_error {e : CryptoError} (hc : c.suite = .veloV1)
    (h : (resolve c).run (registerFor c t) = (.error e, u)) (mocks : Mock.Tables) :
    ofConfig c t mocks = (.error e, u, mocks) := by
  rw [ofConfig, hc]
  dsimp only
  rw [h]

/-- Building succeeds with the same suite, and leaves registries that again differ in order only. -/
theorem exists_ofConfig (c : Config) (h : t.Reorders u) (mocks : Mock.Tables) :
    ∃ s t' u' mocks', ofConfig c t mocks = (.ok s, t', mocks') ∧
      ofConfig c u mocks = (.ok s, u', mocks') ∧ t'.Reorders u' := by
  cases hc : c.suite with
  | veloV1 =>
    obtain ⟨hsame, hafter⟩ := indifferent_resolve c _ _ (reorders_registerFor c h)
    obtain ⟨s, hs, hs'⟩ | ⟨i, id, herror, -⟩ := hsame
    · exact ⟨s, _, _, mocks, ofConfig_eq_ok hc (Prod.ext hs rfl) mocks,
        ofConfig_eq_ok hc (Prod.ext hs' rfl) mocks, hafter.report _ _⟩
    · obtain ⟨s, v, hbuilt, -⟩ := ofConfig_veloV1 hc t mocks
      have hfailed := ofConfig_eq_error hc (Prod.ext herror rfl) mocks
      rw [hbuilt] at hfailed
      cases hfailed
  | mock =>
    have hmock (v : Registry) : ofConfig c v mocks =
        (.ok (ofMocks mocks.create.1), v.report (ofMocks mocks.create.1).ready, mocks.create.2) := by
      rw [ofConfig, hc]
    exact ⟨_, _, _, _, hmock t, hmock u, h.report _ _⟩

/-- Where no two of the records want one place, the order in which they are registered is not seen
by anything that asks for an identifier: lookups, resolutions and suites are the same, whatever was
registered before and whatever is asked in between. It is seen in the order of a listing, and in
which of several records that cover a mask is found. -/
theorem exact_answers_ignore_order {s : Registry} (hpast : Registry.empty.Takes past s)
    (ht : s.Takes history t) (hu : s.Takes other u) (hperm : history.Perm other)
    (hclear : ∀ a ∈ history, ∀ b ∈ history, a.place = b.place → a = b) :
    (∀ i id, (t.lookup i id).1 = (u.lookup i id).1) ∧
    ((∀ id, Alike (Registry.resolveHash id) t u) ∧ (∀ id, Alike (Registry.resolveMac id) t u) ∧
      (∀ id, Alike (Registry.resolveBlockCipher id) t u) ∧
      (∀ id, Alike (Registry.resolveStreamCipher id) t u) ∧
      (∀ id, Alike (Registry.resolveSignature id) t u) ∧
      (∀ id, Alike (Registry.resolveKeyAgreement id) t u) ∧
      (∀ id, Alike (Registry.resolveRandom id) t u) ∧
      ∀ id macId, Alike (Registry.resolveKeyDerivation id macId) t u) ∧
    (∀ i, (t.registeredImplementations i).Perm (u.registeredImplementations i)) ∧
    (∀ c mocks, ∃ built t' u' mocks', ofConfig c t mocks = (.ok built, t', mocks') ∧
      ofConfig c u mocks = (.ok built, u', mocks') ∧ t'.records.Perm u'.records) ∧
    ∀ i mask, (t.lookupByFeatures i mask = none ↔ u.lookupByFeatures i mask = none) ∧
      ((∀ a ∈ t.records, ∀ b ∈ t.records, a.interface = i ∧ a.Covers mask →
        b.interface = i ∧ b.Covers mask → a = b) →
        t.lookupByFeatures i mask = u.lookupByFeatures i mask) := by
  have h : t.Reorders u := .of_takes hpast ht hu hperm hclear
  have hresolve {α : Type} (i : Interface) (pick : Factory → Option α) (id : UInt32) :
      Alike (Registry.resolve i pick id) t u := (Registry.indifferent_resolve i pick id t u h).1
  refine ⟨h.find?_eq, ?_, h.registeredImplementations, ?_, h.lookupByFeatures⟩
  · refine ⟨hresolve _ _, hresolve _ _, hresolve _ _, hresolve _ _, hresolve _ _, hresolve _ _,
      hresolve _ _, ?_⟩
    intro id macId
    exact (Registry.indifferent_resolveKeyDerivation id macId t u h).1
  · intro c mocks
    obtain ⟨built, t', u', mocks', hbuilt, hbuilt', hafter⟩ := exists_ofConfig c h mocks
    exact ⟨built, t', u', mocks', hbuilt, hbuilt', hafter.perm⟩

/-- Two hashes registered in either order, one of them twice: the same suite is built on both
registries, the listings and the hash found without a feature asked for are those of the order. -/
theorem exact_answers_ignore_order_hashes :
    ∃ t u : Registry,
      Registry.empty.Takes [BuiltIn.sha2 .sha384, BuiltIn.sha2 .sha512, BuiltIn.sha2 .sha384] t ∧
      Registry.empty.Takes [BuiltIn.sha2 .sha512, BuiltIn.sha2 .sha384, BuiltIn.sha2 .sha384] u ∧
      (t.lookup .hash (BuiltIn.hashId .sha512)).1 = (u.lookup .hash (BuiltIn.hashId .sha512)).1 ∧
      Alike (Registry.resolveMac BuiltIn.macSha512Id) t u ∧
      (∃ built t' u' mocks, ofConfig ⟨.veloV1, .double, .fips⟩ t .empty = (.ok built, t', mocks) ∧
        ofConfig ⟨.veloV1, .double, .fips⟩ u .empty = (.ok built, u', mocks)) ∧
      t.lookupByFeatures .hash 0x0400 = u.lookupByFeatures .hash 0x0400 ∧
      t.registeredImplementations .hash = [BuiltIn.hashId .sha384, BuiltIn.hashId .sha512] ∧
      u.registeredImplementations .hash = [BuiltIn.hashId .sha512, BuiltIn.hashId .sha384] ∧
      t.lookupByFeatures .hash 0 ≠ u.lookupByFeatures .hash 0 := by
  have ht := Registry.takes_registerAll .empty
    [BuiltIn.sha2 .sha384, BuiltIn.sha2 .sha512, BuiltIn.sha2 .sha384]
  have hu := Registry.takes_registerAll .empty
    [BuiltIn.sha2 .sha512, BuiltIn.sha2 .sha384, BuiltIn.sha2 .sha384]
  obtain ⟨hlookup, ⟨-, hmac, -⟩, -, hsuite, hfeatures⟩ :=
    exact_answers_ignore_order .start ht hu (by decide) (by decide)
  obtain ⟨built, t', u', mocks, hbuilt, hbuilt', -⟩ := hsuite ⟨.veloV1, .double, .fips⟩ .empty
  refine ⟨_, _, ht, hu, hlookup _ _, hmac _, ⟨built, t', u', mocks, hbuilt, hbuilt'⟩, ?_, ?_, ?_, ?_⟩
  · exact (hfeatures .hash 0x0400).2 (by decide)
  · decide
  · decide
  · decide

end CryptoSuite.Suite
