import CryptoSuite.Proofs.Registry.Resolution
import CryptoSuite.Suite.Capability

/-! Building a suite on a registry with any past. It registers what it needs before it resolves anything,
so that no identifier is left without a record, and resolves each capability to the record that was
first registered for it. -/
namespace CryptoSuite

/-- The built-in record for a capability of a suite. -/
def Slot.standard (c : Config) : Slot → Registration
  | .hash => BuiltIn.sha2 .sha512
  | .mac => BuiltIn.hmacSha512
  | .macShort => BuiltIn.hmacSha512_256
  | .random => BuiltIn.operatingSystem
  | .signature => BuiltIn.ed25519
  | .authAgreement => BuiltIn.curve25519Sha512
  | .cipherAgreement => BuiltIn.curve25519Sha512_256
  | .block => BuiltIn.aesCbc c.block
  | .stream => BuiltIn.aesCtr c.stream
  | .keyDerivation => BuiltIn.pbkdf2

theorem Slot.interface_standard (c : Config) (slot : Slot) :
    (slot.standard c).interface = slot.interface := by
  cases slot <;> rfl

namespace Suite

open Registration
open Registry (yields_resolve)

/-- All that building a suite registers, in its order. -/
def required (c : Config) : List Registration :=
  standardRegistrations ++ [BuiltIn.aesCbc c.block, BuiltIn.aesCtr c.stream]

variable {c : Config} {t u : Registry} {history more : List Registration}

theorem standard_mem_required (c : Config) (slot : Slot) : slot.standard c ∈ required c := by
  cases slot <;> simp [Slot.standard, required, standardRegistrations]

/-- No two records of the library have one place. -/
theorem nodup_places : ((BuiltIn.all.map Prod.snd).map place).Nodup := by
  decide

theorem required_subset (c : Config) : required c ⊆ BuiltIn.all.map Prod.snd := by
  have hstandard : standardRegistrations ⊆ BuiltIn.all.map Prod.snd := by decide
  have hblock : ∀ m, BuiltIn.aesCbc m ∈ BuiltIn.all.map Prod.snd := by
    intro m
    cases m <;> decide
  have hstream : ∀ m, BuiltIn.aesCtr m ∈ BuiltIn.all.map Prod.snd := by
    intro m
    cases m <;> decide
  refine List.append_subset.mpr ⟨hstandard, List.cons_subset.mpr ⟨hblock _, ?_⟩⟩
  exact List.cons_subset.mpr ⟨hstream _, List.nil_subset _⟩

theorem eq_of_mem_required (c : Config) :
    ∀ a ∈ required c, ∀ b ∈ required c, a.place = b.place → a = b :=
  fun _ ha _ hb hplace =>
    List.inj_on_of_nodup_map nodup_places (required_subset c ha) (required_subset c hb) hplace

theorem takes_registerFor (c : Config) (t : Registry) : t.Takes (required c) (registerFor c t) := by
  have hstandard := t.takes_registerAll standardRegistrations
  unfold registerFor
  split_ifs
  · exact hstandard.trans (Registry.takes_registerAll _ _)
  · exact (hstandard.report _).trans (Registry.takes_registerAll _ _)

theorem records_registerFor (c : Config) (t : Registry) :
    (registerFor c t).records = t.records ++ t.missing (required c) := by
  rw [← Registry.records_registerAll (eq_of_mem_required c), required, Registry.registerAll_append]
  unfold registerFor
  split_ifs
  · rfl
  · exact Registry.records_registerAll_congr (Registry.records_report _ _) _

/-- The outcome of resolving is fixed by the records found for the slots. Resolving only reports. -/
theorem exists_resolved {found : Slot → Registration}
    (hfound : ∀ slot, (found slot).interface = slot.interface) :
    ∃ s : Suite, s.id = .veloV1 ∧ s.mocks = none ∧ s.prf = s.macShort ∧
      (∀ slot, s.provider slot = (found slot).factory) ∧
      ∀ t : Registry, (∀ slot : Slot,
        t.find? slot.interface (slot.standard c).implementation = some (found slot)) →
        t.Yields (resolve c) s := by
  have hbrings (slot : Slot) : (found slot).factory.Brings slot.interface :=
    hfound slot ▸ (found slot).factory.brings_interface
  obtain ⟨hash, hhash⟩ := hbrings .hash
  obtain ⟨mac, hmac⟩ := hbrings .mac
  obtain ⟨macShort, hmacShort⟩ := hbrings .macShort
  obtain ⟨random, hrandom⟩ := hbrings .random
  obtain ⟨signature, hsignature⟩ := hbrings .signature
  obtain ⟨authAgreement, hauth⟩ := hbrings .authAgreement
  obtain ⟨cipherAgreement, hcipher⟩ := hbrings .cipherAgreement
  obtain ⟨block, hblock⟩ := hbrings .block
  obtain ⟨stream, hstream⟩ := hbrings .stream
  obtain ⟨keyDerivation, hderivation⟩ := hbrings .keyDerivation
  refine ⟨⟨.veloV1, hash, mac, macShort, random, signature, authAgreement, cipherAgreement, block,
    stream, keyDerivation, macShort, none⟩, rfl, rfl, rfl, ?_, ?_⟩
  · intro slot
    cases slot
    exacts [hhash.symm, hmac.symm, hmacShort.symm, hrandom.symm, hsignature.symm, hauth.symm,
      hcipher.symm, hblock.symm, hstream.symm, hderivation.symm]
  · intro t ht
    unfold resolve
    refine .bind (yields_resolve (ht .hash) hhash (by rfl)) ?_
    refine .bind (yields_resolve (ht .mac) hmac (by rfl)) ?_
    refine .bind (yields_resolve (ht .macShort) hmacShort (by rfl)) ?_
    refine .bind (yields_resolve (ht .random) hrandom (by rfl)) ?_
    refine .bind (yields_resolve (ht .signature) hsignature (by rfl)) ?_
    refine .bind (yields_resolve (ht .authAgreement) hauth (by rfl)) ?_
    refine .bind (yields_resolve (ht .cipherAgreement) hcipher (by rfl)) ?_
    refine .bind (yields_resolve (ht .block) hblock (by rfl)) ?_
    refine .bind (yields_resolve (ht .stream) hstream (by rfl)) ?_
    refine .bind (a := (keyDerivation, macShort)) ?_ (.pure t _)
    refine .bind (yields_resolve (ht .keyDerivation) hderivation (by rfl)) ?_
    exact .bind (yields_resolve (ht .macShort) hmacShort (by rfl)) (.pure t _)

/-- Every record that the suite needs finds its place taken, by itself or by another one. -/
def Provided (c : Config) (t : Registry) : Prop :=
  ∀ r ∈ required c, t.find? r.interface r.implementation ≠ none

theorem provided_registerFor (c : Config) (t : Registry) : Provided c (registerFor c t) := by
  intro r hr
  have hrecords : (registerFor c t).records = (t.registerAll (required c)).records := by
    rw [records_registerFor, Registry.records_registerAll (eq_of_mem_required c)]
  rw [Registry.find?_congr hrecords]
  exact Registry.find?_registerAll_ne_none (eq_of_mem_required c) t hr

namespace Provided

theorem takes (h : Provided c t) (hmore : t.Takes more u) : Provided c u := by
  intro r hr
  obtain ⟨holder, hholder⟩ := Option.ne_none_iff_exists'.mp (h r hr)
  rw [hmore.find?_eq_some hholder]
  exact Option.some_ne_none holder

theorem records_registerFor (h : Provided c t) : (registerFor c t).records = t.records := by
  rw [Suite.records_registerFor, Registry.missing_eq_nil h, List.append_nil]

theorem exists_found (h : Provided c t) (slot : Slot) : ∃ r,
    t.find? slot.interface (slot.standard c).implementation = some r ∧ r.interface = slot.interface := by
  have hfind := h _ (standard_mem_required c slot)
  rw [slot.interface_standard c] at hfind
  obtain ⟨r, hr⟩ := Option.ne_none_iff_exists'.mp hfind
  have hserves := List.find?_some hr
  rw [serves_eq, decide_eq_true_eq] at hserves
  exact ⟨r, hr, congrArg Prod.fst hserves⟩

end Provided

theorem ofConfig_eq_ok {s : Suite} (hc : c.suite = .veloV1)
    (h : (resolve c).run (registerFor c t) = (.ok s, u)) (mocks : Mock.Tables) :
    ofConfig c t mocks = (.ok s, u.report s.ready, mocks) := by
  rw [ofConfig, hc]
  dsimp only
  rw [h]

/-- Building is registering and resolving, with a report at the end. -/
theorem ofConfig_of_yields {s : Suite} (hc : c.suite = .veloV1)
    (h : (registerFor c t).Yields (resolve c) s) (mocks : Mock.Tables) :
    ∃ u, ofConfig c t mocks = (.ok s, u, mocks) ∧ (registerFor c t).Takes [] u := by
  obtain ⟨v, hv, htakes⟩ := h _ rfl
  exact ⟨v.report s.ready, ofConfig_eq_ok hc hv mocks, htakes.report _⟩

/-- Building a suite of real algorithms takes no slot table. -/
theorem ofConfig_veloV1 (hc : c.suite = .veloV1) (t : Registry) (mocks : Mock.Tables) :
    ∃ s u, ofConfig c t mocks = (.ok s, u, mocks) ∧ s.mocks = none := by
  choose found hfound hinterface using (provided_registerFor c t).exists_found
  obtain ⟨s, -, hmocks, -, -, hyields⟩ := exists_resolved (c := c) hinterface
  obtain ⟨u, hu, -⟩ := ofConfig_of_yields hc (hyields _ hfound) mocks
  exact ⟨s, u, hu, hmocks⟩

/-- The suite of the built-in records. -/
def standard (c : Config) : Suite where
  id := .veloV1
  hash := .sha2 .sha512
  mac := .hmac "HMAC-SHA-512" .sha512
  macShort := .hmac "HMAC-SHA-512/256" .sha512_256
  random := .operatingSystem
  signature := .ed25519
  authAgreement := .curve25519 .sha512
  cipherAgreement := .curve25519 .sha512_256
  block := .aesCbc c.block
  stream := .aesCtr c.stream
  keyDerivation := .pbkdf2
  prf := .hmac "HMAC-SHA-512/256" .sha512_256
  mocks := none

theorem eq_standard {s : Suite} (hid : s.id = .veloV1) (hmocks : s.mocks = none)
    (hprf : s.prf = s.macShort) (h : ∀ slot, s.provider slot = (slot.standard c).factory) :
    s = standard c := by
  obtain ⟨id, hash, mac, macShort, random, signature, auth, cipher, block, stream, derivation, prf,
    mocks⟩ := s
  cases hid
  cases hmocks
  cases hprf
  cases h .hash
  cases h .mac
  cases h .macShort
  cases h .random
  cases h .signature
  cases h .authAgreement
  cases h .cipherAgreement
  cases h .block
  cases h .stream
  cases h .keyDerivation
  rfl

/-- No record but the built-in one was registered for any capability of a suite. -/
def Unconflicted (c : Config) (history : List Registration) : Prop :=
  ∀ slot : Slot, ∀ r ∈ history, r.place = (slot.standard c).place → r = slot.standard c

/-- Where no registration is in conflict with the built-in records, they are what the suite is made of. -/
theorem ofConfig_standard (hc : c.suite = .veloV1) (h : Registry.empty.Takes history t)
    (hclear : Unconflicted c history) (mocks : Mock.Tables) :
    ∃ u, ofConfig c t mocks = (.ok (standard c), u, mocks) := by
  have hfound (slot : Slot) : (registerFor c t).find? slot.interface (slot.standard c).implementation =
      some (slot.standard c) := by
    obtain ⟨r, hr, -⟩ := (provided_registerFor c t).exists_found slot
    have hfirst : (history ++ required c).find? (fun q => q.place = (slot.standard c).place) = some r := by
      rw [← hr, (h.trans (takes_registerFor c t)).keeps.find?_eq, ← slot.interface_standard c]
      rfl
    have hplace : r.place = (slot.standard c).place := by simpa using List.find?_some hfirst
    rw [hr]
    congr 1
    rcases List.mem_append.mp (List.mem_of_find?_eq_some hfirst) with hold | hnew
    · exact hclear slot r hold hplace
    · exact eq_of_mem_required c _ hnew _ (standard_mem_required c slot) hplace
  have hinterface : ∀ slot, (Slot.standard c slot).interface = slot.interface :=
    fun slot => slot.interface_standard c
  obtain ⟨s, hid, hmocks, hprf, hprovider, hyields⟩ := exists_resolved (c := c) hinterface
  obtain ⟨u, hu, -⟩ := ofConfig_of_yields hc (hyields _ hfound) mocks
  rw [eq_standard hid hmocks hprf hprovider] at hu
  exact ⟨u, hu⟩

/-- Building the suite never fails, whatever was registered before it. It adds the records that are
missing and stands on the first record ever registered for each capability, which is the built-in one, with
the multiplier selected, unless another was registered for its place. Building again, whatever happens in
between, adds nothing and gives the same suite. -/
theorem building_finds_first_records (hc : c.suite = .veloV1) (h : Registry.empty.Takes history t)
    (mocks : Mock.Tables) :
    ∃ (s : Suite) (u : Registry), ofConfig c t mocks = (.ok s, u, mocks) ∧
      t.Takes (required c) u ∧
      u.records = t.records ++ ((required c).filter fun r =>
        (t.lookup r.interface r.implementation).1 = none).eraseDups ∧
      (∀ slot, ((history ++ required c).find? fun r => r.place = (slot.standard c).place).map factory =
        some (s.provider slot)) ∧
      s.prf = s.macShort ∧
      (∀ slot, (∀ r ∈ history, r.place = (slot.standard c).place → r = slot.standard c) →
        s.provider slot = (slot.standard c).factory) ∧
      ∀ more v mocks', u.Takes more v → ∃ w, ofConfig c v mocks' = (.ok s, w, mocks') ∧
        w.records = v.records := by
  have hprovided := provided_registerFor c t
  choose found hfound hinterface using hprovided.exists_found
  obtain ⟨s, -, -, hprf, hprovider, hyields⟩ := exists_resolved (c := c) hinterface
  obtain ⟨u, hu, htakes⟩ := ofConfig_of_yields hc (hyields _ hfound) mocks
  have hbuilt : t.Takes (required c) u := by simpa using (takes_registerFor c t).trans htakes
  have hfirst (slot : Slot) :
      (history ++ required c).find? (fun r => r.place = (slot.standard c).place) = some (found slot) := by
    refine ((h.trans hbuilt).keeps.find?_eq _ _).symm.trans ?_
    rw [slot.interface_standard c]
    exact htakes.find?_eq_some (hfound slot)
  refine ⟨s, u, hu, hbuilt, ?_, ?_, hprf, ?_, ?_⟩
  · rw [htakes.records_eq, records_registerFor]
    rfl
  · intro slot
    rw [hfirst slot, hprovider slot]
    rfl
  · intro slot hclear
    rw [hprovider slot]
    have hmem := List.mem_of_find?_eq_some (hfirst slot)
    have hplace : (found slot).place = (slot.standard c).place := by
      simpa using List.find?_some (hfirst slot)
    rcases List.mem_append.mp hmem with hold | hnew
    · rw [hclear _ hold hplace]
    · rw [eq_of_mem_required c _ hnew _ (standard_mem_required c slot) hplace]
  · intro more v mocks' hmore
    have hlater := (htakes.trans hmore).trans (takes_registerFor c v)
    have hstill (slot : Slot) := hlater.find?_eq_some (hfound slot)
    obtain ⟨w, hw, hagain⟩ := ofConfig_of_yields hc (hyields _ hstill) mocks'
    refine ⟨w, hw, ?_⟩
    rw [hagain.records_eq]
    exact ((hprovided.takes htakes).takes hmore).records_registerFor

/-- A record of one's own holds the identifier of the stream cipher that is selected, and the suite takes
its cipher. The block cipher is the one selected, and a second suite that is built after one more
registration is the same. -/
theorem building_finds_first_records_custom :
    ∃ (custom : Registration) (t u : Registry) (s : Suite),
      Registry.empty.Takes [custom, BuiltIn.pbkdf2] t ∧ custom.origin = .custom "cipher" ∧
      ofConfig ⟨.veloV1, .double, .triple⟩ t .empty = (.ok s, u, .empty) ∧
      s.stream = .aesCtr .quadruple ∧ s.block = .aesCbc .double ∧
      u.records = t.records ++ ((standardRegistrations.erase BuiltIn.pbkdf2) ++ [BuiltIn.aesCbc .double]) ∧
      ∃ w, ofConfig ⟨.veloV1, .double, .triple⟩ (u.register (BuiltIn.sha2 .sha384)) .empty =
          (.ok s, w, .empty) ∧
        w.records = u.records ++ [BuiltIn.sha2 .sha384] := by
  let custom : Registration :=
    ⟨.custom "cipher", BuiltIn.cipherId .triple, 0, .streamCipher (.aesCtr .quadruple)⟩
  have h : Registry.empty.Takes [custom, BuiltIn.pbkdf2] _ := .register _ (.register _ .start)
  obtain ⟨s, u, hu, -, hrecords, hfirst, -, hclear, hagain⟩ :=
    building_finds_first_records (c := ⟨.veloV1, .double, .triple⟩) rfl h .empty
  have hadded : u.records = _ ++ _ := hrecords.trans (congrArg (_ ++ ·)
    (show _ = (standardRegistrations.erase BuiltIn.pbkdf2) ++ [BuiltIn.aesCbc .double] by decide))
  obtain ⟨w, hw, hsame⟩ := hagain [BuiltIn.sha2 .sha384] _ .empty (.register _ .start)
  refine ⟨custom, _, u, s, h, rfl, hu, ?_, ?_, hadded, w, hw, ?_⟩
  · have hstream := (hfirst .stream).symm.trans
      (show _ = some (Factory.streamCipher (.aesCtr .quadruple)) by decide)
    exact Factory.streamCipher.inj (Option.some.inj hstream)
  · exact Factory.blockCipher.inj (hclear .block (by decide))
  · rw [hsame, Registry.records_register, if_pos]
    rw [Registry.find?_eq_none_iff, hadded]
    decide

end Suite

end CryptoSuite
