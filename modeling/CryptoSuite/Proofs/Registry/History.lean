import CryptoSuite.Registry.BuiltIn
import CryptoSuite.Registry.Table
import Mathlib.Data.List.Find
import Mathlib.Data.List.Induction
import Mathlib.Data.List.Nodup
import Mathlib.Data.Nat.Bitwise

/-! What a registry answers, told from the history of registrations alone. The first record ever
registered for an interface and an identifier leads: it holds their place from then on, and every query
finds the earliest leading record that fits. -/
namespace CryptoSuite

theorem eraseDups_concat_of_mem {α : Type} [BEq α] [LawfulBEq α] {l : List α} {a : α} (h : a ∈ l) :
    (l ++ [a]).eraseDups = l.eraseDups := by
  simp [List.eraseDups_append, List.removeAll, h]

theorem eraseDups_concat_of_notMem {α : Type} [BEq α] [LawfulBEq α] {l : List α} {a : α} (h : a ∉ l) :
    (l ++ [a]).eraseDups = l.eraseDups ++ [a] := by
  rw [List.eraseDups_append]
  simp only [List.removeAll, List.elem_eq_mem, h, decide_false, Bool.not_false,
    List.filter_cons_of_pos, List.filter_nil]
  rfl

namespace Registration

/-- What at most one record of a registry serves. -/
def place (r : Registration) : Interface × UInt32 := (r.interface, r.implementation)

/-- Every bit of the mask is among the features. -/
def Covers (r : Registration) (mask : UInt32) : Prop :=
  ∀ k, mask.toNat.testBit k = true → r.features.toNat.testBit k = true

theorem covers_iff (r : Registration) (mask : UInt32) : r.Covers mask ↔ r.features &&& mask = mask := by
  rw [← UInt32.toNat_inj, UInt32.toNat_and]
  constructor
  · intro h
    apply Nat.eq_of_testBit_eq
    intro k
    rw [Nat.testBit_and]
    cases hk : mask.toNat.testBit k with
    | false => rw [Bool.and_false]
    | true => rw [h k hk, Bool.and_true]
  · intro h k hk
    rw [← h, Nat.testBit_and, Bool.and_eq_true] at hk
    exact hk.1

instance (r : Registration) (mask : UInt32) : Decidable (r.Covers mask) :=
  decidable_of_iff _ (r.covers_iff mask).symm

theorem serves_eq (r : Registration) (i : Interface) (id : UInt32) :
    r.serves i id = decide (r.place = (i, id)) := by
  rw [Bool.eq_iff_iff]
  simp [serves, place]

theorem offers_eq (r : Registration) (i : Interface) (mask : UInt32) :
    r.offers i mask = decide (r.interface = i ∧ r.Covers mask) := by
  rw [Bool.eq_iff_iff]
  simp [offers, covers_iff]

/-- No record of the history was registered for the place of `r` before `r` was. -/
def Leads (history : List Registration) (r : Registration) : Prop :=
  history.find? (fun q => q.place = r.place) = some r

instance (history : List Registration) (r : Registration) : Decidable (Leads history r) :=
  inferInstanceAs (Decidable (_ = _))

variable {history : List Registration} {r q : Registration}

/-- A later registration does not change which of the earlier records lead. -/
theorem leads_append (hq : q ∈ history) : Leads (history ++ [r]) q ↔ Leads history q := by
  have hsome : (history.find? fun p => p.place = q.place).isSome :=
    List.find?_isSome.mpr ⟨q, hq, decide_eq_true rfl⟩
  rw [Leads, Leads, List.find?_append, Option.or_of_isSome hsome]

theorem leads_append_self :
    Leads (history ++ [r]) r ↔
      (history.find? fun q => q.place = r.place) = none ∨ Leads history r := by
  unfold Leads
  rw [List.find?_append, List.find?_singleton, if_pos (decide_eq_true rfl)]
  cases history.find? fun q => q.place = r.place <;> simp

theorem find?_leads_append (p : Registration → Bool) :
    ((history ++ [r]).find? fun q => Leads (history ++ [r]) q ∧ p q) =
      (history.find? fun q => Leads history q ∧ p q).or
        ([r].find? fun q => Leads (history ++ [r]) q ∧ p q) := by
  rw [List.find?_append]
  congr 1
  apply List.find?_congr
  intro q hq
  simp only [leads_append hq]

/-- The first registration for a place is found if nothing before it is. -/
theorem find?_leads_free (p : Registration → Bool)
    (hfree : (history.find? fun q => q.place = r.place) = none) :
    ((history ++ [r]).find? fun q => Leads (history ++ [r]) q ∧ p q) =
      (history.find? fun q => Leads history q ∧ p q).or ([r].find? p) := by
  have hleads : Leads (history ++ [r]) r := leads_append_self.mpr (.inl hfree)
  rw [find?_leads_append, List.find?_singleton, List.find?_singleton]
  simp only [hleads, true_and, decide_eq_true_eq]

/-- A registration for a place that is taken is never found: if it leads, it was found before. -/
theorem find?_leads_taken (p : Registration → Bool)
    (htaken : (history.find? fun q => q.place = r.place) ≠ none) :
    ((history ++ [r]).find? fun q => Leads (history ++ [r]) q ∧ p q) =
      history.find? fun q => Leads history q ∧ p q := by
  rw [find?_leads_append]
  cases hfind : history.find? fun q => Leads history q ∧ p q with
  | some q => rfl
  | none =>
    rw [Option.none_or, List.find?_singleton, if_neg]
    intro hboth
    obtain ⟨hleads, hp⟩ := of_decide_eq_true hboth
    have hleads : Leads history r := (leads_append_self.mp hleads).resolve_left htaken
    have hmem : r ∈ history := List.mem_of_find?_eq_some hleads
    exact List.find?_eq_none.mp hfind r hmem (decide_eq_true ⟨hleads, hp⟩)

/-- The identifiers under which an interface was registered, as often as it was. -/
def implementations (history : List Registration) (i : Interface) : List UInt32 :=
  (history.filter fun r => r.interface = i).map implementation

theorem mem_implementations {i : Interface} {id : UInt32} :
    id ∈ implementations history i ↔ (history.find? fun r => r.place = (i, id)) ≠ none := by
  rw [← Option.isSome_iff_ne_none, List.find?_isSome]
  simp only [implementations, List.mem_map, List.mem_filter, decide_eq_true_eq, place,
    Prod.mk.injEq, and_assoc]

theorem implementations_append (i : Interface) :
    implementations (history ++ [r]) i =
      implementations history i ++ if r.interface = i then [r.implementation] else [] := by
  rw [implementations, List.filter_append, List.map_append, implementations]
  by_cases hi : r.interface = i <;> simp [hi]

/-- The first record registered for a place leads. -/
theorem find?_leads (place : Interface × UInt32) :
    (history.find? fun r => Leads history r ∧ r.place = place) =
      history.find? fun r => r.place = place := by
  cases hfind : history.find? fun r => r.place = place with
  | none =>
    rw [List.find?_eq_none] at hfind ⊢
    intro r hr hboth
    exact hfind r hr (decide_eq_true (of_decide_eq_true hboth).2)
  | some r =>
    obtain ⟨hplace, before, after, hsplit, hbefore⟩ := List.find?_eq_some_iff_append.mp hfind
    have hleads : Leads history r := by rw [Leads, of_decide_eq_true hplace, hfind]
    refine List.find?_eq_some_iff_append.mpr ⟨?_, before, after, hsplit, ?_⟩
    · exact decide_eq_true ⟨hleads, of_decide_eq_true hplace⟩
    · intro q hq
      have hne := hbefore q hq
      simp only [Bool.not_eq_true', decide_eq_false_iff_not] at hne ⊢
      exact fun h => hne h.2

end Registration

namespace Registry

open Registration

/-- What becomes of a registry when the records of `history` are registered in that order, whatever
else is asked of it and reported in between. -/
inductive Takes (t : Registry) : List Registration → Registry → Prop
  | start : Takes t [] t
  | register {history : List Registration} {u : Registry} (r : Registration) :
      Takes t history u → Takes t (history ++ [r]) (u.register r)
  | report {history : List Registration} {u : Registry} (e : Event) :
      Takes t history u → Takes t history (u.report e)

variable {t u : Registry} {history more : List Registration} {r : Registration}

theorem registeredImplementations_eq (t : Registry) (i : Interface) :
    t.registeredImplementations i = implementations t.records i := by
  simp only [registeredImplementations, implementations, beq_eq_decide]

@[simp] theorem records_report (t : Registry) (e : Event) : (t.report e).records = t.records := rfl

/-- All that a registration can do. -/
theorem register_cases (t : Registry) (r : Registration) :
    (t.find? r.interface r.implementation = none ∧ t.register r =
      { t with records := t.records ++ [r] }.report (.registered r.interface r.implementation)) ∨
    (t.find? r.interface r.implementation = some r ∧ t.register r = t) ∨
    ∃ q, q ≠ r ∧ t.find? r.interface r.implementation = some q ∧
      t.register r = t.report (.conflict r.interface r.implementation) := by
  unfold register
  split
  case h_1 hfind => exact .inl ⟨hfind, rfl⟩
  case h_2 q hfind =>
    split_ifs with hq
    · exact .inr (.inl ⟨hq ▸ hfind, rfl⟩)
    · exact .inr (.inr ⟨q, hq, hfind, rfl⟩)

theorem records_prefix_register (t : Registry) (r : Registration) :
    t.records <+: (t.register r).records := by
  obtain ⟨-, h⟩ | ⟨-, h⟩ | ⟨q, -, -, h⟩ := register_cases t r
  · exact h ▸ List.prefix_append _ _
  · exact ⟨[], by rw [h, List.append_nil]⟩
  · exact h ▸ List.prefix_refl _

/-- The table only grows at its end. -/
theorem Takes.records_prefix (h : t.Takes history u) : t.records <+: u.records := by
  induction h with
  | start => exact List.prefix_refl _
  | register r _ ih => exact ih.trans (records_prefix_register _ r)
  | report e _ ih => exact ih

theorem Takes.trans {w : Registry} (h : t.Takes history u) (hmore : u.Takes more w) :
    t.Takes (history ++ more) w := by
  induction hmore with
  | start => rwa [List.append_nil]
  | register r _ ih =>
    rw [← List.append_assoc]
    exact ih.register r
  | report e _ ih => exact ih.report e

theorem takes_registerAll (t : Registry) (rs : List Registration) : t.Takes rs (t.registerAll rs) := by
  induction rs using List.reverseRecOn with
  | nil => exact .start
  | append_singleton rs r ih =>
    rw [registerAll, List.foldl_concat]
    exact ih.register r

/-- A record for a free place has a place apart from the others. -/
theorem nodup_places_concat (h : (t.records.map place).Nodup)
    (hfree : t.find? r.interface r.implementation = none) :
    ((t.records ++ [r]).map place).Nodup := by
  rw [List.map_append, List.nodup_append]
  refine ⟨h, List.nodup_singleton _, ?_⟩
  rintro _ hq _ hr rfl
  obtain ⟨q, hq, hplace⟩ := List.mem_map.mp hq
  rw [List.map_singleton, List.mem_singleton] at hr
  refine List.find?_eq_none.mp hfree q hq ?_
  rw [serves_eq, decide_eq_true_eq, hplace, hr]
  rfl

/-- A registry that holds the leading records of a history, each once and in order of registration. -/
structure Keeps (t : Registry) (history : List Registration) : Prop where
  distinct : (t.records.map place).Nodup
  find?_records (p : Registration → Bool) :
    t.records.find? p = history.find? fun r => Leads history r ∧ p r
  implementations_eq (i : Interface) :
    t.registeredImplementations i = (implementations history i).eraseDups

namespace Keeps

theorem empty : Keeps Registry.empty [] where
  distinct := List.nodup_nil
  find?_records _ := rfl
  implementations_eq _ := rfl

theorem find?_eq (h : t.Keeps history) (i : Interface) (id : UInt32) :
    t.find? i id = history.find? fun r => r.place = (i, id) := by
  rw [← find?_leads, find?, h.find?_records]
  simp only [serves_eq, decide_eq_true_eq]

/-- A record for a free place joins the others at their end. -/
theorem append (h : t.Keeps history) {log : List Event}
    (hfree : (history.find? fun q => q.place = r.place) = none) :
    Keeps ⟨t.records ++ [r], log⟩ (history ++ [r]) where
  distinct := nodup_places_concat h.distinct ((h.find?_eq _ _).trans hfree)
  find?_records p := by
    rw [find?_leads_free p hfree, ← h.find?_records]
    exact List.find?_append
  implementations_eq i := by
    have heq := h.implementations_eq i
    rw [registeredImplementations_eq] at heq ⊢
    rw [implementations_append, implementations_append, heq]
    split_ifs with hi
    · have hnew : r.implementation ∉ implementations history i := by
        rw [mem_implementations, ← hi]
        exact not_not.mpr hfree
      exact (eraseDups_concat_of_notMem hnew).symm
    · rw [List.append_nil, List.append_nil]

/-- A record for a place that is taken changes nothing. -/
theorem ignore (h : t.Keeps history)
    (htaken : (history.find? fun q => q.place = r.place) ≠ none) : t.Keeps (history ++ [r]) where
  distinct := h.distinct
  find?_records p := by rw [find?_leads_taken p htaken, h.find?_records]
  implementations_eq i := by
    rw [h.implementations_eq, implementations_append]
    split_ifs with hi
    · have hold : r.implementation ∈ implementations history i := by
        rw [mem_implementations, ← hi]
        exact htaken
      exact (eraseDups_concat_of_mem hold).symm
    · rw [List.append_nil]

theorem report (h : t.Keeps history) (e : Event) : (t.report e).Keeps history := ⟨h.1, h.2, h.3⟩

/-- A registration keeps the leading records of the history that it makes longer. -/
theorem register (h : t.Keeps history) (r : Registration) : (t.register r).Keeps (history ++ [r]) := by
  have hfind : t.find? r.interface r.implementation = history.find? fun q => q.place = r.place :=
    h.find?_eq r.interface r.implementation
  obtain ⟨hnone, hr⟩ | ⟨hsome, hr⟩ | ⟨q, -, hsome, hr⟩ := register_cases t r <;> rw [hr]
  · exact h.append (hfind ▸ hnone)
  · exact h.ignore (by rw [← hfind, hsome]; nofun)
  · exact (h.ignore (by rw [← hfind, hsome]; nofun)).report _

/-- The places of the records tell them apart. -/
theorem eq_of_place (h : t.Keeps history) {q : Registration} (hq : q ∈ t.records) (hr : r ∈ t.records)
    (hplace : q.place = r.place) : q = r :=
  List.inj_on_of_nodup_map h.distinct hq hr hplace

/-- A registration reports that it adds a record or that another record is in its way. -/
theorem log_register (h : t.Keeps history) (r : Registration) :
    ∃ events, (t.register r).log = t.log ++ events ∧
      (∀ e ∈ events, e.fields = Event.subject r.interface r.implementation) ∧
      (events.map Event.message = ["algorithm registered"] ↔
        (t.register r).records = t.records ++ [r]) ∧
      (events.map Event.message = ["conflicting registration ignored"] ↔
        ∃ q ∈ t.records, q.place = r.place ∧ q ≠ r) ∧
      (events = [] ↔ r ∈ t.records) := by
  have hself : t.records ≠ t.records ++ [r] := by simp
  obtain ⟨hnone, hr⟩ | ⟨hsome, hr⟩ | ⟨q, hne, hsome, hr⟩ := register_cases t r <;> rw [hr]
  · have hfree : ∀ q ∈ t.records, q.place ≠ r.place := by
      intro q hq hplace
      refine List.find?_eq_none.mp hnone q hq ?_
      rw [serves_eq, hplace]
      exact decide_eq_true rfl
    refine ⟨[.registered r.interface r.implementation], rfl, ?_, ?_, ?_, ?_⟩
    · simp [Event.fields]
    · exact iff_of_true rfl rfl
    · refine iff_of_false (by simp [Event.message]) ?_
      rintro ⟨q, hq, hplace, -⟩
      exact hfree q hq hplace
    · exact iff_of_false nofun fun hmem => hfree r hmem rfl
  · have hmem : r ∈ t.records := List.mem_of_find?_eq_some hsome
    refine ⟨[], (List.append_nil _).symm, nofun, ?_, ?_, ?_⟩
    · exact iff_of_false nofun hself
    · refine iff_of_false nofun ?_
      rintro ⟨q, hq, hplace, hne⟩
      exact hne (h.eq_of_place hq hmem hplace)
    · exact iff_of_true rfl hmem
  · have hmem : q ∈ t.records := List.mem_of_find?_eq_some hsome
    have hserves := List.find?_some hsome
    have hplace : q.place = r.place := by
      rw [serves_eq, decide_eq_true_eq] at hserves
      exact hserves
    refine ⟨[.conflict r.interface r.implementation], rfl, ?_, ?_, ?_, ?_⟩
    · simp [Event.fields]
    · exact iff_of_false (by simp [Event.message]) hself
    · exact iff_of_true rfl ⟨q, hmem, hplace, hne⟩
    · exact iff_of_false nofun fun hr => hne (h.eq_of_place hmem hr hplace)

end Keeps

theorem Takes.keeps (h : Registry.empty.Takes history t) : t.Keeps history := by
  induction h with
  | start => exact .empty
  | register r _ ih => exact ih.register r
  | report e _ ih => exact ih.report e

/-- Over every history the first record registered for a place keeps it and is found under it, no later
registration changes an answer that was a record, and every registration reports what it did. -/
theorem first_record_stays (h : Registry.empty.Takes history t) :
    (t.records.map place).Nodup ∧
    (∀ i id, (t.lookup i id).1 = history.find? fun r => r.place = (i, id)) ∧
    (∀ i mask, t.lookupByFeatures i mask =
      history.find? fun r => Leads history r ∧ r.interface = i ∧ r.Covers mask) ∧
    (∀ i, t.registeredImplementations i =
      ((history.filter fun r => r.interface = i).map implementation).eraseDups) ∧
    (∀ more u, t.Takes more u → t.records <+: u.records ∧
      (∀ i id r, (t.lookup i id).1 = some r → (u.lookup i id).1 = some r) ∧
      ∀ i mask r, t.lookupByFeatures i mask = some r → u.lookupByFeatures i mask = some r) ∧
    ∀ r, ∃ events, (t.register r).log = t.log ++ events ∧
      (∀ e ∈ events, e.fields = Event.subject r.interface r.implementation) ∧
      (events.map Event.message = ["algorithm registered"] ↔
        (t.register r).records = t.records ++ [r]) ∧
      (events.map Event.message = ["conflicting registration ignored"] ↔
        ∃ q ∈ t.records, q.place = r.place ∧ q ≠ r) ∧
      (events = [] ↔ r ∈ t.records) := by
  have hkeeps := h.keeps
  refine ⟨hkeeps.distinct, hkeeps.find?_eq, ?_, hkeeps.implementations_eq, ?_, hkeeps.log_register⟩
  · intro i mask
    rw [lookupByFeatures, hkeeps.find?_records]
    simp only [offers_eq, decide_eq_true_eq]
  · intro more u hmore
    have hgrows := hmore.records_prefix
    exact ⟨hgrows, fun _ _ _ hr => hgrows.find?_eq_some hr, fun _ _ _ hr => hgrows.find?_eq_some hr⟩

/-- A record of one's own that takes the place of a built-in one, and then the built-in one twice: the
first keeps the place under both queries, and the second registration is a conflict. -/
theorem first_record_stays_custom :
    ∃ custom t, Registry.empty.Takes [custom, BuiltIn.ed25519, BuiltIn.sha2 .sha512] t ∧
      custom.origin = .custom "signer" ∧
      (t.lookup .digitalSignature BuiltIn.ed25519Id).1 = some custom ∧
      t.lookupByFeatures .digitalSignature 0x0300 = some custom ∧
      t.registeredImplementations .digitalSignature = [BuiltIn.ed25519Id] ∧
      ∃ events, (t.register BuiltIn.ed25519).log = t.log ++ events ∧
        events.map Event.message = ["conflicting registration ignored"] := by
  let custom : Registration := ⟨.custom "signer", BuiltIn.ed25519Id, 0x0700, .digitalSignature .ed25519⟩
  have h : Registry.empty.Takes [custom, BuiltIn.ed25519, BuiltIn.sha2 .sha512] _ :=
    .register _ (.report (.lookedUp .hash 0 false) (.register _ (.register _ .start)))
  obtain ⟨-, hlookup, hfeatures, hlist, -, hregister⟩ := first_record_stays h
  obtain ⟨events, hlog, -, -, hconflict, -⟩ := hregister BuiltIn.ed25519
  refine ⟨custom, _, h, rfl, ?_, ?_, ?_, events, hlog, ?_⟩
  · exact (hlookup _ _).trans (by decide)
  · exact (hfeatures _ _).trans (by decide)
  · exact (hlist _).trans (by decide)
  · exact hconflict.mpr ⟨custom, by decide, rfl, by decide⟩

end Registry

end CryptoSuite
