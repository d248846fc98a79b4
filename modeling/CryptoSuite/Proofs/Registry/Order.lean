import CryptoSuite.Proofs.Registry.Resolution

/-! Registries that hold the same records in another order. Whatever is found under an identifier is
found in both, and where no two records want one place it does not matter which of them was
registered first. -/
namespace CryptoSuite.Registry

open Registration

/-- The same records in some order, each with a place of its own. -/
structure Reorders (t u : Registry) : Prop where
  perm : t.records.Perm u.records
  distinct : (t.records.map place).Nodup

variable {t u v : Registry} {history other : List Registration} {r a b : Registration}

/-- A record is found under its place if it is there. -/
theorem find?_eq_some_iff (h : (t.records.map place).Nodup) (i : Interface) (id : UInt32) :
    t.find? i id = some r ↔ r ∈ t.records ∧ r.place = (i, id) := by
  constructor
  · intro hfind
    have hserves := List.find?_some hfind
    rw [serves_eq, decide_eq_true_eq] at hserves
    exact ⟨List.mem_of_find?_eq_some hfind, hserves⟩
  · rintro ⟨hmem, hplace⟩
    have hsome : t.find? i id ≠ none := by
      intro hnone
      have hfree := List.find?_eq_none.mp hnone r hmem
      rw [serves_eq, hplace] at hfree
      exact hfree (decide_eq_true rfl)
    obtain ⟨q, hq⟩ := Option.ne_none_iff_exists'.mp hsome
    have hserves := List.find?_some hq
    rw [serves_eq, decide_eq_true_eq, ← hplace] at hserves
    rw [hq, List.inj_on_of_nodup_map h (List.mem_of_find?_eq_some hq) hmem hserves]

/-- A record of another place does not change what is found. -/
theorem find?_register_of_ne {i : Interface} {id : UInt32} (h : r.place ≠ (i, id)) :
    (t.register r).find? i id = t.find? i id := by
  unfold find?
  rw [records_register]
  split_ifs
  · rw [List.find?_append, List.find?_singleton, if_neg, Option.or_none]
    rw [serves_eq, decide_eq_true_eq]
    exact h
  · rfl

theorem nodup_places_register (h : (t.records.map place).Nodup) (r : Registration) :
    ((t.register r).records.map place).Nodup := by
  rw [records_register]
  split_ifs with hfree
  · exact nodup_places_concat h hfree
  · exact h

namespace Reorders

theorem refl (h : (t.records.map place).Nodup) : t.Reorders t := ⟨.refl _, h⟩

theorem trans (h : t.Reorders u) (h' : u.Reorders v) : t.Reorders v :=
  ⟨h.perm.trans h'.perm, h.distinct⟩

theorem symm (h : t.Reorders u) : u.Reorders t :=
  ⟨h.perm.symm, (h.perm.map place).nodup_iff.mp h.distinct⟩

theorem report (h : t.Reorders u) (e e' : Event) : (t.report e).Reorders (u.report e') := ⟨h.1, h.2⟩

theorem find?_eq (h : t.Reorders u) (i : Interface) (id : UInt32) : t.find? i id = u.find? i id := by
  apply Option.ext
  intro r
  rw [find?_eq_some_iff h.distinct, find?_eq_some_iff h.symm.distinct, h.perm.mem_iff]

/-- Both registries add the record, or neither does. -/
theorem register (h : t.Reorders u) (r : Registration) : (t.register r).Reorders (u.register r) where
  perm := by
    rw [records_register, records_register, h.find?_eq]
    split_ifs
    · exact h.perm.append_right [r]
    · exact h.perm
  distinct := nodup_places_register h.distinct r

theorem registerAll (h : t.Reorders u) (rs : List Registration) :
    (t.registerAll rs).Reorders (u.registerAll rs) := by
  induction rs generalizing t u with
  | nil => exact h
  | cons r rs ih => exact ih (h.register r)

end Reorders

/-- Two registrations that are not for one place can be exchanged. -/
theorem reorders_swap (h : (t.records.map place).Nodup) (hclear : a.place = b.place → a = b) :
    ((t.register a).register b).Reorders ((t.register b).register a) := by
  refine ⟨?_, nodup_places_register (nodup_places_register h a) b⟩
  by_cases hplace : a.place = b.place
  · rw [hclear hplace]
  · have hb : (t.register a).find? b.interface b.implementation =
        t.find? b.interface b.implementation := find?_register_of_ne hplace
    have ha : (t.register b).find? a.interface a.implementation =
        t.find? a.interface a.implementation := find?_register_of_ne (Ne.symm hplace)
    rw [records_register (t.register a), records_register (t.register b), hb, ha, records_register,
      records_register]
    split_ifs
    · rw [List.append_assoc, List.append_assoc]
      exact (List.Perm.swap b a []).append_left t.records
    all_goals exact .refl _

/-- The order of registrations only decides the order of the records. -/
theorem reorders_registerAll (hperm : history.Perm other)
    (hclear : ∀ a ∈ history, ∀ b ∈ history, a.place = b.place → a = b)
    (h : (t.records.map place).Nodup) : (t.registerAll history).Reorders (t.registerAll other) := by
  induction hperm generalizing t with
  | nil => exact .refl h
  | cons r _ ih =>
    refine ih ?_ (nodup_places_register h r)
    intro a ha b hb
    exact hclear a (List.mem_cons_of_mem r ha) b (List.mem_cons_of_mem r hb)
  | swap a b rest => exact (reorders_swap h (hclear b (by simp) a (by simp))).registerAll rest
  | trans hfirst _ ih ih' =>
    refine (ih hclear h).trans (ih' ?_ h)
    intro a ha b hb
    exact hclear a (hfirst.mem_iff.mpr ha) b (hfirst.mem_iff.mpr hb)

/-- What is reported while records are registered leaves no trace in the records. -/
theorem Takes.records_eq_registerAll (h : t.Takes history u) :
    u.records = (t.registerAll history).records := by
  induction h with
  | start => rfl
  | register r _ ih =>
    rw [registerAll_append, records_register, find?_congr ih, ih, ← records_register]
    rfl
  | report e _ ih => exact ih

theorem Reorders.of_takes {past : List Registration} {s : Registry}
    (hpast : Registry.empty.Takes past s) (ht : s.Takes history t) (hu : s.Takes other u)
    (hperm : history.Perm other)
    (hclear : ∀ a ∈ history, ∀ b ∈ history, a.place = b.place → a = b) : t.Reorders u := by
  have h := reorders_registerAll hperm hclear hpast.keeps.distinct
  constructor
  · rw [ht.records_eq_registerAll, hu.records_eq_registerAll]
    exact h.perm
  · rw [ht.records_eq_registerAll]
    exact h.distinct

theorem Reorders.registeredImplementations (h : t.Reorders u) (i : Interface) :
    (t.registeredImplementations i).Perm (u.registeredImplementations i) :=
  (h.perm.filter _).map _

/-- Several records may cover a mask, and then the first of them is found. -/
theorem Reorders.lookupByFeatures (h : t.Reorders u) (i : Interface) (mask : UInt32) :
    (t.lookupByFeatures i mask = none ↔ u.lookupByFeatures i mask = none) ∧
    ((∀ a ∈ t.records, ∀ b ∈ t.records, a.interface = i ∧ a.Covers mask →
      b.interface = i ∧ b.Covers mask → a = b) →
      t.lookupByFeatures i mask = u.lookupByFeatures i mask) := by
  have hoffers (v : Registry) (r : Registration) (hr : v.lookupByFeatures i mask = some r) :
      r ∈ v.records ∧ r.interface = i ∧ r.Covers mask := by
    have hfound := List.find?_some hr
    rw [offers_eq, decide_eq_true_eq] at hfound
    exact ⟨List.mem_of_find?_eq_some hr, hfound⟩
  have hnone : t.lookupByFeatures i mask = none ↔ u.lookupByFeatures i mask = none := by
    simp only [Registry.lookupByFeatures, List.find?_eq_none, h.perm.mem_iff]
  refine ⟨hnone, fun hsingle => ?_⟩
  cases ht : t.lookupByFeatures i mask with
  | none => exact (hnone.mp ht).symm
  | some a =>
    obtain ⟨b, hb⟩ := Option.ne_none_iff_exists'.mp (mt hnone.mpr (ht ▸ Option.some_ne_none a))
    obtain ⟨hamem, hacovers⟩ := hoffers t a ht
    obtain ⟨hbmem, hbcovers⟩ := hoffers u b hb
    rw [hb, hsingle a hamem b (h.perm.mem_iff.mpr hbmem) hacovers hbcovers]

variable {α β : Type}

/-- On both registries a resolution succeeds with the same answer, or the same identifier has no
record. -/
def Alike (x : Resolution α) (t u : Registry) : Prop :=
  (∃ a, (x.run t).1 = .ok a ∧ (x.run u).1 = .ok a) ∨
    ∃ i id, (x.run t).1 = .error (.notRegistered i id) ∧ (x.run u).1 = .error (.notRegistered i id)

/-- A resolution to which the order of the records makes no difference. -/
def Indifferent (x : Resolution α) : Prop :=
  ∀ t u : Registry, t.Reorders u → Alike x t u ∧ (x.run t).2.Reorders (x.run u).2

theorem run_bind_error {x : Resolution α} {f : α → Resolution β} {e : CryptoError}
    (h : x.run t = (.error e, u)) : (x >>= f).run t = (.error e, u) := by
  rw [ExceptT.run_bind]
  simp only [Bind.bind, StateT.bind, h]
  rfl

namespace Indifferent

theorem pure (a : α) : Indifferent (Pure.pure a : Resolution α) :=
  fun _ _ h => ⟨.inl ⟨a, rfl, rfl⟩, h⟩

theorem notRegistered (i : Interface) (id : UInt32) :
    Indifferent (throw (.notRegistered i id) : Resolution α) :=
  fun _ _ h => ⟨.inr ⟨i, id, rfl, rfl⟩, h⟩

theorem bind {x : Resolution α} {f : α → Resolution β} (hx : Indifferent x)
    (hf : ∀ a, Indifferent (f a)) : Indifferent (x >>= f) := by
  intro t u h
  obtain ⟨hsame, hafter⟩ := hx t u h
  unfold Alike
  obtain ⟨a, hta, hua⟩ | ⟨i, id, hti, hui⟩ := hsame
  · obtain ⟨hnext, hdone⟩ := hf a _ _ hafter
    rw [run_bind_ok (Prod.ext hta rfl), run_bind_ok (Prod.ext hua rfl)]
    exact ⟨hnext, hdone⟩
  · rw [run_bind_error (Prod.ext hti rfl), run_bind_error (Prod.ext hui rfl)]
    exact ⟨.inr ⟨i, id, rfl, rfl⟩, hafter⟩

end Indifferent

theorem indifferent_lookup (i : Interface) (id : UInt32) :
    Indifferent (modifyGet fun t => t.lookup i id : Resolution (Option Registration)) := by
  intro t u h
  have hfound : (u.lookup i id).1 = (t.lookup i id).1 := (h.find?_eq i id).symm
  exact ⟨.inl ⟨_, rfl, congrArg Except.ok hfound⟩, h.report _ _⟩

theorem indifferent_require (i : Interface) (id : UInt32) : Indifferent (require i id) := by
  refine .bind (indifferent_lookup i id) fun found => ?_
  cases found with
  | none => exact .notRegistered i id
  | some r => exact .pure r.factory

theorem indifferent_resolve (i : Interface) (pick : Factory → Option α) (id : UInt32) :
    Indifferent (resolve i pick id) := by
  refine .bind (indifferent_require i id) fun brought => ?_
  cases pick brought with
  | none => exact .notRegistered i id
  | some a => exact .pure a

theorem indifferent_resolveKeyDerivation (id macId : UInt32) :
    Indifferent (resolveKeyDerivation id macId) :=
  .bind (indifferent_resolve _ _ id) fun _ => .bind (indifferent_resolve _ _ macId) fun _ => .pure _

end CryptoSuite.Registry
