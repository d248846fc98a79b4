import CryptoSuite.Proofs.Registry.History

/-! What registering several records adds, and what is found when every identifier that is resolved has
a record. -/
namespace CryptoSuite.Registry

open Registration

variable {t u : Registry} {rs : List Registration} {r : Registration} {i : Interface} {id : UInt32}

/-- What is found depends on the records alone. -/
theorem find?_congr (h : t.records = u.records) (i : Interface) (id : UInt32) :
    t.find? i id = u.find? i id := by
  rw [find?, find?, h]

theorem records_register (t : Registry) (r : Registration) :
    (t.register r).records =
      if t.find? r.interface r.implementation = none then t.records ++ [r] else t.records := by
  obtain ⟨hfind, h⟩ | ⟨hfind, h⟩ | ⟨q, -, hfind, h⟩ := register_cases t r <;> rw [h, hfind]
  · rw [if_pos rfl]
    rfl
  · rw [if_neg nofun]
  · rw [if_neg nofun]
    rfl

theorem registerAll_append (t : Registry) (rs qs : List Registration) :
    t.registerAll (rs ++ qs) = (t.registerAll rs).registerAll qs := List.foldl_append

theorem records_registerAll_congr (h : t.records = u.records) (rs : List Registration) :
    (t.registerAll rs).records = (u.registerAll rs).records := by
  induction rs generalizing t u with
  | nil => exact h
  | cons r rs ih =>
    refine ih ?_
    rw [records_register, records_register, find?_congr h, h]

theorem find?_eq_none_iff :
    t.find? r.interface r.implementation = none ↔ ∀ q ∈ t.records, q.place ≠ r.place := by
  simp [find?, serves_eq, List.find?_eq_none, place]

/-- The records of a batch that have no place yet, which are those that it adds. -/
def missing (t : Registry) (rs : List Registration) : List Registration :=
  (rs.filter fun r => t.find? r.interface r.implementation = none).eraseDups

theorem mem_missing :
    r ∈ t.missing rs ↔ r ∈ rs ∧ t.find? r.interface r.implementation = none := by
  rw [missing, List.mem_eraseDups, List.mem_filter, decide_eq_true_eq]

theorem missing_concat_of_some (h : t.find? r.interface r.implementation ≠ none) :
    t.missing (rs ++ [r]) = t.missing rs := by
  simp [missing, h]

theorem missing_concat_of_mem (h : r ∈ t.missing rs) : t.missing (rs ++ [r]) = t.missing rs := by
  have hnone := (mem_missing.mp h).2
  rw [missing, List.mem_eraseDups] at h
  simp only [missing, List.filter_append, List.filter_cons, List.filter_nil, hnone, decide_true,
    ↓reduceIte, eraseDups_concat_of_mem h]

theorem missing_concat_of_notMem (hnone : t.find? r.interface r.implementation = none)
    (h : r ∉ t.missing rs) : t.missing (rs ++ [r]) = t.missing rs ++ [r] := by
  rw [missing, List.mem_eraseDups] at h
  simp only [missing, List.filter_append, List.filter_cons, List.filter_nil, hnone, decide_true,
    ↓reduceIte, eraseDups_concat_of_notMem h]

/-- A batch in which no two records want one place adds its missing records, in its order. -/
theorem records_registerAll (hrs : ∀ a ∈ rs, ∀ b ∈ rs, a.place = b.place → a = b) (t : Registry) :
    (t.registerAll rs).records = t.records ++ t.missing rs := by
  induction rs using List.reverseRecOn with
  | nil => exact (List.append_nil _).symm
  | append_singleton rs r ih =>
    have ih := ih fun a ha b hb => hrs a (List.mem_append_left _ ha) b (List.mem_append_left _ hb)
    rw [registerAll, List.foldl_concat, ← registerAll, records_register]
    simp only [find?_eq_none_iff, ih, List.forall_mem_append]
    by_cases hnone : t.find? r.interface r.implementation = none
    · rw [find?_eq_none_iff] at hnone
      by_cases hmem : r ∈ t.missing rs
      · rw [if_neg fun h => h.2 r hmem rfl, missing_concat_of_mem hmem]
      · rw [missing_concat_of_notMem (find?_eq_none_iff.mpr hnone) hmem, if_pos, List.append_assoc]
        refine ⟨hnone, fun q hq hplace => hmem ?_⟩
        rwa [← hrs q (List.mem_append_left _ (mem_missing.mp hq).1) r (by simp) hplace]
    · rw [missing_concat_of_some hnone, if_neg]
      rw [find?_eq_none_iff] at hnone
      exact fun h => hnone h.1

/-- A batch whose places are all taken adds nothing. -/
theorem missing_eq_nil (h : ∀ r ∈ rs, t.find? r.interface r.implementation ≠ none) :
    t.missing rs = [] :=
  List.eq_nil_iff_forall_not_mem.mpr fun r hr => h r (mem_missing.mp hr).1 (mem_missing.mp hr).2

/-- After a batch all its places are taken. -/
theorem find?_registerAll_ne_none (hrs : ∀ a ∈ rs, ∀ b ∈ rs, a.place = b.place → a = b)
    (t : Registry) (hr : r ∈ rs) :
    (t.registerAll rs).find? r.interface r.implementation ≠ none := by
  rw [Ne, find?_eq_none_iff, records_registerAll hrs, List.forall_mem_append]
  rintro ⟨hold, hnew⟩
  exact hnew r (mem_missing.mpr ⟨hr, find?_eq_none_iff.mpr hold⟩) rfl

/-- A record that is found is found ever after. -/
theorem Takes.find?_eq_some (h : t.Takes rs u) (hr : t.find? i id = some r) : u.find? i id = some r :=
  h.records_prefix.find?_eq_some hr

/-- Reports leave the records alone. -/
theorem Takes.records_eq (h : t.Takes [] u) : u.records = t.records := by
  generalize hnone : ([] : List Registration) = history at h
  induction h with
  | start => rfl
  | register r _ _ => simp at hnone
  | report e _ ih => exact ih hnone

variable {α β : Type}

theorem run_bind_ok {x : Resolution α} {f : α → Resolution β} {a : α} (h : x.run t = (.ok a, u)) :
    (x >>= f).run t = (f a).run u := by
  rw [ExceptT.run_bind]
  simp only [Bind.bind, StateT.bind, h]

/-- On the records of `t`, whatever was reported before, `x` resolves to `a` and does nothing but
report. -/
def Yields (t : Registry) (x : Resolution α) (a : α) : Prop :=
  ∀ u : Registry, u.records = t.records → ∃ v, x.run u = (.ok a, v) ∧ u.Takes [] v

namespace Yields

theorem pure (t : Registry) (a : α) : Yields t (Pure.pure a) a := fun u _ => ⟨u, rfl, .start⟩

theorem bind {x : Resolution α} {f : α → Resolution β} {a : α} {b : β} (hx : Yields t x a)
    (hf : Yields t (f a) b) : Yields t (x >>= f) b := by
  intro u hu
  obtain ⟨v, hv, huv⟩ := hx u hu
  obtain ⟨w, hw, hvw⟩ := hf v (huv.records_eq.trans hu)
  exact ⟨w, (run_bind_ok hv).trans hw, huv.trans hvw⟩

end Yields

theorem run_require_some (h : t.find? i id = some r) :
    (require i id).run t = (.ok r.factory, t.report (.lookedUp i id true)) := by
  have hlookup : t.lookup i id = (some r, t.report (.lookedUp i id true)) := by
    rw [lookup, h]
    rfl
  have hrun : (modifyGet fun t => t.lookup i id : Resolution (Option Registration)).run t =
      (.ok (some r), t.report (.lookedUp i id true)) := by
    change (Except.ok (t.lookup i id).1, (t.lookup i id).2) = _
    rw [hlookup]
  exact run_bind_ok hrun

theorem yields_require (h : t.find? i id = some r) : Yields t (require i id) r.factory := by
  intro u hu
  have hfind : u.find? i id = some r := (find?_congr hu i id).trans h
  exact ⟨u.report (.lookedUp i id true), run_require_some hfind, .report _ .start⟩

/-- Resolving an identifier that has a record yields the part of what the record brings. -/
theorem yields_resolve {pick : Factory → Option α} {brought : Factory} {a : α}
    (h : t.find? i id = some r) (hbrings : r.factory = brought) (hpick : pick brought = some a) :
    Yields t (resolve i pick id) a := by
  refine (yields_require h).bind ?_
  rw [hbrings, hpick]
  exact .pure t a

end CryptoSuite.Registry

namespace CryptoSuite

/-- What a record brings that serves the interface. -/
def Factory.Brings (f : Factory) : Interface → Prop
  | .hash => ∃ p, f = .hash p
  | .mac => ∃ p, f = .mac p
  | .blockCipher => ∃ p, f = .blockCipher p
  | .streamCipher => ∃ p, f = .streamCipher p
  | .digitalSignature => ∃ p, f = .digitalSignature p
  | .keyAgreement => ∃ p, f = .keyAgreement p
  | .prng => ∃ p, f = .prng p
  | .keyDerivation => ∃ p, f = .keyDerivation p

theorem Factory.brings_interface (f : Factory) : f.Brings f.interface := by
  cases f <;> exact ⟨_, rfl⟩

end CryptoSuite
