import CryptoSuite.Proofs.Memory.Grants
import CryptoSuite.Proofs.Mock.History
import CryptoSuite.Proofs.Suite.Building

/-! Programs that build suites of test doubles, install handlers in them and use their contexts, in any
order. Every request is answered as the history of the program tells. -/
namespace CryptoSuite.Mock

/-- What a program holds: the registry, its suites of test doubles, each known by its table, and their
contexts. -/
structure World (κ : Type) where
  registry : Registry
  suites : List Handle
  contexts : List (Context κ)

variable {κ : Type}

namespace World

def step (w : World κ) : Step κ → Action κ (Option Reply × World κ)
  | .build c => do
    let (made, registry) ← Action.onMocks fun tables =>
      let (made, registry, tables) := Suite.ofConfig c w.registry tables
      ((made, registry), tables)
    let suites := w.suites ++ (made.toOption.bind Suite.mocks).toList
    pure (none, { w with registry, suites })
  | .clone i => pure (none, { w with suites := w.suites ++ w.suites[i]?.toList })
  | .install i op f => do
    (w.suites[i]?).forM fun t => Action.onMocks fun tables => ((), tables.install t op f)
    pure (none, w)
  | .clear i => do
    (w.suites[i]?).forM fun t => Action.onMocks fun tables => ((), tables.clear t)
    pure (none, w)
  | .create i slot key direction => do
    match w.suites[i]? with
    | none => pure (none, w)
    | some t =>
      match ← (Suite.openMock t key direction slot).run with
      | .error _ => pure (none, w)
      | .ok c => pure (none, { w with contexts := w.contexts ++ [c] })
  | .use n request => do
    match w.contexts[n]? with
    | none => pure (none, w)
    | some c =>
      let (reply, c) ← c.use request
      pure (some reply, { w with contexts := w.contexts.set n c })
  | .elsewhere x _ => do
    x
    pure (none, w)

def run (w : World κ) (steps : List (Step κ)) : Action κ (List (Option Reply) × World κ) :=
  Session.run step w steps

end World

namespace Change

def apply (tables : Tables) : Change → Tables
  | install t op f => tables.install t op f
  | clear t => tables.clear t

variable {tables : Tables} {c : Change}

@[simp] theorem length_apply (tables : Tables) (c : Change) :
    (c.apply tables).tables.length = tables.tables.length := by
  cases c <;> simp [apply, Tables.install, Tables.clear]

/-- A slot holds what was last done to it. -/
theorem slots_apply (h : c.table.index < tables.tables.length) (t : Handle) (op : Operation) :
    (c.apply tables).slots t op = (c.on t op).getD (tables.slots t op) := by
  obtain ⟨i⟩ := t
  cases c with
  | install t' op' f =>
    obtain ⟨j⟩ := t'
    have hj : j < tables.tables.length := h
    by_cases hij : j = i
    · subst hij
      by_cases hop : op' = op
      · subst hop
        simp [apply, Tables.install, Tables.slots, on, hj]
      · simp [apply, Tables.install, Tables.slots, on, hj, hop, Slots.install_ne f (Ne.symm hop)]
    · simp [apply, Tables.install, Tables.slots, on, hij, List.getElem?_modify_ne]
  | clear t' =>
    obtain ⟨j⟩ := t'
    have hj : j < tables.tables.length := h
    by_cases hij : j = i
    · subst hij
      simp [apply, Tables.clear, Tables.slots, on, hj, Slots.empty]
    · simp [apply, Tables.clear, Tables.slots, on, hij, List.getElem?_set_ne]

end Change

/-- A new table adds no handler to any slot. -/
theorem slots_create (tables : Tables) (t : Handle) : tables.create.2.slots t = tables.slots t := by
  obtain ⟨i⟩ := t
  simp only [Tables.create, Tables.slots, List.getD_eq_getElem?_getD]
  rcases Nat.lt_trichotomy i tables.tables.length with h | h | h
  · rw [List.getElem?_append_left h]
  · subst h
    simp
  · rw [List.getElem?_eq_none (by simp; omega), List.getElem?_eq_none (by omega)]

namespace World

variable {w : World κ} {μ : Machine κ} {t : Handle} {i : Nat} {c : Config}

theorem runFrom_build (hc : c.suite = .mock) : ∃ u, (w.step (.build c)).runFrom μ =
    ((none, { w with registry := u, suites := w.suites ++ [⟨μ.mocks.tables.length⟩] }),
      { μ with mocks := μ.mocks.create.2 }) := by
  obtain ⟨u, hu⟩ : ∃ u, Suite.ofConfig c w.registry μ.mocks =
      (.ok (Suite.ofMocks μ.mocks.create.1), u, μ.mocks.create.2) := by
    rw [Suite.ofConfig, hc]
    exact ⟨_, rfl⟩
  refine ⟨u, ?_⟩
  simp only [step, Action.runFrom_bind, Action.runFrom_onMocks, hu]
  rfl

theorem runFrom_build_veloV1 (hc : c.suite = .veloV1) : ∃ u, (w.step (.build c)).runFrom μ =
    ((none, { w with registry := u }), μ) := by
  obtain ⟨s, u, hu, hnone⟩ := Suite.ofConfig_veloV1 hc w.registry μ.mocks
  refine ⟨u, ?_⟩
  simp only [step, Action.runFrom_bind, Action.runFrom_onMocks, hu, Except.toOption, hnone,
    Option.bind_some, Option.toList_none, List.append_nil, Action.runFrom_pure]

theorem runFrom_install (hi : w.suites[i]? = some t) (op : Operation) (f : Handler) :
    (w.step (.install i op f)).runFrom μ =
      ((none, w), { μ with mocks := Change.apply μ.mocks (.install t op f) }) := by
  rw [step, hi]
  rfl

theorem runFrom_clear (hi : w.suites[i]? = some t) :
    (w.step (.clear i)).runFrom μ = ((none, w), { μ with mocks := Change.apply μ.mocks (.clear t) }) := by
  rw [step, hi]
  rfl

theorem runFrom_create (hi : w.suites[i]? = some t) (slot : Slot) (key : Bytes)
    (d : BlockCipher.Direction) : (w.step (.create i slot key d)).runFrom μ =
      ((none, { w with contexts := w.contexts ++ [contextOf t slot] }), μ) := by
  have hopen : ((Suite.openMock t key d slot).run).runFrom μ = (.ok (contextOf t slot), μ) :=
    Suite.runFrom_openMock t key d slot μ
  simp only [step, hi, Action.runFrom_bind, hopen, Action.runFrom_pure]

end World

variable {b : History} {w : World κ} {tables : Tables} {μ : Machine κ}

/-- What a program holds, and what is in the slots of its suites, is what its history says. -/
structure Holds (b : History) (w : World κ) (tables : Tables) : Prop where
  sound : b.Sound
  built : tables.tables.length = b.built
  suites : w.suites = b.suites
  contexts : w.contexts = b.contexts.map fun p => contextOf p.1 p.2
  slots : ∀ t ∈ b.suites, tables.slots t = b.current t

namespace Holds

theorem start (registry : Registry) (tables : Tables) :
    Holds (.of tables ([] : List (Step κ))) (κ := κ) ⟨registry, [], []⟩ tables where
  sound := ⟨nofun, nofun, nofun⟩
  built := rfl
  suites := rfl
  contexts := rfl
  slots := nofun

theorem registry (h : Holds b w tables) (registry : Registry) : Holds b { w with registry } tables :=
  ⟨h.sound, h.built, h.suites, h.contexts, h.slots⟩

theorem grow (h : Holds b w tables) (registry : Registry) :
    Holds { b with built := b.built + 1, suites := b.suites ++ [⟨b.built⟩] }
      { w with registry, suites := w.suites ++ [⟨b.built⟩] } tables.create.2 where
  sound := h.sound.grow
  built := by simp [Tables.create, h.built]
  suites := by simp [h.suites]
  contexts := h.contexts
  slots := by
    intro t ht
    rw [slots_create]
    rcases List.mem_append.mp ht with hold | hnew
    · exact h.slots t hold
    · cases List.mem_singleton.mp hnew
      funext op
      -- Nothing is in a table that is not there yet, and nothing was done to it.
      have hempty : tables.slots ⟨b.built⟩ = Slots.empty := by
        rw [Tables.slots, List.getD_eq_getElem?_getD, List.getElem?_eq_none (by simp [h.built])]
        rfl
      rw [hempty]
      exact (h.sound.current_fresh op).symm

theorem change (h : Holds b w tables) {c : Change} (hc : c.table ∈ b.suites) :
    Holds { b with changes := b.changes ++ [c] } w (c.apply tables) where
  sound := h.sound.change hc
  built := by rw [Change.length_apply, h.built]
  suites := h.suites
  contexts := h.contexts
  slots := by
    intro t ht
    funext op
    have hthere : c.table.index < tables.tables.length := h.built ▸ h.sound.suites _ hc
    rw [Change.slots_apply hthere, h.slots t ht, History.current_append]

theorem clone (h : Holds b w tables) {t : Handle} (ht : t ∈ b.suites) :
    Holds { b with suites := b.suites ++ [t] } { w with suites := w.suites ++ [t] } tables where
  sound := h.sound.clone ht
  built := h.built
  suites := by simp [h.suites]
  contexts := h.contexts
  slots := by
    intro u hu
    rcases List.mem_append.mp hu with hold | hnew
    · exact h.slots u hold
    · exact List.mem_singleton.mp hnew ▸ h.slots t ht

theorem create (h : Holds b w tables) {t : Handle} (ht : t ∈ b.suites) (slot : Slot) :
    Holds { b with contexts := b.contexts ++ [(t, slot)] }
      { w with contexts := w.contexts ++ [contextOf t slot] } tables where
  sound := h.sound.create ht slot
  built := h.built
  suites := h.suites
  contexts := by simp [h.contexts]
  slots := h.slots

variable {t : Handle} {slot : Slot} {n : Nat}

theorem context (h : Holds b w tables) (hn : b.contexts[n]? = some (t, slot)) :
    w.contexts[n]? = some (contextOf t slot) := by
  rw [h.contexts, List.getElem?_map, hn, Option.map_some]

/-- A context is what it was before the request. -/
theorem step_use (h : Holds b w μ.mocks) (hn : b.contexts[n]? = some (t, slot)) {request : Request}
    {reply : Reply} {ν : Machine κ}
    (huse : ((contextOf t slot).use request).runFrom μ = ((reply, contextOf t slot), ν)) :
    (w.step (.use n request)).runFrom μ = ((some reply, w), ν) := by
  have hcontext := h.context hn
  have hsame : w.contexts.set n (contextOf t slot) = w.contexts := by
    obtain ⟨hlt, heq⟩ := List.getElem?_eq_some_iff.mp hcontext
    rw [← heq, List.set_getElem_self]
  simp only [World.step, hcontext, Action.runFrom_bind, huse, hsame, Action.runFrom_pure]

theorem step_request (h : Holds b w μ.mocks) (hn : b.contexts[n]? = some (t, slot)) {request : Request}
    {op : Operation} (hop : operation slot request = some op) :
    (w.step (.use n request)).runFrom μ =
      ((some (request.answer slot op (b.current t op)), w), { μ with mocks :=
        ⟨μ.mocks.tables, μ.mocks.calls ++ request.reached slot t op (b.current t op)⟩ }) := by
  rw [← h.slots t (h.sound.contexts _ (List.mem_of_getElem? hn))]
  exact h.step_use hn (use_eq hop μ)

/-- One step is answered as its past tells, and does what the history takes it for. -/
theorem step (h : Holds b w μ.mocks) (s : Step κ) :
    ((w.step s).runFrom μ).1.1 = (b.expected s).1 ∧
    ((w.step s).runFrom μ).2.mocks.calls = μ.mocks.calls ++ (b.expected s).2 ∧
    Holds (b.after s) ((w.step s).runFrom μ).1.2 ((w.step s).runFrom μ).2.mocks := by
  have hsuite (i : Nat) : w.suites[i]? = b.suites[i]? := by rw [h.suites]
  have hcalls := (List.append_nil μ.mocks.calls).symm
  cases s with
  | build c =>
    cases hc : c.suite with
    | veloV1 =>
      obtain ⟨u, hw⟩ := World.runFrom_build_veloV1 (w := w) (μ := μ) hc
      rw [hw]
      exact ⟨rfl, hcalls, by simpa [History.after, hc] using h.registry u⟩
    | mock =>
      obtain ⟨u, hw⟩ := World.runFrom_build (w := w) (μ := μ) hc
      rw [hw, h.built]
      exact ⟨rfl, hcalls, by simpa [History.after, hc] using h.grow u⟩
  | clone i =>
    refine ⟨rfl, hcalls, ?_⟩
    cases hi : b.suites[i]? with
    | none => simpa [History.after, World.step, hsuite, hi] using h
    | some t => simpa [History.after, World.step, hsuite, hi] using h.clone (List.mem_of_getElem? hi)
  | install i op f =>
    cases hi : b.suites[i]? with
    | none => simpa [History.after, World.step, hsuite, hi, History.expected] using h
    | some t =>
      rw [World.runFrom_install ((hsuite i).trans hi)]
      exact ⟨rfl, hcalls, by simpa [History.after, hi] using h.change (List.mem_of_getElem? hi)⟩
  | clear i =>
    cases hi : b.suites[i]? with
    | none => simpa [History.after, World.step, hsuite, hi, History.expected] using h
    | some t =>
      rw [World.runFrom_clear ((hsuite i).trans hi)]
      exact ⟨rfl, hcalls, by simpa [History.after, hi] using h.change (List.mem_of_getElem? hi)⟩
  | create i slot key d =>
    cases hi : b.suites[i]? with
    | none => simpa [History.after, World.step, hsuite, hi, History.expected] using h
    | some t =>
      rw [World.runFrom_create ((hsuite i).trans hi)]
      exact ⟨rfl, hcalls, by simpa [History.after, hi] using h.create (List.mem_of_getElem? hi) slot⟩
  | use n request =>
    cases hn : b.contexts[n]? with
    | none =>
      have hcontext : w.contexts[n]? = none := by rw [h.contexts, List.getElem?_map, hn, Option.map_none]
      simpa [World.step, hcontext, History.expected, History.after, hn] using h
    | some p =>
      cases hop : operation p.2 request with
      | none =>
        rw [h.step_use hn (use_idle hop p.1 μ)]
        simp only [History.expected, hn, hop]
        exact ⟨trivial, hcalls, h⟩
      | some op =>
        rw [h.step_request hn hop]
        simp only [History.expected, hn, hop]
        exact ⟨trivial, trivial, ⟨h.sound, h.built, h.suites, h.contexts, h.slots⟩⟩
  | elsewhere x hx =>
    have hkept : ((w.step (.elsewhere x hx)).runFrom μ).2.mocks = μ.mocks := hx μ
    rw [hkept]
    exact ⟨rfl, hcalls, h⟩

theorem run (h : Holds b w μ.mocks) (steps : List (Step κ)) :
    ((w.run steps).runFrom μ).1.1 = (b.expectedRun steps).map Prod.fst ∧
    ((w.run steps).runFrom μ).2.mocks.calls =
      μ.mocks.calls ++ ((b.expectedRun steps).map Prod.snd).flatten ∧
    Holds (steps.foldl History.after b) ((w.run steps).runFrom μ).1.2
      ((w.run steps).runFrom μ).2.mocks := by
  induction steps generalizing b w μ with
  | nil => exact ⟨rfl, (List.append_nil _).symm, h⟩
  | cons s steps ih =>
    obtain ⟨hreply, hcalls, hnext⟩ := h.step s
    obtain ⟨hreplies, hrest, hend⟩ := ih hnext
    refine ⟨?_, ?_, hend⟩
    · exact congrArg₂ List.cons hreply hreplies
    · refine hrest.trans ?_
      rw [hcalls, List.append_assoc]
      rfl

end Holds

namespace World

/-- What a program that begins with a registry only has come to after its steps. -/
def after (registry : Registry) (μ : Machine κ) (steps : List (Step κ)) : World κ × Machine κ :=
  let r := (World.run ⟨registry, [], []⟩ steps).runFrom μ
  (r.1.2, r.2)

/-- What it is answered by if it makes a request then. -/
def reply (registry : Registry) (μ : Machine κ) (steps : List (Step κ)) (n : Nat) (request : Request) :
    Option Reply :=
  let (w, ν) := after registry μ steps
  ((w.step (.use n request)).runFrom ν).1.1

variable {registry : Registry} {steps : List (Step κ)} {t : Handle} {slot : Slot} {request : Request}
  {op : Operation} {n : Nat}

end World

end CryptoSuite.Mock
