import CryptoSuite.Proofs.Mock.Request
import CryptoSuite.Proofs.Session

/-! What is known of a program that works with test doubles from the steps that it took: which handler is
in which slot, and what a request is answered by. -/
namespace CryptoSuite.Mock

/-- A step of a program. Suites and contexts are named by their place among those that it holds. -/
inductive Step (κ : Type)
  | build (c : Config)
  | clone (suite : Nat)
  | install (suite : Nat) (op : Operation) (f : Handler)
  | clear (suite : Nat)
  | create (suite : Nat) (slot : Slot) (key : Bytes) (direction : BlockCipher.Direction)
  | use (context : Nat) (request : Request)
  /-- Anything that has nothing to do with test doubles, such as asking for memory. -/
  | elsewhere (x : Action κ Unit) (h : ∀ μ, (x.runFrom μ).2.mocks = μ.mocks)

variable {κ : Type}

/-- What is done to the slots of a table. -/
inductive Change
  | install (t : Handle) (op : Operation) (f : Handler)
  | clear (t : Handle)

namespace Change

def table : Change → Handle
  | install t _ _ => t
  | clear t => t

/-- What a change leaves in a slot, if it is about that slot. -/
def on (t : Handle) (op : Operation) : Change → Option (Option Handler)
  | install t' op' f => if t' = t ∧ op' = op then some (some f) else none
  | clear t' => if t' = t then some none else none

end Change

/-- What is known of a program from its steps: how many tables there are, which table each suite stands
for, which table and capability each context is of, and what was done to the slots. -/
structure History where
  built : Nat
  suites : List Handle
  contexts : List (Handle × Slot)
  changes : List Change

namespace History

def after (b : History) : Step κ → History
  | .build c =>
    if c.suite = .mock then { b with built := b.built + 1, suites := b.suites ++ [⟨b.built⟩] } else b
  | .clone i => { b with suites := b.suites ++ b.suites[i]?.toList }
  | .install i op f => { b with changes := b.changes ++ (b.suites[i]?.map (.install · op f)).toList }
  | .clear i => { b with changes := b.changes ++ (b.suites[i]?.map .clear).toList }
  | .create i slot _ _ => { b with contexts := b.contexts ++ (b.suites[i]?.map (·, slot)).toList }
  | .use _ _ => b
  | .elsewhere _ _ => b

/-- The history of a program that begins where there are some tables already. -/
def of (tables : Tables) (steps : List (Step κ)) : History :=
  steps.foldl after ⟨tables.tables.length, [], [], []⟩

/-- What was done to a slot, oldest first: a handler that was installed, or none where it was cleared. -/
def past (b : History) (t : Handle) (op : Operation) : List (Option Handler) :=
  b.changes.filterMap (Change.on t op)

/-- The handler that was installed last in a slot since it was last cleared. -/
def current (b : History) (t : Handle) (op : Operation) : Option Handler := (b.past t op).getLast?.join

/-- The answer to the next step, and the calls that handlers get for it. -/
def expected (b : History) : Step κ → Option Reply × List Invocation
  | .use n request =>
    match b.contexts[n]? with
    | none => (none, [])
    | some (t, slot) =>
      match operation slot request with
      | none => (some ⟨.ok (), [], none⟩, [])
      | some op =>
        let handler := b.current t op
        (some (request.answer slot op handler), request.reached slot t op handler)
  | _ => (none, [])

/-- The same for a whole program. -/
def expectedRun (b : History) (steps : List (Step κ)) : List (Option Reply × List Invocation) :=
  (Session.trace (fun b s => (b.expected s, b.after s)) b steps).1

end History

namespace Change

variable {c : Change} {t : Handle} {op : Operation}

theorem on_eq_none (h : c.table ≠ t) : c.on t op = none := by
  cases c <;> simp_all [on, table]

end Change

namespace History

variable {b : History} {t : Handle} {op : Operation}

theorem past_append (b : History) (c : Change) (t : Handle) (op : Operation) :
    { b with changes := b.changes ++ [c] }.past t op = b.past t op ++ (c.on t op).toList := by
  unfold past
  rw [List.filterMap_append]
  cases hc : c.on t op <;> simp [hc]

theorem current_append (b : History) (c : Change) (t : Handle) (op : Operation) :
    { b with changes := b.changes ++ [c] }.current t op = (c.on t op).getD (b.current t op) := by
  rw [current, past_append, current]
  cases c.on t op <;> simp

variable {i n : Nat} {s : Step κ}

/-- What a history speaks of is there. -/
structure Sound (b : History) : Prop where
  suites : ∀ t ∈ b.suites, t.index < b.built
  contexts : ∀ p ∈ b.contexts, p.1 ∈ b.suites
  changes : ∀ c ∈ b.changes, c.table ∈ b.suites

namespace Sound

/-- The next table is no suite's. -/
theorem fresh (h : b.Sound) : ⟨b.built⟩ ∉ b.suites :=
  fun hmem => Nat.lt_irrefl _ (h.suites _ hmem)

theorem current_fresh (h : b.Sound) (op : Operation) : b.current ⟨b.built⟩ op = none := by
  have hnone : b.past ⟨b.built⟩ op = [] := by
    rw [past, List.filterMap_eq_nil_iff]
    intro c hc
    apply Change.on_eq_none
    intro hsame
    exact h.fresh (hsame ▸ h.changes c hc)
  rw [current, hnone]
  rfl

theorem grow (h : b.Sound) :
    Sound { b with built := b.built + 1, suites := b.suites ++ [⟨b.built⟩] } where
  suites t ht := by
    rcases List.mem_append.mp ht with hold | hnew
    · exact Nat.lt_succ_of_lt (h.suites t hold)
    · cases List.mem_singleton.mp hnew
      exact Nat.lt_succ_self _
  contexts p hp := List.mem_append_left _ (h.contexts p hp)
  changes c hc := List.mem_append_left _ (h.changes c hc)

theorem clone (h : b.Sound) (ht : t ∈ b.suites) : Sound { b with suites := b.suites ++ [t] } where
  suites u hu := by
    rcases List.mem_append.mp hu with hold | hnew
    · exact h.suites u hold
    · exact List.mem_singleton.mp hnew ▸ h.suites t ht
  contexts p hp := List.mem_append_left _ (h.contexts p hp)
  changes c hc := List.mem_append_left _ (h.changes c hc)

theorem create (h : b.Sound) (ht : t ∈ b.suites) (slot : Slot) :
    Sound { b with contexts := b.contexts ++ [(t, slot)] } where
  suites := h.suites
  contexts p hp := by
    rcases List.mem_append.mp hp with hold | hnew
    · exact h.contexts p hold
    · cases List.mem_singleton.mp hnew
      exact ht
  changes := h.changes

theorem change (h : b.Sound) {c : Change} (hc : c.table ∈ b.suites) :
    Sound { b with changes := b.changes ++ [c] } where
  suites := h.suites
  contexts := h.contexts
  changes c' hc' := by
    rcases List.mem_append.mp hc' with hold | hnew
    · exact h.changes c' hold
    · exact List.mem_singleton.mp hnew ▸ hc

end Sound

end History

end CryptoSuite.Mock
