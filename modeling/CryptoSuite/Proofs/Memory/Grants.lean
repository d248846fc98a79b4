import CryptoSuite.Proofs.Machine

/-! Allocators that serve what is asked of them, and the storage that a served request yields. -/
namespace CryptoSuite

/-- A policy serves the requests from number `n` on, of the given sizes in turn, each with a
region of the size asked for. -/
def Serves (policy : Nat → Nat → Option Nat) : Nat → List Nat → Prop
  | _, [] => True
  | n, size :: rest => policy n size = some size ∧ Serves policy (n + 1) rest

/-- The next requests, of the given sizes, are served. -/
def Machine.Grants {κ : Type} (μ : Machine κ) (sizes : List Nat) : Prop :=
  Serves μ.heap.policy μ.heap.requests.length sizes

variable {κ : Type}

namespace Machine

def requested (μ : Machine κ) (size : Nat) : Machine κ := { μ with heap := (μ.heap.request size).2 }

theorem Grants.head {μ : Machine κ} {size : Nat} {rest : List Nat} (h : μ.Grants (size :: rest)) :
    μ.heap.policy μ.heap.requests.length size = some size := h.1

theorem Grants.tail {μ : Machine κ} {size : Nat} {rest : List Nat} (h : μ.Grants (size :: rest)) :
    (μ.requested size).Grants rest := by
  simpa only [Grants, requested, Heap.request_policy, Heap.request_requests, List.length_append,
    List.length_singleton] using h.2

/-- Giving back a region does not change what the allocator will serve. -/
theorem Grants.giveBack {μ : Machine κ} {sizes : List Nat} (h : μ.Grants sizes) (r : Region) :
    Grants { μ with heap := μ.heap.giveBack r } sizes := h

end Machine

theorem serves_systemPolicy (n : Nat) {sizes : List Nat} (h : ∀ size ∈ sizes, size < 1 <<< 47) :
    Serves Heap.systemPolicy n sizes := by
  induction sizes generalizing n with
  | nil => trivial
  | cons size rest ih =>
    refine ⟨?_, ih (n + 1) fun s hs => h s (List.mem_cons_of_mem size hs)⟩
    exact if_pos (h size List.mem_cons_self)

/-- A machine with the system allocator, on which nothing has happened yet. -/
def Machine.system : Machine Unit := ⟨Heap.system, Mock.Tables.empty, ⟨fun _ => 0, 0⟩, ()⟩

theorem Machine.system_grants {sizes : List Nat} (h : ∀ size ∈ sizes, size < 1 <<< 47) :
    Machine.system.Grants sizes := serves_systemPolicy 0 h

namespace Buffer

/-- What a served request yields: a zeroed buffer named after the request. -/
def served (μ : Machine κ) (size : Nat) : Buffer := ⟨⟨μ.heap.requests.length, Bytes.zeros size⟩⟩

@[simp] theorem bytes_served (μ : Machine κ) (size : Nat) :
    (served μ size).bytes = Bytes.zeros size := rfl

theorem runFrom_new_served {μ : Machine κ} {size : Nat} (hs : 0 < size)
    (h : μ.heap.policy μ.heap.requests.length size = some size) :
    (new size).runFrom μ = (.ok (served μ size), μ.requested size) := by
  have hz : size ≠ 0 := by omega
  simp only [new, hz, ↓reduceIte]
  rw [Fallible.runFrom_bind_ok (Fallible.runFrom_perform _ μ)]
  simp only [Action.runFrom_onHeap, Heap.request, h, Bytes.length_zeros, ↓reduceIte,
    Fallible.runFrom_pure]
  simp only [served, Machine.requested, Heap.request, h]

theorem of_runFrom_new {μ ν : Machine κ} {size : Nat} {b : Buffer}
    (h : (new size).runFrom μ = (.ok b, ν)) :
    0 < size ∧ μ.heap.policy μ.heap.requests.length size = some size ∧
      b = served μ size ∧ ν = μ.requested size := by
  have hs : 0 < size := by
    refine Nat.pos_of_ne_zero fun hz => ?_
    rw [new, if_pos hz, Fallible.runFrom_bind, Fallible.runFrom_throw] at h
    cases h
  have hp : μ.heap.policy μ.heap.requests.length size = some size := by
    have hz : size ≠ 0 := by omega
    simp only [new, hz, ↓reduceIte] at h
    rw [Fallible.runFrom_bind_ok (Fallible.runFrom_perform _ μ)] at h
    cases hg : μ.heap.policy μ.heap.requests.length size with
    | none => simp [Heap.request, hg] at h
    | some granted =>
      by_cases he : granted = size
      · rw [he]
      · simp [Heap.request, hg, he, Fallible.runFrom_bind] at h
  rw [runFrom_new_served hs hp] at h
  cases h
  exact ⟨hs, hp, rfl, rfl⟩

theorem length_of_runFrom_new {μ ν : Machine κ} {size : Nat} {b : Buffer}
    (h : (new size).runFrom μ = (.ok b, ν)) : b.bytes.length = size := by
  obtain ⟨-, -, rfl, -⟩ := of_runFrom_new h
  rw [bytes_served, Bytes.length_zeros]

theorem runFrom_newFor_served {μ : Machine κ} {size : Nat} (c : Component) (hs : 0 < size)
    (h : μ.heap.policy μ.heap.requests.length size = some size) :
    (newFor c size).runFrom μ = (.ok (served μ size), μ.requested size) :=
  Fallible.runFrom_adapt_ok (runFrom_new_served hs h)

theorem of_runFrom_newFor {μ ν : Machine κ} {c : Component} {size : Nat} {b : Buffer}
    (h : (newFor c size).runFrom μ = (.ok b, ν)) : b = served μ size ∧ ν = μ.requested size :=
  (of_runFrom_new (Fallible.of_runFrom_adapt h)).2.2

end Buffer

end CryptoSuite
