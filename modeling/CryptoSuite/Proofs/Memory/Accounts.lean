import CryptoSuite.Memory.Buffer
import Mathlib.Data.Multiset.MapFold
import Mathlib.Data.List.Nodup

/-! The accounts of an allocator: every region that was handed out is held by somebody or came back
once. Holders are known by the regions they hold, so the accounts do not depend on what the regions
are used for. -/
namespace CryptoSuite

/-- Regions by identity and size. -/
abbrev Holdings := Multiset (Nat × Nat)

def Region.extent (r : Region) : Nat × Nat := (r.id, r.bytes.length)

def Buffer.holding (b : Buffer) : Nat × Nat := b.region.extent

theorem Buffer.holding_setBytes {b : Buffer} {bytes : Bytes} (h : bytes.length = b.size) :
    (b.setBytes bytes).holding = b.holding := by
  simp only [holding, Region.extent, setBytes, h]
  rfl

theorem Holdings.coe_concat (l : List (Nat × Nat)) (x : Nat × Nat) :
    ((l ++ [x] : List (Nat × Nat)) : Holdings) = x ::ₘ (l : Holdings) :=
  Multiset.coe_eq_coe.mpr (List.perm_append_singleton x l)

namespace Heap

/-- The regions handed out so far, with the sizes in which they were. -/
def handedOut (h : Heap) : List (Nat × Nat) :=
  h.requests.zipIdx.filterMap fun x => (h.policy x.2 x.1).map (x.2, ·)

/-- The regions in `held` are those that are out, each as large as was asked for. Together with the
ones that came back they are all that was handed out, and what came back was zero. -/
structure Accounts (h : Heap) (held : Holdings) : Prop where
  live_eq : (h.live : Multiset Nat) = held.map Prod.fst
  conserved : held + (h.released.map Region.extent : List (Nat × Nat)) = (h.handedOut : Holdings)
  fitting : ∀ x ∈ held, h.requests[x.1]? = some x.2
  wiped : ∀ r ∈ h.released, r.bytes = Bytes.zeros r.bytes.length

variable {h : Heap} {held : Holdings} {size granted : Nat}

theorem mem_handedOut {x : Nat × Nat} :
    x ∈ h.handedOut ↔ ∃ size, h.requests[x.1]? = some size ∧ h.policy x.1 size = some x.2 := by
  simp only [handedOut, List.mem_filterMap, Prod.exists, List.mem_zipIdx_iff_getElem?,
    Option.map_eq_some_iff]
  constructor
  · rintro ⟨size, n, hr, granted, hp, rfl⟩
    exact ⟨size, hr, hp⟩
  · rintro ⟨size, hr, hp⟩
    exact ⟨size, x.1, hr, x.2, hp, rfl⟩

/-- No two regions have the same identity. -/
theorem nodup_handedOut (h : Heap) : (h.handedOut.map Prod.fst).Nodup := by
  have hs : (h.handedOut.map Prod.fst).Sublist (h.requests.zipIdx.map Prod.snd) := by
    unfold handedOut
    induction h.requests.zipIdx with
    | nil => simp
    | cons x rest ih =>
      simp only [List.filterMap_cons, List.map_cons]
      cases h.policy x.2 x.1 with
      | none => exact ih.cons x.2
      | some granted => exact ih.cons_cons x.2
  refine hs.nodup ?_
  rw [List.zipIdx_map_snd]
  exact List.nodup_range'

theorem handedOut_request (h : Heap) (size : Nat) : (h.request size).2.handedOut =
    h.handedOut ++ ((h.policy h.requests.length size).map (h.requests.length, ·)).toList := by
  simp only [handedOut, request_requests, request_policy, List.zipIdx_append, Nat.zero_add,
    List.filterMap_append, List.zipIdx_singleton, List.filterMap_cons, List.filterMap_nil]
  cases h.policy h.requests.length size <;> rfl

theorem request_of_none (hp : h.policy h.requests.length size = none) :
    h.request size = (none, { h with requests := h.requests ++ [size] }) := by
  rw [request, hp]

theorem request_of_some (hp : h.policy h.requests.length size = some granted) :
    h.request size = (some ⟨h.requests.length, Bytes.zeros granted⟩,
      { h with requests := h.requests ++ [size], live := h.requests.length :: h.live }) := by
  rw [request, hp]

namespace Accounts

theorem start (policy : Nat → Nat → Option Nat) : (Heap.start policy).Accounts 0 where
  live_eq := rfl
  conserved := rfl
  fitting := by simp
  wiped := by simp [Heap.start]

/-- An earlier request is still there after a later one. -/
theorem fitting_append (ha : h.Accounts held) (size : Nat) :
    ∀ x ∈ held, (h.requests ++ [size])[x.1]? = some x.2 := by
  intro x hx
  have hr := ha.fitting x hx
  obtain ⟨hlt, -⟩ := List.getElem?_eq_some_iff.mp hr
  rw [List.getElem?_append_left hlt, hr]

theorem refused (ha : h.Accounts held) (hp : h.policy h.requests.length size = none) :
    (h.request size).2.Accounts held where
  live_eq := by
    rw [request_of_none hp]
    exact ha.live_eq
  conserved := by
    rw [handedOut_request, hp, request_released]
    simpa using ha.conserved
  fitting := by
    rw [request_requests]
    exact ha.fitting_append size
  wiped := by
    rw [request_released]
    exact ha.wiped

/-- A region that was handed out joins what is held, whatever its size. -/
theorem conserved_request (ha : h.Accounts held)
    (hp : h.policy h.requests.length size = some granted) :
    (h.requests.length, granted) ::ₘ held +
      (h.released.map Region.extent : List (Nat × Nat)) = ((h.request size).2.handedOut : Holdings) := by
  rw [handedOut_request, hp, Option.map_some, Option.toList_some, Holdings.coe_concat, ← ha.conserved,
    Multiset.cons_add]

theorem served (ha : h.Accounts held) (hp : h.policy h.requests.length size = some size) :
    (h.request size).2.Accounts ((h.requests.length, size) ::ₘ held) where
  live_eq := by
    rw [request_of_some hp, Multiset.map_cons, ← ha.live_eq]
    rfl
  conserved := by
    rw [request_released]
    exact ha.conserved_request hp
  fitting := by
    rw [request_requests]
    intro x hx
    rcases Multiset.mem_cons.mp hx with rfl | hx
    · simp
    · exact ha.fitting_append size x hx
  wiped := by
    rw [request_released]
    exact ha.wiped

/-- A region that does not fit leaves no trace but its return. -/
theorem misfit (ha : h.Accounts held) (hp : h.policy h.requests.length size = some granted) :
    ((h.request size).2.giveBack ⟨h.requests.length, Bytes.zeros granted⟩).Accounts held where
  live_eq := by
    rw [giveBack_live, request_of_some hp]
    simpa using ha.live_eq
  conserved := by
    change _ = ((h.request size).2.handedOut : Holdings)
    rw [giveBack_released, request_released, ← ha.conserved_request hp]
    rw [List.map_append, List.map_singleton, Holdings.coe_concat, Multiset.add_cons, Multiset.cons_add,
      Region.extent, Bytes.length_zeros]
  fitting := by
    rw [giveBack_requests, request_requests]
    exact ha.fitting_append size
  wiped := by
    rw [giveBack_released, request_released]
    intro r hr
    rcases List.mem_append.mp hr with hr | hr
    · exact ha.wiped r hr
    · rw [List.mem_singleton.mp hr, Bytes.length_zeros]

/-- Whoever gives back a region, all zero, holds it no longer. -/
theorem giveBack {r : Region} (ha : h.Accounts (r.extent ::ₘ held))
    (hz : r.bytes = Bytes.zeros r.bytes.length) : (h.giveBack r).Accounts held where
  live_eq := by
    rw [giveBack_live, ← Multiset.coe_erase, ha.live_eq, Multiset.map_cons]
    exact Multiset.erase_cons_head _ _
  conserved := by
    change _ = (h.handedOut : Holdings)
    rw [giveBack_released, ← ha.conserved]
    rw [List.map_append, List.map_singleton, Holdings.coe_concat, Multiset.add_cons, Multiset.cons_add]
  fitting x hx := ha.fitting x (Multiset.mem_cons_of_mem hx)
  wiped := by
    rw [giveBack_released]
    intro r' hr
    rcases List.mem_append.mp hr with hr | hr
    · exact ha.wiped r' hr
    · rw [List.mem_singleton.mp hr]
      exact hz

/-- A region that was handed out is out or came back, and came back no more than once. -/
theorem count_eq_one (ha : h.Accounts held) {x : Nat × Nat} (hx : x ∈ h.handedOut) :
    h.live.count x.1 + (h.released.map Region.id).count x.1 = 1 := by
  have hids := congrArg (Multiset.map Prod.fst) ha.conserved
  rw [Multiset.map_add, ← ha.live_eq, Multiset.map_coe, Multiset.map_coe, List.map_map,
    Multiset.coe_add] at hids
  have hcount := congrArg (Multiset.count x.1) hids
  rw [Multiset.coe_count, Multiset.coe_count, List.count_append] at hcount
  refine hcount.trans ?_
  exact List.count_eq_one_of_mem h.nodup_handedOut (List.mem_map_of_mem hx)

theorem mem_handedOut_of_held (ha : h.Accounts held) {x : Nat × Nat} (hx : x ∈ held) :
    x ∈ h.handedOut := by
  rw [← Multiset.mem_coe, ← ha.conserved]
  exact Multiset.mem_add.mpr (.inl hx)

theorem mem_handedOut_of_released (ha : h.Accounts held) {r : Region} (hr : r ∈ h.released) :
    r.extent ∈ h.handedOut := by
  rw [← Multiset.mem_coe, ← ha.conserved]
  exact Multiset.mem_add.mpr (.inr (List.mem_map_of_mem hr))

/-- Only regions of the size that was asked for are out. -/
theorem fits_of_live (ha : h.Accounts held) {n size : Nat} (hn : n ∈ h.live)
    (hr : h.requests[n]? = some size) : h.policy n size = some size := by
  rw [← Multiset.mem_coe, ha.live_eq] at hn
  obtain ⟨⟨_, granted⟩, hx, rfl⟩ := Multiset.mem_map.mp hn
  have hfit := ha.fitting _ hx
  obtain ⟨asked, hasked, hp⟩ := Heap.mem_handedOut.mp (ha.mem_handedOut_of_held hx)
  rw [hr] at hfit hasked
  cases hfit
  cases hasked
  exact hp

theorem nodup_live (ha : h.Accounts held) : h.live.Nodup := by
  have hids := congrArg (Multiset.map Prod.fst) ha.conserved
  rw [Multiset.map_add, ← ha.live_eq, Multiset.map_coe, Multiset.map_coe, Multiset.coe_add] at hids
  have hnodup := (Multiset.coe_eq_coe.mp hids).nodup_iff.mpr h.nodup_handedOut
  exact hnodup.of_append_left

end Accounts

end Heap

end CryptoSuite
