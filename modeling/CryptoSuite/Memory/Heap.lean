import CryptoSuite.Bytes

/-! The allocator of a session: which requests it serves, which regions are out, and in what
state each region came back. -/
namespace CryptoSuite

/-- A region of memory handed out by an allocator. Its identity is the number of the request
that it answered. -/
structure Region where
  id : Nat
  bytes : Bytes
  deriving DecidableEq, Repr

/-- `policy n size` is the size of the zeroed region handed out for request number `n`, or
`none` when that request is refused. A region of another size than requested is useless to the
requester. -/
structure Heap where
  policy : Nat → Nat → Option Nat
  /-- Sizes requested so far, oldest first. -/
  requests : List Nat
  /-- Identities of the regions handed out and not yet given back. -/
  live : List Nat
  /-- Regions given back so far, oldest first, as they were at that moment. -/
  released : List Region

namespace Heap

def start (policy : Nat → Nat → Option Nat) : Heap := ⟨policy, [], [], []⟩

/-- Serves every size below 2^47 bytes, which is the address space of one process. -/
def systemPolicy (_ size : Nat) : Option Nat := if size < 1 <<< 47 then some size else none

def system : Heap := start systemPolicy

def request (h : Heap) (size : Nat) : Option Region × Heap :=
  match h.policy h.requests.length size with
  | none => (none, { h with requests := h.requests ++ [size] })
  | some granted =>
      (some ⟨h.requests.length, Bytes.zeros granted⟩,
        { h with requests := h.requests ++ [size], live := h.requests.length :: h.live })

def giveBack (h : Heap) (r : Region) : Heap :=
  { h with live := h.live.erase r.id, released := h.released ++ [r] }

@[simp] theorem giveBack_live (h : Heap) (r : Region) :
    (h.giveBack r).live = h.live.erase r.id := rfl

@[simp] theorem giveBack_released (h : Heap) (r : Region) :
    (h.giveBack r).released = h.released ++ [r] := rfl

@[simp] theorem giveBack_requests (h : Heap) (r : Region) :
    (h.giveBack r).requests = h.requests := rfl

@[simp] theorem giveBack_policy (h : Heap) (r : Region) :
    (h.giveBack r).policy = h.policy := rfl

@[simp] theorem request_requests (h : Heap) (size : Nat) :
    (h.request size).2.requests = h.requests ++ [size] := by
  unfold request
  split <;> rfl

@[simp] theorem request_policy (h : Heap) (size : Nat) :
    (h.request size).2.policy = h.policy := by
  unfold request
  split <;> rfl

@[simp] theorem request_released (h : Heap) (size : Nat) :
    (h.request size).2.released = h.released := by
  unfold request
  split <;> rfl

end Heap

end CryptoSuite
