import CryptoSuite.Memory.Heap
import CryptoSuite.Mock.Table
import CryptoSuite.Random.Entropy

/-! What operations act on besides their arguments: the allocator, the slot tables of test
doubles, the entropy source, and whatever state algorithms from outside the library keep. -/
namespace CryptoSuite

structure Machine (κ : Type) where
  heap : Heap
  mocks : Mock.Tables
  entropy : Entropy
  /-- State of algorithms that the library's user supplies. -/
  guest : κ

/-- A step on the machine that always completes. -/
abbrev Action (κ : Type) := StateM (Machine κ)

/-- A step on the machine that may fail; what it did before failing stays done. -/
abbrev Fallible (ε κ : Type) := ExceptT ε (Action κ)

abbrev Attempt (κ : Type) := Fallible CryptoError κ

namespace Action

variable {κ α : Type}

def onHeap (f : Heap → α × Heap) : Action κ α := fun m =>
  let (a, heap) := f m.heap
  (a, { m with heap })

def onMocks (f : Mock.Tables → α × Mock.Tables) : Action κ α := fun m =>
  let (a, mocks) := f m.mocks
  (a, { m with mocks })

def readEntropy (count : Nat) : Action κ Bytes := fun m =>
  let (bytes, entropy) := m.entropy.read count
  (bytes, { m with entropy })

def dispatch (h : Mock.Handle) (op : Mock.Operation) (c : Mock.Call) : Action κ Mock.Reply :=
  onMocks fun t => t.dispatch h op c

end Action

/-- A step that cannot fail, among steps that can. -/
def Fallible.perform {ε κ α : Type} (action : Action κ α) : Fallible ε κ α := ExceptT.lift action

/-- Runs `body`; when it fails, `cleanup` gives back what was acquired before it. -/
def Fallible.releasing {ε κ α : Type} (cleanup : Action κ Unit) (body : Fallible ε κ α) :
    Fallible ε κ α := ExceptT.mk do
  match ← body.run with
  | .ok a => pure (.ok a)
  | .error e => do
    cleanup
    pure (.error e)

namespace Attempt

variable {κ α : Type}

/-- Fails with the error of `status`, if it has one. -/
def require (status : Status) : Attempt κ Unit := ExceptT.mk (pure status)

/-- A step that reports its own outcome beside its answer, as one that may fail. -/
def checked (x : Action κ (Status × α)) : Attempt κ α := ExceptT.mk do
  match ← x with
  | (.ok _, a) => pure (.ok a)
  | (.error e, _) => pure (.error e)

/-- Reports refused memory against `c`. -/
def within (c : Component) (body : Attempt κ α) : Attempt κ α :=
  body.adapt (CryptoError.within c)

end Attempt

end CryptoSuite
