import CryptoSuite.Error
import CryptoSuite.Bytes
import CryptoSuite.Mock.Operation

/-! Slot tables of test doubles: one optional handler per operation, and the record of the
calls that reached a handler. -/
namespace CryptoSuite.Mock

inductive Argument
  | bytes (content : Bytes)
  | number (value : Nat)
  deriving DecidableEq, Repr

/-- A call as its handler sees it: the read-only arguments, the writable slices with their
content before the call, and the output offset if the operation has one. -/
structure Call where
  inputs : List Argument
  outputs : List Bytes
  offset : Option Nat
  deriving DecidableEq, Repr

structure Reply where
  status : Status
  outputs : List Bytes
  offset : Option Nat

abbrev Handler := Call → Reply

/-- The content of a slice after `written` was stored at its beginning. The length of a slice is
its caller's. -/
def fill (slice written : Bytes) : Bytes :=
  written.take slice.length ++ slice.drop written.length

@[simp] theorem length_fill (slice written : Bytes) : (fill slice written).length = slice.length := by
  simp [fill]
  omega

/-- The slices of a call after a handler replied; slices it did not mention are untouched. -/
def fillAll : List Bytes → List Bytes → List Bytes
  | slice :: slices, written :: rest => fill slice written :: fillAll slices rest
  | slices, _ => slices

/-- A handler can write within its slices only, and sets an offset only where there is one. -/
def Reply.fit (r : Reply) (c : Call) : Reply :=
  ⟨r.status, fillAll c.outputs r.outputs, c.offset.map fun before => r.offset.getD before⟩

abbrev Slots := Operation → Option Handler

def Slots.empty : Slots := fun _ => none

def Slots.install (s : Slots) (op : Operation) (f : Handler) : Slots :=
  fun o => if o = op then some f else s o

@[simp] theorem Slots.install_self (s : Slots) (op : Operation) (f : Handler) :
    s.install op f op = some f := by simp [install]

theorem Slots.install_ne {s : Slots} {op o : Operation} (f : Handler) (h : o ≠ op) :
    s.install op f o = s o := by simp [install, h]

/-- The identity of a slot table. Every copy of it denotes the same table. -/
structure Handle where
  index : Nat
  deriving DecidableEq, Repr

structure Invocation where
  table : Handle
  operation : Operation
  call : Call
  deriving DecidableEq, Repr

/-- All slot tables of a session and the calls that reached a handler, oldest first. -/
structure Tables where
  tables : List Slots
  calls : List Invocation

namespace Tables

def empty : Tables := ⟨[], []⟩

/-- The slots of a table; a handle that denotes no table has none installed. -/
def slots (t : Tables) (h : Handle) : Slots := t.tables.getD h.index Slots.empty

def create (t : Tables) : Handle × Tables :=
  (⟨t.tables.length⟩, { t with tables := t.tables ++ [Slots.empty] })

def install (t : Tables) (h : Handle) (op : Operation) (f : Handler) : Tables :=
  { t with tables := t.tables.modify h.index fun s => s.install op f }

def clear (t : Tables) (h : Handle) : Tables :=
  { t with tables := t.tables.set h.index Slots.empty }

/-- Forwards a call to the handler in the operation's slot. Without one, the call fails with the
operation's name and nothing is written or recorded. -/
def dispatch (t : Tables) (h : Handle) (op : Operation) (c : Call) : Reply × Tables :=
  match t.slots h op with
  | none => (⟨.error (.mockNotAdded op.name), c.outputs, c.offset⟩, t)
  | some f => ((f c).fit c, { t with calls := t.calls ++ [⟨h, op, c⟩] })

end Tables

end CryptoSuite.Mock
