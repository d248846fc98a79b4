import CryptoSuite.StreamCipher.Algorithm
import CryptoSuite.Proofs.Session

/-! Calls on a stream context as data, so that sessions are lists of calls. -/
namespace CryptoSuite.StreamCipher

inductive Call
  | startEncryption (iv : Bytes) (out : Cursor)
  | startDecryption (input : Bytes) (offset : Nat)
  | continueEncryption (iv : Bytes) (position : UInt64)
  | continueDecryption (iv : Bytes) (position : UInt64)
  | encrypt (input : Bytes) (out : Cursor)
  | decrypt (input : Bytes) (out : Cursor)
  deriving DecidableEq, Repr

/-- A call that puts `input` through the stream and into `out`. -/
def Call.Processes (input : Bytes) (out : Cursor) (call : Call) : Prop :=
  call = .encrypt input out ∨ call = .decrypt input out

structure Answer where
  status : Status
  out : Cursor
  deriving Repr

variable {κ σ : Type}

def Context.call (c : Context κ σ) : Call → Action κ (Answer × Context κ σ)
  | .startEncryption iv out => do
    let (status, out, c) ← c.startEncryption iv out
    pure (⟨status, out⟩, c)
  | .startDecryption input offset => do
    let (status, offset, c) ← c.startDecryption input offset
    pure (⟨status, ⟨[], offset⟩⟩, c)
  | .continueEncryption iv position => do
    let (status, c) ← c.continueEncryption iv position
    pure (⟨status, ⟨[], 0⟩⟩, c)
  | .continueDecryption iv position => do
    let (status, c) ← c.continueDecryption iv position
    pure (⟨status, ⟨[], 0⟩⟩, c)
  | .encrypt input out => do
    let (status, out, c) ← c.encrypt input out
    pure (⟨status, out⟩, c)
  | .decrypt input out => do
    let (status, out, c) ← c.decrypt input out
    pure (⟨status, out⟩, c)

def Context.session (c : Context κ σ) (calls : List Call) : Action κ (List Answer × Context κ σ) :=
  Session.run call c calls

/-- Puts pieces through the stream in order, all into one output at one offset, up to the first that
is refused. -/
def Context.feed (direction : Bytes → Cursor → Call) :
    Context κ σ → List Bytes → Cursor → Action κ (Answer × Context κ σ)
  | c, [], out => pure (⟨.ok (), out⟩, c)
  | c, piece :: pieces, out => do
    let (answer, c) ← c.call (direction piece out)
    match answer.status with
    | .error _ => pure (answer, c)
    | .ok _ => feed direction c pieces answer.out

/-- Begins a stream under a vector and encrypts pieces into the output behind the vector. -/
def Context.send (c : Context κ σ) (iv : Bytes) (pieces : List Bytes) (out : Cursor) :
    Action κ (Answer × Context κ σ) := do
  let (answer, c) ← c.call (.startEncryption iv out)
  match answer.status with
  | .error _ => pure (answer, c)
  | .ok _ => feed .encrypt c pieces answer.out

namespace Algorithm

variable {a : Algorithm κ σ} {key : Bytes} {μ ν : Machine κ}

theorem runFrom_init {s : σ} (h : (a.create key).runFrom μ = (.ok s, ν)) :
    (a.init key).runFrom μ = (.ok ⟨a, s⟩, ν) := by
  rw [init, Fallible.runFrom_bind_ok h, Fallible.runFrom_pure]

theorem of_runFrom_init {c : Context κ σ} (h : (a.init key).runFrom μ = (.ok c, ν)) :
    ∃ s, (a.create key).runFrom μ = (.ok s, ν) ∧ c = ⟨a, s⟩ :=
  Fallible.of_runFrom_bind_pure h

end Algorithm

end CryptoSuite.StreamCipher
