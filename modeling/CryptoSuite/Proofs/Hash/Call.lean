import CryptoSuite.Hash.Algorithm
import CryptoSuite.Proofs.Session

/-! Calls on a computation of a hash function as data, and the message that the caller of a session
knows to be absorbed. -/
namespace CryptoSuite.Hash

inductive Call
  | digest (data : Bytes)
  | finalize (out : Bytes)
  | reset
  deriving DecidableEq, Repr

def Call.data : Call → Bytes
  | .digest data => data
  | .finalize _ => []
  | .reset => []

structure Answer where
  status : Status
  out : Bytes
  deriving Repr

/-- The message after a call, as its outcome shows it. A call that fails changes nothing, and a
digest that was delivered ends its message. -/
def follow (message : Bytes) (call : Call) (answer : Answer) : Bytes :=
  match answer.status, call with
  | .error _, _ => message
  | .ok _, .digest data => message ++ data
  | .ok _, .finalize _ => []
  | .ok _, .reset => []

/-- What a session has absorbed since it began, was last reset or last delivered a digest. -/
def absorbed (calls : List Call) (answers : List Answer) : Bytes :=
  Session.known follow [] calls answers

variable {κ σ : Type}

def Context.call (c : Context κ σ) : Call → Action κ (Answer × Context κ σ)
  | .digest data => do
    let (status, c) ← c.digest data
    pure (⟨status, []⟩, c)
  | .finalize out => do
    let (status, out, c) ← c.finalize out
    pure (⟨status, out⟩, c)
  | .reset => pure (⟨.ok (), []⟩, c.reset)

def Context.session (c : Context κ σ) (calls : List Call) : Action κ (List Answer × Context κ σ) :=
  Session.run call c calls

namespace Algorithm

variable {a : Algorithm κ σ} {μ ν : Machine κ}

theorem runFrom_init {s : σ} (h : a.create.runFrom μ = (.ok s, ν)) :
    a.init.runFrom μ = (.ok ⟨a, s⟩, ν) := by
  rw [init, Fallible.runFrom_bind_ok h, Fallible.runFrom_pure]

theorem of_runFrom_init {c : Context κ σ} (h : a.init.runFrom μ = (.ok c, ν)) :
    ∃ s, a.create.runFrom μ = (.ok s, ν) ∧ c = ⟨a, s⟩ :=
  Fallible.of_runFrom_bind_pure h

end Algorithm

end CryptoSuite.Hash
