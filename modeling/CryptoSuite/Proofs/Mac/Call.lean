import CryptoSuite.Mac.Algorithm
import CryptoSuite.Proofs.Session

/-! Calls on a keyed computation as data, and the message that the caller of a session knows to be
absorbed. -/
namespace CryptoSuite.Mac

inductive Call
  | digest (data : Bytes)
  | finalize (out : Bytes)
  deriving DecidableEq, Repr

def Call.data : Call → Bytes
  | .digest data => data
  | .finalize _ => []

structure Answer where
  status : Status
  out : Bytes
  deriving Repr

/-- The message after a call, as its outcome shows it. A call that fails changes nothing, and a code
that was delivered ends its message. -/
def follow (message : Bytes) (call : Call) (answer : Answer) : Bytes :=
  match answer.status, call with
  | .error _, _ => message
  | .ok _, .digest data => message ++ data
  | .ok _, .finalize _ => []

/-- What a session has absorbed since it began or last delivered a code. -/
def absorbed (calls : List Call) (answers : List Answer) : Bytes :=
  Session.known follow [] calls answers

variable {κ σ : Type}

def Context.call (c : Context κ σ) : Call → Action κ (Answer × Context κ σ)
  | .digest data => do
    let (status, c) ← c.digest data
    pure (⟨status, []⟩, c)
  | .finalize out => do
    let (status, out, c) ← c.finalize out
    pure (⟨status, out⟩, c)

theorem Context.runFrom_finalize {c : Context κ σ} {out out' : Bytes} {status : Status} {s : σ}
    {μ ν : Machine κ}
    (h : (c.algorithm.finalize c.state out).runFrom μ = ((status, out', s), ν)) :
    (c.finalize out).runFrom μ = ((status, out', { c with state := s }), ν) := by
  simp only [finalize, Action.runFrom_bind, h, Action.runFrom_pure]

def Context.session (c : Context κ σ) (calls : List Call) : Action κ (List Answer × Context κ σ) :=
  Session.run call c calls

namespace Algorithm

variable {a : Algorithm κ σ} {key : Bytes} {μ ν : Machine κ}

theorem runFrom_init {s : σ} (h : (a.create key).runFrom μ = (.ok s, ν)) :
    (a.init key).runFrom μ = (.ok ⟨a, s⟩, ν) := by
  rw [init, Fallible.runFrom_bind_ok h, Fallible.runFrom_pure]

theorem of_runFrom_init {c : Context κ σ} (h : (a.init key).runFrom μ = (.ok c, ν)) :
    ∃ s, (a.create key).runFrom μ = (.ok s, ν) ∧ c = ⟨a, s⟩ :=
  Fallible.of_runFrom_bind_pure h

end Algorithm

end CryptoSuite.Mac
