import CryptoSuite.BlockCipher.Algorithm
import CryptoSuite.Proofs.Session

/-! Calls on a block cipher context as data, so that sessions are lists of calls. -/
namespace CryptoSuite.BlockCipher

inductive Call
  | encrypt (iv input out : Bytes)
  | decrypt (iv input out : Bytes)
  deriving DecidableEq, Repr

structure Answer where
  status : Status
  out : Bytes
  deriving Repr

variable {κ σ : Type}

def Context.call (c : Context κ σ) : Call → Action κ (Answer × Context κ σ)
  | .encrypt iv input out => do
    let (status, out, c) ← c.encrypt iv input out
    pure (⟨status, out⟩, c)
  | .decrypt iv input out => do
    let (status, out, c) ← c.decrypt iv input out
    pure (⟨status, out⟩, c)

def Context.session (c : Context κ σ) (calls : List Call) : Action κ (List Answer × Context κ σ) :=
  Session.run call c calls

namespace Algorithm

variable {a : Algorithm κ σ} {key : Bytes} {d : Direction} {μ ν : Machine κ}

theorem runFrom_init {s : σ} (h : (a.create key d).runFrom μ = (.ok s, ν)) :
    (a.init key d).runFrom μ = (.ok ⟨a, s⟩, ν) := by
  rw [init, Fallible.runFrom_bind_ok h, Fallible.runFrom_pure]

theorem of_runFrom_init {c : Context κ σ} (h : (a.init key d).runFrom μ = (.ok c, ν)) :
    ∃ s, (a.create key d).runFrom μ = (.ok s, ν) ∧ c = ⟨a, s⟩ :=
  Fallible.of_runFrom_bind_pure h

end Algorithm

end CryptoSuite.BlockCipher
