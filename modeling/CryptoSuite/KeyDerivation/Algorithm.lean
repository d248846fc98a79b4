import CryptoSuite.KeyDerivation.Pbkdf2
import CryptoSuite.Text.Record
import CryptoSuite.Text.Quoted

/-! Key derivation from passwords: what an algorithm provides, given a keyed algorithm to work
with. -/
namespace CryptoSuite.KeyDerivation

/-- A derivation works with any keyed algorithm, whatever the states of its computations. The
slice to be filled comes before the password, the salt and the number of rounds. -/
structure Algorithm (κ : Type) where
  name : String
  derive : {σ : Type} → Mac.Algorithm κ σ → Bytes → Bytes → Bytes → Nat →
    Action κ (Status × Bytes)

def pbkdf2 {κ : Type} : Algorithm κ where
  name := "PBKDF2"
  derive := Pbkdf2.derive

namespace Algorithm

variable {κ σ : Type}

/-- A derived key in a new buffer, which is requested first. -/
def deriveBuffer (a : Algorithm κ) (prf : Mac.Algorithm κ σ) (size : Nat) (password salt : Bytes)
    (rounds : Nat) : Attempt κ Buffer := do
  let key ← Buffer.new size
  let made ← Fallible.releasing key.release
    (Attempt.checked (a.derive prf key.bytes password salt rounds))
  pure (key.setBytes made)

/-- The names of the algorithm and of the keyed algorithm it works with. -/
def names (a : Algorithm κ) (prf : Mac.Algorithm κ σ) : List (String × String) :=
  [("algorithm", Text.quote a.name), ("prf", Text.quote prf.name)]

def text (a : Algorithm κ) (prf : Mac.Algorithm κ σ) : String :=
  Text.RecordText.render ⟨"KeyDerivationOptions", a.names prf, false⟩

def contextText (a : Algorithm κ) (prf : Mac.Algorithm κ σ) : String :=
  Text.RecordText.render ⟨"KeyDerivationContext", a.names prf, false⟩

end Algorithm

end CryptoSuite.KeyDerivation
