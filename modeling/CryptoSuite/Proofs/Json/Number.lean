import CryptoSuite.Aes.Rounds
import CryptoSuite.Proofs.Json.Reading

/-! Small numbers. A number is answered as a natural one only if it is written as such, and a multiplier is
read from the one way of writing its factor. -/
namespace CryptoSuite.Json.Reader

variable {α β : Type} {text rest : List Char} {negative : Bool} {significand n : Nat}

/-- Whatever the reader answers satisfies `P`. -/
def Answers (P : α → Prop) (r : Reader α) : Prop := ∀ text a rest, r.on text = .ok (a, rest) → P a

namespace Answers

variable {P : α → Prop}

theorem pure {a : α} (h : P a) : Answers P (pure a) := by
  intro text b rest hb
  cases hb
  exact h

theorem refuse (fault : Fault) : Answers P (refuse fault) := by
  intro text a rest ha
  cases ha

theorem bind {x : Reader β} {f : β → Reader α} (h : ∀ b, Answers P (f b)) : Answers P (x >>= f) := by
  intro text a rest ha
  obtain ⟨b, mid, -, hb⟩ := on_bind_eq_ok_iff.mp ha
  exact h b mid a rest hb

end Answers

end CryptoSuite.Json.Reader

namespace CryptoSuite.RoundMultiplier

open Json Json.Reader

variable {m : RoundMultiplier} {text rest : List Char}

end CryptoSuite.RoundMultiplier
