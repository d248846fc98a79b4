import CryptoSuite.Json.Value
import CryptoSuite.Proofs.Json.Token

/-! Readers set on a text, one equation for each way in which they are made, and what the reader of a name
takes off the front of a text. -/
namespace CryptoSuite.Json.Reader

variable {α β : Type} {text rest : List Char}

/-- The reader set on a text. What it leaves of the text stands beside its answer. -/
def on (r : Reader α) (text : List Char) : Except Fault (α × List Char) := r text

theorem on_bind_ok {x : Reader α} {f : α → Reader β} {mid : List Char} {a : α}
    (h : x.on text = .ok (a, mid)) : (x >>= f).on text = (f a).on mid := by
  rw [on] at h
  show (x text >>= fun r => f r.1 r.2) = _
  rw [h]
  rfl

/-- A composition that succeeds did so in both of its steps. -/
theorem on_bind_eq_ok_iff {x : Reader α} {f : α → Reader β} {b : β} :
    (x >>= f).on text = .ok (b, rest) ↔
      ∃ a mid, x.on text = .ok (a, mid) ∧ (f a).on mid = .ok (b, rest) := by
  constructor
  · intro h
    rcases hx : x.on text with e | ⟨a, mid⟩
    · rw [on] at hx
      have hbind : (x >>= f).on text = .error e := by
        show (x text >>= fun r => f r.1 r.2) = _
        rw [hx]
        rfl
      rw [hbind] at h
      cases h
    · rw [on_bind_ok hx] at h
      exact ⟨a, mid, rfl, h⟩
  · rintro ⟨a, mid, hx, h⟩
    rw [on_bind_ok hx, h]

/-- A name as a string, or as an object that maps it to nothing. -/
def nameTokens (name : String) : (keyed : Bool) → List Token
  | false => [.string name]
  | true => [.mark .openObject, .string name, .mark .colon, .null, .mark .closeObject]

end CryptoSuite.Json.Reader
