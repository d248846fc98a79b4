import CryptoSuite.Proofs.Mirror
import CryptoSuite.Proofs.StreamCipher.Call

/-! Two implementations of a stream cipher that go alike on the states which they reach, and with them the
contexts over them. -/
namespace CryptoSuite.StreamCipher

variable {κ σ : Type}

namespace Algorithm

/-- New states satisfy `Sound`, the operations keep it, and on such states `a` goes as `b`. No operation fails
but on its arguments or for want of memory. -/
structure Mirrors (a b : Algorithm κ σ) (Sound : σ → Prop) : Prop where
  create : ∀ key, Attempt.Mirrors (fun s s' => s = s' ∧ Sound s') (a.create key) (b.create key)
  startEncryption : ∀ s iv out, Sound s → Action.Mirrors
    (fun r r' => r = r' ∧ Status.Ordinary r'.1 ∧ Sound r'.2.2) (a.startEncryption s iv out)
    (b.startEncryption s iv out)
  startDecryption : ∀ s input offset, Sound s → Action.Mirrors
    (fun r r' => r = r' ∧ Status.Ordinary r'.1 ∧ Sound r'.2.2) (a.startDecryption s input offset)
    (b.startDecryption s input offset)
  continueEncryption : ∀ s iv position, Sound s → Action.Mirrors
    (fun r r' => r = r' ∧ Status.Ordinary r'.1 ∧ Sound r'.2) (a.continueEncryption s iv position)
    (b.continueEncryption s iv position)
  continueDecryption : ∀ s iv position, Sound s → Action.Mirrors
    (fun r r' => r = r' ∧ Status.Ordinary r'.1 ∧ Sound r'.2) (a.continueDecryption s iv position)
    (b.continueDecryption s iv position)
  encrypt : ∀ s input out, Sound s → Action.Mirrors
    (fun r r' => r = r' ∧ Status.Ordinary r'.1 ∧ Sound r'.2.2) (a.encrypt s input out) (b.encrypt s input out)
  decrypt : ∀ s input out, Sound s → Action.Mirrors
    (fun r r' => r = r' ∧ Status.Ordinary r'.1 ∧ Sound r'.2.2) (a.decrypt s input out) (b.decrypt s input out)
  release : ∀ s, a.release s = b.release s

end Algorithm

/-- One state under two implementations. -/
structure Paired (a b : Algorithm κ σ) (Sound : σ → Prop) (c c' : Context κ σ) : Prop where
  left : c = ⟨a, c'.state⟩
  right : c'.algorithm = b
  sound : Sound c'.state

namespace Algorithm.Mirrors

variable {a b : Algorithm κ σ} {Sound : σ → Prop} {c c' : Context κ σ}

theorem init (h : a.Mirrors b Sound) (key : Bytes) :
    Attempt.Mirrors (Paired a b Sound) (a.init key) (b.init key) := by
  apply (h.create key).bind
  rintro s _ ⟨rfl, hs⟩
  exact .pure ⟨rfl, rfl, hs⟩

theorem releaseContext (h : a.Mirrors b Sound) (hc : Paired a b Sound c c') :
    Action.Mirrors (fun _ _ => True) c.release c'.release := by
  obtain ⟨rfl, rfl, -⟩ := hc
  unfold Context.release
  rw [h.release]
  exact fun _ => ⟨rfl, trivial⟩

/-- An answer that is read off what the operations of both sides answer. -/
theorem answer {ρ : Type} {x y : Action κ ρ} (answer : ρ → Answer) (state : ρ → σ)
    (h : Action.Mirrors (fun r r' => r = r' ∧ Status.Ordinary (answer r').status ∧ Sound (state r')) x y) :
    Action.Mirrors (fun r r' => r.1 = r'.1 ∧ Status.Ordinary r'.1.status ∧ Paired a b Sound r.2 r'.2)
      (do let r ← x; pure (answer r, ⟨a, state r⟩)) (do let r ← y; pure (answer r, ⟨b, state r⟩)) := by
  apply h.bind
  rintro r _ ⟨rfl, hok, hs⟩
  exact .pure ⟨rfl, hok, rfl, rfl, hs⟩

theorem call (h : a.Mirrors b Sound) (hc : Paired a b Sound c c') (call : Call) :
    Action.Mirrors (fun r r' => r.1 = r'.1 ∧ Status.Ordinary r'.1.status ∧ Paired a b Sound r.2 r'.2)
      (c.call call) (c'.call call) := by
  obtain ⟨rfl, rfl, hs⟩ := hc
  cases call with
  | startEncryption iv out =>
    exact answer (fun r : Status × Cursor × σ => ⟨r.1, r.2.1⟩) (fun r => r.2.2)
      (h.startEncryption c'.state iv out hs)
  | startDecryption input offset =>
    exact answer (fun r : Status × Nat × σ => ⟨r.1, ⟨[], r.2.1⟩⟩) (fun r => r.2.2)
      (h.startDecryption c'.state input offset hs)
  | continueEncryption iv position =>
    exact answer (fun r : Status × σ => ⟨r.1, ⟨[], 0⟩⟩) Prod.snd (h.continueEncryption c'.state iv position hs)
  | continueDecryption iv position =>
    exact answer (fun r : Status × σ => ⟨r.1, ⟨[], 0⟩⟩) Prod.snd (h.continueDecryption c'.state iv position hs)
  | encrypt input out =>
    exact answer (fun r : Status × Cursor × σ => ⟨r.1, r.2.1⟩) (fun r => r.2.2)
      (h.encrypt c'.state input out hs)
  | decrypt input out =>
    exact answer (fun r : Status × Cursor × σ => ⟨r.1, r.2.1⟩) (fun r => r.2.2)
      (h.decrypt c'.state input out hs)

end Algorithm.Mirrors

end CryptoSuite.StreamCipher
