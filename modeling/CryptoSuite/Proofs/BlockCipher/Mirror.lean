import CryptoSuite.Proofs.BlockCipher.Call
import CryptoSuite.Proofs.Mirror

/-! Two implementations of a block cipher that go alike on the states which they reach, and with them the
contexts over them. Contexts pass on only blocks, so that nothing is asked about other lengths. -/
namespace CryptoSuite.BlockCipher

variable {κ σ : Type}

namespace Algorithm

/-- New states satisfy `Sound`, the operations keep it, and on such states `a` goes as `b` where the output is
one block. No operation fails but on its arguments or for want of memory. -/
structure Mirrors (a b : Algorithm κ σ) (Sound : σ → Prop) : Prop where
  ivSize_eq : a.ivSize = b.ivSize
  blockSize_eq : a.blockSize = b.blockSize
  create : ∀ key d, Attempt.Mirrors (fun s s' => s = s' ∧ Sound s') (a.create key d) (b.create key d)
  encrypt : ∀ s iv input out, Sound s → out.length = b.blockSize → Action.Mirrors
    (fun r r' => r = r' ∧ Status.Ordinary r'.1 ∧ Sound r'.2.2) (a.encrypt s iv input out)
    (b.encrypt s iv input out)
  decrypt : ∀ s iv input out, Sound s → out.length = b.blockSize → Action.Mirrors
    (fun r r' => r = r' ∧ Status.Ordinary r'.1 ∧ Sound r'.2.2) (a.decrypt s iv input out)
    (b.decrypt s iv input out)
  release : ∀ s, a.release s = b.release s

end Algorithm

/-- One state under two implementations. -/
structure Paired (a b : Algorithm κ σ) (Sound : σ → Prop) (c c' : Context κ σ) : Prop where
  left : c = ⟨a, c'.state⟩
  right : c'.algorithm = b
  sound : Sound c'.state

namespace Algorithm.Mirrors

variable {a b : Algorithm κ σ} {Sound : σ → Prop} {c c' : Context κ σ}

theorem init (h : a.Mirrors b Sound) (key : Bytes) (d : Direction) :
    Attempt.Mirrors (Paired a b Sound) (a.init key d) (b.init key d) := by
  apply (h.create key d).bind
  rintro s _ ⟨rfl, hs⟩
  exact .pure ⟨rfl, rfl, hs⟩

theorem releaseContext (h : a.Mirrors b Sound) (hc : Paired a b Sound c c') :
    Action.Mirrors (fun _ _ => True) c.release c'.release := by
  obtain ⟨rfl, rfl, -⟩ := hc
  unfold Context.release
  rw [h.release]
  exact fun _ => ⟨rfl, trivial⟩

/-- What is not refused for its lengths has an output of one block. -/
theorem apply (h : a.Mirrors b Sound) (hc : Paired a b Sound c c')
    {run run' : σ → Bytes → Bytes → Bytes → Action κ (Status × Bytes × σ)} (iv input out : Bytes)
    (hrun : out.length = b.blockSize → Action.Mirrors
      (fun r r' => r = r' ∧ Status.Ordinary r'.1 ∧ Sound r'.2.2) (run c'.state iv input out)
      (run' c'.state iv input out)) :
    Action.Mirrors (fun r r' => r.1 = r'.1 ∧ r.2.1 = r'.2.1 ∧ Status.Ordinary r'.1 ∧
      Paired a b Sound r.2.2 r'.2.2) (c.apply run iv input out) (c'.apply run' iv input out) := by
  obtain ⟨rfl, rfl, hs⟩ := hc
  unfold Context.apply Context.checkLengths
  dsimp only
  rw [h.ivSize_eq, h.blockSize_eq]
  split_ifs with hiv hl
  · exact .pure ⟨rfl, rfl, .error nofun, rfl, rfl, hs⟩
  · exact .pure ⟨rfl, rfl, .error nofun, rfl, rfl, hs⟩
  · apply (hrun (by omega)).bind
    rintro r _ ⟨rfl, hok, hs⟩
    exact .pure ⟨rfl, rfl, hok, rfl, rfl, hs⟩

theorem call (h : a.Mirrors b Sound) (hc : Paired a b Sound c c') (call : Call) :
    Action.Mirrors (fun r r' => r.1 = r'.1 ∧ Status.Ordinary r'.1.status ∧ Paired a b Sound r.2 r'.2)
      (c.call call) (c'.call call) := by
  have ha : c.algorithm = a := by rw [hc.left]
  cases call with
  | encrypt iv input out =>
    unfold Context.call Context.encrypt
    rw [ha, hc.right]
    apply (h.apply hc iv input out (h.encrypt c'.state iv input out hc.sound)).bind
    rintro ⟨_, _, _⟩ ⟨_, _, _⟩ ⟨rfl, rfl, hok, hd⟩
    exact .pure ⟨rfl, hok, hd⟩
  | decrypt iv input out =>
    unfold Context.call Context.decrypt
    rw [ha, hc.right]
    apply (h.apply hc iv input out (h.decrypt c'.state iv input out hc.sound)).bind
    rintro ⟨_, _, _⟩ ⟨_, _, _⟩ ⟨rfl, rfl, hok, hd⟩
    exact .pure ⟨rfl, hok, hd⟩

end Algorithm.Mirrors

end CryptoSuite.BlockCipher
