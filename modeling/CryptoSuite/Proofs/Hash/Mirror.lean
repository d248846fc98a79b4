import CryptoSuite.Proofs.Hash.Call
import CryptoSuite.Proofs.Mirror

/-! Two implementations of a hash function that go alike on the states which they reach, and with them the
contexts over them and the digests made in one step. -/
namespace CryptoSuite.Hash

variable {κ σ : Type}

namespace Algorithm

/-- New states satisfy `Sound`, the operations keep it, and on such states `a` goes as `b`. No operation fails
but on its arguments or for want of memory. -/
structure Mirrors (a b : Algorithm κ σ) (Sound : σ → Prop) : Prop where
  digestSize_eq : a.digestSize = b.digestSize
  blockSize_eq : a.blockSize = b.blockSize
  create : Attempt.Mirrors (fun s s' => s = s' ∧ Sound s') a.create b.create
  update : ∀ s data, Sound s → Action.Mirrors
    (fun r r' => r = r' ∧ Status.Ordinary r'.1 ∧ Sound r'.2) (a.update s data) (b.update s data)
  finalize : ∀ s out, Sound s → Action.Mirrors (fun r r' => r = r' ∧ Status.Ordinary r'.1 ∧
    r'.2.1.length = out.length ∧ Sound r'.2.2) (a.finalize s out) (b.finalize s out)
  reset : ∀ s, Sound s → a.reset s = b.reset s ∧ Sound (b.reset s)
  release : ∀ s, a.release s = b.release s

end Algorithm

/-- One state under two implementations. -/
structure Paired (a b : Algorithm κ σ) (Sound : σ → Prop) (c c' : Context κ σ) : Prop where
  left : c = ⟨a, c'.state⟩
  right : c'.algorithm = b
  sound : Sound c'.state

namespace Algorithm.Mirrors

variable {a b : Algorithm κ σ} {Sound : σ → Prop} {c c' : Context κ σ}

theorem mirrors_release (h : a.Mirrors b Sound) (s : σ) :
    Action.Mirrors (fun _ _ => True) (a.release s) (b.release s) := by
  rw [h.release]
  exact fun _ => ⟨rfl, trivial⟩

theorem init (h : a.Mirrors b Sound) : Attempt.Mirrors (Paired a b Sound) a.init b.init := by
  apply h.create.bind
  rintro s _ ⟨rfl, hs⟩
  exact .pure ⟨rfl, rfl, hs⟩

theorem digest (h : a.Mirrors b Sound) (hc : Paired a b Sound c c') (data : Bytes) :
    Action.Mirrors (fun r r' => r.1 = r'.1 ∧ Status.Ordinary r'.1 ∧ Paired a b Sound r.2 r'.2)
      (c.digest data) (c'.digest data) := by
  obtain ⟨rfl, rfl, hs⟩ := hc
  apply (h.update c'.state data hs).bind
  rintro r _ ⟨rfl, hok, hs⟩
  exact .pure ⟨rfl, hok, rfl, rfl, hs⟩

theorem finalizeContext (h : a.Mirrors b Sound) (hc : Paired a b Sound c c') (out : Bytes) :
    Action.Mirrors (fun r r' => r.1 = r'.1 ∧ r.2.1 = r'.2.1 ∧ Status.Ordinary r'.1 ∧
      Paired a b Sound r.2.2 r'.2.2) (c.finalize out) (c'.finalize out) := by
  obtain ⟨rfl, rfl, hs⟩ := hc
  unfold Context.finalize Context.digestSize
  rw [h.digestSize_eq]
  split_ifs
  · exact .pure ⟨rfl, rfl, .error nofun, rfl, rfl, hs⟩
  · apply (h.finalize c'.state out hs).bind
    rintro r _ ⟨rfl, hok, -, hs⟩
    exact .pure ⟨rfl, rfl, hok, rfl, rfl, hs⟩

theorem releaseContext (h : a.Mirrors b Sound) (hc : Paired a b Sound c c') :
    Action.Mirrors (fun _ _ => True) c.release c'.release := by
  obtain ⟨rfl, rfl, -⟩ := hc
  exact h.mirrors_release c'.state

theorem call (h : a.Mirrors b Sound) (hc : Paired a b Sound c c') (call : Call) :
    Action.Mirrors (fun r r' => r.1 = r'.1 ∧ Status.Ordinary r'.1.status ∧ Paired a b Sound r.2 r'.2)
      (c.call call) (c'.call call) := by
  cases call with
  | digest data =>
    apply (h.digest hc data).bind
    rintro ⟨_, _⟩ ⟨_, _⟩ ⟨rfl, hok, hd⟩
    exact .pure ⟨rfl, hok, hd⟩
  | finalize out =>
    apply (h.finalizeContext hc out).bind
    rintro ⟨_, _, _⟩ ⟨_, _, _⟩ ⟨rfl, rfl, hok, hd⟩
    exact .pure ⟨rfl, hok, hd⟩
  | reset =>
    obtain ⟨rfl, rfl, hs⟩ := hc
    obtain ⟨hreset, hs'⟩ := h.reset c'.state hs
    exact .pure ⟨rfl, .ok, congrArg (Context.mk a) hreset, rfl, hs'⟩

theorem hash (h : a.Mirrors b Sound) (data : Bytes) :
    Attempt.Mirrors (fun r r' => r = r') (a.hash data) (b.hash data) := by
  unfold Algorithm.hash buffer
  rw [h.digestSize_eq]
  apply h.init.bind
  intro c c' hc
  apply (Fallible.Mirrors.perform (h.digest hc data)).bind
  rintro ⟨_, d⟩ ⟨status, d'⟩ ⟨rfl, hok, hd⟩
  exact Buffer.mirrors_delivery hok hd (fun _ _ out hc => h.finalizeContext hc out)
    fun _ _ hc => h.releaseContext hc

end Algorithm.Mirrors

end CryptoSuite.Hash
