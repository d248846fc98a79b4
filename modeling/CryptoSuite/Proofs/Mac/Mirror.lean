import CryptoSuite.Proofs.Mac.Call
import CryptoSuite.Proofs.Mirror

/-! Two implementations of a keyed algorithm that go alike on the states which they reach, and with them the
contexts over them and the codes made and verified in one step. -/
namespace CryptoSuite.Mac

variable {κ σ : Type}

namespace Algorithm

/-- New states satisfy `Sound`, the operations keep it, and on such states `a` goes as `b`. Failures satisfy
`E`. -/
structure Mirrors (E : CryptoError → Prop) (a b : Algorithm κ σ) (Sound : σ → Prop) : Prop where
  macSize_eq : a.macSize = b.macSize
  create : ∀ key, Fallible.Mirrors E (fun s s' => s = s' ∧ Sound s') (a.create key) (b.create key)
  update : ∀ s data, Sound s → Action.Mirrors
    (fun r r' => r = r' ∧ Status.Within E r'.1 ∧ Sound r'.2) (a.update s data) (b.update s data)
  finalize : ∀ s out, Sound s → Action.Mirrors (fun r r' => r = r' ∧ Status.Within E r'.1 ∧
    r'.2.1.length = out.length ∧ Sound r'.2.2) (a.finalize s out) (b.finalize s out)
  release : ∀ s, a.release s = b.release s

end Algorithm

/-- One state under two implementations. -/
structure Paired (a b : Algorithm κ σ) (Sound : σ → Prop) (c c' : Context κ σ) : Prop where
  left : c = ⟨a, c'.state⟩
  right : c'.algorithm = b
  sound : Sound c'.state

namespace Algorithm.Mirrors

variable {E : CryptoError → Prop} {a b : Algorithm κ σ} {Sound : σ → Prop} {c c' : Context κ σ}

theorem mirrors_release (h : a.Mirrors E b Sound) (s : σ) :
    Action.Mirrors (fun _ _ => True) (a.release s) (b.release s) := by
  rw [h.release]
  exact fun _ => ⟨rfl, trivial⟩

theorem init (h : a.Mirrors E b Sound) (key : Bytes) :
    Fallible.Mirrors E (Paired a b Sound) (a.init key) (b.init key) := by
  apply (h.create key).bind
  rintro s _ ⟨rfl, hs⟩
  exact .pure ⟨rfl, rfl, hs⟩

theorem digest (h : a.Mirrors E b Sound) (hc : Paired a b Sound c c') (data : Bytes) :
    Action.Mirrors (fun r r' => r.1 = r'.1 ∧ Status.Within E r'.1 ∧ Paired a b Sound r.2 r'.2)
      (c.digest data) (c'.digest data) := by
  obtain ⟨rfl, rfl, hs⟩ := hc
  apply (h.update c'.state data hs).bind
  rintro r _ ⟨rfl, hok, hs⟩
  exact .pure ⟨rfl, hok, rfl, rfl, hs⟩

theorem finalizeContext (h : a.Mirrors E b Sound) (hc : Paired a b Sound c c') (out : Bytes) :
    Action.Mirrors (fun r r' => r.1 = r'.1 ∧ r.2.1 = r'.2.1 ∧ Status.Within E r'.1 ∧
      Paired a b Sound r.2.2 r'.2.2) (c.finalize out) (c'.finalize out) := by
  obtain ⟨rfl, rfl, hs⟩ := hc
  apply (h.finalize c'.state out hs).bind
  rintro r _ ⟨rfl, hok, -, hs⟩
  exact .pure ⟨rfl, rfl, hok, rfl, rfl, hs⟩

theorem releaseContext (h : a.Mirrors E b Sound) (hc : Paired a b Sound c c') :
    Action.Mirrors (fun _ _ => True) c.release c'.release := by
  obtain ⟨rfl, rfl, -⟩ := hc
  exact h.mirrors_release c'.state

theorem call (h : a.Mirrors E b Sound) (hc : Paired a b Sound c c') (call : Call) :
    Action.Mirrors (fun r r' => r.1 = r'.1 ∧ Status.Within E r'.1.status ∧ Paired a b Sound r.2 r'.2)
      (c.call call) (c'.call call) := by
  cases call with
  | digest data =>
    apply (h.digest hc data).bind
    rintro ⟨_, _⟩ ⟨_, _⟩ ⟨rfl, hok, hd⟩
    exact .pure ⟨rfl, hok, hd⟩
  | finalize out =>
    apply (h.finalizeContext hc out).bind
    rintro ⟨_, _, _⟩ ⟨_, _, _⟩ ⟨rfl, rfl, hok, hd⟩
    exact .pure ⟨rfl, hok, hd⟩

theorem compute (h : a.Mirrors CryptoError.Ordinary b Sound) (key message : Bytes) :
    Attempt.Mirrors (fun r r' => r = r') (a.compute key message) (b.compute key message) := by
  unfold Algorithm.compute buffer
  rw [h.macSize_eq]
  apply (h.init key).bind
  intro c c' hc
  apply (Fallible.Mirrors.perform (h.digest hc message)).bind
  rintro ⟨_, d⟩ ⟨status, d'⟩ ⟨rfl, hok, hd⟩
  exact Buffer.mirrors_delivery hok hd (fun _ _ out hc => h.finalizeContext hc out)
    fun _ _ hc => h.releaseContext hc

theorem verify (h : a.Mirrors CryptoError.Ordinary b Sound) (key message tag : Bytes) :
    Attempt.Mirrors (fun _ _ => True) (a.verify key message tag) (b.verify key message tag) := by
  unfold Algorithm.verify
  apply (h.init key).bind
  intro c c' hc
  apply (Fallible.Mirrors.perform (h.digest hc message)).bind
  rintro ⟨_, d⟩ ⟨status, d'⟩ ⟨rfl, hok, hd⟩
  apply ((Attempt.mirrors_require hok).releasing (h.releaseContext hd)).bind
  intro _ _ _
  apply (Fallible.Mirrors.perform (h.finalizeContext hd (Bytes.zeros tag.length))).bind
  rintro ⟨_, _, f⟩ ⟨status, expected, f'⟩ ⟨rfl, rfl, hok, hf⟩
  apply (Fallible.Mirrors.perform (h.releaseContext hf)).bind
  intro _ _ _
  apply (Attempt.mirrors_require hok).bind
  intro _ _ _
  split_ifs
  · exact .pure trivial
  · exact .throw trivial

end Algorithm.Mirrors

end CryptoSuite.Mac
