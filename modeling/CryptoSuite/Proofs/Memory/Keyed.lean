import CryptoSuite.Mac.Hmac
import CryptoSuite.Proofs.Mac.Call
import CryptoSuite.Proofs.Memory.Hashing

/-! The accounts of keyed computations. The code over a tidy hash function is tidy: at each point
where its construction can fail, what it has acquired so far is given back. -/
namespace CryptoSuite

open Fallible
open CryptoSuite.Action (Turns)

namespace Mac.Algorithm

variable {κ σ : Type}

/-- States that satisfy `Sound` own `own`, whatever they are used for. They are made for want of
nothing but memory. -/
structure Tidy (a : Algorithm κ σ) (Sound : σ → Prop) (own : σ → Holdings) : Prop where
  create : ∀ key, Keeps (.only .mac) 0 (a.create key) Sound own 0
  update : ∀ s data, Sound s → Turns (own s) (a.update s data)
    (fun r => Sound r.2 ∧ own r.2 = own s) fun _ => own s
  finalize : ∀ s out, Sound s → Turns (own s) (a.finalize s out)
    (fun r => r.2.1.length = out.length ∧ Sound r.2.2 ∧ own r.2.2 = own s) fun _ => own s
  release : ∀ s, Sound s → Turns (own s) (a.release s) (fun _ => True) fun _ => 0

variable {a : Algorithm κ σ} {Sound : σ → Prop} {own : σ → Holdings}

/-- A computation of the algorithm in a sound state. -/
def Runs (a : Algorithm κ σ) (Sound : σ → Prop) (c : Context κ σ) : Prop :=
  c.algorithm = a ∧ Sound c.state

theorem Tidy.keeps_init (h : a.Tidy Sound own) (key : Bytes) :
    Keeps (.only .mac) 0 (a.init key) (a.Runs Sound) (fun c => own c.state) 0 := by
  apply (h.create key).bind
  intro s hs
  exact Keeps.pure ⟨rfl, hs⟩ rfl

variable {c : Context κ σ}

theorem Tidy.turns_digest (h : a.Tidy Sound own) (hc : a.Runs Sound c) (data : Bytes) :
    Turns (own c.state) (c.digest data)
      (fun r => a.Runs Sound r.2 ∧ own r.2.state = own c.state) fun _ => own c.state := by
  obtain ⟨_, s⟩ := c
  obtain ⟨rfl, hs⟩ := hc
  apply (h.update s data hs).bind
  rintro ⟨status, t⟩ ⟨ht, hown⟩
  exact Turns.pure ⟨⟨rfl, ht⟩, hown⟩ rfl

theorem Tidy.turns_finalize (h : a.Tidy Sound own) (hc : a.Runs Sound c) (out : Bytes) :
    Turns (own c.state) (c.finalize out)
      (fun r => r.2.1.length = out.length ∧ a.Runs Sound r.2.2 ∧ own r.2.2.state = own c.state)
      fun _ => own c.state := by
  obtain ⟨_, s⟩ := c
  obtain ⟨rfl, hs⟩ := hc
  apply (h.finalize s out hs).bind
  rintro ⟨status, code, t⟩ ⟨hl, ht, hown⟩
  exact Turns.pure ⟨hl, ⟨rfl, ht⟩, hown⟩ rfl

theorem Tidy.turns_release (h : a.Tidy Sound own) (hc : a.Runs Sound c) :
    Turns (own c.state) c.release (fun _ => True) fun _ => 0 := by
  obtain ⟨_, s⟩ := c
  obtain ⟨rfl, hs⟩ := hc
  exact h.release s hs

theorem Tidy.turns_call (h : a.Tidy Sound own) (hc : a.Runs Sound c) (call : Call) :
    Turns (own c.state) (c.call call) (fun r => a.Runs Sound r.2 ∧ own r.2.state = own c.state)
      fun _ => own c.state := by
  cases call with
  | digest data =>
    apply (h.turns_digest hc data).bind
    intro r hr
    exact Turns.pure hr rfl
  | finalize out =>
    apply (h.turns_finalize hc out).bind
    intro r hr
    exact Turns.pure hr.2 rfl

/-- The computation is given back whether or not there is room for the code. -/
theorem Tidy.keeps_compute (h : a.Tidy Sound own) (key message : Bytes) :
    Keeps .any 0 (a.compute key message) (fun _ => True) (fun b => {b.holding}) 0 := by
  apply ((h.keeps_init key).widen (Failures.only_among_any .mac)).bind
  intro c hc
  apply (Keeps.perform (h.turns_digest hc message)).bind
  rintro ⟨status, d⟩ ⟨hd, hown⟩
  rw [← hown]
  exact Buffer.keeps_delivery Context.finalize Context.release
    (fun _ out hc => h.turns_finalize hc out) (fun _ hc => h.turns_release hc) hd status a.macSize

theorem Tidy.keeps_verify (h : a.Tidy Sound own) (key message tag : Bytes) :
    Keeps .any 0 (a.verify key message tag) (fun _ => True) (fun _ => 0) 0 := by
  apply ((h.keeps_init key).widen (Failures.only_among_any .mac)).bind
  intro c hc
  apply (Keeps.perform (h.turns_digest hc message)).bind
  rintro ⟨status, d⟩ ⟨hd, hown⟩
  rw [← hown]
  apply (Keeps.releasing (Attempt.keeps_require fun _ _ => trivial) (h.turns_release hd)).bind
  intro _ _
  apply (Keeps.perform (h.turns_finalize hd (Bytes.zeros tag.length))).bind
  rintro ⟨status, expected, e⟩ ⟨-, he, hown⟩
  rw [← hown]
  apply (Keeps.perform (h.turns_release he)).bind
  intro _ _
  apply (Attempt.keeps_require fun _ _ => trivial).bind
  intro _ _
  split_ifs
  · exact Keeps.pure trivial rfl
  · exact Keeps.throw trivial

end Mac.Algorithm

namespace Hmac

variable {κ σ : Type}

/-- The sizes of a hash function that a code can be made with: a digest fits in a block, and two
blocks fit in memory. -/
structure Suits (h : Hash.Algorithm κ σ) : Prop where
  digest_pos : 0 < h.digestSize
  digest_le : h.digestSize ≤ h.blockSize
  block_lt : 2 * h.blockSize < 1 <<< 64

/-- The pads and the room are as large as the hash function needs them. -/
structure State.Sound (h : Hash.Algorithm κ σ) (Inner : σ → Prop) (s : State σ) : Prop where
  inner : Inner s.inner
  outer : Inner s.outer
  pads_size : s.pads.size = 2 * h.blockSize
  work_size : s.work.size = 2 * h.digestSize

def State.own (inner : σ → Holdings) (s : State σ) : Holdings :=
  inner s.inner + (inner s.outer + ({s.pads.holding} + {s.work.holding}))

variable {h : Hash.Algorithm κ σ} {Sound : σ → Prop} {own : σ → Holdings}

theorem keeps_doubled {size : Nat} (hs : 2 * size < 1 <<< 64) :
    Keeps (.only .mac) 0 (doubled size : Attempt κ Nat) (fun n => n = 2 * size) (fun _ => 0) 0 := by
  rw [doubled, if_pos hs]
  exact Keeps.pure rfl rfl

theorem keeps_createHash (ht : h.Tidy Sound own) :
    Keeps (.only .mac) 0 (createHash h) Sound own 0 :=
  Attempt.keeps_within ht.create

/-- A status that is known to be a success. -/
theorem keeps_require_ok {status : Status} (hs : status = .ok ()) (c : Component) (pre : Holdings) :
    Keeps (.only c) pre (Attempt.require status : Attempt κ Unit) (fun _ => True) (fun _ => pre) pre :=
  (Attempt.keeps_require fun _ he => nomatch hs.symm.trans he).imp fun _ _ => ⟨trivial, rfl⟩

/-- The computation that hashes a long key is given back before the code goes on. -/
theorem keeps_paddedKey (ht : h.Tidy Sound own) (hs : Suits h) (key : Bytes) :
    Keeps (.only .mac) 0 (paddedKey h key) (fun block => block.length = h.blockSize) (fun _ => 0) 0 := by
  unfold paddedKey
  split_ifs with hl
  · apply (keeps_createHash ht).bind
    intro s hsound
    apply (Keeps.perform (ht.update s key hsound)).bind
    rintro ⟨status, t⟩ ⟨hok, htsound, hown⟩
    rw [← hown]
    apply ((keeps_require_ok hok .mac _).releasing (ht.release t htsound)).bind
    intro _ _
    have hroom : h.digestSize ≤ (Bytes.zeros h.blockSize).length := by
      rw [Bytes.length_zeros]
      exact hs.digest_le
    apply (Keeps.perform (ht.finalize t _ htsound hroom)).bind
    rintro ⟨status, block, u⟩ ⟨hok, hlen, husound, hown⟩
    rw [← hown]
    apply (Keeps.perform (ht.release u husound)).bind
    intro _ _
    apply (keeps_require_ok hok .mac 0).bind
    intro _ _
    exact Keeps.pure (hlen.trans (Bytes.length_zeros _)) rfl
  · apply Keeps.pure
    · rw [List.length_append, Bytes.length_zeros]
      omega
    · rfl

theorem length_padsOf (block : Bytes) : (padsOf block).length = 2 * block.length := by
  rw [padsOf, List.length_append, List.length_map, List.length_map]
  omega

/-- Whichever request is the first not to be served, the regions of the earlier ones go back. -/
theorem keeps_create (ht : h.Tidy Sound own) (hs : Suits h) (key : Bytes) :
    Keeps (.only .mac) 0 (create h key) (State.Sound h Sound) (State.own own) 0 := by
  have hdigest := hs.digest_le
  have hpos := hs.digest_pos
  have hblock := hs.block_lt
  unfold create
  apply (keeps_doubled hblock).bind
  rintro _ rfl
  apply (Buffer.keeps_newFor (by omega) rfl).bind
  intro pads hpads
  refine Keeps.releasing ?_ pads.turns_release
  apply (keeps_doubled (by omega)).acquire {pads.holding}
  rintro _ rfl
  rw [zero_add]
  apply (Buffer.keeps_newFor (by omega) rfl).acquire {pads.holding}
  intro work hwork
  refine Keeps.releasing ?_ (work.turns_release.beside {pads.holding})
  apply (keeps_paddedKey ht hs key).acquire
  intro block hlen
  rw [zero_add]
  apply (keeps_createHash ht).acquire
  intro inner hinner
  refine Keeps.turn (ht.update inner _ hinner) _ rfl ?_
  rintro ⟨status, inner⟩ ⟨hok, hinner, hown⟩
  rw [← hown]
  have houter : Keeps (.only .mac) (own inner + ({work.holding} + {pads.holding}))
      (do Attempt.require status; createHash h) Sound
      (fun outer => own outer + (own inner + ({work.holding} + {pads.holding})))
      (own inner + ({work.holding} + {pads.holding})) := by
    apply (keeps_require_ok hok .mac _).bind
    intro _ _
    exact (keeps_createHash ht).beside _
  apply (houter.releasing ((ht.release inner hinner).beside _)).bind
  intro outer houter
  have hsize : (padsOf block).length = pads.size := by
    rw [length_padsOf, hlen, Buffer.size, hpads, Bytes.length_zeros]
  apply Keeps.pure
  · refine ⟨hinner, houter, ?_, ?_⟩
    · show (padsOf block).length = _
      rw [length_padsOf, hlen]
    · rw [Buffer.size, hwork, Bytes.length_zeros]
  · simp only [State.own, Buffer.holding_setBytes hsize]
    abel

theorem turns_release (ht : h.Tidy Sound own) {s : State σ} (hsound : s.Sound h Sound) :
    Turns (s.own own) (release h s) (fun _ => True) fun _ => 0 := by
  apply ((ht.release _ hsound.inner).beside _).bind
  intro _ _
  apply ((ht.release _ hsound.outer).beside _).bind
  intro _ _
  apply (s.pads.turns_release.beside _).bind
  intro _ _
  exact s.work.turns_release

theorem turns_update (ht : h.Tidy Sound own) {s : State σ} (hsound : s.Sound h Sound) (data : Bytes) :
    Turns (s.own own) (update h s data) (fun r => r.2.Sound h Sound ∧ r.2.own own = s.own own)
      fun _ => s.own own := by
  apply (ht.update _ data hsound.inner).seq _ rfl
  rintro ⟨status, inner⟩ ⟨-, hinner, hown⟩
  apply Turns.pure
  · refine ⟨{ hsound with inner := hinner }, ?_⟩
    simp only [State.own, hown]
  · rfl

/-- Both computations and both buffers stay what they are. -/
theorem turns_computeCode (ht : h.Tidy Sound own) {s : State σ} (hsound : s.Sound h Sound) :
    Turns (s.own own) (computeCode h s)
      (fun r => r.1 = .ok () ∧ r.2.Sound h Sound ∧ r.2.own own = s.own own) fun _ => s.own own := by
  have hwork := hsound.work_size
  have hin : (s.work.bytes.take h.digestSize).length = h.digestSize := by
    rw [List.length_take]
    show min h.digestSize s.work.size = _
    omega
  apply (ht.finalize _ _ hsound.inner hin.ge).seq _ rfl
  rintro ⟨_, digest, inner⟩ ⟨rfl, hdigest, hinner, hi⟩
  have hw : (s.work.write 0 digest).size = s.work.size := by
    apply Bytes.length_overwrite
    show 0 + digest.length ≤ s.work.size
    rw [hdigest]
    omega
  apply (ht.update _ _ hsound.outer).seq (own s.inner + ({s.pads.holding} + {s.work.holding}))
  · abel
  rintro ⟨_, outer⟩ ⟨rfl, houter, ho⟩
  rw [← ho]
  apply (ht.update _ _ houter).seq _ rfl
  rintro ⟨_, outer'⟩ ⟨rfl, houter', ho'⟩
  have hout : ((s.work.write 0 digest).bytes.drop h.digestSize).length = h.digestSize := by
    rw [List.length_drop]
    show (s.work.write 0 digest).size - _ = _
    omega
  rw [← ho']
  apply (ht.finalize _ _ houter' hout.ge).seq _ rfl
  rintro ⟨_, code, outer''⟩ ⟨rfl, hcode, houter'', ho''⟩
  have hw' : ((s.work.write 0 digest).write h.digestSize code).size = s.work.size := by
    refine (Bytes.length_overwrite ?_).trans hw
    show h.digestSize + code.length ≤ (s.work.write 0 digest).size
    rw [hcode]
    omega
  have hholding : ((s.work.write 0 digest).write h.digestSize code).holding = s.work.holding :=
    Buffer.holding_setBytes hw'
  apply Turns.pure
  · refine ⟨rfl, ⟨hinner, houter'', hsound.pads_size, hw'.trans hwork⟩, ?_⟩
    simp only [State.own, hholding, hi, ho'', ho', ho]
  · simp only [State.own, ho', ho]
    abel

theorem turns_finalize (ht : h.Tidy Sound own) {s : State σ} (hsound : s.Sound h Sound) (out : Bytes) :
    Turns (s.own own) (finalize h s out)
      (fun r => r.2.1.length = out.length ∧ r.2.2.Sound h Sound ∧ r.2.2.own own = s.own own)
      fun _ => s.own own := by
  unfold finalize
  split_ifs with ho
  · exact Turns.pure ⟨rfl, hsound, rfl⟩ rfl
  · apply (turns_computeCode ht hsound).bind
    rintro ⟨_, t⟩ ⟨rfl, ht', hown⟩
    rw [← hown]
    apply (ht.update _ _ ht'.inner).seq _ rfl
    rintro ⟨status, inner⟩ ⟨-, hinner, hi⟩
    have hwipe : t.work.wipe.size = t.work.size := Bytes.length_zeros _
    have hholding : t.work.wipe.holding = t.work.holding := Buffer.holding_setBytes hwipe
    apply Turns.pure
    · refine ⟨?_, ⟨hinner, ht'.outer, ht'.pads_size, hwipe.trans ht'.work_size⟩, ?_⟩
      · apply Bytes.length_overwrite
        rw [List.length_take]
        omega
      · simp only [State.own, hholding, hi]
    · rfl

theorem tidy_algorithm (name : String) (ht : h.Tidy Sound own) (hs : Suits h) :
    (algorithm name h).Tidy (State.Sound h Sound) (State.own own) where
  create := keeps_create ht hs
  update _ data hsound := turns_update ht hsound data
  finalize _ out hsound := turns_finalize ht hsound out
  release _ hsound := turns_release ht hsound

theorem suits_sha2 (v : Sha2.Variant) : Suits (Sha2.algorithm (κ := κ) v) where
  digest_pos := v.digestSize_pos
  digest_le := v.digestSize_le.trans (show 64 ≤ 128 by decide)
  block_lt := show 2 * 128 < 1 <<< 64 by decide

/-- Sound states of the code over the SHA-2 family, and what they own. -/
abbrev SoundOver (κ : Type) (v : Sha2.Variant) : State Sha2.State → Prop :=
  State.Sound (Sha2.algorithm (κ := κ) v) (Sha2.State.Sound v)

abbrev ownAll : State Sha2.State → Holdings := State.own Sha2.State.own

theorem tidy_sha2 (name : String) (v : Sha2.Variant) :
    (algorithm name (Sha2.algorithm (κ := κ) v)).Tidy (SoundOver κ v) ownAll :=
  tidy_algorithm name (Sha2.tidy_algorithm v) (suits_sha2 v)

end Hmac

end CryptoSuite
