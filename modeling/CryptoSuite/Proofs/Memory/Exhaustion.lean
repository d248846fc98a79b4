import CryptoSuite.Proofs.KeyAgreement.Agreement
import CryptoSuite.Proofs.KeyDerivation.Completion
import CryptoSuite.Proofs.Memory.Demands
import CryptoSuite.Proofs.Refusal.Outputs

/-! The requests of every operation that needs memory, and what a refusal of each of them is reported
as. Which part of a computation asked is lost on the way up, where the whole reports in its own name. -/
namespace CryptoSuite

open Fallible

namespace Sha2

variable {κ : Type}

theorem State.quiet_release (s : State) : (s.release : Action κ Unit).Quiet fun _ => True :=
  s.storage.quiet_release

theorem draws_new (v : Variant) :
    Draws (demands .hash [192]) (State.new v : Attempt κ State) (State.Sound v) := by
  apply (Buffer.draws_newFor .hash (by decide)).bind rfl
  intro storage _
  apply Draws.pure
  constructor
  · rfl
  · exact ⟨[], State.holds_reset _⟩

theorem draws_init (v : Variant) :
    Draws (demands .hash [192]) ((algorithm v).init : Attempt κ _)
      ((algorithm v).Runs (State.Sound v)) := by
  apply (draws_new v).bind rfl
  intro s hs
  exact Draws.pure ⟨rfl, hs⟩

theorem quiet_digest (v : Variant) (s : State) (data : Bytes) :
    (Hash.Context.digest ⟨algorithm v, s⟩ data : Action κ _).Quiet fun r =>
      r = (.ok (), ⟨algorithm v, s.update data⟩) :=
  .pure rfl

theorem quiet_finalize (v : Variant) (c : Hash.Context κ State) {out : Bytes}
    (hc : (algorithm v).Runs (State.Sound v) c) (ho : v.digestSize ≤ out.length) :
    (c.finalize out).Quiet fun r => r.1 = .ok () ∧ (algorithm v).Runs (State.Sound v) r.2.2 := by
  obtain ⟨_, s⟩ := c
  obtain ⟨rfl, hs⟩ := hc
  obtain ⟨digest, t, ht, -, hsound, -⟩ := hs.finalize ho
  apply Action.Quiet.of_runFrom
  intro μ
  refine ⟨(.ok (), digest, ⟨algorithm v, t⟩), ?_, rfl, rfl, hsound⟩
  simp [Hash.Context.finalize, Hash.Context.digestSize, algorithm, Nat.not_lt.mpr ho, ht]

theorem quiet_release (v : Variant) (c : Hash.Context κ State) (hc : c.algorithm = algorithm v) :
    c.release.Quiet fun _ => True := by
  rw [Hash.Context.release, hc]
  exact c.state.quiet_release

/-- The buffer for the digest is asked for once the data is absorbed. -/
theorem draws_hash (v : Variant) (data : Bytes) :
    Draws (demands .hash [192] ++ demands .buffer [v.digestSize])
      ((algorithm v).hash data : Attempt κ Buffer) fun _ => True := by
  apply (draws_init v).bind rfl
  rintro ⟨_, s⟩ ⟨rfl, hs⟩
  apply (Draws.perform (quiet_digest v s data)).seq
  rintro _ rfl
  exact Buffer.draws_delivery Hash.Context.finalize Hash.Context.release
    (fun c _ hc ho => quiet_finalize v c hc ho.ge) (fun c hc => quiet_release v c hc.1)
    ⟨rfl, (hs.update data).1⟩ rfl v.digestSize_pos

end Sha2

namespace Hmac

variable {κ : Type} {v : Sha2.Variant} {key : Bytes}

theorem draws_createHash (v : Sha2.Variant) :
    Draws (demands .mac [192]) (createHash (Sha2.algorithm v) : Attempt κ _)
      (Sha2.State.Sound v) :=
  Attempt.draws_within (Sha2.draws_new v)

theorem draws_doubled {size : Nat} (hs : 2 * size < 1 <<< 64) :
    Draws [] (doubled size : Attempt κ Nat) fun n => n = 2 * size := by
  rw [doubled, if_pos hs]
  exact Draws.pure rfl

/-- Only a long key is hashed. -/
theorem draws_paddedKey (v : Sha2.Variant) (key : Bytes) :
    Draws (demands .mac (keySizes key)) (paddedKey (Sha2.algorithm v) key : Attempt κ Bytes)
      fun _ => True := by
  change Draws _ (if 128 < key.length then _ else _) _
  unfold keySizes
  split_ifs
  · apply (draws_createHash v).bind rfl
    intro s hs
    obtain ⟨digest, t, ht, -⟩ := (hs.update key).1.finalize (digestSize_le_zeros v)
    apply (Draws.perform (Q := fun r => r = (.ok (), s.update key)) (.pure rfl)).seq
    rintro _ rfl
    apply ((Attempt.draws_require rfl).releasing (s.update key).quiet_release).seq
    intro _ _
    apply (Draws.perform (Q := fun r => r = (.ok (), digest, t)) (.pure ht)).seq
    rintro _ rfl
    apply (Draws.perform t.quiet_release).seq
    intro _ _
    apply (Attempt.draws_require rfl).seq
    intro _ _
    exact Draws.pure trivial
  · exact Draws.pure trivial

theorem State.quiet_release (s : State Sha2.State) :
    (release (Sha2.algorithm v) s : Action κ Unit).Quiet fun _ => True := by
  apply s.inner.quiet_release.bind
  intro _ _
  apply s.outer.quiet_release.bind
  intro _ _
  apply s.pads.quiet_release.bind
  intro _ _
  exact s.work.quiet_release

theorem draws_create (v : Sha2.Variant) (key : Bytes) :
    Draws (demands .mac (stateSizes v key)) (create (Sha2.algorithm v) key : Attempt κ _)
      (State.Fits v) := by
  have hv := v.digestSize_le
  have hpos := v.digestSize_pos
  refine Draws.of_answers (Q := fun _ => True) ?_ fun _ _ _ _ h => fits_of_runFrom_create h
  have hplan : demands .mac (stateSizes v key) =
      demands .mac [256] ++ (demands .mac [2 * v.digestSize] ++
        (demands .mac (keySizes key) ++ (demands .mac [192] ++ demands .mac [192]))) := by
    simp only [← demands_append]
    simp [stateSizes]
  rw [hplan]
  apply (draws_doubled (show 2 * 128 < 1 <<< 64 by decide)).seq
  rintro _ rfl
  apply (Buffer.draws_newFor .mac (by decide)).bind rfl
  intro pads _
  refine Draws.releasing ?_ pads.quiet_release
  apply (draws_doubled (show 2 * v.digestSize < 1 <<< 64 by omega)).seq
  rintro _ rfl
  apply (Buffer.draws_newFor .mac (by omega)).bind rfl
  intro work _
  refine Draws.releasing ?_ work.quiet_release
  apply (draws_paddedKey v key).bind rfl
  intro block _
  apply (draws_createHash v).bind rfl
  intro inner _
  apply (Draws.perform (Q := fun r => r.1 = .ok ()) (.pure rfl)).seq
  rintro ⟨status, inner⟩ hok
  have houter : Draws (demands .mac [192])
      (do Attempt.require status; createHash (Sha2.algorithm v) : Attempt κ _) (Sha2.State.Sound v) := by
    apply (Attempt.draws_require hok).seq
    intro _ _
    exact draws_createHash v
  apply (houter.releasing inner.quiet_release).bind (q := []) rfl
  intro outer _
  exact Draws.pure trivial

theorem draws_init (name : String) (v : Sha2.Variant) (key : Bytes) :
    Draws (demands .mac (stateSizes v key)) ((ofVariant name v).init key : Attempt κ _)
      ((ofVariant name v).Runs (State.Fits v)) := by
  apply (draws_create v key).bind (q := []) (List.append_nil _).symm
  intro s hs
  exact Draws.pure ⟨rfl, hs⟩

theorem quiet_digest (name : String) (v : Sha2.Variant) (s : State Sha2.State) (data : Bytes) :
    (Mac.Context.digest ⟨ofVariant name v, s⟩ data : Action κ _).Quiet fun r =>
      r = (.ok (), ⟨ofVariant name v, { s with inner := s.inner.update data }⟩) :=
  .pure rfl

theorem quiet_finalize (name : String) (v : Sha2.Variant) (c : Mac.Context κ (State Sha2.State))
    {out : Bytes} (hc : (ofVariant name v).Runs (State.Fits v) c) (hpos : 0 < out.length)
    (ho : out.length ≤ v.digestSize) :
    (c.finalize out).Quiet fun r => r.1 = .ok () ∧ (ofVariant name v).Runs (State.Fits v) r.2.2 := by
  obtain ⟨_, s⟩ := c
  obtain ⟨rfl, hs⟩ := hc
  apply Action.Quiet.of_runFrom
  intro μ
  obtain ⟨code, t, ht, -, hfits⟩ := (steady name v).finalize s out μ hs hpos ho
  exact ⟨_, Mac.Context.runFrom_finalize ht, rfl, rfl, hfits⟩

theorem quiet_release (name : String) (v : Sha2.Variant) (c : Mac.Context κ (State Sha2.State))
    (hc : c.algorithm = ofVariant name v) : c.release.Quiet fun _ => True := by
  rw [Mac.Context.release, hc]
  exact c.state.quiet_release

theorem draws_compute (name : String) (v : Sha2.Variant) (key message : Bytes) :
    Draws (demands .mac (stateSizes v key) ++ demands .buffer [v.digestSize])
      ((ofVariant name v).compute key message : Attempt κ Buffer) fun _ => True := by
  apply (draws_init name v key).bind rfl
  rintro ⟨_, s⟩ ⟨rfl, hs⟩
  have hs : State.Fits v { s with inner := s.inner.update message } :=
    { hs with inner := (hs.inner.update message).1 }
  apply (Draws.perform (quiet_digest name v s message)).seq
  rintro _ rfl
  exact Buffer.draws_delivery Mac.Context.finalize Mac.Context.release
    (fun c out hc ho => quiet_finalize name v c hc (ho ▸ v.digestSize_pos) ho.le)
    (fun c hc => quiet_release name v c hc.1) ⟨rfl, hs⟩ rfl v.digestSize_pos

end Hmac

namespace AesKey

variable {κ : Type} {m : RoundMultiplier} {key : Bytes}

/-- The round keys under a key of 32 bytes. -/
def scheduleSize (m : RoundMultiplier) : Nat := 16 * (14 * m.factor + 1)

theorem draws_storage {size : Nat} (hs : 0 < size) :
    Draws [⟨size, .outOfMemory⟩] (storage size : Fallible ScheduleError κ Buffer) fun _ => True :=
  ((Buffer.draws_new hs).imp fun _ _ => trivial).adapt

theorem draws_encryption (m : RoundMultiplier) (hl : key.length = 32) :
    Draws [⟨scheduleSize m, .outOfMemory⟩] (encryption key m : Fallible ScheduleError κ AesKey)
      fun k => k.schedule.size = scheduleSize m := by
  have hr : m.rounds? key.length = some (14 * m.factor) := by
    rw [hl]
    rfl
  have hs : 0 < scheduleSize m := Nat.mul_pos (by decide) (Nat.succ_pos _)
  unfold encryption
  rw [hr]
  apply (draws_storage hs).bind rfl
  intro b _
  apply Draws.pure
  exact Aes.length_encryptionSchedule (RoundMultiplier.keyWords_le hr)

/-- Both schedules exist for a while. -/
theorem draws_decryption (m : RoundMultiplier) (hl : key.length = 32) :
    Draws [⟨scheduleSize m, .outOfMemory⟩, ⟨scheduleSize m, .outOfMemory⟩]
      (decryption key m : Fallible ScheduleError κ AesKey) fun _ => True := by
  apply (draws_encryption m hl).bind rfl
  intro enc henc
  rw [henc]
  have hpos : 0 < scheduleSize m := Nat.mul_pos (by decide) (Nat.succ_pos _)
  apply ((draws_storage hpos).releasing enc.schedule.quiet_release).bind rfl
  intro b _
  apply (Draws.perform enc.schedule.quiet_release).seq
  intro _ _
  exact Draws.pure trivial

end AesKey

namespace Cbc

open AesKey (scheduleSize)
open BlockCipher (Direction)

variable {κ : Type} {key : Bytes}

def stateSizes (m : RoundMultiplier) : Direction → List Nat
  | .encryption => [scheduleSize m, 16]
  | .decryption => [scheduleSize m, scheduleSize m, 16]

theorem draws_create (m : RoundMultiplier) (d : Direction) (hl : key.length = 32) :
    Draws (demands .block (stateSizes m d)) (create m key d : Attempt κ State) fun _ => True := by
  have hworking (k : AesKey) : Draws (demands .block [16])
      (Fallible.releasing k.release (Buffer.newFor .block 16) : Attempt κ Buffer) fun _ => True := by
    apply Draws.releasing _ k.schedule.quiet_release
    exact (Buffer.draws_newFor .block (by decide)).imp fun _ _ => trivial
  simp only [create, hl, ne_eq, not_true_eq_false, ↓reduceIte]
  cases d with
  | encryption =>
    apply ((AesKey.draws_encryption m hl).adapt (k := ScheduleError.forEncryption .block)).bind rfl
    intro k _
    apply (hworking k).bind rfl
    intro _ _
    exact Draws.pure trivial
  | decryption =>
    apply ((AesKey.draws_decryption m hl).adapt (k := ScheduleError.forDecryption .block)).bind rfl
    intro k _
    apply (hworking k).bind rfl
    intro _ _
    exact Draws.pure trivial

theorem draws_init (m : RoundMultiplier) (d : Direction) (hl : key.length = 32) :
    Draws (demands .block (stateSizes m d)) ((algorithm m).init key d : Attempt κ _) fun _ => True := by
  apply (draws_create m d hl).bind (List.append_nil _).symm
  intro _ _
  exact Draws.pure trivial

end Cbc

namespace Ctr

open AesKey (scheduleSize)

variable {κ : Type} {key : Bytes}

def stateSizes (m : RoundMultiplier) : List Nat := [scheduleSize m, 32]

theorem draws_create (m : RoundMultiplier) (hl : key.length = 32) :
    Draws (demands .stream (stateSizes m)) (create m key : Attempt κ State) fun _ => True := by
  simp only [create, hl, ne_eq, not_true_eq_false, ↓reduceIte]
  apply ((AesKey.draws_encryption m hl).adapt (k := ScheduleError.forEncryption .stream)).bind rfl
  intro k _
  apply ((Buffer.draws_newFor .stream (by decide)).releasing k.schedule.quiet_release).bind rfl
  intro _ _
  exact Draws.pure trivial

theorem draws_init (m : RoundMultiplier) (hl : key.length = 32) :
    Draws (demands .stream (stateSizes m)) ((algorithm m).init key : Attempt κ _) fun _ => True := by
  apply (draws_create m hl).bind (List.append_nil _).symm
  intro _ _
  exact Draws.pure trivial

end Ctr

namespace Curve25519

variable {κ : Type} {multiply : X25519.Multiplication} {v : Sha2.Variant}
variable {privateKey publicKey nonceA nonceB out shared : Bytes}

theorem draws_longTermSecret (hout : out.length = v.digestSize)
    (h : sharedCoordinate multiply privateKey publicKey = .ok shared) :
    Draws (demands .keyAgreement [192])
      (Attempt.checked (longTermSecret multiply v privateKey publicKey out : Action κ _))
      fun secret => secret.length = v.digestSize := by
  have hdigest : Draws (demands .keyAgreement [192])
      (sharedDigest multiply v privateKey publicKey out : Attempt κ _) (Sha2.State.Sound v) := by
    unfold sharedDigest
    rw [checkLength, if_pos hout, h]
    apply (Attempt.draws_require rfl).seq
    intro _ _
    apply (Draws.pure (Q := fun a => a = shared) rfl).seq
    rintro _ rfl
    apply (Attempt.draws_within (Sha2.draws_new v)).bind rfl
    intro s hs
    exact Draws.pure (hs.update _).1
  apply Attempt.draws_checked (answers_longTermSecret privateKey publicKey out) hdigest
  intro s hs
  obtain ⟨digest, t, ht, hlen, -⟩ := hs.finalize hout.ge
  rw [writeDigest, ht]
  apply t.quiet_release.bind
  intro _ _
  exact .pure ⟨rfl, hlen.trans hout⟩

theorem draws_absorbNonces (v : Sha2.Variant) (key nonceA nonceB : Bytes) :
    Draws (demands .keyAgreement (Hmac.stateSizes v key))
      (absorbNonces v key nonceA nonceB : Attempt κ _)
      ((Hmac.ofVariant (agreementName v) v).Runs (Hmac.State.Fits v)) := by
  refine Draws.of_answers (Q := fun _ => True) ?_ fun _ _ _ _ h => fits_of_runFrom_absorbNonces h
  apply (Attempt.draws_within (Hmac.draws_init (agreementName v) v key)).bind
    (List.append_nil _).symm
  rintro ⟨_, s⟩ ⟨rfl, -⟩
  apply (Draws.perform (Hmac.quiet_digest _ v s nonceA)).seq
  rintro _ rfl
  apply ((Attempt.draws_require rfl).releasing (Hmac.quiet_release _ v _ rfl)).seq
  intro _ _
  apply (Draws.perform (Hmac.quiet_digest _ v _ nonceB)).seq
  rintro _ rfl
  apply ((Attempt.draws_require rfl).releasing (Hmac.quiet_release _ v _ rfl)).seq
  intro _ _
  exact Draws.pure trivial

/-- What a short-term secret needs: the long-term secret and the digest that makes it, then a code. The
long-term secret is too short a key to be hashed. -/
def shortTermSizes (v : Sha2.Variant) : List Nat :=
  [v.digestSize, 192, 256, 2 * v.digestSize, 192, 192]

theorem draws_shortTermSecret (hA : nonceA.length = v.digestSize) (hB : nonceB.length = v.digestSize)
    (hout : out.length = v.digestSize)
    (h : sharedCoordinate multiply privateKey publicKey = .ok shared) :
    Draws (demands .keyAgreement (shortTermSizes v))
      (Attempt.checked (shortTermSecret multiply v privateKey publicKey nonceA nonceB out : Action κ _))
      fun _ => True := by
  have hv := v.digestSize_le
  have hcheck : checkAll (nonceArguments v nonceA nonceB out) = .ok () := by
    rw [checkAll_eq, nonceArguments_fit.mpr ⟨hout, hA, hB⟩]
  have hcode : Draws (demands .keyAgreement (shortTermSizes v))
      (nonceCode multiply v privateKey publicKey nonceA nonceB out : Attempt κ _)
      fun r => (Hmac.ofVariant (agreementName v) v).Runs (Hmac.State.Fits v) r.2 := by
    rw [nonceCode_eq, hcheck]
    apply (Attempt.draws_require rfl).seq
    intro _ _
    apply (Buffer.draws_newFor .keyAgreement v.digestSize_pos).bind rfl
    intro longTerm hroom
    apply ((draws_longTermSecret hroom h).releasing longTerm.quiet_release).bind rfl
    intro key hkey
    have hsizes : Hmac.stateSizes v key = [256, 2 * v.digestSize, 192, 192] :=
      Hmac.stateSizes_of_le (by omega)
    have habsorb := draws_absorbNonces (κ := κ) v key nonceA nonceB
    rw [hsizes] at habsorb
    apply (habsorb.releasing (longTerm.setBytes key).quiet_release).bind rfl
    intro c hc
    exact Draws.pure hc
  apply Attempt.draws_checked (answers_shortTermSecret privateKey publicKey nonceA nonceB out) hcode
  rintro ⟨longTerm, c⟩ hc
  apply (Hmac.quiet_finalize _ v c hc (hout ▸ v.digestSize_pos) hout.le).bind
  rintro ⟨status, code, d⟩ ⟨hok, hd⟩
  apply (Hmac.quiet_release _ v d hd.1).bind
  intro _ _
  apply longTerm.quiet_release.bind
  intro _ _
  exact .pure ⟨hok, trivial⟩

end Curve25519

namespace Pbkdf2

variable {κ σ : Type} {prf : Mac.Algorithm κ σ} {Keyed : σ → Prop} {password salt : Bytes}
  {rounds length : Nat} {sizes : List Nat}

/-- The keyed computation reports what it is refused in its own name. -/
theorem draws_deriveBytes (h : prf.Steady Keyed)
    (hcreate : Draws (demands .mac sizes) (prf.create password) Keyed)
    (hrelease : ∀ s, (prf.release s).Quiet fun _ => True)
    (hcheck : check prf.macSize length salt rounds = .ok ()) :
    Draws (demands .mac sizes ++ demands .keyDerivation [prf.macSize, prf.macSize])
      (deriveBytes prf length password salt rounds) fun _ => True := by
  obtain ⟨-, -, -, hsize, hcount⟩ := (check_eq_ok_iff prf.macSize length salt rounds).mp hcheck
  have hnew := Buffer.draws_newFor (κ := κ) .keyDerivation hsize
  unfold deriveBytes
  rw [hcheck]
  apply (Attempt.draws_require rfl).seq
  intro _ _
  apply hcreate.bind rfl
  intro mac hmac
  apply (hnew.releasing (hrelease mac)).bind rfl
  intro last hlast
  have hcleanup : (do last.release; prf.release mac : Action κ Unit).Quiet fun _ => True := by
    apply last.quiet_release.bind
    intro _ _
    exact hrelease mac
  apply (hnew.releasing hcleanup).bind rfl
  intro sum hsum
  have hmake : ((chunks prf salt rounds (chunkCount length prf.macSize) 0).on ⟨mac, last, sum⟩).Quiet
      fun r => ∃ made, r.1 = .ok made := by
    have hsound : (⟨mac, last, sum⟩ : Chain σ).Sound prf Keyed := ⟨hmac, hlast, hsum⟩
    have hcounter : 0 + chunkCount length prf.macSize < 2 ^ 32 := by omega
    apply Action.Quiet.of_runFrom
    intro μ
    obtain ⟨made, d, hd, -, -⟩ := Step.Completes.chunks h hsize salt rounds hcounter _ μ hsound
    exact ⟨_, hd, made, rfl⟩
  apply (Draws.perform hmake).seq
  rintro ⟨_, c⟩ ⟨made, rfl⟩
  have hreturn : (do c.sum.release; c.last.release; prf.release c.mac : Action κ Unit).Quiet
      fun _ => True := by
    apply c.sum.quiet_release.bind
    intro _ _
    apply c.last.quiet_release.bind
    intro _ _
    exact hrelease c.mac
  apply (Draws.perform hreturn).seq
  intro _ _
  apply (Draws.pure (Q := fun _ => True) trivial).seq
  intro _ _
  exact Draws.pure trivial

theorem draws_derive (name : String) (v : Sha2.Variant) {key : Bytes}
    (hcheck : check v.digestSize key.length salt rounds = .ok ()) :
    Draws (demands .mac (Hmac.stateSizes v password) ++
        demands .keyDerivation [v.digestSize, v.digestSize])
      (Attempt.checked (derive (Hmac.ofVariant name v) key password salt rounds : Action κ _))
      fun _ => True := by
  have hmake := draws_deriveBytes (Hmac.steady (κ := κ) name v)
    (Hmac.draws_create v password) (fun s => s.quiet_release) hcheck
  apply Attempt.draws_checked (answers_derive key password salt rounds) hmake
  intro made _
  exact .pure ⟨rfl, trivial⟩

end Pbkdf2

open Pbkdf2 (chunkCount) in
/-- Whatever the allocator does with each request, the operations below make the requests listed, until
one is not served, and fail exactly then. New contexts and agreed secrets report it against the component
that was asked for. A derivation reports the requests of its keyed computation as that one does, and a
one-shot operation reports against the buffer what was asked for the buffer. -/
theorem unserved_requests_reported {κ : Type} (multiply : X25519.Multiplication) (v : Sha2.Variant)
    (name : String) :
    Draws (demands .hash [192]) ((Sha2.algorithm v).init : Attempt κ _) (fun _ => True) ∧
    (∀ key, Draws (demands .mac (Hmac.stateSizes v key))
      ((Hmac.ofVariant name v).init key : Attempt κ _) fun _ => True) ∧
    (∀ m d (key : Bytes), key.length = 32 → Draws (demands .block (Cbc.stateSizes m d))
      ((Cbc.algorithm m).init key d : Attempt κ _) fun _ => True) ∧
    (∀ m (key : Bytes), key.length = 32 → Draws (demands .stream (Ctr.stateSizes m))
      ((Ctr.algorithm m).init key : Attempt κ _) fun _ => True) ∧
    (∀ privateKey publicKey out : Bytes, privateKey.length = 32 → publicKey.length = 32 →
      (multiply privateKey publicKey).all (· == 0) = false → out.length = v.digestSize →
      Draws (demands .keyAgreement [192]) (Attempt.checked
        ((Curve25519.agreement multiply v).longTermSecret privateKey publicKey out : Action κ _))
        (fun _ => True) ∧
      ∀ nonceA nonceB : Bytes, nonceA.length = v.digestSize → nonceB.length = v.digestSize →
        Draws (demands .keyAgreement (Curve25519.shortTermSizes v)) (Attempt.checked
          ((Curve25519.agreement multiply v).shortTermSecret privateKey publicKey nonceA nonceB out :
            Action κ _)) fun _ => True) ∧
    (∀ (password salt key : Bytes) (rounds : Nat), 0 < rounds → 0 < key.length → salt ≠ [] →
      chunkCount key.length v.digestSize < 2 ^ 32 →
      Draws (demands .mac (Hmac.stateSizes v password) ++
          demands .keyDerivation [v.digestSize, v.digestSize])
        (Attempt.checked (KeyDerivation.pbkdf2.derive (Hmac.ofVariant name v) key password salt rounds :
          Action κ _)) fun _ => True) ∧
    (∀ data, Draws (demands .hash [192] ++ demands .buffer [v.digestSize])
      ((Sha2.algorithm v).hash data : Attempt κ Buffer) fun _ => True) ∧
    ∀ key message, Draws (demands .mac (Hmac.stateSizes v key) ++ demands .buffer [v.digestSize])
      ((Hmac.ofVariant name v).compute key message : Attempt κ Buffer) fun _ => True := by
  refine ⟨(Sha2.draws_init v).imp fun _ _ => trivial, ?_, ?_, ?_, ?_, ?_, Sha2.draws_hash v,
    Hmac.draws_compute name v⟩
  · intro key
    exact (Hmac.draws_init name v key).imp fun _ _ => trivial
  · intro m d key hl
    exact Cbc.draws_init m d hl
  · intro m key hl
    exact Ctr.draws_init m hl
  · intro privateKey publicKey out hprivate hpublic hcontributed hout
    have hshared : Curve25519.sharedCoordinate multiply privateKey publicKey =
        .ok (multiply privateKey publicKey) := by
      rw [Curve25519.sharedCoordinate_fits (Curve25519.keys_fit.mpr ⟨hprivate, hpublic⟩),
        Curve25519.contribution, hcontributed]
      rfl
    constructor
    · exact (Curve25519.draws_longTermSecret hout hshared).imp fun _ _ => trivial
    · intro nonceA nonceB hA hB
      exact Curve25519.draws_shortTermSecret hA hB hout hshared
  · intro password salt key rounds hrounds hkey hsalt hcount
    apply Pbkdf2.draws_derive
    rw [Pbkdf2.check_eq_ok_iff]
    exact ⟨hrounds, hkey, hsalt, v.digestSize_pos, hcount⟩

/-- A machine whose allocator answers request number `n` in its own way, and serves all others. -/
def Machine.faltering (n : Nat) (answer : Option Nat) : Machine Unit :=
  { Machine.system with heap := Heap.start fun k size => if k = n then answer else some size }

/-- A refusal in the middle of an agreement and one that would come after its last request, a region that
does not fit a schedule, a refusal of each kind of request of a derivation, and one of the room for a code. -/
theorem unserved_requests_reported_each :
    let A : KeyAgreement.Algorithm Unit := Curve25519.agreement X25519.multiply .sha512
    let peer := Curve25519.publicKeyOf X25519.multiply X25519.sampleB
    let room := Bytes.zeros 64
    let prf := Hmac.ofVariant (κ := Unit) "prf" .sha512
    (((Attempt.checked (A.shortTermSecret X25519.sampleA peer room room room)).runFrom
      (Machine.faltering 4 none)).1.map fun _ => ()) = .error (.outOfMemory .keyAgreement) ∧
    (((Attempt.checked (A.shortTermSecret X25519.sampleA peer room room room)).runFrom
      (Machine.faltering 6 none)).1.map fun _ => ()) = .ok () ∧
    ((((Cbc.algorithm .double).init (Bytes.zeros 32) .decryption).runFrom
      (Machine.faltering 1 (some 465))).1.map fun _ => ()) = .error (.outOfMemory .block) ∧
    (((Attempt.checked (KeyDerivation.pbkdf2.derive prf [0] (Bytes.zeros 129) [7] 1)).runFrom
      (Machine.faltering 4 none)).1.map fun _ => ()) = .error (.outOfMemory .mac) ∧
    (((Attempt.checked (KeyDerivation.pbkdf2.derive prf [0] (Bytes.zeros 129) [7] 1)).runFrom
      (Machine.faltering 5 none)).1.map fun _ => ()) = .error (.outOfMemory .keyDerivation) ∧
    (((prf.compute [] [1, 2, 3]).runFrom (Machine.faltering 4 none)).1.map fun _ => ()) =
      .error (.outOfMemory .buffer) := by
  intro A peer room prf
  obtain ⟨-, -, hblock, -, hagreement, hderive, -, hcompute⟩ :=
    unserved_requests_reported (κ := Unit) X25519.multiply .sha512 "prf"
  have hshort := (hagreement X25519.sampleA peer room rfl (by decide +kernel) (by decide +kernel)
    rfl).2 room room rfl rfl
  have hkey := hderive (Bytes.zeros 129) [7] [0] 1 (by decide) (by decide) (by decide) (by decide)
  refine ⟨(hshort _).1.trans ?_, (hshort _).1.trans ?_, (hblock _ _ _ rfl _).1.trans ?_,
    (hkey _).1.trans ?_, (hkey _).1.trans ?_, (hcompute _ _ _).1.trans ?_⟩
  all_goals decide +kernel

end CryptoSuite
