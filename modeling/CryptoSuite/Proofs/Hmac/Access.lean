import CryptoSuite.Proofs.Hash.Mirror
import CryptoSuite.Proofs.Mac.Mirror
import CryptoSuite.Proofs.Memory.Keyed
import CryptoSuite.Proofs.Sha2.Access

/-! The slices that a code takes of its pads and of its room. They are as large as the hash function asks for,
so that codes over two hash functions that go alike go alike, with the slices checked or not. -/
namespace CryptoSuite.Hmac

variable {κ σ : Type}

/-- Creates with `fault` in place of slices that the pads do not have. -/
def createGuarded (fault : CryptoError) (h : Hash.Algorithm κ σ) (key : Bytes) : Attempt κ (State σ) := do
  let pads ← Buffer.newFor .mac (← doubled h.blockSize)
  Fallible.releasing pads.release do
    let work ← Buffer.newFor .mac (← doubled h.digestSize)
    Fallible.releasing work.release do
      Attempt.insist fault (h.blockSize ≤ pads.size)
      let pads := pads.setBytes (padsOf (← paddedKey h key))
      let inner ← createHash h
      let (status, inner) ← Fallible.perform (h.update inner (pads.bytes.take h.blockSize))
      let outer ← Fallible.releasing (h.release inner) do
        Attempt.require status
        createHash h
      pure ⟨inner, outer, pads, work⟩

/-- An output that codes do not have is refused before pads and room are split. -/
def finalizeGuarded (fault : CryptoError) (h : Hash.Algorithm κ σ) (s : State σ) (out : Bytes) :
    Action κ (Status × Bytes × State σ) :=
  if (out.isEmpty ∨ h.digestSize < out.length) ∨ (h.blockSize ≤ s.pads.size ∧ h.digestSize ≤ s.work.size) then
    finalize h s out
  else pure (.error fault, out, s)

/-- The code with `fault` in place of every slice out of range. -/
def guarded (fault : CryptoError) (name : String) (h : Hash.Algorithm κ σ) : Mac.Algorithm κ (State σ) :=
  { algorithm name h with
    create := createGuarded fault h
    finalize := finalizeGuarded fault h }

variable {a b : Hash.Algorithm κ σ} {Sound : σ → Prop} {s : State σ}

theorem mirrors_doubled {size : Nat} (h : 2 * size < 1 <<< 64) :
    Attempt.Mirrors (fun n n' => n = n' ∧ n' = 2 * size) (doubled size : Attempt κ Nat) (doubled size) := by
  rw [doubled, if_pos h]
  exact .pure ⟨rfl, rfl⟩

section

variable (h : a.Mirrors b Sound)

include h

theorem mirrors_createHash :
    Attempt.Mirrors (fun s s' => s = s' ∧ Sound s') (createHash a) (createHash b) :=
  Attempt.mirrors_within h.create .mac

/-- The padded key is one block. -/
theorem mirrors_paddedKey (key : Bytes) :
    Attempt.Mirrors (fun k k' => k = k' ∧ k'.length = b.blockSize) (paddedKey a key) (paddedKey b key) := by
  unfold paddedKey
  rw [h.blockSize_eq]
  split_ifs with hl
  · apply (mirrors_createHash h).bind
    rintro s _ ⟨rfl, hs⟩
    apply (Fallible.Mirrors.perform (h.update s key hs)).bind
    rintro ⟨status, t⟩ _ ⟨rfl, hok, ht⟩
    apply ((Attempt.mirrors_require hok).releasing (h.mirrors_release t)).bind
    intro _ _ _
    apply (Fallible.Mirrors.perform (h.finalize t (Bytes.zeros b.blockSize) ht)).bind
    rintro ⟨status, block, u⟩ _ ⟨rfl, hok, hlen, hu⟩
    apply (Fallible.Mirrors.perform (h.mirrors_release u)).bind
    intro _ _ _
    apply (Attempt.mirrors_require hok).bind
    intro _ _ _
    exact .pure ⟨rfl, hlen.trans (Bytes.length_zeros _)⟩
  · apply Fallible.Mirrors.pure
    refine ⟨rfl, ?_⟩
    rw [List.length_append, Bytes.length_zeros]
    omega

theorem mirrors_create (hs : Suits b) (fault : CryptoError) (key : Bytes) :
    Attempt.Mirrors (fun s s' => s = s' ∧ s'.Sound b Sound) (createGuarded fault a key) (create b key) := by
  have hdigest := hs.digest_le
  have hpos := hs.digest_pos
  have hblock := hs.block_lt
  unfold createGuarded create
  rw [h.blockSize_eq, h.digestSize_eq]
  apply (mirrors_doubled hblock).bind
  rintro _ _ ⟨rfl, rfl⟩
  apply (Buffer.mirrors_newFor .mac _).bind
  rintro pads _ ⟨rfl, hpads⟩
  refine Fallible.Mirrors.releasing ?_ pads.mirrors_release
  apply (mirrors_doubled (by omega)).bind
  rintro _ _ ⟨rfl, rfl⟩
  apply (Buffer.mirrors_newFor .mac _).bind
  rintro work _ ⟨rfl, hwork⟩
  refine Fallible.Mirrors.releasing ?_ work.mirrors_release
  rw [Attempt.insist_bind (by omega)]
  apply (mirrors_paddedKey h key).bind
  rintro block _ ⟨rfl, hlen⟩
  apply (mirrors_createHash h).bind
  rintro inner _ ⟨rfl, hinner⟩
  apply (Fallible.Mirrors.perform (h.update inner _ hinner)).bind
  rintro ⟨status, inner⟩ _ ⟨rfl, hok, hinner⟩
  have houter : Attempt.Mirrors (fun s s' => s = s' ∧ Sound s')
      (do Attempt.require status; createHash a) (do Attempt.require status; createHash b) :=
    (Attempt.mirrors_require hok).bind fun _ _ _ => mirrors_createHash h
  apply (houter.releasing (h.mirrors_release inner)).bind
  rintro outer _ ⟨rfl, houter⟩
  refine .pure ⟨rfl, hinner, houter, ?_, hwork⟩
  change (padsOf block).length = _
  rw [length_padsOf, hlen]

theorem mirrors_update (hs : s.Sound b Sound) (data : Bytes) :
    Action.Mirrors (fun r r' => r = r' ∧ Status.Ordinary r'.1 ∧ r'.2.Sound b Sound) (update a s data)
      (update b s data) := by
  apply (h.update s.inner data hs.inner).bind
  rintro ⟨status, inner⟩ _ ⟨rfl, hok, hinner⟩
  exact .pure ⟨rfl, hok, { hs with inner := hinner }⟩

/-- Both computations and both buffers stay what they are. -/
theorem mirrors_computeCode (hs : s.Sound b Sound) :
    Action.Mirrors (fun r r' => r = r' ∧ Status.Ordinary r'.1 ∧ r'.2.Sound b Sound) (computeCode a s)
      (computeCode b s) := by
  have hwork := hs.work_size
  have hin : (s.work.bytes.take b.digestSize).length = b.digestSize := by
    rw [List.length_take]
    change min b.digestSize s.work.size = _
    omega
  unfold computeCode
  rw [h.blockSize_eq, h.digestSize_eq]
  apply (h.finalize s.inner _ hs.inner).bind
  rintro ⟨status, digest, inner⟩ _ ⟨rfl, hok, hdigest, hinner⟩
  have hdigest : digest.length = b.digestSize := hdigest.trans hin
  have hw : (s.work.write 0 digest).size = s.work.size := by
    apply Bytes.length_overwrite
    change 0 + digest.length ≤ s.work.size
    omega
  have hwritten : State.Sound b Sound { s with inner, work := s.work.write 0 digest } :=
    ⟨hinner, hs.outer, hs.pads_size, hw.trans hwork⟩
  cases status with
  | error e => exact .pure ⟨rfl, hok, hwritten⟩
  | ok _ =>
    apply (h.update s.outer _ hs.outer).bind
    rintro ⟨status, outer⟩ _ ⟨rfl, hok, houter⟩
    cases status with
    | error e => exact .pure ⟨rfl, hok, { hwritten with outer := houter }⟩
    | ok _ =>
      apply (h.update outer digest houter).bind
      rintro ⟨status, outer⟩ _ ⟨rfl, hok, houter⟩
      cases status with
      | error e => exact .pure ⟨rfl, hok, { hwritten with outer := houter }⟩
      | ok _ =>
        apply (h.finalize outer _ houter).bind
        rintro ⟨status, code, outer⟩ _ ⟨rfl, hok, hcode, houter⟩
        refine .pure ⟨rfl, hok, hinner, houter, hs.pads_size, ?_⟩
        refine (Bytes.length_overwrite ?_).trans (hw.trans hwork)
        have hout : code.length = (s.work.write 0 digest).size - b.digestSize :=
          hcode.trans List.length_drop
        change b.digestSize + code.length ≤ (s.work.write 0 digest).size
        omega

theorem mirrors_finalize (hs : s.Sound b Sound) (fault : CryptoError) (out : Bytes) :
    Action.Mirrors (fun r r' => r = r' ∧ Status.Ordinary r'.1 ∧ r'.2.1.length = out.length ∧
      r'.2.2.Sound b Sound) (finalizeGuarded fault a s out) (finalize b s out) := by
  have hpads := hs.pads_size
  have hwork := hs.work_size
  unfold finalizeGuarded
  rw [h.blockSize_eq, h.digestSize_eq, if_pos (.inr ⟨by omega, by omega⟩)]
  unfold finalize
  rw [h.blockSize_eq, h.digestSize_eq]
  split_ifs with ho
  · exact .pure ⟨rfl, .error nofun, rfl, hs⟩
  · apply (mirrors_computeCode h hs).bind
    rintro ⟨status, t⟩ _ ⟨rfl, hok, ht⟩
    cases status with
    | error e => exact .pure ⟨rfl, hok, rfl, ht⟩
    | ok _ =>
      apply (h.update t.inner _ ht.inner).bind
      rintro ⟨status, inner⟩ _ ⟨rfl, hok, hinner⟩
      refine .pure ⟨rfl, hok, ?_, hinner, ht.outer, ht.pads_size, ?_⟩
      · apply Bytes.length_overwrite
        rw [List.length_take]
        omega
      · exact (Bytes.length_zeros _).trans ht.work_size

theorem mirrors_guarded (hs : Suits b) (fault : CryptoError) (name : String) :
    (guarded fault name a).Mirrors CryptoError.Ordinary (algorithm name b) (State.Sound b Sound) where
  macSize_eq := h.digestSize_eq
  create := mirrors_create h hs fault
  update _ data hsound := mirrors_update h hsound data
  finalize _ out hsound := mirrors_finalize h hsound fault out
  release s := by
    change release a s = release b s
    unfold release
    rw [h.release, h.release]

end

/-- The code over the SHA-2 family with `fault` in place of every access out of range. -/
theorem mirrors_guarded_sha2 (fault : CryptoError) (name : String) (v : Sha2.Variant) :
    (guarded fault name (Sha2.guarded (κ := κ) fault v)).Mirrors CryptoError.Ordinary
      (algorithm name (Sha2.algorithm v)) (SoundOver κ v) :=
  mirrors_guarded (Sha2.mirrors_guarded fault v) (suits_sha2 v) fault name

end CryptoSuite.Hmac
