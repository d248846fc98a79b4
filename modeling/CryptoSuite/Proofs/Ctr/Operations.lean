import CryptoSuite.Proofs.Ctr.Keystream

/-! What each operation answers at a position of the keystream, and where it leaves the state. -/
namespace CryptoSuite.Ctr

open Aes (encipher)
open StreamCipher (Cursor)

def mask (m : RoundMultiplier) (key nonce : Bytes) (position : Nat) (input : Bytes) : Bytes :=
  input.mapIdx fun i x => x ^^^ keystream m key nonce (position + i)

variable {m : RoundMultiplier} {key nonce : Bytes} {position : Nat} {s : State}

@[simp] theorem length_mask (input : Bytes) :
    (mask m key nonce position input).length = input.length := by simp [mask]

theorem mask_cons (x : UInt8) (input : Bytes) :
    mask m key nonce position (x :: input) =
      (x ^^^ keystream m key nonce position) :: mask m key nonce (position + 1) input := by
  simp [mask, List.mapIdx_cons, Nat.add_assoc, Nat.add_comm 1]

theorem getElem?_mask (input : Bytes) (i : Nat) :
    (mask m key nonce position input)[i]? =
      input[i]?.map (· ^^^ keystream m key nonce (position + i)) := by simp [mask]

theorem mask_append (a b : Bytes) :
    mask m key nonce position (a ++ b) =
      mask m key nonce position a ++ mask m key nonce (position + a.length) b := by
  induction a generalizing position with
  | nil => rfl
  | cons x a ih => simp [mask_cons, ih, Nat.add_assoc, Nat.add_comm 1]

/-- Masking twice at one position is masking not at all, so that decryption is encryption. -/
theorem mask_mask (input : Bytes) :
    mask m key nonce position (mask m key nonce position input) = input := by
  induction input generalizing position with
  | nil => rfl
  | cons x input ih =>
    rw [mask_cons, mask_cons, ih, UInt8.xor_assoc, UInt8.xor_self, UInt8.xor_zero]

theorem take_mask (input : Bytes) (j : Nat) :
    (mask m key nonce position input).take j = mask m key nonce position (input.take j) := by
  apply List.ext_getElem?
  intro i
  rw [List.getElem?_take, getElem?_mask, getElem?_mask, List.getElem?_take]
  split <;> rfl

theorem drop_mask (input : Bytes) (i : Nat) :
    (mask m key nonce position input).drop i = mask m key nonce (position + i) (input.drop i) := by
  apply List.ext_getElem?
  intro j
  rw [List.getElem?_drop, getElem?_mask, getElem?_mask, List.getElem?_drop, Nat.add_assoc]

theorem Follows.foldl_step (h : Follows m key nonce position s) (made input : Bytes) :
    ∃ t, input.foldl Progress.step ⟨.ok (), made, s⟩ =
        ⟨.ok (), (mask m key nonce position input).reverse ++ made, t⟩ ∧
      Follows m key nonce (position + input.length) t := by
  induction input generalizing position s made with
  | nil => exact ⟨s, rfl, h⟩
  | cons x input ih =>
    obtain ⟨t, ht, hf⟩ := h.nextByte_eq
    obtain ⟨u, hu, hg⟩ := ih hf ((x ^^^ keystream m key nonce position) :: made)
    refine ⟨u, ?_, ?_⟩
    · rw [List.foldl_cons, Progress.step, ht, hu, mask_cons]
      simp
    · rwa [List.length_cons, Nat.add_comm input.length, ← Nat.add_assoc]

/-- An input that fits is masked in place, and the position moves past it. -/
theorem Follows.apply_eq (h : Follows m key nonce position s) {input : Bytes} {out : Cursor}
    (hfit : out.offset + input.length ≤ out.output.length) :
    ∃ t, apply s input out =
        (.ok (), ⟨out.output.overwrite out.offset (mask m key nonce position input),
          out.offset + input.length⟩, t) ∧
      Follows m key nonce (position + input.length) t := by
  obtain ⟨t, ht, hf⟩ := h.foldl_step [] input
  refine ⟨t, ?_, hf⟩
  have hn : ¬out.output.length < out.offset + input.length := by omega
  simp [apply, h.started, hn, ht]

theorem apply_overflow {input : Bytes} {out : Cursor} (h : s.started = true)
    (hfit : out.output.length < out.offset + input.length) :
    apply s input out = (.error (.invalidArgument .stream
      (.outputOverflow out.output.length input.length out.offset)), out, s) := by
  simp [apply, h, hfit]

theorem apply_not_started {input : Bytes} {out : Cursor} (h : s.started = false) :
    apply s input out = (.error (.invalidArgument .stream .notStarted), out, s) := by
  simp [apply, h]

/-- Moving to a position under a nonce that was just taken in. -/
theorem Keyed.seek_eq (h : Keyed m key s) (hl : nonce.length = nonceSize) (target : UInt64) :
    ∃ t, ({ s with blocks := s.blocks.write 0 nonce } : State).seek target = (.ok (), t) ∧
      Follows m key nonce target.toNat t := by
  have hk : Keyed m key { s with blocks := s.blocks.write 0 nonce } := h.write (by simp [hl, nonceSize])
  have hk' : Keyed m key { s with
      blocks := (s.blocks.write 0 nonce).write nonceSize (Bytes.ofUInt64 (target / 16)) } :=
    hk.write (by simp [nonceSize])
  have hb : target.toNat / 16 < 2 ^ 64 := by
    have := target.toNat_lt
    omega
  have hc : ((s.blocks.write 0 nonce).write nonceSize (Bytes.ofUInt64 (target / 16))).bytes.take 16 =
      counterBlock nonce (target.toNat / 16) := by
    have hd : target / 16 = UInt64.ofNat (target.toNat / 16) := by
      apply UInt64.toNat_inj.mp
      rw [UInt64.toNat_ofNat_of_lt' hb, UInt64.toNat_div]
      rfl
    have h16 : (nonce ++ Bytes.ofUInt64 (target / 16)).length = 16 := by simp [hl, nonceSize]
    have hw (rest : Bytes) : (nonce ++ (Bytes.ofUInt64 (target / 16) ++ rest)).take 16 =
        nonce ++ Bytes.ofUInt64 (target / 16) := by
      rw [← List.append_assoc, List.take_left' h16]
    rw [counterBlock_eq_append hl hb, ← hd]
    simpa [Buffer.write, Bytes.overwrite, hl, nonceSize] using hw _
  have hu : (target % 16).toNat ≤ 16 := by
    rw [UInt64.toNat_mod]
    exact (Nat.mod_lt _ (by decide)).le
  obtain ⟨t, ht, -, hf⟩ := Follows.of_refill hk' hc hu
  refine ⟨{ t with used := (target % 16).toNat, started := true }, ?_, ?_⟩
  · simp only [State.seek, ht]
  · have hp : 16 * (target.toNat / 16) + (target % 16).toNat = target.toNat := by
      rw [UInt64.toNat_mod]
      exact Nat.div_add_mod target.toNat 16
    rwa [hp] at hf

theorem Keyed.resume_eq (h : Keyed m key s) (hl : nonce.length = nonceSize) (target : UInt64) :
    ∃ t, resume s nonce target = (.ok (), t) ∧ Follows m key nonce target.toNat t := by
  obtain ⟨t, ht, hf⟩ := h.seek_eq hl target
  exact ⟨t, by simp only [resume, State.loadNonce, hl, ne_eq, not_true_eq_false, ↓reduceIte, ht], hf⟩

theorem resume_length {target : UInt64} (hl : nonce.length ≠ nonceSize) :
    resume s nonce target =
      (.error (.invalidArgument .stream (.length .iv nonceSize nonce.length)), s) := by
  simp [resume, State.loadNonce, hl]

theorem Keyed.startEncryption_eq (h : Keyed m key s) {out : Cursor} (hl : nonce.length = nonceSize)
    (ho : nonceSize ≤ out.output.length) :
    ∃ t, startEncryption s nonce out =
        (.ok (), ⟨out.output.overwrite 0 nonce, nonceSize⟩, t) ∧ Follows m key nonce 0 t := by
  obtain ⟨t, ht, hf⟩ := h.seek_eq hl 0
  have hn : ¬out.output.length < nonceSize := by omega
  refine ⟨t, ?_, hf⟩
  simp only [startEncryption, hn, ↓reduceIte, State.loadNonce, hl, ne_eq, not_true_eq_false, ht]

theorem Keyed.startDecryption_eq (h : Keyed m key s) {input : Bytes} {offset : Nat}
    (hi : nonceSize ≤ input.length) :
    ∃ t, startDecryption s input offset = (.ok (), nonceSize, t) ∧
      Follows m key (input.take nonceSize) 0 t := by
  have hl : (input.take nonceSize).length = nonceSize := by simp [hi]
  obtain ⟨t, ht, hf⟩ := h.resume_eq hl 0
  have hn : ¬input.length < nonceSize := by omega
  exact ⟨t, by simp only [startDecryption, hn, ↓reduceIte, ht], hf⟩

end CryptoSuite.Ctr
