import CryptoSuite.Proofs.Memory.Grants
import CryptoSuite.Proofs.Sha2.Conformance
import CryptoSuite.Proofs.Sha2.Finishing

/-! States as the messages they have absorbed. Absorbing appends, and finishing yields the digest
of the message and the state in which the computation was created. -/
namespace CryptoSuite.Sha2

/-- A state reached from the fresh state `origin` by absorbing the message. -/
structure Represents (origin : State) (message : Bytes) (s : State) : Prop
    extends Holds message s where
  bits_eq : s.bits = 8 * message.length % 2 ^ 128
  reset_eq : s.reset = origin

namespace State

/-- What a reset leaves depends on the variant and on which region the state owns. -/
theorem reset_congr {s t : State} (hv : s.variant = t.variant)
    (hr : s.storage.region.id = t.storage.region.id) : s.reset = t.reset := by
  simp only [reset, store, Buffer.setBytes, hv, hr]

theorem reset_update (s : State) (data : Bytes) : (s.update data).reset = s.reset := by
  apply reset_congr <;>
    · unfold update
      dsimp only
      split_ifs <;> rfl

theorem reset_finish (s : State) : s.finish.reset = s.reset := by
  apply reset_congr <;>
    · unfold finish closeMessage
      dsimp only
      split_ifs <;> rfl

theorem bits_lt (s : State) : s.bits < 2 ^ 128 := by
  have hl := s.bitsLow.toNat_lt
  have hh := s.bitsHigh.toNat_lt
  rw [bits]
  omega

theorem bits_update (s : State) {data : Bytes} (h : data.length < 2 ^ 64) :
    (s.update data).bits = (s.bits + 8 * data.length) % 2 ^ 128 := by
  rw [update]
  split_ifs with he
  · have hl := s.bits_lt
    rw [List.isEmpty_iff.mp he, List.length_nil, Nat.mul_zero, Nat.add_zero, Nat.mod_eq_of_lt hl]
  · rw [← bits_countBits s h]
    dsimp only
    split_ifs <;> rfl

theorem holds_reset (s : State) : Holds [] s.reset where
  size := size_store (Chain.length_toBytes _) (Bytes.length_zeros 128)
  chain_eq := by
    have hb : blocks [] = [] := blocks_of_lt (by decide)
    rw [chained, hb]
    exact chain_store (Chain.length_toBytes _)
  filled_eq := rfl
  block_eq := rfl

theorem bits_reset (s : State) : s.reset.bits = 0 := by simp [bits, reset]

end State

namespace Represents

variable {origin : State} {message : Bytes} {s : State}

theorem variant_eq (h : Represents origin message s) : s.variant = origin.variant := by
  rw [← h.reset_eq]
  rfl

theorem reset (h : Represents origin message s) : Represents origin [] s.reset where
  toHolds := s.holds_reset
  bits_eq := s.bits_reset
  reset_eq := h.reset_eq

theorem fresh (s : State) : Represents s.reset [] s.reset where
  toHolds := s.holds_reset
  bits_eq := s.bits_reset
  reset_eq := rfl

theorem origin_empty (h : Represents origin message s) : Represents origin [] origin := by
  rw [← h.reset_eq]
  exact fresh s

theorem update (h : Represents origin message s) {data : Bytes} (hd : data.length < 2 ^ 64) :
    Represents origin (message ++ data) (s.update data) where
  toHolds := h.toHolds.update data
  bits_eq := by
    rw [State.bits_update s hd, h.bits_eq, List.length_append]
    omega
  reset_eq := (s.reset_update data).trans h.reset_eq

theorem finalize_eq (h : Represents origin message s) {out : Bytes}
    (ho : s.variant.digestSize ≤ out.length) :
    s.finalize out =
      (.ok (), digest s.variant message ++ out.drop s.variant.digestSize, origin) := by
  have hchain := h.chain_finish h.bits_eq
  have hl : (s.finish.chain.take s.variant.digestSize).length = s.variant.digestSize := by
    rw [hchain, List.length_take, Chain.length_toBytes]
    exact Nat.min_eq_left s.variant.digestSize_le
  rw [State.finalize, if_neg (Nat.not_lt.mpr ho)]
  dsimp only
  rw [Bytes.overwrite_zero, hl, hchain, State.reset_finish, h.reset_eq, digest_eq_chained]

theorem finalize_short {out : Bytes} (ho : out.length < s.variant.digestSize) :
    s.finalize out =
      (.error (.invalidArgument .hash (.shortDigestOutput s.variant.digestSize)), out, s) :=
  if_pos ho

end Represents

variable {κ : Type} {v : Variant} {message : Bytes} {origin s : State} {μ ν : Machine κ}

theorem Represents.finalize_standard (h : Represents origin message s) (hv : origin.variant = v)
    {out : Bytes} (ho : v.digestSize ≤ out.length) :
    s.finalize out = (.ok (), Standard.digest v message ++ out.drop v.digestSize, origin) := by
  rw [← hv, ← h.variant_eq] at ho ⊢
  rw [h.finalize_eq ho, digest_eq_standard]

theorem of_runFrom_new (h : (State.new v).runFrom μ = (.ok s, ν)) :
    Represents s [] s ∧ s.variant = v := by
  obtain ⟨storage, -, rfl⟩ := Fallible.of_runFrom_bind_pure h
  exact ⟨Represents.fresh _, rfl⟩

theorem runFrom_new_served (v : Variant)
    (h : μ.heap.policy μ.heap.requests.length 192 = some 192) :
    ∃ s, (State.new v).runFrom μ = (.ok s, μ.requested 192) := by
  have hb := Buffer.runFrom_newFor_served .hash (by decide) h
  exact ⟨_, Fallible.runFrom_bind_ok hb⟩

/-- A state of the variant that has absorbed the message, whichever fresh state it came from. -/
def Carries (v : Variant) (message : Bytes) (s : State) : Prop :=
  ∃ origin, origin.variant = v ∧ Represents origin message s

namespace Carries

theorem of_runFrom_new (h : (State.new v).runFrom μ = (.ok s, ν)) : Carries v [] s :=
  ⟨s, (Sha2.of_runFrom_new h).2, (Sha2.of_runFrom_new h).1⟩

theorem update (h : Carries v message s) {data : Bytes} (hd : data.length < 2 ^ 64) :
    Carries v (message ++ data) (s.update data) := by
  obtain ⟨origin, hv, hr⟩ := h
  exact ⟨origin, hv, hr.update hd⟩

theorem finalize (h : Carries v message s) {out : Bytes} (ho : v.digestSize ≤ out.length) :
    ∃ t, s.finalize out = (.ok (), Standard.digest v message ++ out.drop v.digestSize, t) ∧
      Carries v [] t := by
  obtain ⟨origin, hv, hr⟩ := h
  exact ⟨origin, hr.finalize_standard hv ho, origin, hv, hr.origin_empty⟩

theorem finalize_exact (h : Carries v message s) {out : Bytes} (ho : out.length = v.digestSize) :
    ∃ t, s.finalize out = (.ok (), Standard.digest v message, t) ∧ Carries v [] t := by
  obtain ⟨t, ht, hc⟩ := h.finalize (Nat.le_of_eq ho.symm)
  rw [List.drop_of_length_le (Nat.le_of_eq ho), List.append_nil] at ht
  exact ⟨t, ht, hc⟩

end Carries

end CryptoSuite.Sha2
