import CryptoSuite.Proofs.Memory.Exhaustion

/-! Codes in one operation, and the check of a tag, when all that is known of the allocator is which
requests it serves. A tag is compared with the code cut to its length. -/
namespace CryptoSuite

namespace Bytes

theorem foldl_or_eq_zero_iff {b : Bytes} {x : UInt8} :
    b.foldl (· ||| ·) x = 0 ↔ x = 0 ∧ ∀ y ∈ b, y = 0 := by
  induction b generalizing x with
  | nil => simp
  | cons y b ih => simp [ih, UInt8.or_eq_zero_iff, and_assoc]

theorem forall_mem_xor_eq_zero_iff {a b : Bytes} (h : a.length = b.length) :
    (∀ y ∈ xor a b, y = 0) ↔ a = b := by
  induction a generalizing b with
  | nil =>
    obtain rfl : b = [] := List.eq_nil_of_length_eq_zero h.symm
    exact iff_of_true nofun rfl
  | cons x a ih =>
    cases b with
    | nil => cases h
    | cons y b =>
      have htail : (∀ z ∈ xor a b, z = 0) ↔ a = b := ih (Nat.succ.inj h)
      have hcons : xor (x :: a) (y :: b) = (x ^^^ y) :: xor a b := rfl
      rw [hcons, List.forall_mem_cons, UInt8.xor_eq_zero_iff, htail, List.cons_eq_cons]

/-- Two octet strings agree exactly if they are the same. -/
theorem agree_iff {a b : Bytes} : a.agree b = true ↔ a = b := by
  unfold agree
  rw [Bool.and_eq_true, beq_iff_eq, beq_iff_eq, foldl_or_eq_zero_iff]
  constructor
  · rintro ⟨hl, -, hzero⟩
    exact (forall_mem_xor_eq_zero_iff hl).mp hzero
  · rintro rfl
    exact ⟨rfl, rfl, (forall_mem_xor_eq_zero_iff rfl).mpr rfl⟩

end Bytes

namespace Hmac

open Fallible

variable {κ : Type} {name : String} {v : Sha2.Variant} {key message tag : Bytes}

/-- New contexts, with what they stand for. -/
theorem draws_primed (name : String) (v : Sha2.Variant) (hk : key.length < 2 ^ 64) :
    Draws (demands .mac (stateSizes v key)) ((ofVariant name v).init key : Attempt κ _)
      (ContextPrimed name v key []) :=
  (draws_init name v key).of_answers fun _ _ _ _ h => of_runFrom_init hk h

theorem draws_code (name : String) (v : Sha2.Variant) (hk : key.length < 2 ^ 64)
    (hd : message.length < 2 ^ 64) :
    Draws (demands .mac (stateSizes v key) ++ demands .buffer [v.digestSize])
      ((ofVariant name v).compute key message : Attempt κ Buffer)
      fun b => b.bytes = Standard.code v key message :=
  (draws_compute name v key message).of_answers fun _ _ _ _ h => of_runFrom_compute hk hd h

namespace ContextPrimed

variable {c : Mac.Context κ (State Sha2.State)}

theorem quiet_digest (h : ContextPrimed name v key message c) {data : Bytes}
    (hd : data.length < 2 ^ 64) :
    (c.digest data).Quiet fun r => r.1 = .ok () ∧ ContextPrimed name v key (message ++ data) r.2 := by
  obtain ⟨_, s⟩ := c
  obtain ⟨rfl, hp⟩ := h
  exact .pure ⟨rfl, rfl, hp.update hd⟩

theorem quiet_finalize (h : ContextPrimed name v key message c) {out : Bytes} (hpos : 0 < out.length)
    (ho : out.length ≤ v.digestSize) :
    (c.finalize out).Quiet fun r => r.1 = .ok () ∧
      r.2.1 = (Standard.code v key message).take out.length ∧ ContextPrimed name v key [] r.2.2 := by
  apply Action.Quiet.of_runFrom
  intro μ
  obtain ⟨d, hd, hprimed⟩ := h.finalize_eq hpos ho μ
  exact ⟨_, hd, rfl, rfl, hprimed⟩

end ContextPrimed

/-- A tag that is the code, or the beginning of it, is accepted. -/
theorem draws_verify (name : String) (v : Sha2.Variant) (hk : key.length < 2 ^ 64)
    (hd : message.length < 2 ^ 64) (hpos : 0 < tag.length) (hl : tag.length ≤ v.digestSize)
    (htag : (Standard.code v key message).take tag.length = tag) :
    Draws (demands .mac (stateSizes v key)) ((ofVariant name v).verify key message tag : Attempt κ Unit)
      fun _ => True := by
  unfold Mac.Algorithm.verify
  apply (draws_primed name v hk).bind (List.append_nil _).symm
  intro c hc
  apply (Draws.perform (hc.quiet_digest hd)).seq
  rintro ⟨status, d⟩ ⟨hok, hd⟩
  apply ((Attempt.draws_require hok).releasing (quiet_release name v d hd.1)).seq
  intro _ _
  have hroom : (Bytes.zeros tag.length).length = tag.length := Bytes.length_zeros _
  apply (Draws.perform (hd.quiet_finalize (hroom.symm ▸ hpos) (hroom.symm ▸ hl))).seq
  rintro ⟨status, expected, e⟩ ⟨hok, (hexpected : expected = _), he⟩
  apply (Draws.perform (quiet_release name v e he.1)).seq
  intro _ _
  apply (Attempt.draws_require hok).seq
  intro _ _
  have hagree : expected.agree tag = true := by
    rw [Bytes.agree_iff, hexpected, hroom, List.nil_append, htag]
  rw [if_pos hagree]
  exact Draws.pure trivial

end Hmac

end CryptoSuite
