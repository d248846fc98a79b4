import CryptoSuite.Proofs.Hmac.Session
import CryptoSuite.Proofs.KeyDerivation.Step

/-! PBKDF2 as RFC 8018 defines it, with HMAC over the SHA-2 family, and the loops of a derivation that
compute it. Between two codes the keyed computation is as good as new. -/
namespace CryptoSuite.Pbkdf2

open Hmac (Primed ofVariant)
open Hmac.Standard (code)
open Sha2 (Variant)

namespace Standard

variable (v : Variant) (password salt : Bytes) (rounds : Nat)

/-- The number of a chunk in four octets, the most significant first. -/
def int (i : Nat) : Bytes := [i / 2 ^ 24, i / 2 ^ 16, i / 2 ^ 8, i].map fun n => UInt8.ofNat (n % 256)

/-- The chain of codes for chunk `i`, each the code of the one before. -/
def u (i : Nat) : Nat → Bytes
  | 0 => code v password (salt ++ int i)
  | j + 1 => code v password (u i j)

/-- Octet strings of the size of a code, added up. -/
def sum (terms : List Bytes) : Bytes :=
  terms.foldl (List.zipWith fun x y => x ^^^ y) (List.replicate v.digestSize 0)

/-- Chunk `i`. -/
def t (i : Nat) : Bytes := sum v ((List.range rounds).map (u v password salt i))

/-- The first `length` octets of the chunks from number one on, of which there are as many as are
needed. -/
def key (length : Nat) : Bytes :=
  ((List.range ((length + v.digestSize - 1) / v.digestSize)).flatMap fun i =>
    t v password salt rounds (i + 1)).take length

theorem ofUInt32_ofNat {i : Nat} (h : i < 2 ^ 32) : Bytes.ofUInt32 (UInt32.ofNat i) = int i := by
  have hi : (UInt32.ofNat i).toNat = i := UInt32.toNat_ofNat_of_lt' h
  simp only [Bytes.ofUInt32, int, List.map_cons, List.map_nil, List.cons.injEq, and_true]
  refine ⟨?_, ?_, ?_, ?_⟩
  all_goals
    apply UInt8.toNat_inj.mp
    simp [Nat.shiftRight_eq_div_pow, hi]

variable {v password salt rounds} {i : Nat}

theorem length_u (j : Nat) : (u v password salt i j).length = v.digestSize := by
  cases j <;> exact Hmac.Standard.length_code v password _

theorem length_sum {terms : List Bytes} (h : ∀ term ∈ terms, term.length = v.digestSize) :
    (sum v terms).length = v.digestSize := by
  suffices hs : ∀ acc : Bytes, acc.length = v.digestSize →
      (terms.foldl (List.zipWith fun x y => x ^^^ y) acc).length = v.digestSize by
    exact hs _ List.length_replicate
  induction terms with
  | nil => exact fun _ hacc => hacc
  | cons term terms ih =>
    intro acc hacc
    apply ih fun t ht => h t (List.mem_cons_of_mem term ht)
    rw [List.length_zipWith, hacc, h term List.mem_cons_self, Nat.min_self]

theorem length_t : (t v password salt rounds i).length = v.digestSize := by
  apply length_sum
  intro term hterm
  obtain ⟨j, -, rfl⟩ := List.mem_map.mp hterm
  exact length_u j

/-- The chunks have room for the whole key. -/
theorem length_key (length : Nat) : (key v password salt rounds length).length = length := by
  have hle := le_chunkCount_mul length v.digestSize_pos
  have hchunks (l : List Nat) :
      (l.flatMap fun i => t v password salt rounds (i + 1)).length = l.length * v.digestSize := by
    induction l with
    | nil => exact (Nat.zero_mul _).symm
    | cons i l ih => rw [List.flatMap_cons, List.length_append, ih, length_t, List.length_cons,
        Nat.succ_mul, Nat.add_comm]
  rw [key, List.length_take, hchunks, List.length_range]
  exact Nat.min_eq_left hle

/-- Zeros add nothing. -/
theorem xor_zeros (b : Bytes) : Bytes.xor (List.replicate b.length 0) b = b := by
  induction b with
  | nil => rfl
  | cons x b ih =>
    rw [Bytes.xor] at ih ⊢
    rw [List.length_cons, List.replicate_succ, List.zipWith_cons_cons, ih, UInt8.zero_xor]

/-- A chunk begins as the first code of its chain. -/
theorem t_succ (count : Nat) :
    t v password salt (count + 1) i =
      ((List.range' 1 count).map (u v password salt i)).foldl Bytes.xor (u v password salt i 0) := by
  have hfirst : List.zipWith (fun x y => x ^^^ y) (List.replicate v.digestSize 0) (u v password salt i 0) =
      u v password salt i 0 := by
    rw [← length_u 0]
    exact xor_zeros _
  rw [t, sum, List.range_eq_range', List.range'_succ, List.map_cons, List.foldl_cons, hfirst]
  rfl

end Standard

variable {κ α : Type} {name : String} {v : Variant} {password salt last sum : Bytes}
  {c : Chain (Hmac.State Sha2.State)} {μ : Machine κ}

/-- A chain between two codes. -/
structure Chain.Holds (v : Variant) (password last sum : Bytes) (c : Chain (Hmac.State Sha2.State)) :
    Prop where
  mac : Primed v password [] c.mac
  last_eq : c.last.bytes = last
  sum_eq : c.sum.bytes = sum

namespace Chain.Holds

/-- One more code takes the place of the last one. -/
theorem extend (h : c.Holds v password last sum) (hl : last.length = v.digestSize) {data : Bytes}
    (hd : data.length < 2 ^ 64) (name : String) (μ : Machine κ) :
    ∃ d : Chain (Hmac.State Sha2.State), d.Holds v password (code v password data) sum ∧
      ∀ {α : Type} (next : Step κ (Hmac.State Sha2.State) α),
        (Step.on (do absorb (ofVariant name v) data; squeeze (ofVariant name v); next) c).runFrom μ =
          (next.on d).runFrom μ := by
  have hlast : c.last.bytes.length = v.digestSize := h.last_eq ▸ hl
  have hsized : 0 < c.last.bytes.length := hlast ▸ v.digestSize_pos
  obtain ⟨s, hs, hprimed⟩ := (h.mac.update hd).finalize_eq hsized hlast.le μ
  have hcode : (code v password ([] ++ data)).take c.last.bytes.length = code v password data := by
    rw [hlast, List.nil_append, ← Hmac.Standard.length_code v password data, List.take_length]
  rw [hcode] at hs
  refine ⟨⟨s, c.last.setBytes (code v password data), c.sum⟩, ⟨hprimed, rfl, h.sum_eq⟩, ?_⟩
  intro α next
  have habsorb : ((absorb (ofVariant name v) data).on c).runFrom μ =
      ((.ok (), { c with mac := { c.mac with inner := c.mac.inner.update data } }), μ) := rfl
  have hsqueeze : ((squeeze (ofVariant name v)).on
      { c with mac := { c.mac with inner := c.mac.inner.update data } }).runFrom μ =
        ((.ok (), ⟨s, c.last.setBytes (code v password data), c.sum⟩), μ) := by
    show Action.runFrom (do
      let (status, code, mac) ← Hmac.finalize (Sha2.algorithm v)
        { c.mac with inner := c.mac.inner.update data } c.last.bytes
      pure (status, _)) μ = _
    rw [Action.runFrom_bind, hs]
    rfl
  rw [Step.runFrom_on_bind habsorb, Step.runFrom_on_bind hsqueeze]

/-- The last code and the sum move along the chain of codes together. -/
theorem iterate {i j : Nat} (h : c.Holds v password (Standard.u v password salt i j) sum) (count : Nat)
    (name : String) (μ : Machine κ) :
    ∃ d, ((iterate (ofVariant name v) count).on c).runFrom μ = ((.ok (), d), μ) ∧
      d.Holds v password (Standard.u v password salt i (j + count))
        (((List.range' (j + 1) count).map (Standard.u v password salt i)).foldl Bytes.xor sum) := by
  induction count generalizing c j sum with
  | zero => exact ⟨c, rfl, h⟩
  | succ count ih =>
    have hl : (Standard.u v password salt i j).length = v.digestSize := Standard.length_u j
    have hd : (Standard.u v password salt i j).length < 2 ^ 64 := by
      have hv := v.digestSize_le
      omega
    obtain ⟨d, hholds, hrun⟩ := h.extend hl hd name μ
    have hsum : (({ d with sum := d.sum.setBytes (d.sum.bytes.xor d.last.bytes) } :
        Chain (Hmac.State Sha2.State))).Holds v password (Standard.u v password salt i (j + 1))
          (sum.xor (Standard.u v password salt i (j + 1))) := by
      refine ⟨hholds.mac, hholds.last_eq, ?_⟩
      rw [Buffer.bytes_setBytes, hholds.sum_eq, hholds.last_eq]
      rfl
    obtain ⟨e, he, hholds⟩ := ih hsum
    refine ⟨e, ?_, ?_⟩
    · unfold Pbkdf2.iterate
      have hget : ((get : Step κ _ (Chain (Hmac.State Sha2.State))).on c).runFrom μ =
          ((.ok c, c), μ) := rfl
      rw [Step.runFrom_on_bind hget, h.last_eq, hrun]
      exact he
    · rw [List.range'_succ, List.map_cons, List.foldl_cons, ← Nat.add_assoc, Nat.add_right_comm]
      exact hholds

/-- A chunk is the sum of its chain, whatever the sum was before. -/
theorem chunk (h : c.Holds v password last sum) (hl : last.length = v.digestSize)
    (hsalt : salt.length + 4 < 2 ^ 64) (i : Nat) {rounds : Nat} (hr : 0 < rounds) (name : String)
    (μ : Machine κ) :
    ∃ d last, ((chunk (ofVariant name v) (salt ++ Standard.int i) rounds).on c).runFrom μ =
        ((.ok (Standard.t v password salt rounds i), d), μ) ∧
      d.Holds v password last (Standard.t v password salt rounds i) ∧
      last.length = v.digestSize := by
  have hseed : (salt ++ Standard.int i).length < 2 ^ 64 := by
    rw [List.length_append]
    exact hsalt
  obtain ⟨d, hholds, hrun⟩ := h.extend hl hseed name μ
  have hfirst : (({ d with sum := d.sum.setBytes d.last.bytes } :
      Chain (Hmac.State Sha2.State))).Holds v password (Standard.u v password salt i 0)
        (Standard.u v password salt i 0) :=
    ⟨hholds.mac, hholds.last_eq, hholds.last_eq⟩
  obtain ⟨count, rfl⟩ := Nat.exists_eq_add_of_le' hr
  obtain ⟨e, he, hlast⟩ := hfirst.iterate count name μ
  rw [← Standard.t_succ] at hlast
  refine ⟨e, _, ?_, hlast, Standard.length_u _⟩
  unfold Pbkdf2.chunk
  have hset : ((modifySum fun c => c.last.bytes : Step κ (Hmac.State Sha2.State) Unit).on d).runFrom μ =
      ((.ok (), { d with sum := d.sum.setBytes d.last.bytes }), μ) := rfl
  have hget : ((get : Step κ (Hmac.State Sha2.State) _).on e).runFrom μ = ((.ok e, e), μ) := rfl
  rw [hrun, Step.runFrom_on_bind hset, Nat.add_sub_cancel, Step.runFrom_on_bind he,
    Step.runFrom_on_bind hget, hlast.sum_eq]
  rfl

/-- The chunks in a row, as long as their numbers fit in four octets. -/
theorem chunks (h : c.Holds v password last sum) (hl : last.length = v.digestSize)
    (hsalt : salt.length + 4 < 2 ^ 64) {rounds : Nat} (hr : 0 < rounds) {count counter : Nat}
    (hc : counter + count < 2 ^ 32) (name : String) (μ : Machine κ) :
    ∃ d, ((chunks (ofVariant name v) salt rounds count counter).on c).runFrom μ =
      ((.ok ((List.range' counter count).flatMap fun i => Standard.t v password salt rounds (i + 1)), d),
        μ) := by
  induction count generalizing c counter last sum with
  | zero => exact ⟨c, rfl⟩
  | succ count ih =>
    have hcounter : ¬1 <<< 32 ≤ counter + 1 := by omega
    have hnext : counter + 1 + count < 2 ^ 32 := by omega
    obtain ⟨d, _, hd, hholds, hl⟩ := h.chunk hl hsalt (counter + 1) hr name μ
    obtain ⟨e, he⟩ := ih hholds hl hnext
    refine ⟨e, ?_⟩
    unfold Pbkdf2.chunks
    rw [if_neg hcounter, Standard.ofUInt32_ofNat (by omega)]
    dsimp only
    rw [Step.runFrom_on_bind hd, Step.runFrom_on_bind he, List.range'_succ, List.flatMap_cons]
    rfl

end Chain.Holds

end CryptoSuite.Pbkdf2
