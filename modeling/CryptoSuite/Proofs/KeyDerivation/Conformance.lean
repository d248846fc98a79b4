import CryptoSuite.KeyDerivation.Algorithm
import CryptoSuite.Proofs.KeyDerivation.Chain

/-! Derived keys are those of the standard, in a slice of the caller's and in a new buffer. A derivation
that is given its memory does not fail. -/
namespace CryptoSuite.Pbkdf2

open Hmac (ofVariant)
open Sha2 (Variant)

variable {κ : Type} {name : String} {v : Variant} {password salt : Bytes} {rounds length : Nat}
  {μ : Machine κ}

/-- What a derivation requests: a keyed computation, and room for a code and for a sum of codes. -/
def derivationSizes (v : Variant) (password : Bytes) : List Nat :=
  Hmac.stateSizes v password ++ [v.digestSize, v.digestSize]

/-- Passwords and salts as slices can be, and a key of some length that the numbers of its chunks can
count. -/
structure Derivable (v : Variant) (password salt : Bytes) (rounds length : Nat) : Prop where
  password_lt : password.length < 2 ^ 64
  salt_ne : salt ≠ []
  salt_lt : salt.length + 4 < 2 ^ 64
  rounds_pos : 1 ≤ rounds
  length_pos : 1 ≤ length
  chunks_le : chunkCount length v.digestSize ≤ 2 ^ 32 - 1

theorem runFrom_deriveBytes (h : Derivable v password salt rounds length) (name : String)
    (hg : μ.Grants (derivationSizes v password)) :
    ∃ ν, (deriveBytes (ofVariant name v) length password salt rounds).runFrom μ =
      (.ok (Standard.key v password salt rounds length), ν) := by
  have hcount : chunkCount length v.digestSize < 2 ^ 32 := by
    have := h.chunks_le
    omega
  have hcheck : check v.digestSize length salt rounds = .ok () :=
    (check_eq_ok_iff _ length salt rounds).mpr
      ⟨h.rounds_pos, h.length_pos, h.salt_ne, v.digestSize_pos, hcount⟩
  have hsize : (ofVariant (κ := κ) name v).macSize = v.digestSize := rfl
  obtain ⟨s, ξ, hs, hg⟩ := Hmac.runFrom_create_served h.password_lt hg
  have hcreate : ((ofVariant name v).create password).runFrom μ = (.ok s, ξ) := hs
  have hlast := Buffer.runFrom_newFor_served .keyDerivation v.digestSize_pos hg.head
  have hsum := Buffer.runFrom_newFor_served .keyDerivation v.digestSize_pos hg.tail.head
  let c : Chain (Hmac.State Sha2.State) :=
    ⟨s, Buffer.served ξ v.digestSize, Buffer.served (ξ.requested v.digestSize) v.digestSize⟩
  have hholds : c.Holds v password (Bytes.zeros v.digestSize) (Bytes.zeros v.digestSize) :=
    ⟨Hmac.of_runFrom_create h.password_lt hs, rfl, rfl⟩
  have hcounter : 0 + chunkCount length v.digestSize < 2 ^ 32 := by omega
  obtain ⟨d, hd⟩ := hholds.chunks (Bytes.length_zeros _) h.salt_lt h.rounds_pos hcounter name
    ((ξ.requested v.digestSize).requested v.digestSize)
  rw [deriveBytes, hsize, hcheck, Fallible.runFrom_bind_ok (Attempt.runFrom_require _ μ),
    Fallible.runFrom_bind_ok hcreate, Fallible.runFrom_bind_ok (Fallible.runFrom_releasing_ok hlast),
    Fallible.runFrom_bind_ok (Fallible.runFrom_releasing_ok hsum)]
  rw [Fallible.runFrom_bind, Fallible.runFrom_perform]
  have hrun : Action.runFrom (ExceptT.run (chunks (ofVariant name v) salt rounds
      (chunkCount length v.digestSize) 0) c) _ = _ := hd
  rw [hrun]
  dsimp only
  rw [Fallible.runFrom_bind_ok (Fallible.runFrom_perform _ _)]
  rw [Standard.key, List.range_eq_range']
  exact ⟨_, rfl⟩

theorem runFrom_derive {key : Bytes} (h : Derivable v password salt rounds key.length) (name : String)
    (hg : μ.Grants (derivationSizes v password)) :
    ∃ ν, (derive (ofVariant name v) key password salt rounds).runFrom μ =
      ((.ok (), Standard.key v password salt rounds key.length), ν) := by
  obtain ⟨ν, hν⟩ := runFrom_deriveBytes h name hg
  refine ⟨ν, ?_⟩
  rw [answers_derive key password salt rounds μ, hν]
  rfl

theorem runFrom_deriveBuffer (h : Derivable v password salt rounds length) (name : String)
    (hg : μ.Grants (length :: derivationSizes v password)) :
    ∃ b ν, (KeyDerivation.pbkdf2.deriveBuffer (ofVariant name v) length password salt rounds).runFrom μ =
      (.ok b, ν) ∧ b.bytes = Standard.key v password salt rounds length := by
  have hb := Buffer.runFrom_new_served h.length_pos hg.head
  have hl : (Buffer.served μ length).bytes.length = length := by
    rw [Buffer.bytes_served, Bytes.length_zeros]
  have hkey : Derivable v password salt rounds (Buffer.served μ length).bytes.length := by rwa [hl]
  obtain ⟨ν, hν⟩ := runFrom_derive hkey name hg.tail
  have hmade : (Attempt.checked (KeyDerivation.pbkdf2.derive (ofVariant name v)
      (Buffer.served μ length).bytes password salt rounds)).runFrom (μ.requested length) =
        (.ok (Standard.key v password salt rounds length), ν) := by
    have hrun : (KeyDerivation.pbkdf2.derive (ofVariant name v) (Buffer.served μ length).bytes password
        salt rounds).runFrom (μ.requested length) = _ := hν
    rw [Attempt.runFrom_checked, hrun, hl]
    rfl
  refine ⟨(Buffer.served μ length).setBytes (Standard.key v password salt rounds length), ν, ?_, rfl⟩
  rw [KeyDerivation.Algorithm.deriveBuffer, Fallible.runFrom_bind_ok hb,
    Fallible.runFrom_bind_ok (Fallible.runFrom_releasing_ok hmade), Fallible.runFrom_pure]

/-- Given its memory, a derivation succeeds and delivers the key of RFC 8018, as long as the slice is or the
buffer is to be. -/
theorem derived_key_standard (name : String) (h : Derivable v password salt rounds length) :
    (∀ (μ : Machine κ) (key : Bytes), key.length = length → μ.Grants (derivationSizes v password) →
      ((KeyDerivation.pbkdf2.derive (ofVariant name v) key password salt rounds).runFrom μ).1 =
        (.ok (), Standard.key v password salt rounds length)) ∧
    (∀ μ : Machine κ, μ.Grants (length :: derivationSizes v password) → ∃ b ν,
      (KeyDerivation.pbkdf2.deriveBuffer (ofVariant name v) length password salt rounds).runFrom μ =
        (.ok b, ν) ∧ b.bytes = Standard.key v password salt rounds length) ∧
    (Standard.key v password salt rounds length).length = length := by
  refine ⟨?_, ?_, ?_⟩
  · rintro μ key rfl hg
    obtain ⟨ν, hν⟩ := runFrom_derive h name hg
    exact congrArg Prod.fst hν
  · intro μ hg
    exact runFrom_deriveBuffer h name hg
  · exact Standard.length_key length

/-- A password that has to be hashed, and a second chunk of which two bytes are used. -/
theorem derived_key_standard_two_chunks :
    Derivable .sha384 (Bytes.zeros 200) [3] 2 50 ∧
    ((KeyDerivation.pbkdf2.derive (ofVariant "prf" .sha384) (Bytes.zeros 50) (Bytes.zeros 200) [3]
      2).runFrom Machine.system).1 =
        (.ok (), Standard.key .sha384 (Bytes.zeros 200) [3] 2 50) ∧
    ∃ b ν, (KeyDerivation.pbkdf2.deriveBuffer (ofVariant "prf" .sha384) 50 (Bytes.zeros 200) [3]
      2).runFrom Machine.system = (.ok b, ν) ∧
        b.bytes = Standard.key .sha384 (Bytes.zeros 200) [3] 2 50 := by
  have h : Derivable .sha384 (Bytes.zeros 200) [3] 2 50 := by
    constructor <;> decide +kernel
  obtain ⟨hslice, hbuffer, -⟩ := derived_key_standard (κ := Unit) "prf" h
  refine ⟨h, ?_, ?_⟩
  · exact hslice Machine.system (Bytes.zeros 50) (Bytes.length_zeros 50)
      (Machine.system_grants (by decide +kernel))
  · exact hbuffer Machine.system (Machine.system_grants (by decide +kernel))

end CryptoSuite.Pbkdf2
