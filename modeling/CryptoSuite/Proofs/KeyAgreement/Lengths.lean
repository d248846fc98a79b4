import CryptoSuite.KeyAgreement.Curve25519
import Mathlib.Tactic.SplitIfs

/-! The lengths that the agreement of secrets checks, and in which order. The first argument that has the
wrong length is the one that the error names. -/
namespace CryptoSuite.Curve25519

open Sha2 (Variant)

/-- An argument of which the length is checked. -/
structure Argument where
  part : Part
  expected : Nat
  given : Bytes
  deriving DecidableEq, Repr

namespace Argument

def Fits (x : Argument) : Prop := x.given.length = x.expected

instance (x : Argument) : Decidable x.Fits := inferInstanceAs (Decidable (_ = _))

def error (x : Argument) : CryptoError :=
  .invalidArgument .keyAgreement (.length x.part x.expected x.given.length)

def check (x : Argument) : Status := checkLength x.part x.expected x.given

theorem check_eq (x : Argument) : x.check = if x.Fits then .ok () else .error x.error := rfl

end Argument

/-- The first argument that has the wrong length. -/
def misfit? (args : List Argument) : Option Argument := args.find? fun x => ¬x.Fits

theorem misfit?_cons (x : Argument) (args : List Argument) :
    misfit? (x :: args) = if x.Fits then misfit? args else some x := by
  by_cases hx : x.Fits
  · rw [if_pos hx]
    exact List.find?_cons_of_neg (by simpa using hx)
  · rw [if_neg hx]
    exact List.find?_cons_of_pos (by simpa using hx)

theorem misfit?_eq_none {args : List Argument} : misfit? args = none ↔ ∀ x ∈ args, x.Fits := by
  simp [misfit?, List.find?_eq_none]

def checkAll : List Argument → Status
  | [] => .ok ()
  | x :: args => do
    x.check
    checkAll args

theorem checkAll_eq (args : List Argument) :
    checkAll args = match misfit? args with
      | none => .ok ()
      | some x => .error x.error := by
  induction args with
  | nil => rfl
  | cons x args ih =>
    rw [checkAll, x.check_eq, misfit?_cons]
    split_ifs
    · exact ih
    · rfl

theorem checkAll_three (x y z : Argument) :
    checkAll [x, y, z] = x.check >>= fun _ => y.check >>= fun _ => z.check := by
  have hlast : (z.check >>= fun _ => Except.ok ()) = z.check := bind_pure_unit
  simp only [checkAll, hlast]

def keys (privateKey publicKey : Bytes) : List Argument :=
  [⟨.privateKey, privateKeySize, privateKey⟩, ⟨.publicKey, publicKeySize, publicKey⟩]

def room (v : Variant) (out : Bytes) : Argument := ⟨.sharedSecret, v.digestSize, out⟩

def nonce (v : Variant) (given : Bytes) : Argument := ⟨.nonce, v.digestSize, given⟩

def nonceArguments (v : Variant) (nonceA nonceB out : Bytes) : List Argument :=
  [room v out, nonce v nonceA, nonce v nonceB]

/-- What a long-term secret is derived from, in the order of the checks. -/
def longTermArguments (v : Variant) (privateKey publicKey out : Bytes) : List Argument :=
  room v out :: keys privateKey publicKey

def shortTermArguments (v : Variant) (privateKey publicKey nonceA nonceB out : Bytes) : List Argument :=
  nonceArguments v nonceA nonceB out ++ keys privateKey publicKey

variable {multiply : X25519.Multiplication} {v : Variant}
variable {privateKey publicKey nonceA nonceB out shared : Bytes}

theorem keys_fit : misfit? (keys privateKey publicKey) = none ↔
    privateKey.length = 32 ∧ publicKey.length = 32 := by
  simp [misfit?_eq_none, keys, Argument.Fits, privateKeySize, publicKeySize]

theorem nonceArguments_fit : misfit? (nonceArguments v nonceA nonceB out) = none ↔
    out.length = v.digestSize ∧ nonceA.length = v.digestSize ∧ nonceB.length = v.digestSize := by
  simp [misfit?_eq_none, nonceArguments, room, nonce, Argument.Fits]

/-- A shared coordinate to which both parties contributed. A public key of small order makes it zero. -/
def contribution (shared : Bytes) : Except CryptoError Bytes :=
  if shared.all (· == 0) then .error (.invalidArgument .keyAgreement .nonContributory)
  else .ok shared

theorem contribution_eq_ok {bytes : Bytes} (h : contribution shared = .ok bytes) : bytes = shared := by
  unfold contribution at h
  split_ifs at h
  cases h
  rfl

theorem sharedCoordinate_eq (multiply : X25519.Multiplication) (privateKey publicKey : Bytes) :
    sharedCoordinate multiply privateKey publicKey =
      checkAll (keys privateKey publicKey) >>= fun _ => contribution (multiply privateKey publicKey) := by
  unfold sharedCoordinate
  simp only [keys, checkAll, bind_assoc]
  rfl

theorem sharedCoordinate_fits (h : misfit? (keys privateKey publicKey) = none) :
    sharedCoordinate multiply privateKey publicKey = contribution (multiply privateKey publicKey) := by
  rw [sharedCoordinate_eq, checkAll_eq, h]
  rfl

theorem sharedCoordinate_misfit {x : Argument} (h : misfit? (keys privateKey publicKey) = some x) :
    sharedCoordinate multiply privateKey publicKey = .error x.error := by
  rw [sharedCoordinate_eq, checkAll_eq, h]
  rfl

end CryptoSuite.Curve25519
