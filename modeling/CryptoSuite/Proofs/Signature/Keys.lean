import CryptoSuite.Proofs.KeyAgreement.Lengths
import CryptoSuite.Proofs.Memory.Grants
import CryptoSuite.Signature.Ed25519

/-! Keys and the signatures made with them. A private key is accepted exactly if its second half is
the public key of its first, and then what it signs verifies under that half. Arguments of the wrong
length are told apart from signatures that do not verify. -/
namespace CryptoSuite.Ed25519

open Curve25519 (Argument misfit? misfit?_cons misfit?_eq_none)

/-- What is relied on of a scheme: keys and signatures have their sizes, a seed makes a pair with
its own public key and with no other, and a signature verifies under the public key of its seed. -/
structure Scheme.Sound (scheme : Scheme) : Prop where
  length_publicKey (seed : Bytes) : seed.length = seedSize →
    (scheme.publicKey seed).length = publicKeySize
  length_sign (seed message : Bytes) : seed.length = seedSize →
    (scheme.sign seed message).length = signatureSize
  pairs_iff (seed key : Bytes) : seed.length = seedSize → key.length = publicKeySize →
    (scheme.pairs seed key = true ↔ key = scheme.publicKey seed)
  verifies_sign (seed message : Bytes) : seed.length = seedSize →
    scheme.verifies (scheme.publicKey seed) message (scheme.sign seed message) = true

def lengthError (x : Argument) : CryptoError :=
  .invalidArgument .signature (.length x.part x.expected x.given.length)

/-- The lengths of the arguments in order, then what comes after them. -/
def checkAll (args : List Argument) (next : Status) : Status :=
  args.foldr (fun x rest => do checkLength x.part x.expected x.given; rest) next

/-- The first argument that has the wrong length decides, and nothing comes after it. -/
theorem checkAll_eq (args : List Argument) (next : Status) :
    checkAll args next = match misfit? args with
      | none => next
      | some x => .error (lengthError x) := by
  induction args with
  | nil => rfl
  | cons x args ih =>
    have hstep : checkAll (x :: args) next =
        (if x.Fits then Except.ok () else .error (lengthError x)) >>= fun _ => checkAll args next :=
      rfl
    rw [hstep, misfit?_cons]
    split_ifs
    · exact ih
    · rfl

theorem checkAll_fits {args : List Argument} (h : ∀ x ∈ args, x.Fits) (next : Status) :
    checkAll args next = next := by
  rw [checkAll_eq, misfit?_eq_none.mpr h]

theorem exists_misfit {args : List Argument} (h : ¬∀ x ∈ args, x.Fits) :
    ∃ x, misfit? args = some x ∧ ∀ next, checkAll args next = .error (lengthError x) := by
  obtain ⟨x, hx⟩ := Option.ne_none_iff_exists'.mp (mt misfit?_eq_none.mp h)
  refine ⟨x, hx, fun next => ?_⟩
  rw [checkAll_eq, hx]

def seedArguments (seed privateKey publicKey : Bytes) : List Argument :=
  [⟨.seed, seedSize, seed⟩, ⟨.privateKey, privateKeySize, privateKey⟩,
    ⟨.publicKey, publicKeySize, publicKey⟩]

def signArguments (signature privateKey : Bytes) : List Argument :=
  [⟨.signature, signatureSize, signature⟩, ⟨.privateKey, privateKeySize, privateKey⟩]

def verifyArguments (signature publicKey : Bytes) : List Argument :=
  [⟨.signature, signatureSize, signature⟩, ⟨.publicKey, publicKeySize, publicKey⟩]

variable {κ : Type} {scheme : Scheme} {seed privateKey publicKey signature message : Bytes}

theorem seedArguments_fit : (∀ x ∈ seedArguments seed privateKey publicKey, x.Fits) ↔
    seed.length = 32 ∧ privateKey.length = 64 ∧ publicKey.length = 32 := by
  simp [seedArguments, Argument.Fits, seedSize, privateKeySize, publicKeySize]

theorem signArguments_fit : (∀ x ∈ signArguments signature privateKey, x.Fits) ↔
    signature.length = 64 ∧ privateKey.length = 64 := by
  simp [signArguments, Argument.Fits, signatureSize, privateKeySize, seedSize, publicKeySize]

theorem verifyArguments_fit : (∀ x ∈ verifyArguments signature publicKey, x.Fits) ↔
    signature.length = 64 ∧ publicKey.length = 32 := by
  simp [verifyArguments, Argument.Fits, signatureSize, publicKeySize]

theorem keypairFromSeed_eq : keypairFromSeed scheme seed privateKey publicKey =
    match checkAll (seedArguments seed privateKey publicKey) (.ok ()) with
      | .error e => (.error e, privateKey, publicKey)
      | .ok _ => (.ok (), seed ++ scheme.publicKey seed, scheme.publicKey seed) := by
  have hlast (s : Status) : (s >>= fun _ => Except.ok ()) = s := bind_pure_unit
  simp only [checkAll, seedArguments, List.foldr_cons, List.foldr_nil, hlast]
  rfl

/-- Whether a private key is made of a seed and its public key. -/
def pairing (scheme : Scheme) (privateKey : Bytes) : Status :=
  if scheme.pairs (privateKey.take seedSize) (privateKey.drop seedSize) then .ok ()
  else .error (.invalidArgument .signature .seedMismatch)

theorem signWith_eq : signWith scheme signature privateKey message =
    match checkAll (signArguments signature privateKey) (pairing scheme privateKey) with
      | .error e => (.error e, signature)
      | .ok _ => (.ok (), scheme.sign (privateKey.take seedSize) message) := rfl

/-- Whether a signature of the right length verifies. -/
def verdict (scheme : Scheme) (signature publicKey message : Bytes) : Status :=
  if scheme.verifies publicKey message signature then .ok ()
  else .error (.verificationFailed .signature)

theorem verifyWith_eq : verifyWith scheme signature publicKey message =
    checkAll (verifyArguments signature publicKey) (verdict scheme signature publicKey message) := rfl

namespace Scheme.Sound

/-- A private key of the right length is accepted exactly if its halves belong together. -/
theorem pairing_eq (h : scheme.Sound) (hkey : privateKey.length = 64) :
    pairing scheme privateKey =
      if privateKey.drop 32 = scheme.publicKey (privateKey.take 32) then .ok ()
      else .error (.invalidArgument .signature .seedMismatch) := by
  have hseed : (privateKey.take seedSize).length = seedSize := by simp [seedSize, hkey]
  have hpublic : (privateKey.drop seedSize).length = publicKeySize := by
    simp [seedSize, publicKeySize, hkey]
  have hpairs := h.pairs_iff _ _ hseed hpublic
  unfold pairing
  simp only [hpairs]
  rfl

theorem signWith_eq_of_length (h : scheme.Sound) (hout : signature.length = 64)
    (hkey : privateKey.length = 64) (message : Bytes) :
    signWith scheme signature privateKey message =
      if privateKey.drop 32 = scheme.publicKey (privateKey.take 32) then
        (.ok (), scheme.sign (privateKey.take 32) message)
      else (.error (.invalidArgument .signature .seedMismatch), signature) := by
  rw [signWith_eq, checkAll_fits (signArguments_fit.mpr ⟨hout, hkey⟩), h.pairing_eq hkey]
  split_ifs <;> rfl

/-- What is signed under a seed verifies under its public key. -/
theorem verifyWith_sign (h : scheme.Sound) (hseed : seed.length = 32) (message : Bytes) :
    verifyWith scheme (scheme.sign seed message) (scheme.publicKey seed) message = .ok () := by
  have hfit := verifyArguments_fit.mpr
    ⟨h.length_sign seed message hseed, h.length_publicKey seed hseed⟩
  rw [verifyWith_eq, checkAll_fits hfit, verdict, if_pos (h.verifies_sign seed message hseed)]

end Scheme.Sound

/-- A seed makes a private key that holds it and its public key. A private key signs exactly if its
second half is the public key of its first, and what it signs verifies under that half. A slice of
any other length is refused, in the order of the arguments and before the scheme sees any of them,
so that a signature is only reported not to verify when it could have been one. -/
theorem consistent_keys_sign (h : scheme.Sound) :
    let A : Signature.Algorithm κ := algorithm scheme
    (∀ seed privateKey publicKey : Bytes,
      seed.length = 32 → privateKey.length = 64 → publicKey.length = 32 →
      keypairFromSeed scheme seed privateKey publicKey =
        (.ok (), seed ++ scheme.publicKey seed, scheme.publicKey seed)) ∧
    (∀ (out privateKey message : Bytes) (μ : Machine κ), out.length = 64 → privateKey.length = 64 →
      (((A.sign out privateKey message).runFrom μ).1.1 = .ok () ↔
        privateKey.drop 32 = scheme.publicKey (privateKey.take 32)) ∧
      (A.sign out privateKey message).runFrom μ =
        (if privateKey.drop 32 = scheme.publicKey (privateKey.take 32) then
          (.ok (), scheme.sign (privateKey.take 32) message)
        else (.error (.invalidArgument .signature .seedMismatch), out), μ) ∧
      ∀ signature ν, (A.sign out privateKey message).runFrom μ = ((.ok (), signature), ν) →
        (A.verify signature (privateKey.drop 32) message).runFrom ν = (.ok (), ν)) ∧
    (∀ (signature publicKey message : Bytes) (μ : Machine κ),
      signature.length = 64 → publicKey.length = 32 →
      (A.verify signature publicKey message).runFrom μ =
        (if scheme.verifies publicKey message signature then .ok ()
          else .error (.verificationFailed .signature), μ)) ∧
    (∀ seed privateKey publicKey : Bytes,
      ¬(seed.length = 32 ∧ privateKey.length = 64 ∧ publicKey.length = 32) →
      ∃ x, misfit? (seedArguments seed privateKey publicKey) = some x ∧
        keypairFromSeed scheme seed privateKey publicKey =
          (.error (lengthError x), privateKey, publicKey)) ∧
    (∀ (out privateKey message : Bytes) (μ : Machine κ),
      ¬(out.length = 64 ∧ privateKey.length = 64) →
      ∃ x, misfit? (signArguments out privateKey) = some x ∧
        (A.sign out privateKey message).runFrom μ = ((.error (lengthError x), out), μ)) ∧
    ∀ (signature publicKey message : Bytes) (μ : Machine κ),
      ¬(signature.length = 64 ∧ publicKey.length = 32) →
      ∃ x, misfit? (verifyArguments signature publicKey) = some x ∧
        (A.verify signature publicKey message).runFrom μ = (.error (lengthError x), μ) := by
  intro A
  have hsign (out privateKey message : Bytes) (μ : Machine κ) :
      (A.sign out privateKey message).runFrom μ = (signWith scheme out privateKey message, μ) := rfl
  have hverify (signature publicKey message : Bytes) (μ : Machine κ) :
      (A.verify signature publicKey message).runFrom μ =
        (verifyWith scheme signature publicKey message, μ) := rfl
  simp only [hsign, hverify]
  refine ⟨?_, ?_, ?_, ?_, ?_, ?_⟩
  · intro seed privateKey publicKey hseed hprivate hpublic
    rw [keypairFromSeed_eq, checkAll_fits (seedArguments_fit.mpr ⟨hseed, hprivate, hpublic⟩)]
  · intro out privateKey message μ hout hkey
    rw [h.signWith_eq_of_length hout hkey]
    by_cases hpair : privateKey.drop 32 = scheme.publicKey (privateKey.take 32)
    · have hseed : (privateKey.take 32).length = 32 := by simp [hkey]
      rw [if_pos hpair]
      refine ⟨iff_of_true rfl hpair, rfl, ?_⟩
      intro signature ν hok
      cases hok
      rw [hpair, h.verifyWith_sign hseed]
    · rw [if_neg hpair]
      refine ⟨iff_of_false nofun hpair, rfl, ?_⟩
      intro signature ν hok
      cases hok
  · intro signature publicKey message μ hsignature hpublic
    rw [verifyWith_eq, checkAll_fits (verifyArguments_fit.mpr ⟨hsignature, hpublic⟩), verdict]
  · intro seed privateKey publicKey hlength
    obtain ⟨x, hx, hchecks⟩ := exists_misfit (mt seedArguments_fit.mp hlength)
    refine ⟨x, hx, ?_⟩
    rw [keypairFromSeed_eq, hchecks]
  · intro out privateKey message μ hlength
    obtain ⟨x, hx, hchecks⟩ := exists_misfit (mt signArguments_fit.mp hlength)
    refine ⟨x, hx, ?_⟩
    rw [signWith_eq, hchecks]
  · intro signature publicKey message μ hlength
    obtain ⟨x, hx, hchecks⟩ := exists_misfit (mt verifyArguments_fit.mp hlength)
    refine ⟨x, hx, ?_⟩
    rw [verifyWith_eq, hchecks]

/-- The seed of the first test of RFC 8032, section 7.1. -/
def sampleSeed : Bytes :=
  [0x9d, 0x61, 0xb1, 0x9d, 0xef, 0xfd, 0x5a, 0x60, 0xba, 0x84, 0x4a, 0xf4, 0x92, 0xec, 0x2c, 0xc4,
    0x44, 0x49, 0xc5, 0x69, 0x7b, 0x32, 0x69, 0x19, 0x70, 0x3b, 0xac, 0x03, 0x1c, 0xae, 0x7f, 0x60]

/-- Its public key. -/
def samplePublicKey : Bytes :=
  [0xd7, 0x5a, 0x98, 0x01, 0x82, 0xb1, 0x0a, 0xb7, 0xd5, 0x4b, 0xfe, 0xd3, 0xc9, 0x64, 0x07, 0x3a,
    0x0e, 0xe1, 0x72, 0xf3, 0xda, 0xa6, 0x23, 0x25, 0xaf, 0x02, 0x1a, 0x68, 0xf7, 0x07, 0x51, 0x1a]

/-- The signature under it of the empty message. -/
def sampleSignature : Bytes :=
  [0xe5, 0x56, 0x43, 0x00, 0xc3, 0x60, 0xac, 0x72, 0x90, 0x86, 0xe2, 0xcc, 0x80, 0x6e, 0x82, 0x8a,
    0x84, 0x87, 0x7f, 0x1e, 0xb8, 0xe5, 0xd9, 0x74, 0xd8, 0x73, 0xe0, 0x65, 0x22, 0x49, 0x01, 0x55,
    0x5f, 0xb8, 0x82, 0x15, 0x90, 0xa3, 0x3b, 0xac, 0xc6, 0x1e, 0x39, 0x70, 0x1c, 0xf9, 0xb4, 0x6b,
    0xd2, 0x5b, 0xf5, 0xf0, 0x59, 0x5b, 0xbe, 0x24, 0x65, 0x51, 0x41, 0x43, 0x8e, 0x7a, 0x10, 0x0b]

theorem publicKey_sampleSeed : Ed25519.publicKey sampleSeed = samplePublicKey := by decide +kernel

theorem sign_sampleSeed : sign sampleSeed [] = sampleSignature := by decide +kernel

/-- The judgement of the curve on the sample's signature. Any other one is taken for valid. -/
def sampledVerifies (key message signature : Bytes) : Bool :=
  if key = samplePublicKey ∧ message = [] ∧ signature = sampleSignature then
    verifies key message signature
  else true

def sampled : Scheme := { standard with verifies := sampledVerifies }

theorem sampled_sound : sampled.Sound where
  length_publicKey seed _ := (Curve25519.Point.base.multiple (scalar seed)).length_encode
  length_sign seed message _ := by simp [sampled, standard, sign, signatureSize]
  pairs_iff seed key _ _ := by
    simp only [sampled, standard, beq_iff_eq]
    exact eq_comm
  verifies_sign seed message _ := by
    have hsample : verifies samplePublicKey [] sampleSignature = true := by decide +kernel
    simp only [sampled, sampledVerifies]
    split_ifs with hgiven
    · obtain ⟨hkey, hmessage, hsignature⟩ := hgiven
      rw [hsignature, hkey, hmessage]
      exact hsample
    · rfl

/-- The sample key signs the empty message as the curve does and the signature verifies. With
another second half it signs nothing, and a signature that lacks its last octet is not judged. -/
theorem consistent_keys_sign_sample :
    let A : Signature.Algorithm Unit := algorithm sampled
    let privateKey := sampleSeed ++ samplePublicKey
    let out := Bytes.zeros 64
    keypairFromSeed sampled sampleSeed out (Bytes.zeros 32) = (.ok (), privateKey, samplePublicKey) ∧
    (A.sign out privateKey []).runFrom Machine.system = ((.ok (), sampleSignature), Machine.system) ∧
    (A.verify sampleSignature samplePublicKey []).runFrom Machine.system =
      (.ok (), Machine.system) ∧
    (A.sign out (sampleSeed ++ sampleSeed) []).runFrom Machine.system =
      ((.error (.invalidArgument .signature .seedMismatch), out), Machine.system) ∧
    keypairFromSeed sampled sampleSeed [] [] =
      (.error (.invalidArgument .signature (.length .privateKey 64 0)), [], []) ∧
    (A.sign [] privateKey []).runFrom Machine.system =
      ((.error (.invalidArgument .signature (.length .signature 64 0)), []), Machine.system) ∧
    (A.verify (sampleSignature.take 63) samplePublicKey []).runFrom Machine.system =
      (.error (.invalidArgument .signature (.length .signature 64 63)), Machine.system) := by
  intro A privateKey out
  obtain ⟨hkeypair, hsign, hverify, hseedLength, hsignLength, hverifyLength⟩ :=
    consistent_keys_sign (κ := Unit) sampled_sound
  have hpublic : sampled.publicKey sampleSeed = samplePublicKey := publicKey_sampleSeed
  have hconsistent : privateKey.drop 32 = sampled.publicKey (privateKey.take 32) := hpublic.symm
  have hother : (sampleSeed ++ sampleSeed).drop 32 ≠
      sampled.publicKey ((sampleSeed ++ sampleSeed).take 32) := by
    have hne : sampleSeed ≠ samplePublicKey := by decide
    exact hpublic.symm ▸ hne
  have hmade := hkeypair sampleSeed out (Bytes.zeros 32) rfl rfl rfl
  obtain ⟨-, hsigned, hverified⟩ := hsign out privateKey [] Machine.system rfl rfl
  obtain ⟨-, hrefused, -⟩ := hsign out (sampleSeed ++ sampleSeed) [] Machine.system rfl rfl
  have hsignature : sampled.sign sampleSeed [] = sampleSignature := sign_sampleSeed
  rw [hpublic] at hmade
  rw [if_pos hconsistent] at hsigned
  rw [if_neg hother] at hrefused
  refine ⟨hmade, hsigned.trans ?_, ?_, hrefused, ?_, ?_, ?_⟩
  · exact congrArg (fun signature => ((Except.ok (), signature), Machine.system)) hsignature
  · exact hsignature ▸ hverified _ _ hsigned
  · obtain ⟨x, hx, hshort⟩ := hseedLength sampleSeed [] [] (by decide)
    cases hx
    exact hshort
  · obtain ⟨x, hx, hshort⟩ := hsignLength [] privateKey [] Machine.system (by decide)
    cases hx
    exact hshort
  · obtain ⟨x, hx, hshort⟩ :=
      hverifyLength (sampleSignature.take 63) samplePublicKey [] Machine.system (by decide)
    cases hx
    exact hshort

end CryptoSuite.Ed25519
