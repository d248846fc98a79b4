import CryptoSuite.Proofs.KeyAgreement.Derivation

/-! Two parties that hold each other's public key derive the same secrets. Both secrets are functions of the
shared coordinate alone, and the nonces, and that coordinate is the same for both. -/
namespace CryptoSuite

namespace X25519

/-- What two parties rely on: coordinates have 32 bytes, and whose scalar comes first does not matter. -/
structure Exchanges (multiply : Multiplication) : Prop where
  length_eq : ∀ scalar point : Bytes, scalar.length = 32 → point.length = 32 →
    (multiply scalar point).length = 32
  comm : ∀ a b : Bytes, a.length = 32 → b.length = 32 →
    multiply a (multiply b basePoint) = multiply b (multiply a basePoint)

/-- The first private key of RFC 7748, section 6.1. -/
def sampleA : Bytes :=
  [0x77, 0x07, 0x6d, 0x0a, 0x73, 0x18, 0xa5, 0x7d, 0x3c, 0x16, 0xc1, 0x72, 0x51, 0xb2, 0x66, 0x45,
    0xdf, 0x4c, 0x2f, 0x87, 0xeb, 0xc0, 0x99, 0x2a, 0xb1, 0x77, 0xfb, 0xa5, 0x1d, 0xb9, 0x2c, 0x2a]

/-- The second one. -/
def sampleB : Bytes :=
  [0x5d, 0xab, 0x08, 0x7e, 0x62, 0x4a, 0x8a, 0x4b, 0x79, 0xe1, 0x7f, 0x8b, 0x83, 0x80, 0x0e, 0xe6,
    0x6f, 0x3b, 0xb1, 0x29, 0x26, 0x18, 0xb6, 0xfd, 0x1c, 0x2f, 0x8b, 0x27, 0xff, 0x88, 0xe0, 0xeb]

/-- The points that the holders of the sample keys meet. -/
def samplePoints : List Bytes := [basePoint, multiply sampleA basePoint, multiply sampleB basePoint]

/-- The multiplication as far as the holders of the sample keys need it, and zero beyond. -/
def sampled : Multiplication := fun scalar point =>
  if scalar ∈ [sampleA, sampleB] ∧ point ∈ samplePoints then multiply scalar point
  else Bytes.zeros 32

theorem sampled_exchanges : Exchanges sampled where
  length_eq scalar point _ _ := by
    unfold sampled
    split_ifs
    · exact length_multiply scalar point
    · exact Bytes.length_zeros 32
  comm a b _ _ := by
    have hboth : ∀ a ∈ [sampleA, sampleB], ∀ b ∈ [sampleA, sampleB],
        sampled a (sampled b basePoint) = sampled b (sampled a basePoint) := by
      decide +kernel
    have hzero : Bytes.zeros 32 ∉ samplePoints := by decide +kernel
    have hother {k : Bytes} (hk : k ∉ [sampleA, sampleB]) (point : Bytes) :
        sampled k point = Bytes.zeros 32 := if_neg fun h => hk h.1
    have hnowhere (k : Bytes) : sampled k (Bytes.zeros 32) = Bytes.zeros 32 :=
      if_neg fun h => hzero h.2
    by_cases ha : a ∈ [sampleA, sampleB]
    · by_cases hb : b ∈ [sampleA, sampleB]
      · exact hboth a ha b hb
      · rw [hother hb, hother hb, hnowhere]
    · rw [hother ha, hother ha, hnowhere]

end X25519

namespace Curve25519

open Sha2 (Variant)

variable {κ : Type} {multiply : X25519.Multiplication} {v : Variant}
variable {privateKey publicKey nonceA nonceB shared : Bytes}

/-- On every output of the size, given memory, the operation writes the secret, or fails and writes
nothing. -/
def Settles (x : Bytes → Action κ (Status × Bytes)) (size : Nat) (sizes : List Nat)
    (secret : Except CryptoError Bytes) : Prop :=
  ∀ (out : Bytes) (μ : Machine κ), out.length = size → μ.Grants sizes →
    ((x out).runFrom μ).1 = match secret with
      | .ok bytes => (.ok (), bytes)
      | .error e => (.error e, out)

theorem longTermSecret_settles (h : sharedCoordinate multiply privateKey publicKey = contribution shared)
    (hl : shared.length < 2 ^ 64) :
    Settles (longTermSecret multiply v privateKey publicKey : Bytes → Action κ _) v.digestSize [192]
      ((contribution shared).map (Sha2.Standard.digest v)) := by
  intro out μ hout hmemory
  cases hshared : contribution shared with
  | error e =>
    rw [runFrom_longTermSecret_error hout (h.trans hshared)]
    rfl
  | ok bytes =>
    obtain rfl := contribution_eq_ok hshared
    obtain ⟨ν, hν, -⟩ := runFrom_longTermSecret_ok hout (h.trans hshared) hl hmemory
    rw [hν]
    rfl

theorem shortTermSecret_settles (h : sharedCoordinate multiply privateKey publicKey = contribution shared)
    (hl : shared.length < 2 ^ 64) (ha : nonceA.length = v.digestSize) (hb : nonceB.length = v.digestSize) :
    Settles (shortTermSecret multiply v privateKey publicKey nonceA nonceB : Bytes → Action κ _)
      v.digestSize [v.digestSize, 192, 256, 2 * v.digestSize, 192, 192]
      ((contribution shared).map fun bytes =>
        Hmac.Standard.code v (Sha2.Standard.digest v bytes) (nonceA ++ nonceB)) := by
  intro out μ hout hmemory
  have hfits := nonceArguments_fit.mpr ⟨hout, ha, hb⟩
  cases hshared : contribution shared with
  | error e =>
    rw [runFrom_shortTermSecret_error hfits (h.trans hshared) hmemory]
    rfl
  | ok bytes =>
    obtain rfl := contribution_eq_ok hshared
    rw [runFrom_shortTermSecret_ok hfits (h.trans hshared) hl hmemory]
    rfl

/-- Two parties derive the same secrets, or fail alike, and what they derive is the digest of the
coordinate that they share, and the code of both nonces under it. An argument of the wrong length is refused,
so that the nonces can be told from what the code is of. -/
theorem parties_agree (h : X25519.Exchanges multiply) (v : Variant) :
    (∀ a b nonceA nonceB : Bytes, a.length = 32 → b.length = 32 →
      nonceA.length = v.digestSize → nonceB.length = v.digestSize →
      let A : KeyAgreement.Algorithm κ := agreement multiply v
      let agreed := contribution (multiply a (publicKeyOf multiply b))
      let longTerm := agreed.map fun shared => Sha2.Standard.digest v shared
      let shortTerm := agreed.map fun shared =>
        Hmac.Standard.code v (Sha2.Standard.digest v shared) (nonceA ++ nonceB)
      let shortSizes := [v.digestSize, 192, 256, 2 * v.digestSize, 192, 192]
      Settles (A.longTermSecret a (publicKeyOf multiply b)) v.digestSize [192] longTerm ∧
      Settles (A.longTermSecret b (publicKeyOf multiply a)) v.digestSize [192] longTerm ∧
      Settles (A.shortTermSecret a (publicKeyOf multiply b) nonceA nonceB) v.digestSize shortSizes
        shortTerm ∧
      Settles (A.shortTermSecret b (publicKeyOf multiply a) nonceA nonceB) v.digestSize shortSizes
        shortTerm) ∧
    (∀ (privateKey publicKey out : Bytes) (x : Argument) (μ : Machine κ),
      misfit? (longTermArguments v privateKey publicKey out) = some x →
      (((agreement multiply v).longTermSecret privateKey publicKey out).runFrom μ).1 =
        (.error x.error, out)) ∧
    (∀ (privateKey publicKey nonceA nonceB out : Bytes) (x : Argument) (μ : Machine κ),
      misfit? (shortTermArguments v privateKey publicKey nonceA nonceB out) = some x →
      μ.Grants [v.digestSize] →
      (((agreement multiply v).shortTermSecret privateKey publicKey nonceA nonceB out).runFrom μ).1 =
        (.error x.error, out)) ∧
    ∀ (privateKey publicKey nonceA nonceB out : Bytes) (μ : Machine κ),
      (((agreement multiply v).shortTermSecret privateKey publicKey nonceA nonceB out).runFrom μ).1.1 =
        .ok () →
      (nonceA ++ nonceB).take v.digestSize = nonceA ∧ (nonceA ++ nonceB).drop v.digestSize = nonceB := by
  refine ⟨?_, ?_, ?_, ?_⟩
  · intro a b nonceA nonceB ha hb hnonceA hnonceB A agreed longTerm shortTerm shortSizes
    have hpublic (k : Bytes) (hk : k.length = 32) : (publicKeyOf multiply k).length = 32 :=
      h.length_eq k X25519.basePoint hk rfl
    have hcomm : multiply b (publicKeyOf multiply a) = multiply a (publicKeyOf multiply b) :=
      h.comm b a hb ha
    have hl : (multiply a (publicKeyOf multiply b)).length < 2 ^ 64 := by
      rw [h.length_eq a _ ha (hpublic b hb)]
      decide
    have hfirst : sharedCoordinate multiply a (publicKeyOf multiply b) = agreed :=
      sharedCoordinate_fits (keys_fit.mpr ⟨ha, hpublic b hb⟩)
    have hsecond : sharedCoordinate multiply b (publicKeyOf multiply a) = agreed := by
      rw [sharedCoordinate_fits (keys_fit.mpr ⟨hb, hpublic a ha⟩), hcomm]
    exact ⟨longTermSecret_settles hfirst hl, longTermSecret_settles hsecond hl,
      shortTermSecret_settles hfirst hl hnonceA hnonceB,
      shortTermSecret_settles hsecond hl hnonceA hnonceB⟩
  · intro privateKey publicKey out x μ hx
    exact longTermSecret_misfit hx μ
  · intro privateKey publicKey nonceA nonceB out x μ hx hmemory
    exact shortTermSecret_misfit hx hmemory
  · intro privateKey publicKey nonceA nonceB out μ hok
    obtain ⟨-, hnonceA, -⟩ := nonceArguments_fit.mp (nonceArguments_fit_of_ok hok)
    exact ⟨List.take_left' hnonceA, List.drop_left' hnonceA⟩

/-- The holders of the sample keys agree on the coordinate that the curve gives. Nonces of unequal lengths
are refused, though together they are as long as two of the right length. -/
theorem parties_agree_sample :
    let A : KeyAgreement.Algorithm Unit := agreement X25519.sampled .sha512_256
    let publicA := publicKeyOf X25519.multiply X25519.sampleA
    let publicB := publicKeyOf X25519.multiply X25519.sampleB
    let shared := X25519.multiply X25519.sampleA publicB
    let longTerm := Sha2.Standard.digest .sha512_256 shared
    let nonceA := List.replicate 32 1
    let nonceB := List.replicate 32 2
    let shortTerm := Hmac.Standard.code .sha512_256 longTerm (nonceA ++ nonceB)
    let out := Bytes.zeros 32
    ((A.longTermSecret X25519.sampleA publicB out).runFrom Machine.system).1 = (.ok (), longTerm) ∧
    ((A.longTermSecret X25519.sampleB publicA out).runFrom Machine.system).1 = (.ok (), longTerm) ∧
    ((A.shortTermSecret X25519.sampleA publicB nonceA nonceB out).runFrom Machine.system).1 =
      (.ok (), shortTerm) ∧
    ((A.shortTermSecret X25519.sampleB publicA nonceA nonceB out).runFrom Machine.system).1 =
      (.ok (), shortTerm) ∧
    ((A.longTermSecret [1] publicB out).runFrom Machine.system).1 =
      (.error (.invalidArgument .keyAgreement (.length .privateKey 32 1)), out) ∧
    ((A.shortTermSecret X25519.sampleA publicB (List.replicate 31 1) (List.replicate 33 2)
      out).runFrom Machine.system).1 =
        (.error (.invalidArgument .keyAgreement (.length .nonce 32 31)), out) ∧
    (nonceA ++ nonceB).take 32 = nonceA := by
  intro A publicA publicB shared longTerm nonceA nonceB shortTerm out
  obtain ⟨hagree, hlong, hshort, hnonces⟩ :=
    parties_agree (κ := Unit) X25519.sampled_exchanges .sha512_256
  have hA : publicKeyOf X25519.sampled X25519.sampleA = publicA := by decide +kernel
  have hB : publicKeyOf X25519.sampled X25519.sampleB = publicB := by decide +kernel
  have hshared : X25519.sampled X25519.sampleA publicB = shared := by decide +kernel
  have hcontributed : contribution shared = .ok shared := if_neg (by decide +kernel)
  obtain ⟨hlongA, hlongB, hshortA, hshortB⟩ :=
    hagree X25519.sampleA X25519.sampleB nonceA nonceB rfl rfl rfl rfl
  rw [hB, hshared, hcontributed] at hlongA hlongB hshortA hshortB
  rw [hA] at hlongB hshortB
  have hlongMemory : Machine.system.Grants [192] := Machine.system_grants (by decide)
  have hshortMemory : Machine.system.Grants [32, 192, 256, 64, 192, 192] :=
    Machine.system_grants (by decide)
  have hcode := hshortA out Machine.system rfl hshortMemory
  refine ⟨hlongA out _ rfl hlongMemory, hlongB out _ rfl hlongMemory, hcode,
    hshortB out _ rfl hshortMemory, ?_, ?_, ?_⟩
  · exact hlong [1] publicB out ⟨.privateKey, 32, [1]⟩ _ rfl
  · exact hshort X25519.sampleA publicB (List.replicate 31 1) (List.replicate 33 2) out
      ⟨.nonce, 32, List.replicate 31 1⟩ _ rfl (Machine.system_grants (by decide))
  · exact (hnonces _ _ nonceA nonceB out Machine.system (congrArg Prod.fst hcode)).1

end Curve25519

end CryptoSuite
