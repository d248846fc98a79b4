import CryptoSuite.Registry.BuiltIn
import CryptoSuite.Registry.Table
import CryptoSuite.Suite.Config

/-! A suite: one provider for every capability. -/
namespace CryptoSuite

structure Suite where
  id : SuiteId
  hash : Hash.Provider
  mac : Mac.Provider
  macShort : Mac.Provider
  random : Random.Provider
  signature : Signature.Provider
  /-- The agreement on authentication keys. -/
  authAgreement : KeyAgreement.Provider
  cipherAgreement : KeyAgreement.Provider
  block : BlockCipher.Provider
  stream : StreamCipher.Provider
  keyDerivation : KeyDerivation.Provider
  /-- The keyed algorithm that key derivation works with. -/
  prf : Mac.Provider
  /-- The slot table behind a suite of test doubles. -/
  mocks : Option Mock.Handle
  deriving DecidableEq, Repr

namespace Suite

/-- What the suite needs whatever the round multipliers, in order of registration. -/
def standardRegistrations : List Registration :=
  [BuiltIn.sha2 .sha512, BuiltIn.hmacSha512, BuiltIn.hmacSha512_256, BuiltIn.curve25519Sha512,
    BuiltIn.curve25519Sha512_256, BuiltIn.ed25519, BuiltIn.operatingSystem, BuiltIn.aesCbc .fips,
    BuiltIn.aesCtr .fips, BuiltIn.pbkdf2]

/-- Registers all that a configuration needs. A multiplier other than the standard one is
reported between the standard records and the ciphers selected. -/
def registerFor (c : Config) (t : Registry) : Registry :=
  let t := t.registerAll standardRegistrations
  let t :=
    if c.block = .fips ∧ c.stream = .fips then t
    else t.report (.roundsSelected c.block.factor c.stream.factor)
  t.registerAll [BuiltIn.aesCbc c.block, BuiltIn.aesCtr c.stream]

/-- Resolves every capability by its identifier. A record that held an identifier before keeps
it, and then it is the one that is found. -/
def resolve (c : Config) : Resolution Suite := do
  let hash ← Registry.resolveHash (BuiltIn.hashId .sha512)
  let mac ← Registry.resolveMac BuiltIn.macSha512Id
  let macShort ← Registry.resolveMac BuiltIn.macSha512_256Id
  let random ← Registry.resolveRandom BuiltIn.operatingSystemId
  let signature ← Registry.resolveSignature BuiltIn.ed25519Id
  let authAgreement ← Registry.resolveKeyAgreement BuiltIn.curve25519Sha512Id
  let cipherAgreement ← Registry.resolveKeyAgreement BuiltIn.curve25519Sha512_256Id
  let block ← Registry.resolveBlockCipher (BuiltIn.cipherId c.block)
  let stream ← Registry.resolveStreamCipher (BuiltIn.cipherId c.stream)
  let (keyDerivation, prf) ← Registry.resolveKeyDerivation BuiltIn.pbkdf2Id BuiltIn.macSha512_256Id
  pure
    { id := .veloV1, hash, mac, macShort, random, signature, authAgreement, cipherAgreement,
      block, stream, keyDerivation, prf, mocks := none }

/-- The suite whose every capability forwards to a slot table. -/
def ofMocks (t : Mock.Handle) : Suite where
  id := .mock
  hash := .mock t
  mac := .mock t false
  macShort := .mock t true
  random := .mock t
  signature := .mock t
  authAgreement := .mock t false
  cipherAgreement := .mock t true
  block := .mock t
  stream := .mock t
  keyDerivation := .mock t
  prf := .mock t true
  mocks := some t

def ready (s : Suite) : Event := .suiteReady s.id.name s.block.name s.stream.name

/-- Builds the suite that a configuration selects. A suite of test doubles gets a slot table of
its own and needs no registry. -/
def ofConfig (c : Config) (registry : Registry) (mocks : Mock.Tables) :
    Except CryptoError Suite × Registry × Mock.Tables :=
  match c.suite with
  | .veloV1 =>
      match (resolve c).run (registerFor c registry) with
      | (.ok s, registry) => (.ok s, registry.report s.ready, mocks)
      | (.error e, registry) => (.error e, registry, mocks)
  | .mock =>
      let (t, mocks) := mocks.create
      let s := ofMocks t
      (.ok s, registry.report s.ready, mocks)

def ofId (s : SuiteId) (registry : Registry) (mocks : Mock.Tables) :
    Except CryptoError Suite × Registry × Mock.Tables :=
  ofConfig (Config.ofSuite s) registry mocks

def text (s : Suite) : String :=
  Text.RecordText.render
    ⟨"SuiteOptions",
      [("suite", s.id.label), ("hash", Text.quote s.hash.name), ("mac", Text.quote s.mac.name),
        ("mac_short", Text.quote s.macShort.name), ("signature", Text.quote s.signature.name),
        ("block", Text.quote s.block.name), ("stream", Text.quote s.stream.name)],
      true⟩

end Suite

end CryptoSuite
