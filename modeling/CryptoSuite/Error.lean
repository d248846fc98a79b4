import CryptoSuite.Interface
import CryptoSuite.Json.Fault
import CryptoSuite.Text.Hex

/-! The failures of cryptographic operations. A failure is a cause; its status code and its
message are functions of the cause. -/
namespace CryptoSuite

/-- The part of the library in which a failure arose. -/
inductive Component
  | buffer
  | hash
  | mac
  | block
  | stream
  | signature
  | keyAgreement
  | prng
  | keyDerivation
  | registry
  | mock
  | suite
  deriving DecidableEq, Repr

namespace Component

def all : List Component :=
  [buffer, hash, mac, block, stream, signature, keyAgreement, prng, keyDerivation, registry, mock,
    suite]

/-- The first status code of the component's range of 256 codes. -/
def base : Component → UInt32
  | buffer => 0x0100
  | hash => 0x0200
  | mac => 0x0300
  | block => 0x0400
  | stream => 0x0500
  | signature => 0x0600
  | keyAgreement => 0x0700
  | prng => 0x0800
  | keyDerivation => 0x0900
  | registry => 0x0A00
  | mock => 0x0B00
  | suite => 0x0C00

def title : Component → String
  | buffer => "buffer"
  | hash => "hash"
  | mac => "mac"
  | block => "block cipher"
  | stream => "stream cipher"
  | signature => "digital signature"
  | keyAgreement => "key agreement"
  | prng => "prng"
  | keyDerivation => "key derivation"
  | registry => "registry"
  | mock => "mock"
  | suite => "suite"

def label : Component → String
  | buffer => "Buffer"
  | hash => "Hash"
  | mac => "Mac"
  | block => "Block"
  | stream => "Stream"
  | signature => "Signature"
  | keyAgreement => "KeyAgreement"
  | prng => "Prng"
  | keyDerivation => "KeyDerivation"
  | registry => "Registry"
  | mock => "Mock"
  | suite => "Suite"

def ofLabel? (text : String) : Option Component := all.find? fun c => c.label == text

end Component

/-- An argument whose length is fixed. -/
inductive Part
  | seed
  | privateKey
  | publicKey
  | signature
  | sharedSecret
  | nonce
  | uuidBuffer
  | iv
  deriving DecidableEq, Repr

def Part.title : Part → String
  | seed => "seed"
  | privateKey => "private key"
  | publicKey => "public key"
  | signature => "signature"
  | sharedSecret => "shared secret"
  | nonce => "nonce"
  | uuidBuffer => "uuid buffer"
  | iv => "iv"

/-- Why an argument was rejected. -/
inductive Rejection
  | emptyBuffer
  | hex (fault : Hex.Fault)
  | length (part : Part) (expected given : Nat)
  | shortDigestOutput (needed : Nat)
  | shortDigestBuffer (given needed : Nat)
  | hashSizesOverflow
  | macBuffer (limit given : Nat)
  | blockLengths (expected input output : Nat)
  | notABlock (expected given : Nat)
  | keyedForDecryption
  | keyedForEncryption
  | notStarted
  | outputOverflow (holds need offset : Nat)
  | outputBelowIv
  | inputBelowIv
  | noRounds
  | emptyDerivedKey
  | emptySalt
  | emptyPrfOutput
  | tooManyChunks
  | chunkCounterOverflow
  | seedMismatch
  | nonContributory
  | other (text : String)
  deriving DecidableEq, Repr

def Rejection.text : Rejection → String
  | emptyBuffer => "buffer size must be non-zero"
  | hex fault => s!"invalid hex: {fault.text}"
  | length part expected given => s!"{part.title} must be {expected} bytes, got {given}"
  | shortDigestOutput needed => s!"digest output must be at least {needed} bytes"
  | shortDigestBuffer given needed => s!"digest buffer is {given} bytes, need at least {needed}"
  | hashSizesOverflow => "hash sizes overflow"
  | macBuffer limit given => s!"mac buffer must be 1-{limit} bytes, got {given}"
  | blockLengths expected input output =>
      s!"input and output must be {expected} bytes, got {input} and {output}"
  | notABlock expected given => s!"expected a {expected}-byte block, got {given}"
  | keyedForDecryption => "context was initialised for decryption"
  | keyedForEncryption => "context was initialised for encryption"
  | notStarted => "stream must be started or continued first"
  | outputOverflow holds need offset =>
      s!"output holds {holds} bytes, need {need} at offset {offset}"
  | outputBelowIv => "output cannot hold the iv"
  | inputBelowIv => "input is shorter than the iv"
  | noRounds => "rounds must be at least 1"
  | emptyDerivedKey => "derived key length must be non-zero"
  | emptySalt => "salt must be non-empty"
  | emptyPrfOutput => "prf output size must be non-zero"
  | tooManyChunks => "derived key length exceeds 2^32 - 1 PRF blocks"
  | chunkCounterOverflow => "block counter overflow"
  | seedMismatch => "private key seed does not match its public half"
  | nonContributory => "peer public key yields a non-contributory shared point"
  | other text => text

/-- Why a component failed on arguments that were in order. -/
inductive Breakdown
  | workingBlockTooSmall
  | keystreamBlockTooSmall
  | other (text : String)
  deriving DecidableEq, Repr

def Breakdown.text : Breakdown → String
  | workingBlockTooSmall => "working block too small"
  | keystreamBlockTooSmall => "keystream block too small"
  | other text => text

/-- Why a suite could not be selected. -/
inductive ConfigurationFault
  | unsupportedMultiplier (factor : Nat)
  | unknownSuite (name : String)
  | unknownSuiteId (id : UInt32)
  | json (fault : Json.Fault)
  | other (text : String)
  deriving DecidableEq, Repr

def ConfigurationFault.text : ConfigurationFault → String
  | unsupportedMultiplier factor =>
      s!"unsupported AES round multiplier: {factor} (expected 1-4)"
  | unknownSuite name => s!"unknown suite `{name}`"
  | unknownSuiteId id => s!"unknown suite id {Hex.identifier id}"
  | json fault => fault.text
  | other text => text

inductive CryptoError
  | invalidArgument (component : Component) (reason : Rejection)
  | outOfMemory (component : Component)
  | copySizeMismatch (expected actual : Nat)
  | badEncryptionKey (component : Component)
  | badDecryptionKey (component : Component)
  | verificationFailed (component : Component)
  | notRegistered (interface : Interface) (implementation : UInt32)
  | mockNotAdded (operation : String)
  | invalidConfiguration (fault : ConfigurationFault)
  | failure (component : Component) (cause : Breakdown)
  deriving DecidableEq, Repr

namespace CryptoError

def component : CryptoError → Component
  | invalidArgument c _ => c
  | outOfMemory c => c
  | copySizeMismatch _ _ => .buffer
  | badEncryptionKey c => c
  | badDecryptionKey c => c
  | verificationFailed c => c
  | notRegistered _ _ => .registry
  | mockNotAdded _ => .mock
  | invalidConfiguration _ => .suite
  | failure c _ => c

/-- The name of the kind of error. -/
def kind : CryptoError → String
  | invalidArgument _ _ => "InvalidArgument"
  | outOfMemory _ => "OutOfMemory"
  | copySizeMismatch _ _ => "CopySizeMismatch"
  | badEncryptionKey _ => "BadEncryptionKey"
  | badDecryptionKey _ => "BadDecryptionKey"
  | verificationFailed _ => "VerificationFailed"
  | notRegistered _ _ => "NotRegistered"
  | mockNotAdded _ => "MockNotAdded"
  | invalidConfiguration _ => "InvalidConfiguration"
  | failure _ _ => "Failure"

/-- The position of an error within its component's range of status codes. -/
def offset : CryptoError → UInt32
  | invalidArgument _ _ => 0x01
  | mockNotAdded _ => 0x01
  | invalidConfiguration _ => 0x01
  | outOfMemory _ => 0x02
  | badEncryptionKey _ => 0x03
  | badDecryptionKey _ => 0x04
  | copySizeMismatch _ _ => 0x05
  | verificationFailed _ => 0x06
  | notRegistered _ _ => 0x10
  | failure _ _ => 0xFF

def code (e : CryptoError) : UInt32 := e.component.base ||| e.offset

def message : CryptoError → String
  | invalidArgument c reason => s!"{c.title}: invalid argument: {reason.text}"
  | outOfMemory c => s!"{c.title}: out of memory"
  | copySizeMismatch expected actual =>
      s!"buffer copy size mismatch: {expected} bytes expected, {actual} given"
  | badEncryptionKey c => s!"{c.title}: bad encryption key"
  | badDecryptionKey c => s!"{c.title}: bad decryption key"
  | verificationFailed c => s!"{c.title}: verification failed"
  | notRegistered interface implementation =>
      s!"no {interface.title} implementation registered for id {Hex.identifier implementation}"
  | mockNotAdded operation => s!"mock operation `{operation}` has no installed closure"
  | invalidConfiguration fault => s!"invalid suite configuration: {fault.text}"
  | failure c cause => s!"{c.title}: {cause.text}"

/-- A refused request for memory is reported against the component that needed it. -/
def within (c : Component) : CryptoError → CryptoError
  | outOfMemory _ => outOfMemory c
  | e => e

end CryptoError

/-- The outcome of an operation that answers nothing but success or failure. -/
abbrev Status := Except CryptoError Unit

/-- The status code reported for a successful operation. -/
def successCode : UInt32 := 0

def statusCode {α : Type} : Except CryptoError α → UInt32
  | .ok _ => successCode
  | .error e => e.code

end CryptoSuite
