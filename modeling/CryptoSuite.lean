import CryptoSuite.Suite.Capability
import CryptoSuite.Proofs.Machine
import CryptoSuite.Proofs.Memory.Grants
import CryptoSuite.Proofs.Bytes.Endian
import CryptoSuite.Proofs.Bytes.Overwrite
import CryptoSuite.Proofs.Ctr.Counter
import CryptoSuite.Proofs.Aes.Key
import CryptoSuite.Proofs.Ctr.Keystream
import CryptoSuite.Proofs.Ctr.Operations
import CryptoSuite.Proofs.Ctr.Session
import CryptoSuite.Proofs.Sha2.Blocks
import CryptoSuite.Proofs.Sha2.Streaming
import CryptoSuite.Proofs.Sha2.Finishing
import CryptoSuite.Proofs.Sha2.Representation
import CryptoSuite.Proofs.Sha2.Conformance
import CryptoSuite.Proofs.Hash.Call
import CryptoSuite.Proofs.Sha2.Session
import CryptoSuite.Proofs.Aes.Layers
import CryptoSuite.Proofs.Aes.Inverse
import CryptoSuite.Proofs.Hmac.State
import CryptoSuite.Proofs.Mac.Call
import CryptoSuite.Proofs.Hmac.Creation
import CryptoSuite.Proofs.Hmac.Session
import CryptoSuite.Proofs.Hmac.Verification
import CryptoSuite.Proofs.Memory.Accounts
import CryptoSuite.Proofs.Memory.Ownership
import CryptoSuite.Proofs.Memory.Hashing
import CryptoSuite.Proofs.Memory.Keyed
import CryptoSuite.Proofs.Memory.Ciphers
import CryptoSuite.Proofs.Memory.Derivation
import CryptoSuite.Proofs.Memory.Session
import CryptoSuite.Proofs.KeyAgreement.Secrets
import CryptoSuite.Proofs.Refusal.Contexts
import CryptoSuite.Proofs.Refusal.Outputs
import CryptoSuite.Proofs.KeyDerivation.Chain
import CryptoSuite.Proofs.KeyDerivation.Conformance
import CryptoSuite.Proofs.Aes.Field
import CryptoSuite.Proofs.Aes.Standard
import CryptoSuite.Proofs.Aes.Expansion
import CryptoSuite.Proofs.Aes.Conformance
import CryptoSuite.Proofs.Ctr.RoundTrip
import CryptoSuite.Proofs.Registry.History
import CryptoSuite.Proofs.Registry.Resolution
import CryptoSuite.Proofs.Suite.Building
import CryptoSuite.Proofs.Suite.Protection
import CryptoSuite.Proofs.KeyAgreement.Agreement
import CryptoSuite.Proofs.Memory.Demands
import CryptoSuite.Proofs.Mac.Steady
import CryptoSuite.Proofs.KeyDerivation.Completion
import CryptoSuite.Proofs.Memory.Exhaustion
import CryptoSuite.Proofs.Cbc.State
import CryptoSuite.Proofs.Cbc.Chaining
import CryptoSuite.Proofs.Mock.Request
import CryptoSuite.Proofs.Mock.History
import CryptoSuite.Proofs.Mock.Trace
import CryptoSuite.Proofs.Json.Literal
import CryptoSuite.Proofs.Json.Token
import CryptoSuite.Proofs.Json.Reading
import CryptoSuite.Proofs.Json.Number
import CryptoSuite.Proofs.Suite.Document
import CryptoSuite.Proofs.Suite.Reading
import CryptoSuite.Proofs.Hmac.Acceptance
import CryptoSuite.Proofs.KeyDerivation.Filling
import CryptoSuite.Proofs.Cbc.Damage
import CryptoSuite.Proofs.Signature.Keys
import CryptoSuite.Proofs.Registry.Order
import CryptoSuite.Proofs.Sha2.Traced
import CryptoSuite.Proofs.Suite.Order
import CryptoSuite.Proofs.Text.Hex
import CryptoSuite.Proofs.Bytes.Chunks
import CryptoSuite.Proofs.Aes.Extension
import CryptoSuite.Proofs.Sha2.Counting
import CryptoSuite.Proofs.Ctr.Counting
import CryptoSuite.Proofs.Bytes.Access
import CryptoSuite.Proofs.Mirror
import CryptoSuite.Proofs.Hash.Mirror
import CryptoSuite.Proofs.Mac.Mirror
import CryptoSuite.Proofs.StreamCipher.Mirror
import CryptoSuite.Proofs.BlockCipher.Mirror
import CryptoSuite.Proofs.Sha2.Access
import CryptoSuite.Proofs.Hmac.Access
import CryptoSuite.Proofs.Aes.Access
import CryptoSuite.Proofs.Ctr.Access
import CryptoSuite.Proofs.Cbc.Access
import CryptoSuite.Proofs.KeyDerivation.Access
import CryptoSuite.Proofs.KeyAgreement.Access
import CryptoSuite.Proofs.Registry.Factories
import CryptoSuite.Proofs.Memory.Guarded
