import CryptoSuite.Hash.Algorithm
import CryptoSuite.Sha2.State

/-! The SHA-2 family as hash algorithms. -/
namespace CryptoSuite.Sha2

def algorithm {κ : Type} (v : Variant) : Hash.Algorithm κ State where
  name := v.name
  digestSize := v.digestSize
  blockSize := blockSize
  create := State.new v
  update s data := pure (.ok (), s.update data)
  finalize s out := pure (s.finalize out)
  reset := State.reset
  release := State.release

end CryptoSuite.Sha2
