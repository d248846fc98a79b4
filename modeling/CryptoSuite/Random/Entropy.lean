import CryptoSuite.Bytes

/-! The entropy source of the machine: an endless sequence of octets that is read in order. -/
namespace CryptoSuite

structure Entropy where
  source : Nat → UInt8
  /-- How many octets have been read. -/
  position : Nat

namespace Entropy

def read (e : Entropy) (count : Nat) : Bytes × Entropy :=
  ((List.range count).map fun i => e.source (e.position + i),
    { e with position := e.position + count })

@[simp] theorem length_read (e : Entropy) (count : Nat) : (e.read count).1.length = count := by
  simp [read]

end Entropy

end CryptoSuite
