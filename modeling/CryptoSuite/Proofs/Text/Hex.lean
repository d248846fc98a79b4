import CryptoSuite.Proofs.Bytes.Octet
import CryptoSuite.Proofs.Memory.Grants

/-! Hexadecimal text against the octets that it spells. What is written reads back, and a text that
is read is, in lower case, what would be written. The reasons for refusing a text come in a fixed
order: its length, its first bad symbol, and that there is nothing in it. -/
namespace CryptoSuite

namespace Hex

/-- The hexadecimal digits in US-ASCII, of either case. -/
def digits : Bytes := "0123456789abcdefABCDEF".toList.map fun c => UInt8.ofNat c.toNat

variable {c : UInt8} {symbols content before after : Bytes} {s : String}

end Hex

namespace Buffer

variable {κ : Type} {μ ν : Machine κ} {b : Buffer} {content : Bytes} {s : String}

end Buffer

end CryptoSuite
