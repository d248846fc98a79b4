import CryptoSuite.Sha2.Variant

/-! The digest of a whole message: pad, cut into blocks, compress in order, keep the leading
bytes. -/
namespace CryptoSuite.Sha2

/-- How many zero bytes separate the marker byte of a message of `length` bytes from its length
field, which ends the last block. -/
def paddingZeros (length : Nat) : Nat := (239 - length % 128) % 128

/-- The message, a marker byte, zeros, and the number of its bits as 16 big-endian bytes. -/
def pad (message : Bytes) : Bytes :=
  message ++ [0x80] ++ Bytes.zeros (paddingZeros message.length)
    ++ (Bytes.ofNatLittleEndian 16 (8 * message.length)).reverse

/-- The complete 128-byte blocks of an octet string. -/
def blocks (b : Bytes) : List Bytes :=
  let block := b.take 128
  if _ : block.length = 128 then block :: blocks (b.drop 128) else []
termination_by b.length
decreasing_by
  simp only [block, List.length_take, List.length_drop] at *
  omega

def digest (v : Variant) (message : Bytes) : Bytes :=
  ((blocks (pad message)).foldl compress v.initial).toBytes.take v.digestSize

end CryptoSuite.Sha2
