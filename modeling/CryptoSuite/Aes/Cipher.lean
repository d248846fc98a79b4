import CryptoSuite.Aes.Schedule

/-! The block transform in both directions, over round keys given by their number. Decryption
is the equivalent inverse cipher: it applies the inverse layers in the order of encryption. -/
namespace CryptoSuite.Aes

def encryptRound (b k : Block) : Block := b.substitute.shiftRows.mixColumns.xor k

def decryptRound (b k : Block) : Block :=
  b.inverseSubstitute.inverseShiftRows.inverseMixColumns.xor k

/-- A full transform: the first round key, `rounds - 1` rounds, and a last round that does not
mix. -/
def transform (round last : Block → Block → Block) (key : Nat → Block) (rounds : Nat) (b : Block) :
    Block :=
  let inner := (List.range (rounds - 1)).foldl (fun b r => round b (key (r + 1))) (b.xor (key 0))
  last inner (key rounds)

def encryptBlock (key : Nat → Block) (rounds : Nat) (b : Block) : Block :=
  transform encryptRound (fun b k => b.substitute.shiftRows.xor k) key rounds b

def decryptBlock (key : Nat → Block) (rounds : Nat) (b : Block) : Block :=
  transform decryptRound (fun b k => b.inverseSubstitute.inverseShiftRows.xor k) key rounds b

end CryptoSuite.Aes
