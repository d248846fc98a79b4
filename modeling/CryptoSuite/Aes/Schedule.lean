import CryptoSuite.Aes.Block

/-! Key schedules. The expansion runs past the standard number of rounds by continuing its one
recurrence, with the round constant multiplied by `x` each time it is used. -/
namespace CryptoSuite.Aes

/-- The words expanded so far and the round constant for the next use. -/
structure Expansion where
  words : Array Word
  constant : UInt8

namespace Expansion

/-- Appends the next word. `keyWords` is the number of words of the key. -/
def next (keyWords : Nat) (e : Expansion) : Expansion :=
  let i := e.words.size
  let last := e.words.getD (i - 1) Word.zero
  let before := e.words.getD (i - keyWords) Word.zero
  if i % keyWords = 0 then
    ⟨e.words.push (before.xor (last.rotate.substitute.xor #v[e.constant, 0, 0, 0])),
      xtime e.constant⟩
  else if 6 < keyWords ∧ i % keyWords = 4 then
    ⟨e.words.push (before.xor last.substitute), e.constant⟩
  else
    ⟨e.words.push (before.xor last), e.constant⟩

/-- The expansion of a key before any word is appended. -/
def start (key : Bytes) : Expansion := ⟨(Word.split key).toArray, 1⟩

end Expansion

def wordBytes (words : Array Word) : Bytes := words.toList.flatMap Vector.toList

/-- The encryption schedule of `rounds + 1` round keys, beginning with the key itself. -/
def encryptionSchedule (key : Bytes) (rounds : Nat) : Bytes :=
  let keyWords := key.length / 4
  wordBytes
    (Nat.repeat (Expansion.next keyWords) (4 * (rounds + 1) - keyWords) (Expansion.start key)).words

def roundKey (schedule : Bytes) (round : Nat) : Block := Block.read schedule (16 * round)

/-- The round keys of an encryption schedule in reverse order, with the columns of all but the
first and the last unmixed. -/
def decryptionSchedule (schedule : Bytes) (rounds : Nat) : Bytes :=
  (List.range (rounds + 1)).flatMap fun round =>
    let k := roundKey schedule (rounds - round)
    (if round = 0 ∨ round = rounds then k else k.inverseMixColumns).toList

end CryptoSuite.Aes
