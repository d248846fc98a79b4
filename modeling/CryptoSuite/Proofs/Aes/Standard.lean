import CryptoSuite.Proofs.Aes.Field
import Mathlib.Data.Fin.VecNotation

/-! The cipher of FIPS 197 for any number of rounds, written after the standard: the substitution is an
inverse in the field under an affine map, columns are polynomials over the field, and the words of the
key are continued by a recurrence. -/
namespace CryptoSuite.Aes.Standard

open Polynomial

/-- Octets by row and column. -/
abbrev State := Fin 4 → Fin 4 → UInt8

abbrev Word := Fin 4 → UInt8

/-- The octet with the given bits, the low-order one being number zero. -/
def ofBits (f : Nat → Bool) : UInt8 := UInt8.ofNat (∑ i ∈ Finset.range 8, (f i).toNat * 2 ^ i)

/-- Each bit of the image is a sum of five bits and one of the constant. -/
def affine (b : UInt8) : UInt8 :=
  ofBits fun i => bit b i ^^ bit b ((i + 4) % 8) ^^ bit b ((i + 5) % 8) ^^ bit b ((i + 6) % 8)
    ^^ bit b ((i + 7) % 8) ^^ bit 0x63 i

/-- The inverse in the field, where zero counts as its own, under the affine map. -/
noncomputable def substitute (a : UInt8) : UInt8 := affine (octet (element a)⁻¹)

noncomputable def subBytes (s : State) : State := fun r c => substitute (s r c)

/-- Row `r` moves by `r` columns. -/
def shiftRows (s : State) : State := fun r c => s r (c + r)

/-- A column as a polynomial over the field, the first row being the constant term. -/
noncomputable def columnPolynomial (w : Word) : GF[X] := ∑ r : Fin 4, C (element (w r)) * X ^ r.val

/-- The polynomial {03}x^3 + {01}x^2 + {01}x + {02}. -/
noncomputable def mixer : GF[X] :=
  C (element 0x03) * X ^ 3 + C (element 0x01) * X ^ 2 + C (element 0x01) * X + C (element 0x02)

/-- The product with the fixed polynomial modulo x^4 + 1. -/
noncomputable def mixColumn (w : Word) : Word := fun r =>
  octet ((mixer * columnPolynomial w %ₘ (X ^ 4 + 1)).coeff r)

noncomputable def mixColumns (s : State) : State := fun r c => mixColumn (fun i => s i c) r

/-- Bitwise addition of words. -/
def addWords (v w : Word) : Word := fun r => v r ^^^ w r

noncomputable def subWord (w : Word) : Word := fun r => substitute (w r)

def rotWord (w : Word) : Word := fun r => w (r + 1)

/-- The round constant, the power of x that is one less. -/
noncomputable def rcon (j : Nat) : Word := ![octet (root ^ (j - 1)), 0, 0, 0]

/-- Word `i` of the expanded key. It begins with the words of the key. -/
noncomputable def word (key : Bytes) (i : Nat) : Word :=
  let nk := key.length / 4
  if 0 < nk ∧ nk ≤ i then
    let temp := word key (i - 1)
    addWords (word key (i - nk)) <|
      if i % nk = 0 then addWords (subWord (rotWord temp)) (rcon (i / nk))
      else if 6 < nk ∧ i % nk = 4 then subWord temp
      else temp
  else fun r => key.getD (4 * i + r) 0
termination_by i

/-- The octets of the first `n` words of the expanded key. -/
noncomputable def expandedKey (key : Bytes) (n : Nat) : Bytes :=
  (List.range n).flatMap fun i => List.ofFn (word key i)

/-- Adds four words of the expanded key, one to each column. -/
noncomputable def addRoundKey (key : Bytes) (round : Nat) (s : State) : State := fun r c =>
  s r c ^^^ word key (4 * round + c) r

/-- `nr` rounds, of which the last does not mix. -/
noncomputable def cipherState (key : Bytes) (nr : Nat) (s : State) : State :=
  let inner := (List.range (nr - 1)).foldl
    (fun s i => addRoundKey key (i + 1) (mixColumns (shiftRows (subBytes s)))) (addRoundKey key 0 s)
  addRoundKey key nr (shiftRows (subBytes inner))

/-- Octet `r + 4 * c` of a block is in row `r` and column `c`. -/
def toState (b : Block) : State := fun r c => b[r.val + 4 * c.val]

def ofState (s : State) : Block :=
  Vector.ofFn fun i : Fin (4 * 4) => s i.modNat i.divNat

noncomputable def cipher (key : Bytes) (nr : Nat) (b : Block) : Block :=
  ofState (cipherState key nr (toState b))

end CryptoSuite.Aes.Standard
