import CryptoSuite.Bytes
import CryptoSuite.Aes.Field
import CryptoSuite.Aes.Box

/-! Cipher blocks and the layers of a round. A block is column-major: byte `4 * c + r` stands in
column `c` and row `r`. -/
namespace CryptoSuite.Aes

def blockSize : Nat := 16

abbrev Block := Vector UInt8 16

/-- A column of a block, and a word of a key schedule. -/
abbrev Word := Vector UInt8 4

namespace Word

def zero : Word := #v[0, 0, 0, 0]

def xor (a b : Word) : Word := Vector.zipWith (· ^^^ ·) a b

def substitute (a : Word) : Word := a.map sbox

/-- Moves each byte one place to the front; the first becomes the last. -/
def rotate (a : Word) : Word := #v[a[1], a[2], a[3], a[0]]

def mix (a : Word) : Word := #v[
  xtime a[0] ^^^ xtime a[1] ^^^ a[1] ^^^ a[2] ^^^ a[3],
  a[0] ^^^ xtime a[1] ^^^ xtime a[2] ^^^ a[2] ^^^ a[3],
  a[0] ^^^ a[1] ^^^ xtime a[2] ^^^ xtime a[3] ^^^ a[3],
  xtime a[0] ^^^ a[0] ^^^ a[1] ^^^ a[2] ^^^ xtime a[3]]

def inverseMix (a : Word) : Word := #v[
  gmul a[0] 14 ^^^ gmul a[1] 11 ^^^ gmul a[2] 13 ^^^ gmul a[3] 9,
  gmul a[0] 9 ^^^ gmul a[1] 14 ^^^ gmul a[2] 11 ^^^ gmul a[3] 13,
  gmul a[0] 13 ^^^ gmul a[1] 9 ^^^ gmul a[2] 14 ^^^ gmul a[3] 11,
  gmul a[0] 11 ^^^ gmul a[1] 13 ^^^ gmul a[2] 9 ^^^ gmul a[3] 14]

/-- The words spelled by an octet string; an incomplete last word is dropped. -/
def split : Bytes → List Word
  | a :: b :: c :: d :: rest => #v[a, b, c, d] :: split rest
  | _ => []

end Word

namespace Block

/-- The block at position `start` of an octet string, with zeros where the string has ended. -/
def read (b : Bytes) (start : Nat) : Block :=
  let rest := b.drop start
  Vector.ofFn fun i : Fin 16 => rest.getD i.val 0

/-- An octet string of exactly one block. -/
def ofBytes? (b : Bytes) : Option Block := if b.length = 16 then some (read b 0) else none

def xor (a b : Block) : Block := Vector.zipWith (· ^^^ ·) a b

/-- Masks the block with an octet string; bytes that the string does not reach stay. -/
def mask (a : Block) (m : Bytes) : Block := Vector.ofFn fun i : Fin 16 => a[i] ^^^ m.getD i.val 0

def substitute (a : Block) : Block := a.map sbox

def inverseSubstitute (a : Block) : Block := a.map inverseSbox

/-- Row `r` rotates left by `r` places. -/
def shiftRows (a : Block) : Block :=
  Vector.ofFn fun i : Fin 16 => a[(i.val + 4 * (i.val % 4)) % 16]

/-- Row `r` rotates right by `r` places. -/
def inverseShiftRows (a : Block) : Block :=
  Vector.ofFn fun i : Fin 16 => a[(i.val + 12 * (i.val % 4)) % 16]

def column (a : Block) (c : Fin 4) : Word :=
  #v[a[4 * c.val], a[4 * c.val + 1], a[4 * c.val + 2], a[4 * c.val + 3]]

def mapColumns (f : Word → Word) (a : Block) : Block :=
  let columns := Vector.ofFn fun c : Fin 4 => f (a.column c)
  Vector.ofFn fun i : Fin 16 => columns[i.val / 4][i.val % 4]

def mixColumns (a : Block) : Block := mapColumns Word.mix a

def inverseMixColumns (a : Block) : Block := mapColumns Word.inverseMix a

@[simp] theorem getElem_read (b : Bytes) (start i : Nat) (h : i < 16) :
    (read b start)[i] = b.getD (start + i) 0 := by
  simp [read, List.getD_eq_getElem?_getD]

@[simp] theorem getElem_xor (a b : Block) (i : Nat) (h : i < 16) :
    (xor a b)[i] = a[i] ^^^ b[i] := by simp [xor]

@[simp] theorem getElem_mask (a : Block) (m : Bytes) (i : Nat) (h : i < 16) :
    (mask a m)[i] = a[i] ^^^ m.getD i 0 := by simp [mask]

@[simp] theorem getElem_substitute (a : Block) (i : Nat) (h : i < 16) :
    (substitute a)[i] = sbox a[i] := by simp [substitute]

@[simp] theorem getElem_inverseSubstitute (a : Block) (i : Nat) (h : i < 16) :
    (inverseSubstitute a)[i] = inverseSbox a[i] := by simp [inverseSubstitute]

@[simp] theorem getElem_shiftRows (a : Block) (i : Nat) (h : i < 16) :
    (shiftRows a)[i] = a[(i + 4 * (i % 4)) % 16] := by simp [shiftRows]

@[simp] theorem getElem_inverseShiftRows (a : Block) (i : Nat) (h : i < 16) :
    (inverseShiftRows a)[i] = a[(i + 12 * (i % 4)) % 16] := by simp [inverseShiftRows]

theorem ofBytes?_toList (a : Block) : ofBytes? a.toList = some a := by
  have h : a.toList.length = 16 := by simp
  simp only [ofBytes?, h, ↓reduceIte, Option.some.injEq]
  ext i hi
  simp [List.getD_eq_getElem?_getD, hi]

end Block

end CryptoSuite.Aes
