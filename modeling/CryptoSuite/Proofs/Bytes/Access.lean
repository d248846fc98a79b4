import CryptoSuite.Proofs.Bytes.Overwrite

/-! Accesses with their conditions. A slice that does not lie in its string, a copy between lengths that
differ, and arithmetic that leaves the machine sizes answer nothing. -/
namespace CryptoSuite

/-- A number as a machine size. -/
def size? (n : Nat) : Option Nat := if n < 1 <<< 64 then some n else none

def minus? (a b : Nat) : Option Nat := if b ≤ a then some (a - b) else none

def modulo? (a b : Nat) : Option Nat := if 0 < b then some (a % b) else none

theorem size?_eq {n : Nat} (h : n ≤ 1 <<< 32) : size? n = some n :=
  if_pos (Nat.lt_of_le_of_lt h (by decide))

theorem minus?_eq {a b : Nat} (h : b ≤ a) : minus? a b = some (a - b) := if_pos h

theorem modulo?_eq {b : Nat} (h : 0 < b) (a : Nat) : modulo? a b = some (a % b) := if_pos h

namespace Bytes

/-- The bytes from `start` up to `stop`. -/
def slice? (b : Bytes) (start stop : Nat) : Option Bytes :=
  if start ≤ stop ∧ stop ≤ b.length then some ((b.drop start).take (stop - start)) else none

/-- Copies `src` over the bytes from `start` up to `stop`, which it has to fill exactly. -/
def fill? (dst : Bytes) (start stop : Nat) (src : Bytes) : Option Bytes :=
  if start ≤ stop ∧ stop ≤ dst.length ∧ src.length = stop - start then some (dst.overwrite start src)
  else none

variable {b src : Bytes} {start stop : Nat}

theorem slice?_eq (h : start ≤ stop) (hl : stop ≤ b.length) :
    b.slice? start stop = some ((b.drop start).take (stop - start)) := if_pos ⟨h, hl⟩

theorem slice?_front (h : stop ≤ b.length) : b.slice? 0 stop = some (b.take stop) :=
  slice?_eq (Nat.zero_le stop) h

theorem slice?_back (h : start ≤ b.length) : b.slice? start b.length = some (b.drop start) := by
  rw [slice?_eq h (Nat.le_refl _), List.take_of_length_le]
  simp

theorem fill?_eq (h : start ≤ stop) (hl : stop ≤ b.length) (hs : src.length = stop - start) :
    b.fill? start stop src = some (b.overwrite start src) := if_pos ⟨h, hl, hs⟩

/-- What is written next in a room that is filled from its front. -/
theorem fill?_append (made room : Bytes) {size : Nat} (hs : src.length = size)
    (h : size ≤ room.length) : (made ++ room).fill? made.length (made.length + size) src =
      some (made ++ src ++ room.drop size) := by
  have hl : made.length + size ≤ (made ++ room).length := by
    rw [List.length_append]
    omega
  rw [fill?_eq (Nat.le_add_right _ _) hl (by omega), overwrite, List.take_left, hs, List.drop_append]
  simp

end Bytes

end CryptoSuite
