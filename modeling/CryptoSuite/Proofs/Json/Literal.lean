import CryptoSuite.Json.Literal
import Mathlib.Tactic.IntervalCases
import Mathlib.Tactic.SplitIfs

/-! The spellings of a string. Every character has several of them, by itself or by an escape; a literal
is read to the end of exactly these spellings. -/
namespace CryptoSuite.Json

/-- Hexadecimal digits in either case, with their values. -/
def hexDigits : List (Char × Nat) := "0123456789abcdef".toList.zipIdx ++ "ABCDEF".toList.zipIdx 10

/-- Four hexadecimal digits that spell a number. -/
inductive Quad : List Char → Nat → Prop
  | digits {a b c d : Char} {x y z w : Nat} (ha : (a, x) ∈ hexDigits) (hb : (b, y) ∈ hexDigits)
      (hc : (c, z) ∈ hexDigits) (hd : (d, w) ∈ hexDigits) :
      Quad [a, b, c, d] (4096 * x + 256 * y + 16 * z + w)

/-- The characters that have an escape of one character. -/
def shortEscapes : List (Char × Char) :=
  [('"', '"'), ('\\', '\\'), ('/', '/'), ('b', '\x08'), ('f', '\x0c'), ('n', '\n'), ('r', '\r'),
    ('t', '\t')]

/-- Four digits for a character, or two surrogates for a character beyond 16 bits. A surrogate alone
spells nothing. -/
inductive Numbered : List Char → Char → Prop
  | unit {q : List Char} {n : Nat} (hq : Quad q n) (h : n < 0xD800 ∨ 0xDFFF < n) :
      Numbered q (Char.ofNat n)
  | pair {q r : List Char} {high low : Nat} (hq : Quad q high) (hr : Quad r low)
      (h : 0xD800 ≤ high ∧ high ≤ 0xDBFF) (hl : 0xDC00 ≤ low ∧ low ≤ 0xDFFF) :
      Numbered (q ++ '\\' :: 'u' :: r) (Char.ofNat (0x10000 + (high - 0xD800) * 0x400 + (low - 0xDC00)))

/-- What may stand behind a backslash for a character. -/
inductive Escape : List Char → Char → Prop
  | short {e c : Char} (h : (e, c) ∈ shortEscapes) : Escape [e] c
  | numbered {e : List Char} {c : Char} (h : Numbered e c) : Escape ('u' :: e) c

/-- What may stand between quotes for a string. Quotes, backslashes and controls do not stand for
themselves. -/
inductive Spelled : List Char → List Char → Prop
  | nil : Spelled [] []
  | plain {c : Char} {text content : List Char} (h : c ≠ '"' ∧ c ≠ '\\' ∧ 0x20 ≤ c.toNat)
      (rest : Spelled text content) : Spelled (c :: text) (c :: content)
  | escape {e text content : List Char} {c : Char} (h : Escape e c) (rest : Spelled text content) :
      Spelled ('\\' :: e ++ text) (c :: content)

end CryptoSuite.Json
