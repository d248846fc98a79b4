import CryptoSuite.Proofs.Json.Literal
import Mathlib.Data.List.DropRight

/-! Texts as tokens with space around them. A string has many written forms, every other token has one. -/
namespace CryptoSuite.Json

/-- Space that may stand between tokens. -/
def Blank (space : List Char) : Prop := ∀ c ∈ space, c ∈ [' ', '\t', '\n', '\r']

instance (space : List Char) : Decidable (Blank space) :=
  List.decidableBAll (fun c => c ∈ [' ', '\t', '\n', '\r']) space

inductive Mark
  | openObject
  | closeObject
  | openList
  | closeList
  | colon
  | comma
  deriving DecidableEq, Repr

def Mark.char : Mark → Char
  | openObject => '\x7b'
  | closeObject => '\x7d'
  | openList => '['
  | closeList => ']'
  | colon => ':'
  | comma => ','

inductive Token
  | mark (m : Mark)
  | null
  | string (content : String)
  | natural (n : Nat)
  deriving DecidableEq, Repr

/-- The text is a form of the token. Numbers have no sign, no leading zero, no fraction and no exponent. -/
def Token.Written : Token → List Char → Prop
  | mark m, text => text = [m.char]
  | null, text => text = ['n', 'u', 'l', 'l']
  | string content, text => ∃ t, Spelled t content.toList ∧ text = '"' :: t ++ ['"']
  | natural n, text => text = Nat.toDigits 10 n

/-- A text begins with the tokens, with any space in front of each, and goes on with `rest`. -/
inductive Begins : List Char → List Token → List Char → Prop
  | nil (rest : List Char) : Begins rest [] rest
  | cons {space written text rest : List Char} {t : Token} {ts : List Token} (hs : Blank space)
      (ht : t.Written written) (h : Begins text ts rest) :
      Begins (space ++ (written ++ text)) (t :: ts) rest

/-- A whole text consists of the tokens, with any space around each. -/
def Consists (text : List Char) (ts : List Token) : Prop := ∃ space, Blank space ∧ Begins text ts space

theorem blank_iff {space : List Char} : Blank space ↔ ∀ c ∈ space, isSpace c = true := by
  simp only [Blank, isSpace, List.mem_cons, List.not_mem_nil, or_false, Bool.or_eq_true, beq_iff_eq]
  constructor
  all_goals
    intro h c hc
    have := h c hc
    tauto

theorem blank_takeWhile (text : List Char) : Blank (text.takeWhile isSpace) :=
  blank_iff.mpr fun _ hc => List.mem_takeWhile_imp hc

theorem Mark.isSpace_char (m : Mark) : isSpace m.char = false := by cases m <;> rfl

/-- No token begins with space. -/
theorem Token.Written.exists_cons {t : Token} {written : List Char} (h : t.Written written) :
    ∃ c tail, written = c :: tail ∧ isSpace c = false := by
  cases t with
  | mark m => exact ⟨m.char, [], h, m.isSpace_char⟩
  | null => exact ⟨'n', _, h, rfl⟩
  | string content =>
    obtain ⟨t, -, rfl⟩ := h
    exact ⟨'"', _, rfl, rfl⟩
  | natural n =>
    obtain ⟨c, tail, hdigits⟩ := List.exists_cons_of_ne_nil (Nat.toDigits_ne_nil (n := n) (b := 10))
    refine ⟨c, tail, h.trans hdigits, ?_⟩
    have hc : c.isDigit = true := by
      apply Nat.isDigit_of_mem_toDigits (b := 10) (n := n) (by decide) (by decide)
      rw [hdigits]
      exact List.mem_cons_self
    by_contra hspace
    rw [Bool.not_eq_false] at hspace
    simp only [isSpace, Bool.or_eq_true, beq_iff_eq] at hspace
    rcases hspace with ((rfl | rfl) | rfl) | rfl <;> cases hc

/-- What is behind the space in front of a token. -/
theorem dropWhile_isSpace {space : List Char} (hs : Blank space) {t : Token} {written : List Char}
    (ht : t.Written written) (text : List Char) :
    (space ++ (written ++ text)).dropWhile isSpace = written ++ text := by
  obtain ⟨c, tail, rfl, hc⟩ := ht.exists_cons
  rw [List.dropWhile_append_of_pos (blank_iff.mp hs), List.cons_append,
    List.dropWhile_cons_of_neg (by rw [hc]; decide)]

theorem begins_cons_iff {text rest : List Char} {t : Token} {ts : List Token} :
    Begins text (t :: ts) rest ↔
      ∃ written mid, t.Written written ∧ text.dropWhile isSpace = written ++ mid ∧ Begins mid ts rest := by
  constructor
  · intro h
    cases h with
    | @cons space written mid _ _ _ hs ht h => exact ⟨written, mid, ht, dropWhile_isSpace hs ht mid, h⟩
  · rintro ⟨written, mid, ht, htext, h⟩
    rw [← List.takeWhile_append_dropWhile (p := isSpace) (l := text), htext]
    exact .cons (blank_takeWhile text) ht h

theorem begins_nil_iff {text rest : List Char} : Begins text [] rest ↔ text = rest := by
  constructor
  · rintro ⟨⟩
    rfl
  · rintro rfl
    exact .nil text

theorem begins_append_iff {text rest : List Char} {ts us : List Token} :
    Begins text (ts ++ us) rest ↔ ∃ mid, Begins text ts mid ∧ Begins mid us rest := by
  induction ts generalizing text with
  | nil => simp [begins_nil_iff]
  | cons t ts ih =>
    simp only [List.cons_append, begins_cons_iff, ih]
    constructor
    · rintro ⟨written, mid, ht, htext, mid', h, h'⟩
      exact ⟨mid', ⟨written, mid, ht, htext, h⟩, h'⟩
    · rintro ⟨mid', ⟨written, mid, ht, htext, h⟩, h'⟩
      exact ⟨written, mid, ht, htext, mid', h, h'⟩

theorem Begins.append {text mid rest : List Char} {ts us : List Token} (h : Begins text ts mid)
    (h' : Begins mid us rest) : Begins text (ts ++ us) rest :=
  begins_append_iff.mpr ⟨mid, h, h'⟩

end CryptoSuite.Json
