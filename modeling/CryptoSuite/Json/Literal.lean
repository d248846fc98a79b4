import CryptoSuite.Json.Reader

/-! String literals, read from behind the opening quote. -/
namespace CryptoSuite.Json

def hexDigit? (c : Char) : Option Nat :=
  let n := c.toNat
  if 48 ≤ n ∧ n ≤ 57 then some (n - 48)
  else if 65 ≤ n ∧ n ≤ 70 then some (n - 55)
  else if 97 ≤ n ∧ n ≤ 102 then some (n - 87)
  else none

/-- The number spelled by four hexadecimal digits. -/
def fourDigits? (a b c d : Char) : Option Nat := do
  pure (4096 * (← hexDigit? a) + 256 * (← hexDigit? b) + 16 * (← hexDigit? c) + (← hexDigit? d))

/-- Four digits of an escape. A text with fewer than four octets left ends too early. -/
def hexEscape : List Char → Except Fault (Nat × List Char)
  | a :: b :: c :: d :: rest =>
      match fourDigits? a b c d with
      | some n => .ok (n, rest)
      | none => .error .invalidEscape
  | short =>
      if short.foldl (fun size c => size + c.utf8Size) 0 < 4 then .error (.unfinished .string)
      else .error .invalidEscape

/-- The second half of a pair of escapes, of which the first stood for the surrogate `high`. -/
def surrogateTail (high : Nat) : List Char → Except Fault (Char × List Char)
  | '\\' :: 'u' :: rest =>
      match hexEscape rest with
      | .error e => .error e
      | .ok (low, rest) =>
        if low < 0xDC00 ∨ 0xDFFF < low then .error .loneSurrogate
        else .ok (Char.ofNat (0x10000 + (high - 0xD800) * 0x400 + (low - 0xDC00)), rest)
  | [] => .error (.unfinished .string)
  | ['\\'] => .error (.unfinished .string)
  | _ => .error .unfinishedSurrogate

/-- The character that an escape by number stands for. -/
def unicodeEscape (text : List Char) : Except Fault (Char × List Char) :=
  match hexEscape text with
  | .error e => .error e
  | .ok (n, rest) =>
    if 0xDC00 ≤ n ∧ n ≤ 0xDFFF then .error .loneSurrogate
    else if 0xD800 ≤ n ∧ n ≤ 0xDBFF then surrogateTail n rest
    else .ok (Char.ofNat n, rest)

/-- The character that an escape stands for, read from behind the backslash. -/
def escaped : List Char → Except Fault (Char × List Char)
  | [] => .error (.unfinished .string)
  | c :: rest =>
      if c = '"' ∨ c = '\\' ∨ c = '/' then .ok (c, rest)
      else if c = 'b' then .ok ('\x08', rest)
      else if c = 'f' then .ok ('\x0c', rest)
      else if c = 'n' then .ok ('\n', rest)
      else if c = 'r' then .ok ('\r', rest)
      else if c = 't' then .ok ('\t', rest)
      else if c = 'u' then unicodeEscape rest
      else .error .invalidEscape

theorem hexEscape_shorter {text rest : List Char} {n : Nat} (h : hexEscape text = .ok (n, rest)) :
    rest.length < text.length := by
  unfold hexEscape at h
  split at h
  · split at h
    · simp only [Except.ok.injEq, Prod.mk.injEq] at h
      simp only [← h.2, List.length_cons]
      omega
    · cases h
  · split at h <;> cases h

theorem surrogateTail_shorter {high : Nat} {text rest : List Char} {c : Char}
    (h : surrogateTail high text = .ok (c, rest)) : rest.length < text.length := by
  unfold surrogateTail at h
  split at h
  · split at h
    · cases h
    · rename_i low rest' hx
      have := hexEscape_shorter hx
      split at h
      · cases h
      · simp only [Except.ok.injEq, Prod.mk.injEq] at h
        simp only [← h.2, List.length_cons]
        omega
  all_goals cases h

theorem unicodeEscape_shorter {text rest : List Char} {c : Char}
    (h : unicodeEscape text = .ok (c, rest)) : rest.length < text.length := by
  unfold unicodeEscape at h
  split at h
  · cases h
  · rename_i n rest' hx
    have := hexEscape_shorter hx
    split at h
    · cases h
    · split at h
      · have := surrogateTail_shorter h
        omega
      · simp only [Except.ok.injEq, Prod.mk.injEq] at h
        simpa only [← h.2] using this

theorem escaped_shorter {text rest : List Char} {c : Char}
    (h : escaped text = .ok (c, rest)) : rest.length < text.length := by
  unfold escaped at h
  split at h
  · cases h
  · rename_i first tail
    have close : ∀ {x : Char}, (Except.ok (x, tail) : Except Fault _) = .ok (c, rest) →
        rest.length < (first :: tail).length := by
      intro x hx
      simp only [Except.ok.injEq, Prod.mk.injEq] at hx
      simp [← hx.2]
    repeat' split at h
    all_goals first
      | exact close h
      | exact Nat.lt_succ_of_lt (unicodeEscape_shorter h)
      | cases h

/-- The characters of a literal up to its closing quote. -/
def literal (text : List Char) : Except Fault (List Char × List Char) :=
  match text with
  | [] => .error (.unfinished .string)
  | '"' :: rest => .ok ([], rest)
  | '\\' :: rest =>
      match _ : escaped rest with
      | .error e => .error e
      | .ok (c, rest) => (literal rest).map fun r => (c :: r.1, r.2)
  | c :: rest =>
      if c.toNat < 0x20 then .error .controlCharacter
      else (literal rest).map fun r => (c :: r.1, r.2)
termination_by text.length
decreasing_by
  · rename_i h
    have := escaped_shorter h
    simp only [List.length_cons]
    omega
  · simp

/-- A string literal whose opening quote is next. -/
def Reader.string : Reader String := do
  skip
  fun text => (literal text).map fun r => (String.ofList r.1, r.2)

end CryptoSuite.Json
