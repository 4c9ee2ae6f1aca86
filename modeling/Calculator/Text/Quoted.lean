import Calculator.Text.Printable

/-!
# Quoted texts

A quoted text stands between single quotes, or between double ones if it holds a single quote and no
double one. The quote that is used and the backslash are escaped by a backslash; line feed, carriage
return and tab are written by letter and all else that is not printable by its code point in hexadecimal.

**Results.**
* `newline_notMem_quoted`: a quoted text is one line, since the written form of no character holds a line
  feed.
-/
namespace Calculator.Text

/-- `n` in hexadecimal, filled up with zeros to `width` digits. -/
def hex (width n : Nat) : List Char :=
  let digits := Nat.toDigits 16 n
  List.replicate (width - digits.length) '0' ++ digits

/-- A code point that is not shown as it is: two, four or eight digits behind `x`, `u` or `U`. -/
def escapeCode (n : Nat) : List Char :=
  if n < 0x100 then '\\' :: 'x' :: hex 2 n
  else if n < 0x10000 then '\\' :: 'u' :: hex 4 n
  else '\\' :: 'U' :: hex 8 n

/-- The written form of a character between the quotes `quote`. -/
def escape (quote c : Char) : List Char :=
  if c = quote ∨ c = '\\' then ['\\', c]
  else if c = '\n' then ['\\', 'n']
  else if c = '\r' then ['\\', 'r']
  else if c = '\t' then ['\\', 't']
  else if isPrintable c then [c]
  else escapeCode c.toNat

/-- The quotes around a text. -/
def quoteFor (cs : List Char) : Char :=
  if '\'' ∈ cs ∧ '"' ∉ cs then '"' else '\''

/-- A text between quotes. -/
def quoted (text : String) : String :=
  let cs := text.toList
  let quote := quoteFor cs
  String.ofList (quote :: cs.flatMap (escape quote) ++ [quote])

/-! ## One line -/

theorem newline_notMem_toDigits (n : Nat) : '\n' ∉ Nat.toDigits 16 n := by
  induction n using Nat.strongRecOn with
  | ind n ih =>
    rw [Nat.toDigits_eq_if (by decide)]
    split
    · simp
    · simp [ih (n / 16) (by omega)]

theorem newline_notMem_hex (width n : Nat) : '\n' ∉ hex width n := by
  simp [hex, newline_notMem_toDigits]

theorem newline_notMem_escapeCode (n : Nat) : '\n' ∉ escapeCode n := by
  unfold escapeCode
  split
  · simp [newline_notMem_hex]
  · split <;> simp [newline_notMem_hex]

/-- The written form of a character holds no line feed. -/
theorem newline_notMem_escape {quote : Char} (hq : quote ≠ '\n') (c : Char) :
    '\n' ∉ escape quote c := by
  unfold escape
  split
  · next h =>
    rcases h with rfl | rfl
    · simp [hq.symm]
    · simp
  · split
    · simp
    · next hc =>
      split
      · simp
      · split
        · simp
        · split
          · simpa using fun h => hc h.symm
          · exact newline_notMem_escapeCode _

theorem quoteFor_ne_newline (cs : List Char) : quoteFor cs ≠ '\n' := by
  unfold quoteFor
  split <;> decide

/-- A quoted text holds no line feed. -/
theorem newline_notMem_quoted (text : String) : '\n' ∉ (quoted text).toList := by
  have hquote := quoteFor_ne_newline text.toList
  simp [quoted, hquote.symm, newline_notMem_escape hquote]

end Calculator.Text
