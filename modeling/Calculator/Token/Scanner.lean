import Calculator.Double.Nearest
import Calculator.Token

/-!
# Cutting a text into tokens

Space, tab and line feed separate tokens and are dropped. A numeral is as long as it can be: digits, and
if a point follows, the point and the digits behind it. Every other character is a token by itself, so
nothing that is not a separator is lost and scanning never fails.

**Results.**
* `numeral_append`: a numeral and what follows it make up the text.
* `next?_length_lt`: each token takes at least one character.
-/
namespace Calculator.Token

/-- The characters that stand between tokens. -/
def isSeparator (c : Char) : Bool := c == ' ' || c == '\t' || c == '\n'

/-- The kind of a character that is a token by itself. -/
def Kind.ofSymbol : Char → Kind
  | '(' => .leftParen
  | ')' => .rightParen
  | '-' => .minus
  | '+' => .plus
  | '*' => .star
  | '/' => .slash
  | '^' => .caret
  | _ => .invalid

/-- The token of a numeral. -/
def ofNumeral (numeral : List Char) : Token :=
  ⟨.number, String.ofList numeral, some (Double.ofNumeral numeral)⟩

/-- The token of a character that begins no numeral. -/
def ofSymbol (c : Char) : Token := ⟨.ofSymbol c, String.singleton c, none⟩

/-- The longest numeral at the front of a text that begins with a digit, and the rest. -/
def numeral (cs : List Char) : List Char × List Char :=
  let whole := cs.takeWhile Char.isDigit
  match cs.dropWhile Char.isDigit with
  | '.' :: cs => (whole ++ '.' :: cs.takeWhile Char.isDigit, cs.dropWhile Char.isDigit)
  | rest => (whole, rest)

/-- The first token of a text and what follows it, or `none` if only separators are left. -/
def next? (cs : List Char) : Option (Token × List Char) :=
  match cs.dropWhile isSeparator with
  | [] => none
  | c :: cs =>
    if c.isDigit then some (ofNumeral (numeral (c :: cs)).1, (numeral (c :: cs)).2)
    else some (ofSymbol c, cs)

/-! ## Progress -/

/-- A numeral and what follows it make up the text. -/
theorem numeral_append (cs : List Char) : (numeral cs).1 ++ (numeral cs).2 = cs := by
  have h := List.takeWhile_append_dropWhile (p := Char.isDigit) (l := cs)
  unfold numeral
  split
  · next rest hr =>
    rw [hr] at h
    simpa [List.takeWhile_append_dropWhile] using h
  · exact h

/-- A text that begins with a digit begins with a numeral. -/
theorem numeral_ne_nil {c : Char} {cs : List Char} (h : c.isDigit) : (numeral (c :: cs)).1 ≠ [] := by
  unfold numeral
  split <;> simp [h]

/-- Each token takes at least one character. -/
theorem next?_length_lt {cs rest : List Char} {t : Token} (h : next? cs = some (t, rest)) :
    rest.length < cs.length := by
  have hle := (List.dropWhile_suffix isSeparator (l := cs)).length_le
  unfold next? at h
  split at h
  · cases h
  · next c cs' hc =>
    rw [hc, List.length_cons] at hle
    split at h
    · next hd =>
      cases h
      have happ := congrArg List.length (numeral_append (c :: cs'))
      have hpos := List.length_pos_iff.mpr (@numeral_ne_nil c cs' hd)
      rw [List.length_append, List.length_cons] at happ
      omega
    · cases h
      omega

/-! ## The tokens of a text -/

/-- The tokens of a text, without the end of input. -/
def scan (cs : List Char) : List Token :=
  match _h : next? cs with
  | none => []
  | some (t, rest) => t :: scan rest
termination_by cs.length
decreasing_by exact next?_length_lt _h

/-- The tokens of a text, closed by the end of input. -/
def tokenize (text : String) : List Token := scan text.toList ++ [endOfInput]

theorem scan_of_next?_eq_none {cs : List Char} (h : next? cs = none) : scan cs = [] := by
  rw [scan]
  split
  · rfl
  · next h' => rw [h] at h'; cases h'

theorem scan_of_next?_eq_some {cs rest : List Char} {t : Token} (h : next? cs = some (t, rest)) :
    scan cs = t :: scan rest := by
  rw [scan]
  split
  · next h' => rw [h] at h'; cases h'
  · next h' => rw [h] at h'; cases h'; rfl

end Calculator.Token
