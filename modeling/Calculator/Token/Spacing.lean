import Calculator.Text.Blank
import Calculator.Token.Scanner

/-!
# Tokens back to text

The lexemes are joined by one space each; then the blanks inside parentheses and around carets are taken
out of the text as a whole, lexemes included.

**Results.**
* `length_of_spacedCaret?`: what follows a caret with its blanks is shorter, so closing up comes to an end.
-/
namespace Calculator.Token

open Text

/-- Takes out the blanks that follow an opening parenthesis; `inside` tells whether one was just passed. -/
def closeUpAfter (inside : Bool) : List Char → List Char
  | [] => []
  | c :: cs =>
    if inside && isBlank c then closeUpAfter true cs
    else c :: closeUpAfter (c == '(') cs

/-- Takes out the blanks that stand in front of a closing parenthesis. -/
def closeUpBefore : List Char → List Char
  | [] => []
  | c :: cs =>
    let rest := closeUpBefore cs
    if isBlank c && rest.head? == some ')' then rest else c :: rest

/-- The text behind a caret with blanks on both sides, if `cs` begins with one. -/
def spacedCaret? (cs : List Char) : Option (List Char) :=
  match cs, cs.dropWhile isBlank with
  | c :: _, '^' :: d :: rest => if isBlank c && isBlank d then some (rest.dropWhile isBlank) else none
  | _, _ => none

/-- What follows a caret with its blanks is shorter. -/
theorem length_of_spacedCaret? {cs rest : List Char} (h : spacedCaret? cs = some rest) :
    rest.length < cs.length := by
  unfold spacedCaret? at h
  split at h
  · next c cs' d rest' hd =>
    split at h
    · cases h
      have h1 := (List.dropWhile_suffix isBlank (l := c :: cs')).length_le
      have h2 := (List.dropWhile_suffix isBlank (l := rest')).length_le
      rw [hd] at h1
      simp only [List.length_cons] at *
      omega
    · cases h
  · cases h

/-- Takes out the blanks around a caret that has some on both sides, from the left; the blanks behind one
caret are not in front of the next. -/
def closeUpCarets (cs : List Char) : List Char :=
  match _h : spacedCaret? cs with
  | some rest => '^' :: closeUpCarets rest
  | none =>
    match cs with
    | [] => []
    | c :: cs => c :: closeUpCarets cs
termination_by cs.length
decreasing_by
  · exact length_of_spacedCaret? _h
  · exact Nat.lt_succ_self _

/-- The lexemes with a space between each two. -/
def spaced (ts : List Token) : String :=
  " ".intercalate ((ts.filter (·.kind != .endOfInput)).map (·.lexeme))

/-- A text for the tokens: no blanks just inside parentheses, none around carets, one space elsewhere. -/
def untokenize (ts : List Token) : String :=
  String.ofList (closeUpCarets (closeUpBefore (closeUpAfter false (spaced ts).toList)))

end Calculator.Token
