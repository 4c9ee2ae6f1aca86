import Calculator.Evaluation
import Calculator.Text.Blank
import Calculator.Text.Digit
import Calculator.Text.Pattern

/-!
# Checking against another calculator

Another calculator, one that is built into a programming language, reads most expressions alike. Here is
which texts are left out because it reads them otherwise or fails on them, when two results count as the
same, and the check of an expression against its own rendering.
-/
namespace Calculator.Crosscheck

open Text

/-- What a calculator makes of a text: a value, or a message instead. -/
inductive Result where
  | value (x : Float)
  | message (text : String)
  deriving DecidableEq, Repr

/-- What this calculator makes of a text behind which nothing may follow. -/
def result (budget : Budget) (text : String) : Except Fault Result :=
  match evaluate true budget text with
  | .ok x => .ok (.value x)
  | .error (.unexpected expected found) => .ok (.message (Fault.unexpected expected found).message)
  | .error fault => .error fault

/-! ## Texts that are read otherwise -/

/-- Two stars are a power elsewhere, and two slashes a division without a rest. -/
def doubledOperators : List (List Piece) :=
  [[.one (· == '*'), .many isBlank, .one (· == '*')], [.one (· == '/'), .many isBlank, .one (· == '/')]]

/-- A point without a digit in front; two numbers or a number and a point side by side; two points. -/
def strayLiterals : List (List Piece) :=
  [[.one (!isDecimalDigit ·), .one (· == '.')],
    [.one isDecimalDigit] ++ Piece.some isBlank ++ [.one fun c => isDecimalDigit c || c == '.'],
    [.one isDecimalDigit, .one (· == '.'), .many isDecimalDigit, .one (· == '.')]]

/-- A slash, then signs, then parentheses, then a zero. -/
def zeroDivisor : List Piece :=
  [.one (· == '/'), .many isBlank, .many fun c => c == '-' || c == '+', .many isBlank, .many (· == '('),
    .many isBlank, .one (· == '0')]

/-- Whether the other calculator reads the text alike and does not fail on it. -/
def isComparable (text : String) : Bool :=
  let cs := text.toList
  !cs.contains '^' && !doubledOperators.any (occursIn · cs)
    && !(cs.head? == some '.' || strayLiterals.any (occursIn · cs)) && !occursIn zeroDivisor cs

/-! ## Results that are the same -/

/-- Whether two finite numbers differ by no more than a billionth of the larger one. -/
def isClose (x y : Float) : Bool :=
  let difference := (y - x).abs
  x == y || decide (difference ≤ (1e-9 * y).abs) || decide (difference ≤ (1e-9 * x).abs)

/-- Whether two results count as the same: both messages, both no numbers, the same infinity, or close. -/
def sameResult : Result → Result → Bool
  | .message _, .message _ => true
  | .value x, .value y =>
    if x.isNaN || y.isNaN then x.isNaN && y.isNaN
    else if x.isInf || y.isInf then x == y
    else isClose x y
  | _, _ => false

/-! ## Renderings -/

/-- What is reported of a text whose rendering has another value. -/
def report (text rendered : String) (value renderedValue : Float) : String :=
  quoted text ++ " rendered as " ++ quoted rendered
    ++ "\nmy: " ++ Double.Layout.result.text value
    ++ "\nrendered: " ++ Double.Layout.result.text renderedValue ++ "\n\n\n"

/-- Checks that the rendering of a text still has its value; the report is empty if it has. Renderings
with an exponent are not checked, for no numeral has one. -/
def checkRendering (budget : Budget) (text : String) (value : Float) : Except Fault String := do
  let tree ← Expr.parse true budget text
  let rendered ← tree.render budget
  if rendered.toList.contains 'e' then
    return ""
  let again ← Expr.parse true budget rendered
  let renderedValue ← again.value budget
  return if sameResult (.value value) (.value renderedValue) then ""
    else report text rendered value renderedValue

end Calculator.Crosscheck
