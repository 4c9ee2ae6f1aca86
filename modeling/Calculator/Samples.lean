import Calculator.Expr.Printer
import Calculator.Expr.Reader
import Calculator.Expr.Value
import Calculator.Text.Quoted

/-!
# Samples

A few texts that show what the calculator can do, each with its tokens, its rendering and its value or the
reason why it has none.
-/
namespace Calculator.Samples

/-- The sample texts. -/
def texts : List String := [
  "5", "-1", "1 + 1", "-1 + 1", "1 + -1", "4 + 6 * 3", "(4 + 6)", "(4+6) * 3", "80225/+2", "7/6/2000",
  "5^2", "2^3^2", "--3", "3.", "1/0", "(-8)^0.5", "(2+3", "3 & 4"
]

/-- The rendering and the value of a text. -/
def workedOut (budget : Budget) (text : String) : Except Fault (List String) := do
  let tree ← Expr.parse false budget text
  let rendered ← tree.render budget
  let value ← tree.value budget
  return ["ast: " ++ rendered, "result: " ++ Double.Layout.result.text value]

/-- The lines that show one text. -/
def shown (budget : Budget) (text : String) : List String :=
  [String.ofList (List.replicate 10 '='), "code: " ++ Text.quoted text,
    "tokens: " ++ " ".intercalate ((Token.tokenize text).map Token.shown)]
    ++ match workedOut budget text with
      | .ok lines => lines
      | .error fault => ["Error: " ++ fault.message]

/-- The lines that show all sample texts. -/
def lines (budget : Budget) : List String := texts.flatMap (shown budget)

end Calculator.Samples
