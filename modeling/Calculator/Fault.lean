import Calculator.Double.Power
import Calculator.Token

/-!
# Why there is no answer

A *syntax* fault is the text's: the first token that cannot go on, and a kind that could have. A *depth*
fault says that the nesting budget ran out. The others are *defects*: of a token list or a tree built by
hand, or of an operation that passes a refusal of the platform on. No text leads to one.
-/
namespace Calculator

inductive Fault where
  /-- A token stands where one of kind `expected` could have. -/
  | unexpected (expected : Token.Kind) (found : Token)
  /-- A numeral without a value. -/
  | missingValue (literal : Token)
  /-- A sign that is neither plus nor minus. -/
  | unknownSign (operator : Token)
  /-- An operator between two operands that is none of the five. -/
  | unknownOperator (operator : Token)
  /-- A leaf that is no expression; it is known by how it reads. -/
  | notExpression (leaf : String)
  /-- An operation that the platform refused. -/
  | arithmetic (why : Double.Refusal)
  /-- The nesting budget is used up. -/
  | tooDeep
  deriving DecidableEq, Repr

/-- The wording of a fault. -/
def Fault.message : Fault → String
  | unexpected expected found => expected.name ++ " expected, found " ++ found.kind.name
  | missingValue literal => "Unexpected literal: " ++ literal.shown
  | unknownSign operator => "Unexpected unary operator: " ++ operator.shown
  | unknownOperator operator => "Unexpected binary operator: " ++ operator.shown
  | notExpression leaf => "Unexpected expression type: " ++ leaf
  | arithmetic why => why.message
  | tooDeep => "expression nested too deeply"

/-- What goes wrong in two steps goes wrong in one of them. -/
theorem Fault.of_bind {α β : Type} {x : Except Fault α} {f : α → Except Fault β} {fault : Fault}
    (h : x >>= f = .error fault) : x = .error fault ∨ ∃ a, x = .ok a ∧ f a = .error fault := by
  cases x with
  | error =>
    cases h
    exact .inl rfl
  | ok a => exact .inr ⟨a, rfl, h⟩

/-- What goes wrong went wrong in the first step if the second only makes something of its result. -/
theorem Fault.of_bind_ok {α β : Type} {x : Except Fault α} {f : α → β} {fault : Fault}
    (h : (x >>= fun a => .ok (f a)) = .error fault) : x = .error fault := by
  rcases Fault.of_bind h with hx | ⟨a, -, h⟩
  · exact hx
  · cases h

/-- What goes well in two steps goes well in both of them. -/
theorem Fault.ok_of_bind {α β : Type} {x : Except Fault α} {f : α → Except Fault β} {r : β}
    (h : x >>= f = .ok r) : ∃ a, x = .ok a ∧ f a = .ok r := by
  cases x with
  | error => cases h
  | ok a => exact ⟨a, rfl, h⟩

end Calculator
