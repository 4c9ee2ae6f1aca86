/-!
# Tokens

A token has a kind, the text it was read from and, for a numeral, its value. The three are independent:
nothing here ties a lexeme to a kind, the scanner does.
-/
namespace Calculator

/-- What a token is. -/
inductive Token.Kind where
  | number
  | plus
  | minus
  | star
  | slash
  | caret
  | leftParen
  | rightParen
  | endOfInput
  | invalid
  deriving DecidableEq, Repr, Inhabited

/-- The name of a kind in messages. -/
def Token.Kind.name : Token.Kind → String
  | number => "NUMBER"
  | plus => "PLUS"
  | minus => "MINUS"
  | star => "STAR"
  | slash => "SLASH"
  | caret => "CARET"
  | leftParen => "LEFT_PAREN"
  | rightParen => "RIGHT_PAREN"
  | endOfInput => "END_OF_INPUT"
  | invalid => "INVALID"

/-- The kinds that join the terms of a sum. -/
def Token.Kind.isAdditive : Token.Kind → Bool
  | plus | minus => true
  | _ => false

/-- The kinds that join the factors of a product. -/
def Token.Kind.isMultiplicative : Token.Kind → Bool
  | star | slash => true
  | _ => false

structure Token where
  kind : Token.Kind
  lexeme : String
  value : Option Float := none
  deriving DecidableEq, Repr

namespace Token

/-- What follows the last token of a text, as often as it is asked for. -/
def endOfInput : Token := ⟨.endOfInput, "", none⟩

/-- A token in messages: its kind in angle brackets, then its lexeme. -/
def shown (t : Token) : String := "<" ++ t.kind.name ++ ">" ++ t.lexeme

/-- Equality of kind, lexeme and value, where values compare as numbers. -/
def same (t u : Token) : Bool := t.kind == u.kind && t.lexeme == u.lexeme && t.value == u.value

end Token
end Calculator
