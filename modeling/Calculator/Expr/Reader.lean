import Calculator.Budget
import Calculator.Expr
import Calculator.Token.Scanner

/-!
# Reading expressions

The grammar, with the loosest operators first:

* a sum is products joined by plus and minus, a product is powers joined by star and slash; both are chains
  of operands that are joined from the left;
* a power is a primary, or a primary, a caret and a power, so carets group from the right;
* a primary is a number, a sum in parentheses, or a sign and a primary.

Each function reads as much as belongs to its phrase and stops in front of the first token that does not.
It looks at kinds only, needs the next token and no other, and never takes an end of input. The tokens it
leaves are carried with the proof that they end the tokens it was given, on which the recursion rests.

**Results.**
* `taken_append_rest`: the tokens that are taken and those that are left are all.
* `read_eq_sum`: without the demand that nothing follows, reading is reading a sum.
* `read_true_ok_iff`: with it, reading is reading a sum in front of the end of input.
-/
namespace Calculator

/-- The outcome of reading from `ts`, and the tokens that are left, which end `ts`. -/
structure Reading (α : Type) (ts : List Token) where
  result : Except Fault α
  rest : List Token
  isSuffix : rest <:+ ts

namespace Reading

variable {α β : Type} {ts us : List Token}

/-- A reading from the end of a list is one from the list. -/
def within (r : Reading α us) (h : us <:+ ts) : Reading α ts := ⟨r.result, r.rest, r.isSuffix.trans h⟩

/-- What was read, changed. -/
def map (f : α → β) (r : Reading α ts) : Reading β ts := ⟨r.result.map f, r.rest, r.isSuffix⟩

/-- Reads nothing. -/
def done (result : Except Fault α) (ts : List Token) : Reading α ts := ⟨result, ts, List.suffix_rfl⟩

/-- The tokens that were taken. -/
def taken (r : Reading α ts) : List Token := ts.take (ts.length - r.rest.length)

theorem taken_append_rest (r : Reading α ts) : r.taken ++ r.rest = ts := by
  have h := List.suffix_iff_eq_drop.mp r.isSuffix
  calc r.taken ++ r.rest
      = ts.take (ts.length - r.rest.length) ++ ts.drop (ts.length - r.rest.length) := by rw [← h]; rfl
    _ = ts := List.take_append_drop _ ts

theorem taken_eq (r : Reading α ts) {q : List Token} (h : ts = q ++ r.rest) : r.taken = q :=
  List.append_cancel_right (r.taken_append_rest.trans h)

end Reading

/-- The chains of operands that are joined from the left. -/
inductive Level where
  | sum
  | product
  deriving DecidableEq, Repr

/-- The kinds that join the operands of a chain. -/
def Level.joins : Level → Token.Kind → Bool
  | sum => Token.Kind.isAdditive
  | product => Token.Kind.isMultiplicative

namespace Reader

/-- The next token; behind the last one an end of input. -/
def lookahead (ts : List Token) : Token := ts.head?.getD .endOfInput

/-- Takes the next token if it is of the kind. -/
def expect (kind : Token.Kind) (ts : List Token) : Reading Token ts :=
  match ts with
  | [] => .done (.error (.unexpected kind .endOfInput)) []
  | t :: ts =>
    if t.kind = kind then (Reading.done (.ok t) ts).within (List.suffix_cons t ts)
    else .done (.error (.unexpected kind t)) (t :: ts)

/-- The order on which the recursion rests: first the number of tokens, then the looseness of the phrase. -/
theorem lex_of_le {m n a b : Nat} (h : m ≤ n) (hab : a < b) :
    Prod.Lex (· < ·) (· < ·) (m, a) (n, b) := by
  rcases Nat.lt_or_eq_of_le h with h | rfl
  · exact Prod.Lex.left _ _ h
  · exact Prod.Lex.right _ hab

/-- Looseness of the operands of a chain; the chain itself is one looser. -/
def looseness : Level → Nat
  | .sum => 4
  | .product => 2

mutual

/-- A chain of operands. -/
def chain (level : Level) (budget : Budget) (ts : List Token) : Reading Expr ts :=
  match operand level budget ts with
  | ⟨.error fault, rest, h⟩ => ⟨.error fault, rest, h⟩
  | ⟨.ok left, rest, h⟩ => more level budget left rest h
termination_by (ts.length, looseness level + 1)
decreasing_by
  · exact Prod.Lex.right _ (Nat.lt_succ_self _)
  · exact lex_of_le h.length_le (Nat.succ_pos _)

/-- The operands that go on the chain `left`. -/
def more (level : Level) (budget : Budget) (left : Expr) {all : List Token} (ts : List Token)
    (h : ts <:+ all) : Reading Expr all :=
  match ts, h with
  | [], h => ⟨.ok left, [], h⟩
  | operator :: ts, h =>
    if level.joins operator.kind then
      match operand level budget ts with
      | ⟨.error fault, rest, hr⟩ =>
        ⟨.error fault, rest, (hr.trans (List.suffix_cons operator ts)).trans h⟩
      | ⟨.ok right, rest, hr⟩ =>
        more level budget (.binary left operator right) rest
          ((hr.trans (List.suffix_cons operator ts)).trans h)
    else ⟨.ok left, operator :: ts, h⟩
termination_by (ts.length, 0)
decreasing_by
  · exact Prod.Lex.left _ _ (Nat.lt_succ_self _)
  · exact Prod.Lex.left _ _ (Nat.lt_succ_of_le hr.length_le)

/-- An operand of a chain: the operands of a sum are products, those of a product are powers. -/
def operand (level : Level) (budget : Budget) (ts : List Token) : Reading Expr ts :=
  match level with
  | .sum => chain .product budget ts
  | .product => power budget ts
termination_by (ts.length, looseness level)
decreasing_by
  · exact Prod.Lex.right _ (by decide)
  · exact Prod.Lex.right _ (by decide)

/-- A power. -/
def power (budget : Budget) (ts : List Token) : Reading Expr ts :=
  match primary budget ts with
  | ⟨.error fault, rest, h⟩ => ⟨.error fault, rest, h⟩
  | ⟨.ok base, [], h⟩ => ⟨.ok base, [], h⟩
  | ⟨.ok base, operator :: rest, h⟩ =>
    if operator.kind = .caret then
      have hrest : rest <:+ ts := (List.suffix_cons operator rest).trans h
      match budget.spend Budget.levelCost with
      | .error fault => ⟨.error fault, rest, hrest⟩
      | .ok budget => ((power budget rest).map (.binary base operator)).within hrest
    else ⟨.ok base, operator :: rest, h⟩
termination_by (ts.length, 1)
decreasing_by
  · exact Prod.Lex.right _ (by decide)
  · exact Prod.Lex.left _ _ (Nat.lt_of_succ_le h.length_le)

/-- A primary. -/
def primary (budget : Budget) (ts : List Token) : Reading Expr ts :=
  match ts with
  | [] => .done (.error (.unexpected .number .endOfInput)) []
  | token :: ts =>
    if token.kind = .leftParen then
      match budget.spend Budget.parenthesisCost with
      | .error fault => ⟨.error fault, ts, List.suffix_cons token ts⟩
      | .ok budget =>
        match chain .sum budget ts with
        | ⟨.error fault, rest, h⟩ => ⟨.error fault, rest, h.trans (List.suffix_cons token ts)⟩
        | ⟨.ok inner, rest, h⟩ =>
          ((expect .rightParen rest).map fun _ => .paren inner).within
            (h.trans (List.suffix_cons token ts))
    else if token.kind.isAdditive then
      match budget.spend Budget.levelCost with
      | .error fault => ⟨.error fault, ts, List.suffix_cons token ts⟩
      | .ok budget => ((primary budget ts).map (.unary token)).within (List.suffix_cons token ts)
    else if token.kind = .number then
      match token.value with
      | none => ⟨.error (.missingValue token), ts, List.suffix_cons token ts⟩
      | some value => ⟨.ok (.number value), ts, List.suffix_cons token ts⟩
    else .done (.error (.unexpected .number token)) (token :: ts)
termination_by (ts.length, 0)
decreasing_by
  all_goals exact Prod.Lex.left _ _ (Nat.lt_succ_self _)

end

/-- A sum. -/
def sum (budget : Budget) (ts : List Token) : Reading Expr ts := chain .sum budget ts

/-- An expression. If nothing may follow, whatever does is a fault; it is left in either case. -/
def read (strict : Bool) (budget : Budget) (ts : List Token) : Reading Expr ts :=
  match sum budget ts with
  | ⟨.error fault, rest, h⟩ => ⟨.error fault, rest, h⟩
  | ⟨.ok expr, rest, h⟩ =>
    if strict && (lookahead rest).kind != .endOfInput then
      ⟨.error (.unexpected .endOfInput (lookahead rest)), rest, h⟩
    else ⟨.ok expr, rest, h⟩

/-- Reads one expression after the other, each from the tokens that the one before it left; a step tells
whether nothing may follow. -/
def readEach (budget : Budget) : List Bool → List Token → List (Except Fault Expr) × List Token
  | [], ts => ([], ts)
  | strict :: steps, ts =>
    let reading := read strict budget ts
    let later := readEach budget steps reading.rest
    (reading.result :: later.1, later.2)

/-! ## Laws -/

theorem read_eq_sum (budget : Budget) (ts : List Token) : read false budget ts = sum budget ts := by
  unfold read
  split <;> simp_all

/-- An expression is a sum. -/
theorem sum_of_read_eq_ok {strict : Bool} {budget : Budget} {ts : List Token} {expr : Expr}
    (h : (read strict budget ts).result = .ok expr) : (sum budget ts).result = .ok expr := by
  unfold read at h
  split at h
  · cases h
  · next heq =>
    rw [heq]
    split at h
    · cases h
    · exact h

/-- If an expression is not read, neither is a sum, or something follows it that may not. -/
theorem of_read_eq_error {strict : Bool} {budget : Budget} {ts : List Token} {fault : Fault}
    (h : (read strict budget ts).result = .error fault) :
    (sum budget ts).result = .error fault ∨ ∃ found, fault = .unexpected .endOfInput found := by
  unfold read at h
  split at h
  · next heq =>
    rw [heq]
    exact .inl h
  · next rest _ heq =>
    split at h
    · cases h
      exact .inr ⟨lookahead rest, rfl⟩
    · cases h

/-- If nothing may follow, an expression is read if a sum is and the end of input is ahead. -/
theorem read_true_ok_iff {budget : Budget} {ts : List Token} {expr : Expr} :
    (read true budget ts).result = .ok expr ↔
      (sum budget ts).result = .ok expr ∧ (lookahead (sum budget ts).rest).kind = .endOfInput := by
  unfold read
  split
  · next heq => simp [heq]
  · next heq =>
    rw [heq]
    split <;> simp_all

end Reader

/-- The expression of a text. -/
def Expr.parse (strict : Bool) (budget : Budget) (text : String) : Except Fault Expr :=
  (Reader.read strict budget (Token.tokenize text)).result

end Calculator
