import Calculator.Evaluation
import Calculator.Proofs.Shape
import Calculator.Proofs.Stops

/-!
# What can go wrong with a text

A text has a value, or it has a fault of syntax, or the budget was limited and too small. No defect comes
of a text: its numerals have values, the trees that are read have signs where signs belong and operators
where operators do, and all pairs of doubles have a quotient and a power.

**Results.**
* `ofText_of_read`: tokens whose numerals have values are read, or have the fault of a text.
* `tooDeep_of_value`: a shaped tree has a value, or it is too deep for a limited budget.
* `evaluateAt_cases`: at every level a line has a value or a fault of syntax, or it is too deep for a limited
  budget.
* `evaluate_ok_or_unexpected`: without a limit a line has a value or a fault of syntax.
-/
namespace Calculator

/-- The faults of a text: of syntax, and of depth if the budget is limited. -/
def Fault.OfText (b : Budget) : Fault → Prop
  | unexpected _ _ => True
  | tooDeep => b ≠ .unlimited
  | _ => False

/-! ## Reading -/

namespace Reader

open Token

variable {b : Budget} {phrase : Phrase} {ts rest : List Token} {fault : Fault}

/-- Tokens whose numerals have values are read, or have the fault of a text. -/
theorem ofText_of_reads (h : Reads b phrase ts (.error fault) rest) (hv : HasValues ts) :
    fault.OfText b := by
  rcases stops_or_tooDeep_of_reads h with ⟨q, ahead, missing, rfl, -, href⟩ | ⟨rfl, hlimit⟩
  · cases href with
    | unexpected => trivial
    | missingValue hn hnone => exact absurd hnone (hv _ (List.mem_append_right q List.mem_cons_self) hn)
  · exact hlimit

/-- The expression of such tokens is read, or has the fault of a text. -/
theorem ofText_of_read {strict : Bool} (h : (read strict b ts).result = .error fault)
    (hv : HasValues ts) : fault.OfText b := by
  rcases of_read_eq_error h with hsum | ⟨_, rfl⟩
  · have hreads := reads_sum b ts
    rw [hsum] at hreads
    exact ofText_of_reads hreads hv
  · trivial

end Reader

/-! ## Values -/

namespace Expr

/-- Signs have a value. -/
theorem exists_applySign_eq {operator : Token} (h : operator.kind.isAdditive = true) (x : Float) :
    ∃ y, applySign operator x = .ok y := by
  unfold applySign
  cases hk : operator.kind with
  | plus | minus => exact ⟨_, rfl⟩
  | _ => rw [hk] at h; cases h

/-- Operators have a value, whatever their operands are. -/
theorem exists_applyOperator_eq {operator : Token} (h : operator.kind.tightness ≠ 0) (x y : Float) :
    ∃ z, applyOperator operator x y = .ok z := by
  unfold applyOperator
  cases hk : operator.kind with
  | plus | minus | star => exact ⟨_, rfl⟩
  | slash =>
    obtain ⟨z, hz⟩ := Double.exists_divide_eq x y
    exact ⟨z, by rw [hz]; rfl⟩
  | caret =>
    obtain ⟨z, hz⟩ := Double.exists_power_eq x y
    exact ⟨z, by rw [hz]; rfl⟩
  | _ => rw [hk] at h; exact absurd rfl h

/-- A shaped tree has a value, or it is too deep for a limited budget. -/
theorem tooDeep_of_value {e : Expr} (h : e.IsShaped) {b : Budget} {fault : Fault}
    (hf : e.value b = .error fault) : fault = .tooDeep ∧ b ≠ .unlimited := by
  induction e generalizing b with
  | number value => exact Budget.tooDeep_of_spend hf fun _ hf => nomatch hf
  | paren inner ih => exact Budget.tooDeep_of_spend hf fun _ hf => ih h hf
  | unary operator operand ih =>
    obtain ⟨hs, -, hoperand⟩ := h
    refine Budget.tooDeep_of_spend hf fun b' hf => ?_
    rcases Fault.of_bind hf with hx | ⟨x, -, hf⟩
    · exact ih hoperand hx
    · obtain ⟨y, hy⟩ := exists_applySign_eq hs x
      rw [hy] at hf
      cases hf
  | binary left operator right ihl ihr =>
    obtain ⟨hbeside, hl, hr⟩ := h
    refine Budget.tooDeep_of_spend hf fun b' hf => ?_
    rcases Fault.of_bind hf with hx | ⟨x, -, hf⟩
    · exact ihl hl hx
    rcases Fault.of_bind hf with hy | ⟨y, -, hf⟩
    · exact ihr hr hy
    · obtain ⟨z, hz⟩ := exists_applyOperator_eq (tightness_ne_zero_of_beside hbeside) x y
      rw [hz] at hf
      cases hf
  | stray => exact h.elim

/-- Without a limit a shaped tree has a value. -/
theorem exists_value_eq {e : Expr} (h : e.IsShaped) : ∃ x, e.value .unlimited = .ok x := by
  cases hvalue : e.value .unlimited with
  | ok x => exact ⟨x, rfl⟩
  | error fault => exact absurd rfl (tooDeep_of_value h hvalue).2

end Expr

/-! ## Lines -/

/-- The faults of a line are those of a text, at every level. -/
theorem ofText_of_evaluateAt {level : Log.Level} {strict : Bool} {b : Budget} {line : String} {fault : Fault}
    (h : evaluateAt level strict b line = .error fault) : fault.OfText b := by
  rw [evaluateAt_eq] at h
  rcases Fault.of_bind h with hparse | ⟨e, hparse, h⟩
  · exact Reader.ofText_of_read hparse (Token.hasValues_tokenize line)
  rcases Fault.of_bind h with hread | ⟨-, -, hvalue⟩
  · obtain ⟨rfl, hb⟩ := Evaluation.tooDeep_of_readAs hread
    exact hb
  · have hshaped := Reader.isShaped_of_sum (Reader.sum_of_read_eq_ok hparse)
    obtain ⟨rfl, hb⟩ := Expr.tooDeep_of_value hshaped hvalue
    exact hb

/-- At every level a line has a value or a fault of syntax, or it is too deep for a limited budget. -/
theorem evaluateAt_cases (level : Log.Level) (strict : Bool) (b : Budget) (line : String) :
    (∃ x, evaluateAt level strict b line = .ok x) ∨
      (∃ expected found, evaluateAt level strict b line = .error (.unexpected expected found)) ∨
      (b ≠ .unlimited ∧ evaluateAt level strict b line = .error .tooDeep) := by
  cases h : evaluateAt level strict b line with
  | ok x => exact .inl ⟨x, rfl⟩
  | error fault =>
    have hf := ofText_of_evaluateAt h
    cases fault with
    | unexpected expected found => exact .inr (.inl ⟨expected, found, rfl⟩)
    | tooDeep => exact .inr (.inr ⟨hf, rfl⟩)
    | _ => exact hf.elim

theorem evaluate_cases (strict : Bool) (b : Budget) (line : String) :
    (∃ x, evaluate strict b line = .ok x) ∨
      (∃ expected found, evaluate strict b line = .error (.unexpected expected found)) ∨
      (b ≠ .unlimited ∧ evaluate strict b line = .error .tooDeep) :=
  evaluateAt_cases .warning strict b line

/-- Without a limit a line has a value or a fault of syntax. Its numerals have values, and the operations
that could be refused are not, whatever their operands are. -/
theorem evaluate_ok_or_unexpected (strict : Bool) (line : String) :
    ((∃ x, evaluate strict .unlimited line = .ok x) ∨
      ∃ expected found, evaluate strict .unlimited line = .error (.unexpected expected found)) ∧
    (∀ t ∈ Token.tokenize line, t.kind = .number → Token.IsNumeral t.lexeme.toList ∧
      t.value = some (Double.ofNumeral t.lexeme.toList)) ∧
    (∀ a b, ∃ x, Double.divide a b = .ok x) ∧ (∀ a b, ∃ x, Double.power a b = .ok x) := by
  refine ⟨?_, fun t ht => Token.isExact_of_mem_tokenize ht, Double.exists_divide_eq,
    Double.exists_power_eq⟩
  rcases evaluate_cases strict .unlimited line with hvalue | hsyntax | ⟨hb, -⟩
  · exact .inl hvalue
  · exact .inr hsyntax
  · exact absurd rfl hb

end Calculator
