import Calculator.Expr.Printer
import Calculator.Expr.Reader
import Calculator.Expr.Value
import Calculator.Log
import Calculator.Text.Quoted

/-!
# Working out a line

A line is read as an expression and the expression is worked out, within one budget. What happened is
recorded as far as the level asks for it: the first token that was ignored, the tree that was read, and the
value. The tree is described only where its record is shown, and that is a step of its own in front of the
last one. It takes more of the budget than working the tree out does, so a line whose tree is recorded can be
too deep when the same line at a more urgent level has a value.

**Results.**
* `evaluateAt_eq`: what a line comes to at a level, step by step.
* `evaluate_eq`: where no tree is recorded, that is the value of the tree.
-/
namespace Calculator

/-- The outcome of working out a line, and the records it leaves. -/
structure Evaluation where
  outcome : Except Fault Float
  log : List Log.Record

namespace Evaluation

/-- The record of what follows an expression, if something does. -/
def trailing (ahead : Token) : List Log.Record :=
  if ahead.kind = .endOfInput then []
  else [⟨.reader, .debug, "Ignoring trailing input starting at " ++ ahead.shown⟩]

/-- The record of the tree that a line was read as, if it is shown. The tree can be too deep for it. -/
def readAs (level : Log.Level) (budget : Budget) (line : String) (expr : Expr) :
    Except Fault (List Log.Record) :=
  if level.shows .debug then do
    let tree ← expr.describe budget
    return [⟨.evaluation, .debug, "Parsed " ++ Text.quoted line ++ " into " ++ tree⟩]
  else return []

/-- The record of the value of a line. -/
def workedOut (line : String) (outcome : Except Fault Float) : List Log.Record :=
  match outcome with
  | .ok value =>
    [⟨.evaluation, .debug, "Evaluated " ++ Text.quoted line ++ " to " ++ Double.Layout.literal.text value⟩]
  | .error _ => []

/-- Works out a line. Its records are those that are shown at the level. -/
def ofLine (level : Log.Level) (strict : Bool) (budget : Budget) (line : String) : Evaluation :=
  let reading := Reader.read strict budget (Token.tokenize line)
  match reading.result with
  | .error fault => ⟨.error fault, []⟩
  | .ok expr =>
    let ignored := Log.shown level (trailing (Reader.lookahead reading.rest))
    match readAs level budget line expr with
    | .error fault => ⟨.error fault, ignored⟩
    | .ok tree =>
      let outcome := expr.value budget
      ⟨outcome, ignored ++ tree ++ Log.shown level (workedOut line outcome)⟩

/-- Where no tree is recorded, none is described. -/
theorem readAs_of_ne_debug {level : Log.Level} (h : level ≠ .debug) (budget : Budget) (line : String)
    (expr : Expr) : readAs level budget line expr = .ok [] :=
  if_neg (mt Log.Level.shows_debug_iff.mp h)

/-- Where trees are recorded, the record holds the description. -/
theorem readAs_debug (budget : Budget) (line : String) (expr : Expr) :
    readAs .debug budget line expr = (expr.describe budget).map fun tree =>
      [⟨.evaluation, .debug, "Parsed " ++ Text.quoted line ++ " into " ++ tree⟩] := by
  unfold readAs
  rw [if_pos (Log.Level.shows_debug_iff.mpr rfl)]
  cases expr.describe budget <;> rfl

/-- Nothing but its depth keeps a tree from being recorded. -/
theorem tooDeep_of_readAs {level : Log.Level} {budget : Budget} {line : String} {expr : Expr} {fault : Fault}
    (h : readAs level budget line expr = .error fault) : fault = .tooDeep ∧ budget ≠ .unlimited := by
  by_cases hlevel : level = .debug
  · rw [hlevel, readAs_debug] at h
    cases hd : expr.describe budget with
    | ok tree =>
      rw [hd] at h
      cases h
    | error fault =>
      rw [hd] at h
      cases h
      exact Expr.tooDeep_of_describe hd
  · rw [readAs_of_ne_debug hlevel] at h
    cases h

end Evaluation

/-- The value of a line at a level. -/
def evaluateAt (level : Log.Level) (strict : Bool) (budget : Budget) (line : String) : Except Fault Float :=
  (Evaluation.ofLine level strict budget line).outcome

/-- The value of a line, at the level that a session has if none is chosen. -/
def evaluate (strict : Bool) (budget : Budget) (line : String) : Except Fault Float :=
  evaluateAt .warning strict budget line

/-- A line is read, its tree is recorded if its record is shown, and then it is worked out. -/
theorem evaluateAt_eq (level : Log.Level) (strict : Bool) (budget : Budget) (line : String) :
    evaluateAt level strict budget line =
      (Expr.parse strict budget line).bind fun expr =>
        (Evaluation.readAs level budget line expr).bind fun _ => expr.value budget := by
  unfold evaluateAt Evaluation.ofLine Expr.parse
  simp only
  split
  · simp_all [Except.bind]
  · split <;> simp_all [Except.bind]

/-- The value of a line is that of the expression that was read. -/
theorem evaluate_eq (strict : Bool) (budget : Budget) (line : String) :
    evaluate strict budget line = (Expr.parse strict budget line).bind fun expr => expr.value budget := by
  unfold evaluate
  rw [evaluateAt_eq]
  rfl

end Calculator
