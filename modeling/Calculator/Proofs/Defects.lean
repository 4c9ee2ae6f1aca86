import Calculator.Expr.Printer
import Calculator.Proofs.Faults

/-!
# What goes wrong with a tree built by hand

A tree built by hand may have any token where an operator belongs, and leaves that are no expressions. Working
it out fails at the first defect that is met, and since an operator is looked at behind its operands, that is
the first defect in post-order. Printing it looks at no operator, so that it fails at the first stray leaf and
at nothing else. The budget is unlimited here.

**Results.**
* `foretells_value`, `foretells_render`: the first defect, or the first stray leaf, is the fault.
* `value_fails_at_first_defect`: both functions on every tree, and how their faults are related.
-/
namespace Calculator

namespace Expr

/-! ## Defects -/

/-- The nodes of a tree, operands before their operator and the left one first. -/
def postorder : Expr → List Expr
  | number value => [number value]
  | paren inner => inner.postorder ++ [paren inner]
  | unary operator operand => operand.postorder ++ [unary operator operand]
  | binary left operator right => left.postorder ++ right.postorder ++ [binary left operator right]
  | stray leaf => [stray leaf]

/-- What is wrong with a node itself, whatever its operands are. -/
def defect? : Expr → Option Fault
  | number _ | paren _ => none
  | unary operator _ =>
    if operator.kind ∈ [.plus, .minus] then none else some (.unknownSign operator)
  | binary _ operator _ =>
    if operator.kind ∈ [.plus, .minus, .star, .slash, .caret] then none
    else some (.unknownOperator operator)
  | stray leaf => some (.notExpression leaf)

/-- The message about a node that has a defect; it names the operator, or the leaf. -/
def complaint : Expr → String
  | number _ | paren _ => ""
  | unary operator _ => "Unexpected unary operator: " ++ operator.shown
  | binary _ operator _ => "Unexpected binary operator: " ++ operator.shown
  | stray leaf => "Unexpected expression type: " ++ leaf

/-- What is wrong with a node that is printed. -/
def straying? : Expr → Option Fault
  | stray leaf => some (.notExpression leaf)
  | _ => none

@[simp] theorem defect?_unary {operator : Token} {operand : Expr} :
    (unary operator operand).defect? = none ↔ operator.kind ∈ [.plus, .minus] := by
  simp only [defect?, ite_eq_left_iff, reduceCtorEq, imp_false, Decidable.not_not]

@[simp] theorem defect?_binary {left right : Expr} {operator : Token} :
    (binary left operator right).defect? = none ↔
      operator.kind ∈ [.plus, .minus, .star, .slash, .caret] := by
  simp only [defect?, ite_eq_left_iff, reduceCtorEq, imp_false, Decidable.not_not]

/-- Signs stand where signs belong, operators where operators do, and no leaf is stray. -/
structure IsSound (e : Expr) : Prop where
  signs : ∀ operator operand, unary operator operand ∈ e.postorder → operator.kind ∈ [.plus, .minus]
  operators : ∀ left operator right, binary left operator right ∈ e.postorder →
    operator.kind ∈ [.plus, .minus, .star, .slash, .caret]
  leaves : ∀ leaf, stray leaf ∉ e.postorder

/-- A tree is sound if no node has a defect. -/
theorem isSound_iff (e : Expr) : e.IsSound ↔ ∀ node ∈ e.postorder, node.defect? = none := by
  constructor
  · intro h node hnode
    cases node with
    | number | paren => rfl
    | unary operator operand => exact defect?_unary.mpr (h.signs operator operand hnode)
    | binary left operator right => exact defect?_binary.mpr (h.operators left operator right hnode)
    | stray leaf => exact absurd hnode (h.leaves leaf)
  · intro h
    refine ⟨fun operator operand hnode => defect?_unary.mp (h _ hnode),
      fun left operator right hnode => defect?_binary.mp (h _ hnode), fun leaf hnode => ?_⟩
    exact absurd (h _ hnode) (by simp [defect?])

theorem straying?_eq_some {node : Expr} {fault : Fault} :
    node.straying? = some fault ↔ ∃ leaf, node = stray leaf ∧ fault = .notExpression leaf := by
  cases node <;> simp [straying?, eq_comm]

theorem straying?_eq_none {node : Expr} : node.straying? = none ↔ ∀ leaf, node ≠ stray leaf := by
  cases node <;> simp [straying?]

/-- The message of a fault is that about the node whose defect it is. -/
theorem message_eq {node : Expr} {fault : Fault} (h : node.defect? = some fault) :
    fault.message = node.complaint := by
  cases node with
  | number | paren => cases h
  | unary operator operand =>
    simp only [defect?, Option.ite_none_left_eq_some, Option.some.injEq] at h
    obtain ⟨-, rfl⟩ := h
    rfl
  | binary left operator right =>
    simp only [defect?, Option.ite_none_left_eq_some, Option.some.injEq] at h
    obtain ⟨-, rfl⟩ := h
    rfl
  | stray leaf =>
    cases h
    rfl

end Expr

/-! ## The first defect is the fault -/

/-- What is foretold is the fault if it is one; otherwise there is none. -/
def Foretells {α : Type} (first : Option Fault) (outcome : Except Fault α) : Prop :=
  match first with
  | none => ∃ a, outcome = .ok a
  | some fault => outcome = .error fault

namespace Foretells

variable {α β : Type} {first second : Option Fault} {outcome : Except Fault α}

theorem ok_iff (h : Foretells first outcome) : (∃ a, outcome = .ok a) ↔ first = none := by
  cases first with
  | none => exact ⟨fun _ => rfl, fun _ => h⟩
  | some fault =>
    have hfault : outcome = .error fault := h
    simp [hfault]

theorem error_iff (h : Foretells first outcome) (fault : Fault) :
    outcome = .error fault ↔ first = some fault := by
  cases first with
  | none =>
    obtain ⟨a, rfl⟩ : ∃ a, outcome = .ok a := h
    simp
  | some found =>
    have hfault : outcome = .error found := h
    simp [hfault]

/-- The fault of two steps is that of the first one, or else that of the second one. -/
theorem bind {f : α → Except Fault β} (h : Foretells first outcome) (hf : ∀ a, Foretells second (f a)) :
    Foretells (first.or second) (outcome >>= f) := by
  cases first with
  | none =>
    obtain ⟨a, rfl⟩ : ∃ a, outcome = .ok a := h
    exact hf a
  | some fault =>
    have hfault : outcome = .error fault := h
    rw [hfault]
    rfl

end Foretells

namespace Expr

/-- A sign has a value, or is the defect of its node. -/
theorem foretells_applySign (operator : Token) (operand : Expr) (x : Float) :
    Foretells (unary operator operand).defect? (applySign operator x) := by
  by_cases h : operator.kind ∈ [.plus, .minus]
  · rw [defect?_unary.mpr h]
    refine exists_applySign_eq ?_ x
    revert h
    cases operator.kind <;> decide
  · have hdefect : (unary operator operand).defect? = some (.unknownSign operator) := if_neg h
    rw [hdefect]
    unfold applySign
    revert h
    cases operator.kind <;> simp [Foretells]

/-- An operator has a value whatever its operands are, or is the defect of its node. -/
theorem foretells_applyOperator (left : Expr) (operator : Token) (right : Expr) (x y : Float) :
    Foretells (binary left operator right).defect? (applyOperator operator x y) := by
  by_cases h : operator.kind ∈ [.plus, .minus, .star, .slash, .caret]
  · rw [defect?_binary.mpr h]
    refine exists_applyOperator_eq ?_ x y
    revert h
    cases operator.kind <;> decide
  · have hdefect : (binary left operator right).defect? = some (.unknownOperator operator) := if_neg h
    rw [hdefect]
    unfold applyOperator
    revert h
    cases operator.kind <;> simp [Foretells]

/-- A tree has a value, or the fault of the first node in post-order that has a defect. -/
theorem foretells_value (e : Expr) : Foretells (e.postorder.findSome? defect?) (e.value .unlimited) := by
  induction e with
  | number value => exact ⟨value, rfl⟩
  | paren inner ih =>
    rw [value_paren, postorder, List.findSome?_append]
    simpa [defect?] using ih
  | unary operator operand ih =>
    rw [postorder, List.findSome?_append]
    exact ih.bind fun x => by simpa using foretells_applySign operator operand x
  | binary left operator right ihl ihr =>
    rw [postorder, List.findSome?_append, List.findSome?_append, Option.or_assoc]
    exact ihl.bind fun x => ihr.bind fun y => by
      simpa using foretells_applyOperator left operator right x y
  | stray leaf => rfl

/-- A tree is printed, or has the fault of its first stray leaf. -/
theorem foretells_render (e : Expr) :
    Foretells (e.postorder.findSome? straying?) (e.render .unlimited) := by
  induction e with
  | number value => exact ⟨_, rfl⟩
  | paren inner ih =>
    have hinner : (paren inner).render .unlimited = inner.render .unlimited := rfl
    rw [hinner, postorder, List.findSome?_append]
    simpa [straying?] using ih
  | unary operator operand ih =>
    rw [postorder, List.findSome?_append]
    exact ih.bind fun s => ⟨_, rfl⟩
  | binary left operator right ihl ihr =>
    rw [postorder, List.findSome?_append, List.findSome?_append, Option.or_assoc]
    exact ihl.bind fun s => ihr.bind fun t => ⟨_, rfl⟩
  | stray leaf => rfl

/-- Working a tree out gives a value if the tree is sound, and otherwise fails at the first defect in post-order;
the message names what is at fault. Printing it fails at the first stray leaf, whatever the operators are. So a
tree that has a value is printed, and a tree that is not printed has no value. -/
theorem value_fails_at_first_defect (e : Expr) :
    ((∃ x, e.value .unlimited = .ok x) ↔ e.IsSound) ∧
    (∀ fault, e.value .unlimited = .error fault ↔ ∃ before node after,
      e.postorder = before ++ node :: after ∧ node.defect? = some fault ∧ ∀ n ∈ before, n.defect? = none) ∧
    (∀ node ∈ e.postorder, ∀ fault, node.defect? = some fault → fault.message = node.complaint) ∧
    ((∃ s, e.render .unlimited = .ok s) ↔ ∀ leaf, stray leaf ∉ e.postorder) ∧
    (∀ fault, e.render .unlimited = .error fault ↔ ∃ before leaf after,
      e.postorder = before ++ stray leaf :: after ∧ fault = .notExpression leaf ∧
        ∀ other, stray other ∉ before) ∧
    ((∃ x, e.value .unlimited = .ok x) → ∃ s, e.render .unlimited = .ok s) ∧
    ((∃ fault, e.render .unlimited = .error fault) → ∃ fault, e.value .unlimited = .error fault) := by
  have hvalue : (∃ x, e.value .unlimited = .ok x) ↔ e.IsSound := by
    rw [(foretells_value e).ok_iff, List.findSome?_eq_none_iff, isSound_iff]
  have hnone : ∀ nodes : List Expr, (∀ n ∈ nodes, n.straying? = none) ↔ ∀ leaf, stray leaf ∉ nodes := by
    intro nodes
    simp only [straying?_eq_none]
    exact ⟨fun h leaf hleaf => h _ hleaf leaf rfl, fun h n hn leaf hleaf => h leaf (hleaf ▸ hn)⟩
  have hrender : (∃ s, e.render .unlimited = .ok s) ↔ ∀ leaf, stray leaf ∉ e.postorder := by
    rw [(foretells_render e).ok_iff, List.findSome?_eq_none_iff, hnone]
  have hboth : (∃ x, e.value .unlimited = .ok x) → ∃ s, e.render .unlimited = .ok s := fun h =>
    hrender.mpr (hvalue.mp h).leaves
  refine ⟨hvalue, fun fault => ?_, fun node _ fault h => message_eq h, hrender, fun fault => ?_,
    hboth, fun h => ?_⟩
  · rw [(foretells_value e).error_iff, List.findSome?_eq_some_iff]
  · rw [(foretells_render e).error_iff, List.findSome?_eq_some_iff]
    constructor
    · intro ⟨before, node, after, hsplit, hnode, hbefore⟩
      obtain ⟨leaf, rfl, hfault⟩ := straying?_eq_some.mp hnode
      exact ⟨before, leaf, after, hsplit, hfault, (hnone before).mp hbefore⟩
    · intro ⟨before, leaf, after, hsplit, hfault, hbefore⟩
      exact ⟨before, _, after, hsplit, straying?_eq_some.mpr ⟨leaf, rfl, hfault⟩, (hnone before).mpr hbefore⟩
  · obtain ⟨fault, hfault⟩ := h
    cases hx : e.value .unlimited with
    | ok x =>
      obtain ⟨s, hs⟩ := hboth ⟨x, hx⟩
      rw [hs] at hfault
      cases hfault
    | error fault => exact ⟨fault, rfl⟩

/-- The sign on the left is met before the stray leaf, and that before the operator. -/
theorem value_fails_at_first_defect_sign :
    let star : Token := ⟨.star, "*", none⟩
    let e := binary (unary star (number 1)) ⟨.leftParen, "(", none⟩ (stray "None")
    e.value .unlimited = .error (.unknownSign star) ∧
      (Fault.unknownSign star).message = "Unexpected unary operator: <STAR>*" ∧
      e.render .unlimited = .error (.notExpression "None") := by
  intro star e
  obtain ⟨-, hvalue, hmessage, -, hrender, -⟩ := value_fails_at_first_defect e
  have hsign : (unary star (number 1)).defect? = some (.unknownSign star) := rfl
  have hnumber : ∀ n ∈ [number 1], n.defect? = none := List.forall_mem_singleton.mpr rfl
  refine ⟨(hvalue _).mpr ⟨[number 1], unary star (number 1), [stray "None", e], rfl, hsign, hnumber⟩,
    hmessage _ (by simp [e, postorder]) _ hsign, ?_⟩
  exact (hrender _).mpr ⟨[number 1, unary star (number 1)], "None", [e], rfl, rfl, by simp⟩

end Expr
end Calculator
