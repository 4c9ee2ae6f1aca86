import Calculator.Evaluation
import Calculator.Proofs.Stops

/-!
# What a budget changes

A budget that is too small has the outcome replaced, by the fault that it is used up, and changes nothing
else: every budget with which this does not happen, an unlimited one among them, gives the same outcome. For
what walks down a tree the units that are needed are the levels of the tree.

**Results.**
* `Needs.spend`, `Needs.bind`: what computations one after the other need is the most that one of them needs,
  and going down needs its price on top.
* `needs_value`, `needs_render`: working out and printing a tree need its height.
* `needs_describe`: describing a tree needs three times its height.
* `reads_of_le`, `read_eq_of_le`: a reading that is not too deep goes the same way within a larger budget.
* `evaluateAt_of_parse`: what a line comes to at a level, by the height of its tree.
-/
namespace Calculator

namespace Budget

variable {α β : Type} {f : Budget → Except Fault α} {g : α → Budget → Except Fault β} {k l n : Nat}

/-- An outcome other than that the budget is used up is the outcome within every larger budget. -/
def IsStable (f : Budget → Except Fault α) : Prop :=
  ∀ b c, b ≤ c → f b ≠ .error .tooDeep → f c = f b

/-- The budget `k` is what the computation needs: with it, and with every larger one, it is not too deep,
and whatever it comes to then it comes to without a limit; with a smaller one it comes to no result. -/
structure Needs (f : Budget → Except Fault α) (k : Nat) : Prop where
  isStable : IsStable f
  not_tooDeep : ∀ n, k ≤ n → f (units n) ≠ .error .tooDeep
  le_of_ok : ∀ n x, f (units n) = .ok x → k ≤ n

theorem le_unlimited (b : Budget) : b ≤ unlimited := by
  cases b <;> trivial

/-- The units that are left of some. -/
theorem spend_units_ok_iff {cost : Nat} {b : Budget} :
    (units n).spend cost = .ok b ↔ cost ≤ n ∧ b = units (n - cost) := by
  simp only [spend]
  split
  · next h => simp [h, eq_comm]
  · next h => simp [h]

theorem spend_units_error_iff {cost : Nat} {fault : Fault} :
    (units n).spend cost = .error fault ↔ n < cost ∧ fault = .tooDeep := by
  simp only [spend]
  split
  · next h => simp [Nat.not_lt.mpr h]
  · next h => simp [Nat.not_le.mp h, eq_comm]

/-- What is needed is enough, -/
theorem Needs.ne_tooDeep_of_le (h : Needs f k) {b : Budget} (hb : units k ≤ b) : f b ≠ .error .tooDeep := by
  cases b with
  | unlimited =>
    rw [h.isStable (units k) unlimited trivial (h.not_tooDeep k (Nat.le_refl k))]
    exact h.not_tooDeep k (Nat.le_refl k)
  | units n => exact h.not_tooDeep n hb

/-- and less is not. -/
theorem Needs.le_of_eq_ok (h : Needs f k) {b : Budget} {x : α} (hx : f b = .ok x) : units k ≤ b := by
  cases b with
  | unlimited => trivial
  | units n => exact h.le_of_ok n x hx

/-! ## Computations one after the other -/

theorem isStable_const (x : Except Fault α) : IsStable fun _ => x := fun _ _ _ _ => rfl

theorem IsStable.bind (hf : IsStable f) (hg : ∀ a, IsStable (g a)) :
    IsStable fun b => f b >>= fun a => g a b := by
  intro b c hle hdeep
  simp only at hdeep ⊢
  cases hfb : f b with
  | error fault =>
    have hne : f b ≠ .error .tooDeep := fun h => hdeep (by rw [h]; rfl)
    rw [hf b c hle hne, hfb]
    rfl
  | ok a =>
    rw [hfb] at hdeep
    rw [hf b c hle (by rw [hfb]; exact nofun), hfb]
    exact hg a b c hle hdeep

theorem IsStable.spend (hf : IsStable f) (cost : Nat) : IsStable fun b => b.spend cost >>= f := by
  intro b c hle hdeep
  simp only at hdeep ⊢
  cases hb : b.spend cost with
  | error fault =>
    rw [hb, (spend_eq_error hb).1] at hdeep
    exact absurd rfl hdeep
  | ok b' =>
    obtain ⟨c', hc, hle'⟩ := spend_mono hle hb
    rw [hb] at hdeep
    rw [hc]
    exact hf b' c' hle' hdeep

/-- What does not go down needs nothing. -/
theorem needs_const {x : Except Fault α} (hx : x ≠ .error .tooDeep) : Needs (fun _ => x) 0 :=
  ⟨isStable_const x, fun _ _ => hx, fun n _ _ => n.zero_le⟩

/-- Computations one after the other need what one of them needs most. -/
theorem Needs.bind (hf : Needs f k) (hg : ∀ a, Needs (g a) l) :
    Needs (fun b => f b >>= fun a => g a b) (max k l) := by
  refine ⟨hf.isStable.bind fun a => (hg a).isStable, fun n hn hdeep => ?_, fun n y hy => ?_⟩
  · rcases Fault.of_bind hdeep with h | ⟨a, -, h⟩
    · exact hf.not_tooDeep n (Nat.le_trans (Nat.le_max_left k l) hn) h
    · exact (hg a).not_tooDeep n (Nat.le_trans (Nat.le_max_right k l) hn) h
  · cases hfn : f (units n) with
    | error fault =>
      rw [hfn] at hy
      cases hy
    | ok a =>
      rw [hfn] at hy
      exact Nat.max_le.mpr ⟨hf.le_of_ok n a hfn, (hg a).le_of_ok n y hy⟩

/-- To make something of a result needs nothing more. -/
theorem Needs.map (hf : Needs f k) (g : α → β) : Needs (fun b => f b >>= fun a => .ok (g a)) k := by
  have h := hf.bind fun a => needs_const (x := .ok (g a)) nofun
  rwa [Nat.max_zero] at h

/-- Going down needs its price on top of what is needed below. -/
theorem Needs.spend (hf : Needs f k) (cost : Nat) : Needs (fun b => b.spend cost >>= f) (k + cost) := by
  refine ⟨hf.isStable.spend cost, fun n hn hdeep => ?_, fun n x hx => ?_⟩
  · rcases Fault.of_bind hdeep with h | ⟨b, hb, h⟩
    · have hlt := (spend_units_error_iff.mp h).1
      omega
    · obtain ⟨-, rfl⟩ := spend_units_ok_iff.mp hb
      exact hf.not_tooDeep (n - cost) (by omega) h
  · cases hb : (units n).spend cost with
    | error fault =>
      rw [hb] at hx
      cases hx
    | ok b =>
      obtain ⟨hcost, rfl⟩ := spend_units_ok_iff.mp hb
      rw [hb] at hx
      have hle := hf.le_of_ok (n - cost) x hx
      omega

end Budget

/-! ## Trees -/

namespace Expr

open Budget

theorem applySign_ne_tooDeep (operator : Token) (x : Float) :
    applySign operator x ≠ .error .tooDeep := by
  unfold applySign
  split <;> exact nofun

theorem applyOperator_ne_tooDeep (operator : Token) (x y : Float) :
    applyOperator operator x y ≠ .error .tooDeep := by
  have hrefused : ∀ z : Except Double.Refusal Float, z.mapError Fault.arithmetic ≠ .error .tooDeep := by
    intro z
    cases z <;> exact nofun
  unfold applyOperator
  split
  · exact nofun
  · exact nofun
  · exact nofun
  · exact hrefused _
  · exact hrefused _
  · exact nofun

/-- Working out a tree needs its height. -/
theorem needs_value (e : Expr) : Needs (fun b => e.value b) e.height := by
  induction e with
  | number value => exact (needs_const (x := .ok value) nofun).spend levelCost
  | paren inner ih => exact ih.spend levelCost
  | unary operator operand ih =>
    have h := ih.bind fun x => needs_const (applySign_ne_tooDeep operator x)
    rw [Nat.max_zero] at h
    exact h.spend levelCost
  | binary left operator right ihl ihr =>
    have h := ihl.bind fun x => ihr.bind fun y => needs_const (applyOperator_ne_tooDeep operator x y)
    rw [Nat.max_zero] at h
    exact h.spend levelCost
  | stray leaf => exact (needs_const (x := .error (.notExpression leaf)) nofun).spend levelCost

/-- Printing a tree needs its height. -/
theorem needs_render (e : Expr) : Needs (fun b => e.render b) e.height := by
  induction e with
  | number value => exact (needs_const (x := .ok (Double.Layout.literal.text value)) nofun).spend levelCost
  | paren inner ih => exact ih.spend levelCost
  | unary operator operand ih =>
    exact (ih.map fun text => "(" ++ operator.lexeme ++ text ++ ")").spend levelCost
  | binary left operator right ihl ihr =>
    have h := ihl.bind fun l => ihr.map fun r => "(" ++ l ++ " " ++ operator.lexeme ++ " " ++ r ++ ")"
    exact h.spend levelCost
  | stray leaf => exact (needs_const (x := .error (.notExpression leaf)) nofun).spend levelCost

/-- Describing a tree needs three times its height. -/
theorem needs_describe (e : Expr) : Needs (fun b => e.describe b) (descriptionCost * e.height) := by
  induction e with
  | number value =>
    exact (needs_const (x := .ok ("Number(value=" ++ Double.Layout.literal.text value ++ ")")) nofun).spend
      descriptionCost
  | paren inner ih => exact (ih.map fun text => "Parenthesized(inner=" ++ text ++ ")").spend descriptionCost
  | unary operator operand ih =>
    have h := ih.map fun text =>
      "Unary(operator=" ++ describeOperator operator ++ ", operand=" ++ text ++ ")"
    exact h.spend descriptionCost
  | binary left operator right ihl ihr =>
    have h := ihl.bind fun l => ihr.map fun r =>
      "Binary(left=" ++ l ++ ", operator=" ++ describeOperator operator ++ ", right=" ++ r ++ ")"
    rw [Nat.mul_max_mul_left] at h
    exact h.spend descriptionCost
  | stray leaf => exact (needs_const (x := .ok leaf) nofun).spend descriptionCost

end Expr

/-! ## Readings -/

namespace Reader

variable {b c : Budget} {phrase : Phrase} {ts rest : List Token} {result : Except Fault Expr}

theorem map_eq_tooDeep_iff {f : Expr → Expr} :
    result.map f = .error .tooDeep ↔ result = .error .tooDeep := by
  cases result <;> simp [Except.map]

/-- A reading that is not too deep goes the same way within a larger budget. -/
theorem reads_of_le (h : Reads b phrase ts result rest) (hle : b ≤ c) (hdeep : result ≠ .error .tooDeep) :
    Reads c phrase ts result rest := by
  induction h generalizing c with
  | chainFault _ ih => exact .chainFault (ih hle hdeep)
  | chain _ _ ih ihm => exact .chain (ih hle nofun) (ihm hle hdeep)
  | moreEnd hj => exact .moreEnd hj
  | moreFault hj _ ih => exact .moreFault hj (ih hle hdeep)
  | more hj _ _ ih ihm => exact .more hj (ih hle nofun) (ihm hle hdeep)
  | powerFault _ ih => exact .powerFault (ih hle hdeep)
  | base _ hk ih => exact .base (ih hle nofun) hk
  | powerDeep _ _ hb | parenDeep _ hb | signDeep _ hb =>
    rw [(Budget.spend_eq_error hb).1] at hdeep
    exact absurd rfl hdeep
  | power _ hk hb _ ih ihp =>
    obtain ⟨c', hc, hle'⟩ := Budget.spend_mono hle hb
    exact .power (ih hle nofun) hk hc (ihp hle' fun h => hdeep (map_eq_tooDeep_iff.mpr h))
  | parenFault hk hb _ ih =>
    obtain ⟨c', hc, hle'⟩ := Budget.spend_mono hle hb
    exact .parenFault hk hc (ih hle' hdeep)
  | parenOpen hk hb _ hclose ih =>
    obtain ⟨c', hc, hle'⟩ := Budget.spend_mono hle hb
    exact .parenOpen hk hc (ih hle' nofun) hclose
  | paren hk hb _ hclose ih =>
    obtain ⟨c', hc, hle'⟩ := Budget.spend_mono hle hb
    exact .paren hk hc (ih hle' nofun) hclose
  | sign hs hb _ ih =>
    obtain ⟨c', hc, hle'⟩ := Budget.spend_mono hle hb
    exact .sign hs hc (ih hle' fun h => hdeep (map_eq_tooDeep_iff.mpr h))
  | missingValue hn hv => exact .missingValue hn hv
  | number hn hv => exact .number hn hv
  | noPrimary hn => exact .noPrimary hn

/-- Readings of the same tokens are equal if they come to the same and leave the same. -/
theorem reading_eq {α : Type} {r r' : Reading α ts} (hresult : r.result = r'.result)
    (hrest : r.rest = r'.rest) : r = r' := by
  cases r
  cases r'
  cases hresult
  cases hrest
  rfl

/-- An expression whose reading is not too deep is read in the same way within a larger budget. -/
theorem read_eq_of_le {strict : Bool} (hle : b ≤ c)
    (hdeep : (read strict b ts).result ≠ .error .tooDeep) : read strict c ts = read strict b ts := by
  have hsum : (sum b ts).result ≠ .error .tooDeep := fun h => hdeep (read_of_sum_eq_error strict h)
  obtain ⟨hresult, hrest⟩ := sum_eq_of_reads (reads_of_le (reads_sum b ts) hle hsum)
  have heq : sum c ts = sum b ts := reading_eq hresult hrest
  unfold read
  rw [heq]

/-- A text is read in the same way within a larger budget. -/
theorem isStable_parse (strict : Bool) (text : String) :
    Budget.IsStable fun b => Expr.parse strict b text := by
  intro b c hle hdeep
  show (read strict c (Token.tokenize text)).result = _
  rw [read_eq_of_le hle hdeep]
  rfl

/-- And a line has the same value. -/
theorem isStable_evaluate (strict : Bool) (line : String) :
    Budget.IsStable fun b => evaluate strict b line := by
  have h : Budget.IsStable fun b => (Expr.parse strict b line).bind fun e => e.value b :=
    (isStable_parse strict line).bind fun e => (Expr.needs_value e).isStable
  have heq : (fun b => evaluate strict b line) = fun b => (Expr.parse strict b line).bind fun e => e.value b :=
    funext fun b => evaluate_eq strict b line
  rwa [heq]

/-- What is read within a budget is read without a limit. -/
theorem parse_unlimited_of_ok {strict : Bool} {text : String} {t : Expr} (h : Expr.parse strict b text = .ok t) :
    Expr.parse strict .unlimited text = .ok t := by
  have hdeep : Expr.parse strict b text ≠ .error .tooDeep := by
    rw [h]
    exact nofun
  exact (isStable_parse strict text b .unlimited (Budget.le_unlimited b) hdeep).trans h

end Reader

/-! ## Levels -/

/-- A line that is read has the value of its tree, unless the tree is recorded and the budget is less than what
its description needs. -/
theorem evaluateAt_of_parse {strict : Bool} {b : Budget} {line : String} {e : Expr}
    (h : Expr.parse strict b line = .ok e) (level : Log.Level) :
    evaluateAt level strict b line =
      if level = .debug ∧ ¬.units (Budget.descriptionCost * e.height) ≤ b then .error .tooDeep
      else e.value b := by
  have hvalue : evaluateAt level strict b line = (Evaluation.readAs level b line e).bind fun _ => e.value b := by
    rw [evaluateAt_eq, h]
    rfl
  rw [hvalue]
  by_cases hlevel : level = .debug
  · rw [hlevel, Evaluation.readAs_debug]
    cases hd : e.describe b with
    | ok tree => exact (if_neg fun hdeep => hdeep.2 (e.needs_describe.le_of_eq_ok hd)).symm
    | error fault =>
      obtain ⟨rfl, -⟩ := Expr.tooDeep_of_describe hd
      exact (if_pos ⟨rfl, fun hle => e.needs_describe.ne_tooDeep_of_le hle hd⟩).symm
  · rw [Evaluation.readAs_of_ne_debug hlevel]
    exact (if_neg fun hdeep => hlevel hdeep.1).symm

/-- So a line comes to the same at every level, unless its tree is too deep to be described and the level is the
one at which trees are recorded: then the line is too deep. -/
theorem evaluateAt_eq_or (level : Log.Level) (strict : Bool) (b : Budget) (line : String) :
    evaluateAt level strict b line = evaluate strict b line ∨
      (level = .debug ∧ evaluateAt level strict b line = .error .tooDeep ∧
        ∃ e, Expr.parse strict b line = .ok e ∧ ¬.units (Budget.descriptionCost * e.height) ≤ b) := by
  cases h : Expr.parse strict b line with
  | error fault =>
    left
    rw [evaluateAt_eq, evaluate_eq, h]
    rfl
  | ok e =>
    rw [evaluateAt_of_parse h, evaluate_eq, h]
    split
    · next hdeep => exact .inr ⟨hdeep.1, rfl, e, rfl, hdeep.2⟩
    · exact .inl rfl

end Calculator
