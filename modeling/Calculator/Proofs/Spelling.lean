import Calculator.Proofs.Reads

/-!
# Which tokens spell which tree

`Spells phrase q e` says that the tokens `q` are a phrase with the tree `e`; it knows neither a budget nor
what follows the phrase. With an unlimited budget reading a phrase succeeds on exactly the tokens that
begin with a spelling of it and go on with a token that binds looser than the phrase.

**Results.**
* `spells_of_reads`, `reads_of_spells`: what is read is spelled, and what is spelled is read.
* `sum_ok_iff`: the same of the sums that a reader gives.
-/
namespace Calculator

/-- How tight an operator binds; all other kinds do not bind at all. -/
def Token.Kind.tightness : Token.Kind → Nat
  | plus | minus => 1
  | star | slash => 2
  | caret => 3
  | _ => 0

/-- How tight the operators of a chain bind. -/
def Level.tightness : Level → Nat
  | sum => 1
  | product => 2

theorem Token.Kind.isAdditive_iff {kind : Token.Kind} : kind.isAdditive = true ↔ kind.tightness = 1 := by
  cases kind <;> decide

theorem Token.Kind.tightness_ne_zero_of_isAdditive {kind : Token.Kind} (h : kind.isAdditive = true) :
    kind.tightness ≠ 0 := by
  rw [isAdditive_iff.mp h]
  decide

theorem Token.Kind.tightness_le (kind : Token.Kind) : kind.tightness ≤ 3 := by
  cases kind <;> decide

theorem Token.Kind.eq_caret_iff {kind : Token.Kind} : kind = .caret ↔ kind.tightness = 3 := by
  cases kind <;> decide

theorem Level.joins_iff {level : Level} {kind : Token.Kind} :
    level.joins kind = true ↔ kind.tightness = level.tightness := by
  cases level <;> cases kind <;> decide

namespace Reader

/-- A phrase is followed by tokens that bind looser than this. -/
def Phrase.tightness : Phrase → Nat
  | .chain level | .more level _ => level.tightness
  | .power => 3
  | .primary => 4

@[simp] theorem tightness_operandOf (level : Level) :
    (operandOf level).tightness = level.tightness + 1 := by
  cases level <;> rfl

/-- The tokens `q` are the phrase, and its tree is `e`; what goes on a chain has the tree of all of it. -/
inductive Spells : Phrase → List Token → Expr → Prop where
  | chain {level p q left e} : Spells (operandOf level) p left → Spells (.more level left) q e →
      Spells (.chain level) (p ++ q) e
  | nothing {level left} : Spells (.more level left) [] left
  | more {level left operator p q right e} : level.joins operator.kind = true →
      Spells (operandOf level) p right → Spells (.more level (.binary left operator right)) q e →
      Spells (.more level left) (operator :: (p ++ q)) e
  | base {q e} : Spells .primary q e → Spells .power q e
  | power {p q base operator e} : Spells .primary p base → operator.kind = .caret → Spells .power q e →
      Spells .power (p ++ operator :: q) (.binary base operator e)
  | paren {token q inner close} : token.kind = .leftParen → Spells (.chain .sum) q inner →
      close.kind = .rightParen → Spells .primary (token :: (q ++ [close])) (.paren inner)
  | sign {token q e} : token.kind.isAdditive = true → Spells .primary q e →
      Spells .primary (token :: q) (.unary token e)
  | number {token value} : token.kind = .number → token.value = some value →
      Spells .primary [token] (.number value)

variable {b : Budget} {phrase : Phrase} {ts q rest : List Token} {e : Expr}

/-! ## What is read is spelled -/

/-- What goes on a chain is read behind an operand, so nothing tighter than the chain is ahead. -/
def Phrase.Meets : Phrase → Token → Prop
  | .more level _, ahead => ahead.kind.tightness ≤ level.tightness
  | _, _ => True

/-- What is read is spelled by the tokens that are taken, and the next token binds looser. -/
theorem spells_of_reads (h : Reads b phrase ts (.ok e) rest) (hm : phrase.Meets (lookahead ts)) :
    ∃ q, ts = q ++ rest ∧ Spells phrase q e ∧ (lookahead rest).kind.tightness < phrase.tightness := by
  -- a chain goes on from where its operand stopped, so what stopped the operand cannot bind tighter
  generalize hr : Except.ok e = result at h
  induction h generalizing e with
  | chainFault | moreFault | powerFault | powerDeep | parenDeep | parenFault | parenOpen | signDeep
  | missingValue | noPrimary => cases hr
  | @chain b level _ _ _ _ _ _ _ ih ihm =>
    obtain ⟨p, rfl, hp, hf⟩ := ih (by cases level <;> trivial) rfl
    rw [tightness_operandOf] at hf
    obtain ⟨q, rfl, hq, hf⟩ := ihm (Nat.le_of_lt_succ hf) hr
    exact ⟨p ++ q, (List.append_assoc ..).symm, .chain hp hq, hf⟩
  | @moreEnd b level left ts hj =>
    cases hr
    have hne : (lookahead ts).kind.tightness ≠ level.tightness := fun h =>
      Bool.eq_false_iff.mp hj (Level.joins_iff.mpr h)
    exact ⟨[], rfl, .nothing, Nat.lt_of_le_of_ne hm hne⟩
  | @more b level _ _ _ _ _ _ _ hj _ _ ih ihm =>
    obtain ⟨p, rfl, hp, hf⟩ := ih (by cases level <;> trivial) rfl
    rw [tightness_operandOf] at hf
    obtain ⟨q, rfl, hq, hf⟩ := ihm (Nat.le_of_lt_succ hf) hr
    exact ⟨_ :: (p ++ q), by simp, .more hj hp hq, hf⟩
  | @base b ts base rest _ hk ih =>
    obtain ⟨q, rfl, hq, -⟩ := ih trivial hr
    have hle := (lookahead rest).kind.tightness_le
    have hne : (lookahead rest).kind.tightness ≠ 3 := fun h => hk (Token.Kind.eq_caret_iff.mpr h)
    exact ⟨q, rfl, .base hq, Nat.lt_of_le_of_ne hle hne⟩
  | @power b b' ts base operator mid result rest _ hk hb _ ih ihp =>
    cases result with
    | error => cases hr
    | ok e' =>
      cases hr
      obtain ⟨p, rfl, hp, -⟩ := ih trivial rfl
      obtain ⟨q, rfl, hq, hf⟩ := ihp trivial rfl
      exact ⟨p ++ operator :: q, by simp, .power hp hk hq, hf⟩
  | paren hk hb _ hc ih =>
    cases hr
    obtain ⟨q, rfl, hq, -⟩ := ih trivial rfl
    exact ⟨_ :: (q ++ [_]), by simp, .paren hk hq hc, Nat.lt_succ_of_le (Token.Kind.tightness_le _)⟩
  | @sign b b' token ts result rest hs hb _ ih =>
    cases result with
    | error => cases hr
    | ok e' =>
      cases hr
      obtain ⟨q, rfl, hq, hf⟩ := ih trivial rfl
      exact ⟨token :: q, rfl, .sign hs hq, hf⟩
  | number hn hv =>
    cases hr
    exact ⟨[_], rfl, .number hn hv, Nat.lt_succ_of_le (Token.Kind.tightness_le _)⟩

/-! ## What is spelled is read -/

/-- What goes on a chain, if it is anything, begins with an operator of the chain. -/
theorem lookahead_more {level : Level} {left : Expr} (h : Spells (.more level left) q e)
    (hf : (lookahead rest).kind.tightness < level.tightness) :
    (lookahead (q ++ rest)).kind.tightness ≤ level.tightness := by
  cases h with
  | nothing => exact Nat.le_of_lt hf
  | more hj _ _ => exact Nat.le_of_eq (Level.joins_iff.mp hj)

/-- What is spelled is read if a token that binds looser follows. -/
theorem reads_of_spells (h : Spells phrase q e)
    (hf : (lookahead rest).kind.tightness < phrase.tightness) :
    Reads .unlimited phrase (q ++ rest) (.ok e) rest := by
  induction h generalizing rest with
  | @chain level p q left e _ hq ih ihm =>
    have hmid := lookahead_more hq hf
    rw [List.append_assoc]
    exact .chain (ih (by rw [tightness_operandOf]; exact Nat.lt_succ_of_le hmid)) (ihm hf)
  | @nothing level left =>
    refine .moreEnd (Bool.eq_false_iff.mpr fun hj => ?_)
    exact Nat.ne_of_lt hf (Level.joins_iff.mp hj)
  | @more level left operator p q right e hj _ hq ih ihm =>
    have hmid := lookahead_more hq hf
    rw [List.cons_append, List.append_assoc]
    exact .more hj (ih (by rw [tightness_operandOf]; exact Nat.lt_succ_of_le hmid)) (ihm hf)
  | base _ ih =>
    refine .base (ih (Nat.lt_succ_of_lt hf)) fun hk => ?_
    exact Nat.ne_of_lt hf (Token.Kind.eq_caret_iff.mp hk)
  | @power p q base operator e _ hk _ ih ihp =>
    have hp : Reads .unlimited .primary (p ++ operator :: (q ++ rest)) (.ok base) (operator :: (q ++ rest)) :=
      ih (Nat.lt_succ_of_le (Token.Kind.tightness_le _))
    rw [List.append_assoc]
    exact .power hp hk rfl (ihp hf)
  | @paren token q inner close hk _ hc ih =>
    have hinner : Reads .unlimited (.chain .sum) (q ++ close :: rest) (.ok inner) (close :: rest) :=
      ih (by simp [lookahead, hc, Token.Kind.tightness, Phrase.tightness, Level.tightness])
    rw [List.cons_append, List.append_assoc]
    exact .paren hk rfl hinner hc
  | sign hs _ ih => exact .sign hs rfl (ih hf)
  | number hn hv => exact .number hn hv

/-- A sum is read from the tokens that begin with a spelling of it and go on with no operator. -/
theorem sum_ok_iff :
    (sum .unlimited ts).result = .ok e ∧ (sum .unlimited ts).rest = rest ↔
      ∃ q, ts = q ++ rest ∧ Spells (.chain .sum) q e ∧ (lookahead rest).kind.tightness = 0 := by
  constructor
  · rintro ⟨hr, rfl⟩
    have h := reads_sum .unlimited ts
    rw [hr] at h
    obtain ⟨q, hq, hs, hf⟩ := spells_of_reads h trivial
    exact ⟨q, hq, hs, Nat.lt_one_iff.mp hf⟩
  · rintro ⟨q, rfl, hs, hf⟩
    exact sum_eq_of_reads (reads_of_spells hs (Nat.lt_one_iff.mpr hf))

end Reader
end Calculator
