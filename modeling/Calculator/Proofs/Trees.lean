import Calculator.Proofs.Prefixes
import Calculator.Proofs.Rendering
import Calculator.Proofs.Steps

/-!
# The trees of texts

Not every tree is read from a text. The operators of a text are single characters, each told by its kind, and
its numbers are not negative, as a numeral has no sign; a numeral that is too large is read as infinity. No other
choice is left in a tree of a text than which numbers and operators it has, and how they are grouped.

**Results.**
* `ofSymbol_inj`: operators are told apart by their kinds.
* `isOfText_of_parse`: the trees that texts are read as, and their numbers.
* `parse_of_yield`: which texts are read as a given tree.
-/
namespace Calculator

open Reader Token Double Grammar

/-! ## Operators and numbers -/

/-- The characters that are no strays. -/
def Token.symbols : List Char := ['(', ')', '-', '+', '*', '/', '^']

theorem Token.mem_symbols {c : Char} (h : Kind.ofSymbol c ≠ .invalid) : c ∈ symbols := by
  unfold Kind.ofSymbol at h
  split at h
  case h_8 => exact absurd rfl h
  all_goals decide

/-- Signs are plus or minus. -/
theorem Token.mem_signs {c : Char} (h : (ofSymbol c).kind.isAdditive = true) : c ∈ ['+', '-'] := by
  have hmem : c ∈ symbols := mem_symbols fun hk =>
    Kind.tightness_ne_zero_of_isAdditive h (congrArg Kind.tightness hk)
  revert h
  fin_cases hmem <;> decide

/-- Only stray characters share their kind. -/
theorem Token.ofSymbol_inj {c d : Char} (h : Kind.ofSymbol c = Kind.ofSymbol d)
    (hc : Kind.ofSymbol c ≠ .invalid) : c = d := by
  have hkinds : (symbols.map Kind.ofSymbol).Nodup := by decide
  exact List.inj_on_of_nodup_map hkinds (mem_symbols hc) (mem_symbols (h ▸ hc)) h

/-- Numerals have no sign. -/
theorem Double.exists_ofNumeral_eq (l : List Char) : ∃ k ≤ infinityRank, ofNumeral l = ofRank false k :=
  ⟨_, nearestRank_le _ _, rfl⟩

/-- Every operator of a text is the token of its character. -/
theorem exists_symbol_of_mem_scan {cs : List Char} {t : Token} (h : t ∈ scan cs)
    (ht : t.kind.tightness ≠ 0) : ∃ c, t = ofSymbol c := by
  obtain ⟨l, hl, rfl⟩ := exists_lexeme_of_mem_scan h
  cases hl with
  | numeral hl =>
    rw [ofLexeme_of_isNumeral hl] at ht
    exact absurd rfl ht
  | @symbol c hd _ => exact ⟨c, ofLexeme_singleton hd⟩

/-! ## Trees -/

namespace Expr

/-- The tree is well-formed, and its numbers are not negative; one may be infinite. -/
structure IsOfText (t : Expr) : Prop where
  isWellFormed : t.IsWellFormed
  exists_rank : ∀ x ∈ t.numbers, ∃ k ≤ infinityRank, x = ofRank false k

theorem isOfText_number (l : List Char) : (number (Double.ofNumeral l)).IsOfText := by
  refine ⟨trivial, fun x hx => ?_⟩
  cases List.mem_singleton.mp hx
  exact exists_ofNumeral_eq l

theorem IsOfText.unary {operator : Token} {operand : Expr} (h : operand.IsOfText)
    (hsign : operator.kind.isAdditive = true) (hoperator : ∃ c, operator = ofSymbol c) :
    (Expr.unary operator operand).IsOfText :=
  ⟨⟨hsign, hoperator, h.isWellFormed⟩, h.exists_rank⟩

theorem IsOfText.binary {left right : Expr} {operator : Token} (hl : left.IsOfText) (hr : right.IsOfText)
    (htight : operator.kind.tightness ≠ 0) (hoperator : ∃ c, operator = ofSymbol c) :
    (Expr.binary left operator right).IsOfText :=
  ⟨⟨htight, hoperator, hl.isWellFormed, hr.isWellFormed⟩,
    List.forall_mem_append.mpr ⟨hl.exists_rank, hr.exists_rank⟩⟩

theorem IsOfText.of_number {x : Float} (h : (number x).IsOfText) : ∃ k ≤ infinityRank, x = ofRank false k :=
  h.exists_rank x List.mem_cons_self

theorem IsOfText.of_paren {inner : Expr} (h : (paren inner).IsOfText) : inner.IsOfText :=
  ⟨h.isWellFormed, h.exists_rank⟩

theorem IsOfText.of_unary {operator : Token} {operand : Expr} (h : (Expr.unary operator operand).IsOfText) :
    operator.kind.isAdditive = true ∧ (∃ c, operator = ofSymbol c) ∧ operand.IsOfText := by
  obtain ⟨⟨hsign, hoperator, hoperand⟩, hnumbers⟩ := h
  exact ⟨hsign, hoperator, hoperand, hnumbers⟩

theorem IsOfText.of_binary {left right : Expr} {operator : Token}
    (h : (Expr.binary left operator right).IsOfText) :
    operator.kind.tightness ≠ 0 ∧ (∃ c, operator = ofSymbol c) ∧ left.IsOfText ∧ right.IsOfText := by
  obtain ⟨⟨htight, hoperator, hl, hr⟩, hnumbers⟩ := h
  obtain ⟨hnl, hnr⟩ := List.forall_mem_append.mp hnumbers
  exact ⟨htight, hoperator, ⟨hl, hnl⟩, ⟨hr, hnr⟩⟩

end Expr

/-- What goes on a chain has a tree of a text on its left. -/
def Reader.Phrase.LeftIsOfText : Phrase → Prop
  | .more _ left => left.IsOfText
  | _ => True

/-- The trees that texts are read as. -/
theorem isOfText_of_spells {phrase : Phrase} {q : List Token} {e : Expr} (h : Spells phrase q e)
    {cs : List Char} (hq : ∀ t ∈ q, t ∈ scan cs) (hleft : phrase.LeftIsOfText) : e.IsOfText := by
  induction h with
  | @chain level _ _ _ _ _ _ ihp ihq =>
    obtain ⟨hp, hq⟩ := List.forall_mem_append.mp hq
    exact ihq hq (ihp hp (by cases level <;> trivial))
  | nothing => exact hleft
  | @more level _ operator _ _ _ _ hj _ _ ihp ihq =>
    obtain ⟨ho, hq⟩ := List.forall_mem_cons.mp hq
    obtain ⟨hp, hq⟩ := List.forall_mem_append.mp hq
    have htight := tightness_ne_zero_of_joins hj
    have hright := ihp hp (by cases level <;> trivial)
    exact ihq hq (hleft.binary hright htight (exists_symbol_of_mem_scan ho htight))
  | base _ ih => exact ih hq trivial
  | @power _ _ _ operator _ _ hk _ ihp ihq =>
    obtain ⟨hp, hq⟩ := List.forall_mem_append.mp hq
    obtain ⟨ho, hq⟩ := List.forall_mem_cons.mp hq
    have htight : operator.kind.tightness ≠ 0 := by rw [hk]; decide
    exact (ihp hp trivial).binary (ihq hq trivial) htight (exists_symbol_of_mem_scan ho htight)
  | paren _ _ _ ih =>
    have hinner := ih (List.forall_mem_append.mp (List.forall_mem_cons.mp hq).2).1 trivial
    exact ⟨hinner.isWellFormed, hinner.exists_rank⟩
  | @sign operator _ _ hs _ ih =>
    obtain ⟨ho, hq⟩ := List.forall_mem_cons.mp hq
    have htight := Kind.tightness_ne_zero_of_isAdditive hs
    exact (ih hq trivial).unary hs (exists_symbol_of_mem_scan ho htight)
  | @number token value hn hv =>
    obtain ⟨-, hexact⟩ := isExact_of_mem_scan (hq token List.mem_cons_self) hn
    obtain rfl : value = Double.ofNumeral token.lexeme.toList := Option.some.inj (hv.symm.trans hexact)
    exact Expr.isOfText_number _

/-- The tokens of a text but the end of input are scanned. -/
theorem mem_scan_of_mem_tokenize {text : String} {u : Token} (hu : u ∈ tokenize text)
    (hk : u.kind ≠ .endOfInput) : u ∈ scan text.toList := by
  refine (List.mem_append.mp hu).resolve_right fun hend => hk ?_
  rw [List.mem_singleton.mp hend]
  rfl

/-- Whatever the budget, and whether or not more may follow, a tree that a text is read as is a tree of a text. -/
theorem isOfText_of_parse {strict : Bool} {b : Budget} {text : String} {t : Expr}
    (h : Expr.parse strict b text = .ok t) : t.IsOfText := by
  have hs := spells_taken (sum_of_read_eq_ok h)
  have hscan : ∀ u ∈ (sum b (tokenize text)).taken, u ∈ scan text.toList := fun u hu =>
    mem_scan_of_mem_tokenize (List.mem_of_mem_take hu) (kind_of_spells hs u hu).1
  exact isOfText_of_spells hs hscan trivial

/-- A text is read as the shaped tree of which its first tokens are the yield, if no operator is behind them. -/
theorem parse_of_yield {text : String} {t : Expr} (h : t.IsShaped) {q r : List Token}
    (hscan : scan text.toList = q ++ r) (hq : q.map kept = t.yield)
    (hr : (lookahead r).kind.tightness = 0) : Expr.parse false .unlimited text = .ok t :=
  parse_false_eq_ok_iff.mpr ⟨q, r, hscan, (spelled_of_yield h hq).sum h.one_le_tightness, hr⟩

end Calculator
