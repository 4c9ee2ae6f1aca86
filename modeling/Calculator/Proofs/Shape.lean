import Calculator.Proofs.Spelling

/-!
# The shape of a tree that was read

The yield of a tree is its tokens from left to right, with as much of each as the tree keeps. A tree is
shaped if its operators, as they stand, bind as the tree says, so that no parentheses are missing: the
operands of an operator bind tighter than it, or as tight on the side from which it groups.

**Results.**
* `yield_of_spells`, `spelled_of_yield`: what a phrase spells is shaped, and a shaped tree is spelled by
  every list of tokens of its yield.
* `sum_reads_shaped_trees`: trees that are read are shaped and have the tokens that were taken as their
  yield; a shaped tree is read from its yield, so that no other has the same.
-/
namespace Calculator

/-- What a tree keeps of a token: of a numeral its value, of a parenthesis its kind, of others all. -/
def Token.kept (t : Token) : Token :=
  match t.kind with
  | .number => ⟨.number, "", t.value⟩
  | .leftParen => ⟨.leftParen, "", none⟩
  | .rightParen => ⟨.rightParen, "", none⟩
  | _ => t

namespace Expr

/-- The tokens of a tree from left to right. -/
def yield : Expr → List Token
  | number value => [⟨.number, "", some value⟩]
  | paren inner => ⟨.leftParen, "", none⟩ :: (inner.yield ++ [⟨.rightParen, "", none⟩])
  | unary operator operand => operator :: operand.yield
  | binary left operator right => left.yield ++ operator :: right.yield
  | stray _ => []

/-- How tight a tree binds: an operator between two operands as tight as it does, everything else tighter. -/
def tightness : Expr → Nat
  | binary _ operator _ => operator.kind.tightness
  | _ => 4

/-- Whether the operands of an operator can stand beside it without parentheses. What joins on the left
groups from the left: sums and products. The caret groups from the right. -/
def Beside (left : Expr) (kind : Token.Kind) (right : Expr) : Prop :=
  match kind with
  | .plus | .minus => 1 < right.tightness
  | .star | .slash => 1 < left.tightness ∧ 2 < right.tightness
  | .caret => 3 < left.tightness ∧ 2 < right.tightness
  | _ => False

/-- The operators of the tree bind as the tree says: signs are plus or minus and have no bare operator
behind them, and operands stand beside their operator without parentheses. -/
def IsShaped : Expr → Prop
  | number _ => True
  | paren inner => inner.IsShaped
  | unary operator operand =>
    operator.kind.isAdditive = true ∧ 3 < operand.tightness ∧ operand.IsShaped
  | binary left operator right =>
    Beside left operator.kind right ∧ left.IsShaped ∧ right.IsShaped
  | stray _ => False

theorem IsShaped.one_le_tightness {e : Expr} (h : e.IsShaped) : 1 ≤ e.tightness := by
  cases e with
  | binary left operator right =>
    obtain ⟨hb, -⟩ := h
    unfold Beside at hb
    unfold tightness
    cases hk : operator.kind <;> simp [hk, Token.Kind.tightness] at hb ⊢
  | _ => exact Nat.succ_pos 3

theorem tightness_ne_zero_of_beside {left right : Expr} {kind : Token.Kind}
    (h : Beside left kind right) : kind.tightness ≠ 0 := by
  cases kind <;> first | exact h.elim | decide

/-- Beside the operators of a chain stand operands of it, or on the left a chain; carets are the others. -/
theorem beside_iff {left right : Expr} {kind : Token.Kind} (h : 1 ≤ left.tightness) :
    Beside left kind right ↔
      (∃ level : Level, level.joins kind = true ∧ level.tightness ≤ left.tightness ∧
        level.tightness < right.tightness) ∨
      (kind = .caret ∧ 4 ≤ left.tightness ∧ 3 ≤ right.tightness) := by
  constructor
  · intro hb
    cases kind with
    | plus | minus => exact .inl ⟨.sum, rfl, h, hb⟩
    | star | slash => exact .inl ⟨.product, rfl, hb⟩
    | caret => exact .inr ⟨rfl, hb⟩
    | _ => exact hb.elim
  · rintro (⟨level, hj, hl, hr⟩ | ⟨rfl, hb⟩)
    · cases level <;> cases kind <;> first | exact hr | exact ⟨hl, hr⟩ | cases hj
    · exact hb

end Expr

namespace Reader

/-! ## What is spelled is shaped -/

/-- The yield of what stands in front of a phrase. -/
def Phrase.before : Phrase → List Token
  | .more _ left => left.yield
  | _ => []

/-- What stands in front of the links of a chain is a chain. -/
def Phrase.Follows : Phrase → Prop
  | .more level left => left.IsShaped ∧ level.tightness ≤ left.tightness
  | _ => True

theorem before_chain (level : Level) : (Phrase.chain level).before = [] := rfl

theorem before_power : Phrase.power.before = [] := rfl

theorem before_primary : Phrase.primary.before = [] := rfl

theorem before_operandOf (level : Level) : (operandOf level).before = [] := by cases level <;> rfl

theorem follows_operandOf (level : Level) : (operandOf level).Follows := by cases level <;> trivial

theorem kind_kept (t : Token) : t.kept.kind = t.kind := by
  unfold Token.kept
  split <;> simp_all

/-- Trees keep all of an operator. -/
theorem kept_of_tightness {t : Token} (h : t.kind.tightness ≠ 0) : t.kept = t := by
  unfold Token.kept
  split <;> simp_all [Token.Kind.tightness]

theorem tightness_ne_zero_of_joins {level : Level} {kind : Token.Kind} (h : level.joins kind = true) :
    kind.tightness ≠ 0 := by
  rw [Level.joins_iff.mp h]
  cases level <;> decide

/-- What is spelled is a shaped tree, and has the tokens as its yield. -/
theorem yield_of_spells {phrase : Phrase} {q : List Token} {e : Expr} (h : Spells phrase q e)
    (hf : phrase.Follows) :
    phrase.before ++ q.map Token.kept = e.yield ∧ e.IsShaped ∧ phrase.tightness ≤ e.tightness := by
  -- that the tree binds at least as tight as its phrase is what its operator asks of an operand
  induction h with
  | @chain level p q left e _ _ ihp ihq =>
    obtain ⟨hp, hs, ht⟩ := ihp (follows_operandOf level)
    rw [tightness_operandOf] at ht
    rw [before_operandOf, List.nil_append] at hp
    obtain ⟨hq, hs, ht⟩ := ihq ⟨hs, Nat.le_of_succ_le ht⟩
    refine ⟨?_, hs, ht⟩
    rw [← hq, List.map_append, hp]
    rfl
  | @nothing level left => exact ⟨List.append_nil _, hf⟩
  | @more level left operator p q right e hj _ _ ihp ihq =>
    obtain ⟨hleft, hl⟩ := hf
    obtain ⟨hp, hright, hr⟩ := ihp (follows_operandOf level)
    rw [tightness_operandOf] at hr
    rw [before_operandOf, List.nil_append] at hp
    have hbinary : (Expr.binary left operator right).IsShaped :=
      ⟨(Expr.beside_iff hleft.one_le_tightness).mpr (.inl ⟨level, hj, hl, hr⟩), hleft, hright⟩
    obtain ⟨hq, hs, ht⟩ := ihq ⟨hbinary, Nat.le_of_eq (Level.joins_iff.mp hj).symm⟩
    refine ⟨?_, hs, ht⟩
    rw [← hq, List.map_cons, List.map_append, hp, kept_of_tightness (tightness_ne_zero_of_joins hj)]
    simp [Phrase.before, Expr.yield]
  | base _ ih =>
    obtain ⟨hq, hs, ht⟩ := ih trivial
    exact ⟨hq, hs, Nat.le_of_succ_le ht⟩
  | @power p q base operator e _ hk _ ihp ihq =>
    obtain ⟨hp, hbase, hl⟩ := ihp trivial
    obtain ⟨hq, he, hr⟩ := ihq trivial
    have ht : operator.kind.tightness = 3 := Token.Kind.eq_caret_iff.mp hk
    have hbeside : Expr.Beside base operator.kind e :=
      (Expr.beside_iff hbase.one_le_tightness).mpr (.inr ⟨hk, hl, hr⟩)
    refine ⟨?_, ⟨hbeside, hbase, he⟩, Nat.le_of_eq ht.symm⟩
    rw [before_power, List.nil_append] at hq ⊢
    rw [before_primary, List.nil_append] at hp
    rw [List.map_append, List.map_cons, kept_of_tightness (by omega), hp, hq, Expr.yield]
  | @paren token q inner close hk _ hc ih =>
    obtain ⟨hq, hs, -⟩ := ih trivial
    rw [before_chain, List.nil_append] at hq
    have hopen : token.kept = ⟨.leftParen, "", none⟩ := by simp [Token.kept, hk]
    have hclose : close.kept = ⟨.rightParen, "", none⟩ := by simp [Token.kept, hc]
    refine ⟨?_, hs, Nat.le_refl _⟩
    rw [before_primary, List.nil_append, List.map_cons, List.map_append, List.map_singleton, hq, hopen,
      hclose, Expr.yield]
  | @sign token q e hs _ ih =>
    obtain ⟨hq, he, ht⟩ := ih trivial
    rw [before_primary, List.nil_append] at hq ⊢
    have hone : token.kind.tightness = 1 := Token.Kind.isAdditive_iff.mp hs
    refine ⟨?_, ⟨hs, ht, he⟩, Nat.le_refl _⟩
    rw [List.map_cons, kept_of_tightness (by omega), hq, Expr.yield]
  | @number token value hn hv =>
    have hkept : token.kept = ⟨.number, "", some value⟩ := by simp [Token.kept, hn, hv]
    refine ⟨?_, trivial, Nat.le_refl _⟩
    rw [before_primary, List.nil_append, List.map_singleton, hkept, Expr.yield]

/-! ## What is shaped is spelled -/

/-- A lone operand is a chain. -/
theorem spells_chain_of_operand {level : Level} {q : List Token} {e : Expr}
    (h : Spells (operandOf level) q e) : Spells (.chain level) q e := by
  have hc := Spells.chain h .nothing
  rwa [List.append_nil] at hc

/-- A primary is a sum. -/
theorem spells_sum_of_primary {q : List Token} {e : Expr} (h : Spells .primary q e) :
    Spells (.chain .sum) q e := spells_chain_of_operand (spells_chain_of_operand (.base h))

/-- The links of a chain can be followed by another one. -/
theorem spells_more_link {level : Level} {left : Expr} {q p : List Token} {operator : Token}
    {e right : Expr} (h : Spells (.more level left) q e) (hj : level.joins operator.kind = true)
    (hr : Spells (operandOf level) p right) :
    Spells (.more level left) (q ++ operator :: p) (.binary e operator right) := by
  -- a link is added at the end, but the rules go on from the front, each with a longer chain on its left
  generalize hphrase : Phrase.more level left = phrase at h
  induction h generalizing left with
  | nothing =>
    cases hphrase
    rw [List.nil_append, ← List.append_nil p]
    exact .more hj hr .nothing
  | more hj' hp _ _ ihq =>
    cases hphrase
    rw [List.cons_append, List.append_assoc]
    exact .more hj' hp (ihq rfl)
  | _ => cases hphrase

/-- A chain can be followed by a link. -/
theorem spells_chain_link {level : Level} {q p : List Token} {operator : Token} {left right : Expr}
    (h : Spells (.chain level) q left) (hj : level.joins operator.kind = true)
    (hr : Spells (operandOf level) p right) :
    Spells (.chain level) (q ++ operator :: p) (.binary left operator right) := by
  cases h with
  | chain hp hq =>
    rw [List.append_assoc]
    exact .chain hp (spells_more_link hq hj hr)

/-- The tokens spell the tree as every phrase that does not bind tighter than it. -/
structure Spelled (q : List Token) (e : Expr) : Prop where
  sum : 1 ≤ e.tightness → Spells (.chain .sum) q e
  product : 2 ≤ e.tightness → Spells (.chain .product) q e
  power : 3 ≤ e.tightness → Spells .power q e
  primary : 4 ≤ e.tightness → Spells .primary q e

namespace Spelled

variable {p q : List Token} {e left right : Expr} {operator : Token} {level : Level}

theorem chain (h : Spelled q e) (ht : level.tightness ≤ e.tightness) : Spells (.chain level) q e := by
  cases level
  · exact h.sum ht
  · exact h.product ht

theorem operand (h : Spelled q e) (ht : level.tightness < e.tightness) :
    Spells (operandOf level) q e := by
  cases level
  · exact h.product ht
  · exact h.power ht

theorem of_primary (h : Spells .primary q e) : Spelled q e where
  sum _ := spells_sum_of_primary h
  product _ := spells_chain_of_operand (.base h)
  power _ := .base h
  primary _ := h

theorem of_power (h : Spells .power q e) (ht : e.tightness = 3) : Spelled q e where
  sum _ := spells_chain_of_operand (spells_chain_of_operand h)
  product _ := spells_chain_of_operand h
  power _ := h
  primary hp := absurd hp (by omega)

theorem of_chain (h : Spells (.chain level) q e) (ht : e.tightness = level.tightness) :
    Spelled q e := by
  cases level with
  | sum =>
    have ht : e.tightness = 1 := ht
    exact ⟨fun _ => h, by omega, by omega, by omega⟩
  | product =>
    have ht : e.tightness = 2 := ht
    exact ⟨fun _ => spells_chain_of_operand h, fun _ => h, by omega, by omega⟩

/-- Operands that can stand beside an operator spell a tree with it. -/
theorem binary (hl : Spelled p left) (hr : Spelled q right) (ht : 1 ≤ left.tightness)
    (hb : Expr.Beside left operator.kind right) :
    Spelled (p ++ operator :: q) (.binary left operator right) := by
  rcases (Expr.beside_iff ht).mp hb with ⟨level, hj, hlt, hrt⟩ | ⟨hk, hlt, hrt⟩
  · exact of_chain (spells_chain_link (hl.chain hlt) hj (hr.operand hrt)) (Level.joins_iff.mp hj)
  · exact of_power (.power (hl.primary hlt) hk (hr.power hrt)) (Token.Kind.eq_caret_iff.mp hk)

end Spelled

/-- The operator of a tree is the token that it was kept of. -/
theorem eq_of_kept_eq {t operator : Token} (h : t.kept = operator)
    (ht : operator.kind.tightness ≠ 0) : t = operator := by
  have hk : operator.kind = t.kind := by rw [← h, kind_kept]
  rwa [kept_of_tightness (hk ▸ ht)] at h

/-- Every list of tokens of the yield of a shaped tree spells it. -/
theorem spelled_of_yield {e : Expr} (h : e.IsShaped) {q : List Token}
    (hq : q.map Token.kept = e.yield) : Spelled q e := by
  induction e generalizing q with
  | number value =>
    obtain ⟨t, p, rfl, ht, hp⟩ := List.map_eq_cons_iff.mp hq
    cases List.map_eq_nil_iff.mp hp
    have hk : t.kind = .number := by rw [← kind_kept, ht]
    have hv : t.value = some value := by simpa [Token.kept, hk] using ht
    exact .of_primary (.number hk hv)
  | paren inner ih =>
    obtain ⟨t, tail, rfl, ht, htail⟩ := List.map_eq_cons_iff.mp hq
    obtain ⟨p, last, rfl, hp, hlast⟩ := List.map_eq_append_iff.mp htail
    obtain ⟨close, none, rfl, hclose, hnone⟩ := List.map_eq_cons_iff.mp hlast
    cases List.map_eq_nil_iff.mp hnone
    have hinner : inner.IsShaped := h
    have hk : t.kind = .leftParen := by rw [← kind_kept, ht]
    have hc : close.kind = .rightParen := by rw [← kind_kept, hclose]
    exact .of_primary (.paren hk ((ih hinner hp).sum hinner.one_le_tightness) hc)
  | unary operator operand ih =>
    obtain ⟨hs, htight, hoperand⟩ := h
    obtain ⟨t, p, rfl, ht, hp⟩ := List.map_eq_cons_iff.mp hq
    have hone : operator.kind.tightness = 1 := Token.Kind.isAdditive_iff.mp hs
    cases eq_of_kept_eq ht (by omega)
    exact .of_primary (.sign hs ((ih hoperand hp).primary htight))
  | binary left operator right ihl ihr =>
    obtain ⟨hb, hl, hr⟩ := h
    obtain ⟨p, tail, rfl, hp, htail⟩ := List.map_eq_append_iff.mp hq
    obtain ⟨t, q, rfl, ht, hright⟩ := List.map_eq_cons_iff.mp htail
    cases eq_of_kept_eq ht (Expr.tightness_ne_zero_of_beside hb)
    exact .binary (ihl hl hp) (ihr hr hright) hl.one_le_tightness hb
  | stray leaf => exact h.elim

/-- The yield of a shaped tree has only what trees keep. -/
theorem map_kept_yield {e : Expr} (h : e.IsShaped) : e.yield.map Token.kept = e.yield := by
  induction e with
  | number value => rfl
  | paren inner ih =>
    rw [Expr.yield, List.map_cons, List.map_append, ih h]
    rfl
  | unary operator operand ih =>
    obtain ⟨hs, -, hoperand⟩ := h
    have hone : operator.kind.tightness = 1 := Token.Kind.isAdditive_iff.mp hs
    rw [Expr.yield, List.map_cons, ih hoperand, kept_of_tightness (by omega)]
  | binary left operator right ihl ihr =>
    obtain ⟨hb, hl, hr⟩ := h
    rw [Expr.yield, List.map_append, List.map_cons, ihl hl, ihr hr,
      kept_of_tightness (Expr.tightness_ne_zero_of_beside hb)]
  | stray leaf => exact h.elim

/-! ## Reading shaped trees -/

/-- Whatever the budget, a tree that was read is shaped. -/
theorem isShaped_of_sum {b : Budget} {ts : List Token} {e : Expr} (h : (sum b ts).result = .ok e) :
    e.IsShaped := by
  have hreads := reads_sum b ts
  rw [h] at hreads
  obtain ⟨q, -, hs, -⟩ := spells_of_reads hreads trivial
  exact (yield_of_spells hs trivial).2.1

/-- A tree that was read is shaped, and its yield is what was taken. -/
theorem shaped_of_sum {ts : List Token} {e : Expr} (h : (sum .unlimited ts).result = .ok e) :
    (sum .unlimited ts).taken.map Token.kept = e.yield ∧ e.IsShaped := by
  obtain ⟨q, hq, hs, -⟩ := sum_ok_iff.mp ⟨h, rfl⟩
  obtain ⟨hyield, hshaped, -⟩ := yield_of_spells hs trivial
  rw [Reading.taken_eq _ hq]
  exact ⟨hyield, hshaped⟩

/-- A shaped tree is read from the tokens of its yield, if then the input ends. -/
theorem read_of_shaped {e : Expr} (h : e.IsShaped) {q rest : List Token}
    (hq : q.map Token.kept = e.yield) (hend : (lookahead rest).kind = .endOfInput) :
    (read true .unlimited (q ++ rest)).result = .ok e := by
  have hs := (spelled_of_yield h hq).sum h.one_le_tightness
  have hf : (lookahead rest).kind.tightness = 0 := by rw [hend]; rfl
  obtain ⟨he, hrest⟩ := sum_ok_iff.mpr ⟨q, rfl, hs, hf⟩
  exact read_true_ok_iff.mpr ⟨he, by rwa [hrest]⟩

/-- Shaped trees with one yield are one tree. -/
theorem eq_of_yield_eq {t u : Expr} (ht : t.IsShaped) (hu : u.IsShaped) (h : t.yield = u.yield) :
    t = u := by
  have hreadt : (read true .unlimited (t.yield ++ [])).result = .ok t :=
    read_of_shaped ht (map_kept_yield ht) rfl
  have hreadu : (read true .unlimited (u.yield ++ [])).result = .ok u :=
    read_of_shaped hu (map_kept_yield hu) rfl
  rw [h, hreadu] at hreadt
  exact (Except.ok.inj hreadt).symm

/-- Trees that are read are shaped and have the tokens taken as their yield. A shaped tree is what is read
from the tokens of its yield, and no other has the same. -/
theorem sum_reads_shaped_trees :
    (∀ ts t, (sum .unlimited ts).result = .ok t →
      (sum .unlimited ts).taken.map Token.kept = t.yield ∧ t.IsShaped) ∧
    (∀ t : Expr, t.IsShaped → t.yield.map Token.kept = t.yield ∧
      ∀ q rest : List Token, q.map Token.kept = t.yield → (lookahead rest).kind = .endOfInput →
        (read true .unlimited (q ++ rest)).result = .ok t) ∧
    (∀ t u : Expr, t.IsShaped → u.IsShaped → t.yield = u.yield → t = u) :=
  ⟨fun _ _ h => shaped_of_sum h,
    fun _ h => ⟨map_kept_yield h, fun _ _ hq hend => read_of_shaped h hq hend⟩,
    fun _ _ ht hu h => eq_of_yield_eq ht hu h⟩

/-- Of the two trees with the yield of `1 - 2 - 3` the one that groups from the left is read. -/
theorem sum_reads_shaped_trees_difference :
    let minus : Token := ⟨.minus, "-", none⟩
    let q : List Token := [⟨.number, "1", some 1⟩, minus, ⟨.number, "2", some 2⟩, minus,
      ⟨.number, "3", some 3⟩]
    let t : Expr := .binary (.binary (.number 1) minus (.number 2)) minus (.number 3)
    let u : Expr := .binary (.number 1) minus (.binary (.number 2) minus (.number 3))
    t.yield = u.yield ∧ t.IsShaped ∧ ¬u.IsShaped ∧ (read true .unlimited q).result = .ok t ∧
      (sum .unlimited q).taken.map Token.kept = u.yield := by
  intro minus q t u
  have hyield : t.yield = u.yield := rfl
  have ht : t.IsShaped := by
    simp [t, minus, Expr.IsShaped, Expr.Beside, Expr.tightness]
  have hu : ¬u.IsShaped := by
    simp [u, minus, Expr.IsShaped, Expr.Beside, Expr.tightness, Token.Kind.tightness]
  have hread : (read true .unlimited (q ++ [])).result = .ok t :=
    (sum_reads_shaped_trees.2.1 t ht).2 q [] rfl rfl
  rw [List.append_nil] at hread
  have hsum := (sum_reads_shaped_trees.1 q t (read_true_ok_iff.mp hread).1).1
  exact ⟨hyield, ht, hu, hread, hsum.trans hyield⟩

end Reader
end Calculator
