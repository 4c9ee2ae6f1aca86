import Calculator.Proofs.Budgets
import Calculator.Proofs.Comparables

/-!
# Literal zeros behind slashes

A literal zero is a numeral that is read as zero, with signs and parentheses around it. In a text without carets
an expression divides by one if somewhere behind a slash there are signs and open parentheses, then the numeral,
then as many parentheses that close: all of these tokens are the right operand of the slash, as no operator binds
tighter. The signs and the parentheses can stand in any order, with separators between any two of them.

The pattern of texts that are not comparable has them in one order: signs, then parentheses, and separators in
front of and behind these two but not among them. So comparable texts do have literal zeros behind their slashes,
in every other order.

**Results.**
* `dividesByZero_iff_tokens`: by which tokens a tree without carets divides by a literal zero.
* `dividesByZero_iff_text`: the same told by the text.
* `dividesByZero_of_isComparable`: the literal zeros behind slashes of comparable texts.
* `not_forall_isComparable`: there are such zeros.
-/
namespace Calculator

open Reader Token Text

/-! ## Trees -/

/-- An element of two lists one behind the other is in one of them. -/
theorem append_eq_append_cons {p q before later : List Token} {t : Token} (h : p ++ q = before ++ t :: later) :
    (∃ front, p = before ++ t :: front ∧ later = front ++ q) ∨ ∃ front, q = front ++ t :: later := by
  rcases List.append_eq_append_iff.mp h with ⟨front, -, hq⟩ | ⟨front, hp, hlater⟩
  · exact .inr ⟨front, hq⟩
  · rcases List.cons_eq_append_iff.mp hlater with ⟨-, rfl⟩ | ⟨front, rfl, rfl⟩
    · exact .inr ⟨[], rfl⟩
    · exact .inl ⟨front, hp, rfl⟩

namespace Expr

/-- A zero, with any signs and parentheses around it. -/
def isZero : Expr → Bool
  | number value => value == 0
  | paren inner => inner.isZero
  | unary _ operand => operand.isZero
  | binary .. | stray _ => false

/-- Whether the right operand of some slash of the tree is a literal zero. -/
def dividesByZero : Expr → Bool
  | number _ | stray _ => false
  | paren inner => inner.dividesByZero
  | unary _ operand => operand.dividesByZero
  | binary left operator right =>
    operator.kind == .slash && right.isZero || left.dividesByZero || right.dividesByZero

theorem tightness_of_isZero {e : Expr} (h : e.isZero = true) : e.tightness = 4 := by
  cases e with
  | binary => cases h
  | _ => rfl

/-- The tokens of a divisor that is a literal zero stand behind a slash. -/
theorem exists_of_dividesByZero {e : Expr} (h : e.IsShaped) (hzero : e.dividesByZero = true) :
    ∃ before operator after, ∃ divisor : Expr, e.yield = before ++ operator :: (divisor.yield ++ after) ∧
      operator.kind = .slash ∧ divisor.IsShaped ∧ divisor.isZero = true := by
  induction e with
  | number => cases hzero
  | stray => cases hzero
  | paren inner ih =>
    obtain ⟨before, operator, after, divisor, hyield, hdivisor⟩ := ih h hzero
    exact ⟨⟨.leftParen, "", none⟩ :: before, operator, after ++ [⟨.rightParen, "", none⟩], divisor,
      by simp [yield, hyield], hdivisor⟩
  | unary sign operand ih =>
    obtain ⟨before, operator, after, divisor, hyield, hdivisor⟩ := ih h.2.2 hzero
    exact ⟨sign :: before, operator, after, divisor, by simp [yield, hyield], hdivisor⟩
  | binary left operator right ihl ihr =>
    obtain ⟨-, hl, hr⟩ := h
    simp only [dividesByZero, Bool.or_eq_true, Bool.and_eq_true, beq_iff_eq] at hzero
    rcases hzero with (⟨hslash, hright⟩ | hleft) | hright
    · exact ⟨left.yield, operator, [], right, by simp [yield], hslash, hr, hright⟩
    · obtain ⟨before, slash, after, divisor, hyield, hdivisor⟩ := ihl hl hleft
      exact ⟨before, slash, after ++ operator :: right.yield, divisor, by simp [yield, hyield], hdivisor⟩
    · obtain ⟨before, slash, after, divisor, hyield, hdivisor⟩ := ihr hr hright
      exact ⟨left.yield ++ operator :: before, slash, after, divisor, by simp [yield, hyield], hdivisor⟩

/-- Behind every slash of a shaped tree stand the tokens of its right operand. -/
theorem exists_divisor {e : Expr} (h : e.IsShaped) {before later : List Token} {operator : Token}
    (hyield : e.yield = before ++ operator :: later) (hslash : operator.kind = .slash) :
    ∃ divisor : Expr, ∃ after, later = divisor.yield ++ after ∧ divisor.IsShaped ∧ 2 < divisor.tightness ∧
      (divisor.isZero = true → e.dividesByZero = true) := by
  induction e generalizing before later with
  | number value =>
    have hmem : operator ∈ (number value).yield := by simp [hyield]
    rw [List.mem_singleton.mp hmem] at hslash
    cases hslash
  | stray => exact h.elim
  | paren inner ih =>
    -- the parentheses are no slashes
    rcases List.cons_eq_append_iff.mp hyield with ⟨-, hopen⟩ | ⟨before, rfl, hinner⟩
    · rw [(List.cons.inj hopen).1] at hslash
      cases hslash
    · rcases append_eq_append_cons hinner with ⟨front, hfront, rfl⟩ | ⟨front, hclose⟩
      · obtain ⟨divisor, after, rfl, hdivisor⟩ := ih h hfront
        exact ⟨divisor, after ++ [⟨.rightParen, "", none⟩], by simp, hdivisor⟩
      · have hmem : operator ∈ [(⟨.rightParen, "", none⟩ : Token)] := by simp [hclose]
        rw [List.mem_singleton.mp hmem] at hslash
        cases hslash
  | unary sign operand ih =>
    obtain ⟨hsign, -, hoperand⟩ := h
    rcases List.cons_eq_append_iff.mp hyield with ⟨-, hfirst⟩ | ⟨before, rfl, hlater⟩
    · rw [← (List.cons.inj hfirst).1, hslash] at hsign
      cases hsign
    · exact ih hoperand hlater
  | binary left middle right ihl ihr =>
    obtain ⟨hbeside, hl, hr⟩ := h
    rcases append_eq_append_cons hyield with ⟨front, hleft, rfl⟩ | ⟨front, hlater⟩
    · obtain ⟨divisor, after, rfl, hdivisor, htight, hzero⟩ := ihl hl hleft
      exact ⟨divisor, after ++ middle :: right.yield, by simp, hdivisor, htight,
        fun hz => by simp [dividesByZero, hzero hz]⟩
    · rcases List.cons_eq_append_iff.mp hlater with ⟨-, hmiddle⟩ | ⟨front, rfl, hright⟩
      · obtain ⟨rfl, rfl⟩ := List.cons.inj hmiddle
        rw [hslash] at hbeside
        exact ⟨right, [], by simp, hr, hbeside.2, fun hz => by simp [dividesByZero, hslash, hz]⟩
      · obtain ⟨divisor, after, rfl, hdivisor, htight, hzero⟩ := ihr hr hright
        exact ⟨divisor, after, rfl, hdivisor, htight, fun hz => by simp [dividesByZero, hzero hz]⟩

end Expr

/-! ## Tokens -/

namespace Reader

/-- A primary is read whatever follows it. -/
theorem primary_of_spells {q : List Token} {e : Expr} (h : Spells .primary q e) (rest : List Token) :
    (primary .unlimited (q ++ rest)).result = .ok e := by
  have hahead : (lookahead rest).kind.tightness < Phrase.primary.tightness :=
    Nat.lt_succ_of_le (Kind.tightness_le _)
  obtain ⟨_, heq⟩ := gives_of_reads (reads_of_spells h hahead)
  rw [heq]

/-- No two primaries are at the front of the same tokens. -/
theorem primary_inj {p q r r' : List Token} {d e : Expr} (hd : Spells .primary p d) (he : Spells .primary q e)
    (h : p ++ r = q ++ r') : d = e := by
  have hread := primary_of_spells hd r
  rw [h, primary_of_spells he r'] at hread
  exact Except.ok.inj hread.symm

/-- Among tokens without carets, what stands beside a slash is a primary. -/
theorem spells_primary_of_yield {e : Expr} (h : e.IsShaped) (htight : 2 < e.tightness) {q : List Token}
    (hq : q.map kept = e.yield) (hcaret : ∀ t ∈ q, t.kind ≠ .caret) : Spells .primary q e := by
  refine (spelled_of_yield h hq).primary (Nat.lt_of_le_of_ne htight fun hthree => ?_)
  cases e with
  | binary left operator right =>
    have hoperator : operator ∈ q.map kept := by simp [hq, Expr.yield]
    obtain ⟨t, ht, rfl⟩ := List.mem_map.mp hoperator
    refine hcaret t ht (Kind.eq_caret_iff.mpr ?_)
    rw [← kind_kept]
    exact hthree.symm
  | _ => cases hthree

end Reader

/-- What can be in front of a literal zero. -/
def isGuard (c : Char) : Bool := c == '+' || c == '-' || c == '('

/-- A numeral behind signs and open parentheses, and as many parentheses that close. -/
def nest (guards l : List Char) : List Token :=
  guards.map ofSymbol ++ ofNumeral l :: List.replicate (guards.count '(') (ofSymbol ')')

theorem nest_sign {c : Char} (hc : c ≠ '(') (guards l : List Char) :
    nest (c :: guards) l = ofSymbol c :: nest guards l := by
  simp [nest, List.count_cons_of_ne hc]

theorem nest_paren (guards l : List Char) :
    nest ('(' :: guards) l = ofSymbol '(' :: (nest guards l ++ [ofSymbol ')']) := by
  simp [nest, List.replicate_succ']

/-- Such tokens are a primary, a literal zero just if the numeral is read as zero. -/
theorem spells_nest {guards : List Char} (h : ∀ c ∈ guards, isGuard c = true) (l : List Char) :
    ∃ e : Expr, Spells .primary (nest guards l) e ∧ e.isZero = (Double.ofNumeral l == 0) := by
  induction guards with
  | nil => exact ⟨_, spells_numeral l, rfl⟩
  | cons c guards ih =>
    obtain ⟨hc, hguards⟩ := List.forall_mem_cons.mp h
    obtain ⟨e, he, hzero⟩ := ih hguards
    by_cases hparen : c = '('
    · subst hparen
      rw [nest_paren]
      exact ⟨.paren e, .paren rfl (spells_sum_of_primary he) rfl, hzero⟩
    · rw [nest_sign hparen]
      have hsign : (ofSymbol c).kind.isAdditive = true := by
        simp only [isGuard, hparen, Bool.or_eq_true, beq_iff_eq, or_false] at hc
        rcases hc with rfl | rfl <;> rfl
      exact ⟨.unary (ofSymbol c) e, .sign hsign he, hzero⟩

/-- The tokens of a literal zero of a text are such. -/
theorem exists_nest_of_isZero {e : Expr} (he : e.IsShaped) (h : e.isZero = true) {cs : List Char}
    {q : List Token} (hscan : ∀ t ∈ q, t ∈ scan cs) (hq : q.map kept = e.yield) :
    ∃ guards l, (∀ c ∈ guards, isGuard c = true) ∧ IsNumeral l ∧ (Double.ofNumeral l == 0) = true ∧
      q = nest guards l := by
  induction e generalizing q with
  | binary => cases h
  | stray => cases h
  | number value =>
    obtain ⟨t, tail, rfl, ht, htail⟩ := List.map_eq_cons_iff.mp hq
    cases List.map_eq_nil_iff.mp htail
    have hk : t.kind = .number := by rw [← kind_kept, ht]
    obtain ⟨l, hl, rfl⟩ := exists_numeral_of_mem_scan (hscan t List.mem_cons_self) hk
    cases ht
    exact ⟨[], l, List.forall_mem_nil _, hl, h, rfl⟩
  | paren inner ih =>
    obtain ⟨t, tail, rfl, ht, htail⟩ := List.map_eq_cons_iff.mp hq
    obtain ⟨p, last, rfl, hp, hlast⟩ := List.map_eq_append_iff.mp htail
    obtain ⟨close, none, rfl, hclose, hnone⟩ := List.map_eq_cons_iff.mp hlast
    cases List.map_eq_nil_iff.mp hnone
    obtain ⟨ht', htail⟩ := List.forall_mem_cons.mp hscan
    obtain ⟨hp', hclose'⟩ := List.forall_mem_append.mp htail
    obtain ⟨guards, l, hguards, hl, hzero, rfl⟩ := ih he h hp' hp
    have hopen : t = ofSymbol '(' := eq_ofSymbol_of_mem_scan ht' (by rw [← kind_kept, ht]; rfl) (by decide)
    have hshut : close = ofSymbol ')' := eq_ofSymbol_of_mem_scan (List.forall_mem_singleton.mp hclose')
      (by rw [← kind_kept, hclose]; rfl) (by decide)
    refine ⟨'(' :: guards, l, List.forall_mem_cons.mpr ⟨rfl, hguards⟩, hl, hzero, ?_⟩
    rw [nest_paren, hopen, hshut]
  | unary sign operand ih =>
    obtain ⟨hsign, -, hoperand⟩ := he
    obtain ⟨t, p, rfl, ht, hp⟩ := List.map_eq_cons_iff.mp hq
    obtain ⟨ht', hp'⟩ := List.forall_mem_cons.mp hscan
    obtain ⟨guards, l, hguards, hl, hzero, rfl⟩ := ih hoperand h hp' hp
    rw [← ht, kind_kept] at hsign
    have hnumber : t.kind ≠ .number := fun hk => by rw [hk] at hsign; cases hsign
    obtain ⟨c, -, rfl, -⟩ := exists_symbol_of_mem_scan_of_ne ht' hnumber
    obtain ⟨hguard, hne⟩ : isGuard c = true ∧ c ≠ '(' := by
      have hsigns : ∀ c ∈ ['+', '-'], isGuard c = true ∧ c ≠ '(' := by simp [isGuard]
      exact hsigns c (mem_signs hsign)
    exact ⟨c :: guards, l, List.forall_mem_cons.mpr ⟨hguard, hguards⟩, hl, hzero, (nest_sign hne _ _).symm⟩

/-- A tree without carets divides by a literal zero if behind a slash there are the tokens of one. -/
theorem dividesByZero_iff_tokens {cs : List Char} {e : Expr} (h : Spells (.chain .sum) (scan cs) e)
    (hcaret : ∀ t ∈ scan cs, t.kind ≠ .caret) :
    e.dividesByZero = true ↔ ∃ before guards l after, (∀ c ∈ guards, isGuard c = true) ∧ IsNumeral l ∧
      (Double.ofNumeral l == 0) = true ∧ scan cs = before ++ ofSymbol '/' :: (nest guards l ++ after) := by
  obtain ⟨hyield, hshaped, -⟩ := yield_of_spells h trivial
  rw [before_chain, List.nil_append] at hyield
  constructor
  · intro hzero
    obtain ⟨_, operator, _, divisor, htokens, hslash, hdivisor, hzero⟩ :=
      Expr.exists_of_dividesByZero hshaped hzero
    rw [← hyield] at htokens
    obtain ⟨before, _, hscan, -, htail⟩ := List.map_eq_append_iff.mp htokens
    obtain ⟨t, _, rfl, ht, htail⟩ := List.map_eq_cons_iff.mp htail
    obtain ⟨q, after, rfl, hq, -⟩ := List.map_eq_append_iff.mp htail
    have hmem : ∀ u ∈ t :: (q ++ after), u ∈ scan cs := fun u hu => hscan ▸ List.mem_append_right before hu
    obtain ⟨ht', hlater⟩ := List.forall_mem_cons.mp hmem
    obtain ⟨guards, l, hguards, hl, hzero, rfl⟩ :=
      exists_nest_of_isZero hdivisor hzero (List.forall_mem_append.mp hlater).1 hq
    have hoperator : t = ofSymbol '/' :=
      eq_ofSymbol_of_mem_scan ht' (by rw [← kind_kept, ht, hslash]; rfl) (by decide)
    exact ⟨before, guards, l, after, hguards, hl, hzero, hoperator ▸ hscan⟩
  · rintro ⟨before, guards, l, after, hguards, hl, hzero, hscan⟩
    rw [hscan, List.map_append, List.map_cons] at hyield
    obtain ⟨divisor, _, hlater, hdivisor, htight, himp⟩ := Expr.exists_divisor hshaped hyield.symm rfl
    obtain ⟨q, rest, hnest, hq, -⟩ := List.map_eq_append_iff.mp hlater
    have hmem : ∀ t ∈ q, t ∈ scan cs := by
      intro t ht
      rw [hscan, hnest]
      exact List.mem_append_right before (List.mem_cons_of_mem _ (List.mem_append_left rest ht))
    have hprimary := spells_primary_of_yield hdivisor htight hq fun t ht => hcaret t (hmem t ht)
    -- behind the slash there are the tokens of two primaries, so that these are one
    obtain ⟨zero, hspells, hisZero⟩ := spells_nest hguards l
    obtain rfl : divisor = zero := primary_inj hprimary hspells hnest.symm
    exact himp (hisZero.trans hzero)

/-! ## Numerals that are read as zero -/

/-- A fraction that is at least one is not read as zero. -/
theorem Double.nearestRank_pos {num den : Nat} (hden : 0 < den) (h : den ≤ num) : 0 < nearestRank num den := by
  have hone : 0 < nearestRank 1 1 := by decide +kernel
  have hequal : nearestRank den den = nearestRank 1 1 :=
    nearestRank_eq_of_mul_eq hden Nat.one_pos (Nat.mul_comm ..)
  have hmono := nearestRank_mono h den
  omega

/-- Digits of which the first is not zero are a number of so many digits. -/
theorem pow_le_ofDigitChars {c : Char} (hd : c.isDigit = true) (hc : c ≠ '0') (digits : List Char) :
    10 ^ digits.length ≤ Nat.ofDigitChars 10 (c :: digits) 0 := by
  have hle : '0'.toNat ≤ c.toNat := by
    simp only [Char.isDigit, Bool.and_eq_true, decide_eq_true_eq, UInt32.le_iff_toNat_le] at hd
    exact hd.1
  have hne : c.toNat ≠ '0'.toNat := fun heq => hc (Char.toNat_inj.mp heq)
  rw [Nat.ofDigitChars_cons, Nat.ofDigitChars_eq_ofDigitChars_zero]
  calc 10 ^ digits.length
    _ ≤ 10 ^ digits.length * (10 * 0 + (c.toNat - '0'.toNat)) := Nat.le_mul_of_pos_right _ (by omega)
    _ ≤ _ := Nat.le_add_right ..

/-- A numeral that is read as zero begins with the digit zero. -/
theorem Token.IsNumeral.exists_zero_cons {l : List Char} (hl : IsNumeral l) (h : (Double.ofNumeral l == 0) = true) :
    ∃ rest, l = '0' :: rest := by
  obtain ⟨c, rest, rfl, hd⟩ := hl.exists_cons
  by_contra hne
  have hc : c ≠ '0' := fun heq => hne ⟨rest, by rw [heq]⟩
  rw [Double.beq_zero_iff, Double.ofNumeral, Double.rank_ofRank false (Double.nearestRank_le _ _)] at h
  refine (Double.nearestRank_pos (Nat.pow_pos (by decide)) ?_).ne' h
  have hwhole : (c :: rest).takeWhile Char.isDigit = c :: rest.takeWhile Char.isDigit := by simp [hd]
  rw [hwhole, List.cons_append]
  refine Nat.le_trans (Nat.pow_le_pow_right (by decide) ?_) (pow_le_ofDigitChars hd hc _)
  simp

/-! ## Texts -/

namespace Token

variable {cs u : List Char}

/-- The characters of a text but its separators. -/
def withoutGaps (cs : List Char) : List Char := cs.filter (!isSeparator ·)

@[simp]
theorem withoutGaps_append (u v : List Char) : withoutGaps (u ++ v) = withoutGaps u ++ withoutGaps v := List.filter_append u v

theorem withoutGaps_of_isGap (h : IsGap u) : withoutGaps u = [] :=
  List.filter_eq_nil_iff.mpr fun c hc => by simp [h c hc]

/-- Without digits every character but the separators is a token by itself. -/
theorem scan_append_of_not_isDigit (h : ∀ c ∈ withoutGaps u, c.isDigit = false) (rest : List Char) :
    scan (u ++ rest) = (withoutGaps u).map ofSymbol ++ scan rest := by
  induction u with
  | nil => rfl
  | cons c u ih =>
    cases hs : isSeparator c with
    | true =>
      have hgap : IsGap [c] := List.forall_mem_singleton.mpr hs
      have hbare : withoutGaps (c :: u) = withoutGaps u := by simp [withoutGaps, hs]
      rw [hbare] at h ⊢
      rw [List.cons_append, ← List.singleton_append, scan_gap_append hgap, ih h]
    | false =>
      have hbare : withoutGaps (c :: u) = c :: withoutGaps u := by simp [withoutGaps, hs]
      rw [hbare] at h ⊢
      obtain ⟨hc, hu⟩ := List.forall_mem_cons.mp h
      rw [List.cons_append, scan_symbol hc hs, ih hu]
      rfl

/-- The tokens of symbols are those of a text that has these symbols and separators among them. -/
theorem exists_of_scan_map {symbols : List Char} (hsymbols : ∀ c ∈ symbols, Kind.ofSymbol c ≠ .invalid)
    {q : List Token} (h : scan cs = symbols.map ofSymbol ++ q) :
    ∃ front rest, cs = front ++ rest ∧ withoutGaps front = symbols ∧ scan rest = q := by
  -- on the symbols: each is cut off the text with the separators in front of it
  induction symbols generalizing cs with
  | nil => exact ⟨[], cs, rfl, rfl, h⟩
  | cons c symbols ih =>
    obtain ⟨hc, hsymbols⟩ := List.forall_mem_cons.mp hsymbols
    obtain ⟨w, l, later, rfl, hw, hl, -, hfirst, hlater⟩ := exists_of_scan_cons h
    obtain rfl : l = [c] := eq_singleton_of_kind hl (by rw [← hfirst]; rfl) hc
    obtain ⟨front, rest, rfl, hfront, hrest⟩ := ih hsymbols hlater
    obtain ⟨-, -, hs⟩ := ofSymbol_spec hc
    have hcons : withoutGaps (c :: front) = c :: symbols := by simp [withoutGaps, hs, ← hfront]
    exact ⟨w ++ (c :: front), rest, by simp, by rw [withoutGaps_append, withoutGaps_of_isGap hw, hcons]; rfl, hrest⟩

end Token

/-- A part of a text behind a slash: what is in front of a numeral, the numeral, and what is behind it. -/
structure Divisor where
  before : List Char
  guard : List Char
  zero : List Char
  closing : List Char
  after : List Char

namespace Divisor

/-- The text that the divisor is in. -/
def text (d : Divisor) : List Char :=
  d.before ++ '/' :: (d.guard ++ (d.zero ++ (d.closing ++ d.after)))

/-- The divisor is a literal zero: signs and open parentheses are in front of the numeral, which is read as zero
and goes no further, and behind it as many parentheses close. -/
structure IsZero (d : Divisor) : Prop where
  guard : ∀ c ∈ withoutGaps d.guard, isGuard c = true
  isNumeral : IsNumeral d.zero
  beq_zero : (Double.ofNumeral d.zero == 0) = true
  endsBefore : EndsBefore d.zero (d.closing ++ d.after)
  closing : withoutGaps d.closing = List.replicate ((withoutGaps d.guard).count '(') ')'

/-- The signs are in front of the parentheses, and no separators are among either of them. -/
def IsInOrder (d : Divisor) : Prop :=
  ∃ w signs w' parens w'', d.guard = w ++ (signs ++ (w' ++ (parens ++ w''))) ∧ IsGap w ∧ IsGap w' ∧ IsGap w'' ∧
    (∀ c ∈ signs, c = '-' ∨ c = '+') ∧ ∀ c ∈ parens, c = '('

/-- Guards are symbols. -/
theorem ofSymbol_ne_of_isGuard {c : Char} (h : isGuard c = true) : Kind.ofSymbol c ≠ .invalid := by
  simp only [isGuard, Bool.or_eq_true, beq_iff_eq] at h
  rcases h with (rfl | rfl) | rfl <;> decide

/-- The tokens of a divisor that is a literal zero stand behind the slash. -/
theorem IsZero.scan_text {d : Divisor} (h : d.IsZero) :
    scan d.text = scan d.before ++ ofSymbol '/' :: (nest (withoutGaps d.guard) d.zero ++ scan d.after) := by
  have hslash : ∀ c ∈ ('/' :: (d.guard ++ (d.zero ++ (d.closing ++ d.after)))).head?,
      c.isDigit = false ∧ c ≠ '.' := by
    rintro c ⟨⟩
    decide
  have hguard : ∀ c ∈ withoutGaps d.guard, c.isDigit = false := fun c hc =>
    (ofSymbol_spec (ofSymbol_ne_of_isGuard (h.guard c hc))).1
  have hclosing : ∀ c ∈ withoutGaps d.closing, c.isDigit = false := by
    rw [h.closing]
    intro c hc
    rw [List.eq_of_mem_replicate hc]
    rfl
  have hzero := scan_lexeme isGap_nil (.numeral h.isNumeral) h.endsBefore
  rw [List.nil_append, ofLexeme_of_isNumeral h.isNumeral] at hzero
  rw [text, scan_append d.before hslash, scan_symbol rfl rfl, scan_append_of_not_isDigit hguard, hzero,
    scan_append_of_not_isDigit hclosing, h.closing]
  simp [nest]

/-- The tokens of a literal zero behind a slash are those of such a divisor. -/
theorem exists_of_scan {cs guards l : List Char} {before after : List Token}
    (hguards : ∀ c ∈ guards, isGuard c = true) (hl : IsNumeral l) (hzero : (Double.ofNumeral l == 0) = true)
    (h : scan cs = before ++ ofSymbol '/' :: (nest guards l ++ after)) :
    ∃ d : Divisor, d.text = cs ∧ d.IsZero := by
  obtain ⟨front, rest, rfl, hrest⟩ := exists_of_scan_append h
  obtain ⟨w, slash, rest, rfl, -, hslash, -, hfirst, hlater⟩ := exists_of_scan_cons hrest
  obtain rfl : slash = ['/'] := eq_singleton_of_kind hslash (by rw [← hfirst]; rfl) (by decide)
  rw [nest, List.append_assoc] at hlater
  obtain ⟨guard, rest, rfl, rfl, hnumeral⟩ :=
    exists_of_scan_map (fun c hc => ofSymbol_ne_of_isGuard (hguards c hc)) hlater
  obtain ⟨w', l', rest, rfl, hw', hl', hends, heq, hlast⟩ := exists_of_scan_cons hnumeral
  have hlexeme := congrArg Token.lexeme heq
  rw [lexeme_ofLexeme hl'] at hlexeme
  obtain rfl : l = l' := String.ofList_inj.mp hlexeme
  have hshut : scan rest = (List.replicate ((withoutGaps guard).count '(') ')').map ofSymbol ++ after := by
    rw [List.map_replicate]
    exact hlast
  have hparens : ∀ c ∈ List.replicate ((withoutGaps guard).count '(') ')', Kind.ofSymbol c ≠ .invalid := by
    intro c hc
    rw [List.eq_of_mem_replicate hc]
    decide
  obtain ⟨closing, after, rfl, hclosing, -⟩ := exists_of_scan_map hparens hshut
  have hguard : withoutGaps (guard ++ w') = withoutGaps guard := by rw [withoutGaps_append, withoutGaps_of_isGap hw', List.append_nil]
  refine ⟨⟨front ++ w, guard ++ w', l, closing, after⟩, by simp [text], ?_⟩
  exact ⟨by rwa [hguard], hl, hzero, hends, by rw [hguard, hclosing]⟩

/-- Behind the slash of a text that is comparable no literal zero has its signs and parentheses in order. -/
theorem IsZero.not_isInOrder {d : Divisor} (h : d.IsZero) {text : String} (htext : d.text = text.toList)
    (hc : Crosscheck.isComparable text = true) : ¬d.IsInOrder := by
  rintro ⟨w, signs, w', parens, w'', hguard, hw, hw', hw'', hsigns, hparens⟩
  obtain ⟨-, -, hpatterns⟩ := Crosscheck.isComparable_iff.mp hc
  obtain ⟨rest, hzero⟩ := h.isNumeral.exists_zero_cons h.beq_zero
  have hblank : ∀ {w}, IsGap w → ∀ c ∈ w, isBlank c = true := fun hw c hc => isBlank_of_isSeparator (hw c hc)
  have hmade : IsMadeUp Crosscheck.zeroDivisor ('/' :: (w ++ (signs ++ (w' ++ (parens ++ (w'' ++ ['0'])))))) := by
    have hsign : ∀ c ∈ signs, (c == '-' || c == '+') = true := fun c hc => by simpa using hsigns c hc
    have hparen : ∀ c ∈ parens, (c == '(') = true := fun c hc => beq_iff_eq.mpr (hparens c hc)
    exact .one rfl (.many (hblank hw) (.many hsign (.many (hblank hw') (.many hparen
      (.many (hblank hw'') (.one rfl .nil))))))
  refine hpatterns _ (by simp [Crosscheck.patterns]) _ hmade ⟨d.before, rest ++ (d.closing ++ d.after), ?_⟩
  simp [← htext, Divisor.text, hguard, hzero]

end Divisor

/-- A text without carets divides by a literal zero if there is one behind a slash of it. -/
theorem dividesByZero_iff_text {text : String} {e : Expr} (h : Expr.parse true .unlimited text = .ok e)
    (hcaret : '^' ∉ text.toList) :
    e.dividesByZero = true ↔ ∃ d : Divisor, d.text = text.toList ∧ d.IsZero := by
  have hkind : ∀ t ∈ scan text.toList, t.kind ≠ .caret := by
    intro t ht hk
    rw [eq_ofSymbol_of_mem_scan (c := '^') ht hk (by decide)] at ht
    exact hcaret (mem_of_mem_scan ht (by simp [ofSymbol]))
  rw [dividesByZero_iff_tokens (parse_eq_ok_iff.mp h) hkind]
  constructor
  · rintro ⟨before, guards, l, after, hguards, hl, hzero, hscan⟩
    exact Divisor.exists_of_scan hguards hl hzero hscan
  · rintro ⟨d, hd, hzero⟩
    exact ⟨_, _, _, _, hzero.guard, hzero.isNumeral, hzero.beq_zero, hd ▸ hzero.scan_text⟩

/-! ## Comparable texts -/

namespace Crosscheck

/-- No literal zero behind a slash of a comparable text has its signs and parentheses in order, and the text
divides by a literal zero just if there is one with them in another order. -/
theorem dividesByZero_of_isComparable (b : Budget) (text : String) (tree : Expr)
    (h : Expr.parse true b text = .ok tree) (hc : isComparable text = true) :
    (∀ d : Divisor, d.text = text.toList → d.IsZero → ¬d.IsInOrder) ∧
      (tree.dividesByZero = true ↔ ∃ d : Divisor, d.text = text.toList ∧ d.IsZero ∧ ¬d.IsInOrder) := by
  have hnone : ∀ d : Divisor, d.text = text.toList → d.IsZero → ¬d.IsInOrder := fun d htext hzero =>
    hzero.not_isInOrder htext hc
  refine ⟨hnone, ?_⟩
  rw [dividesByZero_iff_text (parse_unlimited_of_ok h) (isComparable_iff.mp hc).1]
  constructor
  · rintro ⟨d, htext, hzero⟩
    exact ⟨d, htext, hzero, hnone d htext hzero⟩
  · rintro ⟨d, htext, hzero, -⟩
    exact ⟨d, htext, hzero⟩

/-- The divisor of `1/(-0)` is a literal zero of which the sign is behind the parenthesis. -/
theorem parse_negatedZero : ∃ zero : Expr, zero.isZero = true ∧
    Expr.parse true .unlimited "1/(-0)" =
      .ok (.binary (.number (Double.ofNumeral ['1'])) (ofSymbol '/') zero) := by
  have hguards : ∀ c ∈ ['(', '-'], isGuard c = true := by simp [isGuard]
  obtain ⟨zero, hspells, hzero⟩ := spells_nest hguards ['0']
  have hscan : scan "1/(-0)".toList = [ofNumeral ['1']] ++ ofSymbol '/' :: nest ['(', '-'] ['0'] := by
    decide +kernel
  have hisZero : zero.isZero = true := hzero.trans (by decide +kernel)
  have hbeside : Expr.Beside (.number (Double.ofNumeral ['1'])) (ofSymbol '/').kind zero := by
    refine ⟨by decide, ?_⟩
    rw [Expr.tightness_of_isZero hisZero]
    decide
  refine ⟨zero, hisZero, parse_eq_ok_iff.mpr ?_⟩
  rw [hscan]
  exact (Spelled.binary (.of_primary (spells_numeral _)) (.of_primary hspells) (by decide) hbeside).sum
    (show 1 ≤ 2 by decide)

/-- The text is comparable, and it divides by the zero that is told from its characters. -/
theorem dividesByZero_of_isComparable_negated :
    let text := "1/(-0)"
    ∃ tree : Expr, Expr.parse true .unlimited text = .ok tree ∧ isComparable text = true ∧
      (∀ d : Divisor, d.text = text.toList → d.IsZero → ¬d.IsInOrder) ∧ tree.dividesByZero = true := by
  intro text
  obtain ⟨zero, -, hread⟩ := parse_negatedZero
  have hc : isComparable text = true := by decide +kernel
  obtain ⟨hnone, hiff⟩ := dividesByZero_of_isComparable _ _ _ hread hc
  let d : Divisor := ⟨['1'], ['(', '-'], ['0'], [')'], []⟩
  have hd : d.IsZero := by
    refine ⟨by simp [d, withoutGaps, isGuard], ⟨['0'], by simp [d]⟩, by decide +kernel, ?_, by decide +kernel⟩
    exact endsBefore_of_head (by simp [d])
  have htext : d.text = text.toList := by decide
  exact ⟨_, hread, hc, hnone, hiff.mpr ⟨d, htext, hd, hnone d htext hd⟩⟩

/-- So not all texts that are comparable are free of literal zeros behind their slashes. -/
theorem not_forall_isComparable :
    ¬∀ (text : String) (tree : Expr), (∀ c ∈ text.toList, c ∈ alphabet) →
      Expr.parse true .unlimited text = .ok tree → isComparable text = true → tree.dividesByZero = false := by
  intro h
  obtain ⟨zero, hzero, hread⟩ := parse_negatedZero
  have hfree := h _ _ (by unfold alphabet; simp) hread (by decide +kernel)
  have hslash : ((ofSymbol '/').kind == .slash) = true := rfl
  simp [Expr.dividesByZero, hslash, hzero] at hfree

end Crosscheck

end Calculator
