import Calculator.Crosscheck
import Calculator.Proofs.Stops
import Calculator.Proofs.Trees

/-!
# What the check of renderings reports

A text is checked against the rendering of its own tree, and the renderings that have an exponent are left
out, as no numeral has one. The other ones are read again and have the same value, and nothing is reported,
but for one kind of literal: so large that it is read as infinity. Infinity prints as a word without the
letter of an exponent. If all other numbers are plain, its rendering is read again and is a fault of syntax,
where the first letter of the word is found instead of a number.

**Results.**
* `exponent_mem_chars_iff`: which renderings are left out.
* `stops_chars`: a rendering with infinity in it stops there.
* `checkRendering_reports_overlooked`: the check reports nothing, but fails if it overlooks an infinity.
-/
namespace Calculator

open Reader Token Double

/-! ## Exponents -/

theorem text_infinity : (Layout.literal.text infinity).toList = ['i', 'n', 'f'] := by decide +kernel

/-- Neither a positional literal nor infinity has an exponent. -/
theorem exponent_notMem_text {x : Float} (h : x = infinity ∨ IsPlain x) :
    'e' ∉ (Layout.literal.text x).toList := by
  rcases h with rfl | h
  · rw [text_infinity]
    decide
  · have hrank := (isFinite_iff x).mp h.1
    obtain ⟨hl, -⟩ := magnitude_of_isPositional ((isPlain_iff x).mp h)
    rw [Layout.toList_text _ hrank.le]
    intro hmem
    rcases List.mem_append.mp hmem with hsign | hdigit
    · split at hsign <;> simp at hsign
    · rcases hl.isDigit_or_eq hdigit with hd | hp
      · exact ne_of_isDigit hd rfl rfl
      · exact absurd hp (by decide)

theorem exponent_notMem_operator {c : Char} (h : (ofSymbol c).kind.tightness ≠ 0) :
    'e' ∉ (ofSymbol c).lexeme.toList := by
  intro hmem
  obtain rfl : 'e' = c := by simpa [ofSymbol] using hmem
  exact h rfl

/-- The literals with an exponent are those of the numbers that are neither plain nor infinite. -/
theorem exponent_mem_text_iff {k : Nat} (hk : k ≤ infinityRank) :
    'e' ∈ (Layout.literal.text (ofRank false k)).toList ↔
      ¬(ofRank false k = infinity ∨ IsPlain (ofRank false k)) := by
  constructor
  · exact fun hmem h => exponent_notMem_text h hmem
  · intro h
    obtain ⟨hinfinite, hplain⟩ := not_or.mp h
    rw [isPlain_iff] at hplain
    have hlt : k < infinityRank := hk.lt_of_ne fun heq => hinfinite (by rw [heq]; rfl)
    exact exponent_mem_text (by rwa [rank_ofRank false hk]) hplain

namespace Expr

/-- No number prints with an exponent: all are plain or infinite. -/
def NeedsNoExponent (t : Expr) : Prop := ∀ x ∈ t.numbers, x = infinity ∨ IsPlain x

/-- A rendering has an exponent if a number that is not infinite is not plain. -/
theorem exponent_mem_chars_iff {t : Expr} (h : t.IsOfText) : 'e' ∈ t.chars ↔ ¬t.NeedsNoExponent := by
  obtain ⟨hformed, hnumbers⟩ := h
  induction t with
  | number x =>
    obtain ⟨k, hk, rfl⟩ := hnumbers x List.mem_cons_self
    have hone : (number (ofRank false k)).NeedsNoExponent ↔
        ofRank false k = infinity ∨ IsPlain (ofRank false k) := List.forall_mem_singleton
    rw [hone]
    exact exponent_mem_text_iff hk
  | paren _ ih => exact ih hformed hnumbers
  | unary operator operand ih =>
    obtain ⟨hsign, ⟨c, rfl⟩, hoperand⟩ := hformed
    have htight := Kind.tightness_ne_zero_of_isAdditive hsign
    have hoperator := exponent_notMem_operator htight
    show _ ↔ ¬operand.NeedsNoExponent
    rw [← ih hoperand hnumbers]
    simp [chars, hoperator]
  | binary left operator right ihl ihr =>
    obtain ⟨htight, ⟨c, rfl⟩, hl, hr⟩ := hformed
    obtain ⟨hnl, hnr⟩ := List.forall_mem_append.mp hnumbers
    have hoperator := exponent_notMem_operator htight
    have hboth : (binary left (ofSymbol c) right).NeedsNoExponent ↔
        left.NeedsNoExponent ∧ right.NeedsNoExponent := List.forall_mem_append
    rw [hboth, not_and_or, ← ihl hl hnl, ← ihr hr hnr]
    simp [chars, hoperator]
  | stray => exact hformed.elim

end Expr

/-! ## Where a rendering stops -/

namespace Reader

variable {q : List Token} {kind : Kind}

/-- What stops behind an operator and the primary in front of it. -/
theorem Stops.sum_of_operator {p : List Token} {operator : Token} {left : Expr}
    (hp : Spells .primary p left) (ho : operator.kind.tightness ≠ 0) (h : Stops .primary q kind) :
    Stops (.chain .sum) (p ++ operator :: q) kind := by
  have hpower : Stops .power q kind := .base h
  have hproduct : Stops (.chain .product) q kind :=
    .operand (show Stops (operandOf .product) q kind from hpower)
  have hbase : Spells (operandOf .product) p left := .base hp
  -- the operator decides in which phrase the reading is when it stops
  have hcases : operator.kind.tightness = 1 ∨ operator.kind.tightness = 2 ∨ operator.kind.tightness = 3 := by
    have := operator.kind.tightness_le
    omega
  rcases hcases with h1 | h2 | h3
  · have hterm : Spells (.chain .product) p left := by simpa using Spells.chain hbase .nothing
    exact .links (show Spells (operandOf .sum) p left from hterm)
      (.link (Level.joins_iff.mpr h1) (show Stops (operandOf .sum) q kind from hproduct))
  · have hterm : Stops (.chain .product) (p ++ operator :: q) kind :=
      .links hbase (.link (Level.joins_iff.mpr h2) (show Stops (operandOf .product) q kind from hpower))
    exact .operand (show Stops (operandOf .sum) _ kind from hterm)
  · have hterm : Stops (.chain .product) (p ++ operator :: q) kind :=
      .operand (show Stops (operandOf .product) _ kind from
        .exponent hp (Token.Kind.eq_caret_iff.mpr h3) hpower)
    exact .operand (show Stops (operandOf .sum) _ kind from hterm)

/-- A rendering with infinity in it stops in front of the first infinity, if nothing else has an exponent. -/
theorem stops_chars {t : Expr} (h : t.IsWellFormed) (hword : t.NeedsNoExponent)
    (hinfinite : infinity ∈ t.numbers) :
    ∃ q r, scan t.chars = q ++ ofSymbol 'i' :: r ∧ Stops .primary q .number := by
  induction t with
  | number x =>
    cases List.mem_singleton.mp hinfinite
    have hscan : scan (Expr.number infinity).chars = ofSymbol 'i' :: scan ['n', 'f'] := by
      rw [Expr.chars, text_infinity]
      exact scan_symbol rfl rfl _
    exact ⟨[], _, hscan, .primary⟩
  | paren _ ih => exact ih h hword hinfinite
  | unary operator operand ih =>
    obtain ⟨hsign, ⟨c, rfl⟩, hoperand⟩ := h
    obtain ⟨q, r, hscan, hstops⟩ := ih hoperand hword hinfinite
    have htight := Kind.tightness_ne_zero_of_isAdditive hsign
    refine ⟨ofSymbol '(' :: ofSymbol c :: q, r ++ [ofSymbol ')'], ?_, ?_⟩
    · rw [scan_unary htight, hscan]
      simp
    · exact .inner rfl (Stops.sign hsign hstops).sum_of_primary
  | binary left operator right ihl ihr =>
    obtain ⟨htight, ⟨c, rfl⟩, hl, hr⟩ := h
    obtain ⟨hwl, hwr⟩ := List.forall_mem_append.mp hword
    by_cases hleft : infinity ∈ left.numbers
    · obtain ⟨q, r, hscan, hstops⟩ := ihl hl hwl hleft
      refine ⟨ofSymbol '(' :: q, r ++ ofSymbol c :: (scan right.chars ++ [ofSymbol ')']), ?_, ?_⟩
      · rw [scan_binary htight, hscan]
        simp
      · exact .inner rfl hstops.sum_of_primary
    · have hplain : ∀ x ∈ left.numbers, IsPlain x := fun x hx =>
        (hwl x hx).resolve_left fun heq => hleft (heq ▸ hx)
      have hright : infinity ∈ right.numbers := (List.mem_append.mp hinfinite).resolve_left hleft
      obtain ⟨q, r, hscan, hstops⟩ := ihr hr hwr hright
      refine ⟨ofSymbol '(' :: (scan left.chars ++ ofSymbol c :: q), r ++ [ofSymbol ')'], ?_, ?_⟩
      · rw [scan_binary htight, hscan]
        simp
      · exact .inner rfl (Stops.sum_of_operator (spells_chars hl hplain) htight hstops)
  | stray => exact h.elim

end Reader

/-! ## Results that are the same -/

namespace Crosscheck

/-- Every result is the same as itself, that which is no number too. -/
theorem sameResult_self (r : Result) : sameResult r r = true := by
  cases r with
  | message => rfl
  | value x => by_cases hnan : x = Float.nan <;> simp [sameResult, isClose, hnan]

/-! ## The check -/

variable {text : String} {t : Expr} {x : Float}

/-- The check goes on from the tree of the text to that of its rendering, unless the rendering has an
exponent. -/
theorem checkRendering_eq (hparse : Expr.parse true .unlimited text = .ok t) (h : t.IsWellFormed) :
    checkRendering .unlimited text x =
      if 'e' ∈ t.chars then .ok ""
      else (Expr.parse true .unlimited (String.ofList t.chars)).bind fun u =>
        (u.value .unlimited).bind fun y =>
          .ok (if sameResult (.value x) (.value y) then "" else report text (String.ofList t.chars) x y) := by
  unfold checkRendering
  rw [hparse]
  show (t.render .unlimited >>= _) = _
  rw [Expr.render_eq h]
  show (if (String.ofList t.chars).toList.contains 'e' then _ else _) = _
  rw [String.toList_ofList]
  by_cases he : 'e' ∈ t.chars
  · simp [he]
    rfl
  · simp [he]
    rfl

/-- A rendering whose numbers are plain is read again, and has the same value. -/
theorem checkRendering_of_isPlain (hparse : Expr.parse true .unlimited text = .ok t) (h : t.IsOfText)
    (hvalue : t.value .unlimited = .ok x) (hplain : ∀ y ∈ t.numbers, IsPlain y) :
    checkRendering .unlimited text x = .ok "" := by
  have hword : t.NeedsNoExponent := fun y hy => .inr (hplain y hy)
  have hnone : 'e' ∉ t.chars := fun he => (Expr.exponent_mem_chars_iff h).mp he hword
  have hagain : t.explicit.value .unlimited = .ok x :=
    (Expr.value_explicit fun y hy => (hplain y hy).1).trans hvalue
  rw [checkRendering_eq hparse h.isWellFormed, if_neg hnone, parse_chars h.isWellFormed hplain]
  show (t.explicit.value .unlimited).bind _ = _
  rw [hagain]
  show Except.ok (if sameResult (.value x) (.value x) then "" else _) = _
  rw [sameResult_self, if_pos rfl]

/-- A rendering with infinity in it is not read, if nothing else has an exponent. -/
theorem checkRendering_of_infinity (hparse : Expr.parse true .unlimited text = .ok t) (h : t.IsOfText)
    (hword : t.NeedsNoExponent) (hinfinite : infinity ∈ t.numbers) :
    checkRendering .unlimited text x = .error (.unexpected .number (ofSymbol 'i')) := by
  have hnone : 'e' ∉ t.chars := fun he => (Expr.exponent_mem_chars_iff h).mp he hword
  obtain ⟨q, r, hscan, hstops⟩ := stops_chars h.isWellFormed hword hinfinite
  have htokens : tokenize (String.ofList t.chars) = q ++ (ofSymbol 'i' :: r ++ [endOfInput]) := by
    rw [tokenize, String.toList_ofList, hscan, List.append_assoc]
  have hblocks : Blocks .number (lookahead (ofSymbol 'i' :: r ++ [endOfInput])).kind := rfl
  have hsum := (sum_eq_of_reads (reads_of_stops hstops.sum_of_primary hblocks)).1
  have hagain : Expr.parse true .unlimited (String.ofList t.chars) =
      .error (.unexpected .number (ofSymbol 'i')) := by
    unfold Expr.parse
    rw [htokens]
    exact read_of_sum_eq_error true hsum
  rw [checkRendering_eq hparse h.isWellFormed, if_neg hnone, hagain]
  rfl

/-- The tree has infinity for a literal, and no literal whose exponent would have its rendering left out. -/
def IsOverlooked (t : Expr) : Prop := infinity ∈ t.numbers ∧ t.NeedsNoExponent

/-- A text with a value has a tree. If the tree has infinity for a literal and its other numbers are plain,
its rendering is not read, and the check fails; otherwise it reports nothing. -/
theorem checkRendering_reports_overlooked (h : evaluate true .unlimited text = .ok x) :
    ∃ t, Expr.parse true .unlimited text = .ok t ∧
      (IsOverlooked t →
        checkRendering .unlimited text x = .error (.unexpected .number (ofSymbol 'i'))) ∧
      (¬IsOverlooked t → checkRendering .unlimited text x = .ok "") := by
  obtain ⟨t, hspells, hvalue⟩ := evaluate_eq_ok_iff.mp h
  have hparse := parse_eq_ok_iff.mpr hspells
  have hoftext : t.IsOfText := isOfText_of_spells hspells (fun _ ht => ht) trivial
  refine ⟨t, hparse, fun hover => checkRendering_of_infinity hparse hoftext hover.2 hover.1, fun hnot => ?_⟩
  by_cases hword : t.NeedsNoExponent
  · refine checkRendering_of_isPlain hparse hoftext hvalue fun y hy => ?_
    exact (hword y hy).resolve_left fun heq => hnot ⟨heq ▸ hy, hword⟩
  · have he := (Expr.exponent_mem_chars_iff hoftext).mpr hword
    rw [checkRendering_eq hparse hoftext.isWellFormed, if_pos he]

/-- A one and 309 zeros. -/
def hugeLiteral : List Char := '1' :: zeros 309

theorem isNumeral_hugeLiteral : IsNumeral hugeLiteral :=
  ⟨hugeLiteral, List.cons_ne_nil _ _, List.forall_mem_cons.mpr ⟨rfl, isDigit_of_mem_zeros 309⟩, .inl rfl⟩

theorem ofNumeral_hugeLiteral : Double.ofNumeral hugeLiteral = infinity := by decide +kernel

theorem isOverlooked_infinity : IsOverlooked (.number infinity) :=
  ⟨List.mem_cons_self, List.forall_mem_singleton.mpr (.inl rfl)⟩

theorem parse_hugeLiteral :
    Expr.parse true .unlimited (String.ofList hugeLiteral) = .ok (.number infinity) := by
  have hparse := parse_numeral isGap_nil isNumeral_hugeLiteral isGap_nil
  rwa [List.nil_append, List.append_nil, ofNumeral_hugeLiteral] at hparse

theorem evaluate_hugeLiteral : evaluate true .unlimited (String.ofList hugeLiteral) = .ok infinity := by
  rw [← ofNumeral_hugeLiteral]
  exact evaluate_numeral isNumeral_hugeLiteral

/-- A literal that is read as infinity has a value, and its check fails. -/
theorem checkRendering_reports_overlooked_huge :
    let text := String.ofList hugeLiteral
    evaluate true .unlimited text = .ok infinity ∧
      checkRendering .unlimited text infinity = .error (.unexpected .number (ofSymbol 'i')) := by
  intro text
  obtain ⟨t, ht, hover, -⟩ := checkRendering_reports_overlooked evaluate_hugeLiteral
  obtain rfl : t = .number infinity := Except.ok.inj (ht.symm.trans parse_hugeLiteral)
  exact ⟨evaluate_hugeLiteral, hover isOverlooked_infinity⟩

/-- Not every text that has a value passes the check. -/
theorem not_forall_checkRendering_eq :
    ¬∀ (text : String) (x : Float), evaluate true .unlimited text = .ok x →
      checkRendering .unlimited text x = .ok "" := by
  intro hall
  have hoftext := Expr.isOfText_number hugeLiteral
  rw [ofNumeral_hugeLiteral] at hoftext
  have hfails := checkRendering_of_infinity (x := infinity) parse_hugeLiteral hoftext
    isOverlooked_infinity.2 isOverlooked_infinity.1
  rw [hall _ _ evaluate_hugeLiteral] at hfails
  cases hfails

end Crosscheck

end Calculator
