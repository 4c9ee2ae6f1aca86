import Calculator.Evaluation
import Calculator.Proofs.Grammar
import Calculator.Proofs.Segments
import Calculator.Proofs.Shape
import Calculator.Token.Cursor

/-!
# What a text is read as

If nothing may follow, a text is read as the tree that its tokens spell; the end of input behind them has no
part in it.

**Results.**
* `beforeEnd_tokenize`: the tokens in front of the end of input are those that are scanned.
* `parse_eq_ok_iff`: a text is read as the tree that its tokens spell.
* `evaluate_eq_ok_iff`: and has the value of that tree.
* `parse_numeral`: a numeral is read as its number.
* `parse_ne_ok_of_mem`: a text with a stray character is not read.
-/
namespace Calculator

open Reader Token Grammar

variable {text : String} {e : Expr}

/-- The end of input is no lexeme of a text. -/
theorem kind_ofLexeme_ne {l : List Char} (h : IsLexeme l) : (ofLexeme l).kind ≠ .endOfInput := by
  cases h with
  | numeral h =>
    rw [ofLexeme_of_isNumeral h]
    exact nofun
  | symbol hd _ =>
    rw [ofLexeme_singleton hd]
    exact Cursor.kind_ofSymbol_ne _

theorem kind_ne_of_mem_scan {cs : List Char} {t : Token} (h : t ∈ scan cs) : t.kind ≠ .endOfInput := by
  obtain ⟨l, hl, rfl⟩ := exists_lexeme_of_mem_scan h
  exact kind_ofLexeme_ne hl

/-- The tokens in front of the end of input are those that are scanned. -/
theorem beforeEnd_tokenize (text : String) : beforeEnd (tokenize text) = scan text.toList := by
  have hpos : ∀ t ∈ scan text.toList, (t.kind != .endOfInput) = true := fun t ht =>
    bne_iff_ne.mpr (kind_ne_of_mem_scan ht)
  unfold beforeEnd tokenize
  rw [List.takeWhile_append_of_pos hpos]
  exact List.append_nil _

/-- A text behind which nothing may follow is read as the tree that its tokens spell. -/
theorem parse_eq_ok_iff :
    Expr.parse true .unlimited text = .ok e ↔ Spells (.chain .sum) (scan text.toList) e := by
  unfold Expr.parse
  rw [read_true_ok_iff]
  constructor
  · rintro ⟨he, hend⟩
    obtain ⟨q, hq, hs, -⟩ := sum_ok_iff.mp ⟨he, rfl⟩
    have hsplit := congrArg beforeEnd hq
    rw [beforeEnd_tokenize, beforeEnd_append (derives_of_spells hs), beforeEnd_eq_nil_iff.mpr hend,
      List.append_nil] at hsplit
    rwa [hsplit]
  · intro hs
    obtain ⟨he, hrest⟩ := sum_ok_iff.mpr ⟨_, (rfl : tokenize text = _), hs, rfl⟩
    exact ⟨he, by rw [hrest]; rfl⟩

/-- A text behind which nothing may follow has the value of the tree that its tokens spell. -/
theorem evaluate_eq_ok_iff {x : Float} :
    evaluate true .unlimited text = .ok x ↔
      ∃ e, Spells (.chain .sum) (scan text.toList) e ∧ e.value .unlimited = .ok x := by
  rw [evaluate_eq]
  cases h : Expr.parse true .unlimited text with
  | ok e =>
    constructor
    · exact fun hx => ⟨e, parse_eq_ok_iff.mp h, hx⟩
    · rintro ⟨e', hs, hx⟩
      rw [parse_eq_ok_iff.mpr hs] at h
      cases h
      exact hx
  | error fault =>
    constructor
    · exact fun hx => nomatch hx
    · rintro ⟨e', hs, -⟩
      rw [parse_eq_ok_iff.mpr hs] at h
      cases h

/-! ## Lone numerals -/

/-- The token of a numeral with separators around it. -/
theorem scan_numeral {w l v : List Char} (hw : IsGap w) (hl : IsNumeral l) (hv : IsGap v) :
    scan (w ++ (l ++ v)) = [ofNumeral l] := by
  have hends : EndsBefore l v := by
    refine endsBefore_of_head fun c hc => ?_
    have hsep := hv c (List.mem_of_mem_head? hc)
    exact ⟨not_isDigit_of_isSeparator hsep, by rintro rfl; cases hsep⟩
  rw [scan_lexeme hw (.numeral hl) hends, ofLexeme_of_isNumeral hl,
    scan_of_next?_eq_none (next?_of_isGap hv)]

/-- A numeral is a primary. -/
theorem spells_numeral (l : List Char) :
    Spells .primary [ofNumeral l] (.number (Double.ofNumeral l)) :=
  .number rfl rfl

/-- A numeral with separators around it is read as its number. -/
theorem parse_numeral {w l v : List Char} (hw : IsGap w) (hl : IsNumeral l) (hv : IsGap v) :
    Expr.parse true .unlimited (String.ofList (w ++ (l ++ v))) = .ok (.number (Double.ofNumeral l)) := by
  rw [parse_eq_ok_iff, String.toList_ofList, scan_numeral hw hl hv]
  exact spells_sum_of_primary (spells_numeral l)

theorem evaluate_numeral {l : List Char} (hl : IsNumeral l) :
    evaluate true .unlimited (String.ofList l) = .ok (Double.ofNumeral l) := by
  have hparse := parse_numeral isGap_nil hl isGap_nil
  rw [List.nil_append, List.append_nil] at hparse
  rw [evaluate_eq, hparse]
  rfl

/-! ## Stray characters -/

/-- A character that is part of no numeral and no separator is a token by itself, wherever it stands. -/
theorem ofSymbol_mem_scan {cs : List Char} {c : Char} (hd : c.isDigit = false) (hp : c ≠ '.')
    (hs : isSeparator c = false) (h : c ∈ cs) : ofSymbol c ∈ scan cs := by
  induction cs using scan.induct with
  | case1 cs hn =>
    rw [isGap_of_next? hn c h] at hs
    cases hs
  | case2 cs t rest hn ih =>
    obtain ⟨w, l, rfl, hw, hl, -, rfl⟩ := next?_eq_some_iff.mp hn
    rw [scan_of_next?_eq_some hn]
    rcases List.mem_append.mp h with h | h
    · rw [hw c h] at hs
      cases hs
    rcases List.mem_append.mp h with h | h
    · cases hl with
      | numeral hl =>
        rcases hl.isDigit_or_eq h with hdigit | hpoint
        · rw [hd] at hdigit
          cases hdigit
        · exact absurd hpoint hp
      | symbol hd' _ =>
        cases List.mem_singleton.mp h
        rw [ofLexeme_singleton hd']
        exact List.mem_cons_self
    · exact List.mem_cons_of_mem _ (ih h)

/-- A text with a stray character is not read if nothing may follow. -/
theorem parse_ne_ok_of_mem {c : Char} (hc : Kind.ofSymbol c = .invalid) (hd : c.isDigit = false)
    (hp : c ≠ '.') (hs : isSeparator c = false) (h : c ∈ text.toList) :
    Expr.parse true .unlimited text ≠ .ok e := fun hparse =>
  (kind_of_spells (parse_eq_ok_iff.mp hparse) _ (ofSymbol_mem_scan hd hp hs h)).2 hc

end Calculator
