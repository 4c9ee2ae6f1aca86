import Calculator.Crosscheck
import Calculator.Proofs.Trees

/-!
# The tokens of comparable texts

Whether a text is comparable is told by patterns of its characters, not by its tokens. Over the characters of
which texts are made up for the comparison the patterns are enough: a comparable text has no caret, no point
that is not part of a numeral, and nowhere two tokens one behind the other that another calculator would read
as one. For between two such tokens there are blanks only, and in front of a point that is a token by itself
there is the beginning of the text, a character that is no digit, or a numeral that has a point already.

**Results.**
* `isComparable_iff`: a text is comparable if none of the patterns is in it.
* `exists_of_scan_append`: a text can be cut between any two of its tokens.
* `exists_between`: two tokens one behind the other have only separators between them.
* `before_point`: what is in front of a point that is a token by itself.
* `kind_of_mem_scan`, `kind_of_point_mem`, `not_clash_of_infix`: the tokens of a comparable text are neither
  carets nor strays, have points only in numbers, and do not clash.
* `tokens_of_isComparable`: the same of all its tokens, the end of input included.
-/
namespace Calculator

open Text Token

variable {text : String} {cs l : List Char} {t u : Token}

/-! ## Texts and their tokens -/

namespace Token

/-- Separators are blank. -/
theorem isBlank_of_isSeparator {c : Char} (h : isSeparator c = true) : isBlank c = true := by
  simp only [isSeparator, Bool.or_eq_true, beq_iff_eq] at h
  rcases h with (rfl | rfl) | rfl <;> decide

/-- A lexeme of which the token is that of an operator is its character. -/
theorem eq_singleton_of_kind {c : Char} (hl : IsLexeme l) (h : (ofLexeme l).kind = Kind.ofSymbol c)
    (hn : Kind.ofSymbol c ≠ .invalid) : l = [c] := by
  cases hl with
  | numeral hl =>
    rw [ofLexeme_of_isNumeral hl] at h
    exact absurd h.symm (ofSymbol_ne_number c)
  | @symbol d hd _ =>
    rw [ofLexeme_singleton hd] at h
    rw [ofSymbol_inj h.symm hn]

/-- A lexeme of which the token is a number is a numeral. -/
theorem isNumeral_of_kind (hl : IsLexeme l) (h : (ofLexeme l).kind = .number) : IsNumeral l := by
  cases hl with
  | numeral hl => exact hl
  | @symbol d hd _ =>
    rw [ofLexeme_singleton hd] at h
    exact absurd h (ofSymbol_ne_number d)

/-- The characters of a token are characters of the text. -/
theorem mem_of_mem_scan (h : t ∈ scan cs) {c : Char} (hc : c ∈ t.lexeme.toList) : c ∈ cs := by
  have hlexemes : c ∈ (scan cs).flatMap fun t => t.lexeme.toList := List.mem_flatMap.mpr ⟨t, h, hc⟩
  rw [lexemes_scan] at hlexemes
  exact List.mem_of_mem_filter hlexemes

/-- The tokens of a text are those of numerals and of its characters that are neither digits nor separators. -/
theorem numeral_or_symbol_of_mem_scan (h : t ∈ scan cs) : (∃ l, IsNumeral l ∧ t = ofNumeral l) ∨
    ∃ c ∈ cs, t = ofSymbol c ∧ c.isDigit = false ∧ isSeparator c = false := by
  obtain ⟨l, hl, rfl⟩ := exists_lexeme_of_mem_scan h
  cases hl with
  | numeral hl => exact .inl ⟨l, hl, ofLexeme_of_isNumeral hl⟩
  | @symbol c hd hs =>
    rw [ofLexeme_singleton hd] at h ⊢
    exact .inr ⟨c, mem_of_mem_scan h (by simp [ofSymbol]), rfl, hd, hs⟩

theorem exists_symbol_of_mem_scan_of_ne (h : t ∈ scan cs) (hk : t.kind ≠ .number) :
    ∃ c ∈ cs, t = ofSymbol c ∧ c.isDigit = false ∧ isSeparator c = false := by
  refine (numeral_or_symbol_of_mem_scan h).resolve_left ?_
  rintro ⟨l, -, rfl⟩
  exact hk rfl

theorem exists_numeral_of_mem_scan (h : t ∈ scan cs) (hk : t.kind = .number) :
    ∃ l, IsNumeral l ∧ t = ofNumeral l := by
  refine (numeral_or_symbol_of_mem_scan h).resolve_right ?_
  rintro ⟨c, -, rfl, -⟩
  exact ofSymbol_ne_number c hk

/-- A token of the kind of an operator or parenthesis is the token of its character. -/
theorem eq_ofSymbol_of_mem_scan (h : t ∈ scan cs) {c : Char} (hk : t.kind = Kind.ofSymbol c)
    (hn : Kind.ofSymbol c ≠ .invalid) : t = ofSymbol c := by
  rcases numeral_or_symbol_of_mem_scan h with ⟨l, -, rfl⟩ | ⟨d, -, rfl, -⟩
  · exact absurd hk.symm (ofSymbol_ne_number c)
  · rw [ofSymbol_inj hk.symm hn]

/-- The first token is that of a lexeme, with separators in front of it, and the text goes on behind it. -/
theorem exists_of_scan_cons {q : List Token} (h : scan cs = t :: q) :
    ∃ w l rest, cs = w ++ (l ++ rest) ∧ IsGap w ∧ IsLexeme l ∧ EndsBefore l rest ∧ t = ofLexeme l ∧
      scan rest = q := by
  cases hn : next? cs with
  | none =>
    rw [scan_of_next?_eq_none hn] at h
    cases h
  | some p =>
    obtain ⟨first, rest⟩ := p
    rw [scan_of_next?_eq_some hn] at h
    obtain ⟨rfl, hrest⟩ := List.cons.inj h
    obtain ⟨w, l, hcs, hw, hl, hends, hfirst⟩ := next?_eq_some_iff.mp hn
    exact ⟨w, l, rest, hcs, hw, hl, hends, hfirst, hrest⟩

/-- A text can be cut between any two of its tokens. -/
theorem exists_of_scan_append {p q : List Token} (h : scan cs = p ++ q) :
    ∃ before rest, cs = before ++ rest ∧ scan rest = q := by
  induction p generalizing cs with
  | nil => exact ⟨[], cs, rfl, h⟩
  | cons t p ih =>
    obtain ⟨w, l, later, rfl, -, -, -, -, hlater⟩ := exists_of_scan_cons h
    obtain ⟨before, rest, rfl, hrest⟩ := ih hlater
    exact ⟨w ++ (l ++ before), rest, by simp, hrest⟩

/-- Two tokens one behind the other have only separators between them. -/
theorem exists_between (h : [t, u] <:+: scan cs) :
    ∃ before l w l' after, cs = before ++ (l ++ (w ++ (l' ++ after))) ∧ IsLexeme l ∧ IsGap w ∧ IsLexeme l' ∧
      EndsBefore l (w ++ (l' ++ after)) ∧ t = ofLexeme l ∧ u = ofLexeme l' := by
  obtain ⟨p, q, hscan⟩ := h
  rw [List.append_assoc] at hscan
  obtain ⟨before, rest, rfl, hrest⟩ := exists_of_scan_append hscan.symm
  obtain ⟨w, l, later, rfl, -, hl, hends, ht, hlater⟩ := exists_of_scan_cons hrest
  obtain ⟨w', l', after, rfl, hw', hl', -, hu, -⟩ := exists_of_scan_cons hlater
  exact ⟨before ++ w, l, w', l', after, by simp, hl, hw', hl', hends, ht, hu⟩

/-- A point goes on a numeral that has none, so one that does not is behind a numeral that has a point. -/
theorem IsNumeral.point_of_endsBefore {rest : List Char} (h : IsNumeral l) (hends : EndsBefore l ('.' :: rest)) :
    ∃ whole d fraction, l = whole ++ d :: '.' :: fraction ∧ d.isDigit = true ∧
      ∀ c ∈ fraction, c.isDigit = true := by
  have hgoes : ¬('.' ∉ l) := fun hnot => hends '.' rfl ⟨h, .inr ⟨rfl, hnot⟩⟩
  obtain ⟨whole, hne, hwhole, rfl | ⟨fraction, hfraction, rfl⟩⟩ := h
  · exact absurd (fun hmem => absurd (hwhole _ hmem) (by decide)) hgoes
  · rcases List.eq_nil_or_concat' whole with rfl | ⟨whole', d, rfl⟩
    · exact absurd rfl hne
    · exact ⟨whole', d, fraction, by simp, hwhole d (by simp), hfraction⟩

/-- In front of a point that is a token by itself the text begins, or there is a character that is no digit, or a
numeral that has a point already. -/
theorem before_point (h : ofSymbol '.' ∈ scan cs) :
    cs.head? = some '.' ∨ (∃ c ∈ cs, c.isDigit = false ∧ [c, '.'] <:+: cs) ∨
      ∃ d fraction, d.isDigit = true ∧ (∀ c ∈ fraction, c.isDigit = true) ∧
        d :: '.' :: (fraction ++ ['.']) <:+: cs := by
  induction cs using scan.induct with
  | case1 cs hn =>
    rw [scan_of_next?_eq_none hn] at h
    cases h
  | case2 cs first later hn ih =>
    obtain ⟨w, l, rfl, hw, hl, hends, rfl⟩ := next?_eq_some_iff.mp hn
    rw [scan_of_next?_eq_some hn] at h
    rcases List.mem_cons.mp h with hfirst | hlater
    · -- the point is the first token, so that all in front of it are separators
      have hlexeme := congrArg Token.lexeme hfirst
      rw [lexeme_ofLexeme hl] at hlexeme
      obtain rfl : ['.'] = l := String.ofList_inj.mp hlexeme
      rcases List.eq_nil_or_concat' w with rfl | ⟨w', c, rfl⟩
      · exact .inl rfl
      · have hc : isSeparator c = true := hw c (by simp)
        exact .inr (.inl ⟨c, by simp, not_isDigit_of_isSeparator hc, w', later, by simp⟩)
    · have hinfix : later <:+: w ++ (l ++ later) := ⟨w ++ l, [], by simp⟩
      rcases ih hlater with hhead | ⟨c, hc, hd, hpair⟩ | ⟨d, fraction, hd, hfraction, hpoints⟩
      · -- the point is right behind the first token
        obtain ⟨rest, rfl⟩ := List.head?_eq_some_iff.mp hhead
        cases hl with
        | @symbol c hd _ => exact .inr (.inl ⟨c, by simp, hd, w, rest, by simp⟩)
        | numeral hl =>
          obtain ⟨whole, d, fraction, rfl, hd, hfraction⟩ := hl.point_of_endsBefore hends
          exact .inr (.inr ⟨d, fraction, hd, hfraction, w ++ whole, rest, by simp⟩)
      · exact .inr (.inl ⟨c, hinfix.subset hc, hd, hpair.trans hinfix⟩)
      · exact .inr (.inr ⟨d, fraction, hd, hfraction, hpoints.trans hinfix⟩)

end Token

namespace Crosscheck

/-! ## Patterns -/

/-- All patterns of texts that are not comparable. -/
def patterns : List (List Piece) := doubledOperators ++ strayLiterals ++ [zeroDivisor]

/-- A text is comparable if it has no caret, does not begin with a point, and none of the patterns is in it. -/
theorem isComparable_iff : isComparable text = true ↔ '^' ∉ text.toList ∧ text.toList.head? ≠ some '.' ∧
    ∀ pattern ∈ patterns, ∀ v, IsMadeUp pattern v → ¬v <:+: text.toList := by
  have hnone : ∀ pattern, occursIn pattern text.toList = false ↔
      ∀ v, IsMadeUp pattern v → ¬v <:+: text.toList := by
    intro pattern
    rw [← Bool.not_eq_true, occursIn_iff_infix]
    exact ⟨fun h v hv hinfix => h ⟨v, hinfix, hv⟩, fun h ⟨v, hinfix, hv⟩ => h v hv hinfix⟩
  unfold patterns
  simp only [List.forall_mem_append, List.forall_mem_singleton, ← hnone]
  simp [isComparable]
  tauto

/-! ## Comparable texts -/

/-- The characters of which texts are made up for the comparison. -/
def alphabet : List Char := "0123456789.()+-*/^ ".toList

/-- Two tokens that another calculator reads as one, or that it does not read: two stars, two slashes, or two
numerals of which the first ends with a digit. -/
def Clash (t u : Token) : Prop :=
  t.kind = .star ∧ u.kind = .star ∨ t.kind = .slash ∧ u.kind = .slash ∨
    t.kind = .number ∧ u.kind = .number ∧ ∃ d ∈ t.lexeme.toList.getLast?, d.isDigit = true

section Comparable

variable (ha : ∀ c ∈ text.toList, c ∈ alphabet) (hc : isComparable text = true)
include ha hc

/-- A comparable text has no point that is a token by itself. -/
theorem point_notMem_scan : ofSymbol '.' ∉ scan text.toList := by
  intro hpoint
  obtain ⟨-, hhead, hpatterns⟩ := isComparable_iff.mp hc
  rcases before_point hpoint with hfirst | ⟨c, hmem, hd, hinfix⟩ | ⟨d, fraction, hd, hfraction, hinfix⟩
  · exact hhead hfirst
  · -- over the alphabet a decimal digit is one of ASCII
    have halphabet : ∀ c ∈ alphabet, c.toNat < 128 := by unfold alphabet; simp
    have hother : (!isDecimalDigit c) = true := by
      rw [isDecimalDigit_eq_isDigit (halphabet c (ha c hmem)), hd]
      rfl
    have hmade : IsMadeUp [.one (!isDecimalDigit ·), .one (· == '.')] [c, '.'] := .one hother (.one rfl .nil)
    exact hpatterns _ (by simp [patterns, strayLiterals]) _ hmade hinfix
  · have hdecimal : ∀ c ∈ fraction, isDecimalDigit c = true := fun c hc =>
      isDecimalDigit_of_isDigit (hfraction c hc)
    have hmade : IsMadeUp [.one isDecimalDigit, .one (· == '.'), .many isDecimalDigit, .one (· == '.')]
        (d :: '.' :: (fraction ++ ['.'])) :=
      .one (isDecimalDigit_of_isDigit hd) (.one rfl (.many hdecimal (.one rfl .nil)))
    exact hpatterns _ (by simp [patterns, strayLiterals]) _ hmade hinfix

/-- A comparable text has no caret and no stray character. -/
theorem kind_of_mem_scan (h : t ∈ scan text.toList) : t.kind ≠ .caret ∧ t.kind ≠ .invalid := by
  by_cases hk : t.kind = .number
  · rw [hk]
    decide
  · obtain ⟨c, hmem, rfl, hd, hs⟩ := exists_symbol_of_mem_scan_of_ne h hk
    have hpoint : c ≠ '.' := by
      rintro rfl
      exact point_notMem_scan ha hc h
    have hcaret : c ≠ '^' := by
      rintro rfl
      exact (isComparable_iff.mp hc).1 hmem
    have halphabet : ∀ c ∈ alphabet, c.isDigit = false → isSeparator c = false → c ≠ '.' → c ≠ '^' →
        (ofSymbol c).kind ≠ .caret ∧ (ofSymbol c).kind ≠ .invalid := by decide
    exact halphabet c (ha c hmem) hd hs hpoint hcaret

/-- A token of a comparable text that has a point is a number. -/
theorem kind_of_point_mem (h : t ∈ scan text.toList) (hpoint : '.' ∈ t.lexeme.toList) : t.kind = .number := by
  by_contra hk
  obtain ⟨c, -, rfl, -, -⟩ := exists_symbol_of_mem_scan_of_ne h hk
  have hlexeme : (ofSymbol c).lexeme.toList = [c] := String.toList_ofList
  rw [hlexeme, List.mem_singleton] at hpoint
  exact point_notMem_scan ha hc (hpoint ▸ h)

end Comparable

/-- Two tokens of a comparable text that are one behind the other do not clash. -/
theorem not_clash_of_infix (hc : isComparable text = true) (h : [t, u] <:+: scan text.toList) : ¬Clash t u := by
  obtain ⟨-, -, hpatterns⟩ := isComparable_iff.mp hc
  obtain ⟨before, l, w, l', after, hcs, hl, hw, hl', hends, rfl, rfl⟩ := exists_between h
  have hblank : ∀ c ∈ w, isBlank c = true := fun c hc => isBlank_of_isSeparator (hw c hc)
  have hinfix : l ++ (w ++ l') <:+: text.toList := ⟨before, after, by simp [hcs]⟩
  have hdoubled : ∀ c, [.one (· == c), .many isBlank, .one (· == c)] ∈ patterns → Kind.ofSymbol c ≠ .invalid →
      (ofLexeme l).kind = Kind.ofSymbol c → (ofLexeme l').kind ≠ Kind.ofSymbol c := by
    intro c hmem hn ht hu
    obtain rfl := eq_singleton_of_kind hl ht hn
    obtain rfl := eq_singleton_of_kind hl' hu hn
    exact hpatterns _ hmem _ (.one (beq_self_eq_true c) (.many hblank (.one (beq_self_eq_true c) .nil))) hinfix
  rintro (⟨ht, hu⟩ | ⟨ht, hu⟩ | ⟨ht, hu, d, hlast, hd⟩)
  · exact hdoubled '*' (by simp [patterns, doubledOperators]) (by decide) ht hu
  · exact hdoubled '/' (by simp [patterns, doubledOperators]) (by decide) ht hu
  · obtain ⟨d', rest, rfl, hd'⟩ := (isNumeral_of_kind hl' hu).exists_cons
    rw [lexeme_ofLexeme hl, String.toList_ofList] at hlast
    obtain ⟨whole, rfl⟩ : ∃ whole, l = whole ++ [d] := List.getLast?_eq_some_iff.mp hlast
    cases w with
    | nil =>
      -- with nothing between them the digit goes on the numeral in front
      exact hends d' rfl ⟨isNumeral_of_kind hl ht, .inl hd'⟩
    | cons g w =>
      obtain ⟨hg, hblank⟩ := List.forall_mem_cons.mp hblank
      have hdigit : (isDecimalDigit d' || d' == '.') = true := by rw [isDecimalDigit_of_isDigit hd']; rfl
      have hmade : IsMadeUp
          ([.one isDecimalDigit] ++ Piece.some isBlank ++ [.one fun c => isDecimalDigit c || c == '.'])
          (d :: g :: (w ++ [d'])) :=
        .one (isDecimalDigit_of_isDigit hd) (.one hg (.many hblank (.one hdigit .nil)))
      have hpart : d :: g :: (w ++ [d']) <:+: whole ++ [d] ++ (g :: w ++ d' :: rest) :=
        ⟨whole, rest, by simp⟩
      exact hpatterns _ (by simp [patterns, strayLiterals]) _ hmade (hpart.trans hinfix)

/-- The end of input is no token with which another clashes, so that tokens that clash are scanned. -/
theorem infix_scan_of_clash (h : [t, u] <:+: tokenize text) (hclash : Clash t u) :
    [t, u] <:+: scan text.toList := by
  refine (List.infix_concat_iff.mp h).resolve_left fun hlast => ?_
  obtain ⟨before, htokens⟩ := hlast
  have happend : before ++ [t] ++ [u] = scan text.toList ++ [endOfInput] := by simpa using htokens
  have hu : u = endOfInput := List.singleton_inj.mp (List.append_inj' happend rfl).2
  rcases hclash with ⟨-, hk⟩ | ⟨-, hk⟩ | ⟨-, hk, -⟩ <;> rw [hu] at hk <;> cases hk

/-- A comparable text over the alphabet has no caret and no stray character, its points are all parts of numerals,
and no two of its tokens that are one behind the other clash. -/
theorem tokens_of_isComparable (text : String) (ha : ∀ c ∈ text.toList, c ∈ alphabet)
    (hc : isComparable text = true) :
    (∀ t ∈ tokenize text, t.kind ≠ .caret ∧ t.kind ≠ .invalid) ∧
      (∀ t ∈ tokenize text, '.' ∈ t.lexeme.toList → t.kind = .number) ∧
      ∀ t u, [t, u] <:+: tokenize text → ¬Clash t u := by
  refine ⟨fun t ht => ?_, fun t ht hpoint => ?_, fun t u h hclash => ?_⟩
  · rcases List.mem_append.mp ht with hscan | hend
    · exact kind_of_mem_scan ha hc hscan
    · rw [List.mem_singleton.mp hend]
      decide
  · rcases List.mem_append.mp ht with hscan | hend
    · exact kind_of_point_mem ha hc hscan hpoint
    · rw [List.mem_singleton.mp hend] at hpoint
      cases hpoint
  · exact not_clash_of_infix hc (infix_scan_of_clash h hclash) hclash

/-- The tokens of `1.5 + (2)*-3/4` are such. -/
theorem tokens_of_isComparable_signs :
    let text := "1.5 + (2)*-3/4"
    isComparable text = true ∧ (∀ t ∈ tokenize text, t.kind ≠ .caret ∧ t.kind ≠ .invalid) ∧
      (∀ t ∈ tokenize text, '.' ∈ t.lexeme.toList → t.kind = .number) ∧
      ∀ t u, [t, u] <:+: tokenize text → ¬Clash t u := by
  intro text
  have ha : ∀ c ∈ text.toList, c ∈ alphabet := by unfold text alphabet; simp
  have hc : isComparable text = true := by decide +kernel
  exact ⟨hc, tokens_of_isComparable text ha hc⟩

end Crosscheck

end Calculator
