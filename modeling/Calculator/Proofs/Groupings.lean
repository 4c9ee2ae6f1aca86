import Calculator.Proofs.Equality
import Calculator.Proofs.ReadBack

/-!
# What a rendering tells of its tree

A rendering has no parentheses but those of its operations, so that trees with other parentheses may have the
same. Two trees of texts that differ in more than that have different renderings. The literal of a number ends in
front of a space or a closing parenthesis, whatever is in it; a sign stands right behind an opening parenthesis,
where no operand of an operator begins with one, since the numbers of a text have none. So the front of a
rendering tells what the tree is and where each of its operands ends.

**Results.**
* `isWord_magnitude`: how literals begin, and what is in none of them.
* `eq_of_chars_append_eq`: no rendering of a tree of a text is the front of that of another one.
* `render_shows_grouping`: two texts have one rendering just if their trees differ in parentheses alone.
-/
namespace Calculator

open Reader Token Double

/-! ## Literals -/

/-- The character stands behind an operand. -/
def isClosing (c : Char) : Bool := c == ' ' || c == ')'

/-- The text goes on up to what closes it, and begins like no operation and no sign. -/
structure IsWord (cs : List Char) : Prop where
  not_isClosing : ∀ c ∈ cs, (!isClosing c) = true
  exists_cons : ∃ c rest, cs = c :: rest ∧ c ∉ ['(', '+', '-']

theorem not_isClosing_of_isDigit {c : Char} (h : c.isDigit = true) : (!isClosing c) = true := by
  simp [isClosing, ne_of_isDigit h (d := ' ') rfl, ne_of_isDigit h (d := ')') rfl]

/-- Digits and the marks of literals close nothing. -/
theorem not_isClosing_of_writes {cs : List Char} (h : Layout.literal.Writes cs) :
    ∀ c ∈ cs, (!isClosing c) = true := by
  have hmarks : ∀ c ∈ Layout.literal.marks, (!isClosing c) = true := List.all_eq_true.mp (by decide)
  intro c hc
  rcases h c hc with hdigit | hmark
  · exact not_isClosing_of_isDigit hdigit
  · exact hmarks c hmark

theorem notMem_of_isDigit {c : Char} (h : c.isDigit = true) : c ∉ ['(', '+', '-'] := by
  simp [ne_of_isDigit h (d := '(') rfl, ne_of_isDigit h (d := '+') rfl, ne_of_isDigit h (d := '-') rfl]

theorem exists_cons_positional {digits : List Char} (hd : ∀ c ∈ digits, c.isDigit = true) (exponent : Int) :
    ∃ c rest, positional digits exponent = c :: rest ∧ c ∉ ['(', '+', '-'] := by
  obtain ⟨whole, fraction, htext, hshows, -⟩ := exists_positional_eq hd exponent
  obtain ⟨c, whole, rfl⟩ := List.exists_cons_of_ne_nil hshows.whole_ne_nil
  exact ⟨c, whole ++ '.' :: fraction, htext, notMem_of_isDigit (hshows.isDigit_whole c List.mem_cons_self)⟩

theorem exists_cons_scientific (layout : Layout) {digits : List Char} (hne : digits ≠ [])
    (hd : ∀ c ∈ digits, c.isDigit = true) (exponent : Int) :
    ∃ c rest, layout.scientific digits exponent = c :: rest ∧ c ∉ ['(', '+', '-'] := by
  obtain ⟨c, digits, rfl⟩ := List.exists_cons_of_ne_nil hne
  exact ⟨c, _, rfl, notMem_of_isDigit (hd c List.mem_cons_self)⟩

/-- How literals begin, and what is in none of them. -/
theorem isWord_magnitude {k : Nat} (hk : k ≤ infinityRank) : IsWord (Layout.literal.magnitude k) := by
  refine ⟨not_isClosing_of_writes (Layout.writes_magnitude k), ?_⟩
  unfold Layout.magnitude
  split
  · exact exists_cons_positional (isDigit_of_mem_zeros 1) 0
  · next hzero =>
    split
    · exact ⟨'i', ['n', 'f'], rfl, by decide⟩
    · rw [decimal_eq]
      split
      · exact exists_cons_positional isDigit_of_mem_trimmed _
      · have hpos := digits_shortest_pos (Nat.pos_of_ne_zero hzero) hk
        exact exists_cons_scientific _ (trimmed_ne_nil hpos) isDigit_of_mem_trimmed _

namespace Expr

/-! ## Trees without parentheses -/

/-- The tree has no parentheses. -/
def IsBare : Expr → Prop
  | number _ | stray _ => True
  | paren _ => False
  | unary _ operand => operand.IsBare
  | binary left _ right => left.IsBare ∧ right.IsBare

theorem isBare_bare (t : Expr) : t.bare.IsBare := by
  induction t with
  | number | stray => trivial
  | paren _ ih => exact ih
  | unary _ _ ih => exact ih
  | binary _ _ _ ihl ihr => exact ⟨ihl, ihr⟩

/-- Parentheses of the tree are not printed. -/
theorem chars_bare (t : Expr) : t.bare.chars = t.chars := by
  induction t with
  | number | stray => rfl
  | paren _ ih => exact ih
  | unary operator operand ih => simp only [bare, chars, ih]
  | binary left operator right ihl ihr => simp only [bare, chars, ihl, ihr]

theorem IsOfText.bare {t : Expr} (h : t.IsOfText) : t.bare.IsOfText := by
  induction t with
  | number => exact h
  | paren _ ih => exact ih h.of_paren
  | unary operator operand ih =>
    obtain ⟨hsign, hoperator, hoperand⟩ := h.of_unary
    exact (ih hoperand).unary hsign hoperator
  | binary left operator right ihl ihr =>
    obtain ⟨htight, hoperator, hl, hr⟩ := h.of_binary
    exact (ihl hl).binary (ihr hr) htight hoperator
  | stray => exact h.isWellFormed.elim

/-! ## Renderings -/

theorem isWord_chars {x : Float} (h : (number x).IsOfText) : IsWord (number x).chars := by
  obtain ⟨k, hk, rfl⟩ := h.of_number
  have hchars : (number (ofRank false k)).chars = Layout.literal.magnitude k := by
    rw [chars, Layout.toList_text _ (by rwa [rank_ofRank false hk]), isNegative_ofRank false hk,
      rank_ofRank false hk]
    rfl
  rw [hchars]
  exact isWord_magnitude hk

/-- No rendering of a tree of a text begins with a sign. -/
theorem exists_chars_cons {t : Expr} (h : t.IsOfText) : ∃ c rest, t.chars = c :: rest ∧ c ∉ ['+', '-'] := by
  induction t with
  | number x =>
    obtain ⟨c, rest, hchars, hc⟩ := (isWord_chars h).exists_cons
    exact ⟨c, rest, hchars, fun hmem => hc (List.mem_cons_of_mem _ hmem)⟩
  | paren _ ih => exact ih h.of_paren
  | unary => exact ⟨'(', _, rfl, by decide⟩
  | binary => exact ⟨'(', _, rfl, by decide⟩
  | stray => exact h.isWellFormed.elim

/-- A number is told from an operation by its first character. -/
theorem chars_number_append_ne {x : Float} (h : (number x).IsOfText) (r cs : List Char) :
    (number x).chars ++ r ≠ '(' :: cs := by
  obtain ⟨c, rest, hchars, hc⟩ := (isWord_chars h).exists_cons
  intro heq
  rw [hchars] at heq
  cases heq
  exact hc (by decide)

/-- A sign is told from the left operand of an operator by its first character. -/
theorem chars_append_ne {t : Expr} (h : t.IsOfText) {c : Char} (hc : (ofSymbol c).kind.isAdditive = true)
    (r cs : List Char) : t.chars ++ r ≠ c :: cs := by
  obtain ⟨d, rest, hchars, hd⟩ := exists_chars_cons h
  intro heq
  rw [hchars] at heq
  cases heq
  exact hd (mem_signs hc)

/-- Nothing is behind a tree, or a closing character. -/
def IsClosed (rest : List Char) : Prop := ∀ c ∈ rest.head?, (!isClosing c) = false

theorem isClosed_cons {c : Char} (h : isClosing c = true) (rest : List Char) : IsClosed (c :: rest) := by
  intro d hd
  cases hd
  simp [h]

/-- What a tree of a text is and where its rendering ends is told by the front of whatever goes on with a closing
character or with nothing. -/
theorem eq_of_chars_append_eq {t u : Expr} (ht : t.IsOfText) (hu : u.IsOfText) (hbt : t.IsBare)
    (hbu : u.IsBare) {r s : List Char} (hr : IsClosed r) (hs : IsClosed s)
    (h : t.chars ++ r = u.chars ++ s) : t = u ∧ r = s := by
  -- the first characters tell which node it is, and what is behind an operand tells where it ended
  induction t generalizing u r s with
  | number x =>
    cases u with
    | number y =>
      obtain ⟨htext, hrest⟩ :=
        span_inj (isWord_chars ht).not_isClosing (isWord_chars hu).not_isClosing hr hs h
      rw [text_inj isReadable_literal (String.toList_inj.mp htext)]
      exact ⟨rfl, hrest⟩
    | unary | binary => exact absurd h (chars_number_append_ne ht _ _)
    | paren => exact hbu.elim
    | stray => exact hu.isWellFormed.elim
  | unary operator a ih =>
    obtain ⟨hsign, ⟨c, rfl⟩, ha⟩ := ht.of_unary
    cases u with
    | number => exact absurd h.symm (chars_number_append_ne hu _ _)
    | unary operator' b =>
      obtain ⟨-, ⟨d, rfl⟩, hb⟩ := hu.of_unary
      simp only [chars_unary, List.cons_append, List.append_assoc, List.cons_eq_cons, true_and] at h
      obtain ⟨rfl, h⟩ := h
      obtain ⟨rfl, hrest⟩ := ih ha hb hbt hbu (isClosed_cons rfl _) (isClosed_cons rfl _) h
      exact ⟨rfl, (List.cons_eq_cons.mp hrest).2⟩
    | binary b operator' b' =>
      obtain ⟨-, ⟨d, rfl⟩, hb, -⟩ := hu.of_binary
      simp only [chars_unary, chars_binary, List.cons_append, List.append_assoc, List.cons_eq_cons,
        true_and] at h
      exact absurd h.symm (chars_append_ne hb hsign _ _)
    | paren => exact hbu.elim
    | stray => exact hu.isWellFormed.elim
  | binary a operator a' iha iha' =>
    obtain ⟨-, ⟨c, rfl⟩, ha, ha'⟩ := ht.of_binary
    cases u with
    | number => exact absurd h.symm (chars_number_append_ne hu _ _)
    | unary operator' b =>
      obtain ⟨hsign, ⟨d, rfl⟩, -⟩ := hu.of_unary
      simp only [chars_unary, chars_binary, List.cons_append, List.append_assoc, List.cons_eq_cons,
        true_and] at h
      exact absurd h (chars_append_ne ha hsign _ _)
    | binary b operator' b' =>
      obtain ⟨-, ⟨d, rfl⟩, hb, hb'⟩ := hu.of_binary
      simp only [chars_binary, List.cons_append, List.append_assoc, List.cons_eq_cons, true_and] at h
      obtain ⟨rfl, hright⟩ := iha ha hb hbt.1 hbu.1 (isClosed_cons rfl _) (isClosed_cons rfl _) h
      simp only [List.cons_eq_cons, true_and] at hright
      obtain ⟨rfl, hright⟩ := hright
      obtain ⟨rfl, hrest⟩ := iha' ha' hb' hbt.2 hbu.2 (isClosed_cons rfl _) (isClosed_cons rfl _) hright
      exact ⟨rfl, (List.cons_eq_cons.mp hrest).2⟩
    | paren => exact hbu.elim
    | stray => exact hu.isWellFormed.elim
  | paren => exact hbt.elim
  | stray => exact ht.isWellFormed.elim

/-- Trees of texts have one rendering just if they are one tree but for parentheses. -/
theorem chars_eq_iff {t u : Expr} (ht : t.IsOfText) (hu : u.IsOfText) : t.chars = u.chars ↔ t.bare = u.bare := by
  constructor
  · intro h
    rw [← chars_bare t, ← chars_bare u] at h
    have hnil : IsClosed [] := nofun
    exact (eq_of_chars_append_eq ht.bare hu.bare (isBare_bare t) (isBare_bare u) hnil hnil
      (congrArg (· ++ []) h)).1
  · intro h
    rw [← chars_bare t, ← chars_bare u, h]

end Expr

/-! ## Texts -/

/-- The trees of two texts are printed, and print as one text just if they are one tree after all parentheses are
taken away, which is the case just if they then compare as equal. -/
theorem render_shows_grouping {strict strict' : Bool} {a b : String} {t u : Expr}
    (ha : Expr.parse strict .unlimited a = .ok t) (hb : Expr.parse strict' .unlimited b = .ok u) :
    ∃ r s, t.render .unlimited = .ok r ∧ u.render .unlimited = .ok s ∧ (r = s ↔ t.bare = u.bare) ∧
      t.bare.same .unlimited u.bare = .ok (decide (t.bare = u.bare)) := by
  have ht := isOfText_of_parse ha
  have hu := isOfText_of_parse hb
  refine ⟨_, _, Expr.render_eq ht.isWellFormed, Expr.render_eq hu.isWellFormed, ?_,
    Expr.same_eq_decide ht.bare hu.bare⟩
  rw [String.ofList_inj, Expr.chars_eq_iff ht hu]

/-- Parentheses around a sum that has some, and around a number, are not printed. -/
theorem render_shows_grouping_product :
    let plus := Expr.binary (.number 1) (ofSymbol '+') (.number 2)
    let t := Expr.binary (.paren plus) (ofSymbol '*') (.number 3)
    let u := Expr.binary (.paren (.paren plus)) (ofSymbol '*') (.paren (.number 3))
    Expr.parse false .unlimited "(1+2)*3" = .ok t ∧ Expr.parse false .unlimited "((1+2))*(3)" = .ok u ∧
      ∃ r, t.render .unlimited = .ok r ∧ u.render .unlimited = .ok r := by
  intro plus t u
  have hplus : plus.IsShaped := ⟨show 1 < 4 by decide, trivial, trivial⟩
  have ht : t.IsShaped := ⟨show 1 < 4 ∧ 2 < 4 by decide, hplus, trivial⟩
  have hu : u.IsShaped := ⟨show 1 < 4 ∧ 2 < 4 by decide, hplus, trivial⟩
  have ha : Expr.parse false .unlimited "(1+2)*3" = .ok t :=
    parse_of_yield (q := scan "(1+2)*3".toList) (r := []) ht (by decide +kernel) (by decide +kernel) rfl
  have hb : Expr.parse false .unlimited "((1+2))*(3)" = .ok u :=
    parse_of_yield (q := scan "((1+2))*(3)".toList) (r := []) hu (by decide +kernel) (by decide +kernel) rfl
  obtain ⟨r, s, hr, hs, hrender, -⟩ := render_shows_grouping ha hb
  obtain rfl : r = s := hrender.mpr rfl
  exact ⟨ha, hb, r, hr, hs⟩

end Calculator
