import Calculator.Proofs.Numerals
import Mathlib.Logic.ExistsUnique

/-!
# How a text is cut

A lexeme is a numeral, or one character that is neither a digit nor a separator. A text is cut into lexemes,
with separators in front of the first and behind each, so that no lexeme could be longer: none is a numeral
that the next character goes on. There is one way to do this, and scanning finds it.

**Results.**
* `next?_eq_some_iff`: the next token is that of the lexeme in front, if the lexeme ends there.
* `scan_append`: a text is scanned apart from what follows it, if that begins with no digit or point.
* `tokenize_eq_segments`: a text has one segmentation, and its tokens are those of the lexemes.
-/
namespace Calculator.Token

/-- A numeral, or one character that is neither a digit nor a separator. -/
inductive IsLexeme : List Char → Prop where
  | numeral {l} : IsNumeral l → IsLexeme l
  | symbol {c} : c.isDigit = false → isSeparator c = false → IsLexeme [c]

/-- The token of a lexeme. The end of input has the empty one. -/
def ofLexeme : List Char → Token
  | [] => endOfInput
  | c :: l => if c.isDigit then ofNumeral (c :: l) else ofSymbol c

/-- The character goes on the lexeme: a digit goes on every numeral, a point on one that has none. -/
def GoesOn (l : List Char) (c : Char) : Prop := IsNumeral l ∧ (c.isDigit = true ∨ c = '.' ∧ '.' ∉ l)

/-- The lexeme ends in front of the text. -/
def EndsBefore (l rest : List Char) : Prop := ∀ c ∈ rest.head?, ¬GoesOn l c

/-- All characters are separators. -/
def IsGap (w : List Char) : Prop := ∀ c ∈ w, isSeparator c = true

/-- A lexeme and the separators behind it. -/
structure Segment where
  lexeme : List Char
  gap : List Char

namespace Segment

/-- The text of segments. -/
def text (segments : List Segment) : List Char := segments.flatMap fun s => s.lexeme ++ s.gap

/-- Lexemes and separators where they should be, and no lexeme could be longer. -/
def AreLongest : List Segment → Prop
  | [] => True
  | s :: later => IsLexeme s.lexeme ∧ IsGap s.gap ∧ EndsBefore s.lexeme (s.gap ++ text later) ∧
      AreLongest later

end Segment

/-- A text cut up: separators, then lexemes with the separators behind each. -/
structure Segmentation where
  lead : List Char
  segments : List Segment

/-- The segmentation is one of the text, and none of its lexemes could be longer. -/
def Segmentation.Cuts (s : Segmentation) (cs : List Char) : Prop :=
  cs = s.lead ++ Segment.text s.segments ∧ IsGap s.lead ∧ Segment.AreLongest s.segments

/-! ## Lexemes -/

theorem not_isDigit_of_isSeparator {c : Char} (h : isSeparator c = true) : c.isDigit = false := by
  simp only [isSeparator, Bool.or_eq_true, beq_iff_eq] at h
  rcases h with (rfl | rfl) | rfl <;> decide

/-- A numeral begins with a digit. -/
theorem IsNumeral.exists_cons {l : List Char} (h : IsNumeral l) :
    ∃ c l', l = c :: l' ∧ c.isDigit = true := by
  obtain ⟨whole, hne, hdigits, hl⟩ := h
  obtain ⟨c, whole', rfl⟩ := List.exists_cons_of_ne_nil hne
  have hc : c.isDigit = true := hdigits c List.mem_cons_self
  rcases hl with rfl | ⟨fraction, -, rfl⟩
  · exact ⟨c, whole', rfl, hc⟩
  · exact ⟨c, whole' ++ '.' :: fraction, rfl, hc⟩

/-- Digits and a point are all that a numeral has. -/
theorem IsNumeral.isDigit_or_eq {l : List Char} (h : IsNumeral l) {c : Char} (hc : c ∈ l) :
    c.isDigit = true ∨ c = '.' := by
  obtain ⟨whole, -, hwhole, rfl | ⟨fraction, hfraction, rfl⟩⟩ := h
  · exact .inl (hwhole c hc)
  · rcases List.mem_append.mp hc with hc | hc
    · exact .inl (hwhole c hc)
    · rcases List.mem_cons.mp hc with rfl | hc
      · exact .inr rfl
      · exact .inl (hfraction c hc)

theorem ofLexeme_of_isNumeral {l : List Char} (h : IsNumeral l) : ofLexeme l = ofNumeral l := by
  obtain ⟨c, l', rfl, hc⟩ := h.exists_cons
  exact if_pos hc

theorem ofLexeme_singleton {c : Char} (h : c.isDigit = false) : ofLexeme [c] = ofSymbol c :=
  if_neg (by simp [h])

/-- Parentheses and operators are parts of no numeral and of no gap. -/
theorem ofSymbol_spec {c : Char} (h : Kind.ofSymbol c ≠ .invalid) :
    c.isDigit = false ∧ c ≠ '.' ∧ isSeparator c = false := by
  unfold Kind.ofSymbol at h
  split at h
  case h_8 => exact absurd rfl h
  all_goals decide

/-- A lexeme has no separators. -/
theorem IsLexeme.not_isSeparator {l : List Char} (h : IsLexeme l) {c : Char} (hc : c ∈ l) :
    isSeparator c = false := by
  cases h with
  | numeral h =>
    refine Bool.eq_false_iff.mpr fun hs => ?_
    rcases h.isDigit_or_eq hc with hd | rfl
    · rw [not_isDigit_of_isSeparator hs] at hd
      cases hd
    · cases hs
  | symbol _ hs =>
    cases List.mem_singleton.mp hc
    exact hs

theorem IsLexeme.ne_nil {l : List Char} (h : IsLexeme l) : l ≠ [] := by
  cases h with
  | numeral h =>
    obtain ⟨c, l', rfl, -⟩ := h.exists_cons
    exact List.cons_ne_nil c l'
  | symbol => exact List.cons_ne_nil _ _

/-- The token of a lexeme has the lexeme. -/
theorem lexeme_ofLexeme {l : List Char} (h : IsLexeme l) : (ofLexeme l).lexeme = String.ofList l := by
  cases h with
  | numeral h => rw [ofLexeme_of_isNumeral h]; rfl
  | symbol hd _ => rw [ofLexeme_singleton hd]; rfl

/-- Only digits and points go on a lexeme. -/
theorem endsBefore_of_head {l rest : List Char}
    (h : ∀ c ∈ rest.head?, c.isDigit = false ∧ c ≠ '.') : EndsBefore l rest := by
  rintro c hc ⟨-, hd | ⟨hp, -⟩⟩
  · rw [(h c hc).1] at hd
    cases hd
  · exact (h c hc).2 hp

/-- Nothing goes on a character that is no digit. -/
theorem endsBefore_symbol {c : Char} (hd : c.isDigit = false) (rest : List Char) :
    EndsBefore [c] rest := by
  rintro d - ⟨hn, -⟩
  obtain ⟨d', l', hcons, hdigit⟩ := hn.exists_cons
  cases hcons
  rw [hd] at hdigit
  cases hdigit

/-! ## The next lexeme -/

/-- What satisfies `p` is taken up to the first character that does not. -/
theorem span_eq {p : Char → Bool} {cs rest : List Char} (hcs : ∀ c ∈ cs, p c = true)
    (hrest : ∀ c ∈ rest.head?, p c = false) :
    (cs ++ rest).takeWhile p = cs ∧ (cs ++ rest).dropWhile p = rest := by
  rw [List.takeWhile_append_of_pos hcs, List.dropWhile_append_of_pos hcs]
  cases rest with
  | nil => simp
  | cons c rest =>
    have hc := hrest c rfl
    simp [hc]

/-- A text is split in one way into characters that satisfy `p` and a rest that does not begin with one. -/
theorem span_inj {p : Char → Bool} {cs ds rest rest' : List Char} (hcs : ∀ c ∈ cs, p c = true)
    (hds : ∀ c ∈ ds, p c = true) (hrest : ∀ c ∈ rest.head?, p c = false)
    (hrest' : ∀ c ∈ rest'.head?, p c = false) (h : cs ++ rest = ds ++ rest') : cs = ds ∧ rest = rest' := by
  obtain ⟨htake, hdrop⟩ := span_eq hcs hrest
  obtain ⟨htake', hdrop'⟩ := span_eq hds hrest'
  rw [h] at htake hdrop
  exact ⟨htake.symm.trans htake', hdrop.symm.trans hdrop'⟩

/-- The first character that is left does not satisfy `p`. -/
theorem head?_dropWhile {p : Char → Bool} {cs : List Char} {c : Char}
    (h : c ∈ (cs.dropWhile p).head?) : p c = false := by
  have hnot := List.head?_dropWhile_not p cs
  rw [Option.mem_def.mp h] at hnot
  exact hnot

/-- A numeral that ends in front of the rest is what is taken. -/
theorem numeral_of_endsBefore {l rest : List Char} (hl : IsNumeral l) (h : EndsBefore l rest) :
    numeral (l ++ rest) = (l, rest) := by
  have hdigit : ∀ c ∈ rest.head?, c.isDigit = false := fun c hc =>
    Bool.eq_false_iff.mpr fun hd => h c hc ⟨hl, .inl hd⟩
  obtain ⟨whole, -, hwhole, rfl | ⟨fraction, hfraction, rfl⟩⟩ := id hl
  · obtain ⟨ht, hd⟩ := span_eq hwhole hdigit
    have hpoint : '.' ∉ l := fun hm => absurd (hwhole _ hm) (by decide)
    unfold numeral
    rw [ht, hd]
    split
    · exact absurd ⟨hl, .inr ⟨rfl, hpoint⟩⟩ (h '.' rfl)
    · rfl
  · have hpoint : ∀ c ∈ ('.' :: (fraction ++ rest)).head?, c.isDigit = false := by
      rintro c ⟨⟩
      decide
    obtain ⟨ht, hd⟩ := span_eq hwhole hpoint
    obtain ⟨htf, hdf⟩ := span_eq hfraction hdigit
    unfold numeral
    rw [List.append_assoc, List.cons_append, ht, hd]
    simp only [htf, hdf]

/-- What is taken of a text ends in front of the rest. -/
theorem endsBefore_numeral (cs : List Char) : EndsBefore (numeral cs).1 (numeral cs).2 := by
  rintro c hc ⟨-, hgoes⟩
  unfold numeral at hc hgoes
  split at hc
  · next rest hr =>
    -- there is a point already, so that only a digit could go on
    simp only [hr] at hgoes
    rcases hgoes with hd | ⟨-, hp⟩
    · rw [head?_dropWhile hc] at hd
      cases hd
    · exact hp (List.mem_append_right _ List.mem_cons_self)
  · next hr =>
    rcases hgoes with hd | ⟨rfl, -⟩
    · rw [head?_dropWhile hc] at hd
      cases hd
    · obtain ⟨rest, hrest⟩ := List.head?_eq_some_iff.mp hc
      exact hr rest hrest

/-- The next token is that of the lexeme in front, if the lexeme ends there. -/
theorem next?_eq_some_iff {cs rest : List Char} {t : Token} :
    next? cs = some (t, rest) ↔ ∃ w l, cs = w ++ (l ++ rest) ∧ IsGap w ∧ IsLexeme l ∧
      EndsBefore l rest ∧ t = ofLexeme l := by
  constructor
  · intro h
    have happ := List.takeWhile_append_dropWhile (p := isSeparator) (l := cs)
    have hgap : IsGap (cs.takeWhile isSeparator) := List.all_eq_true.mp List.all_takeWhile
    unfold next? at h
    split at h
    · cases h
    · next c cs' hc =>
      have hhead : c ∈ (cs.dropWhile isSeparator).head? := by rw [hc]; rfl
      have hsep : isSeparator c = false := head?_dropWhile hhead
      rw [hc] at happ
      split at h
      · next hd =>
        cases h
        have hl : IsNumeral (numeral (c :: cs')).1 := isNumeral_numeral hd
        refine ⟨_, (numeral (c :: cs')).1, ?_, hgap, .numeral hl, endsBefore_numeral _,
          (ofLexeme_of_isNumeral hl).symm⟩
        rw [numeral_append, happ]
      · next hd =>
        cases h
        have hd := Bool.eq_false_iff.mpr hd
        exact ⟨_, [c], happ.symm, hgap, .symbol hd hsep, endsBefore_symbol hd _,
          (ofLexeme_singleton hd).symm⟩
  · rintro ⟨w, l, rfl, hw, hl, hends, rfl⟩
    have hhead : ∀ c ∈ (l ++ rest).head?, isSeparator c = false := fun c hc => by
      obtain ⟨d, l', rfl⟩ := List.exists_cons_of_ne_nil hl.ne_nil
      cases hc
      exact hl.not_isSeparator List.mem_cons_self
    have hdrop := (span_eq hw hhead).2
    unfold next?
    rw [hdrop]
    cases hl with
    | numeral hl =>
      have htake := numeral_of_endsBefore hl hends
      rw [ofLexeme_of_isNumeral hl]
      obtain ⟨c, l', rfl, hc⟩ := hl.exists_cons
      rw [List.cons_append] at htake ⊢
      simp only [hc, if_true, htake]
    | symbol hd _ =>
      rw [ofLexeme_singleton hd]
      simp [hd]

theorem next?_of_isGap {w : List Char} (hw : IsGap w) : next? w = none := by
  have hdrop : (w ++ []).dropWhile isSeparator = [] := (span_eq hw (fun c hc => by cases hc)).2
  rw [List.append_nil] at hdrop
  unfold next?
  rw [hdrop]

/-- If there is no next token, all that is left are separators. -/
theorem isGap_of_next? {cs : List Char} (h : next? cs = none) : IsGap cs := by
  unfold next? at h
  split at h
  · next hd =>
    have happ := List.takeWhile_append_dropWhile (p := isSeparator) (l := cs)
    rw [hd, List.append_nil] at happ
    exact happ ▸ List.all_eq_true.mp List.all_takeWhile
  · split at h <;> cases h

/-! ## Scanning -/

theorem isGap_nil : IsGap [] := List.forall_mem_nil _

theorem scan_nil : scan [] = [] := scan_of_next?_eq_none rfl

/-- Separators, then a lexeme that ends in front of the rest. -/
theorem scan_lexeme {w l rest : List Char} (hw : IsGap w) (hl : IsLexeme l) (h : EndsBefore l rest) :
    scan (w ++ (l ++ rest)) = ofLexeme l :: scan rest :=
  scan_of_next?_eq_some (next?_eq_some_iff.mpr ⟨w, l, rfl, hw, hl, h, rfl⟩)

/-- The tokens of a text are those of lexemes. -/
theorem exists_lexeme_of_mem_scan {cs : List Char} {t : Token} (h : t ∈ scan cs) :
    ∃ l, IsLexeme l ∧ t = ofLexeme l := by
  induction cs using scan.induct with
  | case1 cs hn =>
    rw [scan_of_next?_eq_none hn] at h
    cases h
  | case2 cs u rest hn ih =>
    obtain ⟨w, l, -, -, hl, -, rfl⟩ := next?_eq_some_iff.mp hn
    rw [scan_of_next?_eq_some hn] at h
    rcases List.mem_cons.mp h with rfl | h
    · exact ⟨l, hl, rfl⟩
    · exact ih h

/-- A character that is neither a digit nor a separator is scanned apart from what follows it. -/
theorem scan_symbol {c : Char} (hd : c.isDigit = false) (hs : isSeparator c = false) (rest : List Char) :
    scan (c :: rest) = ofSymbol c :: scan rest := by
  have h := scan_lexeme isGap_nil (.symbol hd hs) (endsBefore_symbol hd rest)
  rwa [ofLexeme_singleton hd] at h

/-- Separators in front of a text are dropped. -/
theorem scan_gap_append {w : List Char} (hw : IsGap w) (cs : List Char) : scan (w ++ cs) = scan cs := by
  cases h : next? cs with
  | none =>
    have hall : IsGap (w ++ cs) := List.forall_mem_append.mpr ⟨hw, isGap_of_next? h⟩
    rw [scan_of_next?_eq_none h, scan_of_next?_eq_none (next?_of_isGap hall)]
  | some p =>
    obtain ⟨t, rest⟩ := p
    obtain ⟨w', l, rfl, hw', hl, hends, -⟩ := next?_eq_some_iff.mp h
    have hall : IsGap (w ++ w') := List.forall_mem_append.mpr ⟨hw, hw'⟩
    rw [← List.append_assoc, scan_lexeme hall hl hends, scan_lexeme hw' hl hends]

/-- A text is scanned apart from what follows it, if that begins with no digit or point. -/
theorem scan_append (cs : List Char) {rest : List Char}
    (h : ∀ c ∈ rest.head?, c.isDigit = false ∧ c ≠ '.') : scan (cs ++ rest) = scan cs ++ scan rest := by
  induction cs using scan.induct with
  | case1 cs hn =>
    rw [scan_of_next?_eq_none hn, scan_gap_append (isGap_of_next? hn)]
    rfl
  | case2 cs t later hn ih =>
    obtain ⟨w, l, rfl, hw, hl, hends, rfl⟩ := next?_eq_some_iff.mp hn
    have hends' : EndsBefore l (later ++ rest) := by
      cases later with
      | nil => exact endsBefore_of_head h
      | cons c later => exact hends
    rw [scan_lexeme hw hl hends, List.append_assoc, List.append_assoc, scan_lexeme hw hl hends', ih]
    rfl

/-- The lexemes of the tokens make up the text without its separators. -/
theorem lexemes_scan (cs : List Char) :
    (scan cs).flatMap (fun t => t.lexeme.toList) = cs.filter fun c => !isSeparator c := by
  induction cs using scan.induct with
  | case1 cs hn =>
    rw [scan_of_next?_eq_none hn, List.filter_eq_nil_iff.mpr fun c hc => by
      simp [isGap_of_next? hn c hc]]
    rfl
  | case2 cs t later hn ih =>
    obtain ⟨w, l, rfl, hw, hl, hends, rfl⟩ := next?_eq_some_iff.mp hn
    have hwnil : w.filter (fun c => !isSeparator c) = [] :=
      List.filter_eq_nil_iff.mpr fun c hc => by simp [hw c hc]
    have hlself : l.filter (fun c => !isSeparator c) = l :=
      List.filter_eq_self.mpr fun c hc => by simp [hl.not_isSeparator hc]
    rw [scan_lexeme hw hl hends, List.flatMap_cons, ih, lexeme_ofLexeme hl, String.toList_ofList,
      List.filter_append, List.filter_append, hwnil, hlself]
    rfl

/-! ## Segmentations -/

/-- Every text has a segmentation. -/
theorem exists_cuts (cs : List Char) : ∃ s : Segmentation, s.Cuts cs := by
  induction cs using scan.induct with
  | case1 cs hn => exact ⟨⟨cs, []⟩, (List.append_nil cs).symm, isGap_of_next? hn, trivial⟩
  | case2 cs t later hn ih =>
    obtain ⟨⟨gap, segments⟩, rfl, hgap, hlongest⟩ := ih
    obtain ⟨w, l, rfl, hw, hl, hends, -⟩ := next?_eq_some_iff.mp hn
    refine ⟨⟨w, ⟨l, gap⟩ :: segments⟩, ?_, hw, hl, hgap, hends, hlongest⟩
    simp [Segment.text]

/-- A segmentation without segments is of separators, among which there is no token. -/
theorem next?_of_cuts_nil {w cs : List Char} (h : Segmentation.Cuts ⟨w, []⟩ cs) :
    cs = w ∧ next? cs = none := by
  obtain ⟨hcs, hw, -⟩ := h
  obtain rfl : cs = w := hcs.trans (List.append_nil w)
  exact ⟨rfl, next?_of_isGap hw⟩

/-- The lexeme of the first segment is the next token, and the others are a segmentation of the rest. -/
theorem next?_of_cuts_cons {w l gap cs : List Char} {later : List Segment}
    (h : Segmentation.Cuts ⟨w, ⟨l, gap⟩ :: later⟩ cs) :
    cs = w ++ (l ++ (gap ++ Segment.text later)) ∧ IsLexeme l ∧
      next? cs = some (ofLexeme l, gap ++ Segment.text later) ∧
      Segmentation.Cuts ⟨gap, later⟩ (gap ++ Segment.text later) := by
  obtain ⟨hcs, hw, hl, hgap, hends, hlongest⟩ := h
  have hcs : cs = w ++ (l ++ (gap ++ Segment.text later)) := by simpa [Segment.text] using hcs
  exact ⟨hcs, hl, next?_eq_some_iff.mpr ⟨w, l, hcs, hw, hl, hends, rfl⟩, rfl, hgap, hlongest⟩

/-- The tokens of a text are those of the lexemes of its segmentation. -/
theorem scan_of_cuts {s : Segmentation} {cs : List Char} (h : s.Cuts cs) :
    scan cs = s.segments.map fun segment => ofLexeme segment.lexeme := by
  obtain ⟨w, segments⟩ := s
  induction segments generalizing w cs with
  | nil => exact scan_of_next?_eq_none (next?_of_cuts_nil h).2
  | cons segment later ih =>
    obtain ⟨-, -, hnext, hlater⟩ := next?_of_cuts_cons h
    rw [scan_of_next?_eq_some hnext, ih _ hlater, List.map_cons]

/-- No text has two segmentations. -/
theorem eq_of_cuts {s s' : Segmentation} {cs : List Char} (h : s.Cuts cs) (h' : s'.Cuts cs) : s = s' := by
  obtain ⟨w, segments⟩ := s
  obtain ⟨w', segments'⟩ := s'
  induction segments generalizing w w' segments' cs with
  | nil =>
    obtain ⟨rfl, hnone⟩ := next?_of_cuts_nil h
    cases segments' with
    | nil => rw [(next?_of_cuts_nil h').1]
    | cons segment' later' =>
      rw [(next?_of_cuts_cons h').2.2.1] at hnone
      cases hnone
  | cons segment later ih =>
    obtain ⟨l, gap⟩ := segment
    obtain ⟨hcs, hl, hnext, hlater⟩ := next?_of_cuts_cons h
    cases segments' with
    | nil =>
      rw [(next?_of_cuts_nil h').2] at hnext
      cases hnext
    | cons segment' later' =>
      obtain ⟨l', gap'⟩ := segment'
      obtain ⟨hcs', hl', hnext', hlater'⟩ := next?_of_cuts_cons h'
      rw [hnext', Option.some.injEq, Prod.mk.injEq] at hnext
      obtain ⟨htoken, hrest⟩ := hnext
      -- the next token determines its lexeme, and what it leaves the segments behind
      have hlexeme := congrArg Token.lexeme htoken
      rw [lexeme_ofLexeme hl', lexeme_ofLexeme hl, String.ofList_inj] at hlexeme
      obtain rfl : l' = l := hlexeme
      rw [hrest] at hlater'
      obtain ⟨rfl, rfl⟩ := (Segmentation.mk.injEq ..).mp (ih _ hlater _ _ hlater')
      rw [List.append_cancel_right (hcs.symm.trans hcs')]

/-- A text has one segmentation, its tokens are those of the lexemes and the end of input, and so the
lexemes make up the text without its separators. -/
theorem tokenize_eq_segments (text : String) :
    (∃! s : Segmentation, s.Cuts text.toList) ∧
      (∃ s : Segmentation, s.Cuts text.toList ∧
        tokenize text = (s.segments.map fun segment => ofLexeme segment.lexeme) ++ [endOfInput]) ∧
      (tokenize text).flatMap (fun t => t.lexeme.toList) =
        text.toList.filter fun c => !isSeparator c := by
  obtain ⟨s, hs⟩ := exists_cuts text.toList
  refine ⟨⟨s, hs, fun s' hs' => eq_of_cuts hs' hs⟩, ⟨s, hs, ?_⟩, ?_⟩
  · rw [tokenize, scan_of_cuts hs]
  · rw [tokenize, List.flatMap_append, lexemes_scan]
    exact List.append_nil _

/-- A second point ends a numeral, and a carriage return is a token. -/
example : (tokenize "1.2.3\t\r").map (fun t => (t.kind, t.lexeme)) =
    [(.number, "1.2"), (.invalid, "."), (.number, "3"), (.invalid, "\r"), (.endOfInput, "")] := by
  decide +kernel

end Calculator.Token
