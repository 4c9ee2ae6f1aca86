import Calculator.Proofs.Segments

/-!
# Texts put together

Two texts are scanned apart from each other, and so are together what they are by themselves, unless the
first ends with a numeral that the second goes on: one that begins with a digit, or with a point while the
numeral has none. Then there is one longer numeral where the texts meet. So separators can be put into a
text wherever they are not put into a numeral, and nowhere else, if its tokens are to stay the same.

**Results.**
* `endsWith_append_iff`: with which lexeme a text ends is a matter of what is behind its first one.
* `scan_append_eq_iff`: two texts are scanned apart just if the second does not go on the first.
* `isInside_iff_goesAcross`: there is a numeral around the place where they meet just if it does.
* `tokenize_append_iff`: the tokens of two texts put together, and of a text with separators put into it.
-/
namespace Calculator.Token

variable {cs ds w l later : List Char}

/-- The text ends with the last character of the lexeme. -/
def EndsWith (cs l : List Char) : Prop :=
  ∃ s : Segmentation, s.Cuts cs ∧ s.segments.getLast? = some ⟨l, []⟩

/-- The second text goes on the numeral that the first one ends with. -/
def GoesAcross (cs ds : List Char) : Prop := ∃ l, EndsWith cs l ∧ ∃ c ∈ ds.head?, GoesOn l c

/-- The texts meet inside a numeral of the text that they are together, with some of it on either side. -/
def IsInside (cs ds : List Char) : Prop :=
  ∃ (s : Segmentation) (before after : List Segment) (l₁ l₂ gap : List Char), s.Cuts (cs ++ ds) ∧
    s.segments = before ++ ⟨l₁ ++ l₂, gap⟩ :: after ∧ IsNumeral (l₁ ++ l₂) ∧ l₁ ≠ [] ∧ l₂ ≠ [] ∧
    cs = s.lead ++ (Segment.text before ++ l₁)

/-! ## Numerals that go on -/

theorem not_endsBefore_iff : ¬EndsBefore l ds ↔ ∃ c ∈ ds.head?, GoesOn l c := by
  simp [EndsBefore]

/-- The front of a numeral is a numeral, and what is behind it goes on it. -/
theorem goesOn_of_isNumeral {l₁ l₂ : List Char} {c : Char} (h : IsNumeral (l₁ ++ c :: l₂)) (hne : l₁ ≠ []) :
    GoesOn l₁ c := by
  obtain ⟨whole, hwne, hwhole, hl | ⟨fraction, hfraction, hl⟩⟩ := h
  · have hall : ∀ d ∈ l₁ ++ c :: l₂, d.isDigit = true := by
      rw [hl]
      exact hwhole
    obtain ⟨hl₁, hl₂⟩ := List.forall_mem_append.mp hall
    exact ⟨⟨l₁, hne, hl₁, .inl rfl⟩, .inl (hl₂ c List.mem_cons_self)⟩
  · -- the seam is in front of the point or behind it
    rcases List.append_eq_append_iff.mp hl with ⟨m, hm, hrest⟩ | ⟨m, rfl, hrest⟩
    · have hl₁ : ∀ d ∈ l₁, d.isDigit = true := by
        intro d hd
        apply hwhole
        rw [hm]
        exact List.mem_append_left _ hd
      refine ⟨⟨l₁, hne, hl₁, .inl rfl⟩, ?_⟩
      cases m with
      | nil =>
        obtain ⟨rfl, -⟩ := List.cons.inj hrest
        exact .inr ⟨rfl, fun hp => absurd (hl₁ _ hp) (by decide)⟩
      | cons d m =>
        obtain ⟨rfl, -⟩ := List.cons.inj hrest
        apply Or.inl
        apply hwhole
        rw [hm]
        exact List.mem_append_right _ List.mem_cons_self
    · cases m with
      | nil =>
        obtain ⟨rfl, -⟩ := List.cons.inj hrest
        rw [List.append_nil]
        exact ⟨⟨whole, hwne, hwhole, .inl rfl⟩, .inr ⟨rfl, fun hp => absurd (hwhole _ hp) (by decide)⟩⟩
      | cons d m =>
        obtain ⟨rfl, rfl⟩ := List.cons.inj hrest
        obtain ⟨hm, hc⟩ := List.forall_mem_append.mp hfraction
        exact ⟨⟨whole, hwne, hwhole, .inr ⟨m, hm, rfl⟩⟩, .inl (hc c List.mem_cons_self)⟩

/-- If something goes on a numeral, there is a longer one in its place. -/
theorem exists_longer {c : Char} (h : GoesOn l c) (later : List Char) :
    ∃ l₂ rest, c :: later = l₂ ++ rest ∧ l₂ ≠ [] ∧ IsNumeral (l ++ l₂) ∧ EndsBefore (l ++ l₂) rest := by
  obtain ⟨d, l', rfl, hd⟩ := h.1.exists_cons
  have hlongest : IsNumeral (numeral (d :: (l' ++ c :: later))).1 := isNumeral_numeral hd
  have hends := endsBefore_numeral (d :: (l' ++ c :: later))
  have happend := numeral_append (d :: (l' ++ c :: later))
  generalize numeral (d :: (l' ++ c :: later)) = p at hlongest hends happend
  obtain ⟨taken, rest⟩ := p
  have hsplit : taken ++ rest = (d :: l') ++ c :: later := happend
  simp only at hlongest hends
  rcases List.append_eq_append_iff.mp hsplit with ⟨m, hm, hrest⟩ | ⟨m, rfl, hrest⟩
  · -- no less than the numeral is taken, since all of it goes on its front
    exfalso
    cases m with
    | nil =>
      rw [List.append_nil] at hm
      rw [hrest] at hends
      exact hends c rfl (hm ▸ h)
    | cons x m =>
      obtain ⟨y, taken', rfl, -⟩ := hlongest.exists_cons
      rw [hrest] at hends
      exact hends x rfl (goesOn_of_isNumeral (hm ▸ h.1) (List.cons_ne_nil y taken'))
  · refine ⟨m, rest, hrest, ?_, hlongest, hends⟩
    rintro rfl
    rw [List.append_nil] at hends
    obtain rfl : c :: later = rest := hrest
    exact hends c rfl h

/-! ## The end of a text -/

/-- A lexeme in front of a text goes in front of its segmentation. -/
theorem Segmentation.Cuts.cons {s : Segmentation} (h : s.Cuts later) (hw : IsGap w) (hl : IsLexeme l)
    (hends : EndsBefore l later) :
    Segmentation.Cuts ⟨w, ⟨l, s.lead⟩ :: s.segments⟩ (w ++ (l ++ later)) := by
  obtain ⟨rfl, hlead, hlongest⟩ := h
  exact ⟨by simp [Segment.text], hw, hl, hlead, hends, hlongest⟩

theorem endsWith_iff {s : Segmentation} (h : s.Cuts cs) (last : List Char) :
    EndsWith cs last ↔ s.segments.getLast? = some ⟨last, []⟩ := by
  constructor
  · rintro ⟨s', hs', hlast⟩
    rwa [eq_of_cuts hs' h] at hlast
  · exact fun hlast => ⟨s, h, hlast⟩

theorem not_endsWith_of_isGap (hw : IsGap w) : ¬EndsWith w l := by
  have hnone : Segmentation.Cuts ⟨w, []⟩ w := ⟨(List.append_nil w).symm, hw, trivial⟩
  simp [endsWith_iff hnone]

/-- The lexeme that a text ends with is its first one, if nothing is behind that, or that with which what is
behind ends. -/
theorem endsWith_append_iff (hw : IsGap w) (hl : IsLexeme l) (hends : EndsBefore l later)
    (last : List Char) : EndsWith (w ++ (l ++ later)) last ↔ later = [] ∧ last = l ∨ EndsWith later last := by
  obtain ⟨s, hs⟩ := exists_cuts later
  have hcuts := hs.cons hw hl hends
  have hall := endsWith_iff hcuts last
  have hbehind := endsWith_iff hs last
  have hlater : s.segments = [] → later = s.lead := by
    intro hnil
    have htext := hs.1
    rwa [hnil, Segment.text, List.flatMap_nil, List.append_nil] at htext
  rw [hall, hbehind]
  cases hsegments : s.segments with
  | nil =>
    rw [hlater hsegments]
    simp [and_comm, eq_comm]
  | cons segment segments =>
    have hne : later ≠ [] := by
      rintro rfl
      have htext := hs.1
      rw [hsegments] at htext
      have hlexeme := hs.2.2
      rw [hsegments] at hlexeme
      simp [Segment.text, hlexeme.1.ne_nil] at htext
    simp [hne, List.getLast?_cons]

/-- Where a text goes on another is a matter of what is behind the first lexeme. -/
theorem goesAcross_append_iff (hw : IsGap w) (hl : IsLexeme l) (hends : EndsBefore l later) :
    GoesAcross (w ++ (l ++ later)) ds ↔ later = [] ∧ ¬EndsBefore l ds ∨ GoesAcross later ds := by
  unfold GoesAcross
  simp only [endsWith_append_iff hw hl hends, not_endsBefore_iff]
  constructor
  · rintro ⟨last, ⟨hnil, rfl⟩ | hlast, hgoes⟩
    · exact .inl ⟨hnil, hgoes⟩
    · exact .inr ⟨last, hlast, hgoes⟩
  · rintro (⟨hnil, hgoes⟩ | ⟨last, hlast, hgoes⟩)
    · exact ⟨l, .inl ⟨hnil, rfl⟩, hgoes⟩
    · exact ⟨last, .inr hlast, hgoes⟩

theorem not_goesAcross_of_isGap (hw : IsGap w) : ¬GoesAcross w ds :=
  fun ⟨_, hlast, _⟩ => not_endsWith_of_isGap hw hlast

/-- A lexeme in front of which there are separators is the next token just if it ends where it does. -/
theorem scan_eq_cons_iff (hw : IsGap w) (hl : IsLexeme l) :
    scan (w ++ (l ++ ds)) = ofLexeme l :: scan ds ↔ EndsBefore l ds := by
  refine ⟨fun h => ?_, scan_lexeme hw hl⟩
  cases hnext : next? (w ++ (l ++ ds)) with
  | none =>
    rw [scan_of_next?_eq_none hnext] at h
    cases h
  | some p =>
    obtain ⟨t, rest⟩ := p
    rw [scan_of_next?_eq_some hnext] at h
    obtain ⟨w', l', hsplit, hw', hl', hends, rfl⟩ := next?_eq_some_iff.mp hnext
    have hlexeme := congrArg Token.lexeme (List.cons.inj h).1
    rw [lexeme_ofLexeme hl', lexeme_ofLexeme hl, String.ofList_inj] at hlexeme
    subst hlexeme
    -- the separators in front are all there are, so that the same is left behind the lexeme
    have hhead : ∀ rest, ∀ c ∈ (l' ++ rest).head?, isSeparator c = false := by
      intro rest c hc
      obtain ⟨d, l', rfl⟩ := List.exists_cons_of_ne_nil hl.ne_nil
      cases hc
      exact hl.not_isSeparator List.mem_cons_self
    have hrest := (span_inj hw hw' (hhead ds) (hhead rest) hsplit).2
    rwa [List.append_cancel_left hrest]

/-! ## Where texts meet -/

/-- Two texts are scanned apart from each other just if the second does not go on a numeral of the first. -/
theorem scan_append_eq_iff (cs ds : List Char) :
    scan (cs ++ ds) = scan cs ++ scan ds ↔ ¬GoesAcross cs ds := by
  induction cs using scan.induct with
  | case1 cs hn =>
    have hgap := isGap_of_next? hn
    rw [scan_of_next?_eq_none hn, scan_gap_append hgap]
    simp [not_goesAcross_of_isGap hgap]
  | case2 cs t later hn ih =>
    obtain ⟨w, l, rfl, hw, hl, hends, rfl⟩ := next?_eq_some_iff.mp hn
    rw [goesAcross_append_iff hw hl hends, scan_lexeme hw hl hends, List.append_assoc, List.append_assoc]
    cases later with
    | nil =>
      rw [scan_nil, List.nil_append, List.singleton_append, scan_eq_cons_iff hw hl]
      simp [not_goesAcross_of_isGap isGap_nil]
    | cons c later =>
      have hends' : EndsBefore l (c :: later ++ ds) := hends
      have happend : ofLexeme l :: scan (c :: later) ++ scan ds =
          ofLexeme l :: (scan (c :: later) ++ scan ds) := rfl
      rw [scan_lexeme hw hl hends', happend, List.cons_inj_right, ih]
      simp

theorem EndsBefore.of_append {u v : List Char} (h : EndsBefore l (u ++ v)) : EndsBefore l u := by
  cases u with
  | nil => exact nofun
  | cons c u => exact h

/-- Behind the front of a numeral its text goes across, whatever segments are in front of it. -/
theorem goesAcross_text {before after : List Segment} {l₁ l₂ gap : List Char} {c : Char} (hw : IsGap w)
    (hlongest : Segment.AreLongest (before ++ ⟨l₁ ++ c :: l₂, gap⟩ :: after))
    (hnumeral : IsNumeral (l₁ ++ c :: l₂)) (hne : l₁ ≠ []) (later : List Char) :
    GoesAcross (w ++ (Segment.text before ++ l₁)) (c :: later) := by
  have hgoes := goesOn_of_isNumeral hnumeral hne
  induction before generalizing w with
  | nil =>
    have hends : EndsBefore l₁ [] := nofun
    have hacross : ¬EndsBefore l₁ (c :: later) := fun h => h c rfl hgoes
    have h := (goesAcross_append_iff hw (.numeral hgoes.1) hends).mpr (.inl ⟨rfl, hacross⟩)
    simpa [Segment.text] using h
  | cons segment before ih =>
    obtain ⟨hl, hgap, hends, hlater⟩ := hlongest
    have hends : EndsBefore segment.lexeme
        (segment.gap ++ (Segment.text before ++ l₁) ++ (c :: l₂ ++ gap ++ Segment.text after)) := by
      simpa [Segment.text] using hends
    have h := (goesAcross_append_iff hw hl hends.of_append).mpr (.inr (ih hgap hlater))
    simpa [Segment.text] using h

/-- Texts meet inside a numeral just if the second goes on one that the first ends with. -/
theorem isInside_iff_goesAcross (cs ds : List Char) : IsInside cs ds ↔ GoesAcross cs ds := by
  constructor
  · rintro ⟨⟨w, segments⟩, before, after, l₁, l₂, gap, hcuts, hsegments, hnumeral, hne₁, hne₂, rfl⟩
    obtain ⟨c, l₂, rfl⟩ := List.exists_cons_of_ne_nil hne₂
    obtain ⟨htext, hw, hlongest⟩ := hcuts
    simp only at hsegments htext hw hlongest
    rw [hsegments] at htext hlongest
    have hds : ds = c :: (l₂ ++ (gap ++ Segment.text after)) := by simpa [Segment.text] using htext
    rw [hds]
    exact goesAcross_text hw hlongest hnumeral hne₁ _
  · intro h
    induction cs using scan.induct with
    | case1 cs hn => exact absurd h (not_goesAcross_of_isGap (isGap_of_next? hn))
    | case2 cs t later hn ih =>
      obtain ⟨w, l, rfl, hw, hl, hends, rfl⟩ := next?_eq_some_iff.mp hn
      rcases (goesAcross_append_iff hw hl hends).mp h with ⟨rfl, hacross⟩ | hlater
      · obtain ⟨c, hc, hgoes⟩ := not_endsBefore_iff.mp hacross
        obtain ⟨ds, rfl⟩ := List.head?_eq_some_iff.mp hc
        obtain ⟨l₂, rest, hsplit, hne, hnumeral, hends⟩ := exists_longer hgoes ds
        obtain ⟨s, hs⟩ := exists_cuts rest
        refine ⟨⟨w, ⟨l ++ l₂, s.lead⟩ :: s.segments⟩, [], s.segments, l, l₂, s.lead, ?_, rfl, hnumeral,
          hl.ne_nil, hne, by simp [Segment.text]⟩
        rw [hsplit]
        simpa using hs.cons hw (.numeral hnumeral) hends
      · obtain ⟨s, before, after, l₁, l₂, gap, hcuts, hsegments, hnumeral, hne₁, hne₂, hlead⟩ := ih hlater
        have hends' : EndsBefore l (later ++ ds) := by
          cases later with
          | nil => exact absurd hlater (not_goesAcross_of_isGap isGap_nil)
          | cons c later => exact hends
        refine ⟨⟨w, ⟨l, s.lead⟩ :: s.segments⟩, ⟨l, s.lead⟩ :: before, after, l₁, l₂, gap, ?_, ?_, hnumeral,
          hne₁, hne₂, ?_⟩
        · simpa using hcuts.cons hw hl hends'
        · simp [hsegments]
        · rw [hlead]
          simp [Segment.text]

/-! ## Texts and separators -/

/-- Separators part what is in front of them from what is behind. -/
theorem scan_append_gap_append (cs ds : List Char) (hw : IsGap w) (hne : w ≠ []) :
    scan (cs ++ (w ++ ds)) = scan cs ++ scan ds := by
  obtain ⟨c, w, rfl⟩ := List.exists_cons_of_ne_nil hne
  have hc := hw c List.mem_cons_self
  have hhead : ∀ d ∈ (c :: w ++ ds).head?, d.isDigit = false ∧ d ≠ '.' := by
    rintro d ⟨⟩
    refine ⟨not_isDigit_of_isSeparator hc, ?_⟩
    rintro rfl
    cases hc
  rw [scan_append cs hhead, scan_gap_append hw]

/-- The tokens of two texts put together are those of the first without the end of input and then those of
the second, unless the first ends with a numeral that the second goes on. So separators that are put into a
text leave its tokens as they are if they are not put into a numeral, and only then if there are any. -/
theorem tokenize_append_iff (a b : String) :
    (tokenize (a ++ b) = (tokenize a).dropLast ++ tokenize b ↔ ¬GoesAcross a.toList b.toList) ∧
      ∀ w : String, IsGap w.toList →
        (¬IsInside a.toList b.toList → tokenize (a ++ w ++ b) = tokenize (a ++ b)) ∧
        (w ≠ "" → IsInside a.toList b.toList → tokenize (a ++ w ++ b) ≠ tokenize (a ++ b)) := by
  have happend : tokenize (a ++ b) = (tokenize a).dropLast ++ tokenize b ↔
      ¬GoesAcross a.toList b.toList := by
    unfold tokenize
    rw [String.toList_append, List.dropLast_concat, ← List.append_assoc, List.append_left_inj,
      scan_append_eq_iff]
  have hgap : ∀ w : String, IsGap w.toList → w ≠ "" →
      (tokenize (a ++ w ++ b) = tokenize (a ++ b) ↔ ¬IsInside a.toList b.toList) := by
    intro w hw hne
    have hnil : w.toList ≠ [] := mt String.toList_eq_nil_iff.mp hne
    unfold tokenize
    rw [isInside_iff_goesAcross, ← scan_append_eq_iff, String.toList_append, String.toList_append,
      String.toList_append, List.append_assoc, scan_append_gap_append _ _ hw hnil, List.append_left_inj]
    exact eq_comm
  refine ⟨happend, fun w hw => ⟨fun hinside => ?_, fun hne hinside htokens => ?_⟩⟩
  · by_cases hne : w = ""
    · rw [hne, String.append_empty]
    · exact (hgap w hw hne).mpr hinside
  · exact (hgap w hw hne).mp htokens hinside

/-- A second point does not go on a numeral, while a digit goes on one that ends with a point. -/
theorem tokenize_append_iff_points :
    ¬IsInside "1.2".toList ".3".toList ∧ tokenize ("1.2" ++ " " ++ ".3") = tokenize ("1.2" ++ ".3") ∧
      IsInside "1.".toList "5".toList ∧ tokenize ("1." ++ " " ++ "5") ≠ tokenize ("1." ++ "5") := by
  have hspace : IsGap " ".toList := List.forall_mem_singleton.mpr rfl
  have hpoint : ¬IsInside "1.2".toList ".3".toList := by
    rw [isInside_iff_goesAcross, ← scan_append_eq_iff]
    decide +kernel
  have hdigit : IsInside "1.".toList "5".toList := by
    rw [isInside_iff_goesAcross]
    apply Classical.not_not.mp
    rw [← scan_append_eq_iff]
    decide +kernel
  exact ⟨hpoint, ((tokenize_append_iff "1.2" ".3").2 " " hspace).1 hpoint,
    hdigit, ((tokenize_append_iff "1." "5").2 " " hspace).2 (by decide) hdigit⟩

end Calculator.Token
