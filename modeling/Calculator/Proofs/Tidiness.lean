import Calculator.Proofs.Tidying

/-!
# What a text is like when it was cleaned up

A tidy text has no blank just inside a parenthesis and no caret with blanks on both sides. A text is tidy
when it was cleaned up once: no clean-up brings a blank to a place from which another one took it, and a
caret that had to leave its blanks to the caret in front of it has none left on that side. A tidy text is
left as it is, and of any text nothing but blanks is lost.

**Results.**
* `isTidy_closeUp`: a text that was cleaned up is tidy.
* `isTidy_iff`: the tidy texts are those that cleaning up leaves as they are.
* `untokenize_isTidy`: the text of tokens is tidy, and but for blanks it is their lexemes.
-/
namespace Calculator.Token

open Text Relation

variable {cs ds rest : List Char} {b c d x y : Char}

/-- No blanks just inside parentheses, and none on both sides of a caret. -/
structure IsTidy (cs : List Char) : Prop where
  afterOpening : ∀ b, isBlank b = true → ¬['(', b] <:+: cs
  beforeClosing : ∀ b, isBlank b = true → ¬[b, ')'] <:+: cs
  aroundCaret : ∀ b d, isBlank b = true → isBlank d = true → ¬[b, '^', d] <:+: cs

/-- All three clean-ups of a text, one after the other. -/
def closeUp (cs : List Char) : List Char := closeUpCarets (closeUpBefore (closeUpAfter false cs))

theorem toList_untokenize (ts : List Token) : (untokenize ts).toList = closeUp (spaced ts).toList :=
  String.toList_ofList

/-! ## Characters side by side -/

theorem pair_infix_cons_iff : [x, y] <:+: c :: cs ↔ c = x ∧ cs.head? = some y ∨ [x, y] <:+: cs := by
  rw [List.infix_cons_iff, List.cons_prefix_cons, List.prefix_iff_eq_append, eq_comm (a := x)]
  cases cs with
  | nil => simp
  | cons d cs => simp [eq_comm]

theorem not_caret_of_isBlank (h : isBlank b = true) : b ≠ '^' := by
  rintro rfl
  cases h

/-! ## Behind what opens -/

/-- Inside a parenthesis the blanks are taken out up to the first other character. -/
theorem head?_closeUpAfter (cs : List Char) : ∀ c ∈ (closeUpAfter true cs).head?, isBlank c = false := by
  induction cs with
  | nil => exact nofun
  | cons c cs ih =>
    unfold closeUpAfter
    by_cases hc : isBlank c = true
    · simpa [hc] using ih
    · simp [hc]

theorem afterOpening_closeUpAfter (inside : Bool) (cs : List Char) (hb : isBlank b = true) :
    ¬['(', b] <:+: closeUpAfter inside cs := by
  induction cs generalizing inside with
  | nil => simp [closeUpAfter]
  | cons c cs ih =>
    unfold closeUpAfter
    split
    · exact ih true
    · rw [pair_infix_cons_iff]
      rintro (⟨rfl, hhead⟩ | hlater)
      · have hnot := head?_closeUpAfter cs b hhead
        rw [hb] at hnot
        cases hnot
      · exact ih _ hlater

theorem closeUpAfter_of_forall_not (h : ∀ b, isBlank b = true → ¬['(', b] <:+: cs) :
    closeUpAfter false cs = cs := by
  -- inside a parenthesis the text goes on with no blank
  have hall : ∀ inside, (inside = true → ∀ b ∈ cs.head?, isBlank b = false) →
      closeUpAfter inside cs = cs := by
    induction cs with
    | nil => exact fun _ _ => rfl
    | cons c cs ih =>
      intro inside hinside
      have hlater : ∀ b, isBlank b = true → ¬['(', b] <:+: cs := by
        intro b hb hinfix
        exact h b hb (pair_infix_cons_iff.mpr (.inr hinfix))
      have hkept : (inside && isBlank c) = false := by
        cases inside with
        | false => rfl
        | true => exact hinside rfl c rfl
      unfold closeUpAfter
      rw [hkept, if_neg Bool.false_ne_true, ih hlater]
      intro hopen b hhead
      refine Bool.eq_false_iff.mpr fun hb => ?_
      exact h b hb (pair_infix_cons_iff.mpr (.inl ⟨eq_of_beq hopen, hhead⟩))
  exact hall false fun hinside => absurd hinside Bool.false_ne_true

/-! ## In front of what closes -/

/-- If a text begins with a blank when it was cleaned up, it did so before. -/
theorem isBlank_head_of_closeUpBefore (h : (closeUpBefore cs).head? = some b) (hb : isBlank b = true) :
    ∃ d, cs.head? = some d ∧ isBlank d = true := by
  cases cs with
  | nil => cases h
  | cons c cs =>
    refine ⟨c, rfl, ?_⟩
    unfold closeUpBefore at h
    by_cases hc : isBlank c = true
    · exact hc
    · simp only [hc, Bool.false_and, Bool.false_eq_true, if_false] at h
      cases h
      exact hb

theorem afterOpening_closeUpBefore (h : ∀ b, isBlank b = true → ¬['(', b] <:+: cs) (hb : isBlank b = true) :
    ¬['(', b] <:+: closeUpBefore cs := by
  induction cs with
  | nil => simp [closeUpBefore]
  | cons c cs ih =>
    have hlater : ¬['(', b] <:+: closeUpBefore cs := by
      refine ih fun b hb hinfix => ?_
      exact h b hb (pair_infix_cons_iff.mpr (.inr hinfix))
    unfold closeUpBefore
    simp only
    split
    · exact hlater
    · rw [pair_infix_cons_iff]
      rintro (⟨rfl, hhead⟩ | hinfix)
      · obtain ⟨d, hd, hblank⟩ := isBlank_head_of_closeUpBefore hhead hb
        exact h d hblank (pair_infix_cons_iff.mpr (.inl ⟨rfl, hd⟩))
      · exact hlater hinfix

theorem beforeClosing_closeUpBefore (cs : List Char) (hb : isBlank b = true) :
    ¬[b, ')'] <:+: closeUpBefore cs := by
  induction cs with
  | nil => simp [closeUpBefore]
  | cons c cs ih =>
    unfold closeUpBefore
    simp only
    split
    · exact ih
    · next hkept =>
      rw [pair_infix_cons_iff]
      rintro (⟨rfl, hhead⟩ | hinfix)
      · exact hkept (by simp [hb, hhead])
      · exact ih hinfix

theorem closeUpBefore_of_forall_not (h : ∀ b, isBlank b = true → ¬[b, ')'] <:+: cs) :
    closeUpBefore cs = cs := by
  induction cs with
  | nil => rfl
  | cons c cs ih =>
    have hlater : closeUpBefore cs = cs := by
      refine ih fun b hb hinfix => ?_
      exact h b hb (pair_infix_cons_iff.mpr (.inr hinfix))
    unfold closeUpBefore
    simp only [hlater]
    split
    · next hblank =>
      obtain ⟨hc, hhead⟩ := Bool.and_eq_true_iff.mp hblank
      exact absurd (pair_infix_cons_iff.mpr (.inl ⟨rfl, eq_of_beq hhead⟩)) (h c hc)
    · rfl

/-! ## Around carets -/

/-- Blanks, a caret and a blank are found. -/
theorem spacedCaret?_of_blanks {w : List Char} (hw : ∀ b ∈ w, isBlank b = true) (hne : w ≠ [])
    (hd : isBlank d = true) (rest : List Char) :
    spacedCaret? (w ++ '^' :: d :: rest) = some (rest.dropWhile isBlank) := by
  have hcaret : ∀ c ∈ ('^' :: d :: rest).head?, isBlank c = false := by
    rintro c ⟨⟩
    decide
  have hdrop := (span_eq hw hcaret).2
  obtain ⟨b, w, rfl⟩ := List.exists_cons_of_ne_nil hne
  have hb := hw b List.mem_cons_self
  unfold spacedCaret?
  rw [hdrop, List.cons_append]
  simp [hb, hd]

theorem closeUpCarets_nil : closeUpCarets [] = [] := by
  rw [closeUpCarets]
  split
  · next h => cases h
  · rfl

/-- If a text does not begin with a caret when it was cleaned up, its first character is the one before. -/
theorem head?_closeUpCarets (h : (closeUpCarets cs).head? = some c) (hc : c ≠ '^') : cs.head? = some c := by
  cases cs with
  | nil =>
    rw [closeUpCarets_nil] at h
    cases h
  | cons d cs =>
    cases hcaret : spacedCaret? (d :: cs) with
    | some rest =>
      rw [closeUpCarets_of_eq_some hcaret] at h
      exact absurd (Option.some.inj h).symm hc
    | none =>
      rw [closeUpCarets_of_eq_none hcaret] at h
      exact h

/-- Characters side by side, of which neither is a caret, were side by side before. -/
theorem pair_infix_of_closeUpCarets (hx : x ≠ '^') (hy : y ≠ '^') (h : [x, y] <:+: closeUpCarets cs) :
    [x, y] <:+: cs := by
  induction cs using closeUpCarets.induct with
  | case1 cs rest hcaret ih =>
    obtain ⟨w, v, rfl, -, -, -, -⟩ := exists_of_spacedCaret? hcaret
    rw [closeUpCarets_of_eq_some hcaret] at h
    rcases pair_infix_cons_iff.mp h with ⟨hfront, -⟩ | hlater
    · exact absurd hfront.symm hx
    · have hsuffix : rest <:+ w ++ '^' :: (v ++ rest) := ⟨w ++ '^' :: v, by simp⟩
      exact (ih hlater).trans hsuffix.isInfix
  | case2 hnone =>
    rw [closeUpCarets_nil] at h
    exact h
  | case3 c cs hcaret ih =>
    rw [closeUpCarets_of_eq_none hcaret] at h
    rcases pair_infix_cons_iff.mp h with ⟨rfl, hhead⟩ | hlater
    · exact pair_infix_cons_iff.mpr (.inl ⟨rfl, head?_closeUpCarets hhead hy⟩)
    · exact pair_infix_cons_iff.mpr (.inr (ih hlater))

theorem triple_infix_cons_iff : [x, y, b] <:+: c :: cs ↔ c = x ∧ [y, b] <+: cs ∨ [x, y, b] <:+: cs := by
  rw [List.infix_cons_iff, List.cons_prefix_cons, eq_comm (a := x)]

/-- If a caret is left with a blank behind it, a blank in front of it would have been found with it: the
blank behind the caret was there before, or more blanks in front of the caret were. -/
theorem spacedCaret?_cons_ne_none (hb : isBlank b = true) (hd : isBlank d = true)
    (h : ['^', d] <+: closeUpCarets cs) : spacedCaret? (b :: cs) ≠ none := by
  cases hcaret : spacedCaret? cs with
  | some rest =>
    obtain ⟨w, v, rfl, hw, hv, -, hne⟩ := exists_of_spacedCaret? hcaret
    obtain ⟨e, v, rfl⟩ := List.exists_cons_of_ne_nil hne
    have hmore : ∀ c ∈ b :: w, isBlank c = true := List.forall_mem_cons.mpr ⟨hb, hw⟩
    have hfound := spacedCaret?_of_blanks hmore (List.cons_ne_nil b w) (hv e List.mem_cons_self) (v ++ rest)
    rw [List.cons_append] at hfound
    simp [hfound]
  | none =>
    cases cs with
    | nil => simp [closeUpCarets_nil] at h
    | cons c cs =>
      rw [closeUpCarets_of_eq_none hcaret] at h
      obtain ⟨rfl, hbehind⟩ := List.cons_prefix_cons.mp h
      obtain ⟨later, hlater⟩ := hbehind
      have hhead : (closeUpCarets cs).head? = some d := by rw [← hlater]; rfl
      obtain ⟨later, rfl⟩ := List.head?_eq_some_iff.mp (head?_closeUpCarets hhead (not_caret_of_isBlank hd))
      have hfound := spacedCaret?_of_blanks (List.forall_mem_singleton.mpr hb) (List.cons_ne_nil b []) hd later
      rw [List.singleton_append] at hfound
      simp [hfound]

theorem aroundCaret_closeUpCarets (cs : List Char) (hb : isBlank b = true) (hd : isBlank d = true) :
    ¬[b, '^', d] <:+: closeUpCarets cs := by
  induction cs using closeUpCarets.induct with
  | case1 cs rest hcaret ih =>
    rw [closeUpCarets_of_eq_some hcaret, triple_infix_cons_iff]
    rintro (⟨hfront, -⟩ | hlater)
    · exact not_caret_of_isBlank hb hfront.symm
    · exact ih hlater
  | case2 hnone => simp [closeUpCarets_nil]
  | case3 c cs hcaret ih =>
    rw [closeUpCarets_of_eq_none hcaret, triple_infix_cons_iff]
    rintro (⟨rfl, hfront⟩ | hlater)
    · exact spacedCaret?_cons_ne_none hb hd hfront hcaret
    · exact ih hlater

theorem closeUpCarets_of_forall_not (h : ∀ b d, isBlank b = true → isBlank d = true → ¬[b, '^', d] <:+: cs) :
    closeUpCarets cs = cs := by
  induction cs using closeUpCarets.induct with
  | case1 cs rest hcaret ih =>
    obtain ⟨w, v, rfl, hw, hv, hwne, hvne⟩ := exists_of_spacedCaret? hcaret
    obtain ⟨front, b, rfl⟩ := (List.eq_nil_or_concat w).resolve_left hwne
    obtain ⟨d, v, rfl⟩ := List.exists_cons_of_ne_nil hvne
    have hb : isBlank b = true := hw b (by simp)
    exact absurd ⟨front, v ++ rest, by simp⟩ (h b d hb (hv d List.mem_cons_self))
  | case2 hnone => exact closeUpCarets_nil
  | case3 c cs hcaret ih =>
    rw [closeUpCarets_of_eq_none hcaret, ih]
    intro b d hb hd hinfix
    exact h b d hb hd (triple_infix_cons_iff.mpr (.inr hinfix))

/-! ## Tidy texts -/

/-- A text that was cleaned up is tidy. -/
theorem isTidy_closeUp (cs : List Char) : IsTidy (closeUp cs) where
  afterOpening b hb h := by
    have hbefore := pair_infix_of_closeUpCarets (by decide) (not_caret_of_isBlank hb) h
    exact afterOpening_closeUpBefore (fun _ hb => afterOpening_closeUpAfter false cs hb) hb hbefore
  beforeClosing b hb h := by
    have hbefore := pair_infix_of_closeUpCarets (not_caret_of_isBlank hb) (by decide) h
    exact beforeClosing_closeUpBefore _ hb hbefore
  aroundCaret _ _ hb hd := aroundCaret_closeUpCarets _ hb hd

/-- Each of the clean-ups leaves a tidy text as it is. -/
theorem IsTidy.closeUp_eq (h : IsTidy cs) :
    closeUpAfter false cs = cs ∧ closeUpBefore cs = cs ∧ closeUpCarets cs = cs :=
  ⟨closeUpAfter_of_forall_not h.afterOpening, closeUpBefore_of_forall_not h.beforeClosing,
    closeUpCarets_of_forall_not h.aroundCaret⟩

/-- The tidy texts are those that cleaning up leaves as they are. -/
theorem isTidy_iff : IsTidy cs ↔ closeUp cs = cs := by
  constructor
  · intro h
    obtain ⟨hafter, hbefore, hcarets⟩ := h.closeUp_eq
    unfold closeUp
    rw [hafter, hbefore, hcarets]
  · intro h
    have htidy := isTidy_closeUp cs
    rwa [h] at htidy

/-! ## What is left -/

/-- Only blanks are taken out. -/
theorem filter_of_takesOut (h : ReflTransGen TakesOut cs ds) :
    cs.filter (fun c => !isBlank c) = ds.filter fun c => !isBlank c := by
  induction h with
  | refl => rfl
  | tail _ hone ih =>
    rw [ih]
    cases hone with
    | behind hb _ => simp [List.filter_cons, hb]
    | inFrontOf hb _ => simp [List.filter_cons, hb]

/-- And only blanks are put between the lexemes. -/
theorem filter_intercalate (ls : List (List Char)) :
    ([' '].intercalate ls).filter (fun c => !isBlank c) = ls.flatten.filter fun c => !isBlank c := by
  have hspace : isBlank ' ' = true := by decide
  induction ls with
  | nil => rfl
  | cons l ls ih =>
    cases ls with
    | nil => simp
    | cons l' ls =>
      rw [List.intercalate_cons_cons, List.filter_append, List.filter_append, ih]
      simp [hspace]

/-- The text of tokens is tidy, so that each clean-up leaves it as it is, and but for blanks it is the
lexemes of the tokens, whatever these are. -/
theorem untokenize_isTidy (ts : List Token) :
    let text := (untokenize ts).toList
    IsTidy text ∧ closeUpAfter false text = text ∧ closeUpBefore text = text ∧ closeUpCarets text = text ∧
      closeUp text = text ∧
      text.filter (fun c => !isBlank c) =
        ((ts.filter (·.kind != .endOfInput)).flatMap fun t => t.lexeme.toList).filter fun c => !isBlank c := by
  intro text
  have htidy : IsTidy text := by
    rw [show text = closeUp (spaced ts).toList from toList_untokenize ts]
    exact isTidy_closeUp _
  obtain ⟨hafter, hbefore, hcarets⟩ := htidy.closeUp_eq
  refine ⟨htidy, hafter, hbefore, hcarets, isTidy_iff.mp htidy, ?_⟩
  rw [← filter_of_takesOut (takesOut_untokenize ts), spaced, String.toList_intercalate, List.map_map,
    List.flatMap_def]
  exact filter_intercalate _

/-- Carets that share their blanks: the second one has none left in front of it. -/
example : String.ofList (closeUp "( 1 ^ ^ 2 )".toList) = "(1^^ 2)" := by decide +kernel

end Calculator.Token
