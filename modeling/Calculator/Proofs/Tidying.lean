import Calculator.Proofs.Texts
import Calculator.Token.Spacing
import Mathlib.Logic.Relation

/-!
# What is taken out when tokens are written down

Tokens are written with a space between each two, and then blanks inside parentheses and around carets are
taken out of the text. More characters are blank than separate tokens, and one that does not separate any,
such as a carriage return, is a stray token. So strays can be lost where blanks are taken out. Nothing else
is: the character that the blanks stood beside is a token by itself, which nothing goes on and which goes
on nothing, so that the tokens to its left and to its right are scanned apart.

**Results.**
* `takesOut_closeUpAfter`, `takesOut_closeUpBefore`, `takesOut_closeUpCarets`: each clean-up takes out
  blanks beside parentheses and carets, one after the other.
* `scan_of_takesOut`: taking out one blank changes no token, or loses one stray beside a parenthesis or caret.
* `scan_spaced`: before that the tokens are those that were written down.
* `tokenize_untokenize`: what is lost of the tokens of a text when they are written down and read again.
-/
namespace Calculator.Token

open Text Relation

/-- The token of a blank that separates no tokens. -/
def IsStray (t : Token) : Prop :=
  ∃ c, isBlank c = true ∧ isSeparator c = false ∧ t = ⟨.invalid, String.singleton c, none⟩

/-- Between the two there is the inside of a parenthesis or the side of a caret. -/
def Beside (before after : Option Token) : Prop :=
  (∃ t ∈ before, t.kind = .leftParen ∨ t.kind = .caret) ∨
    ∃ t ∈ after, t.kind = .rightParen ∨ t.kind = .caret

/-- The tokens `us` are the tokens `ts` without some runs of strays. A run that is lost stands between the
token `before` that is kept, or the previous one that is, and the next one, and there beside a parenthesis
or caret. -/
inductive Loses : Option Token → List Token → List Token → Prop where
  | done {before run} : (∀ t ∈ run, IsStray t) → (run ≠ [] → Beside before none) → Loses before run []
  | keep {before run t ts us} : (∀ t ∈ run, IsStray t) → (run ≠ [] → Beside before (some t)) →
      Loses (some t) ts us → Loses before (run ++ t :: ts) (t :: us)

/-- One blank is taken out, behind a character that opens or in front of one that closes; a caret does
both. -/
inductive TakesOut : List Char → List Char → Prop where
  | behind {p b r x} : isBlank b = true → x = '(' ∨ x = '^' → TakesOut (p ++ x :: b :: r) (p ++ x :: r)
  | inFrontOf {p b r x} : isBlank b = true → x = ')' ∨ x = '^' → TakesOut (p ++ b :: x :: r) (p ++ x :: r)

/-- One stray is lost. -/
inductive LosesOne : List Token → List Token → Prop where
  | mk {q t r} : IsStray t → Beside q.getLast? r.head? → LosesOne (q ++ t :: r) (q ++ r)

variable {cs ds : List Char} {ts us : List Token} {before : Option Token}

theorem kind_of_isStray {t : Token} (h : IsStray t) : t.kind = .invalid := by
  obtain ⟨c, -, -, rfl⟩ := h
  rfl

/-! ## Blanks -/

/-- A blank is no digit, point, parenthesis or operator. -/
theorem of_isBlank {c : Char} (h : isBlank c = true) :
    c.isDigit = false ∧ c ≠ '.' ∧ Kind.ofSymbol c = .invalid := by
  refine ⟨?_, ?_, ?_⟩
  · refine Bool.eq_false_iff.mpr fun hd => ?_
    rw [Char.isDigit_iff_toNat] at hd
    simp [isBlank, blankRanges] at h hd
    omega
  · rintro rfl
    cases h
  · unfold Kind.ofSymbol
    split <;> first | rfl | cases h

/-- A blank is a separator or a stray, and is scanned apart from what follows. -/
theorem scan_blank_cons {b : Char} (hb : isBlank b = true) (r : List Char) :
    scan (b :: r) = scan r ∨ ∃ t, IsStray t ∧ scan (b :: r) = t :: scan r := by
  obtain ⟨hd, -, hk⟩ := of_isBlank hb
  cases hs : isSeparator b with
  | true => exact .inl (scan_gap_append (List.forall_mem_singleton.mpr hs) r)
  | false =>
    refine .inr ⟨ofSymbol b, ⟨b, hb, hs, ?_⟩, scan_symbol hd hs r⟩
    rw [ofSymbol, hk]

/-- A parenthesis or operator is scanned apart from what stands around it. -/
theorem scan_append_cons {x : Char} (hx : Kind.ofSymbol x ≠ .invalid) (p r : List Char) :
    scan (p ++ x :: r) = scan p ++ ofSymbol x :: scan r := by
  obtain ⟨hdigit, hpoint, hseparator⟩ := ofSymbol_spec hx
  rw [scan_append p (by rintro c ⟨⟩; exact ⟨hdigit, hpoint⟩), scan_symbol hdigit hseparator]

/-! ## One blank -/

/-- Taking out one blank changes no token, or loses one stray beside a parenthesis or caret. -/
theorem scan_of_takesOut (h : TakesOut cs ds) : scan cs = scan ds ∨ LosesOne (scan cs) (scan ds) := by
  cases h with
  | @behind p b r x hb hx =>
    have hsymbol : Kind.ofSymbol x ≠ .invalid ∧
        (Kind.ofSymbol x = .leftParen ∨ Kind.ofSymbol x = .caret) := by
      rcases hx with rfl | rfl <;> decide
    rw [scan_append_cons hsymbol.1, scan_append_cons hsymbol.1]
    rcases scan_blank_cons hb r with heq | ⟨t, ht, heq⟩
    · exact .inl (by rw [heq])
    · rw [heq]
      have hlose : LosesOne ((scan p ++ [ofSymbol x]) ++ t :: scan r) ((scan p ++ [ofSymbol x]) ++ scan r) :=
        .mk ht (.inl ⟨ofSymbol x, by simp, hsymbol.2⟩)
      simp only [List.append_assoc, List.singleton_append] at hlose
      exact .inr hlose
  | @inFrontOf p b r x hb hx =>
    have hsymbol : Kind.ofSymbol x ≠ .invalid ∧
        (Kind.ofSymbol x = .rightParen ∨ Kind.ofSymbol x = .caret) := by
      rcases hx with rfl | rfl <;> decide
    obtain ⟨hd, hpoint, -⟩ := of_isBlank hb
    have hx : scan (x :: r) = ofSymbol x :: scan r := by
      simpa [scan_nil] using scan_append_cons hsymbol.1 [] r
    rw [scan_append p (by rintro c ⟨⟩; exact ⟨hd, hpoint⟩), scan_append_cons hsymbol.1]
    rcases scan_blank_cons hb (x :: r) with heq | ⟨t, ht, heq⟩
    · exact .inl (by rw [heq, hx])
    · rw [heq, hx]
      exact .inr (.mk ht (.inr ⟨ofSymbol x, rfl, hsymbol.2⟩))

/-- Strays are lost one after the other where blanks are taken out. -/
theorem losesOne_of_takesOut (h : ReflTransGen TakesOut cs ds) :
    ReflTransGen LosesOne (scan cs) (scan ds) := by
  induction h with
  | refl => exact .refl
  | tail _ hone ih =>
    rcases scan_of_takesOut hone with heq | hlose
    · rwa [← heq]
    · exact ih.tail hlose

/-- What comes behind the tokens has no part in it. -/
theorem LosesOne.append (h : LosesOne ts us) (later : List Token) :
    LosesOne (ts ++ later) (us ++ later) := by
  obtain @⟨q, t, r, ht, hbeside⟩ := h
  rw [List.append_assoc, List.append_assoc, List.cons_append]
  refine .mk ht (hbeside.imp_right ?_)
  rintro ⟨u, hu, hk⟩
  exact ⟨u, by simp [Option.mem_def.mp hu], hk⟩

/-! ## Cleaning up -/

/-- Blanks behind a caret are taken out. -/
theorem takesOut_behind {w : List Char} (hw : ∀ b ∈ w, isBlank b = true) (p r : List Char) :
    ReflTransGen TakesOut (p ++ '^' :: (w ++ r)) (p ++ '^' :: r) := by
  induction w with
  | nil => exact .refl
  | cons b w ih =>
    obtain ⟨hb, hw⟩ := List.forall_mem_cons.mp hw
    exact .head (.behind hb (.inr rfl)) (ih hw)

/-- Blanks in front of a caret are taken out. -/
theorem takesOut_inFrontOf {w : List Char} (hw : ∀ b ∈ w, isBlank b = true) (p r : List Char) :
    ReflTransGen TakesOut (p ++ (w ++ '^' :: r)) (p ++ '^' :: r) := by
  induction w generalizing p with
  | nil => exact .refl
  | cons b w ih =>
    obtain ⟨hb, hw⟩ := List.forall_mem_cons.mp hw
    have hlater := ih hw (p ++ [b])
    simp only [List.append_assoc, List.singleton_append] at hlater
    exact .tail hlater (.inFrontOf hb (.inr rfl))

theorem takesOut_closeUpAfter (inside : Bool) (p cs : List Char)
    (h : inside = true → p.getLast? = some '(') :
    ReflTransGen TakesOut (p ++ cs) (p ++ closeUpAfter inside cs) := by
  induction cs generalizing inside p with
  | nil => exact .refl
  | cons c cs ih =>
    unfold closeUpAfter
    split
    · next hblank =>
      obtain ⟨hinside, hc⟩ := Bool.and_eq_true_iff.mp hblank
      obtain ⟨p', rfl⟩ := List.getLast?_eq_some_iff.mp (h hinside)
      have hone : TakesOut (p' ++ '(' :: c :: cs) (p' ++ '(' :: cs) := .behind hc (.inl rfl)
      have hlater := ih true (p' ++ ['(']) fun _ => by simp
      simp only [List.append_assoc, List.singleton_append] at hlater ⊢
      exact .head hone hlater
    · have hlater := ih (c == '(') (p ++ [c]) fun hc => by simp [eq_of_beq hc]
      simpa using hlater

theorem takesOut_closeUpBefore (p cs : List Char) :
    ReflTransGen TakesOut (p ++ cs) (p ++ closeUpBefore cs) := by
  induction cs generalizing p with
  | nil => exact .refl
  | cons c cs ih =>
    have hlater := ih (p ++ [c])
    simp only [List.append_assoc, List.singleton_append] at hlater
    unfold closeUpBefore
    simp only
    split
    · next hblank =>
      obtain ⟨hc, hclose⟩ := Bool.and_eq_true_iff.mp hblank
      obtain ⟨r, hr⟩ := List.head?_eq_some_iff.mp (eq_of_beq hclose)
      rw [hr] at hlater ⊢
      exact .tail hlater (.inFrontOf hc (.inl rfl))
    · exact hlater

/-- A caret with blanks on both sides is found with the blanks around it. -/
theorem exists_of_spacedCaret? {rest : List Char} (h : spacedCaret? cs = some rest) :
    ∃ w v, cs = w ++ '^' :: (v ++ rest) ∧ (∀ b ∈ w, isBlank b = true) ∧ (∀ b ∈ v, isBlank b = true) ∧
      w ≠ [] ∧ v ≠ [] := by
  have happ := List.takeWhile_append_dropWhile (p := isBlank) (l := cs)
  have hw : ∀ b ∈ cs.takeWhile isBlank, isBlank b = true := List.all_eq_true.mp List.all_takeWhile
  unfold spacedCaret? at h
  split at h
  · next c cs' d rest' hd =>
    split at h
    · next hblank =>
      obtain ⟨hc, hblankd⟩ := Bool.and_eq_true_iff.mp hblank
      cases h
      rw [hd] at happ
      refine ⟨_, d :: rest'.takeWhile isBlank, ?_, hw, ?_, by simp [hc], List.cons_ne_nil _ _⟩
      · rw [List.cons_append, List.takeWhile_append_dropWhile, happ]
      · have hv : ∀ b ∈ rest'.takeWhile isBlank, isBlank b = true := List.all_eq_true.mp List.all_takeWhile
        exact List.forall_mem_cons.mpr ⟨hblankd, hv⟩
    · cases h
  · cases h

theorem closeUpCarets_of_eq_some {rest : List Char} (h : spacedCaret? cs = some rest) :
    closeUpCarets cs = '^' :: closeUpCarets rest := by
  rw [closeUpCarets]
  split
  · next h' =>
    rw [h] at h'
    cases h'
    rfl
  · next h' =>
    rw [h] at h'
    cases h'

theorem closeUpCarets_of_eq_none {c : Char} (h : spacedCaret? (c :: cs) = none) :
    closeUpCarets (c :: cs) = c :: closeUpCarets cs := by
  rw [closeUpCarets]
  split
  · next h' =>
    rw [h] at h'
    cases h'
  · rfl

theorem takesOut_closeUpCarets (p cs : List Char) :
    ReflTransGen TakesOut (p ++ cs) (p ++ closeUpCarets cs) := by
  induction cs using closeUpCarets.induct generalizing p with
  | case1 cs rest h ih =>
    obtain ⟨w, v, rfl, hw, hv, -, -⟩ := exists_of_spacedCaret? h
    have hlater := ih (p ++ ['^'])
    simp only [List.append_assoc, List.singleton_append] at hlater
    rw [closeUpCarets_of_eq_some h]
    exact ((takesOut_inFrontOf hw p _).trans (takesOut_behind hv p _)).trans hlater
  | case2 h =>
    rw [closeUpCarets]
    split
    · next h' => cases h'
    · exact .refl
  | case3 c cs h ih =>
    have hlater := ih (p ++ [c])
    simp only [List.append_assoc, List.singleton_append] at hlater
    rwa [closeUpCarets_of_eq_none h]

/-- Cleaning up takes out blanks one after the other. -/
theorem takesOut_untokenize (ts : List Token) :
    ReflTransGen TakesOut (spaced ts).toList (untokenize ts).toList := by
  rw [untokenize, String.toList_ofList]
  exact ((takesOut_closeUpAfter false [] _ nofun).trans (takesOut_closeUpBefore [] _)).trans
    (takesOut_closeUpCarets [] _)

/-! ## Runs of strays -/

theorem loses_refl (before : Option Token) (ts : List Token) : Loses before ts ts := by
  induction ts generalizing before with
  | nil => exact .done nofun (absurd rfl)
  | cons t ts ih =>
    have hnone : ∀ u ∈ ([] : List Token), IsStray u := nofun
    exact .keep hnone (absurd rfl) (ih (some t))

/-- The token in front of what is left when one more token is kept. -/
theorem getLast?_cons_or (t : Token) (q : List Token) (before : Option Token) :
    (t :: q).getLast?.or before = q.getLast?.or (some t) := by
  rw [List.getLast?_cons]
  cases q.getLast? <;> rfl

/-- One more stray that is lost goes on a run, or joins two. -/
theorem Loses.one {q r : List Token} {t : Token} (h : Loses before ts (q ++ t :: r)) (ht : IsStray t)
    (hbeside : Beside (q.getLast?.or before) r.head?) : Loses before ts (q ++ r) := by
  induction q generalizing before ts with
  | nil =>
    obtain _ | @⟨_, run, _, later, _, hrun, -, hlater⟩ := h
    have hjoined : ∀ {run' : List Token}, (∀ u ∈ run', IsStray u) → ∀ u ∈ run ++ t :: run', IsStray u :=
      fun hrun' => List.forall_mem_append.mpr ⟨hrun, List.forall_mem_cons.mpr ⟨ht, hrun'⟩⟩
    cases hlater with
    | done hrun' => exact .done (hjoined hrun') fun _ => hbeside
    | @keep _ run' u ts' us' hrun' _ hlater =>
      have hkeep : Loses before ((run ++ t :: run') ++ u :: ts') (u :: us') :=
        .keep (hjoined hrun') (fun _ => hbeside) hlater
      simpa using hkeep
  | cons x q ih =>
    obtain _ | @⟨_, run, _, later, _, hrun, hrunbeside, hlater⟩ := h
    exact .keep hrun hrunbeside (ih hlater (by rwa [getLast?_cons_or] at hbeside))

/-- Strays that are lost one after the other are lost in runs. -/
theorem loses_of_losesOne (h : ReflTransGen LosesOne ts us) : Loses none ts us := by
  induction h with
  | refl => exact loses_refl none ts
  | tail _ hone ih =>
    obtain @⟨q, t, r, ht, hbeside⟩ := hone
    exact ih.one ht (by simpa using hbeside)

/-- What is not lost keeps its order. -/
theorem Loses.sublist (h : Loses before ts us) : us.Sublist ts := by
  induction h with
  | done => exact List.nil_sublist _
  | @keep before run t ts us _ _ _ ih => exact (ih.cons_cons t).trans (List.sublist_append_right run _)

/-- Where there are no strays none is lost. -/
theorem Loses.eq_of_forall_not (h : Loses before ts us) (hts : ∀ t ∈ ts, ¬IsStray t) : us = ts := by
  have hnil : ∀ {run : List Token}, (∀ t ∈ run, IsStray t) → (∀ t ∈ run, ¬IsStray t) → run = [] :=
    fun hrun hnot => List.eq_nil_iff_forall_not_mem.mpr fun t ht => hnot t ht (hrun t ht)
  induction h with
  | done hrun => exact (hnil hrun hts).symm
  | keep hrun _ _ ih =>
    obtain ⟨hnot, hts⟩ := List.forall_mem_append.mp hts
    rw [hnil hrun hnot, ih fun t ht => hts t (List.mem_cons_of_mem _ ht)]
    rfl

/-! ## The tokens that are written down -/

/-- Lexemes with a space between each two are scanned one by one. -/
theorem scan_intercalate (ls : List (List Char)) (h : ∀ l ∈ ls, IsLexeme l) :
    scan ([' '].intercalate ls) = ls.map ofLexeme := by
  induction ls with
  | nil => exact scan_nil
  | cons l ls ih =>
    obtain ⟨hl, hls⟩ := List.forall_mem_cons.mp h
    cases ls with
    | nil =>
      have hends : EndsBefore l [] := nofun
      simpa [scan_nil] using scan_lexeme isGap_nil hl hends
    | cons l' ls =>
      have hspace : IsGap [' '] := List.forall_mem_singleton.mpr rfl
      have hends : EndsBefore l ([' '] ++ [' '].intercalate (l' :: ls)) :=
        endsBefore_of_head (by rintro c ⟨⟩; decide)
      rw [List.intercalate_cons_cons, List.append_assoc, List.map_cons, ← ih hls,
        ← scan_gap_append hspace ([' '].intercalate (l' :: ls))]
      exact scan_lexeme isGap_nil hl hends

/-- A token of a text is that of its lexeme. -/
theorem ofLexeme_lexeme_of_mem_scan {t : Token} (h : t ∈ scan cs) :
    IsLexeme t.lexeme.toList ∧ ofLexeme t.lexeme.toList = t := by
  obtain ⟨l, hl, rfl⟩ := exists_lexeme_of_mem_scan h
  rw [lexeme_ofLexeme hl, String.toList_ofList]
  exact ⟨hl, rfl⟩

/-- The tokens of a text are scanned again from their lexemes. -/
theorem scan_spaced (text : String) : scan (spaced (tokenize text)).toList = scan text.toList := by
  have hkept : (tokenize text).filter (·.kind != .endOfInput) = scan text.toList := by
    have hscan : (scan text.toList).filter (·.kind != .endOfInput) = scan text.toList :=
      List.filter_eq_self.mpr fun t ht => bne_iff_ne.mpr (kind_ne_of_mem_scan ht)
    rw [tokenize, List.filter_append, hscan]
    exact List.append_nil _
  have hlexemes : ∀ l ∈ (scan text.toList).map fun t => t.lexeme.toList, IsLexeme l := by
    intro l hl
    obtain ⟨t, ht, rfl⟩ := List.mem_map.mp hl
    exact (ofLexeme_lexeme_of_mem_scan ht).1
  unfold spaced
  rw [hkept, String.toList_intercalate, List.map_map]
  calc scan ([' '].intercalate ((scan text.toList).map fun t => t.lexeme.toList))
      = ((scan text.toList).map fun t => t.lexeme.toList).map ofLexeme := scan_intercalate _ hlexemes
    _ = (scan text.toList).map fun t => ofLexeme t.lexeme.toList := List.map_map
    _ = (scan text.toList).map id :=
      List.map_congr_left fun t ht => (ofLexeme_lexeme_of_mem_scan ht).2
    _ = scan text.toList := List.map_id _

/-- A text has no stray tokens if all its blanks separate tokens. -/
theorem not_isStray_of_mem_tokenize {text : String}
    (h : ∀ c ∈ text.toList, isBlank c = true → isSeparator c = true) : ∀ t ∈ tokenize text, ¬IsStray t := by
  rintro t ht ⟨c, hblank, hseparator, rfl⟩
  have hmem : c ∈ (tokenize text).flatMap fun t => t.lexeme.toList :=
    List.mem_flatMap.mpr ⟨_, ht, by simp⟩
  rw [tokenize, List.flatMap_append, lexemes_scan, List.mem_append] at hmem
  rcases hmem with hmem | hmem
  · rw [h c (List.mem_filter.mp hmem).1 hblank] at hseparator
    cases hseparator
  · exact absurd hmem List.not_mem_nil

/-- What is lost of the tokens of a text when they are written down and read again are strays. -/
theorem loses_untokenize (text : String) :
    Loses none (tokenize text) (tokenize (untokenize (tokenize text))) := by
  have hscan := losesOne_of_takesOut (takesOut_untokenize (tokenize text))
  rw [scan_spaced] at hscan
  exact loses_of_losesOne (hscan.lift (· ++ [endOfInput]) fun _ _ h => h.append [endOfInput])

/-- What is lost of the tokens of a text when they are written down and read again: nothing but runs of
strays that are beside parentheses and carets, so that nothing is lost of a text without strays. -/
theorem tokenize_untokenize (text : String) :
    let ts := tokenize text
    let us := tokenize (untokenize ts)
    Loses none ts us ∧ us.Sublist ts ∧ (∀ t, IsStray t → t.kind = .invalid) ∧
      ((∀ c ∈ text.toList, isBlank c = true → isSeparator c = true) → us = ts) := by
  intro ts us
  have hlost : Loses none ts us := loses_untokenize text
  exact ⟨hlost, hlost.sublist, fun t => kind_of_isStray,
    fun htext => hlost.eq_of_forall_not (not_isStray_of_mem_tokenize htext)⟩

/-- Nothing is lost of a text whose only blanks are spaces, while its spacing is. -/
theorem tokenize_untokenize_spaces :
    let text := "( 1+2 ) * 4 ^ 5"
    untokenize (tokenize text) = "(1 + 2) * 4^5" ∧
      tokenize (untokenize (tokenize text)) = tokenize text := by
  intro text
  have hall : text.toList.all (fun c => !isBlank c || isSeparator c) = true := by decide +kernel
  have hspaces : ∀ c ∈ text.toList, isBlank c = true → isSeparator c = true := by
    intro c hc hblank
    simpa [hblank] using List.all_eq_true.mp hall c hc
  exact ⟨by decide +kernel, (tokenize_untokenize text).2.2.2 hspaces⟩

end Calculator.Token
