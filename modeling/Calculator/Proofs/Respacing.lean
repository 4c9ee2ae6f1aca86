import Calculator.Proofs.Steps
import Calculator.Proofs.Tidying

/-!
# Reading a text that was written down again

When its tokens are written down, a text may lose stray tokens. An expression takes no stray, so what is
lost behind the token in front of which the reading stops does not matter, and nothing is lost in front of
it. There is a difference only where the reading stops at a stray that is lost. So a text that is read as a
whole is read as the same tree, while one that is not may come to be read: the stray in `(\r1)` is lost, and
`(1)` is an expression.

**Results.**
* `result_read_append`: what is read rests on the tokens that are taken and the one ahead.
* `Loses.result_read`: what is lost matters only where the reading stops at it.
* `parse_untokenize`: what a text that is written down again is read as.
* `not_forall_parse_untokenize`: it need not be what the text itself is read as.
-/
namespace Calculator

open Reader Token Grammar Text

variable {ts us rest : List Token} {before : Option Token} {text : String}

namespace Reader

/-! ## What a reading rests on -/

/-- What is taken is a sum with no operator ahead, or it stops at a token that cannot be next. -/
theorem spells_or_stops (hv : HasValues ts) :
    (∃ e, (sum .unlimited ts).result = .ok e ∧ Spells (.chain .sum) (sum .unlimited ts).taken e ∧
      (lookahead (sum .unlimited ts).rest).kind.tightness = 0) ∨
    ∃ missing, (sum .unlimited ts).result =
        .error (.unexpected missing (lookahead (sum .unlimited ts).rest)) ∧
      Stops (.chain .sum) (sum .unlimited ts).taken missing ∧
      Blocks missing (lookahead (sum .unlimited ts).rest).kind := by
  cases hsum : (sum .unlimited ts).result with
  | ok e =>
    obtain ⟨q, hq, hs, ht⟩ := sum_ok_iff.mp ⟨hsum, rfl⟩
    rw [Reading.taken_eq _ hq]
    exact .inl ⟨e, rfl, hs, ht⟩
  | error fault =>
    have hreads := reads_sum .unlimited ts
    rw [hsum] at hreads
    rcases stops_or_tooDeep_of_reads hreads with ⟨q, ahead, missing, hq, hs, href⟩ | ⟨-, hlimit⟩
    · cases href with
      | unexpected hb =>
        rw [Reading.taken_eq _ hq]
        exact .inr ⟨missing, rfl, hs, hb⟩
      | missingValue hk hnone =>
        exact absurd hnone (hv _ (hq ▸ List.mem_append_right q List.mem_cons_self) hk)
    · exact absurd rfl hlimit

/-- No stray is taken. -/
theorem kind_ne_invalid_of_mem_taken (hv : HasValues ts) :
    ∀ t ∈ (sum .unlimited ts).taken, t.kind ≠ .invalid := by
  rcases spells_or_stops hv with ⟨e, -, hs, -⟩ | ⟨missing, -, hs, -⟩
  · exact fun t ht => (kind_of_spells hs t ht).2
  · exact fun t ht => (kind_of_stops hs t ht).2

/-- The same tokens are taken in front of the same token, whatever comes behind it. -/
theorem sum_append (hv : HasValues ts) (h : lookahead rest = lookahead (sum .unlimited ts).rest) :
    (sum .unlimited ((sum .unlimited ts).taken ++ rest)).result = (sum .unlimited ts).result ∧
      (sum .unlimited ((sum .unlimited ts).taken ++ rest)).rest = rest := by
  rcases spells_or_stops hv with ⟨e, he, hs, ht⟩ | ⟨missing, hfault, hs, hb⟩
  · rw [he]
    exact sum_ok_iff.mpr ⟨_, rfl, hs, h ▸ ht⟩
  · rw [hfault, ← h]
    exact sum_eq_of_reads (reads_of_stops hs (h ▸ hb))

/-- What is read rests on the tokens that are taken and the one ahead. -/
theorem result_read_append (strict : Bool) (hv : HasValues ts)
    (h : lookahead rest = lookahead (sum .unlimited ts).rest) :
    (read strict .unlimited ((sum .unlimited ts).taken ++ rest)).result =
      (read strict .unlimited ts).result := by
  obtain ⟨hresult, hrest⟩ := sum_append hv h
  cases hsum : (sum .unlimited ts).result with
  | ok e =>
    rw [hsum] at hresult
    rw [read_of_sum_eq_ok strict hsum, read_of_sum_eq_ok strict hresult, hrest, h]
  | error fault =>
    rw [hsum] at hresult
    rw [read_of_sum_eq_error strict hsum, read_of_sum_eq_error strict hresult]

/-- If nothing may follow, a reading that stops at a stray has found the stray instead of what is missing. -/
theorem exists_read_eq_unexpected {stray : Token} (hv : HasValues ts) (hk : stray.kind = .invalid)
    (h : (sum .unlimited ts).rest = stray :: rest) :
    ∃ missing, (read true .unlimited ts).result = .error (.unexpected missing stray) := by
  rcases spells_or_stops hv with ⟨e, he, -, -⟩ | ⟨missing, hfault, -, -⟩
  · refine ⟨.endOfInput, ?_⟩
    rw [read_of_sum_eq_ok true he, h]
    simp [lookahead, hk]
  · rw [h] at hfault
    exact ⟨missing, read_of_sum_eq_error true hfault⟩

end Reader

namespace Token

/-! ## The first run -/

/-- Where tokens are lost there is a first run of them. -/
theorem Loses.eq_or_exists_run (h : Loses before ts us) :
    us = ts ∨ ∃ q run r later, ts = q ++ (run ++ r) ∧ us = q ++ later ∧ run ≠ [] ∧
      (∀ t ∈ run, IsStray t) ∧ Beside (q.getLast?.or before) r.head? := by
  induction h with
  | @done before run hrun hbeside =>
    rcases List.eq_nil_or_concat run with rfl | ⟨_, _, rfl⟩
    · exact .inl rfl
    · exact .inr ⟨[], _, [], [], by simp, rfl, by simp, hrun, hbeside (by simp)⟩
  | @keep before run t ts us hrun hbeside _ ih =>
    by_cases hnil : run = []
    · subst hnil
      refine ih.imp (congrArg (t :: ·)) ?_
      rintro ⟨q, run, r, later, rfl, rfl, hne, hstrays, hbeside⟩
      exact ⟨t :: q, run, r, later, rfl, rfl, hne, hstrays, by rwa [getLast?_cons_or]⟩
    · exact .inr ⟨[], run, t :: ts, t :: us, rfl, rfl, hnil, hrun, hbeside hnil⟩

/-- The reading of a sum from the tokens stops at a run of strays beside a parenthesis or caret. -/
def StopsAtStrays (ts : List Token) : Prop :=
  ∃ run later, run ≠ [] ∧ (∀ t ∈ run, IsStray t) ∧ (sum .unlimited ts).rest = run ++ later ∧
    Beside (sum .unlimited ts).taken.getLast? later.head?

/-- What is lost does not matter to a reading, unless it stops in front of the first run. -/
theorem Loses.result_read (h : Loses none ts us) (hv : HasValues ts) (strict : Bool) :
    (read strict .unlimited us).result = (read strict .unlimited ts).result ∨ StopsAtStrays ts := by
  rcases h.eq_or_exists_run with rfl | ⟨q, run, r, later, hts, rfl, hne, hstrays, hbeside⟩
  · exact .inl rfl
  have hsplit := (sum .unlimited ts).taken_append_rest.trans hts
  rcases List.append_eq_append_iff.mp hsplit with ⟨p, rfl, hrest⟩ | ⟨p, htaken, hrest⟩
  · cases p with
    | nil =>
      rw [List.append_nil, Option.or_none] at hbeside
      exact .inr ⟨run, r, hne, hstrays, hrest, hbeside⟩
    | cons t p =>
      -- the token ahead is kept, and with it what is read
      have hahead : lookahead (t :: p ++ later) = lookahead (sum .unlimited ts).rest := by
        rw [hrest]
        rfl
      rw [List.append_assoc]
      exact .inl (result_read_append strict hv hahead)
  · cases p with
    | nil =>
      rw [List.append_nil] at htaken
      rw [Option.or_none, ← htaken] at hbeside
      exact .inr ⟨run, r, hne, hstrays, hrest.symm, hbeside⟩
    | cons t p =>
      -- the first stray of the run would be taken
      obtain ⟨stray, run, rfl⟩ := List.exists_cons_of_ne_nil hne
      obtain ⟨rfl, -⟩ := List.cons.inj hrest
      have hkind := kind_of_isStray (hstrays stray List.mem_cons_self)
      have hmem : stray ∈ (sum .unlimited ts).taken :=
        htaken ▸ List.mem_append_right q List.mem_cons_self
      exact absurd hkind (kind_ne_invalid_of_mem_taken hv _ hmem)

end Token

/-! ## The text -/

/-- A text that is read as a whole has no strays. -/
theorem not_isStray_of_parse {e : Expr} (h : Expr.parse true .unlimited text = .ok e) :
    ∀ t ∈ tokenize text, ¬IsStray t := by
  intro t ht hstray
  rcases List.mem_append.mp ht with ht | ht
  · exact (kind_of_spells (parse_eq_ok_iff.mp h) t ht).2 (kind_of_isStray hstray)
  · cases List.mem_singleton.mp ht
    exact nomatch kind_of_isStray hstray

/-- A numeral in parentheses is read as its number in parentheses. -/
theorem parse_parenthesis {l : List Char}
    (h : scan text.toList = ofSymbol '(' :: ([ofNumeral l] ++ [ofSymbol ')'])) :
    Expr.parse true .unlimited text = .ok (.paren (.number (Double.ofNumeral l))) := by
  have hsum := spells_sum_of_primary (spells_numeral l)
  have hparen : Spells .primary (ofSymbol '(' :: ([ofNumeral l] ++ [ofSymbol ')']))
      (.paren (.number (Double.ofNumeral l))) := .paren rfl hsum rfl
  rw [parse_eq_ok_iff, h]
  exact spells_sum_of_primary hparen

/-- A text that is written down again is read as before, unless the reading stops at a run of strays beside
a parenthesis or caret, the first of which is then found instead of what is missing if nothing may follow. If
the text was read as a whole it is read as the same tree, and if all its blanks separate tokens it is read or
fails as before. -/
theorem parse_untokenize (strict : Bool) (text : String) :
    let again := untokenize (tokenize text)
    (Expr.parse strict .unlimited again = Expr.parse strict .unlimited text ∨
      StopsAtStrays (tokenize text)) ∧
      (StopsAtStrays (tokenize text) → ∃ missing stray, IsStray stray ∧
        Expr.parse true .unlimited text = .error (.unexpected missing stray)) ∧
      (∀ e, Expr.parse true .unlimited text = .ok e → Expr.parse true .unlimited again = .ok e) ∧
      ((∀ c ∈ text.toList, isBlank c = true → isSeparator c = true) →
        Expr.parse strict .unlimited again = Expr.parse strict .unlimited text) := by
  intro again
  have hlost := loses_untokenize text
  have hsame : ∀ strict, (∀ t ∈ tokenize text, ¬IsStray t) →
      Expr.parse strict .unlimited again = Expr.parse strict .unlimited text := by
    intro strict hnot
    show (read strict .unlimited (tokenize again)).result = _
    rw [show tokenize again = tokenize text from hlost.eq_of_forall_not hnot]
    rfl
  refine ⟨hlost.result_read (hasValues_tokenize text) strict, ?_, fun e he => ?_, fun hblanks => ?_⟩
  · rintro ⟨run, later, hne, hstrays, hrest, -⟩
    obtain ⟨stray, run, rfl⟩ := List.exists_cons_of_ne_nil hne
    have hstray := hstrays stray List.mem_cons_self
    obtain ⟨missing, hfault⟩ :=
      exists_read_eq_unexpected (hasValues_tokenize text) (kind_of_isStray hstray) hrest
    exact ⟨missing, stray, hstray, hfault⟩
  · rw [hsame true (not_isStray_of_parse he), he]
  · exact hsame strict (not_isStray_of_mem_tokenize hblanks)

/-- With its spaces in other places, a text is read as the same tree. -/
theorem parse_untokenize_spaces :
    let text := "( 1 )"
    let e : Expr := .paren (.number (Double.ofNumeral ['1']))
    Expr.parse true .unlimited text = .ok e ∧ untokenize (tokenize text) = "(1)" ∧
      Expr.parse true .unlimited "(1)" = .ok e := by
  intro text e
  have hparse : Expr.parse true .unlimited text = .ok e := parse_parenthesis (by decide +kernel)
  have hagain : untokenize (tokenize text) = "(1)" := by decide +kernel
  have h := (parse_untokenize true text).2.2.1 e hparse
  rw [hagain] at h
  exact ⟨hparse, hagain, h⟩

/-- A text that is not read may be read when it is written down again. -/
theorem not_forall_parse_untokenize :
    let text := "(\r1)"
    (∀ e, Expr.parse true .unlimited text ≠ .ok e) ∧ untokenize (tokenize text) = "(1)" ∧
      Expr.parse true .unlimited "(1)" = .ok (.paren (.number (Double.ofNumeral ['1']))) ∧
      ¬∀ (strict : Bool) (text : String),
        Expr.parse strict .unlimited (untokenize (tokenize text)) = Expr.parse strict .unlimited text := by
  intro text
  have hrejected : ∀ e, Expr.parse true .unlimited text ≠ .ok e := fun e =>
    parse_ne_ok_of_mem (c := '\r') rfl rfl (by decide) rfl (by decide)
  have hagain : untokenize (tokenize text) = "(1)" := by decide +kernel
  have haccepted : Expr.parse true .unlimited "(1)" = .ok (.paren (.number (Double.ofNumeral ['1']))) :=
    parse_parenthesis (by decide +kernel)
  refine ⟨hrejected, hagain, haccepted, fun h => ?_⟩
  have hsame := h true text
  rw [hagain, haccepted] at hsame
  exact hrejected _ hsame.symm

end Calculator
