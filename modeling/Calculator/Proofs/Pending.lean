import Calculator.Proofs.Texts

/-!
# What a cursor has yet to take

What is pending for a cursor is the character ahead and what its source holds from the position on; at the
end nothing is, wherever the source stands. Taking characters one by one, as the cursor does, is dropping
them from the front of what is pending, so that the next token is the first one of a text that is scanned
as a whole, and the source moves by one for every character that is taken, until it is at its end.

**Results.**
* `source_skip`: the source moves by one for every character, but not past its end.
* `takes_next`: the next token is the first one of what is pending, and what follows it is left.
* `next_after`: call after call, the tokens are those of what is pending, and then ends of input.
* `IsAlone.exists_text_eq`: behind a token the source stands one character further, but not past its end.
-/
namespace Calculator

/-- The characters of a source from its position on. -/
def Source.remaining (s : Source) : List Char := s.text.toList.drop s.position

namespace Source

theorem length_remaining (s : Source) : s.remaining.length = s.left := by
  simp [remaining, left]

theorem next_of_remaining_nil {s : Source} (h : s.remaining = []) : s.next = (none, s) := by
  have hend : s.text.size ≤ s.position := by simpa [remaining] using h
  unfold next
  rw [Array.getElem?_eq_none hend]

/-- A character is read from the front of what remains. -/
theorem next_of_remaining_cons {s : Source} {x : Char} {rest : List Char} (h : s.remaining = x :: rest) :
    s.next = (some x, s.seek (s.position + 1)) ∧ (s.seek (s.position + 1)).remaining = rest := by
  have hlt : s.position < s.text.toList.length := by
    refine Nat.lt_of_not_le fun hle => ?_
    rw [remaining, List.drop_eq_nil_of_le hle] at h
    cases h
  rw [remaining, List.drop_eq_getElem_cons hlt] at h
  obtain ⟨hx, hrest⟩ := List.cons_eq_cons.mp h
  have hget : s.text[s.position]? = some x := by
    rw [← hx]
    exact Array.getElem?_eq_getElem hlt
  unfold next
  rw [hget]
  exact ⟨rfl, hrest⟩

end Source

namespace Token.Cursor

/-- The characters that a cursor has yet to take. -/
def pending (c : Cursor) : List Char :=
  match c.ahead with
  | some x => x :: c.source.remaining
  | none => []

/-- The cursor behind the next `n` characters. -/
def skip : Nat → Cursor → Cursor
  | 0, c => c
  | n + 1, c => skip n c.step

/-! ## One character -/

theorem head?_pending (c : Cursor) : c.pending.head? = c.ahead := by
  unfold pending
  cases c.ahead <;> rfl

theorem pending_eq_nil_iff {c : Cursor} : c.pending = [] ↔ c.ahead = none := by
  rw [← head?_pending, List.head?_eq_none_iff]

/-- All that a source holds from its position on is pending for a new cursor. -/
theorem pending_start (s : Source) : (start s).pending = s.remaining := by
  unfold start
  cases h : s.remaining with
  | nil =>
    rw [Source.next_of_remaining_nil h]
    rfl
  | cons x rest =>
    obtain ⟨hnext, hrest⟩ := Source.next_of_remaining_cons h
    rw [hnext]
    exact congrArg (x :: ·) hrest

/-- A new cursor reads one character, if there is one. -/
theorem source_start (s : Source) : (start s).source = s.seek (s.position + min 1 s.left) := by
  have hlength := s.length_remaining
  unfold start
  cases h : s.remaining with
  | nil =>
    rw [h, List.length_nil] at hlength
    rw [Source.next_of_remaining_nil h, ← hlength]
    rfl
  | cons x rest =>
    rw [h, List.length_cons] at hlength
    have hone : min 1 s.left = 1 := by omega
    rw [(Source.next_of_remaining_cons h).1, hone]

/-- The character ahead is the first one that is pending, and is dropped by a step. -/
theorem pending_of_ahead {c : Cursor} {x : Char} (h : c.ahead = some x) :
    c.pending = x :: c.step.pending := by
  unfold pending step
  rw [h]
  exact congrArg (x :: ·) (pending_start c.source).symm

theorem pending_step (c : Cursor) : c.step.pending = c.pending.tail := by
  cases h : c.ahead with
  | none =>
    unfold step
    rw [h, pending_eq_nil_iff.mpr h]
    rfl
  | some x => rw [pending_of_ahead h, List.tail_cons]

/-- Taking a character reads another one, if there is one. -/
theorem source_step {c : Cursor} (h : c.pending ≠ []) :
    c.step.source = c.source.seek (c.source.position + min 1 c.source.left) := by
  unfold step
  cases hahead : c.ahead with
  | none => exact absurd (pending_eq_nil_iff.mpr hahead) h
  | some x => exact source_start c.source

/-! ## Several characters -/

theorem pending_skip (n : Nat) (c : Cursor) : (c.skip n).pending = c.pending.drop n := by
  induction n generalizing c with
  | zero => rfl
  | succ n ih => rw [skip, ih, pending_step, List.drop_tail]

theorem skip_add (m n : Nat) (c : Cursor) : c.skip (m + n) = (c.skip m).skip n := by
  induction m generalizing c with
  | zero => rw [Nat.zero_add]; rfl
  | succ m ih => rw [Nat.add_right_comm, skip, ih, skip]

/-- The source moves by one for every character that is taken, but not past its end. -/
theorem source_skip {n : Nat} {c : Cursor} (h : n ≤ c.pending.length) :
    (c.skip n).source = c.source.seek (c.source.position + min n c.source.left) := by
  induction n generalizing c with
  | zero => rw [Nat.zero_min]; rfl
  | succ n ih =>
    have hne : c.pending ≠ [] := List.ne_nil_of_length_pos (Nat.lt_of_lt_of_le n.succ_pos h)
    have hle : n ≤ c.step.pending.length := by
      rw [pending_step, List.length_tail]
      omega
    have hposition : c.source.position + min 1 c.source.left +
        min n (c.source.text.size - (c.source.position + min 1 c.source.left)) =
          c.source.position + min (n + 1) c.source.left := by
      unfold Source.left
      omega
    rw [skip, ih hle, source_step hne]
    exact congrArg c.source.seek hposition

/-! ## Tokens -/

/-- The characters that satisfy `p` are taken from the front of what is pending. -/
theorem takeWhile_eq (p : Char → Bool) (c : Cursor) :
    c.takeWhile p = (c.pending.takeWhile p, c.skip (c.pending.takeWhile p).length) := by
  fun_induction takeWhile p c with
  | case1 c x hx hp xs c' heq ih =>
    rw [heq] at ih
    obtain ⟨rfl, rfl⟩ := Prod.mk.inj ih
    rw [pending_of_ahead hx, List.takeWhile_cons_of_pos hp]
    rfl
  | case2 c x hx hp =>
    rw [pending_of_ahead hx, List.takeWhile_cons_of_neg hp]
    rfl
  | case3 c hnone =>
    rw [pending_eq_nil_iff.mpr hnone]
    rfl

/-- What is pending behind the characters that satisfy `p`. -/
theorem pending_takeWhile (p : Char → Bool) (c : Cursor) :
    (c.takeWhile p).2.pending = c.pending.dropWhile p := by
  have happ := List.takeWhile_append_dropWhile (p := p) (l := c.pending)
  rw [takeWhile_eq, pending_skip]
  exact (congrArg (List.drop _) happ.symm).trans List.drop_left

/-- A numeral is taken as from a text. -/
theorem numeral_eq (c : Cursor) :
    c.numeral = ((Token.numeral c.pending).1, c.skip (Token.numeral c.pending).1.length) := by
  have hdrop := pending_takeWhile Char.isDigit c
  have hahead := head?_pending (c.takeWhile Char.isDigit).2
  rw [hdrop] at hahead
  unfold numeral Token.numeral
  simp only
  rw [← hahead]
  split
  · next hpoint =>
    obtain ⟨rest, hrest⟩ := List.head?_eq_some_iff.mp hpoint
    have hbehind : (c.takeWhile Char.isDigit).2.step.pending = rest := by
      rw [pending_step, hdrop, hrest, List.tail_cons]
    rw [takeWhile_eq Char.isDigit (Cursor.step _), hbehind, hrest, takeWhile_eq]
    simp only [List.length_append, List.length_cons]
    rw [skip_add]
    rfl
  · next hpoint =>
    split
    · next rest hrest =>
      rw [hrest] at hpoint
      exact absurd rfl hpoint
    · exact takeWhile_eq Char.isDigit c

/-- The next token is the first one of what is pending. -/
theorem next_of_next?_eq_some {c : Cursor} {t : Token} {rest : List Char}
    (h : next? c.pending = some (t, rest)) : c.next = (t, c.skip (c.pending.length - rest.length)) := by
  have hdrop := pending_takeWhile isSeparator c
  have hahead := head?_pending (c.takeWhile isSeparator).2
  have happ := congrArg List.length (List.takeWhile_append_dropWhile (p := isSeparator) (l := c.pending))
  rw [hdrop] at hahead
  rw [List.length_append] at happ
  unfold next? at h
  unfold next
  simp only
  rw [← hahead]
  split at h
  · cases h
  · next x rest' hrest =>
    rw [hrest] at hdrop happ
    rw [hrest]
    simp only [List.head?_cons]
    split at h
    · next hd =>
      cases h
      have hnumeral := congrArg List.length (numeral_append (x :: rest'))
      rw [List.length_append] at hnumeral
      have hlength : c.pending.length - (Token.numeral (x :: rest')).2.length =
          (c.pending.takeWhile isSeparator).length + (Token.numeral (x :: rest')).1.length := by omega
      rw [if_pos hd, numeral_eq, hdrop, hlength, skip_add, takeWhile_eq]
    · next hd =>
      cases h
      have hlength : c.pending.length - rest.length = (c.pending.takeWhile isSeparator).length + 1 := by
        rw [List.length_cons] at happ
        omega
      rw [if_neg hd, hlength, skip_add, takeWhile_eq]
      rfl

/-- If no token is pending, the end of input is next, and the source is at its end. -/
theorem next_of_next?_eq_none {c : Cursor} (h : next? c.pending = none) :
    c.next = (endOfInput, c.skip c.pending.length) := by
  have hspan : (c.pending ++ []).takeWhile isSeparator = c.pending ∧
      (c.pending ++ []).dropWhile isSeparator = [] := span_eq (isGap_of_next? h) nofun
  rw [List.append_nil] at hspan
  have hdrop := pending_takeWhile isSeparator c
  have hahead := head?_pending (c.takeWhile isSeparator).2
  rw [hdrop, hspan.2] at hahead
  unfold next
  simp only
  rw [← hahead, takeWhile_eq, hspan.1]
  rfl

/-! ## Calls -/

/-- The tokens of what is pending. -/
def tokens (c : Cursor) : List Token := tokenize (String.ofList c.pending)

theorem tokens_eq (c : Cursor) : c.tokens = scan c.pending ++ [endOfInput] := by
  rw [tokens, tokenize, String.toList_ofList]

/-- A call takes the token from the cursor and leaves the other one. -/
structure Takes (c : Cursor) (t : Token) (c' : Cursor) : Prop where
  /-- The token is the first one of what is pending; behind it come those of what is left. -/
  tokens_eq : c.tokens = t :: if t.kind = .endOfInput then [] else c'.tokens
  /-- Separators and the lexeme are taken, and what follows is left. -/
  pending_eq : ∃ w, IsGap w ∧ c.pending = w ++ (t.lexeme.toList ++ c'.pending)
  /-- Behind the end of input nothing is left. -/
  at_end : t.kind = .endOfInput → c'.ahead = none
  /-- The source has moved by one for every character that was taken, but not past its end. -/
  source_eq : c'.source = c.source.seek
    (c.source.position + min (c.pending.length - c'.pending.length) c.source.left)

/-- The next token is the first one of what is pending, and what follows it is left. -/
theorem takes_next (c : Cursor) : c.Takes c.next.1 c.next.2 := by
  cases h : next? c.pending with
  | none =>
    have hpending : (c.skip c.pending.length).pending = [] := by rw [pending_skip, List.drop_length]
    rw [next_of_next?_eq_none h]
    refine ⟨?_, ⟨c.pending, isGap_of_next? h, ?_⟩, fun _ => pending_eq_nil_iff.mp hpending, ?_⟩
    · rw [tokens_eq, scan_of_next?_eq_none h]
      rfl
    · rw [hpending]
      exact (List.append_nil _).symm
    · rw [hpending]
      exact source_skip (Nat.le_refl _)
  | some p =>
    obtain ⟨t, rest⟩ := p
    obtain ⟨w, l, hsplit, hw, hl, -, rfl⟩ := next?_eq_some_iff.mp h
    have hlength : c.pending.length - rest.length = (w ++ l).length := by
      rw [hsplit]
      simp only [List.length_append]
      omega
    have hpending : (c.skip (w ++ l).length).pending = rest := by
      rw [pending_skip, hsplit, ← List.append_assoc, List.drop_left]
    have hkind := kind_ofLexeme_ne hl
    rw [next_of_next?_eq_some h, hlength]
    refine ⟨?_, ⟨w, hw, ?_⟩, fun hend => absurd hend hkind, ?_⟩
    · rw [if_neg hkind, tokens_eq, tokens_eq, hpending, scan_of_next?_eq_some h]
      rfl
    · rw [hpending, lexeme_ofLexeme hl, String.toList_ofList, hsplit]
    · rw [hpending, hlength]
      exact source_skip (by rw [← hlength]; exact Nat.sub_le _ _)

/-- Only one token can be taken. -/
theorem Takes.token_eq {c c' : Cursor} {t : Token} (h : c.Takes t c') : t = c.next.1 :=
  (List.cons.inj (h.tokens_eq.symm.trans (takes_next c).tokens_eq)).1

/-- At the end nothing is taken any more, wherever the source stands. -/
theorem next_of_ahead_eq_none {c : Cursor} (h : c.ahead = none) : c.next = (endOfInput, c) := by
  have hnil := pending_eq_nil_iff.mpr h
  rw [next_of_next?_eq_none (by rw [hnil]; rfl), hnil]
  rfl

/-- The cursor after `k` calls. -/
def after : Nat → Cursor → Cursor
  | 0, c => c
  | k + 1, c => after k c.next.2

/-- Call after call, the tokens are those of what is pending, and then ends of input. -/
theorem next_after (k : Nat) (c : Cursor) : (c.after k).next.1 = c.tokens[k]?.getD endOfInput := by
  induction k generalizing c with
  | zero =>
    rw [(takes_next c).tokens_eq]
    rfl
  | succ k ih =>
    rw [after, ih, (takes_next c).tokens_eq, List.getElem?_cons_succ]
    by_cases hend : c.next.1.kind = .endOfInput
    · -- nothing but ends of input is left
      have hnil := pending_eq_nil_iff.mpr ((takes_next c).at_end hend)
      rw [if_pos hend, tokens_eq, hnil, scan_nil]
      cases k <;> rfl
    · rw [if_neg hend]

/-- The tokens of a cursor up to the end of input are those of what is pending. -/
theorem map_fst_trace (c : Cursor) : c.trace.map Prod.fst = c.tokens := by
  fun_induction trace c with
  | case1 c hend =>
    rw [(takes_next c).tokens_eq, if_pos hend]
    rfl
  | case2 c hend ih => rw [List.map_cons, ih, (takes_next c).tokens_eq, if_neg hend]

/-! ## Alone on a source -/

/-- The source stands one character behind the one ahead, or at its end. -/
structure IsAlone (c : Cursor) : Prop where
  isSuffix : c.pending <:+ c.source.text.toList
  position_eq : c.source.position =
    min c.source.text.size (c.source.text.size - c.pending.length + 1)

theorem isAlone_start {s : Source} (h : s.position ≤ s.text.size) : (start s).IsAlone := by
  have hlength := s.length_remaining
  have hposition : s.position + min 1 s.left = min s.text.size (s.text.size - s.remaining.length + 1) := by
    unfold Source.left at *
    omega
  constructor
  · rw [pending_start, source_start]
    exact List.drop_suffix _ _
  · rw [pending_start, source_start]
    exact hposition

/-- Nobody else having moved the source, a call leaves it one character behind the token. -/
theorem IsAlone.next {c : Cursor} (h : c.IsAlone) : c.next.2.IsAlone := by
  obtain ⟨w, -, hpending⟩ := (takes_next c).pending_eq
  have hsource := (takes_next c).source_eq
  have hle := h.isSuffix.length_le
  have hsuffix : c.next.2.pending <:+ c.pending := by
    rw [hpending, ← List.append_assoc]
    exact List.suffix_append _ _
  have hposition := h.position_eq
  have hless := hsuffix.length_le
  have hsize : c.source.text.toList.length = c.source.text.size := Array.length_toList
  constructor
  · rw [hsource]
    exact hsuffix.trans h.isSuffix
  · rw [hsource]
    simp only [Source.seek]
    unfold Source.left
    omega

theorem IsAlone.after {c : Cursor} (h : c.IsAlone) (k : Nat) : (c.after k).IsAlone := by
  induction k generalizing c with
  | zero => exact h
  | succ k ih => exact ih h.next

/-- Behind a token the source stands one character further, or at its end. -/
theorem IsAlone.exists_text_eq {c : Cursor} (h : c.IsAlone) :
    ∃ before, c.source.text.toList = before ++ (c.next.1.lexeme.toList ++ c.next.2.pending) ∧
      c.next.2.source.position =
        min c.source.text.size ((before ++ c.next.1.lexeme.toList).length + 1) := by
  obtain ⟨w, -, hpending⟩ := (takes_next c).pending_eq
  obtain ⟨u, hu⟩ := h.isSuffix
  have htext : c.next.2.source.text = c.source.text := by rw [(takes_next c).source_eq]; rfl
  have hposition := h.next.position_eq
  rw [hpending, ← List.append_assoc] at hu
  have hlength := congrArg List.length hu
  have hsize : c.source.text.toList.length = c.source.text.size := Array.length_toList
  refine ⟨u ++ w, hu.symm, ?_⟩
  rw [hposition, htext]
  simp only [List.length_append] at hlength ⊢
  omega

end Token.Cursor
end Calculator
