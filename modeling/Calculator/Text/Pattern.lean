/-!
# Patterns

A pattern is a list of pieces, each of which stands for one character of a class or for any number of them
in a row. It occurs in a text if some part of the text is made up of such characters in this order.

Whether a text begins with a pattern is defined piece by piece. To look for a pattern, the text is gone
through once from its end, and at each place it is noted for every end of the pattern whether the text
begins with it there.

**Results.**
* `row_eq`: what is noted at a place are the ends of the pattern that the text begins with.
* `occursIn_iff`: a pattern occurs in a text if some end of the text begins with it.
* `occursIn_iff_infix`: that is to say, if some part of the text is made up as the pattern says.
-/
namespace Calculator.Text

/-- A piece of a pattern. -/
inductive Piece where
  /-- One character of the class. -/
  | one (p : Char → Bool)
  /-- Any number of characters of the class, none included. -/
  | many (p : Char → Bool)

/-- Any number of characters of the class, at least one. -/
def Piece.some (p : Char → Bool) : List Piece := [.one p, .many p]

/-- Whether the text begins with the pattern. -/
def matchesAt : List Piece → List Char → Bool
  | [], _ => true
  | .one _ :: _, [] => false
  | .one p :: pieces, c :: cs => p c && matchesAt pieces cs
  | .many _ :: pieces, [] => matchesAt pieces []
  | .many p :: pieces, c :: cs =>
    matchesAt pieces (c :: cs) || (p c && matchesAt (.many p :: pieces) cs)
termination_by pieces cs => (pieces.length, cs.length)

/-- The ends of a list, the whole list first. -/
def ends {α : Type} : List α → List (List α)
  | [] => [[]]
  | a :: as => (a :: as) :: ends as

/-- The row at the end of a text: an end of the pattern matches there if no character is needed. -/
def lastRow : List Piece → List Bool
  | [] => [true]
  | .one _ :: pieces => false :: lastRow pieces
  | .many _ :: pieces => (lastRow pieces).headD false :: lastRow pieces

/-- The row in front of a character, from the row behind it. -/
def rowBefore (c : Char) : List Piece → List Bool → List Bool
  | [], _ => [true]
  | .one p :: pieces, row =>
    (p c && row.tail.headD false) :: rowBefore c pieces row.tail
  | .many p :: pieces, row =>
    let later := rowBefore c pieces row.tail
    (later.headD false || (p c && row.headD false)) :: later

/-- For each end of the pattern, whether the text begins with it. -/
def row (pieces : List Piece) (cs : List Char) : List Bool :=
  cs.foldr (fun c row => rowBefore c pieces row) (lastRow pieces)

/-- Whether the pattern occurs in the text, and the row at the beginning of the text. -/
def search (pieces : List Piece) (cs : List Char) : Bool × List Bool :=
  cs.foldr
    (fun c found =>
      let row := rowBefore c pieces found.2
      (found.1 || row.headD false, row))
    ((lastRow pieces).headD false, lastRow pieces)

/-- Whether the pattern occurs in the text. -/
def occursIn (pieces : List Piece) (cs : List Char) : Bool := (search pieces cs).1

/-! ## Rows -/

theorem matchesAt_nil (cs : List Char) : matchesAt [] cs = true := by simp [matchesAt]

theorem headD_map_ends {α : Type} (f : List α → Bool) (as : List α) :
    ((ends as).map f).headD false = f as := by
  cases as <;> rfl

theorem lastRow_eq (pieces : List Piece) :
    lastRow pieces = (ends pieces).map fun rest => matchesAt rest [] := by
  induction pieces with
  | nil => simp [lastRow, ends, matchesAt]
  | cons piece pieces ih =>
    cases piece with
    | one p => simp [lastRow, ends, matchesAt, ih]
    | many p =>
      rw [lastRow, ih, headD_map_ends]
      simp [ends, matchesAt]

theorem rowBefore_eq (c : Char) (pieces : List Piece) (cs : List Char) :
    rowBefore c pieces ((ends pieces).map fun rest => matchesAt rest cs) =
      (ends pieces).map fun rest => matchesAt rest (c :: cs) := by
  induction pieces with
  | nil => simp [rowBefore, ends, matchesAt]
  | cons piece pieces ih =>
    cases piece with
    | one p =>
      rw [ends, List.map_cons, rowBefore, List.tail_cons, ih, headD_map_ends]
      simp [matchesAt]
    | many p =>
      rw [ends, List.map_cons, rowBefore, List.tail_cons, ih, headD_map_ends]
      simp [matchesAt]

/-- What is noted at a place are the ends of the pattern that the text begins with. -/
theorem row_eq (pieces : List Piece) (cs : List Char) :
    row pieces cs = (ends pieces).map fun rest => matchesAt rest cs := by
  induction cs with
  | nil => exact lastRow_eq pieces
  | cons c cs ih =>
    rw [← rowBefore_eq, ← ih]
    rfl

theorem search_snd (pieces : List Piece) (cs : List Char) : (search pieces cs).2 = row pieces cs := by
  induction cs with
  | nil => rfl
  | cons c cs ih =>
    show rowBefore c pieces (search pieces cs).2 = rowBefore c pieces (row pieces cs)
    rw [ih]

theorem headD_row (pieces : List Piece) (cs : List Char) :
    (row pieces cs).headD false = matchesAt pieces cs := by
  rw [row_eq, headD_map_ends]

theorem occursIn_nil (pieces : List Piece) : occursIn pieces [] = matchesAt pieces [] :=
  headD_row pieces []

theorem occursIn_cons (pieces : List Piece) (c : Char) (cs : List Char) :
    occursIn pieces (c :: cs) = (occursIn pieces cs || matchesAt pieces (c :: cs)) := by
  rw [← headD_row]
  show (_ || (rowBefore c pieces (search pieces cs).2).headD false) = _
  rw [search_snd]
  rfl

/-- A pattern occurs in a text if some end of the text begins with it. -/
theorem occursIn_iff {pieces : List Piece} {cs : List Char} :
    occursIn pieces cs = true ↔ ∃ rest, rest <:+ cs ∧ matchesAt pieces rest = true := by
  induction cs with
  | nil => simp [occursIn_nil]
  | cons c cs ih => simp [occursIn_cons, ih, List.suffix_cons_iff, or_and_right, exists_or, or_comm]

/-! ## Texts made up as a pattern says -/

/-- The text is made up of one character of the class for each piece that stands for one, and of any number of
them for each of the others. -/
inductive IsMadeUp : List Piece → List Char → Prop where
  | nil : IsMadeUp [] []
  | one {p c pieces v} : p c = true → IsMadeUp pieces v → IsMadeUp (.one p :: pieces) (c :: v)
  | many {p run pieces v} : (∀ c ∈ run, p c = true) → IsMadeUp pieces v → IsMadeUp (.many p :: pieces) (run ++ v)

theorem matchesAt_many_append {p : Char → Bool} {run : List Char} (h : ∀ c ∈ run, p c = true)
    {pieces : List Piece} {rest : List Char} (hrest : matchesAt pieces rest = true) :
    matchesAt (.many p :: pieces) (run ++ rest) = true := by
  induction run with
  | nil => cases rest <;> simp [matchesAt, hrest]
  | cons c run ih =>
    obtain ⟨hc, hrun⟩ := List.forall_mem_cons.mp h
    simp [matchesAt, hc, ih hrun]

/-- A text begins with a pattern if its front is made up as the pattern says. -/
theorem matchesAt_iff {pieces : List Piece} {cs : List Char} :
    matchesAt pieces cs = true ↔ ∃ v rest, cs = v ++ rest ∧ IsMadeUp pieces v := by
  constructor
  · intro h
    induction pieces, cs using matchesAt.induct with
    | case1 cs => exact ⟨[], cs, rfl, .nil⟩
    | case2 p pieces => simp [matchesAt] at h
    | case3 p pieces c cs ih =>
      obtain ⟨hc, hcs⟩ : p c = true ∧ matchesAt pieces cs = true := by simpa [matchesAt] using h
      obtain ⟨v, rest, rfl, hv⟩ := ih hcs
      exact ⟨c :: v, rest, rfl, .one hc hv⟩
    | case4 p pieces ih =>
      obtain ⟨v, rest, hnil, hv⟩ := ih (by simpa [matchesAt] using h)
      exact ⟨v, rest, hnil, .many (List.forall_mem_nil _) hv⟩
    | case5 p pieces c cs ih ihm =>
      have hcases : matchesAt pieces (c :: cs) = true ∨ p c = true ∧ matchesAt (.many p :: pieces) cs = true := by
        simpa [matchesAt] using h
      rcases hcases with hnone | ⟨hc, hcs⟩
      · obtain ⟨v, rest, hsplit, hv⟩ := ih hnone
        exact ⟨v, rest, hsplit, .many (List.forall_mem_nil _) hv⟩
      · obtain ⟨v, rest, rfl, hv⟩ := ihm hcs
        cases hv with
        | @many _ run _ v hrun hv =>
          exact ⟨c :: (run ++ v), rest, rfl, .many (List.forall_mem_cons.mpr ⟨hc, hrun⟩) hv⟩
  · rintro ⟨v, rest, rfl, hv⟩
    induction hv with
    | nil => exact matchesAt_nil _
    | one hc _ ih => simp [matchesAt, hc, ih]
    | many hrun _ ih =>
      rw [List.append_assoc]
      exact matchesAt_many_append hrun ih

/-- A pattern occurs in a text if some part of the text is made up as the pattern says. -/
theorem occursIn_iff_infix {pieces : List Piece} {cs : List Char} :
    occursIn pieces cs = true ↔ ∃ v, v <:+: cs ∧ IsMadeUp pieces v := by
  rw [occursIn_iff]
  constructor
  · rintro ⟨_, ⟨before, rfl⟩, hmatch⟩
    obtain ⟨v, rest, rfl, hv⟩ := matchesAt_iff.mp hmatch
    exact ⟨v, ⟨before, rest, List.append_assoc ..⟩, hv⟩
  · rintro ⟨v, ⟨before, rest, rfl⟩, hv⟩
    exact ⟨v ++ rest, ⟨before, (List.append_assoc ..).symm⟩, matchesAt_iff.mpr ⟨v, rest, rfl, hv⟩⟩

end Calculator.Text
