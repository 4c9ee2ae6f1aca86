import Calculator.Proofs.Pending
import Calculator.Workbench

/-!
# Scanners that share a source

Whoever shares a source can read from it, set its position, put a further scanner on it, or take a token
from any scanner that is on it. All of this moves the one position, but what a scanner has read ahead is
changed by its own calls only. So whatever was done before, a call takes the first token of what is pending
for the scanner, and a scanner that has met the end stays there.

**Results.**
* `cursor?_move`: only its own calls change what a scanner has read ahead.
* `move_of_atEnd`: a scanner at the end gives ends of input, and moves nothing.
* `scanners_take_pending`: after any moves a call takes the first token of what is pending; a scanner whose
  source nobody else moves takes the tokens of the text from where it was put on.
-/
namespace Calculator.Workbench

open Token

/-- Takes a token from one of the scanners. -/
def takeToken (w : Workbench) (scanner : Nat) : Answer × Workbench :=
  match w.cursor? scanner with
  | none => (.unavailable, w)
  | some cursor => (.token cursor.next.1, w.withCursor scanner cursor.next.2)

/-- What can be done with a shared source. -/
inductive Move where
  /-- Reads up to `n` characters from the source. -/
  | read (n : Nat)
  /-- Sets the position of the source. -/
  | seek (position : Nat)
  /-- Puts a new scanner on the source. -/
  | scanner
  /-- Takes a token from a scanner. -/
  | token (scanner : Nat)
  deriving DecidableEq, Repr

/-- Makes a move. -/
def move (w : Workbench) : Move → Answer × Workbench
  | .read n => w.carryOut .unlimited (.read n)
  | .seek position => w.carryOut .unlimited (.seek position)
  | .scanner => w.carryOut .unlimited .scanner
  | .token scanner => w.takeToken scanner

/-- The workbench after all of the moves. -/
def afterMoves (w : Workbench) (moves : List Move) : Workbench :=
  moves.foldl (fun w m => (w.move m).2) w

variable {w : Workbench} {i j : Nat} {c : Cursor}

/-- A request for a token is a call of the newest scanner. -/
theorem carryOut_token (b : Budget) (w : Workbench) : w.carryOut b .token = w.takeToken w.newest := by
  unfold carryOut takeToken
  cases w.cursor? w.newest <;> rfl

/-! ## Scanners -/

theorem cursor?_eq_some_iff : w.cursor? i = some c ↔ w.scanners[i]? = some c.ahead ∧ w.source = c.source := by
  obtain ⟨ahead, source⟩ := c
  constructor
  · intro h
    obtain ⟨a, ha, hc⟩ := Option.map_eq_some_iff.mp h
    cases hc
    exact ⟨ha, rfl⟩
  · rintro ⟨ha, hsource⟩
    exact Option.map_eq_some_iff.mpr ⟨ahead, ha, by rw [hsource]⟩

/-- A scanner that has moved is found where it was. -/
theorem cursor?_withCursor (h : w.cursor? i = some c) (j : Nat) (c' : Cursor) :
    (w.withCursor j c').cursor? i = some ⟨if j = i then c'.ahead else c.ahead, c'.source⟩ := by
  obtain ⟨hahead, -⟩ := cursor?_eq_some_iff.mp h
  have hlt := (Array.getElem?_eq_some_iff.mp hahead).1
  refine cursor?_eq_some_iff.mpr ⟨?_, rfl⟩
  simp only [withCursor, Array.getElem?_setIfInBounds]
  split
  · rw [if_pos (by omega)]
  · exact hahead

/-- A scanner that has not moved leaves everything as it was. -/
theorem withCursor_self (h : w.cursor? i = some c) : w.withCursor i c = w := by
  obtain ⟨hahead, hsource⟩ := cursor?_eq_some_iff.mp h
  have hlt := (Array.getElem?_eq_some_iff.mp hahead).1
  have hscanners : w.scanners.setIfInBounds i c.ahead = w.scanners := by
    refine Array.ext_getElem? fun j => ?_
    by_cases hij : i = j
    · rw [← hij, Array.getElem?_setIfInBounds_self_of_lt hlt, hahead]
    · exact Array.getElem?_setIfInBounds_ne hij
  unfold withCursor
  rw [hscanners, ← hsource]

theorem takeToken_of_none (h : w.cursor? i = none) : w.takeToken i = (.unavailable, w) := by
  unfold takeToken
  rw [h]

theorem takeToken_eq (h : w.cursor? i = some c) :
    w.takeToken i = (.token c.next.1, w.withCursor i c.next.2) := by
  unfold takeToken
  rw [h]

/-! ## One move -/

theorem move_token_eq (h : w.cursor? i = some c) :
    w.move (.token i) = (.token c.next.1, w.withCursor i c.next.2) := takeToken_eq h

/-- Only its own calls change what a scanner has read ahead. -/
theorem cursor?_move (h : w.cursor? i = some c) (m : Move) :
    (w.move m).2.cursor? i =
      some ⟨if m = .token i then c.next.2.ahead else c.ahead, (w.move m).2.source⟩ := by
  obtain ⟨hahead, -⟩ := cursor?_eq_some_iff.mp h
  cases m with
  | read n => exact cursor?_eq_some_iff.mpr ⟨hahead, rfl⟩
  | seek position => exact cursor?_eq_some_iff.mpr ⟨hahead, rfl⟩
  | scanner =>
    refine cursor?_eq_some_iff.mpr ⟨?_, rfl⟩
    have hlt := (Array.getElem?_eq_some_iff.mp hahead).1
    exact (Array.getElem?_push_lt hlt).trans ((Array.getElem?_eq_getElem hlt).symm.trans hahead)
  | token j =>
    show (w.takeToken j).2.cursor? i = some ⟨_, (w.takeToken j).2.source⟩
    cases hj : w.cursor? j with
    | none =>
      have hne : Move.token j ≠ .token i := by
        rintro ⟨⟩
        rw [h] at hj
        cases hj
      rw [takeToken_of_none hj, if_neg hne]
      exact cursor?_eq_some_iff.mpr ⟨hahead, rfl⟩
    | some cj =>
      rw [takeToken_eq hj, cursor?_withCursor h j]
      by_cases hij : j = i
      · subst hij
        rw [h] at hj
        cases hj
        rw [if_pos rfl, if_pos rfl]
        rfl
      · rw [if_neg hij, if_neg fun heq => hij (Move.token.inj heq)]
        rfl

/-- A call takes the first token of what is pending for the scanner. -/
theorem exists_takes (h : w.cursor? i = some c) :
    ∃ t c', w.move (.token i) = (.token t, w.withCursor i c') ∧ (w.withCursor i c').cursor? i = some c' ∧
      c.Takes t c' := by
  refine ⟨_, _, move_token_eq h, ?_, Cursor.takes_next c⟩
  rw [cursor?_withCursor h i, if_pos rfl]

/-- A scanner at the end gives ends of input, and moves nothing. -/
theorem move_of_atEnd (h : w.cursor? i = some c) (hend : c.ahead = none) :
    w.move (.token i) = (.token endOfInput, w) := by
  rw [move_token_eq h, Cursor.next_of_ahead_eq_none hend, withCursor_self h]

/-- No move changes the text. -/
theorem text_move (w : Workbench) (m : Move) : (w.move m).2.source.text = w.source.text := by
  cases m with
  | read | seek => rfl
  | scanner =>
    have htext := congrArg Source.text (Cursor.source_start w.source)
    exact htext
  | token i =>
    cases h : w.cursor? i with
    | none => exact congrArg (fun p : Answer × Workbench => p.2.source.text) (takeToken_of_none h)
    | some c =>
      have htext := congrArg Source.text (Cursor.takes_next c).source_eq
      rw [move_token_eq h, (cursor?_eq_some_iff.mp h).2]
      exact htext

/-! ## Many moves -/

theorem text_afterMoves (w : Workbench) (moves : List Move) :
    (w.afterMoves moves).source.text = w.source.text := by
  induction moves generalizing w with
  | nil => rfl
  | cons m moves ih => exact (ih _).trans (text_move w m)

/-- A scanner that has met the end stays there, whatever else is done. -/
theorem exists_atEnd_afterMoves (h : w.cursor? i = some c) (hend : c.ahead = none) (moves : List Move) :
    ∃ c', (w.afterMoves moves).cursor? i = some c' ∧ c'.ahead = none := by
  induction moves generalizing w c with
  | nil => exact ⟨c, h, hend⟩
  | cons m moves ih =>
    refine ih (cursor?_move h m) ?_
    simp only
    split
    · rw [Cursor.next_of_ahead_eq_none hend, hend]
    · exact hend

/-- Calls of one scanner and nothing else are calls of its cursor. -/
theorem cursor?_afterMoves_replicate (h : w.cursor? i = some c) (k : Nat) :
    (w.afterMoves (List.replicate k (.token i))).cursor? i = some (c.after k) := by
  induction k generalizing w c with
  | zero => exact h
  | succ k ih =>
    have hmoved : (w.move (.token i)).2.cursor? i = some c.next.2 := by
      rw [move_token_eq h, cursor?_withCursor h i, if_pos rfl]
    rw [List.replicate_succ]
    exact ih hmoved

/-- A new scanner is the last one. -/
theorem cursor?_scanner (w : Workbench) :
    (w.move .scanner).2.cursor? w.scanners.size = some (Cursor.start w.source) :=
  cursor?_eq_some_iff.mpr ⟨Array.getElem?_push_size, rfl⟩

/-- A scanner that is put on the source, and that nobody else disturbs, takes the tokens of what remains of
the text, and leaves the source one character behind each of them. -/
theorem undisturbed (w : Workbench) (k : Nat) :
    let t := (tokenize (String.ofList w.source.remaining))[k]?.getD endOfInput
    let v := (w.move .scanner).2.afterMoves (List.replicate k (.token w.scanners.size))
    ∃ c, v.move (.token w.scanners.size) = (.token t, v.withCursor w.scanners.size c) ∧
      (w.source.position ≤ w.source.text.size ∨ t.kind ≠ .endOfInput →
        ∃ before, w.source.text.toList = before ++ (t.lexeme.toList ++ c.pending) ∧
          c.source.position = min w.source.text.size ((before ++ t.lexeme.toList).length + 1)) := by
  intro t v
  have hstart := cursor?_scanner w
  have hcursor : v.cursor? w.scanners.size = some ((Cursor.start w.source).after k) :=
    cursor?_afterMoves_replicate hstart k
  have htoken : ((Cursor.start w.source).after k).next.1 = t := by
    rw [Cursor.next_after, Cursor.tokens, Cursor.pending_start]
  refine ⟨((Cursor.start w.source).after k).next.2, ?_, fun h => ?_⟩
  · rw [← htoken]
    exact move_token_eq hcursor
  · have hle : w.source.position ≤ w.source.text.size := by
      refine h.elim id fun hkind => Nat.le_of_not_lt fun hlt => hkind ?_
      -- behind the end there are no tokens
      have hnil : w.source.remaining = [] := List.drop_eq_nil_of_le (Nat.le_of_lt hlt)
      have hlist : tokenize (String.ofList w.source.remaining) = [endOfInput] := by
        rw [hnil, tokenize, String.toList_ofList, scan_nil]
        rfl
      show ((tokenize (String.ofList w.source.remaining))[k]?.getD endOfInput).kind = .endOfInput
      rw [hlist]
      cases k <;> rfl
    have halone := (Cursor.isAlone_start hle).after k
    obtain ⟨before, htext, hposition⟩ := halone.exists_text_eq
    have hsource : ((Cursor.start w.source).after k).source.text = w.source.text := by
      rw [← (cursor?_eq_some_iff.mp hcursor).2, text_afterMoves, text_move]
    rw [htoken, hsource] at htext hposition
    exact ⟨before, htext, hposition⟩

/-- After any moves a call of a scanner takes the first token of what is pending for it, and no other move
changes what it has read ahead; when it has met the end it stays there. A scanner that is put on the source
then, and that nobody else disturbs, takes the tokens of the text from the position on. -/
theorem scanners_take_pending (text : String) (moves : List Move) :
    let w := (ofString text).afterMoves moves
    (∀ i c, w.cursor? i = some c →
      (∃ t c', w.move (.token i) = (.token t, w.withCursor i c') ∧
        (w.withCursor i c').cursor? i = some c' ∧ c.Takes t c' ∧
        (t.kind = .endOfInput → ∀ later,
          let v := (w.withCursor i c').afterMoves later
          v.move (.token i) = (.token endOfInput, v))) ∧
      (∀ m, m ≠ .token i → (w.move m).2.cursor? i = some ⟨c.ahead, (w.move m).2.source⟩) ∧
      (i = w.newest → ∀ b, w.carryOut b .token = w.move (.token i) ∧
        (w.carryOut b .tokens).1 = .tokens c.tokens)) ∧
    ∀ k,
      let i := w.scanners.size
      let t := (tokenize (String.ofList (text.toList.drop w.source.position)))[k]?.getD endOfInput
      let v := (w.move .scanner).2.afterMoves (List.replicate k (.token i))
      ∃ c, v.move (.token i) = (.token t, v.withCursor i c) ∧
        (w.source.position ≤ text.toList.length ∨ t.kind ≠ .endOfInput →
          ∃ before, text.toList = before ++ (t.lexeme.toList ++ c.pending) ∧
            c.source.position = min text.toList.length ((before ++ t.lexeme.toList).length + 1)) := by
  intro w
  have htext : w.source.text = text.toList.toArray := text_afterMoves (ofString text) moves
  refine ⟨fun i c h => ⟨?_, fun m hm => ?_, ?_⟩, fun k => ?_⟩
  · obtain ⟨t, c', hmove, hc', htakes⟩ := exists_takes h
    refine ⟨t, c', hmove, hc', htakes, fun hend later => ?_⟩
    obtain ⟨c'', hc'', hnone⟩ := exists_atEnd_afterMoves hc' (htakes.at_end hend) later
    exact move_of_atEnd hc'' hnone
  · rw [cursor?_move h m, if_neg hm]
  · rintro rfl b
    refine ⟨carryOut_token b w, ?_⟩
    unfold carryOut
    rw [h]
    exact congrArg Answer.tokens (Cursor.map_fst_trace c)
  · have h := undisturbed w k
    rw [Source.remaining, htext] at h
    exact h

/-- A scanner that was put on at the end stays there when the position is set anew, and the other one goes
on from the character that it had read ahead. -/
theorem scanners_take_pending_seek :
    let w := (ofString "12+").afterMoves [.scanner, .token 0, .seek 3, .scanner]
    let v := w.afterMoves [.token 1, .seek 0]
    (∃ w', w.move (.token 0) = (.token (ofSymbol '+'), w')) ∧
      v.move (.token 1) = (.token endOfInput, v) ∧ v.source.position = 0 := by
  intro w v
  have hplus : w.cursor? 0 = some ⟨some '+', ⟨#['1', '2', '+'], 3⟩⟩ := by decide +kernel
  have hnone : w.cursor? 1 = some ⟨none, ⟨#['1', '2', '+'], 3⟩⟩ := by decide +kernel
  have h := (scanners_take_pending "12+" [.scanner, .token 0, .seek 3, .scanner]).1
  obtain ⟨⟨t, c, hmove, -, htakes, -⟩, -⟩ := h 0 _ hplus
  obtain ⟨⟨t', c', hmove', -, htakes', hstays⟩, -⟩ := h 1 _ hnone
  have ht : t = ofSymbol '+' := htakes.token_eq.trans (by decide +kernel)
  have ht' : t' = endOfInput :=
    htakes'.token_eq.trans (congrArg Prod.fst (Cursor.next_of_ahead_eq_none rfl))
  rw [ht] at hmove
  have hv : v = (w.withCursor 1 c').afterMoves [.seek 0] :=
    congrArg (fun p : Answer × Workbench => p.2.afterMoves [.seek 0]) hmove'
  refine ⟨⟨_, hmove⟩, ?_, rfl⟩
  rw [hv]
  exact hstays (by rw [ht']; rfl) [.seek 0]

end Calculator.Workbench
