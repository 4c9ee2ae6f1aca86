import Calculator.Source
import Calculator.Token.Scanner

/-!
# Scanning a source as it is read

A cursor takes the tokens of a source one at a time and reads no further than it must: the one character
ahead that it needs to know where a token ends. At the end of the source it stays there, whatever becomes
of the source.

**Results.**
* `left_next_lt`: every token but the end of input takes at least one character.
-/
namespace Calculator.Token

/-- A source and the character that was read ahead of it; none at the end. -/
structure Cursor where
  ahead : Option Char
  source : Source
  deriving DecidableEq, Repr

namespace Cursor

/-- A cursor on a source; it reads the first character ahead. -/
def start (source : Source) : Cursor :=
  let (ahead, source) := source.next
  ⟨ahead, source⟩

/-- Number of characters that the cursor has not taken. -/
def left (c : Cursor) : Nat := c.source.left + (if c.ahead.isSome then 1 else 0)

/-- The cursor behind the character ahead. -/
def step (c : Cursor) : Cursor :=
  match c.ahead with
  | some _ => start c.source
  | none => c

theorem left_start_le (s : Source) : (start s).left ≤ s.left := by
  unfold start
  match h : s.next with
  | (some _, _) =>
    have := Source.left_next_of_some h
    simp only [left, Option.isSome_some, if_true]
    omega
  | (none, _) =>
    have := Source.next_of_none h
    simp [left, this]

theorem left_step_lt {c : Cursor} {x : Char} (h : c.ahead = some x) : c.step.left < c.left := by
  have hs := left_start_le c.source
  simp only [step, h, left, Option.isSome_some, if_true] at *
  omega

/-- The characters from the one ahead on that satisfy `p`, and the cursor behind them. -/
def takeWhile (p : Char → Bool) (c : Cursor) : List Char × Cursor :=
  match _h : c.ahead with
  | some x =>
    if p x then
      let (xs, c) := takeWhile p c.step
      (x :: xs, c)
    else ([], c)
  | none => ([], c)
termination_by c.left
decreasing_by exact left_step_lt _h

theorem left_takeWhile_le (p : Char → Bool) (c : Cursor) : (c.takeWhile p).2.left ≤ c.left := by
  fun_induction takeWhile p c with
  | case1 c x h hp xs c' heq ih =>
    have := left_step_lt h
    rw [heq] at ih
    simp only at *
    omega
  | case2 => exact Nat.le_refl _
  | case3 => exact Nat.le_refl _

/-- A numeral from the character ahead on, and the cursor behind it. -/
def numeral (c : Cursor) : List Char × Cursor :=
  let (whole, c) := c.takeWhile Char.isDigit
  if c.ahead = some '.' then
    let (fraction, c) := c.step.takeWhile Char.isDigit
    (whole ++ '.' :: fraction, c)
  else (whole, c)

/-- The next token, and the cursor behind it. -/
def next (c : Cursor) : Token × Cursor :=
  let c := (c.takeWhile isSeparator).2
  match c.ahead with
  | none => (endOfInput, c)
  | some x =>
    if x.isDigit then
      let (digits, c) := c.numeral
      (ofNumeral digits, c)
    else (ofSymbol x, c.step)

/-! ## Progress -/

theorem left_step_le (c : Cursor) : c.step.left ≤ c.left := by
  cases h : c.ahead with
  | some x => exact Nat.le_of_lt (left_step_lt h)
  | none => simp [step, h]

theorem left_takeWhile_lt {p : Char → Bool} {c : Cursor} {x : Char} (h : c.ahead = some x)
    (hp : p x) : (c.takeWhile p).2.left < c.left := by
  have h1 := left_step_lt h
  have h2 := left_takeWhile_le p c.step
  rw [takeWhile]
  split
  · next y hy =>
    rw [h] at hy
    cases hy
    simp only [hp, if_true]
    omega
  · next hn => rw [h] at hn; cases hn

theorem left_numeral_lt {c : Cursor} {x : Char} (h : c.ahead = some x) (hx : x.isDigit) :
    c.numeral.2.left < c.left := by
  have h1 := left_takeWhile_lt h hx
  have h2 := left_step_le (c.takeWhile Char.isDigit).2
  have h3 := left_takeWhile_le Char.isDigit (c.takeWhile Char.isDigit).2.step
  unfold numeral
  simp only
  split
  · simp only; omega
  · exact h1

theorem kind_ofSymbol_ne (c : Char) : (ofSymbol c).kind ≠ .endOfInput := by
  unfold ofSymbol Kind.ofSymbol
  simp only
  split <;> decide

/-- Every token but the end of input takes at least one character. -/
theorem left_next_lt {c : Cursor} (h : c.next.1.kind ≠ .endOfInput) : c.next.2.left < c.left := by
  have hs := left_takeWhile_le isSeparator c
  unfold next at *
  simp only at *
  split at h
  · exact absurd rfl h
  · next x hx =>
    split
    · next hd => exact Nat.lt_of_lt_of_le (left_numeral_lt hx hd) hs
    · exact Nat.lt_of_lt_of_le (left_step_lt hx) hs

/-- The tokens up to the end of input, which closes them, each with the cursor behind it. -/
def trace (c : Cursor) : List (Token × Cursor) :=
  if _h : c.next.1.kind = .endOfInput then [c.next]
  else c.next :: trace c.next.2
termination_by c.left
decreasing_by exact left_next_lt _h

end Cursor
end Calculator.Token
