/-!
# Sources

A source is a text that is read from a position; whoever reads moves the position on, and it can be set
anew. Several readers may share one.
-/
namespace Calculator

structure Source where
  text : Array Char
  position : Nat
  deriving DecidableEq, Repr

namespace Source

/-- A text, read from its beginning. -/
def ofString (text : String) : Source := ⟨text.toList.toArray, 0⟩

/-- Number of characters from the position to the end. -/
def left (s : Source) : Nat := s.text.size - s.position

/-- The character at the position, which moves behind it; at the end there is none. -/
def next (s : Source) : Option Char × Source :=
  match s.text[s.position]? with
  | some c => (some c, { s with position := s.position + 1 })
  | none => (none, s)

/-- Up to `n` characters from the position, which moves behind them. -/
def read (s : Source) (n : Nat) : String × Source :=
  let taken := (s.text.toList.drop s.position).take n
  (String.ofList taken, { s with position := s.position + taken.length })

/-- The source at another position. -/
def seek (s : Source) (position : Nat) : Source := { s with position }

theorem left_next_of_some {s t : Source} {c : Char} (h : s.next = (some c, t)) :
    t.left + 1 = s.left := by
  unfold next at h
  split at h
  · next _ hc =>
    cases h
    have := (Array.getElem?_eq_some_iff.mp hc).1
    simp only [left]
    omega
  · cases h

theorem next_of_none {s t : Source} (h : s.next = (none, t)) : t = s := by
  unfold next at h
  split at h <;> cases h
  rfl

end Source
end Calculator
