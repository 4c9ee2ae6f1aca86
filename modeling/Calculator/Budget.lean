import Calculator.Fault

/-!
# The nesting budget

Reading, working out, printing and describing an expression go down into it; a budget bounds how far. Going
down costs units and coming back returns them, so a budget bounds the depth of an expression and never its
length. A level costs what it takes on a stack: more for an open parenthesis, behind which a whole
expression is read, and for a node that is described field by field. An unlimited budget bounds nothing.

**Results.**
* `spend_eq_error`: a limited budget is used up, and nothing else goes wrong.
* `spend_mono`: what a budget pays, a larger one pays too.
-/
namespace Calculator

inductive Budget where
  | unlimited
  | units (left : Nat)
  deriving DecidableEq, Repr

namespace Budget

/-- What is left after going down at a price of `cost` units. -/
def spend (cost : Nat) : Budget → Except Fault Budget
  | unlimited => .ok unlimited
  | units left => if cost ≤ left then .ok (units (left - cost)) else .error .tooDeep

/-- Price of an open parenthesis while reading. -/
def parenthesisCost : Nat := 4

/-- Price of a sign or a caret while reading, and of a level of the tree afterwards. -/
def levelCost : Nat := 1

/-- Price of a level of the tree while it is described. -/
def descriptionCost : Nat := 3

/-- The budget of a program with a stack of ordinary size: 245 open parentheses, or 980 levels, of which 326
can be described. -/
def standard : Budget := units 980

/-- One budget reaches at least as far as another. -/
def le : Budget → Budget → Prop
  | _, unlimited => True
  | unlimited, units _ => False
  | units m, units n => m ≤ n

instance : LE Budget := ⟨le⟩

instance : DecidableLE Budget
  | unlimited, unlimited => .isTrue trivial
  | units _, unlimited => .isTrue trivial
  | unlimited, units _ => .isFalse id
  | units m, units n => Nat.decLe m n

/-- A limited budget is used up, and nothing else goes wrong. -/
theorem spend_eq_error {cost : Nat} {b : Budget} {fault : Fault} (h : b.spend cost = .error fault) :
    fault = .tooDeep ∧ b ≠ unlimited := by
  cases b with
  | unlimited => cases h
  | units left =>
    simp only [spend] at h
    split at h
    · cases h
    · cases h
      exact ⟨rfl, nofun⟩

/-- What is left of an unlimited budget is unlimited. -/
theorem spend_ne_unlimited {cost : Nat} {b b' : Budget} (h : b.spend cost = .ok b')
    (hb' : b' ≠ unlimited) : b ≠ unlimited := by
  rintro rfl
  cases h
  exact hb' rfl

/-- What goes wrong after going down went wrong at the price, or with what was left. -/
theorem tooDeep_of_spend {α : Type} {cost : Nat} {b : Budget} {f : Budget → Except Fault α}
    {fault : Fault} (h : b.spend cost >>= f = .error fault)
    (hf : ∀ b', f b' = .error fault → fault = .tooDeep ∧ b' ≠ unlimited) :
    fault = .tooDeep ∧ b ≠ unlimited := by
  rcases Fault.of_bind h with hb | ⟨b', hb, h⟩
  · exact spend_eq_error hb
  · obtain ⟨hfault, hb'⟩ := hf b' h
    exact ⟨hfault, spend_ne_unlimited hb hb'⟩

/-- What a budget pays, a larger one pays too. -/
theorem spend_mono {cost : Nat} {b c b' : Budget} (hle : b ≤ c) (h : b.spend cost = .ok b') :
    ∃ c', c.spend cost = .ok c' ∧ b' ≤ c' := by
  cases b with
  | unlimited =>
    cases c with
    | unlimited => exact ⟨_, rfl, trivial⟩
    | units n => exact hle.elim
  | units m =>
    simp only [spend] at h
    split at h
    · next hm =>
      cases h
      cases c with
      | unlimited => exact ⟨_, rfl, trivial⟩
      | units n =>
        have hmn : m ≤ n := hle
        refine ⟨units (n - cost), by simp [spend, Nat.le_trans hm hmn], ?_⟩
        exact Nat.sub_le_sub_right hmn cost
    · cases h

end Budget
end Calculator
