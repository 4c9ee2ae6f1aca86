/-!
# Log records

A record names the part of the program that wrote it, its level and its text. Which records are shown
depends on the level alone.

**Results.**
* `shows_debug_iff`: records of the least urgent level are shown at that level only.
* `mem_shown_iff`: the records shown are those at the level or above.
-/
namespace Calculator.Log

/-- Levels, the least urgent first. -/
inductive Level where
  | debug
  | info
  | warning
  | error
  deriving DecidableEq, Repr

/-- All levels. -/
def Level.all : List Level := [debug, info, warning, error]

/-- The name of a level. -/
def Level.name : Level → String
  | debug => "DEBUG"
  | info => "INFO"
  | warning => "WARNING"
  | error => "ERROR"

/-- Rank of a level among the levels. -/
def Level.rank : Level → Nat
  | debug => 0
  | info => 1
  | warning => 2
  | error => 3

/-- Whether records of another level are shown at a level. -/
def Level.shows (level other : Level) : Bool := level.rank ≤ other.rank

/-- The parts of the program that write records. -/
inductive Origin where
  | console
  | reader
  | evaluation
  deriving DecidableEq, Repr

/-- The name under which a part writes. -/
def Origin.name : Origin → String
  | console => "arithcalc.console"
  | reader => "arithcalc.parser"
  | evaluation => "arithcalc.runtime"

structure Record where
  origin : Origin
  level : Level
  text : String
  deriving DecidableEq, Repr

/-- The line of a record. -/
def Record.line (r : Record) : String := r.origin.name ++ " - " ++ r.level.name ++ " - " ++ r.text

/-- The records at the level or above. -/
def shown (level : Level) (records : List Record) : List Record :=
  records.filter fun r => level.shows r.level

/-- Records of the least urgent level are shown at that level only. -/
theorem Level.shows_debug_iff {level : Level} : level.shows debug = true ↔ level = debug := by
  cases level <;> decide

theorem mem_shown_iff {level : Level} {records : List Record} {r : Record} :
    r ∈ shown level records ↔ r ∈ records ∧ level.rank ≤ r.level.rank := by
  simp [shown, Level.shows]

end Calculator.Log
