import Calculator.Evaluation

/-!
# Sessions

A session shows its prompt, takes a line and answers it, until the exit command is given or the input
ends. A line is compared and worked out without the carriage returns and line feeds at its end. A line that
is no expression, or too deep a one, is answered with the reason, and the session goes on. A defect is not
answered: it breaks the session off. The level is that of the log, which holds the records that are shown at it.

**Results.**
* `takeLine_append`: a line and what follows it make up the input.
* `length_takeLine_lt`: a line of an input that is not empty is not empty either.
-/
namespace Calculator.Session

/-- What can be chosen about a session. -/
structure Settings where
  /-- Stands in front of every line and every value. -/
  prompt : String := "> "
  /-- The line that ends the session; if there is none, only the end of input does. -/
  exitCommand : Option String := some "\\q"
  /-- Whether nothing may follow an expression. -/
  strict : Bool := false
  deriving DecidableEq, Repr

/-- What one line leaves: the answer to it, records, and the fault that was not answered if there is one. -/
structure Reply where
  output : String
  log : List Log.Record
  escaped : Option Fault := none
  deriving DecidableEq, Repr

/-- What a session leaves: all that it wrote, its records, the input that it did not take, and the fault
that broke it off if there is one. -/
structure Transcript where
  output : String
  log : List Log.Record
  unread : String
  escaped : Option Fault := none
  deriving DecidableEq, Repr

/-! ## Lines -/

/-- The first line of an input, with the line feed that ends it if there is one, and the rest. -/
def takeLine : List Char → List Char × List Char
  | [] => ([], [])
  | c :: cs =>
    if c = '\n' then ([c], cs)
    else (c :: (takeLine cs).1, (takeLine cs).2)

/-- A line without the carriage returns and line feeds at its end. -/
def stripped (line : List Char) : List Char :=
  (line.reverse.dropWhile fun c => c == '\r' || c == '\n').reverse

/-- A line and what follows it make up the input. -/
theorem takeLine_append (cs : List Char) : (takeLine cs).1 ++ (takeLine cs).2 = cs := by
  induction cs with
  | nil => rfl
  | cons c cs ih =>
    unfold takeLine
    split <;> simp [ih]

/-- A line of an input that is not empty is not empty either. -/
theorem length_takeLine_lt (c : Char) (cs : List Char) :
    (takeLine (c :: cs)).2.length < (c :: cs).length := by
  have h := congrArg List.length (takeLine_append (c :: cs))
  have hpos : 0 < (takeLine (c :: cs)).1.length := by
    unfold takeLine
    split <;> simp
  rw [List.length_append] at h
  omega

/-! ## Answers -/

/-- The answer to a line that is not the exit command. -/
def respond (settings : Settings) (level : Log.Level) (budget : Budget) (line : String) : Reply :=
  let evaluation := Evaluation.ofLine level settings.strict budget line
  match evaluation.outcome with
  | .ok value => ⟨settings.prompt ++ Double.Layout.result.text value ++ "\n", evaluation.log, none⟩
  | .error (.unexpected expected found) =>
    let message := (Fault.unexpected expected found).message
    ⟨"Error: " ++ message ++ "\n", evaluation.log ++ Log.shown level [⟨.console, .debug,
      "Rejected " ++ Text.quoted line ++ ": " ++ message⟩], none⟩
  | .error .tooDeep =>
    ⟨"Error: " ++ Fault.tooDeep.message ++ "\n", evaluation.log ++ Log.shown level [⟨.console, .warning,
      "Rejected a line of " ++ toString line.length ++ " characters: nested too deeply"⟩], none⟩
  | .error defect => ⟨"", evaluation.log, some defect⟩

/-- The answer to a line as it was taken, or `none` if it is the exit command. -/
def answer? (settings : Settings) (level : Log.Level) (budget : Budget) (line : List Char) : Option Reply :=
  let line := String.ofList (stripped line)
  if settings.exitCommand = some line then none else some (respond settings level budget line)

/-! ## The session -/

/-- What is written in place of a text that there is none of. -/
def noText : String := "[]"

/-- The first line that a session writes. -/
def banner (settings : Settings) : String :=
  "Type \"" ++ settings.exitCommand.getD noText ++ "\" to exit\n"

def started : Log.Record := ⟨.console, .info, "Session started"⟩

def inputEnded : Log.Record := ⟨.console, .info, "End of input, leaving"⟩

def finished : Log.Record := ⟨.console, .info, "Session finished"⟩

/-- The lines of a session one after the other. -/
def turns (settings : Settings) (level : Log.Level) (budget : Budget) : List Char → Transcript
  | [] => ⟨settings.prompt, Log.shown level [inputEnded], "", none⟩
  | c :: cs =>
    let rest := (takeLine (c :: cs)).2
    match answer? settings level budget (takeLine (c :: cs)).1 with
    | none => ⟨settings.prompt, [], String.ofList rest, none⟩
    | some ⟨output, log, some defect⟩ =>
      ⟨settings.prompt ++ output, log, String.ofList rest, some defect⟩
    | some ⟨output, log, none⟩ =>
      let later := turns settings level budget rest
      ⟨settings.prompt ++ output ++ later.output, log ++ later.log, later.unread, later.escaped⟩
termination_by input => input.length
decreasing_by exact length_takeLine_lt c cs

/-- A whole session. -/
def run (settings : Settings) (level : Log.Level) (budget : Budget) (input : String) : Transcript :=
  let turns := turns settings level budget input.toList
  let last := if turns.escaped.isSome then [] else Log.shown level [finished]
  ⟨banner settings ++ turns.output, Log.shown level [started] ++ turns.log ++ last, turns.unread,
    turns.escaped⟩

end Calculator.Session
