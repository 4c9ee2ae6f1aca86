import Calculator.Session
import Calculator.Text.Digit

/-!
# The command line

Every argument is first looked at by itself: it is an option, perhaps with a value attached, or a plain
word, or neither. A long option may be cut short as long as only one is meant, and may carry a value behind
an equals sign. An option that needs a value and carries none takes the next argument, which must be a
plain word. Plain words that no option takes are refused, in the end; help is given where it is asked for.

Two minuses alone end the options and are the value of none. Attached to an option they leave it without a
value, which is not the same as the value it has by default.

These are the option conventions of release 3.11.7. Later releases keep two minuses that are attached to an
option as its value.

**Results.**
* `Name.ofSpelling?_spelling`: the full spelling of an option names it.
* `valueOf_eq_some_iff`: every other text is its own value.
-/
namespace Calculator

/-- What the command line chooses. -/
structure Options where
  prompt : Option String := some "> "
  exitCommand : Option String := some "\\q"
  strict : Bool := false
  /-- The level from which on records are shown. -/
  level : Option Log.Level := some .warning
  deriving DecidableEq, Repr

namespace Options

/-- The session that is chosen. -/
def settings (options : Options) : Session.Settings where
  prompt := options.prompt.getD Session.noText
  exitCommand := options.exitCommand
  strict := options.strict

/-- The options. -/
inductive Name where
  | help
  | prompt
  | exitCommand
  | strict
  | logLevel
  deriving DecidableEq, Repr

/-- The options in the order in which help shows them. -/
def Name.all : List Name := [help, prompt, exitCommand, strict, logLevel]

/-- The long spelling of an option. -/
def Name.spelling : Name → String
  | help => "--help"
  | prompt => "--prompt"
  | exitCommand => "--exit-command"
  | strict => "--strict"
  | logLevel => "--log-level"

/-- The option of a full long spelling. -/
def Name.ofSpelling? (spelling : List Char) : Option Name :=
  Name.all.find? fun name => name.spelling.toList == spelling

/-- The options whose long spelling begins so. -/
def Name.beginningWith (start : List Char) : List Name :=
  Name.all.filter fun name => start.isPrefixOf name.spelling.toList

/-- What an argument is by itself. -/
inductive Word where
  /-- The value of an option, or of nothing. -/
  | plain (text : String)
  /-- An option, and the value attached to it. -/
  | option (name : Name) (attached : Option String)
  /-- It looks like an option, but none is meant. -/
  | unknown (text : String)
  /-- More than one option could be meant. -/
  | ambiguous (text : String)
  deriving DecidableEq, Repr

/-- Why a command line is refused. -/
inductive Refusal where
  | ambiguous (word : String)
  | missingValue (option : Name)
  | unwantedValue (option : Name) (value : String)
  | unknownLevel (value : String)
  | unrecognized (words : List String)
  deriving DecidableEq, Repr

/-- What a command line comes to. -/
inductive Outcome where
  | start (options : Options)
  | help
  | refused (why : Refusal)
  deriving DecidableEq, Repr

/-! ## Words -/

/-- A number with a minus in front: digits of any script, perhaps with a point and then digits; a line
feed may follow. -/
def isNegativeNumber (cs : List Char) : Bool :=
  match cs with
  | '-' :: cs =>
    let cs := if cs.getLast? = some '\n' then cs.dropLast else cs
    let fraction := match cs.dropWhile Text.isDecimalDigit with
      | [] => cs
      | '.' :: fraction => fraction
      | _ => []
    !fraction.isEmpty && fraction.all Text.isDecimalDigit
  | _ => false

/-- A word that begins with a minus but is no option; numbers and words with a space are plain. -/
def Word.ofUnmatched (cs : List Char) : Word :=
  if isNegativeNumber cs || cs.contains ' ' then .plain (String.ofList cs) else .unknown (String.ofList cs)

/-- A word that begins with two minuses. -/
def Word.ofLong (cs : List Char) : Word :=
  let start := cs.takeWhile (· != '=')
  let attached := match cs.dropWhile (· != '=') with
    | [] => none
    | _ :: value => some (String.ofList value)
  match Name.ofSpelling? start with
  | some name => .option name attached
  | none =>
    match Name.beginningWith start with
    | [] => Word.ofUnmatched cs
    | [name] => .option name attached
    | _ => .ambiguous (String.ofList cs)

/-- A word that begins with the short spelling `-h` of help. The letter may be repeated, with an equals sign
behind the first one, but nothing else may follow. -/
def Word.ofHelp (cs : List Char) : Word :=
  let letters := match cs with
    | '=' :: letters => letters
    | _ => cs
  if cs.isEmpty || (!letters.isEmpty && letters.all (· == 'h')) then .option .help none
  else .option .help (some (String.ofList cs))

/-- An argument by itself. -/
def Word.ofArgument (argument : String) : Word :=
  match argument.toList with
  | '-' :: '-' :: cs => Word.ofLong ('-' :: '-' :: cs)
  | '-' :: 'h' :: cs => Word.ofHelp cs
  | '-' :: c :: cs => Word.ofUnmatched ('-' :: c :: cs)
  | _ => .plain argument

/-! ## The command line as a whole -/

/-- What is left of a text that is given as a value: two minuses alone are none. -/
def valueOf (text : String) : Option String := if text = "--" then none else some text

/-- The options after a text was given for one of them. -/
def withText (options : Options) (name : Name) (text : String) : Except Refusal Options :=
  match name with
  | .prompt => .ok { options with prompt := valueOf text }
  | .exitCommand => .ok { options with exitCommand := valueOf text }
  | .logLevel =>
    match valueOf text with
    | none => .ok { options with level := none }
    | some value =>
      match Log.Level.all.find? (·.name == value) with
      | some level => .ok { options with level := some level }
      | none => .error (.unknownLevel value)
  | .help | .strict => .error (.unwantedValue name text)

/-- Takes the words one after the other; `extra` are the words that no option took. -/
def ofWords (options : Options) (extra : List String) : List Word → Outcome
  | [] => if extra.isEmpty then .start options else .refused (.unrecognized extra)
  | .plain text :: words | .unknown text :: words => ofWords options (extra ++ [text]) words
  | .ambiguous text :: _ => .refused (.ambiguous text)
  | .option .help none :: _ => .help
  | .option .strict none :: words => ofWords { options with strict := true } extra words
  | .option name (some text) :: words =>
    match options.withText name text with
    | .ok options => ofWords options extra words
    | .error why => .refused why
  | .option name none :: .plain text :: words =>
    match options.withText name text with
    | .ok options => ofWords options extra words
    | .error why => .refused why
  | .option name none :: _ => .refused (.missingValue name)

/-- The first word of which more than one option could be meant. -/
def firstAmbiguous? (words : List Word) : Option String :=
  words.findSome? fun
    | .ambiguous text => some text
    | _ => none

/-- A command line. What follows two minuses that stand alone is not looked at, and refused like the
minuses themselves. -/
def ofArguments (arguments : List String) : Outcome :=
  let words := (arguments.takeWhile (· != "--")).map Word.ofArgument
  let extra := arguments.dropWhile (· != "--")
  match firstAmbiguous? words with
  | some text => .refused (.ambiguous text)
  | none =>
    match ofWords {} [] words with
    | .start options => if extra.isEmpty then .start options else .refused (.unrecognized extra)
    | outcome => outcome

/-! ## What the program does -/

inductive Action where
  /-- Holds a session and shows its records from a level on. -/
  | session (settings : Session.Settings) (level : Log.Level)
  /-- Shows the help and exits with 0. -/
  | help
  /-- Exits with a code other than 0. -/
  | exit (code : Nat)
  deriving DecidableEq, Repr

/-- What the program does on a command line. Without a level there is no session. -/
def action (arguments : List String) : Action :=
  match ofArguments arguments with
  | .start options =>
    match options.level with
    | some level => .session options.settings level
    | none => .exit 1
  | .help => .help
  | .refused _ => .exit 2

/-- How the program is called. -/
def usage : String :=
  "usage: repl.py [-h] [--prompt PROMPT] [--exit-command EXIT_COMMAND] [--strict]
               [--log-level \x7bDEBUG,INFO,WARNING,ERROR\x7d]
"

/-- What help shows. -/
def helpText : String :=
  usage ++ "
Interactive arithmetic expression evaluator

options:
  -h, --help            show this help message and exit
  --prompt PROMPT       Prompt printed before each line
  --exit-command EXIT_COMMAND
                        Line that ends the session
  --strict              Reject input left over after a complete expression
  --log-level \x7bDEBUG,INFO,WARNING,ERROR\x7d
                        Logging level, logs go to stderr
"

/-! ## Laws -/

theorem Name.ofSpelling?_spelling (name : Name) : Name.ofSpelling? name.spelling.toList = some name := by
  cases name <;> decide +kernel

/-- Every text but two minuses alone is its own value. -/
theorem valueOf_eq_some_iff {text value : String} :
    valueOf text = some value ↔ text = value ∧ text ≠ "--" := by
  unfold valueOf
  split <;> simp_all

end Options
end Calculator
