import Calculator.Options
import Std.Time.Format

/-!
# The program

The console on standard input and output: it reads the command line, holds a session line by line, and
writes the records that are shown to standard error, each with the time.
-/
namespace Calculator.Main

/-- Writes records down. -/
def writeLog (records : List Log.Record) : IO Unit := do
  let stderr ← IO.getStderr
  for record in records do
    let now ← Std.Time.PlainDateTime.now
    let time := now.format "uuuu-MM-dd HH:mm:ss,SSS"
    stderr.putStrLn (time ++ " - " ++ record.line)

/-- Takes lines and answers them until the session ends. A defect ends the program. -/
partial def converse (settings : Session.Settings) (level : Log.Level) (stdin stdout : IO.FS.Stream) :
    IO Unit := do
  stdout.putStr settings.prompt
  stdout.flush
  let line ← stdin.getLine
  if line.isEmpty then
    writeLog (Log.shown level [Session.inputEnded])
  else
    match Session.answer? settings level .standard line.toList with
    | none => return
    | some reply =>
      writeLog reply.log
      stdout.putStr reply.output
      match reply.escaped with
      | none => converse settings level stdin stdout
      | some defect => throw (IO.userError defect.message)

/-- Holds a session on standard input and output. -/
def hold (settings : Session.Settings) (level : Log.Level) : IO Unit := do
  let stdout ← IO.getStdout
  stdout.putStr (Session.banner settings)
  writeLog (Log.shown level [Session.started])
  converse settings level (← IO.getStdin) stdout
  writeLog (Log.shown level [Session.finished])

end Calculator.Main

/-- Exits with 0 after a session or help. -/
def main (arguments : List String) : IO UInt32 := do
  match Calculator.Options.action arguments with
  | .session settings level =>
    Calculator.Main.hold settings level
    return 0
  | .help =>
    IO.print Calculator.Options.helpText
    return 0
  | .exit code =>
    IO.eprint Calculator.Options.usage
    return code.toUInt32
