import MustacheMarkup.Command.Plan

/-!
# The program

Carries out the plan of a command on the files of the system.
-/

set_option autoImplicit false

namespace MustacheMarkup

/-- The fault behind an error of the system. -/
def FileFault.ofError : IO.Error → FileFault
  | .noFileOrDirectory .. => .missing
  | .inappropriateType .. => .isDirectory
  | e => .other (toString e)

/-- Carry out a plan. Warnings are written when they happen. -/
def Plan.perform : Plan → IO Report
  | .finish report => pure report
  | .note event next => do
    IO.eprint event.warning
    next.perform
  | .read path next => do
    let read ← try
        Except.ok <$> IO.FS.readBinFile path
      catch e => pure (Except.error (FileFault.ofError e))
    (next read).perform
  | .write path content next => do
    let written ← try
        Except.ok <$> IO.FS.writeBinFile path content.toUTF8
      catch e => pure (Except.error (FileFault.ofError e))
    (next written).perform

/-- How the program is called. -/
def usage : String :=
  "Usage: stache build PATH [--pretty] [--preserve-whitespace] [--sanitize-event-attributes]\n" ++
    "       stache check PATH [--preserve-whitespace] [--sanitize-event-attributes]"

end MustacheMarkup

open MustacheMarkup in
/-- Do what the arguments ask for. -/
def main (arguments : List String) : IO UInt32 := do
  match Command.ofArguments arguments with
  | none =>
    IO.eprintln usage
    return 2
  | some command =>
    let report ← command.plan.perform
    IO.print report.output
    IO.eprint report.messages
    return UInt32.ofNat report.exitCode
