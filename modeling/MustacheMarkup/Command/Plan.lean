import MustacheMarkup.Command.Arguments
import MustacheMarkup.Compile
import MustacheMarkup.File.Tree
import MustacheMarkup.Json.Printer

/-!
# What a command does

A command is a plan: it reads and writes files in an order that may depend on what came out, reports
events in between, and ends with a report. A plan can be carried out on a tree of files, which is
how it is reasoned about, or on the files of the system.
-/

set_option autoImplicit false

namespace MustacheMarkup

/-- What a command leaves for the user. -/
structure Report where
  exitCode : Nat
  /-- the text on the standard output -/
  output : String
  /-- the events on the way, in order. A logger writes those that matter enough to the standard
  error, when they happen -/
  log : List Event
  /-- what the command itself says at its end, on the standard error -/
  messages : String
deriving Repr, DecidableEq

/-- The text on the standard error, where `written` is what the logger writes of an event, given how
many there were before it. What it writes may tell the time and may be empty. -/
def Report.errorText (written : Nat → Event → String) (report : Report) : String :=
  String.join (report.log.mapIdx written) ++ report.messages

/-- A report of which an event comes first. -/
def Report.noting (event : Event) (report : Report) : Report :=
  { report with log := event :: report.log }

/-- What a command does with files. -/
inductive Plan where
  /-- end with a report -/
  | finish (report : Report)
  /-- report an event, and go on -/
  | note (event : Event) (next : Plan)
  /-- read a file, and go on with what came out -/
  | read (path : String) (next : Except FileFault ByteArray → Plan)
  /-- write a file, and go on with what came out -/
  | write (path : String) (content : String) (next : Except FileFault Unit → Plan)

namespace Plan

/-- Carry out a plan on a tree of files. -/
def run : Plan → FileTree → Report × FileTree
  | .finish report, tree => (report, tree)
  | .note event next, tree => ((next.run tree).1.noting event, (next.run tree).2)
  | .read path next, tree => (next (tree.read path)).run tree
  | .write path content next, tree =>
    match tree.write path content.toUTF8 with
    | .error fault => (next (.error fault)).run tree
    | .ok tree => (next (.ok ())).run tree

/-- End well, with a message. -/
def succeed (message : String) : Plan :=
  .finish ⟨0, "", [], message ++ "\n"⟩

/-- End with a failure, and a message. -/
def fail (message : String) : Plan :=
  .finish ⟨1, "", [], message ++ "\n"⟩

/-- Report events, and go on. -/
def noteAll (log : List Event) (next : Plan) : Plan :=
  log.foldr .note next

end Plan

namespace Command

/-- The template in a file that was read, or what there is to say if there is none. -/
def templateText (path : String) : Except FileFault ByteArray → Except String String
  | .error .missing => .error ("Error: file not found: " ++ path)
  | .error fault => .error ("Error reading " ++ path ++ ": " ++ fault.message)
  | .ok bytes =>
    match String.fromUTF8? bytes with
    | none => .error ("Error reading " ++ path ++ ": stream did not contain valid UTF-8")
    | some source => .ok source

/-- The structured form of a template in a file that was read, or what there is to say if there is
none, and what is reported on the way. -/
def compileFile (path : String) (options : Options) (read : Except FileFault ByteArray) :
    Outcome Unit String Json :=
  match templateText path read with
  | .error message => ⟨.error message, (), []⟩
  | .ok source =>
    let compiled := compileReporting options source
    ⟨compiled.result.mapError fun e => path ++ ": " ++ e.message, (),
      .compiling path source.utf8ByteSize :: compiled.log⟩

/-- Compile a template in a file, and go on with its structured form. -/
def compileThen (path : String) (options : Options) (next : Json → Plan) : Plan :=
  .read path fun read =>
    let compiled := compileFile path options read
    .noteAll compiled.log <|
      match compiled.result with
      | .error message => .fail message
      | .ok form => next form

/-- Write the structured form of a template beside it. -/
def writeForm (path : String) (pretty : Bool) (form : Json) : Plan :=
  match Path.besideWith "json" path with
  | none => .fail ("Error: cannot derive an output name from " ++ path)
  | some output =>
    .write output (if pretty then form.pretty else form.compact) fun
      | .error fault => .fail ("Error writing " ++ output ++ ": " ++ fault.message)
      | .ok () => .succeed ("Built: " ++ output)

/-- What a command does. -/
def plan : Command → Plan
  | .version => .finish ⟨0, "stache " ++ compilerVersion ++ "\n", [], ""⟩
  | .build path options pretty => compileThen path options (writeForm path pretty)
  | .check path options => compileThen path options fun _ => .succeed ("OK: " ++ path)

end Command

end MustacheMarkup
