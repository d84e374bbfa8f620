import MustacheMarkup.Template.Options

/-!
# The arguments of a command

`build PATH` and `check PATH` take flags anywhere behind their name; `--` ends the flags. A flag
may be given once. The version is asked for in place of a command. Arguments that cannot be read
are refused as a whole.
-/

set_option autoImplicit false

namespace MustacheMarkup

/-- What a user asks for. -/
inductive Command where
  /-- the version of the program -/
  | version
  /-- compile a template into a file beside it, over several lines or on one -/
  | build (path : String) (options : Options) (pretty : Bool)
  /-- compile a template and tell whether that works -/
  | check (path : String) (options : Options)
deriving Repr, DecidableEq

namespace Command

/-- What has been read of the arguments of a command. -/
structure Arguments where
  path : Option String := none
  pretty : Bool := false
  options : Options := {}
deriving Repr, DecidableEq

/-- Take a flag into account, unless it is unknown or was given before. -/
def Arguments.flag? (a : Arguments) (flag : String) : Option Arguments :=
  if flag = "--pretty" then
    if a.pretty then none else some { a with pretty := true }
  else if flag = "--preserve-whitespace" then
    if a.options.preserveWhitespace then none
    else some { a with options := { a.options with preserveWhitespace := true } }
  else if flag = "--sanitize-event-attributes" then
    if a.options.sanitizeEventAttributes then none
    else some { a with options := { a.options with sanitizeEventAttributes := true } }
  else none

/-- Take a path into account, unless there is one already. -/
def Arguments.path? (a : Arguments) (path : String) : Option Arguments :=
  if a.path.isSome then none else some { a with path := some path }

/-- Whether an argument is a flag. A hyphen alone is a path. -/
def isFlag (argument : String) : Bool :=
  match argument.toList with
  | '-' :: _ :: _ => true
  | _ => false

/-- Read further arguments. -/
def Arguments.readAll (a : Arguments) (flagsEnded : Bool) : List String → Option Arguments
  | [] => some a
  | argument :: rest =>
    if flagsEnded then (a.path? argument).bind fun a => a.readAll true rest
    else if argument = "--" then a.readAll true rest
    else if isFlag argument then (a.flag? argument).bind fun a => a.readAll false rest
    else (a.path? argument).bind fun a => a.readAll false rest

/-- Whether an argument asks for the version. Short flags may share one hyphen and are taken in
turn; this one ends the reading, so what stands behind its letter does not matter. -/
def asksVersion (argument : String) : Bool :=
  argument == "--version" || ['-', 'V'].isPrefixOf argument.toList

/-- The command that the arguments of the program give, if they give one. -/
def ofArguments : List String → Option Command
  | "build" :: rest =>
    match Arguments.readAll {} false rest with
    | some ⟨some path, pretty, options⟩ => some (.build path options pretty)
    | _ => none
  | "check" :: rest =>
    match Arguments.readAll {} false rest with
    | some ⟨some path, false, options⟩ => some (.check path options)
    | _ => none
  | first :: _ => if asksVersion first then some .version else none
  | [] => none

end Command

end MustacheMarkup
