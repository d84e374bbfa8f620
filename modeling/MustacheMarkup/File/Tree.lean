import MustacheMarkup.File.Path

/-!
# Files and directories

The files and directories of a system, by the names that lead to them from the root. A path is
followed name by name: from the root if it starts with a slash, and from the working directory
otherwise. The system may refuse to let a file be read or written, for reasons of its own; a file
is written as a whole or not at all. There are no links, so names that differ lead to files that
differ.
-/

set_option autoImplicit false

namespace MustacheMarkup

/-- Why a file cannot be read or written. -/
inductive FileFault where
  | missing
  | isDirectory
  | nameTooLong
  /-- anything else, in the words of the system -/
  | other (message : String)
deriving Repr, DecidableEq

/-- The wording of a fault. -/
def FileFault.message : FileFault → String
  | .missing => "No such file or directory (os error 2)"
  | .isDirectory => "Is a directory (os error 21)"
  | .nameTooLong => "File name too long (os error 36)"
  | .other message => message

/-- What a name leads to. -/
inductive Entry where
  | directory
  | file (content : ByteArray)

/-- Files and directories, where paths start, and what the system refuses. -/
structure FileTree where
  /-- files and directories by the names that lead to them from the root. The directories on the way
  to an entry need no entry of their own -/
  entries : List (List String × Entry)
  /-- the names that lead from the root to the working directory -/
  workingDirectory : List String
  /-- why the system does not let what these names lead to be read, if it does not -/
  readFault : List String → Option String
  /-- why the system does not let a content be written to these names, if it does not -/
  writeFault : List String → ByteArray → Option String

namespace FileTree

/-- Whether something stands in what some names lead to, or further below. -/
def hasBelow (tree : FileTree) (names : List String) : Bool :=
  tree.entries.any fun e => names.isPrefixOf e.1 && names != e.1

/-- What some names lead to. The root is a directory, and so is everything that something stands
in. -/
def entry? (tree : FileTree) (names : List String) : Option Entry :=
  if names.isEmpty || tree.hasBelow names then some .directory else tree.entries.lookup names

/-- Whether some names lead to a directory. -/
def isDirectory (tree : FileTree) (names : List String) : Bool :=
  match tree.entry? names with
  | some .directory => true
  | _ => false

/-- Where a name leads from a directory, whether or not anything is there. Above the root there is
only the root. -/
def go (names : List String) (name : List Char) : List String :=
  if name = [] ∨ name = ['.'] then names
  else if name = ['.', '.'] then names.dropLast
  else names ++ [String.ofList name]

/-- Where names lead from a place. All but the last place on the way have to be directories. -/
def walk (tree : FileTree) (names : List String) : List (List Char) → Option (List String)
  | [] => some names
  | name :: rest => if tree.isDirectory names then tree.walk (go names name) rest else none

/-- Where a path starts. -/
def origin (tree : FileTree) (path : String) : List String :=
  if Path.isAbsolute path.toList then [] else tree.workingDirectory

/-- The names to which a path leads, whether or not anything is there. -/
def place? (tree : FileTree) (path : String) : Option (List String) :=
  if path.isEmpty then none else tree.walk (tree.origin path) (Path.parts path.toList)

/-- How many bytes a name may have. -/
def nameLimit : Nat := 255

/-- How many bytes a path may have. -/
def pathLimit : Nat := 4095

/-- Whether a path or one of its names is too long for a file. -/
def isTooLong (path : String) : Bool :=
  path.utf8ByteSize > pathLimit ||
    (Path.parts path.toList).any fun name => (String.ofList name).utf8ByteSize > nameLimit

/-- The content of the file that a path leads to. -/
def read (tree : FileTree) (path : String) : Except FileFault ByteArray :=
  if isTooLong path then .error .missing
  else
    match tree.place? path with
    | none => .error .missing
    | some names =>
      match tree.entry? names, tree.readFault names with
      | none, _ => .error .missing
      | some _, some message => .error (.other message)
      | some .directory, none => .error .isDirectory
      | some (.file content), none => .ok content

/-- Give names a content. -/
def put (tree : FileTree) (names : List String) (content : ByteArray) : FileTree :=
  { tree with
    entries :=
      if (tree.entries.lookup names).isSome then
        tree.entries.map fun e => if e.1 = names then (names, .file content) else e
      else tree.entries ++ [(names, .file content)] }

/-- Write a file, which need not be there yet. -/
def write (tree : FileTree) (path : String) (content : ByteArray) : Except FileFault FileTree :=
  if isTooLong path then .error .nameTooLong
  else
    match tree.place? path with
    | none => .error .missing
    | some names =>
      match tree.entry? names, tree.writeFault names content with
      | some .directory, _ => .error .isDirectory
      | _, some message => .error (.other message)
      | _, none => .ok (tree.put names content)

end FileTree

end MustacheMarkup
