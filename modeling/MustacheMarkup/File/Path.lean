/-!
# Paths

A path is names between slashes. A last part that is empty or `.` names nothing, so it is looked
past when the last name is asked for; a `.` at the very start counts, because it says where the
path starts.
-/

set_option autoImplicit false

namespace MustacheMarkup.Path

/-- The names of a path, empty ones and `.` included. -/
def parts : List Char → List (List Char)
  | [] => [[]]
  | c :: rest =>
    if c = '/' then [] :: parts rest
    else
      match parts rest with
      | [] => [[c]]
      | name :: names => (c :: name) :: names

/-- Whether a path starts from the root. -/
def isAbsolute : List Char → Bool
  | '/' :: _ => true
  | _ => false

/-- The slash or dot that says where a path starts. -/
def root : List Char → List Char
  | '/' :: _ => ['/']
  | ['.'] => ['.']
  | '.' :: '/' :: _ => ['.']
  | _ => []

/-- What is left of the rest of a path, in reverse, behind last parts that name nothing. -/
def dropNameless : List Char → List Char
  | '/' :: rest => dropNameless rest
  | ['.'] => []
  | '.' :: '/' :: rest => dropNameless rest
  | path => path

/-- The last name of a path, and the path of the directory that it stands in. -/
def split (path : String) : List Char × List Char :=
  let start := root path.toList
  let body := dropNameless (path.toList.drop start.length).reverse
  let name := (body.takeWhile (· != '/')).reverse
  let parent := dropNameless ((body.dropWhile (· != '/')).drop 1)
  (name, start ++ parent.reverse)

/-- A name without what its last dot starts, if anything stands before that dot. -/
def stem (name : List Char) : List Char :=
  match (name.reverse.dropWhile (· != '.')).drop 1 with
  | [] => name
  | before => before.reverse

/-- A name in a directory. -/
def join (directory name : List Char) : List Char :=
  if directory.isEmpty ∨ directory.getLast? = some '/' then directory ++ name
  else directory ++ '/' :: name

/-- The path beside a file with its extension replaced, unless the path ends with no name. -/
def besideWith (extension path : String) : Option String :=
  let (name, directory) := split path
  if name.isEmpty ∨ name = ['.', '.'] then none
  else some (String.ofList (join directory (stem name ++ '.' :: extension.toList)))

end MustacheMarkup.Path
