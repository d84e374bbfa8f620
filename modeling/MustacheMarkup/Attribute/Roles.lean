import MustacheMarkup.ParseError

/-!
# The roles of attributes

The attributes of an element of the markup are sorted by what they stand for. The name of an
attribute alone gives its role. An element has at most one transition of each direction; of its
decorators the last one counts.
-/

set_option autoImplicit false

namespace MustacheMarkup

/-- What an attribute stands for. -/
inductive Role where
  /-- an attribute of the markup -/
  | plain
  /-- an event that the element passes on -/
  | proxy (occasion : String)
  /-- the transition when the element appears -/
  | intro
  /-- the transition when the element disappears -/
  | outro
  /-- both transitions -/
  | introOutro
  /-- a decorator -/
  | decorator
deriving Repr, DecidableEq

/-- The rest of a text that starts in a given way. -/
def afterMark? (mark name : String) : Option String :=
  if mark.toList.isPrefixOf name.toList then
    some (String.ofList (name.toList.drop mark.toList.length))
  else none

/-- The occasion in the name of an attribute that passes on an event. -/
def proxyOccasion? (name : String) : Option String :=
  (afterMark? "proxy-" name).or (afterMark? "on-" name)

/-- The role that a name gives. Capital letters count. -/
def Role.ofName (name : String) : Role :=
  if name = "intro" then .intro
  else if name = "outro" then .outro
  else if name = "intro-outro" then .introOutro
  else if name = "decorator" then .decorator
  else
    match proxyOccasion? name with
    | some occasion => .proxy occasion
    | none => .plain

/-- The attributes of an element, sorted by role. -/
structure SortedAttributes where
  plain : List RawAttribute
  /-- the proxies, each named for its occasion -/
  proxies : List RawAttribute
  intro : Option RawAttribute
  outro : Option RawAttribute
  decorator : Option RawAttribute

namespace SortedAttributes

/-- No attributes. -/
def empty : SortedAttributes := ⟨[], [], none, none, none⟩

/-- Sort one more attribute. -/
def add (sorted : SortedAttributes) (a : RawAttribute) : Except ParseFault SortedAttributes :=
  match Role.ofName a.name with
  | .plain => .ok { sorted with plain := sorted.plain ++ [a] }
  | .proxy occasion => .ok { sorted with proxies := sorted.proxies ++ [⟨occasion, a.value⟩] }
  | .intro =>
    if sorted.intro.isSome then .error .secondIntro else .ok { sorted with intro := some a }
  | .outro =>
    if sorted.outro.isSome then .error .secondOutro else .ok { sorted with outro := some a }
  | .introOutro =>
    if sorted.intro.isSome || sorted.outro.isSome then .error .secondIntroOutro
    else .ok { sorted with intro := some a, outro := some a }
  | .decorator => .ok { sorted with decorator := some a }

/-- Sort further attributes. -/
def addAll (sorted : SortedAttributes) : List RawAttribute → Except ParseFault SortedAttributes
  | [] => .ok sorted
  | a :: rest =>
    match sorted.add a with
    | .error fault => .error fault
    | .ok sorted => sorted.addAll rest

/-- Sort the attributes of an element. -/
def ofList (attributes : List RawAttribute) : Except ParseFault SortedAttributes :=
  empty.addAll attributes

end SortedAttributes

end MustacheMarkup
