import MustacheMarkup.Text.Blank

/-!
# Writing tags

How a tag is written, given the texts of its attributes. A value is quoted only where it has to
be, so a tag that closes itself needs a space behind a last value without quotes.
-/

set_option autoImplicit false

namespace MustacheMarkup.Output

/-- The characters besides blanks for which a value is quoted. -/
def quotedCharacters : List Char :=
  ['"', '\'', '=', '<', '>', '\x60']

/-- Whether a value has to be quoted. -/
def needsQuotes (value : String) : Bool :=
  value.toList.any fun c => Text.isBlank c || quotedCharacters.contains c

/-- A value as it stands between double quotes. -/
def escapeQuotes (value : String) : String :=
  String.ofList (value.toList.flatMap fun c => if c = '"' then "&quot;".toList else [c])

/-- A value as it is written behind `=`. -/
def valueText (value : String) : String :=
  if needsQuotes value then "\"" ++ escapeQuotes value ++ "\"" else value

/-- An attribute with the space before it. An empty value is left out with its `=`. -/
def attributeText : String × Option String → String
  | (name, none) => " " ++ name
  | (name, some value) =>
    if value.isEmpty then " " ++ name else " " ++ name ++ "=" ++ valueText value

/-- Whether an attribute ends with a value without quotes. -/
def endsUnquoted : String × Option String → Bool
  | (_, none) => false
  | (_, some value) => !value.isEmpty && !needsQuotes value

/-- The end of an opening tag. -/
def tagEnd (attributes : List (String × Option String)) (void selfClosing : Bool) : String :=
  if void then ">"
  else if selfClosing then
    if attributes.getLast?.any endsUnquoted then " />" else "/>"
  else ">"

/-- An opening tag. -/
def openingTag (tag : String) (attributes : List (String × Option String))
    (void selfClosing : Bool) : String :=
  "<" ++ tag ++ String.join (attributes.map attributeText) ++ tagEnd attributes void selfClosing

/-- An element. One that closes itself or never has content is its opening tag alone. -/
def elementText (tag : String) (attributes : List (String × Option String))
    (void selfClosing : Bool) (content : String) : String :=
  openingTag tag attributes void selfClosing ++
    if void || selfClosing then "" else content ++ "</" ++ tag ++ ">"

/-- Whether an attribute keeps its element from being written as markup. -/
def isReserved (name : String) : Bool :=
  name.toList.contains ':' || ["id", "intro", "outro"].contains name

end MustacheMarkup.Output
