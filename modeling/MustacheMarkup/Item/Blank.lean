import MustacheMarkup.Item.Basic
import MustacheMarkup.Text.Blank

/-!
# Blanks at the ends of content

Where blanks are not kept, the content of an element and the items of a template are trimmed once,
when they are complete: a first or last text loses its blanks on that side, and is dropped if
nothing is left of it. What then comes first or last stays as it is.
-/

set_option autoImplicit false

namespace MustacheMarkup

/-- Items without the blanks at the start of a first text, and without that text if nothing is
left. -/
def trimFirst : List Item → List Item
  | .text s :: rest =>
    let trimmed := Text.trimStart s
    if trimmed.isEmpty then rest else .text trimmed :: rest
  | items => items

/-- Items without the blanks at the end of a last text, and without that text if nothing is left. -/
def trimLast : List Item → List Item
  | [] => []
  | [.text s] =>
    let trimmed := Text.trimEnd s
    if trimmed.isEmpty then [] else [.text trimmed]
  | item :: rest => item :: trimLast rest

/-- Items without blanks at either end. The start is trimmed first. -/
def trimBoundary (items : List Item) : List Item :=
  trimLast (trimFirst items)

end MustacheMarkup
