import MustacheMarkup.Item.Blank

/-!
# Tidying blanks

What it is to tidy the blanks of items that have been built: runs of blanks in texts are collapsed
and the content of elements is trimmed at both ends, from the innermost element outwards. The
content of a verbatim element is left as it is. The items of a section are tidied one by one and not
trimmed, and nothing that belongs to the attributes of an element is touched.
-/

set_option autoImplicit false

namespace MustacheMarkup

mutual

/-- An item with its blanks tidied. -/
def Item.tidied : Item → Item
  | .text content => .text (Text.collapse content)
  | .mustache kind reference => .mustache kind reference
  | .block reference inverted items => .block reference inverted (itemsTidied items)
  | .inclusion name => .inclusion name
  | .comment content => .comment content
  | .element e => .element e.tidied

/-- An element with the blanks in its content tidied. -/
def Element.tidied : Element → Element
  | ⟨id, rawName, lowerName, kind, doctype, selfClosing, isVoid, closers, none⟩ =>
    ⟨id, rawName, lowerName, kind, doctype, selfClosing, isVoid, closers, none⟩
  | ⟨id, rawName, lowerName, kind, doctype, selfClosing, isVoid, closers, some children⟩ =>
    ⟨id, rawName, lowerName, kind, doctype, selfClosing, isVoid, closers,
      some (if lowerName == Vocabulary.verbatimElement then children
        else trimBoundary (itemsTidied children))⟩

/-- Items with their blanks tidied, each by itself. -/
def itemsTidied : List Item → List Item
  | [] => []
  | item :: rest => item.tidied :: itemsTidied rest

end

end MustacheMarkup
