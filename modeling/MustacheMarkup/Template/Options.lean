/-!
# Options

What a caller may choose about building a template.
-/

set_option autoImplicit false

namespace MustacheMarkup

/-- What a caller may choose. -/
structure Options where
  /-- keep blanks as they are written, not only inside `pre` -/
  preserveWhitespace : Bool := false
  /-- drop the attributes of event handlers from elements of the markup -/
  sanitizeEventAttributes : Bool := false
deriving Repr, DecidableEq, Inhabited

end MustacheMarkup
