import MustacheMarkup.Token.Scan

/-!
# Why a template cannot be built

A source text that can be read is refused only for the attributes of one of its tags.
-/

set_option autoImplicit false

namespace MustacheMarkup

/-- Why a template cannot be built. -/
inductive ParseFault where
  /-- the source text cannot be read -/
  | unreadable (fault : ScanFault)
  /-- an element has a second intro transition -/
  | secondIntro
  /-- an element has a second outro transition -/
  | secondOutro
  /-- an attribute for both transitions stands beside another transition -/
  | secondIntroOutro
  /-- a directive has no occasion or no value -/
  | illegalDirective
  /-- a decorator has no value -/
  | illegalDecorator
deriving Repr, DecidableEq

/-- The kinds of faults. -/
inductive ParseFaultKind where
  | reading
  | structural
  | directive
deriving Repr, DecidableEq

namespace ParseFault

/-- The kind of a fault. -/
def kind : ParseFault → ParseFaultKind
  | .unreadable _ => .reading
  | .secondIntro | .secondOutro | .secondIntroOutro => .structural
  | .illegalDirective | .illegalDecorator => .directive

/-- The wording of a fault. -/
def message : ParseFault → String
  | .unreadable fault => fault.message
  | .secondIntro => "An element can only have one intro transition"
  | .secondOutro => "An element can only have one outro transition"
  | .secondIntroOutro => "An element can only have one intro and one outro transition"
  | .illegalDirective => "Illegal directive"
  | .illegalDecorator => "Illegal decorator"

end ParseFault

/-- A fault and where it is reported. -/
structure ParseError where
  fault : ParseFault
  line : Nat
  column : Nat
deriving Repr, DecidableEq

namespace ParseError

/-- The kind of an error. -/
def kind (e : ParseError) : ParseFaultKind :=
  e.fault.kind

/-- The text of an error. -/
def message (e : ParseError) : String :=
  describeFault "Parse" e.line e.column e.fault.message

/-- An error of reading as a reason that a template cannot be built. -/
def ofScanError (e : ScanError) : ParseError :=
  ⟨.unreadable e.fault, e.line, e.column⟩

end ParseError

/-- A fault that is reported where a tag starts. -/
def ParseFault.at (fault : ParseFault) (span : Span) : ParseError :=
  ⟨fault, span.line, span.column⟩

end MustacheMarkup
