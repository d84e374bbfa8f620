import MustacheMarkup.Output.Serializer
import MustacheMarkup.Template.Build

/-!
# Compiling a template

From a source text to its structured form, in which everything literal stands as markup. On the way
reading, building and writing report what they do; `compileReporting` keeps these reports.
-/

set_option autoImplicit false

namespace MustacheMarkup

/-- The version of the compiler. -/
def compilerVersion : String := "0.3.0"

/-- Why a source text has no structured form. -/
inductive CompileError where
  /-- the template cannot be built -/
  | build (error : ParseError)
  /-- the template that was built has no structured form -/
  | write (error : StructureError)
deriving Repr, DecidableEq

/-- The text of an error. -/
def CompileError.message : CompileError → String
  | .build e => e.message
  | .write e => e.message

/-- The structured form of a template. -/
def Template.compile (items : List Item) : Except StructureError Json :=
  itemsStructured true items

/-- The structured form of a source text. -/
def compile (options : Options) (source : String) : Except CompileError Json :=
  match Template.parse options source with
  | .error e => .error (.build e)
  | .ok items => (Template.compile items).mapError .write

/-- The structured form of a source text, written by a serializer that remembers nothing yet, and
what is reported on the way. -/
def compileReporting (options : Options) (source : String) : Outcome Unit CompileError Json :=
  let built := Template.ofSource ⟨options, 0⟩ source
  match built.result with
  | .error e => ⟨.error (.build e), (), built.log⟩
  | .ok items =>
    let written := Serializer.compile items
    ⟨written.result.mapError .write, (), built.log ++ written.log⟩

end MustacheMarkup
