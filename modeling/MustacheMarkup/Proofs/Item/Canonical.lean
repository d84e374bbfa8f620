import MustacheMarkup.Proofs.Item.Trim

/-!
# Trees up to the spelling of tags

`itemsCanonical` forgets two things about every element of a tree, wherever it stands: how the name
of its tag was written, for which it takes the name in lower case, and the number of the run that
built the element. The index in the identity of an element stays, and so does all the rest. Two
trees with one canonical tree are therefore the same but for these two things.
-/

set_option autoImplicit false

namespace MustacheMarkup

mutual

/-- An item with its elements in canonical form. -/
def Item.canonical : Item → Item
  | .text content => .text content
  | .mustache kind reference => .mustache kind reference
  | .block reference inverted items => .block reference inverted (itemsCanonical items)
  | .inclusion name => .inclusion name
  | .comment content => .comment content
  | .element e => .element e.canonical

/-- An element in canonical form: its tag in lower case, and built by the run with the
number zero. -/
def Element.canonical : Element → Element
  | ⟨id, _, lowerName, kind, doctype, selfClosing, isVoid, closers, children⟩ =>
    ⟨⟨0, id.index⟩, lowerName, lowerName, kind.canonical, doctype, selfClosing, isVoid, closers,
      fragmentCanonical children⟩

/-- What an element is, with the elements in it in canonical form. -/
def ElementKind.canonical : ElementKind → ElementKind
  | .component name attributes => .component name (attributesCanonical attributes)
  | .html ⟨tag, attributes, proxies, intro, outro, decorator⟩ =>
    .html ⟨tag, attributesCanonical attributes, directivesCanonical proxies,
      transitionCanonical intro, transitionCanonical outro, decorator⟩

/-- Attributes with the elements in their values in canonical form. -/
def attributesCanonical : List Attribute → List Attribute
  | [] => []
  | ⟨name, value⟩ :: rest => ⟨name, fragmentCanonical value⟩ :: attributesCanonical rest

/-- Directives with the elements in them in canonical form. -/
def directivesCanonical : List Directive → List Directive
  | [] => []
  | d :: rest => d.canonical :: directivesCanonical rest

/-- A transition, if there is one, with the elements in it in canonical form. -/
def transitionCanonical : Option Directive → Option Directive
  | none => none
  | some d => some d.canonical

/-- A directive with the elements in it in canonical form. -/
def Directive.canonical : Directive → Directive
  | ⟨occasion, .fixed name, arguments, dynamicArguments⟩ =>
    ⟨occasion, .fixed name, arguments, fragmentCanonical dynamicArguments⟩
  | ⟨occasion, .dynamic items, arguments, dynamicArguments⟩ =>
    ⟨occasion, .dynamic (itemsCanonical items), arguments, fragmentCanonical dynamicArguments⟩

/-- Items that need not be there, with their elements in canonical form. -/
def fragmentCanonical : Option (List Item) → Option (List Item)
  | none => none
  | some items => some (itemsCanonical items)

/-- Items with their elements in canonical form. -/
def itemsCanonical : List Item → List Item
  | [] => []
  | item :: rest => item.canonical :: itemsCanonical rest

end

/-- An attribute with the elements in its value in canonical form. -/
def Attribute.canonical (a : Attribute) : Attribute :=
  ⟨a.name, fragmentCanonical a.value⟩

/-- The name of a directive with the elements in it in canonical form. -/
def DirectiveName.canonical : DirectiveName → DirectiveName
  | .fixed name => .fixed name
  | .dynamic items => .dynamic (itemsCanonical items)

/-! ## Lists -/

/-- The canonical form of a list is that of each item. -/
theorem itemsCanonical_eq (items : List Item) :
    itemsCanonical items = items.map Item.canonical := by
  induction items with
  | nil => rfl
  | cons item rest ih => rw [itemsCanonical, ih, List.map_cons]

/-- The same as an equation of functions, to be used under a map. -/
theorem itemsCanonical_eq_map : itemsCanonical = List.map Item.canonical :=
  funext itemsCanonical_eq

/-- The canonical form of attributes is that of each attribute. -/
theorem attributesCanonical_eq (attributes : List Attribute) :
    attributesCanonical attributes = attributes.map Attribute.canonical := by
  induction attributes with
  | nil => rfl
  | cons a rest ih =>
    obtain ⟨name, value⟩ := a
    rw [attributesCanonical, ih, List.map_cons, Attribute.canonical]

/-- The canonical form of directives is that of each directive. -/
theorem directivesCanonical_eq (directives : List Directive) :
    directivesCanonical directives = directives.map Directive.canonical := by
  induction directives with
  | nil => rfl
  | cons d rest ih => rw [directivesCanonical, ih, List.map_cons]

/-- The canonical form of a transition, if there is one. -/
theorem transitionCanonical_eq (transition : Option Directive) :
    transitionCanonical transition = transition.map Directive.canonical := by
  cases transition <;> rfl

/-- The canonical form of a fragment, if there is one. -/
theorem fragmentCanonical_eq (fragment : Option (List Item)) :
    fragmentCanonical fragment = fragment.map itemsCanonical := by
  cases fragment <;> rfl

/-- A directive keeps its occasion and its known arguments. Only the items in it change. -/
theorem Directive.canonical_eq (d : Directive) : d.canonical =
    ⟨d.occasion, d.name.canonical, d.arguments, fragmentCanonical d.dynamicArguments⟩ := by
  obtain ⟨occasion, _ | _, arguments, dynamicArguments⟩ := d <;> rfl

/-- The canonical form of trimmed items is that of the items, trimmed: only texts are trimmed. -/
theorem itemsCanonical_trimBoundary (items : List Item) :
    itemsCanonical (trimBoundary items) = trimBoundary (itemsCanonical items) := by
  rw [itemsCanonical_eq, itemsCanonical_eq]
  refine map_trimBoundary (fun content => rfl) (fun item h content => ?_) items
  cases item with
  | text content' => exact absurd rfl (h content')
  | _ => exact fun heq => by cases heq

end MustacheMarkup
