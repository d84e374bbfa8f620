import MustacheMarkup.Proofs.Item.Trim

/-!
# The elements of a tree

All elements that occur anywhere in a tree: in the content of elements and of sections, in the
values of attributes, and in the dynamic parts of directives. They are listed in the order in which
they are built, which is an element, then what its attributes hold, then its content.
-/

set_option autoImplicit false

namespace MustacheMarkup

mutual

/-- The elements of an item. -/
def Item.elements : Item → List Element
  | .text _ => []
  | .mustache _ _ => []
  | .block _ _ items => itemsElements items
  | .inclusion _ => []
  | .comment _ => []
  | .element e => e.elements

/-- An element and those in it. -/
def Element.elements : Element → List Element
  | ⟨id, rawName, lowerName, kind, doctype, selfClosing, isVoid, closers, children⟩ =>
    ⟨id, rawName, lowerName, kind, doctype, selfClosing, isVoid, closers, children⟩ ::
      (kind.elements ++ fragmentElements children)

/-- The elements in what an element has besides its content. -/
def ElementKind.elements : ElementKind → List Element
  | .component _ attributes => attributesElements attributes
  | .html ⟨_, attributes, proxies, intro, outro, _⟩ =>
    attributesElements attributes ++ directivesElements proxies ++ transitionElements intro ++
      transitionElements outro

/-- The elements in the values of attributes. -/
def attributesElements : List Attribute → List Element
  | [] => []
  | ⟨_, value⟩ :: rest => fragmentElements value ++ attributesElements rest

/-- The elements in directives. -/
def directivesElements : List Directive → List Element
  | [] => []
  | d :: rest => d.elements ++ directivesElements rest

/-- The elements in a transition, if there is one. -/
def transitionElements : Option Directive → List Element
  | none => []
  | some d => d.elements

/-- The elements in a directive. -/
def Directive.elements : Directive → List Element
  | ⟨_, .fixed _, _, dynamicArguments⟩ => fragmentElements dynamicArguments
  | ⟨_, .dynamic items, _, dynamicArguments⟩ =>
    itemsElements items ++ fragmentElements dynamicArguments

/-- The elements of items that need not be there. -/
def fragmentElements : Option (List Item) → List Element
  | none => []
  | some items => itemsElements items

/-- The elements of items. -/
def itemsElements : List Item → List Element
  | [] => []
  | item :: rest => item.elements ++ itemsElements rest

end

/-- An element is among its own elements. -/
theorem Element.mem_elements_self (e : Element) : e ∈ e.elements := by
  obtain ⟨id, rawName, lowerName, kind, doctype, selfClosing, isVoid, closers, children⟩ := e
  rw [Element.elements]
  exact List.mem_cons_self

/-! ## Listings as they are put together -/

/-- The elements of a list are those of its items, in order. -/
theorem itemsElements_eq (items : List Item) :
    itemsElements items = items.flatMap Item.elements := by
  induction items with
  | nil => rfl
  | cons item rest ih => rw [itemsElements, ih, List.flatMap_cons]

/-- The elements of attributes are those in their values, in order. -/
theorem attributesElements_eq (attributes : List Attribute) :
    attributesElements attributes = attributes.flatMap fun a => fragmentElements a.value := by
  induction attributes with
  | nil => rfl
  | cons a rest ih =>
    obtain ⟨name, value⟩ := a
    rw [attributesElements, ih, List.flatMap_cons]

/-- Attributes have no elements exactly if none of their values has any. -/
theorem attributesElements_eq_nil_iff {attributes : List Attribute} :
    attributesElements attributes = [] ↔ ∀ a ∈ attributes, fragmentElements a.value = [] := by
  rw [attributesElements_eq, List.flatMap_eq_nil_iff]

/-- The elements of directives are those of each, in order. -/
theorem directivesElements_eq (directives : List Directive) :
    directivesElements directives = directives.flatMap Directive.elements := by
  induction directives with
  | nil => rfl
  | cons d rest ih => rw [directivesElements, ih, List.flatMap_cons]

/-- A transition is counted like a directive in a list. -/
theorem transitionElements_eq (transition : Option Directive) :
    transitionElements transition = directivesElements transition.toList := by
  cases transition with
  | none => rfl
  | some d => exact (List.append_nil d.elements).symm

/-- A fragment that is not there has no elements. -/
theorem fragmentElements_eq (items : Option (List Item)) :
    fragmentElements items = items.toList.flatMap itemsElements := by
  cases items with
  | none => rfl
  | some items => exact (List.flatMap_singleton itemsElements items).symm

/-- The elements in the name of a directive. -/
def DirectiveName.elements : DirectiveName → List Element
  | .fixed _ => []
  | .dynamic items => itemsElements items

/-- The elements in a directive are those in its name, then those in its arguments. -/
theorem Directive.elements_eq (d : Directive) :
    d.elements = d.name.elements ++ fragmentElements d.dynamicArguments := by
  obtain ⟨occasion, _ | items, arguments, dynamicArguments⟩ := d <;> rfl

/-! ## Blanks at the ends -/

/-- Only blanks are trimmed, no elements. -/
theorem elements_trimBoundary (items : List Item) :
    itemsElements (trimBoundary items) = itemsElements items := by
  rw [itemsElements_eq, itemsElements_eq]
  exact flatMap_trimBoundary (fun _ => rfl) items

/-- Whether blanks are kept or trimmed makes no difference to the elements. -/
theorem elements_keptOrTrimmed (kept : Bool) (items : List Item) :
    itemsElements (if kept then items else trimBoundary items) = itemsElements items := by
  rw [itemsElements_eq, itemsElements_eq]
  exact flatMap_keptOrTrimmed (fun _ => rfl) kept items

end MustacheMarkup
