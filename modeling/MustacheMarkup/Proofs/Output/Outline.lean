import MustacheMarkup.Output.Structured
import MustacheMarkup.Proofs.Journal.Success
import MustacheMarkup.Proofs.Template.Built

/-!
# What structured forms keep of a tree

A structured form without markup says nothing of identities, of the name of a tag as it was written,
of whether an element closes itself, and of whether an element without content could have some. It
has the form of a directive in place of the directive, and of the proxies for one occasion only the
last. `Item.outline` forgets just these. Everything else can be read from the form again:
`Json.outline` does that, and it gives the outline of every item that is built from its form
(`outline_of_structured`). The form of a mustache tells only two kinds apart, but there are no
others in what is built.
-/

set_option autoImplicit false

namespace MustacheMarkup

open Output Building Journal

/-! ## Outlines -/

mutual

/-- What a structured form without markup keeps of an item. -/
inductive Outline where
  | text (content : String)
  | mustache (kind : MustacheKind) (reference : String)
  | block (reference : String) (inverted : Bool) (items : List Outline)
  | inclusion (name : String)
  | comment (content : String)
  | element (element : ElementOutline)

/-- What a structured form without markup keeps of an element. -/
structure ElementOutline where
  /-- whether the element is a component -/
  component : Bool
  /-- the component's name, or the name to write in the tag -/
  tag : String
  doctype : Bool
  /-- the attributes in order, with their values if they have any -/
  attributes : List (String × Option (List Outline))
  content : List Outline
  /-- the form of the last directive for each occasion -/
  proxies : List (String × Except StructureError Json)
  /-- the forms of the transitions -/
  intro : Option (Except StructureError Json)
  outro : Option (Except StructureError Json)
  decorator : Option String

end

mutual

/-- The outline of an item. -/
def Item.outline : Item → Outline
  | .text content => .text content
  | .mustache kind reference => .mustache kind reference
  | .block reference inverted items => .block reference inverted (itemsOutline items)
  | .inclusion name => .inclusion name
  | .comment content => .comment content
  | .element e => .element e.outline

/-- The outline of an element. -/
def Element.outline : Element → ElementOutline
  | ⟨_, _, _, .component name attributes, doctype, _, _, _, children⟩ =>
    ⟨true, name, doctype, attributesOutline attributes, childrenOutline children, [], none, none,
      none⟩
  | ⟨_, _, _, .html ⟨tag, attributes, proxies, intro, outro, decorator⟩, doctype, _, _, _,
      children⟩ =>
    ⟨false, tag, doctype, attributesOutline attributes, childrenOutline children,
      Json.ofPairs (proxies.map fun d => (d.occasion, d.structured)),
      intro.map Directive.structured, outro.map Directive.structured, decorator⟩

/-- The outlines of attributes. -/
def attributesOutline : List Attribute → List (String × Option (List Outline))
  | [] => []
  | ⟨name, none⟩ :: rest => (name, none) :: attributesOutline rest
  | ⟨name, some items⟩ :: rest => (name, some (itemsOutline items)) :: attributesOutline rest

/-- The outline of content, which may be missing. -/
def childrenOutline : Option (List Item) → List Outline
  | none => []
  | some items => itemsOutline items

/-- The outlines of items. -/
def itemsOutline : List Item → List Outline
  | [] => []
  | item :: rest => item.outline :: itemsOutline rest

end

/-! ## Reading forms -/

/-- The code with a number. -/
def Output.Code.ofNumber? (n : Int) : Option Code :=
  [Code.interpolation, .unescaped, .block, .element, .inclusion, .comment, .component].find?
    (·.number == n)

/-- The codes of the forms are told apart. -/
theorem Output.Code.ofNumber?_number (code : Code) : ofNumber? code.number = some code := by
  cases code <;> rfl

/-- The code that a value is the number of. -/
def Json.code? : Json → Option Code
  | .integer n => Code.ofNumber? n
  | _ => none

/-- The text of a value, if it is one. -/
def Json.textValue : Json → String
  | .string s => s
  | _ => ""

/-- The members of a value, each as a form. -/
def Json.formMembers : Json → List (String × Except StructureError Json)
  | .object members => members.map fun m => (m.1, .ok m.2)
  | _ => []

/-- What a member of a form can say: its value, and the outlines that are read from the value as
content and as attributes. -/
structure FormMember where
  value : Json
  content : List Outline
  attributes : List (String × Option (List Outline))

/-- The outline of what has these members as its form. -/
def Outline.ofMembers (members : List (String × FormMember)) : Outline :=
  let text key := ((members.lookup key).map (·.value.textValue)).getD ""
  let content := ((members.lookup "f").map (·.content)).getD []
  match (members.lookup "t").bind (·.value.code?) with
  | some .interpolation => .mustache .interpolation (text "r")
  | some .unescaped => .mustache .unescaped (text "r")
  | some .block => .block (text "r") (members.lookup "n").isSome content
  | some .inclusion => .inclusion (text "r")
  | some .comment => .comment (text "f")
  | code =>
    .element
      { component := code == some .component
        tag := text "e"
        doctype := (members.lookup "y").isSome
        attributes := ((members.lookup "a").map (·.attributes)).getD []
        content
        proxies := ((members.lookup "v").map (·.value.formMembers)).getD []
        intro := (members.lookup "t1").map (.ok ·.value)
        outro := (members.lookup "t2").map (.ok ·.value)
        decorator := (members.lookup "o").map (·.value.textValue) }

mutual

/-- The outline that is read from a form. -/
def Json.outline : Json → Outline
  | .object members => .ofMembers (readMembers members)
  | form => .text form.textValue

/-- What the members of a form say. -/
def readMembers : List (String × Json) → List (String × FormMember)
  | [] => []
  | (key, value) :: rest =>
    (key, ⟨value, value.contentOutline, value.attributesOutline⟩) :: readMembers rest

/-- The outlines that are read from the form of content. -/
def Json.contentOutline : Json → List Outline
  | .array forms => formsOutline forms
  | _ => []

/-- The attributes that are read from their form. -/
def Json.attributesOutline : Json → List (String × Option (List Outline))
  | .object members => valuesOutline members
  | _ => []

/-- The attributes that are read from the forms of their values. -/
def valuesOutline : List (String × Json) → List (String × Option (List Outline))
  | [] => []
  | (name, .null) :: rest => (name, none) :: valuesOutline rest
  | (name, value) :: rest => (name, some value.contentOutline) :: valuesOutline rest

/-- The outlines that are read from forms. -/
def formsOutline : List Json → List Outline
  | [] => []
  | form :: rest => form.outline :: formsOutline rest

end

/-! ## Looking up members -/

/-- What a member with this value says. -/
def Json.formMember (value : Json) : FormMember :=
  ⟨value, value.contentOutline, value.attributesOutline⟩

/-- The members that are read of a form are its own, one by one. -/
theorem lookup_readMembers (members : List (String × Json)) (key : String) :
    (readMembers members).lookup key = (members.lookup key).map Json.formMember := by
  induction members with
  | nil => rfl
  | cons m rest ih =>
    obtain ⟨other, value⟩ := m
    rw [readMembers, List.lookup_cons, List.lookup_cons, ih]
    cases key == other <;> rfl

/-- A member that may be missing is found under its key and under no other. -/
theorem lookup_optionalMember (key other : String) (value : Option Json) :
    (optionalMember key value).lookup other = if other == key then value else none := by
  cases value with
  | none => simp [optionalMember]
  | some value =>
    rw [optionalMember, List.lookup_cons]
    cases other == key <;> rfl

/-- A flag is a member that is there or not. -/
theorem flagMember_eq (key : String) (flag : Bool) :
    flagMember key flag = optionalMember key (if flag then some (.integer 1) else none) := by
  cases flag <;> rfl

/-- The outline of a mustache can be read off its form, because the two kinds that are built have
codes of their own. -/
theorem outline_mustacheForm {kind : MustacheKind} (h : kind.Inserts) (reference : String) :
    (mustacheForm kind reference).outline = .mustache kind reference := by
  rcases h with rfl | rfl <;> rfl

/-- The outline of a section can be read off its form, with that of its content. -/
theorem outline_blockForm (reference : String) (inverted : Bool) (content : Option Json) :
    (blockForm reference inverted content).outline =
      .block reference inverted (content.elim [] Json.contentOutline) := by
  cases inverted <;> cases content <;> rfl

/-- What is read from the form of an element, whose code says whether it is a component. Members
that are left out of the form are read as empty or missing. -/
theorem Output.ElementParts.outline_form (p : ElementParts)
    (hcode : p.code = .element ∨ p.code = .component) :
    p.form.outline = .element
      { component := p.code == .component
        tag := p.tag
        doctype := p.doctype
        attributes := valuesOutline p.attributes
        content := p.content.elim [] Json.contentOutline
        proxies := p.proxies.map fun m => (m.1, .ok m.2)
        intro := p.intro.map .ok
        outro := p.outro.map .ok
        decorator := p.decorator } := by
  obtain ⟨code, tag, doctype, attributes, content, proxies, intro, outro, decorator⟩ := p
  have hnumber : (Json.integer code.number).formMember.value.code? = some code :=
    Code.ofNumber?_number code
  have hdoctype :
      (if doctype then some (Json.integer 1).formMember else none).isSome = doctype := by
    cases doctype <;> rfl
  have hattributes : ((if attributes = [] then none else some (Json.object attributes)).map
      ((·.attributes) ∘ Json.formMember)).getD [] = valuesOutline attributes := by
    cases attributes <;> rfl
  have hcontent : (content.map ((·.content) ∘ Json.formMember)).getD [] =
      content.elim [] Json.contentOutline := by
    cases content <;> rfl
  have hproxies : ((if proxies = [] then none else some (Json.object proxies)).map
      ((·.value.formMembers) ∘ Json.formMember)).getD [] = proxies.map fun m => (m.1, .ok m.2) := by
    cases proxies <;> rfl
  have hdecorator : decorator.map ((·.value.textValue) ∘ Json.formMember ∘ Json.string) =
      decorator := by
    cases decorator <;> rfl
  simp only [form, Code.member, flagMember_eq, List.cons_append, List.nil_append, List.isEmpty_iff,
    List.append_assoc, Json.outline, Outline.ofMembers, lookup_readMembers, List.lookup_cons_self,
    Option.map_some, Option.bind_some, hnumber, List.lookup_cons, String.reduceBEq,
    List.lookup_append, lookup_optionalMember, Bool.false_eq_true, ↓reduceIte, Option.or_self,
    Option.map_none, Option.getD_none, Option.isSome_none, BEq.rfl, Option.or_none, Option.none_or,
    Option.map_map, Option.getD_some, Option.map_if, hdoctype, hattributes, hcontent, hproxies,
    hdecorator]
  rcases hcode with rfl | rfl
  · rfl
  · rfl

/-! ## Reading what was written -/

/-- To read members commutes with putting one more among them. -/
theorem put_map {α β : Type} (f : α → β) (members : List (String × α)) (key : String) (value : α) :
    Json.put (members.map fun m => (m.1, f m.2)) key (f value) =
      (Json.put members key value).map fun m => (m.1, f m.2) := by
  induction members with
  | nil => rfl
  | cons m rest ih =>
    obtain ⟨k, v⟩ := m
    rw [List.map_cons, Json.put, Json.put, ih]
    split
    · rw [List.map_cons]
    · rw [List.map_cons]

/-- To change the values of pairs changes those of the members that come from them. -/
theorem ofPairs_map {α β : Type} (f : α → β) (pairs : List (String × α)) :
    Json.ofPairs (pairs.map fun p => (p.1, f p.2)) =
      (Json.ofPairs pairs).map fun m => (m.1, f m.2) := by
  have hfold : ∀ members : List (String × α),
      (pairs.map fun p => (p.1, f p.2)).foldl (fun members p => Json.put members p.1 p.2)
          (members.map fun m => (m.1, f m.2)) =
        (pairs.foldl (fun members p => Json.put members p.1 p.2) members).map
          fun m => (m.1, f m.2) := by
    induction pairs with
    | nil => exact fun _ => rfl
    | cons p rest ih =>
      intro members
      rw [List.map_cons, List.foldl_cons, List.foldl_cons, put_map, ih]
  exact hfold []

/-- The forms of proxies that are written are their forms. -/
theorem forms_of_proxiesStructured {proxies : List Directive} {forms : List (String × Json)}
    (h : proxiesStructured proxies = .ok forms) :
    proxies.map (fun d => (d.occasion, d.structured)) = forms.map fun m => (m.1, .ok m.2) := by
  induction proxies generalizing forms with
  | nil =>
    cases h
    rfl
  | cons d rest ih =>
    rw [proxiesStructured] at h
    obtain ⟨form, hform, h⟩ := exists_of_bind_eq_ok h
    obtain ⟨more, hmore, h⟩ := exists_of_bind_eq_ok h
    cases h
    rw [List.map_cons, List.map_cons, hform, ih hmore]

/-- The form of a transition is that of a directive, if there is one. -/
theorem form_of_transitionStructured {transition : Option Directive} {form : Option Json}
    (h : transitionStructured transition = .ok form) :
    transition.map Directive.structured = form.map .ok := by
  cases transition with
  | none =>
    cases h
    rfl
  | some d =>
    rw [transitionStructured] at h
    obtain ⟨form', hform', h⟩ := exists_of_bind_eq_ok h
    cases h
    rw [Option.map_some, hform', Option.map_some]

/-- The form of content that is written without markup says what the list of its forms says. -/
theorem contentOutline_of_contentForm {items : List Item} {content : Option Json}
    (hlist : ∀ forms, listStructured false items = .ok forms →
      formsOutline forms = itemsOutline items)
    (h : contentForm false items (fun _ => listStructured false items) = .ok content) :
    content.elim [] Json.contentOutline = itemsOutline items := by
  unfold contentForm at h
  split at h
  · rename_i hempty
    cases h
    rw [List.isEmpty_iff.mp hempty]
    rfl
  · obtain ⟨form, hform, rfl⟩ := exists_of_map_eq_ok h
    obtain ⟨forms, hforms, rfl⟩ := exists_of_map_eq_ok hform
    exact hlist forms hforms

section

variable {settings : Settings}

mutual

/-- The outline of an item that is built can be read from its form. Markup stands in the place of a
list only where that is asked for, and here it is not. -/
theorem outline_of_structured : ∀ (item : Item) {form : Json}, IsPart settings item →
    item.structured false = .ok form → form.outline = item.outline
  | .text content, form, _, h => by
    cases h
    rfl
  | .mustache kind reference, form, hpart, h => by
    cases h
    exact outline_mustacheForm hpart.inserts reference
  | .block reference inverted items, form, hpart, h => by
    rw [Item.structured] at h
    obtain ⟨content, hcontent, h⟩ := exists_of_bind_eq_ok h
    cases h
    rw [outline_blockForm, contentOutline_of_contentForm
      (fun _ => formsOutline_of_listStructured items hpart.block) hcontent]
    rfl
  | .inclusion name, form, _, h => by
    cases h
    rfl
  | .comment content, form, _, h => by
    cases h
    rfl
  | .element e, form, hpart, h => outline_of_structured_element e hpart h

/-- The outline of an element can be read off its form, without its identity and what else is
forgotten. -/
theorem outline_of_structured_element : ∀ (e : Element) {form : Json},
    IsPart settings (.element e) → e.structured false = .ok form → form.outline = .element e.outline
  | ⟨_, _, _, .component name attributes, doctype, _, _, _, children⟩, form, hpart, h => by
    rw [Element.structured] at h
    obtain ⟨members, hmembers, h⟩ := exists_of_bind_eq_ok h
    obtain ⟨content, hcontent, h⟩ := exists_of_bind_eq_ok h
    cases h
    rw [ElementParts.outline_form _ (.inr rfl),
      valuesOutline_of_attributesStructured attributes hpart.value hmembers,
      contentOutline_of_childrenStructured children hpart.content hcontent]
    rfl
  | ⟨_, _, _, .html ⟨tag, attributes, proxies, intro, outro, decorator⟩, doctype, _, _, _,
      children⟩, form, hpart, h => by
    rw [Element.structured] at h
    obtain ⟨members, hmembers, h⟩ := exists_of_bind_eq_ok h
    obtain ⟨content, hcontent, h⟩ := exists_of_bind_eq_ok h
    obtain ⟨forms, hforms, h⟩ := exists_of_bind_eq_ok h
    obtain ⟨introForm, hintro, h⟩ := exists_of_bind_eq_ok h
    obtain ⟨outroForm, houtro, h⟩ := exists_of_bind_eq_ok h
    cases h
    rw [ElementParts.outline_form _ (.inl rfl),
      valuesOutline_of_attributesStructured attributes hpart.value hmembers,
      contentOutline_of_childrenStructured children hpart.content hcontent, ← ofPairs_map,
      ← forms_of_proxiesStructured hforms, ← form_of_transitionStructured hintro,
      ← form_of_transitionStructured houtro]
    rfl

/-- The outlines of values can be read off the members of the attributes. No name stands twice among
them, or there would be no form. -/
theorem valuesOutline_of_attributesStructured : ∀ (attributes : List Attribute) {seen : List String}
    {members : List (String × Json)},
    (∀ a ∈ attributes, ∀ inner ∈ a.value, ∀ item ∈ inner, IsPart settings item) →
      attributesStructured false seen attributes = .ok members →
      valuesOutline members = attributesOutline attributes
  | [], seen, members, _, h => by
    cases h
    rfl
  | ⟨name, value⟩ :: rest, seen, members, hparts, h => by
    obtain ⟨hvalue, hparts⟩ := List.forall_mem_cons.mp hparts
    rw [attributesStructured] at h
    split at h
    · cases h
    · obtain ⟨form, hform, h⟩ := exists_of_bind_eq_ok h
      obtain ⟨more, hmore, h⟩ := exists_of_bind_eq_ok h
      cases h
      have hrest := valuesOutline_of_attributesStructured rest hparts hmore
      cases value with
      | none =>
        cases hform
        rw [valuesOutline, attributesOutline, hrest]
      | some items =>
        obtain ⟨forms, hforms, rfl⟩ := exists_of_map_eq_ok hform
        rw [attributesOutline, ← formsOutline_of_listStructured items (hvalue items rfl) hforms,
          ← hrest]
        rfl

/-- The outline of content can be read off its form, which may be missing. -/
theorem contentOutline_of_childrenStructured : ∀ (children : Option (List Item))
    {content : Option Json}, (∀ inner ∈ children, ∀ item ∈ inner, IsPart settings item) →
      childrenStructured false children = .ok content →
      content.elim [] Json.contentOutline = childrenOutline children
  | none, content, _, h => by
    cases h
    rfl
  | some items, content, hparts, h =>
    contentOutline_of_contentForm
      (fun _ => formsOutline_of_listStructured items (hparts items rfl)) h

/-- The outlines of items can be read off their forms, one by one. -/
theorem formsOutline_of_listStructured : ∀ (items : List Item) {forms : List Json},
    (∀ item ∈ items, IsPart settings item) → listStructured false items = .ok forms →
      formsOutline forms = itemsOutline items
  | [], forms, _, h => by
    cases h
    rfl
  | item :: rest, forms, hparts, h => by
    obtain ⟨hitem, hparts⟩ := List.forall_mem_cons.mp hparts
    rw [listStructured] at h
    obtain ⟨form, hform, h⟩ := exists_of_bind_eq_ok h
    obtain ⟨more, hmore, h⟩ := exists_of_bind_eq_ok h
    cases h
    rw [formsOutline, itemsOutline, outline_of_structured item hitem hform,
      formsOutline_of_listStructured rest hparts hmore]

end

/-- The outlines of items that are built can be read from the form of the list of them. -/
theorem contentOutline_of_itemsStructured {items : List Item} {form : Json}
    (hbuilt : Built settings items) (h : itemsStructured false items = .ok form) :
    form.contentOutline = itemsOutline items := by
  obtain ⟨forms, hforms, rfl⟩ := exists_of_map_eq_ok h
  exact formsOutline_of_listStructured items (fun item hitem => ⟨items, hbuilt, hitem⟩) hforms

end

end MustacheMarkup
