import MustacheMarkup.Output.Markup

/-!
# Literal templates

Items that can be written as markup are literal: texts, comments, and elements of the markup with
nothing behind them. A `Literal` holds what of such an item is written, and no more. Texts that
stand side by side are one, and an attribute without value is one whose value is empty.

Every item with a markup has a literal form, and the markup is that of the form
(`itemsMarkup?_eq`). So all that reading the markup back can depend on is in the form.
-/

set_option autoImplicit false

namespace MustacheMarkup

open Output

/-- What is written of an item. An element that never has content, or that closes itself, stands
alone; in the latter case it ends with a slash. -/
inductive Literal where
  | text (content : String)
  | comment (content : String)
  | alone (name : String) (attributes : List (String × String)) (slash : Bool)
  | element (name : String) (attributes : List (String × String)) (content : List Literal)

/-! ## The literal form of items -/

/-- One more form before others. Two texts become one, and an empty text is left out. -/
def Literal.cons : Literal → List Literal → List Literal
  | .text s, .text s' :: rest => .text (s ++ s') :: rest
  | .text s, rest => if s.isEmpty then rest else .text s :: rest
  | l, rest => l :: rest

/-- The texts of attributes, if all of them are literal and none is reserved. -/
def attributesLiteral? : List Attribute → Option (List (String × String))
  | [] => some []
  | ⟨name, value⟩ :: rest =>
    if isReserved name then none
    else
      match valueMarkup? value, attributesLiteral? rest with
      | some text, some written => some ((name, text.getD "") :: written)
      | _, _ => none

mutual

/-- The literal form of an item, if it has one. -/
def Item.literal? : Item → Option Literal
  | .text content => some (.text content)
  | .comment content => some (.comment content)
  | .element e => e.literal?
  | .mustache _ _ => none
  | .block _ _ _ => none
  | .inclusion _ => none

/-- The literal form of an element, if it has one. -/
def Element.literal? : Element → Option Literal
  | ⟨_, _, _, .component _ _, _, _, _, _, _⟩ => none
  | ⟨_, _, lowerName, .html ⟨tag, attributes, proxies, intro, outro, _⟩, _, selfClosing, isVoid, _,
      children⟩ =>
    if !Vocabulary.isPlain lowerName || !proxies.isEmpty || intro.isSome || outro.isSome then none
    else
      match contentLiterals? children, attributesLiteral? attributes with
      | some content, some written =>
        if isVoid || selfClosing then some (.alone tag written !isVoid)
        else some (.element tag written content)
      | _, _ => none

/-- The literal form of content, if it has one. -/
def contentLiterals? : Option (List Item) → Option (List Literal)
  | none => some []
  | some items => itemsLiterals? items

/-- The literal form of items, if all of them have one. -/
def itemsLiterals? : List Item → Option (List Literal)
  | [] => some []
  | item :: rest =>
    match item.literal?, itemsLiterals? rest with
    | some l, some literals => some (l.cons literals)
    | _, _ => none

end

/-! ## Markup -/

/-- The attributes of a form as a tag is written with them. -/
def written (attributes : List (String × String)) : List (String × Option String) :=
  attributes.map fun a => (a.1, some a.2)

mutual

/-- The markup of a form. -/
def Literal.markup : Literal → String
  | .text content => content
  | .comment content => "<!--" ++ content ++ "-->"
  | .alone name attributes slash => openingTag name (written attributes) (!slash) true
  | .element name attributes content =>
    openingTag name (written attributes) false false ++ (literalsMarkup content ++ "</" ++ name ++
      ">")

/-- The markup of forms. -/
def literalsMarkup : List Literal → String
  | [] => ""
  | l :: rest => l.markup ++ literalsMarkup rest

end

/-- To put a form before others puts its markup before theirs, also where texts meet. -/
theorem literalsMarkup_cons (l : Literal) (literals : List Literal) :
    literalsMarkup (l.cons literals) = l.markup ++ literalsMarkup literals := by
  fun_cases Literal.cons l literals with
  | case1 s s' rest => simp only [literalsMarkup, Literal.markup, String.append_assoc]
  | case2 s rest hrest hempty =>
    rw [Literal.markup, String.isEmpty_iff.mp hempty, String.empty_append]
  | case3 s rest hrest hempty => rfl
  | case4 l rest hl => rfl

/-- It makes no difference to a tag whether an attribute has an empty value or none. So forms need
only one way to say it. -/
theorem openingTag_written (name : String) (attributes : List (String × Option String))
    (void selfClosing : Bool) :
    openingTag name (written (attributes.map fun a => (a.1, a.2.getD ""))) void selfClosing =
      openingTag name attributes void selfClosing := by
  have htext : ∀ a : String × Option String,
      attributeText (a.1, some (a.2.getD "")) = attributeText a := by
    intro a
    obtain ⟨name, _ | value⟩ := a
    · rfl
    · rfl
  have hend : ∀ a : String × Option String,
      endsUnquoted (a.1, some (a.2.getD "")) = endsUnquoted a := by
    intro a
    obtain ⟨name, _ | value⟩ := a
    · rfl
    · rfl
  unfold openingTag tagEnd written
  simp only [List.map_map, List.getLast?_map, Option.any_map, Function.comp_def, htext, hend]

/-- The texts of attributes are what is written for them, with an empty text where there is no
value. -/
theorem attributesLiteral?_eq (attributes : List Attribute) : attributesLiteral? attributes =
    (attributesMarkup attributes).toOption.map fun w => w.map fun a => (a.1, a.2.getD "") := by
  induction attributes with
  | nil => rfl
  | cons a rest ih =>
    obtain ⟨name, value⟩ := a
    rw [attributesLiteral?, attributesMarkup, ih]
    split
    · rfl
    · cases valueMarkup? value with
      | none => rfl
      | some text =>
        cases attributesMarkup rest with
        | error refusal => rfl
        | ok written => rfl

mutual

/-- The markup of an item is that of its form, and it has one exactly if it has a form. The
induction is over all that a form is made of. -/
theorem Item.markup?_eq : ∀ item : Item, item.markup? = item.literal?.map Literal.markup
  | .text _ => rfl
  | .comment _ => rfl
  | .mustache _ _ => rfl
  | .block _ _ _ => rfl
  | .inclusion _ => rfl
  | .element e => by rw [Item.markup?, Item.literal?, Element.markup_toOption_eq e]

/-- The markup of an element is that of its literal form, and there is one only if there is the
other. So what holds of markups is proved of forms, which are data. -/
theorem Element.markup_toOption_eq :
    ∀ e : Element, e.markup.toOption = e.literal?.map Literal.markup
  | ⟨_, _, _, .component _ _, _, _, _, _, _⟩ => rfl
  | ⟨_, _, lowerName, .html ⟨tag, attributes, proxies, intro, outro, _⟩, _, selfClosing, isVoid, _,
      children⟩ => by
    rw [Element.markup, Element.literal?, contentMarkup?_eq children, attributesLiteral?_eq]
    by_cases hplain : Vocabulary.isPlain lowerName = true
    · by_cases hbehaviour : (!proxies.isEmpty || intro.isSome || outro.isSome) = true
      · simp [hplain, hbehaviour, Except.toOption]
      · simp only [hplain, hbehaviour, Bool.not_true, Bool.false_eq_true, if_false, Bool.false_or]
        cases contentLiterals? children with
        | none => rfl
        | some content =>
          cases attributesMarkup attributes with
          | error refusal => rfl
          | ok w =>
            simp only [Option.map_some, Except.toOption, elementText]
            cases isVoid with
            | true =>
              have hslash : openingTag tag w true selfClosing = openingTag tag w true true := rfl
              simp [Literal.markup, openingTag_written, hslash]
            | false =>
              cases selfClosing with
              | true => simp [Literal.markup, openingTag_written]
              | false => simp [Literal.markup, openingTag_written, String.append_assoc]
    · simp [hplain, Except.toOption]

/-- The same for content. -/
theorem contentMarkup?_eq : ∀ children : Option (List Item),
    contentMarkup? children = (contentLiterals? children).map literalsMarkup
  | none => rfl
  | some items => itemsMarkup?_eq items

/-- Items have a markup if and only if they have a literal form, and it is that of the form. -/
theorem itemsMarkup?_eq : ∀ items : List Item,
    itemsMarkup? items = (itemsLiterals? items).map literalsMarkup
  | [] => rfl
  | item :: rest => by
    rw [itemsMarkup?, itemsLiterals?, Item.markup?_eq item, itemsMarkup?_eq rest]
    cases item.literal? with
    | none => rfl
    | some l =>
      cases itemsLiterals? rest with
      | none => rfl
      | some literals =>
        simp only [Option.map_some, literalsMarkup_cons]

end

/-! ## What has a markup -/

/-- Items have a markup exactly if each one has. -/
theorem isSome_itemsMarkup?_iff {items : List Item} : (itemsMarkup? items).isSome = true ↔
    ∀ item ∈ items, item.markup?.isSome = true := by
  induction items with
  | nil => simp [itemsMarkup?]
  | cons item rest ih =>
    rw [itemsMarkup?, List.forall_mem_cons, ← ih]
    cases item.markup? with
    | none => simp
    | some first => simp

/-- An element with a markup is written from its attributes and its content, and both have markups
of their own. -/
theorem exists_of_markup {e : Element} {details : HtmlDetails} {m : String}
    (hkind : e.kind = .html details) (h : e.markup = .ok m) :
    ∃ content texts, contentMarkup? e.children = some content ∧
      attributesMarkup details.attributes = .ok texts ∧
      m = elementText details.tag texts e.isVoid e.selfClosing content := by
  obtain ⟨id, rawName, lowerName, kind, doctype, selfClosing, isVoid, closers, children⟩ := e
  obtain ⟨tag, attributes, proxies, intro, outro, decorator⟩ := details
  obtain rfl : kind = _ := hkind
  rw [Element.markup] at h
  split at h
  · cases h
  · split at h
    · cases h
    · split at h
      · cases h
      · rename_i content hcontent
        split at h
        · cases h
        · rename_i texts htexts
          cases h
          exact ⟨content, texts, hcontent, htexts, rfl⟩

end MustacheMarkup
