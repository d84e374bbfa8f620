import MustacheMarkup.Proofs.Item.Trim
import MustacheMarkup.Proofs.Journal.Success
import MustacheMarkup.Proofs.Nesting.Makes
import MustacheMarkup.Proofs.Output.ReadBack
import MustacheMarkup.Proofs.Template.Values

/-!
# The second markup of a form

Parts that forms are read as make items again, and `Literal.reread` says which forms these items
have: attributes that stand for behaviour are gone, double quotes in values have become `&quot;`,
and where blanks are not kept they are squeezed and trimmed. The items may have no markup at all, if
an attribute stands for behaviour that keeps its element from being written; if no attribute stands
for behaviour, they have one.
-/

set_option autoImplicit false

namespace MustacheMarkup

open Building Journal Output

/-! ## Forms read again -/

/-- The attributes that are read of those that were written and that stay in the markup. -/
def rereadAttributes (attributes : List (String × String)) : List (String × String) :=
  (attributes.filter fun a => Role.ofName a.1 = .plain).map fun a => (a.1, escapeQuotes a.2)

/-- Forms without the blanks at the start of a first text. -/
def trimFirstLiteral : List Literal → List Literal
  | .text content :: rest =>
    let trimmed := Text.trimStart content
    if trimmed.isEmpty then rest else .text trimmed :: rest
  | literals => literals

/-- Forms without the blanks at the end of a last text. -/
def trimLastLiteral : List Literal → List Literal
  | [] => []
  | [.text content] =>
    let trimmed := Text.trimEnd content
    if trimmed.isEmpty then [] else [.text trimmed]
  | l :: rest => l :: trimLastLiteral rest

/-- At the start of a list only a text is trimmed. -/
theorem trimFirstLiteral_of_ne {l : Literal} (h : ∀ content, l ≠ .text content)
    (rest : List Literal) : trimFirstLiteral (l :: rest) = l :: rest := by
  cases l with
  | text content => exact absurd rfl (h content)
  | _ => rfl

/-- At the end of a list only a text is trimmed. -/
theorem trimLastLiteral_of_ne {l : Literal} (h : ∀ content, l ≠ .text content) :
    trimLastLiteral [l] = [l] := by
  cases l with
  | text content => exact absurd rfl (h content)
  | _ => rfl

/-- What stands before the last form is not looked at when the end is trimmed. -/
theorem trimLastLiteral_cons_cons (l l' : Literal) (rest : List Literal) :
    trimLastLiteral (l :: l' :: rest) = l :: trimLastLiteral (l' :: rest) := by
  cases l <;> rfl

/-- Content whose blanks are trimmed unless they are kept. -/
def trimLiterals (keepBlanks : Bool) (literals : List Literal) : List Literal :=
  if keepBlanks then literals else trimLastLiteral (trimFirstLiteral literals)

/-- Whether blanks are kept in an element. -/
def keepsBlanksIn (name : String) (keepBlanks : Bool) : Bool :=
  keepBlanks || name == Vocabulary.verbatimElement

mutual

/-- The form of the item that is made of what a form is read as. -/
def Literal.reread (keepBlanks : Bool) : Literal → Literal
  | .text content => .text (if keepBlanks then content else Text.collapse content)
  | .comment content => .comment content
  | .alone name attributes slash => .alone name (rereadAttributes attributes) slash
  | .element name attributes content =>
    .element name (rereadAttributes attributes)
      (trimLiterals (keepsBlanksIn name keepBlanks)
        (literalsReread (keepsBlanksIn name keepBlanks) content))

/-- The forms of the items that are made of what forms are read as. -/
def literalsReread (keepBlanks : Bool) : List Literal → List Literal
  | [] => []
  | l :: rest => l.reread keepBlanks :: literalsReread keepBlanks rest

end

/-- Whether no attribute stands for behaviour. -/
def attributesPlain (attributes : List (String × String)) : Bool :=
  attributes.all fun a => Role.ofName a.1 = .plain

mutual

/-- Whether no attribute in a form stands for behaviour. -/
def Literal.plain : Literal → Bool
  | .alone _ attributes _ => attributesPlain attributes
  | .element _ attributes content => attributesPlain attributes && literalsPlain content
  | _ => true

/-- Whether no attribute in forms stands for behaviour. -/
def literalsPlain : List Literal → Bool
  | [] => true
  | l :: rest => l.plain && literalsPlain rest

end

/-! ## Attributes -/

/-- What is read of a written attribute holds no tags. -/
theorem readable_of_reads {raw : RawAttribute} {a : String × String} (h : raw.Reads a) :
    raw.Readable := by
  obtain ⟨-, hvalue⟩ := h
  intro tokens htokens
  split at hvalue
  · rw [hvalue] at htokens
    cases htokens
  · obtain ⟨span, hvalue⟩ := hvalue
    rw [hvalue] at htokens
    cases htokens
    exact List.forall_mem_singleton.mpr rfl

/-- The value that is built of what is read of a value is the text that was read. -/
theorem valueMarkup?_built {raw : RawAttribute} {a : String × String} (h : raw.Reads a) :
    (valueMarkup? (raw.value.map valueItems)).map (·.getD "") = some (escapeQuotes a.2) := by
  obtain ⟨-, hvalue⟩ := h
  split at hvalue
  · rename_i hempty
    rw [hvalue, String.isEmpty_iff.mp hempty]
    rfl
  · obtain ⟨span, hvalue⟩ := hvalue
    rw [hvalue, Option.map_some, valueItems_text]
    simp [valueMarkup?, itemsMarkup?, Item.markup?]

/-- The attributes that are built of those that are read have the texts of those that are read
again. -/
theorem attributesLiteral?_built {raws : List RawAttribute} {attributes : List (String × String)}
    (h : List.Forall₂ RawAttribute.Reads raws attributes)
    (hlegible : ∀ a ∈ attributes, LegibleAttribute a) :
    attributesLiteral? ((raws.filter fun raw => Role.ofName raw.name = .plain).map
      RawAttribute.built) = some (rereadAttributes attributes) := by
  induction h with
  | nil => rfl
  | @cons raw a raws attributes hreads _ ih =>
    obtain ⟨ha, hrest⟩ := List.forall_mem_cons.mp hlegible
    have hih := ih hrest
    have hvalue := valueMarkup?_built hreads
    have hname := hreads.1
    unfold rereadAttributes at hih ⊢
    by_cases hrole : Role.ofName a.1 = .plain
    · rw [List.filter_cons_of_pos (by simp [hname, hrole]),
        List.filter_cons_of_pos (by simp [hrole]), List.map_cons, List.map_cons,
        RawAttribute.built, hname, ha.final, attributesLiteral?, ha.unreserved,
        if_neg Bool.false_ne_true, hih]
      cases htext : valueMarkup? (raw.value.map valueItems) with
      | none =>
        rw [htext] at hvalue
        cases hvalue
      | some text =>
        rw [htext, Option.map_some] at hvalue
        rw [← Option.some.inj hvalue]
    · rw [List.filter_cons_of_neg (by simp [hname, hrole]),
        List.filter_cons_of_neg (by simp [hrole])]
      exact hih

/-! ## Items -/

/-- The markup of an element whose attributes are literal. None of them is reserved then, so only
the name of the element and its behaviour can stand in the way. -/
theorem Element.markup_toOption {attributes : List Attribute} {texts : List (String × String)}
    (hattributes : attributesLiteral? attributes = some texts) (id : NodeId)
    (rawName lowerName tag : String) (proxies : List Directive) (intro outro : Option Directive)
    (decorator : Option String) (doctype selfClosing isVoid : Bool)
    (closers : Option (List String)) (children : Option (List Item)) :
    (Element.markup ⟨id, rawName, lowerName,
        .html ⟨tag, attributes, proxies, intro, outro, decorator⟩, doctype, selfClosing, isVoid,
        closers, children⟩).toOption =
      if !Vocabulary.isPlain lowerName || (!proxies.isEmpty || intro.isSome || outro.isSome) then
        none
      else
        (contentMarkup? children).map (elementText tag (written texts) isVoid selfClosing) := by
  rw [attributesLiteral?_eq] at hattributes
  rw [Element.markup]
  cases hplain : Vocabulary.isPlain lowerName with
  | false => rfl
  | true =>
    cases hbehaviour : !proxies.isEmpty || intro.isSome || outro.isSome with
    | true => rfl
    | false =>
      cases contentMarkup? children with
      | none => rfl
      | some content =>
        cases hw : attributesMarkup attributes with
        | error refusal =>
          rw [hw] at hattributes
          cases hattributes
        | ok w =>
          rw [hw] at hattributes
          obtain rfl := Option.some.inj hattributes
          simp only [Bool.not_true, Bool.false_or, Bool.false_eq_true, if_false, Option.map_some,
            elementText, openingTag_written]
          rfl

/-- If an item has a markup, it is that of a form, and it is a text if the form is that text. -/
structure Item.Renders (item : Item) (l : Literal) : Prop where
  text : ∀ content, item = .text content ↔ l = .text content
  markup : ∀ text, item.markup? = some text → text = l.markup

/-- A text renders as itself. -/
theorem Item.renders_text (content : String) : Item.Renders (.text content) (.text content) :=
  ⟨fun content' => by simp, fun text h => (Option.some.inj h).symm⟩

/-- A comment renders as itself. -/
theorem Item.renders_comment (content : String) :
    Item.Renders (.comment content) (.comment content) :=
  ⟨fun content' => by simp, fun text h => (Option.some.inj h).symm⟩

section

variable {items : List Item} {literals : List Literal}

/-- If items have a markup, it is that of the forms that they render as. -/
theorem itemsMarkup?_of_renders (h : List.Forall₂ Item.Renders items literals) {text : String}
    (htext : itemsMarkup? items = some text) : text = literalsMarkup literals := by
  induction h generalizing text with
  | nil => exact (Option.some.inj htext).symm
  | @cons item l items literals hitem _ ih =>
    rw [itemsMarkup?] at htext
    cases hfirst : item.markup? with
    | none =>
      rw [hfirst] at htext
      cases htext
    | some first =>
      rw [hfirst] at htext
      obtain ⟨rest, hrest, rfl⟩ := Option.map_eq_some_iff.mp htext
      rw [hitem.markup first hfirst, ih hrest, literalsMarkup]

/-- What is no text renders as no text, so both sides are trimmed in the same places. -/
theorem Item.Renders.ne {item : Item} {l : Literal} (h : item.Renders l)
    (hne : ∀ content, item ≠ .text content) : ∀ content, l ≠ .text content :=
  fun content hl => hne content ((h.text content).mpr hl)

/-- To trim the first item goes along with trimming the first form. -/
theorem renders_trimFirst (h : List.Forall₂ Item.Renders items literals) :
    List.Forall₂ Item.Renders (trimFirst items) (trimFirstLiteral literals) := by
  cases h with
  | nil => exact .nil
  | @cons item l items literals hitem hrest =>
    by_cases htext : ∃ content, item = .text content
    · obtain ⟨content, rfl⟩ := htext
      obtain rfl := (hitem.text content).mp rfl
      simp only [trimFirst, trimFirstLiteral]
      split
      · exact hrest
      · exact .cons (Item.renders_text _) hrest
    · have hne : ∀ content, item ≠ .text content := fun content h => htext ⟨content, h⟩
      rw [trimFirst_of_ne hne, trimFirstLiteral_of_ne (hitem.ne hne)]
      exact .cons hitem hrest

/-- To trim the last item goes along with trimming the last form. -/
theorem renders_trimLast (h : List.Forall₂ Item.Renders items literals) :
    List.Forall₂ Item.Renders (trimLast items) (trimLastLiteral literals) := by
  induction h with
  | nil => exact .nil
  | @cons item l items literals hitem hrest ih =>
    cases hrest with
    | nil =>
      by_cases htext : ∃ content, item = .text content
      · obtain ⟨content, rfl⟩ := htext
        obtain rfl := (hitem.text content).mp rfl
        simp only [trimLast, trimLastLiteral]
        split
        · exact .nil
        · exact .cons (Item.renders_text _) .nil
      · have hne : ∀ content, item ≠ .text content := fun content h => htext ⟨content, h⟩
        rw [trimLast_of_ne hne, trimLastLiteral_of_ne (hitem.ne hne)]
        exact .cons hitem .nil
    | cons hitem' hrest =>
      rw [trimLast_cons_cons, trimLastLiteral_cons_cons]
      exact .cons hitem ih

/-- To trim both ends goes along with trimming those of the forms, unless blanks are kept on both
sides. -/
theorem renders_trimBoundary (h : List.Forall₂ Item.Renders items literals) (keepBlanks : Bool) :
    List.Forall₂ Item.Renders (if keepBlanks then items else trimBoundary items)
      (trimLiterals keepBlanks literals) := by
  cases keepBlanks with
  | true => exact h
  | false => exact renders_trimLast (renders_trimFirst h)

end

/-! ## Building what was read -/

/-- No plain element is one of SVG or a component, entry by entry. -/
theorem plainElements_not_special : ∀ name ∈ Vocabulary.plainElements,
    Vocabulary.svgElement? name = none ∧ isComponent name = false := by
  decide +kernel

/-- The name of a plain element is that of no component, and is written as it is. -/
theorem isComponent_of_isPlain {name : String} (h : Vocabulary.isPlain name = true) :
    isComponent (Text.lower name) = false ∧ writtenName (Text.lower name) = name := by
  obtain ⟨hsvg, hcomponent⟩ := plainElements_not_special name (List.contains_iff_mem.mp h)
  rw [lower_of_isPlain h]
  exact ⟨hcomponent, by rw [writtenName, hsvg, Option.getD_none]⟩

/-- A tag that is read of a form holds no tags in its values. -/
theorem readable_of_forall₂ {name : String} {raws : List RawAttribute}
    {attributes : List (String × String)} {slash : Bool}
    (h : List.Forall₂ RawAttribute.Reads raws attributes) :
    (⟨name, raws, false, slash, false⟩ : Tag).Readable := by
  show ∀ raw ∈ raws, raw.Readable
  induction h with
  | nil => exact List.forall_mem_nil _
  | cons hreads _ ih => exact List.forall_mem_cons.mpr ⟨readable_of_reads hreads, ih⟩

/-- What an opening tag gives to its element: it makes a component, or an element of the markup
whose attributes are those that can be read off the tag without building anything else. -/
theorem Tag.Readable.elementHeader_cases {tag : Tag} (h : tag.Readable) {settings : Settings}
    {span : Span} {index : Nat} {header : NodeId × ElementKind}
    (hheader : (elementHeader settings tag span index).result = .ok header) :
    (∃ name attributes, header.2 = .component name attributes ∧
        isComponent (Text.lower tag.name) = true) ∨
      ∃ proxies intro outro decorator, header.2 = .html ⟨writtenName (Text.lower tag.name),
        tag.builtAttributes settings.options, proxies, intro, outro, decorator⟩ := by
  obtain ⟨r, hkinds, hyields⟩ := h.exists_elementKind span
  unfold elementHeader at hheader
  obtain ⟨index', -, hheader⟩ := result_bind_eq_ok hheader
  obtain ⟨-, -, hheader⟩ := result_bind_eq_ok hheader
  obtain ⟨kind, hkind, hheader⟩ := result_bind_eq_ok hheader
  rw [← result_pure_eq_ok hheader]
  rw [(hyields settings _).result rfl] at hkind
  cases r with
  | error e => cases hkind
  | ok kind' =>
    obtain rfl := Except.ok.inj hkind
    have hof := (hkinds kind' rfl).2
    cases kind' with
    | component name attributes => exact Or.inl ⟨name, attributes, rfl, hof⟩
    | html details =>
      obtain ⟨name, _, proxies, intro, outro, decorator⟩ := details
      obtain rfl : name = writtenName (Text.lower tag.name) := hof.2
      exact Or.inr ⟨proxies, intro, outro, decorator, rfl⟩

/-- What an opening tag that is no component's gives to its element. Its behaviour is left open, as
markup has none. -/
theorem Tag.Readable.exists_of_elementHeader {tag : Tag} (h : tag.Readable) {settings : Settings}
    {span : Span} {index : Nat} (hcomponent : isComponent (Text.lower tag.name) = false)
    {header : NodeId × ElementKind}
    (hheader : (elementHeader settings tag span index).result = .ok header) :
    ∃ proxies intro outro decorator, header.2 = .html ⟨writtenName (Text.lower tag.name),
      tag.builtAttributes settings.options, proxies, intro, outro, decorator⟩ := by
  rcases h.elementHeader_cases hheader with ⟨name, attributes, -, hcomponent'⟩ | hhtml
  · rw [hcomponent] at hcomponent'
    cases hcomponent'
  · exact hhtml

/-- An opening tag whose attributes are all plain makes an element without behaviour. It is never
refused, whatever the settings are. -/
theorem Tag.Readable.result_elementHeader_of_plain {tag : Tag} (h : tag.Readable)
    (hcomponent : isComponent (Text.lower tag.name) = false)
    (hplain : ∀ a ∈ tag.attributes, Role.ofName a.name = .plain) (settings : Settings)
    (span : Span) (index : Nat) :
    (elementHeader settings tag span index).result = .ok (⟨settings.run, index⟩,
      .html ⟨writtenName (Text.lower tag.name), tag.builtAttributes settings.options, [], none,
        none, none⟩) := by
  have hkind := h.yields_elementKind_of_plain span hcomponent hplain settings (index + 1)
  rw [result_elementHeader, hkind.result rfl]
  rfl

/-- The texts of the attributes that are built of those of a tag that was read. Sanitizing is off,
so only those that stand for behaviour are left out. -/
theorem attributesLiteral?_builtAttributes {settings : Settings}
    (hoff : settings.options.sanitizeEventAttributes = false) {name : String}
    {raws : List RawAttribute} {slash : Bool} {attributes : List (String × String)}
    (h : List.Forall₂ RawAttribute.Reads raws attributes)
    (hlegible : ∀ a ∈ attributes, LegibleAttribute a) :
    attributesLiteral?
        ((⟨name, raws, false, slash, false⟩ : Tag).builtAttributes settings.options) =
      some (rereadAttributes attributes) := by
  rw [Tag.builtAttributes_eq _ hoff]
  exact attributesLiteral?_built h hlegible

/-- If the element of a plain tag that was read has a markup, that is made of the name of the tag,
its attributes as they are read again, and the markup of its content. -/
theorem exists_contentMarkup_of_reads {settings : Settings}
    (hoff : settings.options.sanitizeEventAttributes = false) {name : String}
    (hplain : Vocabulary.isPlain name = true) {raws : List RawAttribute} {slash : Bool}
    {attributes : List (String × String)} (hreads : List.Forall₂ RawAttribute.Reads raws attributes)
    (hlegible : ∀ a ∈ attributes, LegibleAttribute a) {span : Span} {index : Nat}
    {header : NodeId × ElementKind}
    (hheader : (elementHeader settings ⟨name, raws, false, slash, false⟩ span index).result =
      .ok header)
    {children : Option (List Item)} {text : String}
    (h : (Item.element (Tag.element ⟨name, raws, false, slash, false⟩ header children)).markup? =
      some text) :
    ∃ inner, contentMarkup? children = some inner ∧
      text = elementText name (written (rereadAttributes attributes)) (Vocabulary.isVoid name) slash
        inner := by
  obtain ⟨hcomponent, hname⟩ := isComponent_of_isPlain hplain
  obtain ⟨proxies, intro, outro, decorator, hkind⟩ :=
    (readable_of_forall₂ hreads).exists_of_elementHeader hcomponent hheader
  rw [Item.markup?, Tag.element, hkind, Element.markup_toOption
    (attributesLiteral?_builtAttributes hoff hreads hlegible)] at h
  split at h
  · cases h
  · rw [hname, lower_of_isPlain hplain] at h
    obtain ⟨inner, hinner, rfl⟩ := Option.map_eq_some_iff.mp h
    exact ⟨inner, hinner, rfl⟩

mutual

/-- The item that is made of what a form is read as. If it has a markup, that is the one of the form
as it is read again: with its texts collapsed unless blanks are kept. -/
theorem renders_of_makes {settings : Settings}
    (hoff : settings.options.sanitizeEventAttributes = false) : ∀ (l : Literal) {n : Nested}
    {keepBlanks : Bool} {index later : Nat} {item : Item}, l.ReadAs n → l.Legible →
    n.Makes settings keepBlanks index item later → item.Renders (l.reread keepBlanks)
  | .text content, n, keepBlanks, index, later, item, hn, _, h => by
    cases hn
    cases h
    exact Item.renders_text _
  | .comment content, n, keepBlanks, index, later, item, hn, _, h => by
    cases hn
    cases h
    exact Item.renders_comment _
  | .alone name attributes slash, n, keepBlanks, index, later, item, hn, hl, h => by
    obtain ⟨hplain, hslash, hattributes⟩ := hl
    cases hn with
    | alone _ _ hreads span =>
      cases h with
      | alone _ hheader =>
        refine ⟨fun content => by simp [Literal.reread], fun text htext => ?_⟩
        obtain ⟨inner, -, rfl⟩ :=
          exists_contentMarkup_of_reads hoff hplain hreads hattributes hheader htext
        rw [Literal.reread, Literal.markup, hslash, elementText]
        cases hvoid : Vocabulary.isVoid name with
        | true => simp [openingTag, tagEnd]
        | false => simp
  | .element name attributes content, n, keepBlanks, index, later, item, hn, hl, h => by
    obtain ⟨hplain, hvoid, hattributes, -, hcontent⟩ := hl
    cases hn with
    | @element _ _ _ raws parts hreads span hparts =>
      cases h with
      | element hheader hchildren =>
        have hkeeps : Tag.keepsBlanks ⟨name, raws, false, false, false⟩ keepBlanks =
            keepsBlanksIn name keepBlanks := by
          rw [Tag.keepsBlanks, lower_of_isPlain hplain, keepsBlanksIn]
        rw [hkeeps] at hchildren
        have hrenders := renders_trimBoundary
          (renders_of_makesAll hoff content hparts hcontent hchildren)
          (keepsBlanksIn name keepBlanks)
        refine ⟨fun content => by simp [Literal.reread], fun text htext => ?_⟩
        obtain ⟨inner, hinner, rfl⟩ :=
          exists_contentMarkup_of_reads hoff hplain hreads hattributes hheader htext
        rw [hkeeps, contentMarkup?] at hinner
        rw [itemsMarkup?_of_renders hrenders hinner, Literal.reread, Literal.markup, elementText,
          hvoid]
        simp

/-- The items that are made of what forms are read as, one by one. Content of elements has been
trimmed by then, but the list itself has not. -/
theorem renders_of_makesAll {settings : Settings}
    (hoff : settings.options.sanitizeEventAttributes = false) :
    ∀ (literals : List Literal) {parts : List Nested} {keepBlanks : Bool} {index later : Nat}
    {items : List Item}, List.Forall₂ Literal.ReadAs literals parts →
    literalsLegible literals → MakesAll settings keepBlanks index parts items later →
    List.Forall₂ Item.Renders items (literalsReread keepBlanks literals)
  | [], parts, keepBlanks, index, later, items, hparts, _, h => by
    cases hparts
    cases h
    exact .nil
  | l :: literals, parts, keepBlanks, index, later, items, hparts, hlegible, h => by
    obtain ⟨hl, -, hliterals⟩ := hlegible
    cases hparts with
    | cons hn hrest =>
      cases h with
      | cons hitem hitems =>
        rw [literalsReread]
        exact .cons (renders_of_makes hoff l hn hl hitem)
          (renders_of_makesAll hoff literals hrest hliterals hitems)

end

/-! ## Forms without behaviour -/

/-- Attributes without behaviour are read as plain ones. -/
theorem plain_of_reads {raws : List RawAttribute} {attributes : List (String × String)}
    (h : List.Forall₂ RawAttribute.Reads raws attributes)
    (hplain : attributesPlain attributes = true) :
    ∀ raw ∈ raws, Role.ofName raw.name = .plain := by
  induction h with
  | nil => exact List.forall_mem_nil _
  | cons hreads _ ih =>
    rw [attributesPlain, List.all_cons, Bool.and_eq_true, decide_eq_true_eq] at hplain
    refine List.forall_mem_cons.mpr ⟨?_, ih hplain.2⟩
    rw [hreads.1]
    exact hplain.1

/-- What was read of the opening tag of a plain element without behaviour makes one again, with a
markup if its content has one. -/
theorem exists_element_of_plain {settings : Settings}
    (hoff : settings.options.sanitizeEventAttributes = false) {name : String}
    (hname : Vocabulary.isPlain name = true) {raws : List RawAttribute} (slash : Bool)
    {attributes : List (String × String)} (hreads : List.Forall₂ RawAttribute.Reads raws attributes)
    (hlegible : ∀ a ∈ attributes, LegibleAttribute a) (hplain : attributesPlain attributes = true)
    (span : Span) (index : Nat) :
    ∃ header, (elementHeader settings ⟨name, raws, false, slash, false⟩ span index).result =
        .ok header ∧
      ∀ children, (contentMarkup? children).isSome = true →
        (Item.element (Tag.element ⟨name, raws, false, slash, false⟩ header
          children)).markup?.isSome = true := by
  have hreadable : (⟨name, raws, false, slash, false⟩ : Tag).Readable :=
    readable_of_forall₂ hreads
  refine ⟨_, hreadable.result_elementHeader_of_plain (isComponent_of_isPlain hname).1
    (plain_of_reads hreads hplain) settings span index, fun children hchildren => ?_⟩
  rw [Item.markup?, Tag.element, Element.markup_toOption
    (attributesLiteral?_builtAttributes hoff hreads hlegible), lower_of_isPlain hname, hname]
  obtain ⟨content, hcontent⟩ := Option.isSome_iff_exists.mp hchildren
  rw [hcontent]
  rfl

mutual

/-- If no attribute stands for behaviour, what a form is read as makes an item with a markup. An
attribute could come back as behaviour only by its name. -/
theorem exists_build_of_plain {settings : Settings}
    (hoff : settings.options.sanitizeEventAttributes = false) :
    ∀ (l : Literal) {n : Nested} (keepBlanks : Bool) (index : Nat), l.ReadAs n → l.Legible →
      l.plain = true → ∃ item, (n.build settings keepBlanks index).result = .ok item ∧
        item.markup?.isSome = true
  | .text content, n, keepBlanks, index, hn, _, _ => by
    cases hn
    exact ⟨_, rfl, rfl⟩
  | .comment content, n, keepBlanks, index, hn, _, _ => by
    cases hn
    exact ⟨_, rfl, rfl⟩
  | .alone name attributes slash, n, keepBlanks, index, hn, hl, h => by
    obtain ⟨hname, -, hattributes⟩ := hl
    cases hn with
    | alone _ _ hreads span =>
      obtain ⟨header, hheader, hmarkup⟩ :=
        exists_element_of_plain hoff hname slash hreads hattributes h span index
      rw [Nested.build]
      exact ⟨_, result_bind_of_ok hheader rfl, hmarkup none rfl⟩
  | .element name attributes content, n, keepBlanks, index, hn, hl, h => by
    obtain ⟨hname, -, hattributes, -, hcontent⟩ := hl
    rw [Literal.plain, Bool.and_eq_true] at h
    cases hn with
    | @element _ _ _ raws parts hreads span hparts =>
      obtain ⟨header, hheader, hmarkup⟩ :=
        exists_element_of_plain hoff hname false hreads hattributes h.1 span index
      obtain ⟨children, hchildren, hsome⟩ :=
        exists_buildAll_of_plain hoff content _ _ hparts hcontent h.2
      rw [Nested.build]
      refine ⟨_, result_bind_of_ok hheader (result_bind_of_ok hchildren rfl), hmarkup _ ?_⟩
      refine isSome_itemsMarkup?_iff.mpr ?_
      split
      · exact hsome
      · exact forall_mem_trimBoundary (fun _ _ => rfl) hsome

/-- If no attribute stands for behaviour, what forms are read as makes items with a markup, so that
the markup of all of them comes together. -/
theorem exists_buildAll_of_plain {settings : Settings}
    (hoff : settings.options.sanitizeEventAttributes = false) :
    ∀ (literals : List Literal) {parts : List Nested} (keepBlanks : Bool) (index : Nat),
      List.Forall₂ Literal.ReadAs literals parts → literalsLegible literals →
      literalsPlain literals = true →
      ∃ items, (buildAll settings keepBlanks parts index).result = .ok items ∧
        ∀ item ∈ items, item.markup?.isSome = true
  | [], parts, keepBlanks, index, hparts, _, _ => by
    cases hparts
    exact ⟨[], rfl, List.forall_mem_nil _⟩
  | l :: literals, parts, keepBlanks, index, hparts, hlegible, h => by
    obtain ⟨hl, -, hliterals⟩ := hlegible
    rw [literalsPlain, Bool.and_eq_true] at h
    cases hparts with
    | @cons _ n _ more hn hrest =>
      obtain ⟨item, hitem, hsome⟩ := exists_build_of_plain hoff l keepBlanks index hn hl h.1
      obtain ⟨items, hitems, hsome'⟩ := exists_buildAll_of_plain hoff literals keepBlanks
        (n.build settings keepBlanks index).state hrest hliterals h.2
      rw [buildAll]
      exact ⟨item :: items, result_bind_of_ok hitem (result_bind_of_ok hitems rfl),
        List.forall_mem_cons.mpr ⟨hsome, hsome'⟩⟩

end

end MustacheMarkup
