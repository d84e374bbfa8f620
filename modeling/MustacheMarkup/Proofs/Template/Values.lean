import MustacheMarkup.Proofs.Item.Elements
import MustacheMarkup.Proofs.Journal.Pairs
import MustacheMarkup.Proofs.Journal.Settled
import MustacheMarkup.Proofs.Nesting.Descent
import MustacheMarkup.Proofs.Nesting.Tags
import MustacheMarkup.Proofs.Template.OpeningTag
import MustacheMarkup.Proofs.Token.Values

/-!
# Building the values of attributes

The value of an attribute that was read from a source text has no tags. So a fragment is built of it
whatever the options are, and no element is counted for it. All that an opening tag says is settled
by that, but for one choice: which plain attributes an element of the markup keeps
(`elementKind_settled`).
-/

set_option autoImplicit false

namespace MustacheMarkup

open Building Journal

/-! ## Parts without tags -/

mutual

/-- A part without tags is built to one item in all runs, and that has no elements. The induction is
over parts, and an element is excluded since it has a tag. -/
theorem exists_item_of_tags_eq_nil (keepBlanks : Bool) : ∀ n : Nested, n.tags = [] →
    ∃ item : Item, item.elements = [] ∧
      ∀ settings index, Yields (· = index) (n.build settings keepBlanks) (.ok item)
  | .text content, _ =>
    ⟨.text (if keepBlanks then content else Text.collapse content), rfl,
      fun _ _ => yields_pure _⟩
  | .mustache escaped reference, _ =>
    ⟨.mustache (.ofEscaped escaped) reference, rfl, fun _ _ => yields_pure _⟩
  | .inclusion name, _ => ⟨.inclusion name, rfl, fun _ _ => yields_pure _⟩
  | .comment content, _ => ⟨.comment content, rfl, fun _ _ => yields_pure _⟩
  | .block reference inverted content, h => by
    obtain ⟨items, helements, hyields⟩ := exists_items_of_tags_eq_nil keepBlanks content h
    refine ⟨.block reference inverted items, helements, fun settings index => ?_⟩
    exact (hyields settings index).bind_ok (yields_pure _)
  | .element tag span none, h => by cases h
  | .element tag span (some content), h => by cases h

/-- The same for lists of parts. -/
theorem exists_items_of_tags_eq_nil (keepBlanks : Bool) : ∀ parts : List Nested,
    partsTags parts = [] → ∃ items : List Item, itemsElements items = [] ∧
      ∀ settings index, Yields (· = index) (buildAll settings keepBlanks parts) (.ok items)
  | [], _ => ⟨[], rfl, fun _ _ => yields_pure _⟩
  | n :: rest, h => by
    obtain ⟨hn, hrest⟩ := List.append_eq_nil_iff.mp h
    obtain ⟨item, helements, hyields⟩ := exists_item_of_tags_eq_nil keepBlanks n hn
    obtain ⟨items, helements', hyields'⟩ := exists_items_of_tags_eq_nil keepBlanks rest hrest
    refine ⟨item :: items, ?_, fun settings index => ?_⟩
    · rw [itemsElements, helements, helements', List.append_nil]
    · exact (hyields settings index).bind_ok ((hyields' settings index).bind_ok (yields_pure _))

end

/-! ## Fragments -/

/-- There are no tags among the tokens of a value. -/
theorem openingTags_of_inValue {tokens : List Token}
    (h : ∀ t ∈ tokens, t.lexeme.inValue = true) : openingTags tokens = [] := by
  induction tokens with
  | nil => rfl
  | cons t rest ih =>
    obtain ⟨ht, hrest⟩ := List.forall_mem_cons.mp h
    obtain ⟨lexeme, span⟩ := t
    cases lexeme with
    | text content => exact ih hrest
    | mustache kind reference => exact ih hrest
    | comment content => cases ht
    | tag tag => cases ht

/-- A fragment of tokens without tags is built whatever the settings are, and has no elements. -/
theorem exists_fragment {tokens : List Token} (h : ∀ t ∈ tokens, t.lexeme.inValue = true) :
    ∃ items : List Item, itemsElements items = [] ∧
      ∀ settings index, Yields (· = index) (fragmentItems settings tokens) (.ok items) := by
  have htags : partsTags (Nesting.ofTokens tokens) = [] := by
    rw [Nesting.tags_ofTokens, openingTags_of_inValue h]
  obtain ⟨items, helements, hyields⟩ := exists_items_of_tags_eq_nil true _ htags
  refine ⟨items, helements, fun settings index index' hindex => ?_⟩
  obtain ⟨hresult, hcount, -⟩ := like_items settings true tokens index'
  obtain ⟨hresult', hcount'⟩ := hyields settings index index' hindex
  rw [hresult'] at hresult
  unfold fragmentItems fragment
  dsimp only
  rw [hresult]
  exact ⟨rfl, hcount.trans hcount'⟩

/-- A fragment of a value is the same in all runs, and it has no elements. -/
theorem settled_fragment {tokens : List Token} (h : ∀ t ∈ tokens, t.lexeme.inValue = true) :
    Settled (fun items => itemsElements items = [])
      fun settings : Settings => fragmentItems settings tokens := by
  obtain ⟨items, helements, hyields⟩ := exists_fragment h
  exact settled_of_yields helements hyields

/-! ## Plain attributes -/

/-- The items of a value that holds no tags. -/
def valueItems (tokens : List Token) : List Item :=
  (fragmentItems ⟨default, 0⟩ tokens 0).result.toOption.getD []

/-- What a value comes to in all runs is what its items are. -/
theorem valueItems_eq {tokens : List Token} {items : List Item}
    (h : ∀ settings index, Yields (· = index) (fragmentItems settings tokens) (.ok items)) :
    valueItems tokens = items := by
  rw [valueItems, ((h ⟨default, 0⟩ 0).result rfl : _ = Except.ok items)]
  rfl

/-- A value that is one text is built as that text. -/
theorem valueItems_text (content : String) (span : Span) :
    valueItems [⟨.text content, span⟩] = [.text content] := by
  have hresult := fragmentItems_result ⟨default, 0⟩ [⟨.text content, span⟩] 0
  rw [valueItems, hresult]
  rfl

/-- An attribute of the markup whose value holds no tags. -/
def RawAttribute.built (a : RawAttribute) : Attribute :=
  ⟨htmlAttributeName a.name, a.value.map valueItems⟩

/-- The name of an attribute that is built is its final one. -/
@[simp]
theorem RawAttribute.name_built (a : RawAttribute) : a.built.name = htmlAttributeName a.name := by
  simp only [built]

/-- A value without tags is built to items without elements. -/
theorem RawAttribute.Readable.elements {a : RawAttribute} (h : a.Readable) :
    fragmentElements a.built.value = [] := by
  obtain ⟨name, _ | tokens⟩ := a
  · rfl
  · obtain ⟨items, helements, hyields⟩ := exists_fragment (h tokens rfl)
    simp only [built, Option.map_some, fragmentElements, valueItems_eq hyields, helements]

/-- An attribute of the markup is built as itself in all runs, without giving an identity. -/
theorem RawAttribute.Readable.yields_ofHtml {a : RawAttribute} (h : a.Readable)
    (settings : Settings) (index : Nat) :
    Yields (· = index) (Attribute.ofHtml (fragmentItems settings) a) (.ok a.built) := by
  obtain ⟨name, _ | tokens⟩ := a
  · exact yields_pure _
  · obtain ⟨items, helements, hyields⟩ := exists_fragment (h tokens rfl)
    have hvalue : Yields (· = index) (whenSome (fragmentItems settings) (some tokens))
        (.ok (some (valueItems tokens))) := by
      rw [valueItems_eq hyields]
      exact (hyields settings index).map some
    exact hvalue.bind_ok (yields_pure _)

/-! ## Directives -/

/-- What a value is cut into are texts, and these may stand in values. -/
theorem inValue_of_mem_literal {content : List Char} {span : Span} {t : Token}
    (h : t ∈ literal content span) : t.lexeme.inValue = true := by
  unfold literal at h
  split at h
  · cases h
  · rw [List.mem_singleton.mp h]
    rfl

/-- What a directive is cut into holds no tags if its value does not. -/
theorem inValue_splitAtColon {tokens : List Token} (h : ∀ t ∈ tokens, t.lexeme.inValue = true) :
    (∀ t ∈ (splitAtColon tokens).1, t.lexeme.inValue = true) ∧
      ∀ t ∈ (splitAtColon tokens).2, t.lexeme.inValue = true := by
  induction tokens with
  | nil => exact ⟨h, h⟩
  | cons t rest ih =>
    obtain ⟨ht, hrest⟩ := List.forall_mem_cons.mp h
    obtain ⟨hname, harguments⟩ := ih hrest
    rw [splitAtColon]
    split
    · refine ⟨fun u hu => inValue_of_mem_literal hu, fun u hu => ?_⟩
      rcases List.mem_append.mp hu with hu | hu
      · exact inValue_of_mem_literal hu
      · exact hrest u hu
    · exact ⟨List.forall_mem_cons.mpr ⟨ht, hname⟩, harguments⟩

/-- The name of a directive is the same in all runs, and has no elements. Those of the directive are
then those of its arguments. -/
theorem settled_directiveName {tokens : List Token}
    (h : ∀ t ∈ tokens, t.lexeme.inValue = true) :
    Settled (fun name => ∀ occasion arguments dynamicArguments,
      (⟨occasion, name, arguments, dynamicArguments⟩ : Directive).elements =
        fragmentElements dynamicArguments)
      fun settings : Settings => DirectiveName.ofTokens (fragmentItems settings) tokens := by
  unfold DirectiveName.ofTokens
  split
  · exact settled_pure fun _ _ _ => rfl
  · refine (settled_fragment h).bind fun items helements => settled_pure fun _ _ _ => ?_
    rw [Directive.elements, helements, List.nil_append]

/-- The arguments of a directive are the same in all runs, and have no elements. -/
theorem settled_arguments {tokens : List Token} (h : ∀ t ∈ tokens, t.lexeme.inValue = true) :
    Settled (fun arguments => fragmentElements arguments.2 = [])
      fun settings : Settings => Directive.arguments? (fragmentItems settings) tokens := by
  unfold Directive.arguments?
  split
  · exact settled_pure rfl
  · split
    · exact settled_pure rfl
    · exact (settled_fragment h).bind fun items helements => settled_pure helements

/-- So is a directive, or it fails in all runs. -/
theorem RawAttribute.Readable.settled_ofRaw {a : RawAttribute} (h : a.Readable) (span : Span) :
    Settled (fun d => d.elements = [])
      fun settings : Settings => Directive.ofRaw (fragmentItems settings) span a := by
  obtain ⟨name, _ | tokens⟩ := a
  · exact settled_fail _ _
  · obtain ⟨hname, harguments⟩ := inValue_splitAtColon (h tokens rfl)
    unfold Directive.ofRaw
    dsimp only
    split
    · exact settled_fail _ _
    · refine (settled_directiveName hname).bind fun directive hdirective => ?_
      refine (settled_arguments harguments).bind fun arguments helements => ?_
      refine settled_pure ?_
      rw [hdirective, helements]

/-- A decorator is the same in all runs, or fails in all of them. -/
theorem settled_decoratorName (span : Span) (a : RawAttribute) :
    Settled (fun _ => True) fun _ : Settings => decoratorName span a := by
  unfold decoratorName
  split
  · split
    · exact settled_pure trivial
    · exact (settled_note _).bind fun _ _ => settled_pure trivial
  · exact settled_fail _ _

/-! ## Opening tags -/

/-- The opening tags among readable tokens are readable. -/
theorem readable_of_mem_openingTags {tokens : List Token} (h : ∀ t ∈ tokens, t.lexeme.Readable)
    {tag : Tag} (htag : tag ∈ openingTags tokens) : tag.Readable :=
  forall_mem_openingTags (P := Lexeme.Readable) h tag htag

/-- The plain attributes of a tag, by their names as they are written. -/
def Tag.plainAttributes (tag : Tag) : List RawAttribute :=
  tag.attributes.filter (Role.ofName ·.name = .plain)

/-- Whether the options let an element of the markup keep a plain attribute. -/
def Options.keeps (options : Options) (a : RawAttribute) : Bool :=
  !(options.sanitizeEventAttributes && Vocabulary.isEventHandler a.name)

/-- The attributes that the element of a tag has if it is one of the markup. -/
def Tag.builtAttributes (tag : Tag) (options : Options) : List Attribute :=
  (tag.plainAttributes.filter options.keeps).map RawAttribute.built

/-- Without sanitizing, an element keeps all plain attributes of its tag. -/
theorem Tag.builtAttributes_eq (tag : Tag) {options : Options}
    (hoff : options.sanitizeEventAttributes = false) :
    tag.builtAttributes options = tag.plainAttributes.map RawAttribute.built := by
  have hall : tag.plainAttributes.filter options.keeps = tag.plainAttributes := by
    rw [List.filter_eq_self]
    intro a _
    simp [Options.keeps, hoff]
  rw [Tag.builtAttributes, hall]

/-- An element of the markup with other attributes. -/
def ElementKind.withAttributes (attributes : List Attribute) : ElementKind → ElementKind
  | .component name attributes => .component name attributes
  | .html ⟨tag, _, proxies, intro, outro, decorator⟩ =>
    .html ⟨tag, attributes, proxies, intro, outro, decorator⟩

/-- Whether an element is a component. -/
def ElementKind.isComponent : ElementKind → Bool
  | .component _ _ => true
  | .html _ => false

/-- An element is a component if its tag is named as one, and otherwise it is written with the name
of its tag. -/
def ElementKind.IsOf (tag : Tag) : ElementKind → Prop
  | .component _ _ => Building.isComponent (Text.lower tag.name) = true
  | .html details => Building.isComponent (Text.lower tag.name) = false ∧
    details.tag = writtenName (Text.lower tag.name)

/-- Whether an element is a component is decided by the name of its tag. -/
theorem ElementKind.IsOf.isComponent_eq {tag : Tag} {kind : ElementKind} (h : kind.IsOf tag) :
    kind.isComponent = Building.isComponent (Text.lower tag.name) := by
  cases kind with
  | component => exact h.symm
  | html => exact h.1.symm

/-- Directives have no elements if none of them has any. -/
theorem directivesElements_eq_nil {directives : List Directive}
    (h : ∀ d ∈ directives, d.elements = []) : directivesElements directives = [] := by
  induction directives with
  | nil => rfl
  | cons d rest ih =>
    obtain ⟨hd, hrest⟩ := List.forall_mem_cons.mp h
    rw [directivesElements, hd, ih hrest, List.nil_append]

/-- A transition has no elements if its directive has none. -/
theorem transitionElements_eq_nil {transition : Option Directive}
    (h : ∀ d ∈ transition, d.elements = []) : transitionElements transition = [] := by
  cases transition with
  | none => rfl
  | some d => exact h d rfl

/-- An attribute of a component is the same in all runs, and has no elements. -/
theorem settled_ofComponent {a : RawAttribute} (h : a.Readable) :
    Settled (fun built : Attribute => fragmentElements built.value = [])
      fun settings : Settings => Attribute.ofComponent (fragmentItems settings) a := by
  have hvalue : Settled (fun value => ∀ items ∈ value, itemsElements items = [])
      fun settings : Settings => whenSome (fragmentItems settings) a.value :=
    settled_whenSome fun tokens htokens => settled_fragment (h tokens htokens)
  refine hvalue.bind fun value helements => settled_pure ?_
  cases value with
  | none => rfl
  | some items => exact helements items rfl

/-- What an element has besides its content and its attributes. -/
def behaviourOf (fragment : FragmentBuilder) (tag : String) (span : Span)
    (sorted : SortedAttributes) : Numbered HtmlDetails := do
  let proxies ← each (Directive.ofRaw fragment span) sorted.proxies
  let intro ← whenSome (Directive.ofRaw fragment span) sorted.intro
  let outro ← whenSome (Directive.ofRaw fragment span) sorted.outro
  let decorator ← whenSome (decoratorName span) sorted.decorator
  return ⟨tag, [], proxies, intro, outro, decorator.join⟩

/-- What an element does besides its attributes is the same in all runs, and has no elements. -/
theorem settled_behaviourOf {sorted : SortedAttributes}
    (h : sorted.All RawAttribute.Readable RawAttribute.Readable) (tag : String) (span : Span) :
    Settled (fun details => (ElementKind.html details).elements = [] ∧ details.tag = tag)
      fun settings : Settings => behaviourOf (fragmentItems settings) tag span sorted := by
  refine (settled_each fun a ha => (h.proxies a ha).settled_ofRaw span).bind fun proxies hp => ?_
  refine (settled_whenSome fun a ha => (h.intro a ha).settled_ofRaw span).bind fun intro hi => ?_
  refine (settled_whenSome fun a ha => (h.outro a ha).settled_ofRaw span).bind fun outro ho => ?_
  refine (settled_whenSome fun a _ => settled_decoratorName span a).bind fun decorator _ => ?_
  refine settled_pure ⟨?_, rfl⟩
  rw [ElementKind.elements, directivesElements_eq_nil hp, transitionElements_eq_nil hi,
    transitionElements_eq_nil ho]
  rfl

/-- The details are the plain attributes and the behaviour, built one after the other. The first
part is what sanitizing changes, the second what faults come from. -/
theorem detailsOf_eq (fragment : FragmentBuilder) (tag : String) (span : Span)
    (sorted : SortedAttributes) (plain : List RawAttribute) :
    detailsOf fragment tag span sorted plain = (do
      let attributes ← each (Attribute.ofHtml fragment) plain
      let details ← behaviourOf fragment tag span sorted
      return { details with attributes }) := by
  simp only [detailsOf, behaviourOf, bind_assoc, pure_bind]

/-- The plain attributes that an element keeps. -/
theorem yields_kept (options : Options) (name : String) (plain : List RawAttribute)
    (index : Nat) :
    Yields (· = index) (kept options name plain) (.ok (plain.filter options.keeps)) := by
  intro index' hindex
  obtain ⟨hresult, hstate⟩ := kept_apply options name plain index'
  have hkeeps : plain.filter options.keeps = if options.sanitizeEventAttributes then
      plain.filter fun a => !Vocabulary.isEventHandler a.name else plain := by
    unfold Options.keeps
    cases options.sanitizeEventAttributes with
    | true => simp
    | false => simp
  rw [hkeeps]
  exact ⟨hresult, hstate.trans hindex⟩

/-- Of plain attributes that are related one by one the same are kept. -/
theorem pairs_kept {options : Options} (name : String) {R : RawAttribute → RawAttribute → Prop}
    (hR : ∀ a a', R a a' → options.keeps a' = options.keeps a) {plain plain' : List RawAttribute}
    (h : List.Forall₂ R plain plain') :
    Pairs (List.Forall₂ R) (kept options name plain) (kept options name plain') := by
  intro index
  obtain ⟨hresult, hstate⟩ := yields_kept options name plain index index rfl
  obtain ⟨hresult', hstate'⟩ := yields_kept options name plain' index index rfl
  rw [hresult, hresult', hstate, hstate']
  refine ⟨.ok (List.rel_filter (fun {a a'} ha => ?_) h), rfl⟩
  exact iff_of_eq (congrArg (· = true) (hR a a' ha).symm)

/-- The details of an element are its behaviour and the built attributes of its tag that the options
let it keep. -/
theorem Tag.Readable.yields_htmlDetails {tag : Tag} (h : tag.Readable) {sorted : SortedAttributes}
    (hsorted : SortedAttributes.ofList tag.attributes = .ok sorted) {span : Span}
    {settings : Settings} {index : Nat} {r : Except ParseError HtmlDetails}
    (hr : Yields (· = index) (behaviourOf (fragmentItems settings)
      (writtenName (Text.lower tag.name)) span sorted) r) :
    Yields (· = index) (htmlDetails settings.options (fragmentItems settings)
        (Text.lower tag.name) tag.attributes span)
      (r.map fun details =>
        { details with attributes := tag.builtAttributes settings.options }) := by
  have hplain : sorted.plain = tag.plainAttributes := SortedAttributes.plain_ofList hsorted
  have hattributes : Yields (· = index)
      (each (Attribute.ofHtml (fragmentItems settings))
        (sorted.plain.filter settings.options.keeps))
      (.ok (tag.builtAttributes settings.options)) := by
    rw [hplain]
    refine yields_each fun a ha => ?_
    have hmem := (List.mem_filter.mp (List.mem_filter.mp ha).1).1
    exact (h a hmem).yields_ofHtml settings index
  rw [htmlDetails_eq, hsorted]
  refine Yields.bind_ok (yields_pure sorted) ((yields_kept _ _ _ _).bind_ok ?_)
  rw [detailsOf_eq]
  refine hattributes.bind_ok ?_
  rw [← map_eq_pure_bind]
  exact hr.map _

/-- A component has no attributes that could be exchanged in this way. -/
theorem ElementKind.withAttributes_of_isComponent {kind : ElementKind}
    (h : kind.isComponent = true) (attributes : List Attribute) :
    kind.withAttributes attributes = kind := by
  cases kind with
  | component => rfl
  | html => cases h

/-- A component is what its tag says, whatever its attributes are. -/
theorem ElementKind.isOf_of_isComponent {kind : ElementKind} {tag : Tag}
    (h : kind.isComponent = true) (htag : Building.isComponent (Text.lower tag.name) = true) :
    kind.IsOf tag := by
  cases kind with
  | component => exact htag
  | html => cases h

/-- What a tag says is settled if its element is a component. -/
theorem Tag.Readable.settled_component {tag : Tag} (h : tag.Readable) :
    Settled (fun kind : ElementKind => kind.elements = [] ∧ kind.isComponent = true)
      fun settings : Settings => (do
        let attributes ← each (Attribute.ofComponent (fragmentItems settings)) tag.attributes
        return .component (componentName tag.name) attributes) :=
  (settled_each fun a ha => settled_ofComponent (h a ha)).bind fun _ helements =>
    settled_pure ⟨attributesElements_eq_nil_iff.mpr helements, rfl⟩

/-- What the element of a tag is but for its plain attributes is settled, and those are the built
ones of the tag that the options let it keep. -/
theorem Tag.Readable.exists_elementKind {tag : Tag} (h : tag.Readable) (span : Span) :
    ∃ r : Except ParseError ElementKind,
      (∀ kind, r = .ok kind → kind.elements = [] ∧ kind.IsOf tag) ∧
      ∀ settings index, Yields (· = index)
        (elementKind settings.options (fragmentItems settings) (Text.lower tag.name) tag span)
        (r.map (·.withAttributes (tag.builtAttributes settings.options))) := by
  unfold elementKind
  split
  · rename_i hcomponent
    obtain ⟨r, hQ, hyields⟩ := h.settled_component
    refine ⟨r, fun kind hkind => ?_, fun settings index => ?_⟩
    · obtain ⟨helements, hkind'⟩ := hQ kind hkind
      exact ⟨helements, ElementKind.isOf_of_isComponent hkind' hcomponent⟩
    · have hr : r.map (·.withAttributes (tag.builtAttributes settings.options)) = r := by
        cases r with
        | error e => rfl
        | ok kind =>
          exact congrArg Except.ok (ElementKind.withAttributes_of_isComponent (hQ kind rfl).2 _)
      rw [hr]
      exact hyields settings index
  · rename_i hcomponent
    rw [Bool.not_eq_true] at hcomponent
    cases hsorted : SortedAttributes.ofList tag.attributes with
    | error fault =>
      refine ⟨.error (fault.at span), ?_, fun settings index => ?_⟩
      · intro kind hkind
        cases hkind
      · rw [htmlDetails_eq, hsorted]
        exact (yields_fail (fault.at span)).map _
    | ok sorted =>
      have hall : sorted.All RawAttribute.Readable RawAttribute.Readable :=
        SortedAttributes.all_ofList h (fun a ha _ => h a ha) hsorted
      obtain ⟨r, hQ, hyields⟩ := settled_behaviourOf hall
        (writtenName (Text.lower tag.name)) span
      refine ⟨r.map .html, fun kind hkind => ?_, fun settings index => ?_⟩
      · cases r with
        | error e => cases hkind
        | ok details =>
          cases hkind
          exact ⟨(hQ details rfl).1, hcomponent, (hQ details rfl).2⟩
      · have hkind := (h.yields_htmlDetails hsorted (hyields settings index)).map ElementKind.html
        cases r with
        | error e => exact hkind
        | ok details =>
          obtain ⟨name, _, proxies, intro, outro, decorator⟩ := details
          exact hkind

/-- Without elements in the old attributes and in the new ones, there are none after
the exchange. -/
theorem ElementKind.elements_withAttributes {kind : ElementKind} {attributes : List Attribute}
    (h : kind.elements = []) (hattributes : ∀ a ∈ attributes, fragmentElements a.value = []) :
    (kind.withAttributes attributes).elements = [] := by
  cases kind with
  | component name _ => exact h
  | html details =>
    obtain ⟨tag, _, proxies, intro, outro, decorator⟩ := details
    simp only [withAttributes, elements, List.append_eq_nil_iff] at h ⊢
    exact ⟨⟨⟨attributesElements_eq_nil_iff.mpr hattributes, h.1.1.2⟩, h.1.2⟩, h.2⟩

/-- The attributes that a readable tag is built with have no elements. -/
theorem Tag.Readable.elements_builtAttributes {tag : Tag} (h : tag.Readable) (options : Options) :
    ∀ a ∈ tag.builtAttributes options, fragmentElements a.value = [] := by
  intro a ha
  obtain ⟨raw, hraw, rfl⟩ := List.mem_map.mp ha
  have hmem := (List.mem_filter.mp (List.mem_filter.mp hraw).1).1
  exact (h raw hmem).elements

/-- A tag whose attributes are all plain makes an element without behaviour. Nothing is refused
then, and no identity is given out. -/
theorem Tag.Readable.yields_elementKind_of_plain {tag : Tag} (h : tag.Readable) (span : Span)
    (hcomponent : isComponent (Text.lower tag.name) = false)
    (hplain : ∀ a ∈ tag.attributes, Role.ofName a.name = .plain) (settings : Settings)
    (index : Nat) :
    Yields (· = index)
      (elementKind settings.options (fragmentItems settings) (Text.lower tag.name) tag span)
      (.ok (.html ⟨writtenName (Text.lower tag.name), tag.builtAttributes settings.options, [],
        none, none, none⟩)) := by
  have hsorted := SortedAttributes.ofList_of_plain hplain
  have hbehaviour : Yields (· = index) (behaviourOf (fragmentItems settings)
      (writtenName (Text.lower tag.name)) span ⟨tag.attributes, [], none, none, none⟩)
      (.ok ⟨writtenName (Text.lower tag.name), [], [], none, none, none⟩) :=
    yields_pure _
  unfold elementKind
  rw [hcomponent, if_neg Bool.false_ne_true]
  have hdetails := h.yields_htmlDetails hsorted hbehaviour
  dsimp only [Except.map] at hdetails
  exact hdetails.map ElementKind.html

end MustacheMarkup
