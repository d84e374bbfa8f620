import MustacheMarkup.Proofs.Item.Elements
import MustacheMarkup.Proofs.Journal.Counts
import MustacheMarkup.Proofs.Template.Ending
import MustacheMarkup.Proofs.Template.OpeningTag

/-!
# Elements are numbered in the order in which they are listed

Each function that builds something gives out identities for the elements in it, one after another
in the order of `elements`: an element, what its attributes hold, then its content. This holds for
all tokens, also where the values of attributes have tags in them, and for any number of steps. A
fragment that fails gives its identities back.
-/

set_option autoImplicit false

namespace MustacheMarkup

open Building Journal

/-- The identities of elements. -/
def idsOf (elements : List Element) : List NodeId :=
  elements.map Element.id

/-- The identities of elements, one before the others. -/
@[simp]
theorem idsOf_cons (e : Element) (elements : List Element) :
    idsOf (e :: elements) = e.id :: idsOf elements := rfl

/-- There are as many identities as elements. -/
@[simp]
theorem length_idsOf (elements : List Element) : (idsOf elements).length = elements.length :=
  List.length_map _

/-- The identities of two lists of elements are those of the one and those of the other. -/
@[simp]
theorem idsOf_append (elements elements' : List Element) :
    idsOf (elements ++ elements') = idsOf elements ++ idsOf elements' :=
  List.map_append

/-- The identities of the elements of many things are those of each, in order. -/
theorem idsOf_flatMap {α : Type} (f : α → List Element) (l : List α) :
    idsOf (l.flatMap f) = l.flatMap fun a => idsOf (f a) :=
  List.map_flatMap

/-! ## Opening tags -/

section

variable {run : Nat} {fragment : FragmentBuilder}

/-- A way to build fragments that gives out identities for their elements. -/
def FragmentBuilder.Counts (run : Nat) (fragment : FragmentBuilder) : Prop :=
  ∀ tokens, Journal.Counts run id [] (fragment tokens) fun items => idsOf (itemsElements items)

/-- The value of an attribute has the identities that are given meanwhile. -/
theorem FragmentBuilder.Counts.value (h : fragment.Counts run) (value : Option (List Token)) :
    Journal.Counts run id [] (whenSome fragment value) fun items =>
      idsOf (fragmentElements items) := by
  have hvalue := counts_whenSome h value
  simp only [← idsOf_flatMap, ← fragmentElements_eq] at hvalue
  exact hvalue

/-- So has an attribute of a component. -/
theorem FragmentBuilder.Counts.ofComponent (h : fragment.Counts run) (a : RawAttribute) :
    Journal.Counts run id [] (Attribute.ofComponent fragment a) fun built =>
      idsOf (fragmentElements built.value) :=
  (h.value a.value).bind fun _ => counts_pure rfl

/-- So has an attribute of the markup. -/
theorem FragmentBuilder.Counts.ofHtml (h : fragment.Counts run) (a : RawAttribute) :
    Journal.Counts run id [] (Attribute.ofHtml fragment a) fun built =>
      idsOf (fragmentElements built.value) :=
  (h.value a.value).bind fun _ => counts_pure rfl

/-- So has the name of a directive. -/
theorem FragmentBuilder.Counts.directiveName (h : fragment.Counts run) (tokens : List Token) :
    Journal.Counts run id [] (DirectiveName.ofTokens fragment tokens) fun name =>
      idsOf name.elements := by
  unfold DirectiveName.ofTokens
  split
  · exact counts_pure rfl
  · exact (h tokens).bind fun _ => counts_pure rfl

/-- So have the arguments of a directive. -/
theorem FragmentBuilder.Counts.arguments (h : fragment.Counts run) (tokens : List Token) :
    Journal.Counts run id [] (Directive.arguments? fragment tokens) fun arguments =>
      idsOf (fragmentElements arguments.2) := by
  unfold Directive.arguments?
  split
  · exact counts_pure rfl
  · split
    · exact counts_pure rfl
    · exact (h tokens).bind fun _ => counts_pure rfl

/-- So has a directive: those of its name come before those of its arguments, as they are built. -/
theorem FragmentBuilder.Counts.directive (h : fragment.Counts run) (span : Span)
    (a : RawAttribute) :
    Journal.Counts run id [] (Directive.ofRaw fragment span a) fun d => idsOf d.elements := by
  unfold Directive.ofRaw
  split
  · exact counts_fail _ _ _
  · rename_i tokens _
    split
    · exact counts_fail _ _ _
    · refine (h.directiveName (splitAtColon tokens).1).bind fun name => ?_
      refine ((h.arguments (splitAtColon tokens).2).frame _).bind fun arguments => ?_
      refine counts_pure ?_
      rw [Directive.elements_eq, idsOf_append]

/-- A decorator holds no elements. -/
theorem counts_decoratorName (span : Span) (a : RawAttribute) (before : List NodeId) :
    Journal.Counts run id before (decoratorName span a) fun _ => before := by
  unfold decoratorName
  split
  · split
    · exact counts_pure rfl
    · exact (counts_note _ _).bind fun _ => counts_pure rfl
  · exact counts_fail _ _ _

/-- What an element has besides its content is numbered as it is listed: attributes, proxies, the
two transitions. -/
theorem FragmentBuilder.Counts.detailsOf (h : fragment.Counts run) (tag : String) (span : Span)
    (sorted : SortedAttributes) (plain : List RawAttribute) :
    Journal.Counts run id [] (Building.detailsOf fragment tag span sorted plain) fun details =>
      idsOf (ElementKind.html details).elements := by
  have hdirectives := counts_each (h.directive span) sorted.proxies
  have hintro := counts_whenSome (h.directive span) sorted.intro
  have houtro := counts_whenSome (h.directive span) sorted.outro
  have hattributes := counts_each h.ofHtml plain
  simp only [← idsOf_flatMap, ← directivesElements_eq, ← attributesElements_eq]
    at hdirectives hintro houtro hattributes
  refine hattributes.bind fun attributes => (hdirectives.frame _).bind fun proxies => ?_
  refine (hintro.frame _).bind fun intro => (houtro.frame _).bind fun outro => ?_
  have hdecorator : ∀ before, Journal.Counts run id before
      (whenSome (decoratorName span) sorted.decorator) fun _ => before := by
    intro before
    cases sorted.decorator with
    | none => exact counts_pure rfl
    | some a => exact (counts_decoratorName span a before).map fun _ => rfl
  refine (hdecorator _).bind fun decorator => counts_pure ?_
  simp only [ElementKind.elements, transitionElements_eq, idsOf_append]

/-- So has what an element is. Its attributes are sorted before any is built, and the identities are
given in the order of the parts. -/
theorem FragmentBuilder.Counts.elementKind (h : fragment.Counts run) (options : Options)
    (lowerName : String) (tag : Tag) (span : Span) :
    Journal.Counts run id [] (Building.elementKind options fragment lowerName tag span) fun kind =>
      idsOf kind.elements := by
  unfold Building.elementKind
  split
  · have hattributes := counts_each h.ofComponent tag.attributes
    simp only [← idsOf_flatMap, ← attributesElements_eq] at hattributes
    exact hattributes.bind fun attributes => counts_pure rfl
  · refine Counts.map ?_ fun _ => rfl
    rw [htmlDetails_eq]
    have hsorted : Journal.Counts run id []
        (ofExcept ((SortedAttributes.ofList tag.attributes).mapError (·.at span))) fun _ => [] :=
      counts_of_index_eq (fun _ => rfl) fun _ _ _ => rfl
    refine hsorted.bind fun sorted => ?_
    have hkept : Journal.Counts run id [] (kept options (writtenName lowerName) sorted.plain)
        fun _ => [] :=
      counts_of_index_eq (fun index => (kept_apply _ _ _ index).2) fun _ _ _ => rfl
    exact hkept.bind fun plain => h.detailsOf _ _ _ _

end

/-! ## Items -/

namespace Building

/-- A way to build content that gives out identities for the elements in it. -/
def NumbersContent (run : Nat) (collect : Container → Bool → Building (List Item)) : Prop :=
  ∀ container keepBlanks, Counts run Cursor.nextIndex [] (collect container keepBlanks)
    fun items => idsOf (itemsElements items)

/-- What builds something without tokens gives out the same with them. -/
theorem counts_numbered {α : Type} {run : Nat} {before : List NodeId} {m : Numbered α}
    {ids : α → List NodeId} (h : Counts run id before m ids) :
    Counts run Cursor.nextIndex before (numbered m) ids :=
  fun c => h c.nextIndex

/-- To look at the next token gives no identity. -/
theorem counts_peek (run : Nat) (before : List NodeId) :
    Counts run Cursor.nextIndex before peek fun _ => before :=
  counts_of_index_eq (fun _ => rfl) fun _ _ _ => rfl

/-- To leave a token out gives no identity. -/
theorem counts_advance (run : Nat) (before : List NodeId) :
    Counts run Cursor.nextIndex before advance fun _ => before :=
  counts_of_index_eq (fun _ => rfl) fun _ _ _ => rfl

/-- To take a text gives no identity. -/
theorem counts_takeText (run : Nat) (before : List NodeId) :
    Counts run Cursor.nextIndex before takeText fun _ => before :=
  counts_of_index_eq (fun _ => rfl) fun _ _ _ => rfl

/-- An index that is taken is that of the identity given out for it. -/
theorem counts_takeIndex (run : Nat) :
    Counts run Cursor.nextIndex [] takeIndex fun index => [⟨run, index⟩] := by
  intro c
  refine ⟨Nat.le_succ c.nextIndex, fun index hindex => ?_⟩
  cases hindex
  exact (idsBetween_succ run c.nextIndex).symm

/-- To see whether content ends gives no identity. -/
theorem counts_ends (run : Nat) (before : List NodeId) (container : Container) :
    Counts run Cursor.nextIndex before (ends container) fun _ => before := by
  refine counts_of_index_eq (fun c => ?_) fun _ _ _ => rfl
  obtain ⟨_ | ⟨t, rest⟩, index⟩ := c
  · rfl
  · rw [(ends_apply container t rest index).2]

section

variable {settings : Settings} {collect : Container → Bool → Building (List Item)}

/-- A fragment has the identities that are given meanwhile, if all content has. -/
theorem NumbersContent.fragment {run : Nat} (h : NumbersContent run collect) :
    (fragment (collect .whole true)).Counts run := by
  intro tokens index
  obtain ⟨hle, hids⟩ := h .whole true ⟨tokens, index⟩
  unfold Building.fragment
  dsimp only
  cases hresult : (collect .whole true ⟨tokens, index⟩).result with
  | error e => exact ⟨Nat.le_refl index, fun _ h => by cases h⟩
  | ok built =>
    refine ⟨hle, fun items hitems => ?_⟩
    cases hitems
    exact hids built hresult

/-- An element has its own identity first, then those in its opening tag and then those of its
content. -/
theorem NumbersContent.element (h : NumbersContent settings.run collect) (keepBlanks : Bool)
    (tag : Tag) (span : Span) :
    Counts settings.run Cursor.nextIndex [] (elementWith settings collect keepBlanks tag span)
      fun e => idsOf e.elements := by
  refine (counts_advance _ _).bind fun _ => (counts_takeIndex _).bind fun index => ?_
  have hkind := counts_numbered
    (h.fragment.elementKind settings.options (Text.lower tag.name) tag span)
  refine (hkind.frame _).bind fun kind => ?_
  dsimp only
  split
  · refine (counts_note _ _).bind fun _ => counts_pure ?_
    simp only [Element.elements, fragmentElements, List.append_nil, idsOf_cons,
      List.singleton_append]
  · refine (counts_note _ _).bind fun _ => ((h _ _).frame _).bind fun children => ?_
    refine counts_pure ?_
    simp only [Element.elements, fragmentElements, elements_keptOrTrimmed, idsOf_cons,
      idsOf_append, List.cons_append, List.nil_append]

/-- A mustache has the identities of its section, if it opens one. It gives none itself, and neither
does what is reported of a section that is closed by another name. -/
theorem NumbersContent.mustache {run : Nat} (h : NumbersContent run collect) (keepBlanks : Bool)
    (kind : MustacheKind) (reference : String) (line : Nat) :
    Counts run Cursor.nextIndex [] (mustacheWith collect keepBlanks kind reference line)
      fun item => idsOf (itemsElements item.toList) := by
  have hblock : ∀ inverted, Counts run Cursor.nextIndex [] (do
      let items ← collect (.block reference) keepBlanks
      return some (Item.block reference inverted items))
      fun item => idsOf (itemsElements item.toList) := by
    refine fun inverted => (h (.block reference) keepBlanks).bind fun items => counts_pure ?_
    rw [Option.toList_some, itemsElements_eq, List.flatMap_singleton]
    rfl
  cases kind with
  | interpolation => exact counts_pure rfl
  | unescaped => exact counts_pure rfl
  | inclusion => exact counts_pure rfl
  | remark => exact counts_pure rfl
  | closing => exact (counts_note _ _).bind fun _ => counts_pure rfl
  | opening => exact hblock false
  | inverted => exact hblock true

/-- So has the next item, whatever it is. -/
theorem NumbersContent.nextItem (h : NumbersContent settings.run collect) (keepBlanks : Bool) :
    Counts settings.run Cursor.nextIndex [] (nextItemWith settings collect keepBlanks)
      fun item => idsOf (itemsElements item.toList) := by
  refine (counts_peek _ _).bind fun next => ?_
  split
  · exact counts_pure rfl
  · exact (counts_takeText _ _).bind fun content => counts_pure rfl
  · exact (counts_advance _ _).bind fun _ => counts_pure rfl
  · exact (counts_advance _ _).bind fun _ => h.mustache keepBlanks _ _ _
  · rename_i tag span
    split
    · refine (counts_note _ _).bind fun _ => (counts_advance _ _).bind fun _ => ?_
      exact counts_pure rfl
    · refine (h.element keepBlanks tag span).map fun e => ?_
      rw [Option.toList_some, itemsElements_eq, List.flatMap_singleton, Item.elements]

end

/-- However many steps are allowed: the induction is on them. -/
theorem numbersContent_collect (settings : Settings) (n : Nat) :
    NumbersContent settings.run (collect settings n) := by
  induction n with
  | zero => exact fun _ _ => counts_pure rfl
  | succ n ih =>
    intro container keepBlanks
    refine (counts_ends _ _ container).bind fun ended => ?_
    split
    · exact counts_pure rfl
    · refine (ih.nextItem keepBlanks).bind fun item => ?_
      refine ((ih container keepBlanks).frame _).bind fun items => counts_pure ?_
      rw [itemsElements_eq, List.flatMap_append, ← itemsElements_eq, ← itemsElements_eq,
        idsOf_append]

/-! ## What is asked for -/

variable (settings : Settings)

/-- All content has the identities that are given while it is built. -/
theorem numbersContent_items : NumbersContent settings.run (items settings) :=
  fun container keepBlanks c =>
    numbersContent_collect settings (Token.totalWeight c.tokens) container keepBlanks c

/-- All fragments have the identities that are given while they are built. -/
theorem counts_fragmentItems : (fragmentItems settings).Counts settings.run :=
  (numbersContent_items settings).fragment

/-- The next item has the identities that are given while it is built. -/
theorem counts_nextItem (keepBlanks : Bool) :
    Counts settings.run Cursor.nextIndex [] (nextItem settings keepBlanks)
      fun item => idsOf (itemsElements item.toList) :=
  fun c => (numbersContent_collect settings (Token.totalWeight c.tokens)).nextItem keepBlanks c

/-- A template has all identities of its run, in order. -/
theorem counts_template :
    Counts settings.run Cursor.nextIndex [] (template settings)
      fun items => idsOf (itemsElements items) := by
  refine (numbersContent_items settings .whole _).bind fun built => counts_pure ?_
  rw [elements_keptOrTrimmed]

end Building

end MustacheMarkup
