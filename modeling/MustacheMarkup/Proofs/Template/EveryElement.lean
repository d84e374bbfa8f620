import MustacheMarkup.Proofs.Item.Inside
import MustacheMarkup.Proofs.Journal.Ensures
import MustacheMarkup.Proofs.Journal.Success
import MustacheMarkup.Proofs.Template.Mustaches
import MustacheMarkup.Proofs.Template.Session
import MustacheMarkup.Proofs.Template.Steps

/-!
# How every element is put together

An element is put together in one place, of what its opening tag says and of its content, which ends
before anything that would close the element. So `Element.IsBuilt` holds of all elements that are
ever built: in content and in sections, in the values of attributes and in directives, from any
tokens and in any number of steps (`every_collect`). No call of a parser builds others
(`every_answers`).
-/

set_option autoImplicit false

namespace MustacheMarkup

open Building Journal

/-- An element as it is put together of an opening tag: it is what the tag says, however the
fragments in that are built, and it has content unless it closes itself or never has any. -/
structure Element.PutTogetherOf (options : Options) (tag : Tag) (e : Element) : Prop where
  rawName : e.rawName = tag.name
  lowerName : e.lowerName = Text.lower tag.name
  kind : ∃ fragment span index,
    (elementKind options fragment (Text.lower tag.name) tag span index).result = .ok e.kind
  doctype : e.doctype = tag.doctype
  selfClosing : e.selfClosing = tag.selfClosing
  isVoid : e.isVoid = Vocabulary.isVoid (Text.lower tag.name)
  closers : e.closers = Vocabulary.closers? (Text.lower tag.name)
  children : e.children.isSome = !(e.selfClosing || e.isVoid)

/-- An element as it is put together of some opening tag. -/
def Element.PutTogether (options : Options) (e : Element) : Prop :=
  ∃ tag, e.PutTogetherOf options tag

/-- No element that stands directly in the content of an element closes it. -/
def Element.StaysOpen (e : Element) : Prop :=
  ∀ child, .element child ∈ e.content → Vocabulary.isAmong e.closers child.lowerName = false

/-- An element as it is built. -/
structure Element.IsBuilt (options : Options) (e : Element) : Prop where
  putTogether : e.PutTogether options
  staysOpen : e.StaysOpen
  inserts : ∀ inner ∈ e.fragments, ∀ item ∈ inner, item.Inserts

/-! ## Opening tags -/

/-- From tokens that satisfy `T`, and so from what these are cut into, fragments are built that
satisfy `Q`. -/
structure FragmentBuilder.Turns (T : List Token → Prop) (Q : List Item → Prop)
    (fragment : FragmentBuilder) : Prop where
  parts : ∀ tokens, T tokens → T (splitAtColon tokens).1 ∧ T (splitAtColon tokens).2
  ensures : ∀ tokens, T tokens → Ensures (fragment tokens) Q

section

variable {T : List Token → Prop} {Q : List Item → Prop} {fragment : FragmentBuilder}

/-- The value of an attribute is a fragment that satisfies `Q`, if its tokens satisfy `T`. -/
theorem FragmentBuilder.Turns.value (h : fragment.Turns T Q) {a : RawAttribute}
    (ha : ∀ tokens ∈ a.value, T tokens) :
    Ensures (whenSome fragment a.value) fun value => ∀ inner ∈ value, Q inner :=
  ensures_whenSome fun tokens htokens => h.ensures tokens (ha tokens htokens)

/-- So is the value of an attribute of a component. -/
theorem FragmentBuilder.Turns.ofComponent (h : fragment.Turns T Q) {a : RawAttribute}
    (ha : ∀ tokens ∈ a.value, T tokens) :
    Ensures (Attribute.ofComponent fragment a) fun built => ∀ inner ∈ built.value, Q inner :=
  (h.value ha).bind fun _ hvalue => ensures_pure hvalue

/-- So is the value of an attribute of the markup. -/
theorem FragmentBuilder.Turns.ofHtml (h : fragment.Turns T Q) {a : RawAttribute}
    (ha : ∀ tokens ∈ a.value, T tokens) :
    Ensures (Attribute.ofHtml fragment a) fun built => ∀ inner ∈ built.value, Q inner :=
  (h.value ha).bind fun _ hvalue => ensures_pure hvalue

/-- The name of a directive has no fragment, or one that satisfies `Q`. -/
theorem FragmentBuilder.Turns.directiveName (h : fragment.Turns T Q) {tokens : List Token}
    (htokens : T tokens) :
    Ensures (DirectiveName.ofTokens fragment tokens) fun name =>
      ∀ inner ∈ name.fragment?.toList, Q inner := by
  unfold DirectiveName.ofTokens
  split
  · exact ensures_pure (List.forall_mem_nil Q)
  · exact (h.ensures tokens htokens).bind fun items hitems =>
      ensures_pure (List.forall_mem_singleton.mpr hitems)

/-- The arguments of a directive have no fragment, or one that satisfies `Q`. -/
theorem FragmentBuilder.Turns.arguments (h : fragment.Turns T Q) {tokens : List Token}
    (htokens : T tokens) :
    Ensures (Directive.arguments? fragment tokens) fun arguments =>
      ∀ inner ∈ arguments.2.toList, Q inner := by
  unfold Directive.arguments?
  split
  · exact ensures_pure (List.forall_mem_nil Q)
  · split
    · exact ensures_pure (List.forall_mem_nil Q)
    · exact (h.ensures tokens htokens).bind fun items hitems =>
        ensures_pure (List.forall_mem_singleton.mpr hitems)

/-- All fragments of a directive satisfy `Q`: its tokens are cut at the colon, and `T` goes over to
both sides. -/
theorem FragmentBuilder.Turns.directive (h : fragment.Turns T Q) (span : Span) {a : RawAttribute}
    (ha : ∀ tokens ∈ a.value, T tokens) :
    Ensures (Directive.ofRaw fragment span a) fun d => ∀ inner ∈ d.fragments, Q inner := by
  obtain ⟨occasion, _ | tokens⟩ := a
  · exact ensures_fail _ _
  · obtain ⟨hname, harguments⟩ := h.parts tokens (ha tokens rfl)
    unfold Directive.ofRaw
    dsimp only
    split
    · exact ensures_fail _ _
    · refine (h.directiveName hname).bind fun name hname => ?_
      refine (h.arguments harguments).bind fun arguments harguments => ensures_pure ?_
      exact List.forall_mem_append.mpr ⟨hname, harguments⟩

/-- What holds of each value holds of the values that are there. -/
theorem forall_mem_values {attributes : List Attribute}
    (h : ∀ a ∈ attributes, ∀ inner ∈ a.value, Q inner) :
    ∀ inner ∈ attributes.filterMap Attribute.value, Q inner := by
  intro inner hinner
  obtain ⟨a, ha, hvalue⟩ := List.mem_filterMap.mp hinner
  exact h a ha inner hvalue

/-- All fragments in the details of an element satisfy `Q`, because they come out of its attributes,
and these were sorted out of the tag. -/
theorem FragmentBuilder.Turns.detailsOf (h : fragment.Turns T Q) (tag : String) (span : Span)
    {sorted : SortedAttributes}
    (hsorted : sorted.All (fun a => ∀ tokens ∈ a.value, T tokens)
      fun a => ∀ tokens ∈ a.value, T tokens)
    {plain : List RawAttribute} (hplain : ∀ a ∈ plain, ∀ tokens ∈ a.value, T tokens) :
    Ensures (Building.detailsOf fragment tag span sorted plain) fun details =>
      ∀ inner ∈ (ElementKind.html details).fragments, Q inner := by
  unfold Building.detailsOf
  refine (ensures_each fun a ha => h.ofHtml (hplain a ha)).bind fun attributes hattributes => ?_
  refine (ensures_each fun a ha => h.directive span (hsorted.proxies a ha)).bind
    fun proxies hproxies => ?_
  refine (ensures_whenSome fun a ha => h.directive span (hsorted.intro a ha)).bind
    fun intro hintro => ?_
  refine (ensures_whenSome fun a ha => h.directive span (hsorted.outro a ha)).bind
    fun outro houtro => ?_
  refine ensures_bind _ fun decorator => ensures_pure ?_
  refine List.forall_mem_append.mpr ⟨forall_mem_values hattributes, fun inner hinner => ?_⟩
  simp only [List.mem_flatMap, List.mem_append, Option.mem_toList] at hinner
  obtain ⟨d, (hd | hd) | hd, hinner⟩ := hinner
  · exact hproxies d hd inner hinner
  · exact hintro d hd inner hinner
  · exact houtro d hd inner hinner

/-- What an opening tag says is built with fragments of the values of its attributes only. So what
holds of a fragment of such tokens holds of all that are in the element. -/
theorem FragmentBuilder.Turns.elementKind (h : fragment.Turns T Q) (options : Options)
    (lowerName : String) {tag : Tag} (htag : ∀ a ∈ tag.attributes, ∀ tokens ∈ a.value, T tokens)
    (span : Span) :
    Ensures (Building.elementKind options fragment lowerName tag span) fun kind =>
      ∀ inner ∈ kind.fragments, Q inner := by
  unfold Building.elementKind
  split
  · exact (ensures_each fun a ha => h.ofComponent (htag a ha)).bind fun attributes hattributes =>
      ensures_pure (forall_mem_values hattributes)
  · rw [htmlDetails_eq]
    refine Ensures.map (P := fun details =>
      ∀ inner ∈ (ElementKind.html details).fragments, Q inner) ?_ fun details hdetails => hdetails
    intro index details hdetails
    obtain ⟨sorted, hsorted, hdetails⟩ := result_bind_eq_ok hdetails
    obtain ⟨plain, hplain, hdetails⟩ := result_bind_eq_ok hdetails
    have hall := SortedAttributes.all_ofList (Q := fun a => ∀ tokens ∈ a.value, T tokens) htag
      (fun a ha _ => htag a ha) (ofList_eq_of_mapError hsorted)
    refine h.detailsOf _ span hall (fun a ha => hall.plain a ?_) _ details hdetails
    exact mem_of_mem_kept hplain ha

end

/-! ## Items -/

namespace Building

/-- `P` holds of every element in the content that is built. -/
def EveryContent (P : Element → Prop) (collect : Container → Bool → Building (List Item)) : Prop :=
  ∀ container keepBlanks, Ensures (collect container keepBlanks) fun items =>
    ∀ e ∈ itemsElements items, P e

/-- A fragment is content of its own: what holds of all content holds of it. -/
theorem turns_fragment {collect : Container → Bool → Building (List Item)} {Q : List Item → Prop}
    (h : Ensures (collect .whole true) Q) :
    (Building.fragment (collect .whole true)).Turns (fun _ => True) Q where
  parts _ _ := ⟨trivial, trivial⟩
  ensures tokens _ index items hitems := by
    unfold Building.fragment at hitems
    dsimp only at hitems
    cases hresult : (collect .whole true ⟨tokens, index⟩).result with
    | error e =>
      rw [hresult] at hitems
      cases hitems
    | ok built =>
      rw [hresult] at hitems
      cases hitems
      exact h _ _ hresult

/-- What is ensured without a cursor is ensured with one. -/
theorem ensures_numbered {α : Type} {P : α → Prop} {m : Numbered α} (h : Ensures m P) :
    Ensures (numbered m) P :=
  fun c a ha => h c.nextIndex a ha

section

variable {P : Element → Prop} {settings : Settings}
  {collect : Container → Bool → Building (List Item)}

/-- `P` holds of every element in what an opening tag says. -/
theorem EveryContent.kind (h : EveryContent P collect) (options : Options) (lowerName : String)
    (tag : Tag) (span : Span) :
    Ensures (elementKind options (Building.fragment (collect .whole true)) lowerName tag span)
      fun kind => ∀ e ∈ kind.elements, P e := by
  intro index kind hkind e he
  rw [kind.elements_eq_flatMap] at he
  obtain ⟨inner, hinner, he⟩ := List.mem_flatMap.mp he
  exact (turns_fragment (h .whole true)).elementKind options lowerName (fun _ _ _ _ => trivial) span
    index kind hkind inner hinner e he

/-- All mustaches in the fragments of an opening tag stand for values that are inserted. -/
theorem Inserting.kind (h : Inserting collect) (options : Options) (lowerName : String) (tag : Tag)
    (span : Span) :
    Ensures (elementKind options (Building.fragment (collect .whole true)) lowerName tag span)
      fun kind => ∀ inner ∈ kind.fragments, ∀ item ∈ inner, item.Inserts :=
  (turns_fragment (h .whole true)).elementKind options lowerName (fun _ _ _ _ => trivial) span

/-- A mustache has the elements of its section, if it opens one, and no others. The section is
collected by `collect`, of which this is assumed. -/
theorem EveryContent.mustache (h : EveryContent P collect) (keepBlanks : Bool)
    (kind : MustacheKind) (reference : String) (line : Nat) :
    Ensures (mustacheWith collect keepBlanks kind reference line) fun item =>
      ∀ e ∈ itemsElements item.toList, P e := by
  have hblock : ∀ inverted, Ensures (do
      let items ← collect (.block reference) keepBlanks
      return some (Item.block reference inverted items)) fun item =>
        ∀ e ∈ itemsElements item.toList, P e := by
    refine fun inverted => (h (.block reference) keepBlanks).bind fun items hitems => ?_
    refine ensures_pure ?_
    rw [Option.toList_some, itemsElements, itemsElements, List.append_nil]
    exact hitems
  cases kind with
  | interpolation => exact ensures_pure (List.forall_mem_nil P)
  | unescaped => exact ensures_pure (List.forall_mem_nil P)
  | inclusion => exact ensures_pure (List.forall_mem_nil P)
  | remark => exact ensures_pure (List.forall_mem_nil P)
  | closing => exact ensures_bind _ fun _ => ensures_pure (List.forall_mem_nil P)
  | opening => exact hblock false
  | inverted => exact hblock true

/-- The name of an element is that of its tag in lower case. -/
theorem ensures_lowerName (keepBlanks : Bool) (tag : Tag) (span : Span) :
    Ensures (elementWith settings collect keepBlanks tag span) fun e =>
      e.lowerName = Text.lower tag.name := by
  unfold elementWith
  refine ensures_bind _ fun _ => ensures_bind _ fun index => ensures_bind _ fun kind => ?_
  dsimp only
  split
  · exact ensures_bind _ fun _ => ensures_pure rfl
  · exact ensures_bind _ fun _ => ensures_bind _ fun children => ensures_pure rfl

/-- A mustache never starts an element. -/
theorem ensures_mustache_ne (keepBlanks : Bool) (kind : MustacheKind) (reference : String)
    (line : Nat) : Ensures (mustacheWith collect keepBlanks kind reference line) fun item =>
      ∀ e, item ≠ some (.element e) := by
  cases kind with
  | interpolation => exact ensures_pure (by simp)
  | unescaped => exact ensures_pure (by simp)
  | inclusion => exact ensures_pure (by simp)
  | remark => exact ensures_pure (by simp)
  | closing => exact ensures_bind _ fun _ => ensures_pure (by simp)
  | opening => exact ensures_bind _ fun _ => ensures_pure (by simp)
  | inverted => exact ensures_bind _ fun _ => ensures_pure (by simp)

/-- Where the content of an element goes on, no element comes next that closes it. What decides this
is the name on the tag in lower case, which is that of the element. -/
theorem isAmong_eq_false_of_nextItem {name : String} {closers : Option (List String)}
    {keepBlanks : Bool} {c : Cursor}
    (hends : (ends (.element name closers) c).result = .ok false) {e : Element}
    (he : (nextItemWith settings collect keepBlanks c).result = .ok (some (.element e))) :
    Vocabulary.isAmong closers e.lowerName = false := by
  obtain ⟨_ | ⟨⟨lexeme, span⟩, rest⟩, index⟩ := c
  · cases hends
  rw [(ends_apply _ _ _ _).1] at hends
  cases lexeme with
  | text content => cases he
  | comment content => cases he
  | mustache kind reference =>
    obtain ⟨next, hnext, he⟩ := result_bind_eq_ok he
    cases hnext
    obtain ⟨_, -, he⟩ := result_bind_eq_ok he
    exact absurd rfl (ensures_mustache_ne keepBlanks kind reference span.line _ _ he e)
  | tag tag =>
    cases hclosing : tag.closing with
    | true =>
      rw [nextItemWith_closingTag _ hclosing] at he
      cases he
    | false =>
      rw [nextItemWith_openingTag _ hclosing] at he
      obtain ⟨e', he', heq⟩ := result_map_eq_ok he
      cases heq
      rw [ensures_lowerName keepBlanks tag span _ _ he']
      simpa [Container.ending, hclosing] using hends

/-- In the content that is built for an element, no element stands that closes it. -/
def KeepsOpen (collect : Container → Bool → Building (List Item)) : Prop :=
  ∀ name closers keepBlanks, Ensures (collect (.element name closers) keepBlanks) fun items =>
    ∀ e, .element e ∈ items → Vocabulary.isAmong closers e.lowerName = false

/-- This is the one place where an element is put together: what is inside has been built before.
What is assumed of `collect` gives the clauses on content, and the tag all others. -/
theorem EveryContent.element (h : EveryContent (Element.IsBuilt settings.options) collect)
    (hopen : KeepsOpen collect) (hinserts : Inserting collect) (keepBlanks : Bool) (tag : Tag)
    (span : Span) :
    Ensures (elementWith settings collect keepBlanks tag span) fun e =>
      ∀ e' ∈ e.elements, e'.IsBuilt settings.options := by
  unfold elementWith
  refine ensures_bind _ fun _ => ensures_bind _ fun index => ?_
  have hkind : Ensures (elementKind settings.options (Building.fragment (collect .whole true))
      (Text.lower tag.name) tag span) fun kind =>
      (∀ e ∈ kind.elements, e.IsBuilt settings.options) ∧
        (∀ inner ∈ kind.fragments, ∀ item ∈ inner, item.Inserts) ∧ ∃ fragment span index,
          (elementKind settings.options fragment (Text.lower tag.name) tag span index).result =
            .ok kind :=
    fun index kind hkind => ⟨h.kind _ _ tag span index kind hkind,
      hinserts.kind _ _ tag span index kind hkind, _, span, index, hkind⟩
  refine (ensures_numbered hkind).bind fun kind ⟨helements, hfragments, hkind⟩ => ?_
  dsimp only
  split
  · rename_i halone
    refine ensures_bind _ fun _ => ensures_pure ?_
    rw [Element.elements, fragmentElements, List.append_nil]
    refine List.forall_mem_cons.mpr
      ⟨⟨⟨tag, rfl, rfl, hkind, rfl, rfl, rfl, rfl, ?_⟩, ?_, ?_⟩, helements⟩
    · simp only [halone, Option.isSome_none, Bool.not_true]
    · exact fun child hchild => absurd hchild List.not_mem_nil
    · rw [Element.fragments_eq]
      exact hfragments
  · rename_i halone
    refine ensures_bind _ fun _ => ?_
    have hcontent : Ensures (collect tag.container
        (keepBlanks || Text.lower tag.name == Vocabulary.verbatimElement)) fun children =>
        (∀ e ∈ itemsElements children, e.IsBuilt settings.options) ∧
          ∀ item ∈ children, ∀ e, item = .element e →
            Vocabulary.isAmong (Vocabulary.closers? (Text.lower tag.name)) e.lowerName = false := by
      refine fun c children hchildren => ⟨h _ _ c children hchildren, ?_⟩
      rintro _ hitem e rfl
      exact hopen _ _ _ c children hchildren e hitem
    refine hcontent.bind fun children hchildren => ensures_pure ?_
    rw [Element.elements, fragmentElements, elements_keptOrTrimmed]
    refine List.forall_mem_cons.mpr ⟨⟨⟨tag, rfl, rfl, hkind, rfl, rfl, rfl, rfl, ?_⟩, ?_, ?_⟩,
      List.forall_mem_append.mpr ⟨helements, hchildren.1⟩⟩
    · simp only [halone, Option.isSome_some, Bool.not_false]
    · intro child hchild
      dsimp only [Element.content, Option.getD_some] at hchild
      split at hchild
      · exact hchildren.2 _ hchild child rfl
      · exact forall_mem_trimBoundary (fun content _ e he => by cases he) hchildren.2 _ hchild
          child rfl
    · rw [Element.fragments_eq]
      exact hfragments

/-- The next item has only elements that were built before it, in fragments and in content, or the
one that is put together now. -/
theorem EveryContent.nextItem (h : EveryContent (Element.IsBuilt settings.options) collect)
    (hopen : KeepsOpen collect) (hinserts : Inserting collect) (keepBlanks : Bool) :
    Ensures (nextItemWith settings collect keepBlanks) fun item =>
      ∀ e ∈ itemsElements item.toList, e.IsBuilt settings.options := by
  refine ensures_bind _ fun next => ?_
  split
  · exact ensures_pure (List.forall_mem_nil _)
  · exact ensures_bind _ fun content => ensures_pure (List.forall_mem_nil _)
  · exact ensures_bind _ fun _ => ensures_pure (List.forall_mem_nil _)
  · exact ensures_bind _ fun _ => h.mustache keepBlanks _ _ _
  · rename_i tag span
    split
    · exact ensures_bind _ fun _ => ensures_bind _ fun _ => ensures_pure (List.forall_mem_nil _)
    · refine (h.element hopen hinserts keepBlanks tag span).map fun e he => ?_
      rw [Option.toList_some, itemsElements, itemsElements, List.append_nil]
      exact he

end

variable (settings : Settings)

/-- The content of an element ends before a tag that would close the element. The induction is on
the number of steps: each item was asked about before it was built. -/
theorem keepsOpen_collect (n : Nat) : KeepsOpen (collect settings n) := by
  induction n with
  | zero => exact fun _ _ _ => ensures_pure (fun _ he => absurd he List.not_mem_nil)
  | succ n ih =>
    intro name closers keepBlanks c items hitems
    obtain ⟨ended, hended, hitems⟩ := result_bind_eq_ok hitems
    split at hitems
    · cases hitems
      exact fun _ he => absurd he List.not_mem_nil
    · rename_i hnot
      rw [Bool.not_eq_true] at hnot
      subst hnot
      rw [state_ends_of_not_ended hended] at hitems
      obtain ⟨item, hitem, hitems⟩ := result_bind_eq_ok hitems
      obtain ⟨rest, hrest, hitems⟩ := result_bind_eq_ok hitems
      cases hitems
      intro e he
      rcases List.mem_append.mp he with he | he
      · rw [Option.mem_toList.mp he] at hitem
        exact isAmong_eq_false_of_nextItem hended hitem
      · exact ih name closers keepBlanks _ rest hrest e he

/-- However many steps are allowed: the induction is on them. -/
theorem every_collect (n : Nat) :
    EveryContent (Element.IsBuilt settings.options) (collect settings n) := by
  induction n with
  | zero => exact fun _ _ => ensures_pure (List.forall_mem_nil _)
  | succ n ih =>
    intro container keepBlanks
    refine ensures_bind _ fun ended => ?_
    split
    · exact ensures_pure (List.forall_mem_nil _)
    · have hnext := ih.nextItem (keepsOpen_collect settings n) (inserting_collect settings n)
      refine (hnext keepBlanks).bind fun item hitem => ?_
      refine (ih container keepBlanks).bind fun items hitems => ensures_pure ?_
      rw [itemsElements_eq, List.flatMap_append, ← itemsElements_eq, ← itemsElements_eq]
      exact List.forall_mem_append.mpr ⟨hitem, hitems⟩

/-- All content that is built has only elements that are put together in this way, since the number
of steps that it is built with is just large enough. -/
theorem every_items : EveryContent (Element.IsBuilt settings.options) (items settings) :=
  fun container keepBlanks c =>
    every_collect settings (Token.totalWeight c.tokens) container keepBlanks c

/-- Whatever a parser is asked for, it builds its elements in this way, in a template and in a
fragment, because both are collected as content. -/
theorem every_perform (call : Call) :
    Ensures (call.perform settings) fun items =>
      ∀ e ∈ itemsElements items, e.IsBuilt settings.options := by
  cases call with
  | nextItem keepBlanks =>
    have hitem : Ensures (Building.nextItem settings keepBlanks) fun item =>
        ∀ e ∈ itemsElements item.toList, e.IsBuilt settings.options :=
      fun c => (every_collect settings _).nextItem (keepsOpen_collect settings _)
        (inserting_collect settings _) keepBlanks c
    exact hitem.map fun item hitem => hitem
  | template =>
    refine (every_items settings .whole _).bind fun built hbuilt => ensures_pure ?_
    rw [elements_keptOrTrimmed]
    exact hbuilt
  | fragment tokens =>
    exact fun c => (turns_fragment (every_items settings .whole true)).ensures tokens trivial
      c.nextIndex
  | advance =>
    exact Ensures.map (P := fun _ => True) (fun _ _ _ => trivial) fun _ _ => List.forall_mem_nil _

/-- Every element in all that calls in turn build is built in this way. -/
theorem every_answers (calls : List Call) (c : Cursor) :
    ∀ e ∈ Call.answersElements (Call.answers settings calls c), e.IsBuilt settings.options := by
  induction calls generalizing c with
  | nil => exact List.forall_mem_nil _
  | cons call rest ih =>
    have hrest := ih (call.perform settings c).state
    rw [Call.answers]
    cases hresult : (call.perform settings c).result with
    | error e => exact hrest
    | ok items =>
      have hitems := every_perform settings call c items hresult
      exact List.forall_mem_append.mpr ⟨hitems, hrest⟩

end Building

end MustacheMarkup
