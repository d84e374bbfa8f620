import MustacheMarkup.Proofs.Attribute.EventHandler
import MustacheMarkup.Proofs.Item.EventAttributes
import MustacheMarkup.Proofs.Journal.Pairs
import MustacheMarkup.Proofs.Journal.Success
import MustacheMarkup.Proofs.Template.Values

/-!
# Sanitizing removes the event attributes that are spelled as such

A sanitized build and one that is not use the same tokens in the same way, so neither succeeds
without the other (`SanitizedTo` is what relates their trees). But sanitizing looks at names as they
are written, and a tree has them in lower case. So the sanitized tree is the other one without its
event attributes if and only if every event attribute is one as it is written, and otherwise it
still has one (`Template.sanitized_iff`).
-/

set_option autoImplicit false

namespace MustacheMarkup

open Building Journal Vocabulary

/-- Every event attribute that the tag gives to an element is one as it is written. -/
def Tag.EventsSpelled (tag : Tag) : Prop :=
  isComponent (Text.lower tag.name) = false → ∀ a ∈ tag.plainAttributes,
    isEventHandler (htmlAttributeName a.name) = true → isEventHandler a.name = true

/-! ## Opening tags -/

section

variable {options options' : Options} {tag : Tag}

/-- If all event attributes are spelled as such, those that sanitizing leaves are those that are no
event attributes. -/
theorem builtAttributes_sanitized (hoff : options.sanitizeEventAttributes = false)
    (hon : options'.sanitizeEventAttributes = true)
    (hspelled : ∀ a ∈ tag.plainAttributes,
      isEventHandler (htmlAttributeName a.name) = true → isEventHandler a.name = true) :
    tag.builtAttributes options' =
      (tag.builtAttributes options).filter fun a => !isEventHandler a.name := by
  have hkept : tag.plainAttributes.filter options'.keeps =
      tag.plainAttributes.filter ((fun a => !isEventHandler a.name) ∘ RawAttribute.built) := by
    refine List.filter_congr fun a ha => ?_
    have hnames : isEventHandler a.name = isEventHandler (htmlAttributeName a.name) := by
      rw [Bool.eq_iff_iff]
      exact ⟨isEventHandler_htmlAttributeName, hspelled a ha⟩
    simp [Options.keeps, hon, hnames]
  rw [tag.builtAttributes_eq hoff, Tag.builtAttributes, hkept, List.filter_map]

/-- Sanitizing leaves no event attribute if and only if all of them are spelled as such. What is
looked at is the name as it was written, and what counts is the final one. -/
theorem noEvents_builtAttributes_iff (hon : options'.sanitizeEventAttributes = true) :
    (∀ a ∈ tag.builtAttributes options', isEventHandler a.name = false) ↔
      ∀ a ∈ tag.plainAttributes,
        isEventHandler (htmlAttributeName a.name) = true → isEventHandler a.name = true := by
  constructor
  · intro h a ha hevent
    cases hraw : isEventHandler a.name with
    | true => rfl
    | false =>
      have hkeeps : options'.keeps a = true := by simp [Options.keeps, hraw]
      have hbuilt := h a.built (List.mem_map_of_mem (List.mem_filter.mpr ⟨ha, hkeeps⟩))
      rw [RawAttribute.name_built, hevent] at hbuilt
      exact hbuilt.symm
  · intro h a ha
    obtain ⟨raw, hraw, rfl⟩ := List.mem_map.mp ha
    obtain ⟨hmem, hkeeps⟩ := List.mem_filter.mp hraw
    rw [← Bool.not_eq_true]
    intro hevent
    rw [RawAttribute.name_built] at hevent
    have hspelled := h raw hmem hevent
    simp [Options.keeps, hon, hspelled] at hkeeps

end

/-! ## Trees -/

/-- How the items of a sanitized build are related to those of one that is not, where `tags` are the
opening tags of their elements. -/
structure SanitizedTo (tags : List Tag) (items items' : List Item) : Prop where
  shallow : ∀ e ∈ itemsElements items, e.kind.elements = []
  removed : (∀ tag ∈ tags, tag.EventsSpelled) → items' = itemsWithoutEvents items
  complete : (∀ e ∈ itemsElements items', e.kind.NoEvents) ↔ ∀ tag ∈ tags, tag.EventsSpelled

namespace SanitizedTo

/-- Without items there are no tags and nothing to drop. -/
theorem nil : SanitizedTo [] [] [] where
  shallow _ he := absurd he List.not_mem_nil
  removed _ := rfl
  complete := ⟨fun _ _ h => absurd h List.not_mem_nil, fun _ _ h => absurd h List.not_mem_nil⟩

/-- An item without elements. -/
theorem leaf {item : Item} (helements : item.elements = [])
    (hitem : item.withoutEvents = item) : SanitizedTo [] [item] [item] := by
  have hnone : itemsElements [item] = [] := by
    rw [itemsElements, helements, itemsElements, List.nil_append]
  refine ⟨?_, fun _ => ?_, ?_⟩
  · rw [hnone]
    exact nil.shallow
  · rw [itemsWithoutEvents, hitem, itemsWithoutEvents]
  · rw [hnone]
    exact nil.complete

/-- Items are sanitized one by one, each with the tags of its elements. -/
theorem cons {tags tags' : List Tag} {item item' : Item} {items items' : List Item}
    (h : SanitizedTo tags [item] [item']) (hrest : SanitizedTo tags' items items') :
    SanitizedTo (tags ++ tags') (item :: items) (item' :: items') := by
  have hfirst : ∀ item : Item, itemsElements [item] = item.elements := by
    intro item
    rw [itemsElements, itemsElements, List.append_nil]
  obtain ⟨hshallow, hremoved, hcomplete⟩ := h
  rw [hfirst] at hshallow hcomplete
  refine ⟨?_, fun hspelled => ?_, ?_⟩
  · rw [itemsElements]
    exact List.forall_mem_append.mpr ⟨hshallow, hrest.shallow⟩
  · rw [List.forall_mem_append] at hspelled
    have hitem := hremoved hspelled.1
    rw [itemsWithoutEvents, itemsWithoutEvents, List.cons_eq_cons] at hitem
    rw [itemsWithoutEvents, hitem.1, hrest.removed hspelled.2]
  · rw [itemsElements, List.forall_mem_append, List.forall_mem_append, hcomplete, hrest.complete]

/-- A section is sanitized if its items are. -/
theorem block {tags : List Tag} {items items' : List Item} (h : SanitizedTo tags items items')
    (reference : String) (inverted : Bool) :
    SanitizedTo tags [.block reference inverted items] [.block reference inverted items'] := by
  have helements : ∀ items, itemsElements [.block reference inverted items] =
      itemsElements items := by
    intro items
    rw [itemsElements, itemsElements, List.append_nil, Item.elements]
  refine ⟨?_, fun hspelled => ?_, ?_⟩
  · rw [helements]
    exact h.shallow
  · rw [h.removed hspelled]
    rfl
  · rw [helements]
    exact h.complete

/-- To trim content changes nothing, since only texts are trimmed. -/
theorem trim {tags : List Tag} {items items' : List Item} (h : SanitizedTo tags items items') :
    SanitizedTo tags (trimBoundary items) (trimBoundary items') := by
  refine ⟨?_, fun hspelled => ?_, ?_⟩
  · rw [elements_trimBoundary]
    exact h.shallow
  · rw [h.removed hspelled, trimBoundary_withoutEvents]
  · rw [elements_trimBoundary]
    exact h.complete

end SanitizedTo

/-- How what the element of a tag is in a sanitized build is related to what it is in one that is
not. -/
structure ElementKind.SanitizedTo (tag : Tag) (kind kind' : ElementKind) : Prop where
  shallow : kind.elements = []
  shallow' : kind'.elements = []
  removed : tag.EventsSpelled → kind' = kind.withoutEvents
  complete : kind'.NoEvents ↔ tag.EventsSpelled

/-- An element is sanitized if what its tag says is, and its content. This is the case in which an
attribute can be dropped. -/
theorem SanitizedTo.element {tag : Tag} {header header' : NodeId × ElementKind}
    (hid : header'.1 = header.1) (hkind : header.2.SanitizedTo tag header'.2) {tags : List Tag}
    {children children' : Option (List Item)}
    (hnone : children = none ↔ children' = none)
    (hchildren : SanitizedTo tags (children.getD []) (children'.getD [])) :
    SanitizedTo (tag :: tags) [.element (tag.element header children)]
      [.element (tag.element header' children')] := by
  have helements : ∀ (header : NodeId × ElementKind) (children : Option (List Item)),
      header.2.elements = [] → itemsElements [.element (tag.element header children)] =
        tag.element header children :: itemsElements (children.getD []) := by
    intro header children hheader
    rw [itemsElements, itemsElements, List.append_nil, Item.elements, Tag.element,
      Element.elements, hheader, List.nil_append]
    cases children <;> rfl
  refine ⟨?_, fun hspelled => ?_, ?_⟩
  · rw [helements _ _ hkind.shallow]
    exact List.forall_mem_cons.mpr ⟨hkind.shallow, hchildren.shallow⟩
  · obtain ⟨htag, htags⟩ := List.forall_mem_cons.mp hspelled
    have hitems := hchildren.removed htags
    have hremoved := hkind.removed htag
    cases children with
    | none =>
      obtain rfl := hnone.mp rfl
      simp only [itemsWithoutEvents, Item.withoutEvents, Tag.element, Element.withoutEvents, hid,
        hremoved]
    | some items =>
      cases children' with
      | none => cases hnone.mpr rfl
      | some items' =>
        obtain rfl : items' = itemsWithoutEvents items := hitems
        simp only [itemsWithoutEvents, Item.withoutEvents, Tag.element, Element.withoutEvents, hid,
          hremoved]
  · rw [helements _ _ hkind.shallow', List.forall_mem_cons, List.forall_mem_cons,
      hchildren.complete]
    exact and_congr_left fun _ => hkind.complete

/-! ## Building -/

section

variable {settings settings' : Settings}

/-- What an element is with the attributes that one build keeps and with those that a sanitized one
does. -/
theorem ElementKind.sanitizedTo_withAttributes {tag : Tag} (h : tag.Readable)
    (hoff : settings.options.sanitizeEventAttributes = false)
    (hon : settings'.options.sanitizeEventAttributes = true) {kind : ElementKind}
    (helements : kind.elements = []) (hof : kind.IsOf tag) :
    (kind.withAttributes (tag.builtAttributes settings.options)).SanitizedTo tag
      (kind.withAttributes (tag.builtAttributes settings'.options)) := by
  have hcomponent := hof.isComponent_eq
  refine ⟨?_, ?_, fun hspelled => ?_, ?_⟩
  · exact kind.elements_withAttributes helements (h.elements_builtAttributes _)
  · exact kind.elements_withAttributes helements (h.elements_builtAttributes _)
  · cases kind with
    | component name attributes => rfl
    | html details =>
      obtain ⟨name, attributes, proxies, intro, outro, decorator⟩ := details
      simp only [ElementKind.withAttributes, ElementKind.withoutEvents]
      rw [builtAttributes_sanitized hoff hon (hspelled hcomponent.symm)]
  · cases kind with
    | component name attributes =>
      refine ⟨fun _ hhtml => ?_, fun _ => trivial⟩
      rw [← hcomponent] at hhtml
      cases hhtml
    | html details =>
      obtain ⟨name, attributes, proxies, intro, outro, decorator⟩ := details
      refine (noEvents_builtAttributes_iff hon).trans ?_
      exact ⟨fun hspelled _ => hspelled, fun hspelled => hspelled hcomponent.symm⟩

/-- What a tag gives to its element in a build that is not sanitized and in one that is. Both fail
for the same fault, and the identities that are used up are the same. -/
theorem Tag.Readable.pairs_elementHeader {tag : Tag} (h : tag.Readable) (span : Span)
    (hrun : settings'.run = settings.run)
    (hoff : settings.options.sanitizeEventAttributes = false)
    (hon : settings'.options.sanitizeEventAttributes = true) :
    Pairs (fun header header' => header'.1 = header.1 ∧ header.2.SanitizedTo tag header'.2)
      (elementHeader settings tag span) (elementHeader settings' tag span) := by
  obtain ⟨r, hkinds, hyields⟩ := h.exists_elementKind span
  have hkind : Pairs (fun kind kind' => kind.SanitizedTo tag kind')
      (elementKind settings.options (fragmentItems settings) (Text.lower tag.name) tag span)
      (elementKind settings'.options (fragmentItems settings') (Text.lower tag.name) tag span) := by
    intro index
    obtain ⟨hresult, hstate⟩ := hyields settings index index rfl
    obtain ⟨hresult', hstate'⟩ := hyields settings' index index rfl
    rw [hresult, hresult', hstate, hstate']
    refine ⟨?_, rfl⟩
    cases r with
    | error e => exact .error e
    | ok kind =>
      obtain ⟨helements, hof⟩ := hkinds kind rfl
      exact .ok (ElementKind.sanitizedTo_withAttributes h hoff hon helements hof)
  unfold elementHeader
  refine Pairs.bind (R := fun index index' => index' = index) ?_ fun index index' hindex => ?_
  · exact fun index => ⟨.ok rfl, rfl⟩
  refine Pairs.bind (R := fun _ _ => True) ?_ fun _ _ _ => ?_
  · exact fun index => ⟨.ok trivial, rfl⟩
  refine hkind.bind fun kind kind' hkinds => pairs_pure ?_
  rw [hrun, hindex]
  exact ⟨rfl, hkinds⟩

mutual

/-- Neither build of a part succeeds without the other. Where all event attributes are spelled as
such, the second tree is the first without them, with the same identities. -/
theorem pairs_build (hrun : settings'.run = settings.run)
    (hoff : settings.options.sanitizeEventAttributes = false)
    (hon : settings'.options.sanitizeEventAttributes = true) (keepBlanks : Bool) :
    ∀ n : Nested, (∀ tag ∈ n.tags, tag.Readable) →
      Pairs (fun item item' => SanitizedTo n.tags [item] [item']) (n.build settings keepBlanks)
        (n.build settings' keepBlanks)
  | .text _, _ => pairs_pure (SanitizedTo.leaf rfl rfl)
  | .mustache _ _, _ => pairs_pure (SanitizedTo.leaf rfl rfl)
  | .inclusion _, _ => pairs_pure (SanitizedTo.leaf rfl rfl)
  | .comment _, _ => pairs_pure (SanitizedTo.leaf rfl rfl)
  | .block reference inverted content, h => by
    rw [Nested.build, Nested.build]
    refine (pairs_buildAll hrun hoff hon keepBlanks content h).bind fun items items' hitems => ?_
    exact pairs_pure (hitems.block reference inverted)
  | .element tag span none, h => by
    have htag : tag.Readable := h tag List.mem_cons_self
    rw [Nested.build, Nested.build]
    refine (htag.pairs_elementHeader span hrun hoff hon).bind fun header header' hheader => ?_
    exact pairs_pure (SanitizedTo.element hheader.1 hheader.2 Iff.rfl SanitizedTo.nil)
  | .element tag span (some content), h => by
    obtain ⟨htag, hcontent⟩ := List.forall_mem_cons.mp h
    rw [Nested.build, Nested.build]
    refine (htag.pairs_elementHeader span hrun hoff hon).bind fun header header' hheader => ?_
    refine (pairs_buildAll hrun hoff hon (tag.keepsBlanks keepBlanks) content hcontent).bind
      fun children children' hchildren => pairs_pure ?_
    refine SanitizedTo.element hheader.1 hheader.2 (by simp) ?_
    simp only [Option.getD_some]
    split
    · exact hchildren
    · exact hchildren.trim

/-- Items are built on both sides of the option alike, or fail alike, and on the one side they are
those of the other without event attributes. -/
theorem pairs_buildAll (hrun : settings'.run = settings.run)
    (hoff : settings.options.sanitizeEventAttributes = false)
    (hon : settings'.options.sanitizeEventAttributes = true) (keepBlanks : Bool) :
    ∀ parts : List Nested, (∀ tag ∈ partsTags parts, tag.Readable) →
      Pairs (SanitizedTo (partsTags parts)) (buildAll settings keepBlanks parts)
        (buildAll settings' keepBlanks parts)
  | [], _ => pairs_pure SanitizedTo.nil
  | n :: rest, h => by
    obtain ⟨hn, hrest⟩ := List.forall_mem_append.mp h
    rw [buildAll, buildAll]
    refine (pairs_build hrun hoff hon keepBlanks n hn).bind fun item item' hitem => ?_
    refine (pairs_buildAll hrun hoff hon keepBlanks rest hrest).bind fun items items' hitems => ?_
    exact pairs_pure (hitem.cons hitems)

end

end

/-! ## Templates -/

namespace Template

/-- The trees of a template that is sanitized and of one that is not, or the one error that both
have. Trimming and blanks are the same on both sides. -/
theorem sameEnd_ofTokens {settings settings' : Settings} (hrun : settings'.run = settings.run)
    (hkeep : settings'.options.preserveWhitespace = settings.options.preserveWhitespace)
    (hoff : settings.options.sanitizeEventAttributes = false)
    (hon : settings'.options.sanitizeEventAttributes = true) {tokens : List Token}
    (h : ∀ t ∈ tokens, t.lexeme.Readable) :
    SameEnd (SanitizedTo (openingTags tokens)) (ofTokens settings tokens).result
      (ofTokens settings' tokens).result := by
  have htags : ∀ tag ∈ partsTags (Nesting.ofTokens tokens), tag.Readable := by
    rw [Nesting.tags_ofTokens]
    exact fun tag htag => readable_of_mem_openingTags h htag
  obtain ⟨hend, -⟩ := pairs_buildAll hrun hoff hon settings.options.preserveWhitespace
    (Nesting.ofTokens tokens) htags 0
  rw [ofTokens_result, ofTokens_result, hkeep, ← Nesting.tags_ofTokens]
  refine hend.map fun items items' hitems => ?_
  split
  · exact hitems
  · exact hitems.trim

/-- Sanitizing never decides whether a source text is a template. It removes the event attributes of
the tree and no others if and only if each of them is one as it is written, and only then no event
attribute is left. -/
theorem sanitized_iff (source : String) (keepBlanks : Bool) (tokens : List Token)
    (h : tokenize source = .ok tokens) :
    ((parse ⟨keepBlanks, true⟩ source).isOk ↔ (parse ⟨keepBlanks, false⟩ source).isOk) ∧
    ∀ items items', parse ⟨keepBlanks, false⟩ source = .ok items →
      parse ⟨keepBlanks, true⟩ source = .ok items' →
      (items' = itemsWithoutEvents items ↔ ∀ tag ∈ openingTags tokens, tag.EventsSpelled) ∧
      ((∀ e ∈ itemsElements items', e.kind.NoEvents) ↔
        ∀ tag ∈ openingTags tokens, tag.EventsSpelled) ∧
      ∀ e ∈ itemsElements items, e.kind.elements = [] := by
  have hparse : ∀ options, parse options source = (ofTokens ⟨options, 0⟩ tokens).result := by
    intro options
    rw [parse, ofSource, h]
  have hend : SameEnd (SanitizedTo (openingTags tokens)) (parse ⟨keepBlanks, false⟩ source)
      (parse ⟨keepBlanks, true⟩ source) := by
    rw [hparse, hparse]
    exact @sameEnd_ofTokens ⟨⟨keepBlanks, false⟩, 0⟩ ⟨⟨keepBlanks, true⟩, 0⟩ rfl rfl rfl rfl tokens
      (readable_of_tokenize h)
  refine ⟨hend.isOk_iff.symm, fun items items' hitems hitems' => ?_⟩
  rw [hitems, hitems'] at hend
  obtain _ | hsanitized := hend
  refine ⟨⟨fun hremoved => ?_, hsanitized.removed⟩, hsanitized.complete, hsanitized.shallow⟩
  rw [← hsanitized.complete, hremoved]
  exact noEvents_of_mem_items items hsanitized.shallow

/-- An attribute that is spelled in small letters, beside one that is not: the option drops what it
should. -/
theorem sanitized_iff_of_spelled :
    ∃ tokens items items', tokenize "<p onclick=a(1) Title=x>y" = .ok tokens ∧
      parse ⟨true, false⟩ "<p onclick=a(1) Title=x>y" = .ok items ∧
      parse ⟨true, true⟩ "<p onclick=a(1) Title=x>y" = .ok items' ∧
      (items' = itemsWithoutEvents items ↔ ∀ tag ∈ openingTags tokens, tag.EventsSpelled) := by
  obtain ⟨tokens, htokens⟩ : ∃ tokens, tokenize "<p onclick=a(1) Title=x>y" = .ok tokens :=
    exists_of_isOk (by decide +kernel)
  obtain ⟨items, hitems⟩ : ∃ items, parse ⟨true, false⟩ "<p onclick=a(1) Title=x>y" = .ok items :=
    exists_of_isOk (by decide +kernel)
  obtain ⟨items', hitems'⟩ : ∃ items, parse ⟨true, true⟩ "<p onclick=a(1) Title=x>y" = .ok items :=
    exists_of_isOk (by decide +kernel)
  have hiff := (sanitized_iff _ true tokens htokens).2 items items' hitems hitems'
  exact ⟨tokens, items, items', htokens, hitems, hitems', hiff.1⟩

/-- Sanitizing overlooks a name in capital letters, and the tree has it in small ones, as an event
attribute. -/
theorem event_left_in_sanitized :
    ∃ items, parse ⟨false, true⟩ "<div ONCLICK=x></div>" = .ok items ∧
      ∃ e ∈ itemsElements items, ¬e.kind.NoEvents := by
  obtain ⟨items, hitems⟩ : ∃ items, parse ⟨false, true⟩ "<div ONCLICK=x></div>" = .ok items :=
    exists_of_isOk (by decide +kernel)
  have hfound : (parse ⟨false, true⟩ "<div ONCLICK=x></div>").toOption.any (fun items =>
      (itemsElements items).any fun e => !e.kind.isComponent &&
        e.attributes.any (isEventHandler ·.name)) = true := by decide +kernel
  rw [hitems] at hfound
  obtain ⟨e, he, hevent⟩ := List.any_eq_true.mp hfound
  refine ⟨items, hitems, e, he, fun hno => ?_⟩
  rw [Bool.and_eq_true, List.any_eq_true] at hevent
  obtain ⟨hhtml, a, ha, hname⟩ := hevent
  unfold Element.attributes at ha
  cases hkind : e.kind with
  | component name attributes =>
    rw [hkind] at hhtml
    cases hhtml
  | html details =>
    rw [hkind] at ha hno
    have := hno a ha
    rw [hname] at this
    cases this

end Template

end MustacheMarkup
