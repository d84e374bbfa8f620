import MustacheMarkup.Proofs.Journal.Reports
import MustacheMarkup.Proofs.Nesting.Complete
import MustacheMarkup.Proofs.Nesting.Fitting
import MustacheMarkup.Proofs.Output.Essence
import MustacheMarkup.Proofs.Template.Faults

/-!
# Trees written out

A template may leave much unsaid: elements end where a sibling, another closing tag or the end of a
section ends them. `Item.writtenOut` says all of it, with a closing tag for each element that has
content and a closing mustache for each section. Tokens so written build the same tree again
(`parse_writtenOut`), and on the way nothing is closed but by what is written for it.

What carries the proof is that no element of a tree closes the one that it stands in
(`Nesting.fitting_ofTokens`), so all content that is written goes on up to its own end. The
induction is over how the items were made. Texts that stand side by side are read as one, so it is
carried along what is read behind the texts that come next as well (`Resumes`).
-/

set_option autoImplicit false

namespace MustacheMarkup

open Building Journal

/-! ## Writing out -/

mutual

/-- The tokens that write an item out, by their lexemes. -/
def Item.writtenOut : Item → List Lexeme
  | .text content => [.text content]
  | .mustache kind reference => [.mustache kind reference]
  | .block reference inverted items =>
    .mustache (if inverted then .inverted else .opening) reference ::
      (itemsWrittenOut items ++ [.mustache .closing reference])
  | .inclusion name => [.mustache .inclusion name]
  | .comment content => [.comment content]
  | .element e => e.writtenOut

/-- The tokens that write an element out: its opening tag, and, if it has content, that and its
closing tag. -/
def Element.writtenOut : Element → List Lexeme
  | ⟨_, rawName, _, _, doctype, selfClosing, _, _, none⟩ =>
    [.tag ⟨rawName, [], false, selfClosing, doctype⟩]
  | ⟨_, rawName, _, _, doctype, selfClosing, _, _, some children⟩ =>
    .tag ⟨rawName, [], false, selfClosing, doctype⟩ ::
      (itemsWrittenOut children ++ [.tag ⟨rawName, [], true, false, false⟩])

/-- The tokens that write items out. -/
def itemsWrittenOut : List Item → List Lexeme
  | [] => []
  | item :: rest => item.writtenOut ++ itemsWrittenOut rest

end

mutual

/-- An item as another run builds it, with neighbouring texts in it put together. -/
def Item.rebuilt (run : Nat) : Item → Item
  | .text content => .text content
  | .mustache kind reference => .mustache kind reference
  | .block reference inverted items =>
    .block reference inverted (joinItems (itemsRebuilt run items))
  | .inclusion name => .inclusion name
  | .comment content => .comment content
  | .element e => .element (e.rebuilt run)

/-- An element as another run builds it, with neighbouring texts in it put together. -/
def Element.rebuilt (run : Nat) : Element → Element
  | ⟨id, rawName, lowerName, kind, doctype, selfClosing, isVoid, closers, none⟩ =>
    ⟨⟨run, id.index⟩, rawName, lowerName, kind, doctype, selfClosing, isVoid, closers, none⟩
  | ⟨id, rawName, lowerName, kind, doctype, selfClosing, isVoid, closers, some children⟩ =>
    ⟨⟨run, id.index⟩, rawName, lowerName, kind, doctype, selfClosing, isVoid, closers,
      some (joinItems (itemsRebuilt run children))⟩

/-- Items as another run builds them, with neighbouring texts in each of them put together. -/
def itemsRebuilt (run : Nat) : List Item → List Item
  | [] => []
  | item :: rest => item.rebuilt run :: itemsRebuilt run rest

end

/-- An event only says that an element was built or opened, or closed by its own closing tag. -/
def Event.Ordinary : Event → Prop
  | .built _ | .opened _ | .closed _ => True
  | _ => False

/-! ## Neighbouring texts -/

/-- The text that items start with. -/
def firstText : List Item → String
  | .text content :: _ => content
  | _ => ""

/-- The items behind the text that they start with. -/
def behindText : List Item → List Item
  | .text _ :: rest => rest
  | items => items

/-- A text is put together with the text that the others start with. -/
theorem joinItems_text (content : String) (rest : List Item) :
    joinItems (.text content :: rest) =
      .text (content ++ firstText (joinItems rest)) :: behindText (joinItems rest) := by
  rw [joinItems]
  split
  · rename_i next more heq
    rw [heq, firstText, behindText]
  · rename_i hne
    cases hrest : joinItems rest with
    | nil => simp [firstText, behindText]
    | cons item more =>
      cases item with
      | text next => exact absurd hrest (hne next more)
      | _ => simp [firstText, behindText]

/-- What is no text is not put together with anything. -/
theorem joinItems_of_ne {item : Item} (h : ∀ content, item ≠ .text content) (rest : List Item) :
    joinItems (item :: rest) = item :: joinItems rest := by
  cases item with
  | text content => exact absurd rfl (h content)
  | _ => rfl

/-- What is no text has no text at its start. -/
theorem split_of_ne {item : Item} (h : ∀ content, item ≠ .text content) (rest : List Item) :
    firstText (item :: rest) = "" ∧ behindText (item :: rest) = item :: rest := by
  cases item with
  | text content => exact absurd rfl (h content)
  | _ => exact ⟨rfl, rfl⟩

/-- What starts with no text has no text to be read with the one before. -/
theorem leadingText_of_head {tokens : List Token} (h : ∀ t ∈ tokens.head?, t.text? = none) :
    leadingText tokens = "" ∧ afterText tokens = tokens := by
  cases tokens with
  | nil => exact ⟨rfl, rfl⟩
  | cons t rest =>
    have ht := h t rfl
    constructor
    · rw [leadingText, ht]
    · rw [afterText, ht]
      rfl

/-! ## Tags without attributes -/

/-- What the element of a tag without attributes is. -/
def bareKind (name : String) : ElementKind :=
  if isComponent (Text.lower name) then .component (componentName name) []
  else .html ⟨(Vocabulary.svgElement? (Text.lower name)).getD (Text.lower name), [], [], none,
    none, none⟩

/-- Without attributes an element depends on the name of its tag alone. -/
theorem elementHeader_bare (settings : Settings) {tag : Tag} (h : tag.attributes = [])
    (span : Span) (index : Nat) : elementHeader settings tag span index =
      ⟨.ok (⟨settings.run, index⟩, bareKind tag.name), index + 1, []⟩ := by
  have hkind :
      elementKind settings.options (fragmentItems settings) (Text.lower tag.name) tag span =
        pure (bareKind tag.name) := by
    unfold elementKind bareKind htmlDetails
    rw [h]
    obtain ⟨⟨keep, sanitize⟩, run⟩ := settings
    split
    · rfl
    · cases sanitize <;> rfl
  unfold elementHeader
  rw [hkind]
  rfl

/-! ## Steps of building -/

namespace Building

variable {settings : Settings} {container : Container}

/-- A token with which content goes on is not used to see that, and nothing is reported. All that is
left to do is to build the next item. -/
theorem ends_of_goesOn {t : Token} (h : container.ending t.lexeme = .goesOn) (tokens : List Token)
    (index : Nat) :
    ends container ⟨t :: tokens, index⟩ = ⟨.ok false, ⟨t :: tokens, index⟩, []⟩ := by
  obtain ⟨lexeme, span⟩ := t
  cases container with
  | whole => rfl
  | block reference =>
    cases lexeme with
    | mustache kind closing =>
      cases kind with
      | closing => cases h
      | _ => rfl
    | _ => rfl
  | element name closers =>
    cases lexeme with
    | mustache kind reference =>
      cases kind with
      | closing => cases h
      | _ => rfl
    | tag tag =>
      simp only [Container.ending] at h
      simp only [ends, bind_apply, peek, List.head?_cons, elementEnds]
      split at h
      · split at h <;> cases h
      · rename_i hclosing
        split at h
        · cases h
        · rename_i hcloses
          rw [if_neg hclosing, if_neg hcloses]
          rfl
    | _ => rfl

/-- A section ends with a closing mustache of its reference. -/
theorem succeeds_ends_block (reference : String) (span : Span) (tokens : List Token) (index : Nat) :
    Succeeds Event.Ordinary (ends (.block reference))
      ⟨⟨.mustache .closing reference, span⟩ :: tokens, index⟩ true ⟨tokens, index⟩ := by
  refine succeeds_of_eq ?_
  have hsame : ¬(reference ≠ "" ∧ reference ≠ reference) := fun h => h.2 rfl
  simp only [ends, bind_apply, peek, List.head?_cons, blockEnds, if_neg hsame]
  rfl

/-- An element ends with its closing tag. -/
theorem succeeds_ends_element {name : String} {tag : Tag} (hclosing : tag.closing = true)
    (hname : Text.lower tag.name = name) (closers : Option (List String)) (span : Span)
    (tokens : List Token) (index : Nat) :
    Succeeds Event.Ordinary (ends (.element name closers)) ⟨⟨.tag tag, span⟩ :: tokens, index⟩ true
      ⟨tokens, index⟩ := by
  have hends : ends (.element name closers) ⟨⟨.tag tag, span⟩ :: tokens, index⟩ =
      ⟨.ok true, ⟨tokens, index⟩, [.closed name]⟩ := by
    simp only [ends, bind_apply, peek, List.head?_cons, elementEnds, if_pos hclosing, if_pos hname]
    rfl
  refine ⟨?_, ?_, ?_⟩
  · rw [hends]
  · rw [hends]
  · rw [hends]
    exact List.forall_mem_singleton.mpr trivial

/-- Content whose end is next is empty. -/
theorem succeeds_items_of_ends {c c' : Cursor} (settings : Settings)
    (h : Succeeds Event.Ordinary (ends container) c true c') :
    Succeeds Event.Ordinary (items settings container true) c [] c' := by
  rw [items_eq]
  exact h.bind (succeeds_pure [] c')

/-! ## What comes before the rest -/

/-- Content that is built from `c` on starts with these items, and goes on with what is built from
`c'` on. -/
def Resumes (settings : Settings) (container : Container) (c : Cursor) (built : List Item)
    (c' : Cursor) : Prop :=
  ∀ rest later, Succeeds Event.Ordinary (items settings container true) c' rest later →
    Succeeds Event.Ordinary (items settings container true) c (built ++ rest) later

/-- To resume at once needs no items. -/
theorem resumes_self (c : Cursor) : Resumes settings container c [] c :=
  fun _ _ h => h

/-- What resumes where another part left off comes behind the items of that. -/
theorem Resumes.trans {c c' c'' : Cursor} {built built' : List Item}
    (h : Resumes settings container c built c') (h' : Resumes settings container c' built' c'') :
    Resumes settings container c (built ++ built') c'' := by
  intro rest later hrest
  rw [List.append_assoc]
  exact h _ _ (h' _ _ hrest)

/-- One item is built, and content goes on behind it, because the token that it starts with ends
nothing. -/
theorem resumes_of_nextItem {t : Token} {tokens : List Token} {index : Nat} {item : Item}
    {c : Cursor} (hending : container.ending t.lexeme = .goesOn)
    (hnext : Succeeds Event.Ordinary (nextItem settings true) ⟨t :: tokens, index⟩ (some item) c) :
    Resumes settings container ⟨t :: tokens, index⟩ [item] c := by
  intro rest later hrest
  rw [items_eq]
  refine Succeeds.bind (succeeds_of_eq (ends_of_goesOn hending tokens index)) ?_
  exact hnext.bind (hrest.bind (succeeds_pure _ later))

/-- Texts that come next are one item. -/
theorem resumes_text (content : String) (span : Span) (tokens : List Token) (index : Nat) :
    Resumes settings container ⟨⟨.text content, span⟩ :: tokens, index⟩
      [.text (content ++ leadingText tokens)] ⟨afterText tokens, index⟩ := by
  refine resumes_of_nextItem ?_ ?_
  · cases container <;> rfl
  · rw [nextItem_eq]
    exact succeeds_of_eq rfl

end Building

/-! ## Building what is written out -/

/-- A part may stand in the content of a container: it is not an element that closes this one. -/
def Container.Admits : Container → Nested → Prop
  | .element _ closers, .element tag _ _ =>
    Vocabulary.isAmong closers (Text.lower tag.name) = false
  | _, _ => True

/-- What does not close the element of a tag may stand in its content. -/
theorem Tag.admits_container {tag : Tag} {n : Nested} (h : n.closes (Text.lower tag.name) = false) :
    tag.container.Admits n := by
  cases n with
  | element => exact h
  | _ => trivial

section

variable {settings settings' : Settings}

/-- With the token that an item other than a text starts with, content goes on in every container
that admits its part. And when it is built again it is still no text. -/
theorem exists_head {n : Nested} {item : Item} {index later : Nat}
    (h : n.Makes settings true index item later) (hne : ∀ content, n ≠ .text content) :
    (∀ run content, item.rebuilt run ≠ .text content) ∧ ∃ lexeme more,
      item.writtenOut = lexeme :: more ∧ (∀ content, lexeme ≠ .text content) ∧
      ∀ container : Container, container.Admits n → container.ending lexeme = .goesOn := by
  have hclosing : ∀ (container : Container) kind reference, kind ≠ .closing →
      container.ending (.mustache kind reference) = .goesOn := by
    intro container kind reference hkind
    cases container <;> cases kind <;> first | rfl | exact absurd rfl hkind
  have htag : ∀ (container : Container) (tag : Tag) span content,
      container.Admits (.element tag span content) →
      container.ending (.tag ⟨tag.name, [], false, tag.selfClosing, tag.doctype⟩) = .goesOn := by
    intro container tag span content hadmits
    cases container with
    | element name closers =>
      have hcloses : Vocabulary.isAmong closers (Text.lower tag.name) = false := hadmits
      simp only [Container.ending, hcloses, Bool.false_eq_true, if_false]
    | _ => rfl
  cases h with
  | text => exact absurd rfl (hne _)
  | mustache _ _ escaped reference =>
    refine ⟨fun _ _ => by simp [Item.rebuilt], _, _, rfl, by simp, fun container _ => ?_⟩
    exact hclosing container _ reference (by cases escaped <;> decide)
  | block reference inverted hcontent =>
    refine ⟨fun _ _ => by simp [Item.rebuilt], _, _, rfl, by simp, fun container _ => ?_⟩
    exact hclosing container _ reference (by cases inverted <;> decide)
  | inclusion _ _ name =>
    refine ⟨fun _ _ => by simp [Item.rebuilt], _, _, rfl, by simp, fun container _ => ?_⟩
    exact hclosing container _ name (by decide)
  | comment _ _ content =>
    refine ⟨fun _ _ => by simp [Item.rebuilt], _, _, rfl, by simp, fun container _ => ?_⟩
    cases container <;> rfl
  | alone _ hheader =>
    refine ⟨fun _ _ => by simp [Item.rebuilt], _, _, rfl, by simp, fun container hadmits => ?_⟩
    exact htag container _ _ _ hadmits
  | element hheader hcontent =>
    refine ⟨fun _ _ => by simp [Item.rebuilt], _, _, rfl, by simp, fun container hadmits => ?_⟩
    exact htag container _ _ _ hadmits

/-- The first steps of building an element without attributes: its tag is used and one identity is
given out. What follows may depend on that identity. -/
theorem succeeds_header {tag : Tag} (hbare : tag.attributes = []) (span : Span) (t : Token)
    (tokens : List Token) (index : Nat) {α : Type} {f : NodeId × ElementKind → Building α} {a : α}
    {c : Cursor}
    (h : Succeeds Event.Ordinary (f (⟨settings.run, index⟩, bareKind tag.name))
      ⟨tokens, index + 1⟩ a c) :
    Succeeds Event.Ordinary (do
      advance
      let header ← numbered (elementHeader settings tag span)
      f header) ⟨t :: tokens, index⟩ a c := by
  have hheader : numbered (elementHeader settings tag span) ⟨tokens, index⟩ =
      ⟨.ok (⟨settings.run, index⟩, bareKind tag.name), ⟨tokens, index + 1⟩, []⟩ := by
    unfold numbered focus
    rw [elementHeader_bare settings hbare]
  have hadvance : advance ⟨t :: tokens, index⟩ = ⟨.ok (), ⟨tokens, index⟩, []⟩ := rfl
  exact (succeeds_of_eq hadvance).bind ((succeeds_of_eq hheader).bind h)

/-- A section is built of what stands up to its closing mustache, which has the same reference, so
that nothing is reported of a section closed by another name. -/
theorem succeeds_nextItem_block {reference : String} {inverted : Bool} {tokens tail : List Token}
    {built : List Item} {index later : Nat} {span : Span}
    (h : Resumes settings (.block reference)
      ⟨tokens ++ ⟨.mustache .closing reference, span⟩ :: tail, index⟩ built
      ⟨⟨.mustache .closing reference, span⟩ :: tail, later⟩) (span' : Span) :
    Succeeds Event.Ordinary (nextItem settings true)
      ⟨⟨.mustache (if inverted then .inverted else .opening) reference, span'⟩ ::
        (tokens ++ ⟨.mustache .closing reference, span⟩ :: tail), index⟩
      (some (.block reference inverted built)) ⟨tail, later⟩ := by
  have hitems := h [] ⟨tail, later⟩
    (succeeds_items_of_ends settings (succeeds_ends_block reference span tail later))
  rw [List.append_nil] at hitems
  have hblock : mustacheWith (items settings) true (if inverted then .inverted else .opening)
      reference span'.line = (do
        let content ← items settings (.block reference) true
        return some (.block reference inverted content)) := by
    cases inverted <;> rfl
  have hnext : nextItem settings true
      ⟨⟨.mustache (if inverted then .inverted else .opening) reference, span'⟩ ::
        (tokens ++ ⟨.mustache .closing reference, span⟩ :: tail), index⟩ = (do
        let content ← items settings (.block reference) true
        return some (.block reference inverted content) : Building (Option Item))
        ⟨tokens ++ ⟨.mustache .closing reference, span⟩ :: tail, index⟩ := by
    rw [nextItem_eq, nextItemWith_mustache, hblock]
  refine Succeeds.of_eq ?_ hnext
  exact hitems.bind (succeeds_pure _ _)

/-- An element is built of what stands up to its closing tag. That has the name of the opening tag,
so it closes this element and no other. -/
theorem succeeds_nextItem_element (tag closing : Tag) (hbare : tag.attributes = [])
    (hopening : tag.closing = false) (halone : tag.isAlone = false)
    (hclosing : closing.closing = true) (hname : closing.name = tag.name)
    {tokens tail : List Token} {built : List Item} {index later : Nat} {span : Span}
    (h : Resumes settings tag.container
      ⟨tokens ++ ⟨.tag closing, span⟩ :: tail, index + 1⟩ built
      ⟨⟨.tag closing, span⟩ :: tail, later⟩) (span' : Span) :
    Succeeds Event.Ordinary (nextItem settings true)
      ⟨⟨.tag tag, span'⟩ :: (tokens ++ ⟨.tag closing, span⟩ :: tail), index⟩
      (some (.element (tag.element (⟨settings.run, index⟩, bareKind tag.name) (some built))))
      ⟨tail, later⟩ := by
  have hlower : Text.lower closing.name = Text.lower tag.name := by rw [hname]
  have hitems := h [] ⟨tail, later⟩
    (succeeds_items_of_ends settings (succeeds_ends_element hclosing hlower _ span tail later))
  rw [List.append_nil] at hitems
  refine Succeeds.of_eq ?_ (nextItem_openingTag hopening true span' _ index)
  rw [elementWith_eq]
  refine Succeeds.map (fun e => some (Item.element e)) (succeeds_header hbare _ _ _ _ ?_)
  rw [if_neg (by rw [halone]; decide)]
  exact (succeeds_note trivial _).bind (hitems.bind (succeeds_pure _ _))

/-- An element that stands alone is built of its tag and nothing else, so what follows is left as it
is. -/
theorem succeeds_nextItem_alone (tag : Tag) (hbare : tag.attributes = [])
    (hopening : tag.closing = false) (halone : tag.isAlone = true) (span : Span)
    (tail : List Token) (index : Nat) :
    Succeeds Event.Ordinary (nextItem settings true) ⟨⟨.tag tag, span⟩ :: tail, index⟩
      (some (.element (tag.element (⟨settings.run, index⟩, bareKind tag.name) none)))
      ⟨tail, index + 1⟩ := by
  refine Succeeds.of_eq ?_ (nextItem_openingTag hopening true span _ index)
  rw [elementWith_eq]
  refine Succeeds.map (fun e => some (Item.element e)) (succeeds_header hbare _ _ _ _ ?_)
  rw [if_pos halone]
  exact (succeeds_note trivial _).bind (succeeds_pure _ _)

mutual

/-- An item other than a text that is written out is built as it was, with the identities of the new
run. The induction with lists of items is on how it was made of its part. -/
theorem succeeds_nextItem {n : Nested} {item : Item} {index later : Nat}
    (h : n.Makes settings true index item later) (hne : ∀ content, n ≠ .text content)
    (hfits : n.Fitting) (hcomplete : n.Complete) (hbare : ∀ o ∈ n.openings, o.1.attributes = [])
    {written : List Token} (hwritten : written.map Token.lexeme = item.writtenOut)
    (tail : List Token) : Succeeds Event.Ordinary (nextItem settings' true)
      ⟨written ++ tail, index⟩ (some (item.rebuilt settings'.run)) ⟨tail, later⟩ := by
  match h with
  | .text .. => exact absurd rfl (hne _)
  | .mustache _ _ escaped reference =>
    obtain ⟨⟨lexeme, span⟩, rfl, rfl⟩ := List.map_eq_singleton_iff.mp hwritten
    rw [nextItem_eq]
    cases escaped <;> exact succeeds_of_eq rfl
  | .block reference inverted hcontent =>
    obtain ⟨⟨lexeme, span⟩, more, rfl, rfl, hmore⟩ := List.map_eq_cons_iff.mp hwritten
    obtain ⟨inner, last, rfl, hinner, hlast⟩ := List.map_eq_append_iff.mp hmore
    obtain ⟨⟨lexeme', span'⟩, rfl, rfl⟩ := List.map_eq_singleton_iff.mp hlast
    have hinside := resumes_written hcontent hfits hcomplete hbare (.block reference)
      (fun _ _ => trivial) hinner (⟨.mustache .closing reference, span'⟩ :: tail)
      (fun t ht => by cases ht; rfl)
    rw [Item.rebuilt, List.cons_append, List.append_assoc]
    exact succeeds_nextItem_block hinside.1 span
  | .inclusion _ _ name =>
    obtain ⟨⟨lexeme, span⟩, rfl, rfl⟩ := List.map_eq_singleton_iff.mp hwritten
    rw [nextItem_eq]
    exact succeeds_of_eq rfl
  | .comment _ _ content =>
    obtain ⟨⟨lexeme, span⟩, rfl, rfl⟩ := List.map_eq_singleton_iff.mp hwritten
    rw [nextItem_eq]
    exact succeeds_of_eq rfl
  | @Nested.Makes.alone _ _ _ tag place _ hheader =>
    let opening : Tag := ⟨tag.name, [], false, tag.selfClosing, tag.doctype⟩
    have hattributes := hbare (tag, place) List.mem_cons_self
    rw [elementHeader_bare settings hattributes] at hheader ⊢
    cases hheader
    obtain ⟨⟨lexeme, span⟩, rfl, rfl⟩ := List.map_eq_singleton_iff.mp hwritten
    exact succeeds_nextItem_alone opening rfl rfl hcomplete span tail index
  | @Nested.Makes.element _ _ _ _ tag place _ _ _ hheader hcontent =>
    let opening : Tag := ⟨tag.name, [], false, tag.selfClosing, tag.doctype⟩
    let closing : Tag := ⟨tag.name, [], true, false, false⟩
    have hattributes := hbare (tag, place) List.mem_cons_self
    obtain ⟨⟨lexeme, span⟩, more, rfl, rfl, hmore⟩ := List.map_eq_cons_iff.mp hwritten
    obtain ⟨inner, last, rfl, hinner, hlast⟩ := List.map_eq_append_iff.mp hmore
    obtain ⟨⟨lexeme', span'⟩, rfl, rfl⟩ := List.map_eq_singleton_iff.mp hlast
    have hinside := resumes_written hcontent hfits.2 hcomplete.2
      (fun o ho => hbare o (List.mem_cons_of_mem _ ho)) tag.container
      (fun n hn => Tag.admits_container (hfits.1 n hn)) hinner (⟨.tag closing, span'⟩ :: tail)
      (fun t ht => by cases ht; rfl)
    rw [elementHeader_bare settings hattributes] at hheader hinside
    cases hheader
    rw [List.cons_append, List.append_assoc]
    exact succeeds_nextItem_element opening closing rfl rfl hcomplete.1 rfl rfl hinside.1 span

/-- Items that are written out are built as they were, with neighbouring texts put together. A
text before them is one text with their first, which is why it is asked for here with what is
behind it. -/
theorem resumes_written {parts : List Nested} {items : List Item} {index later : Nat}
    (h : MakesAll settings true index parts items later) (hfits : partsFitting parts)
    (hcomplete : partsComplete parts) (hbare : ∀ o ∈ partsOpenings parts, o.1.attributes = [])
    (container : Container) (hadmits : ∀ n ∈ parts, container.Admits n)
    {written : List Token} (hwritten : written.map Token.lexeme = itemsWrittenOut items)
    (tail : List Token) (htail : ∀ t ∈ tail.head?, t.text? = none) :
    Resumes settings' container ⟨written ++ tail, index⟩
      (joinItems (itemsRebuilt settings'.run items)) ⟨tail, later⟩ ∧
    leadingText (written ++ tail) = firstText (joinItems (itemsRebuilt settings'.run items)) ∧
    Resumes settings' container ⟨afterText (written ++ tail), index⟩
      (behindText (joinItems (itemsRebuilt settings'.run items))) ⟨tail, later⟩ := by
  match h with
  | .nil .. =>
    obtain rfl := List.map_eq_nil_iff.mp hwritten
    obtain ⟨hleading, hafter⟩ := leadingText_of_head htail
    rw [List.nil_append, hafter]
    exact ⟨resumes_self _, hleading, resumes_self _⟩
  | @MakesAll.cons _ _ _ _ _ n _ item items hitem hitems =>
    obtain ⟨first, more, rfl, hfirst, hmore⟩ := List.map_eq_append_iff.mp hwritten
    obtain ⟨hallows, hadmits⟩ := List.forall_mem_cons.mp hadmits
    have hlater := resumes_written hitems hfits.2 hcomplete.2
      (fun o ho => hbare o (List.mem_append_right _ ho)) container hadmits hmore tail htail
    rw [itemsRebuilt, List.append_assoc]
    by_cases htext : ∃ content, n = .text content
    · obtain ⟨content, rfl⟩ := htext
      cases hitem
      obtain ⟨⟨lexeme, span⟩, rfl, rfl⟩ := List.map_eq_singleton_iff.mp hfirst
      obtain ⟨-, hleading, hafter⟩ := hlater
      rw [Item.rebuilt, if_pos rfl, joinItems_text, ← hleading]
      exact ⟨(resumes_text content span (more ++ tail) _).trans hafter, rfl, hafter⟩
    · have hne : ∀ content, n ≠ .text content := fun content hn => htext ⟨content, hn⟩
      have hnext := succeeds_nextItem hitem hne hfits.1 hcomplete.1
        (fun o ho => hbare o (List.mem_append_left _ ho)) hfirst (more ++ tail)
      obtain ⟨hitemne, lexeme, others, hhead, hlexeme, hgoes⟩ := exists_head hitem hne
      rw [hhead] at hfirst
      obtain ⟨t, first, rfl, rfl, -⟩ := List.map_eq_cons_iff.mp hfirst
      have hresumes := (resumes_of_nextItem (hgoes container hallows) hnext).trans hlater.1
      have htext : t.text? = none := by
        unfold Token.text?
        split
        · rename_i content hcontent
          exact absurd hcontent (hlexeme content)
        · rfl
      obtain ⟨hleading, hafter⟩ := @leadingText_of_head (t :: first ++ (more ++ tail))
        fun u hu => by cases hu; exact htext
      have hrebuilt := hitemne settings'.run
      obtain ⟨hempty, hbehind⟩ := split_of_ne hrebuilt
        (joinItems (itemsRebuilt settings'.run items))
      rw [joinItems_of_ne hrebuilt, hleading, hafter, hempty, hbehind]
      exact ⟨hresumes, rfl, hresumes⟩

end

end

namespace Template

/-- The openings among tokens without attributes have none either. -/
theorem attributes_of_openings {tokens : List Token}
    (hbare : ∀ t ∈ tokens, ∀ tag, t.lexeme = .tag tag → tag.attributes = []) :
    ∀ o ∈ partsOpenings (Nesting.ofTokens tokens), o.1.attributes = [] := by
  rintro ⟨tag, span⟩ ho
  rw [Nesting.openings_ofTokens] at ho
  obtain ⟨t, ht, htag⟩ := List.mem_filterMap.mp ho
  obtain ⟨rfl, -⟩ := Token.opening?_eq_some_iff.mp htag
  exact hbare _ ht tag rfl

/-- Tags without attributes are never refused, so a template of such tags is always built. -/
theorem exists_ofTokens_of_bare (settings : Settings) {tokens : List Token}
    (hbare : ∀ t ∈ tokens, ∀ tag, t.lexeme = .tag tag → tag.attributes = []) :
    ∃ items, (ofTokens settings tokens).result = .ok items := by
  have hreadable : ∀ t ∈ tokens, t.lexeme.Readable := by
    rintro ⟨lexeme, span⟩ ht
    cases lexeme with
    | tag tag =>
      have hattributes := hbare _ ht tag rfl
      intro a ha
      rw [hattributes] at ha
      cases ha
    | _ => trivial
  have hfaultless : tokens.findSome? Token.error? = none := by
    refine List.findSome?_eq_none_iff.mpr fun t ht => ?_
    rw [Token.error?, Option.bind_eq_none_iff]
    rintro ⟨tag, span⟩ htag
    obtain ⟨rfl, -⟩ := Token.opening?_eq_some_iff.mp htag
    have hnone : attributesFault? [] = none := rfl
    rw [openingError?, Tag.fault?, hbare _ ht tag rfl, hnone]
    split <;> rfl
  have herror := error?_ofTokens settings hreadable
  rw [hfaultless] at herror
  cases hresult : (ofTokens settings tokens).result with
  | error e =>
    rw [hresult] at herror
    cases herror
  | ok items => exact ⟨items, rfl⟩

/-- Whatever is left unsaid in a template without attributes, its tree says it: if blanks are kept,
then the tree can be built, and tokens that write it out build it again, with the same numbers for
the elements and with neighbouring texts put together. On the way only elements are built, opened,
and closed by their own closing tags. -/
theorem ofTokens_writtenOut {settings settings' : Settings}
    (hkeep : settings.options.preserveWhitespace = true)
    (hkeep' : settings'.options.preserveWhitespace = true) {tokens : List Token}
    (hbare : ∀ t ∈ tokens, ∀ tag, t.lexeme = .tag tag → tag.attributes = []) :
    ∃ items, (ofTokens settings tokens).result = .ok items ∧
      ∀ written : List Token, written.map Token.lexeme = itemsWrittenOut items →
        (ofTokens settings' written).result =
          .ok (joinItems (itemsRebuilt settings'.run items)) ∧
        (ofTokens settings' written).state.tokens = [] ∧
        ∀ event ∈ (ofTokens settings' written).log, event.Ordinary := by
  obtain ⟨items, hitems⟩ := exists_ofTokens_of_bare settings hbare
  obtain ⟨built, hbuilt, hkept, -⟩ := exists_buildAll_of_ofTokens hitems
  rw [hkeep, if_pos rfl] at hkept
  rw [hkeep] at hbuilt
  subst hkept
  refine ⟨built, hitems, fun written hwritten => ?_⟩
  have hmakes := makesAll_of_buildAll _ hbuilt
  generalize (buildAll settings true (Nesting.ofTokens tokens) 0).state = later at hmakes
  obtain ⟨hresumes, -⟩ := @resumes_written settings settings' _ _ _ _ hmakes
    (Nesting.fitting_ofTokens tokens) (Nesting.complete_ofTokens tokens)
    (attributes_of_openings hbare) .whole (fun _ _ => trivial) written hwritten [] nofun
  have hend := hresumes [] ⟨[], later⟩ (succeeds_of_eq rfl)
  rw [List.append_nil, List.append_nil] at hend
  have htemplate : Succeeds Event.Ordinary (template settings') ⟨written, 0⟩
      (joinItems (itemsRebuilt settings'.run built)) ⟨[], later⟩ := by
    unfold template
    rw [hkeep']
    exact hend.bind (succeeds_pure _ _)
  exact ⟨htemplate.result, by rw [ofTokens, htemplate.state], htemplate.log⟩

/-- A paragraph that a second one ends, and in that a section, in which a closing tag ends an item
of a list. A remark parts the text of the first paragraph. -/
def unclosed : List Token :=
  [⟨.tag ⟨"p", [], false, false, false⟩, default⟩, ⟨.text "a", default⟩,
    ⟨.mustache .remark "r", default⟩, ⟨.text "b", default⟩,
    ⟨.tag ⟨"P", [], false, false, false⟩, default⟩, ⟨.mustache .opening "s", default⟩,
    ⟨.tag ⟨"li", [], false, false, false⟩, default⟩, ⟨.text "c", default⟩,
    ⟨.tag ⟨"p", [], true, false, false⟩, default⟩]

/-- What is left unsaid in the template above is said by the tokens, and the tree is the same with
its two texts put together. -/
theorem ofTokens_writtenOut_unclosed :
    let element (run index : Nat) (name : String) (children : List Item) : Item :=
      .element (Tag.element ⟨name, [], false, false, false⟩ (⟨run, index⟩, bareKind name)
        (some children))
    let tree (run : Nat) (texts : List Item) : List Item := [element run 0 "p" texts,
      element run 1 "P" [.block "s" false [element run 2 "li" [.text "c"]]]]
    let written : List Token := [.tag ⟨"p", [], false, false, false⟩, .text "a", .text "b",
      .tag ⟨"p", [], true, false, false⟩, .tag ⟨"P", [], false, false, false⟩,
      .mustache .opening "s", .tag ⟨"li", [], false, false, false⟩, .text "c",
      .tag ⟨"li", [], true, false, false⟩, .mustache .closing "s",
      .tag ⟨"P", [], true, false, false⟩].map (⟨·, default⟩)
    (ofTokens ⟨⟨true, false⟩, 0⟩ unclosed).result = .ok (tree 0 [.text "a", .text "b"]) ∧
      (ofTokens ⟨⟨true, true⟩, 1⟩ written).result = .ok (tree 1 [.text "ab"]) := by
  intro element tree written
  have hbare : ∀ t ∈ unclosed, ∀ tag, t.lexeme = .tag tag → tag.attributes = [] := by
    intro t ht tag htag
    simp only [unclosed, List.mem_cons, List.not_mem_nil, or_false] at ht
    rcases ht with rfl | rfl | rfl | rfl | rfl | rfl | rfl | rfl | rfl <;> cases htag <;> rfl
  have htree :
      (ofTokens ⟨⟨true, false⟩, 0⟩ unclosed).result = .ok (tree 0 [.text "a", .text "b"]) :=
    rfl
  obtain ⟨items, hitems, hwritten⟩ :=
    @ofTokens_writtenOut ⟨⟨true, false⟩, 0⟩ ⟨⟨true, true⟩, 1⟩ rfl rfl unclosed hbare
  rw [htree] at hitems
  cases hitems
  exact ⟨htree, (hwritten written rfl).1⟩

end Template

end MustacheMarkup
