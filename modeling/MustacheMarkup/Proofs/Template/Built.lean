import MustacheMarkup.Proofs.Item.Inside
import MustacheMarkup.Proofs.Template.EveryElement

/-!
# The lists of items that are built

A parser builds lists of items in many places: a template, a fragment, one item after another, and
the lists that stand in those. `Built` names them all, for any tokens. The elements of each are some
of those that one run of a parser put together, in order (`Built.exists_sublist`). So they have
identities of their own, and each is put together of an opening tag. All mustaches that stand in any
of these lists stand for values that are inserted (`Built.inserts`).
-/

set_option autoImplicit false

namespace MustacheMarkup.Building

open Journal

/-- The items in all that calls in turn build. A failure has none. -/
def Call.answersItems : List (Except ParseError (List Item)) → List Item
  | [] => []
  | .error _ :: rest => answersItems rest
  | .ok items :: rest => items ++ answersItems rest

/-- The elements of all that calls build are those of what each one builds. -/
theorem Call.elements_answersItems (answers : List (Except ParseError (List Item))) :
    itemsElements (answersItems answers) = answersElements answers := by
  induction answers with
  | nil => rfl
  | cons answer rest ih =>
    cases answer with
    | error e => exact ih
    | ok items =>
      rw [answersItems, answersElements, ← ih, itemsElements_eq, List.flatMap_append,
        ← itemsElements_eq, ← itemsElements_eq]

/-- Whatever a parser is asked for, all mustaches in the items stand for values that
are inserted. -/
theorem inserts_perform (settings : Settings) (call : Call) :
    Ensures (call.perform settings) fun items => ∀ item ∈ items, item.Inserts := by
  cases call with
  | nextItem keepBlanks =>
    have hitem : Ensures (Building.nextItem settings keepBlanks) fun item =>
        ∀ i ∈ item.toList, i.Inserts :=
      fun c => (inserting_collect settings _).nextItem keepBlanks c
    exact hitem.map fun item hitem => hitem
  | template =>
    exact (inserting_items settings .whole _).bind fun built hbuilt =>
      ensures_pure (inserts_keptOrTrimmed hbuilt _)
  | fragment tokens =>
    exact fun c => (turns_fragment (inserting_items settings .whole true)).ensures tokens trivial
      c.nextIndex
  | advance =>
    exact Ensures.map (P := fun _ => True) (fun _ _ _ => trivial) fun _ _ => List.forall_mem_nil _

/-- The same goes for all that calls in turn build. -/
theorem inserts_answers (settings : Settings) (calls : List Call) (c : Cursor) :
    ∀ item ∈ Call.answersItems (Call.answers settings calls c), item.Inserts := by
  induction calls generalizing c with
  | nil => exact List.forall_mem_nil _
  | cons call rest ih =>
    have hrest := ih (call.perform settings c).state
    rw [Call.answers]
    cases hresult : (call.perform settings c).result with
    | error e => exact hrest
    | ok items =>
      exact List.forall_mem_append.mpr ⟨inserts_perform settings call c items hresult, hrest⟩

/-- A list of items that a parser builds: all that comes of calls in turn, from any tokens, and what
stands in a section, in an element, in an attribute or in a directive of such a list. -/
inductive Built (settings : Settings) : List Item → Prop where
  | answers (calls : List Call) (c : Cursor) :
      Built settings (Call.answersItems (Call.answers settings calls c))
  | block {items inner : List Item} {reference : String} {inverted : Bool}
      (h : Built settings items) (hinner : .block reference inverted inner ∈ items) :
      Built settings inner
  | content {items inner : List Item} {e : Element} (h : Built settings items)
      (he : .element e ∈ items) (hinner : e.children = some inner) : Built settings inner
  | value {items inner : List Item} {e : Element} {a : Attribute} (h : Built settings items)
      (he : .element e ∈ items) (ha : a ∈ e.attributes) (hinner : a.value = some inner) :
      Built settings inner
  | name {items inner : List Item} {e : Element} {d : Directive} (h : Built settings items)
      (he : .element e ∈ items) (hd : d ∈ e.directives) (hinner : d.name = .dynamic inner) :
      Built settings inner
  | arguments {items inner : List Item} {e : Element} {d : Directive} (h : Built settings items)
      (he : .element e ∈ items) (hd : d ∈ e.directives)
      (hinner : d.dynamicArguments = some inner) : Built settings inner

variable {settings : Settings} {items : List Item}

/-- A template is a list that is built, whatever tokens it is built from. -/
theorem built_of_ofTokens {tokens : List Token}
    (h : (Template.ofTokens settings tokens).result = .ok items) : Built settings items := by
  have hbuilt : Built settings _ := .answers [.template] ⟨tokens, 0⟩
  have hresult : (Call.template.perform settings ⟨tokens, 0⟩).result = .ok items := h
  rw [Call.answers, hresult, Call.answersItems, Call.answers, Call.answersItems,
    List.append_nil] at hbuilt
  exact hbuilt

namespace Built

/-- The elements of a list that is built are some of those that one run of a parser put together, in
the same order. So what a run says of identities holds in the list too. -/
theorem exists_sublist (h : Built settings items) :
    ∃ calls c, (itemsElements items).Sublist
      (Call.answersElements (Call.answers settings calls c)) := by
  induction h with
  | answers calls c =>
    rw [Call.elements_answersItems]
    exact ⟨calls, c, .refl _⟩
  | block h hinner ih =>
    obtain ⟨calls, c, hitems⟩ := ih
    exact ⟨calls, c, (sublist_of_mem_items hinner).trans hitems⟩
  | @content items inner e h he hinner ih =>
    obtain ⟨calls, c, hitems⟩ := ih
    have hcontent := e.sublist_content
    rw [hinner] at hcontent
    exact ⟨calls, c, (sublist_of_inside he hcontent).trans hitems⟩
  | @value items inner e a h he ha hinner ih =>
    obtain ⟨calls, c, hitems⟩ := ih
    have hvalue := (Element.sublist_of_mem_attributes ha).trans e.sublist_kind
    rw [hinner] at hvalue
    exact ⟨calls, c, (sublist_of_inside he hvalue).trans hitems⟩
  | @name items inner e d h he hd hinner ih =>
    obtain ⟨calls, c, hitems⟩ := ih
    have hdirective := (Element.sublist_of_mem_directives hd).trans e.sublist_kind
    rw [Directive.elements_eq, hinner] at hdirective
    have hname := (List.sublist_append_left _ _).trans hdirective
    exact ⟨calls, c, (sublist_of_inside he hname).trans hitems⟩
  | @arguments items inner e d h he hd hinner ih =>
    obtain ⟨calls, c, hitems⟩ := ih
    have hdirective := (Element.sublist_of_mem_directives hd).trans e.sublist_kind
    rw [Directive.elements_eq, hinner] at hdirective
    have harguments := (List.sublist_append_right _ _).trans hdirective
    exact ⟨calls, c, (sublist_of_inside he harguments).trans hitems⟩

/-- No two elements of a list that is built have the same identity. -/
theorem nodup_ids (h : Built settings items) : (idsOf (itemsElements items)).Nodup := by
  obtain ⟨calls, c, hsublist⟩ := h.exists_sublist
  obtain ⟨later, -, hids⟩ := Call.sublist_idsBetween_answers settings calls c
  exact ((hsublist.map Element.id).trans hids).nodup (nodup_idsBetween _ _ _)

/-- Each element of a list that is built is put together as all elements are. -/
theorem isBuilt (h : Built settings items) :
    ∀ e ∈ itemsElements items, e.IsBuilt settings.options := by
  obtain ⟨calls, c, hsublist⟩ := h.exists_sublist
  exact fun e he => every_answers settings calls c e (hsublist.subset he)

/-- An element that stands directly in a list that is built. -/
theorem isBuilt_of_mem (h : Built settings items) {e : Element} (he : .element e ∈ items) :
    e.IsBuilt settings.options :=
  h.isBuilt e ((sublist_of_mem_items he).subset e.mem_elements_self)

/-- All mustaches in a list that is built stand for values that are inserted: those in content and
in sections were looked at with the list that they stand in, those in fragments with the opening
tag. -/
theorem inserts (h : Built settings items) : ∀ item ∈ items, item.Inserts := by
  induction h with
  | answers calls c => exact inserts_answers settings calls c
  | block _ hinner ih => exact Item.inserts_block_iff.mp (ih _ hinner)
  | @content items inner e _ he hinner ih =>
    have hcontent := Item.inserts_element_iff.mp (ih _ he)
    rw [Element.content, hinner] at hcontent
    exact hcontent
  | @value items inner e a h he ha hinner _ =>
    refine (h.isBuilt_of_mem he).inserts inner (List.mem_append_left _ ?_)
    exact List.mem_filterMap.mpr ⟨a, ha, hinner⟩
  | @name items inner e d h he hd hinner _ =>
    refine (h.isBuilt_of_mem he).inserts inner (List.mem_append_right _ ?_)
    refine List.mem_flatMap.mpr ⟨d, hd, List.mem_append_left _ ?_⟩
    rw [hinner]
    exact List.mem_singleton_self inner
  | @arguments items inner e d h he hd hinner _ =>
    refine (h.isBuilt_of_mem he).inserts inner (List.mem_append_right _ ?_)
    refine List.mem_flatMap.mpr ⟨d, hd, List.mem_append_right _ ?_⟩
    rw [hinner]
    exact List.mem_singleton_self inner

end Built

/-- An item that stands directly in some list that is built. -/
def IsPart (settings : Settings) (item : Item) : Prop :=
  ∃ items, Built settings items ∧ item ∈ items

namespace IsPart

variable {e : Element}

/-- A mustache that is built stands for a value that is inserted. -/
theorem inserts {kind : MustacheKind} {reference : String}
    (h : IsPart settings (.mustache kind reference)) : kind.Inserts := by
  obtain ⟨items, hbuilt, hmem⟩ := h
  exact Item.inserts_mustache_iff.mp (hbuilt.inserts _ hmem)

/-- The items of a section are built as the section is. -/
theorem block {reference : String} {inverted : Bool} {inner : List Item}
    (h : IsPart settings (.block reference inverted inner)) :
    ∀ item ∈ inner, IsPart settings item := by
  obtain ⟨items, hbuilt, hmem⟩ := h
  exact fun item hitem => ⟨inner, hbuilt.block hmem, hitem⟩

/-- The content of an element is built as the element is. -/
theorem content (h : IsPart settings (.element e)) :
    ∀ inner ∈ e.children, ∀ item ∈ inner, IsPart settings item := by
  obtain ⟨items, hbuilt, hmem⟩ := h
  exact fun inner hinner item hitem => ⟨inner, hbuilt.content hmem hinner, hitem⟩

/-- The values of the attributes of an element are built as the element is. -/
theorem value (h : IsPart settings (.element e)) :
    ∀ a ∈ e.attributes, ∀ inner ∈ a.value, ∀ item ∈ inner, IsPart settings item := by
  obtain ⟨items, hbuilt, hmem⟩ := h
  exact fun a ha inner hinner item hitem => ⟨inner, hbuilt.value hmem ha hinner, hitem⟩

end IsPart

end MustacheMarkup.Building
