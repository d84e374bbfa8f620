import Mathlib.Data.List.Forall2
import MustacheMarkup.Proofs.Item.BlankEnds
import MustacheMarkup.Proofs.Template.Blanks
import MustacheMarkup.Proofs.Template.Elements

/-!
# Blanks at the ends of the lists of a template

Where blanks are not kept, the list of a template and the content of every element outside verbatim
ones is trimmed once, when it is complete (`itemsContents_itemsTidied`). That leaves a blank at an
end of such a list if and only if the blanks that were trimmed there hid one, in a text that stands
beside another (`boundary_blank_iff`).
-/

set_option autoImplicit false

namespace MustacheMarkup

open Journal

/-! ## The lists of a tree -/

mutual

/-- The content of the elements in an item, outside verbatim elements. -/
def Item.contents : Item → List (List Item)
  | .text _ => []
  | .mustache _ _ => []
  | .block _ _ items => itemsContents items
  | .inclusion _ => []
  | .comment _ => []
  | .element e => e.contents

/-- The content of an element and of those in it. A verbatim element has none that counts. -/
def Element.contents : Element → List (List Item)
  | ⟨_, _, _, _, _, _, _, _, none⟩ => []
  | ⟨_, _, lowerName, _, _, _, _, _, some children⟩ =>
    if lowerName == Vocabulary.verbatimElement then [] else children :: itemsContents children

/-- The content of the elements in items, outside verbatim elements. The items of a section stand in
no list of their own. -/
def itemsContents : List Item → List (List Item)
  | [] => []
  | item :: rest => item.contents ++ itemsContents rest

end

/-- The contents in a list are those in each item, in order. -/
theorem itemsContents_eq (items : List Item) :
    itemsContents items = items.flatMap Item.contents := by
  induction items with
  | nil => rfl
  | cons item rest ih => rw [itemsContents, ih, List.flatMap_cons]

/-- To trim a list takes no element away. -/
theorem itemsContents_trimBoundary (items : List Item) :
    itemsContents (trimBoundary items) = itemsContents items := by
  rw [itemsContents_eq, itemsContents_eq]
  exact flatMap_trimBoundary (fun _ => rfl) items

/-- A list with its items tidied and its ends trimmed. -/
def tidyContent (items : List Item) : List Item :=
  trimBoundary (itemsTidied items)

mutual

/-- When an item is tidied, so is the content of each element in it outside verbatim ones, and it is
trimmed. The induction is over content. -/
theorem contents_tidied : ∀ item : Item, item.tidied.contents = item.contents.map tidyContent
  | .text _ => rfl
  | .mustache _ _ => rfl
  | .block _ _ items => itemsContents_itemsTidied items
  | .inclusion _ => rfl
  | .comment _ => rfl
  | .element e => contents_element_tidied e

/-- The same for an element, whose own content comes first. -/
theorem contents_element_tidied : ∀ e : Element, e.tidied.contents = e.contents.map tidyContent
  | ⟨_, _, _, _, _, _, _, _, none⟩ => rfl
  | ⟨_, _, lowerName, _, _, _, _, _, some children⟩ => by
    rw [Element.tidied, Element.contents, Element.contents]
    cases hverbatim : lowerName == Vocabulary.verbatimElement with
    | true => rfl
    | false =>
      simp only [Bool.false_eq_true, if_false, List.map_cons]
      rw [itemsContents_trimBoundary, itemsContents_itemsTidied children, tidyContent]

/-- When items are tidied, the content of each element outside verbatim ones is tidied and trimmed,
and no other content is there. -/
theorem itemsContents_itemsTidied : ∀ items : List Item,
    itemsContents (itemsTidied items) = (itemsContents items).map tidyContent
  | [] => rfl
  | item :: rest => by
    rw [itemsTidied, itemsContents, itemsContents, contents_tidied item,
      itemsContents_itemsTidied rest, List.map_append]

end

/-! ## Templates -/

/-- A list is another one tidied. It starts or ends with a blank if and only if one was
hidden there. -/
structure TidiedTo (items tidied : List Item) : Prop where
  tidied_eq : tidied = tidyContent items
  start_iff : StartsBlank tidied ↔ HidesBlankStart items
  end_iff : EndsBlank tidied ↔ HidesBlankEnd items

/-- A list is tidied to what it becomes. Where it hides a blank, one is left. -/
theorem tidiedTo_tidyContent (items : List Item) : TidiedTo items (tidyContent items) where
  tidied_eq := rfl
  start_iff := by
    rw [tidyContent, startsBlank_trimBoundary_iff, hidesBlankStart_itemsTidied]
  end_iff := by
    rw [tidyContent, endsBlank_trimBoundary_iff, hidesBlankEnd_itemsTidied]

namespace Template

/-- A template that is built without its blanks is also built with them, and is that one tidied. -/
theorem exists_parse_kept {sanitize : Bool} {source : String} {items : List Item}
    (h : parse ⟨false, sanitize⟩ source = .ok items) :
    ∃ kept, parse ⟨true, sanitize⟩ source = .ok kept ∧ items = tidyContent kept := by
  obtain ⟨tokens, built, htokens, hbuilt, hitems⟩ := parse_eq_ok_iff.mp h
  have hheader := elementHeader_eq_elementHeader false true sanitize 0
  rw [buildAll_tidied hheader] at hbuilt
  obtain ⟨kept, hkept, rfl⟩ := Journal.result_map_eq_ok hbuilt
  exact ⟨kept, parse_eq_ok_iff.mpr ⟨tokens, kept, htokens, hkept, rfl⟩, hitems.symm⟩

/-- Every list of a template that is trimmed, its own and the content of its elements outside
verbatim ones, is the list with its blanks tidied, and it starts or ends with a blank if and only if
one was hidden there: behind blanks that are dropped, in a second text. -/
theorem boundary_blank_iff (sanitize : Bool) (source : String) (items : List Item)
    (h : parse ⟨false, sanitize⟩ source = .ok items) :
    ∃ kept, parse ⟨true, sanitize⟩ source = .ok kept ∧
      List.Forall₂ TidiedTo (kept :: itemsContents kept) (items :: itemsContents items) := by
  obtain ⟨kept, hkept, rfl⟩ := exists_parse_kept h
  refine ⟨kept, hkept, .cons (tidiedTo_tidyContent kept) ?_⟩
  rw [tidyContent, itemsContents_trimBoundary, itemsContents_itemsTidied,
    List.forall₂_map_right_iff, List.forall₂_same]
  exact fun content _ => tidiedTo_tidyContent content

/-- In an element, a remark parts a text of blanks only from one that starts with a blank. -/
def partedBlanks : String :=
  "<p> \x7b\x7b!r\x7d\x7d x</p>"

/-- The first of the two texts is dropped, and the blank of the second is left at the start of the
content. -/
theorem boundary_blank_iff_of_remark :
    ∃ items kept, parse ⟨false, false⟩ partedBlanks = .ok items ∧
      parse ⟨true, false⟩ partedBlanks = .ok kept ∧
      List.Forall₂ TidiedTo (kept :: itemsContents kept) (items :: itemsContents items) ∧
      (∃ content ∈ itemsContents kept, HidesBlankStart content) ∧
      ∃ content ∈ itemsContents items, StartsBlank content := by
  obtain ⟨items, hitems⟩ : ∃ items, parse ⟨false, false⟩ partedBlanks = .ok items :=
    exists_of_isOk (by decide +kernel)
  obtain ⟨kept, hkept, htidied⟩ := boundary_blank_iff false _ items hitems
  have hfound : (parse ⟨true, false⟩ partedBlanks).toOption.any (fun kept =>
      (itemsContents kept).any fun content => decide (HidesBlankStart content)) = true := by
    decide +kernel
  rw [hkept] at hfound
  obtain ⟨content, hmem, hhides⟩ := List.any_eq_true.mp hfound
  have hhides' := of_decide_eq_true hhides
  obtain ⟨content', hmem', hcontent⟩ :=
    exists_mem_of_forall₂ (List.forall₂_cons.mp htidied).2.flip hmem
  exact ⟨items, kept, hitems, hkept, htidied, ⟨content, hmem, hhides'⟩, content', hmem',
    hcontent.start_iff.mpr hhides'⟩

/-- Blanks that are dropped at the start of a template uncover those behind a closing tag that
closes nothing. -/
theorem blank_left_at_start :
    parse ⟨false, false⟩ " </b> x" = .ok [.text " x"] ∧ StartsBlank [.text " x"] := by
  refine ⟨?_, " x", [], rfl, by decide +kernel⟩
  with_unfolding_all rfl

end Template

end MustacheMarkup
