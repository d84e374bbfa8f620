import MustacheMarkup.Proofs.Attribute.Directive
import MustacheMarkup.Proofs.Template.EveryElement

/-!
# No text is empty

If no token is an empty text, no text of a template is empty: texts are put together, a run of
blanks leaves one blank, and of the texts at the ends those that trimming leaves nothing of are
dropped (`Template.filled_of_ofTokens`). The same goes for the fragments in opening tags, whose
tokens are those of values, cut at a colon or not (`turns_fragmentItems`).
-/

set_option autoImplicit false

namespace MustacheMarkup

open Building Journal

/-- To collapse blanks empties no text. -/
theorem Text.collapse_ne_empty {s : String} (h : s ≠ "") : collapse s ≠ "" := by
  obtain ⟨c, rest, hs⟩ := List.exists_cons_of_ne_nil fun hnil =>
    h (String.toList_eq_nil_iff.mp hnil)
  intro hempty
  rw [← String.toList_eq_nil_iff, collapse, String.toList_ofList, hs, squeezeBlanks] at hempty
  split at hempty <;> cases hempty

/-! ## Items -/

/-- No text in an item is empty, however deep it stands in content. -/
def Item.Filled (item : Item) : Prop :=
  Mark.text "" ∉ item.shape.marks

/-- No text among the marks is empty exactly if no text in the items is. -/
theorem not_mem_itemsMarks_iff {items : List Item} :
    Mark.text "" ∉ itemsMarks items ↔ ∀ item ∈ items, item.Filled := by
  induction items with
  | nil => simp [itemsMarks, itemShapes, shapesMarks]
  | cons item rest ih =>
    rw [itemsMarks_cons, List.mem_append, not_or, ih, List.forall_mem_cons]
    rfl

/-- A text is filled if it is not empty. -/
theorem Item.filled_text_iff {content : String} : (Item.text content).Filled ↔ content ≠ "" := by
  simp [Item.Filled, Item.shape, Shape.marks, eq_comm]

/-- To trim both ends drops a text that becomes empty, so all that are left are filled. -/
theorem filled_trimBoundary {items : List Item} (h : ∀ item ∈ items, item.Filled) :
    ∀ item ∈ trimBoundary items, item.Filled :=
  forall_mem_trimBoundary (fun _ hcontent => Item.filled_text_iff.mpr hcontent) h

section

variable {settings : Settings}

mutual

/-- Items are filled if none of the texts that they are made of is empty. The induction is over how
they are made. -/
theorem filled_of_makes {keepBlanks : Bool} {index later : Nat} {n : Nested} {item : Item}
    (h : n.Makes settings keepBlanks index item later)
    (hn : ∀ lexeme ∈ n.listing, lexeme ≠ .text "") : item.Filled := by
  match h with
  | .text keepBlanks _ content =>
    have hcontent : content ≠ "" := by
      rintro rfl
      exact hn _ (List.mem_singleton_self _) rfl
    rw [Item.filled_text_iff]
    split
    · exact hcontent
    · exact Text.collapse_ne_empty hcontent
  | .mustache .. | .inclusion .. | .comment .. | .alone .. =>
    simp [Item.Filled, Item.shape, Tag.element, Element.shape, Shape.marks]
  | .block _ _ hcontent =>
    have hitems := filled_of_makesAll hcontent (List.forall_mem_cons.mp hn).2
    rw [← not_mem_itemsMarks_iff] at hitems
    exact List.not_mem_cons_of_ne_of_not_mem (by simp) hitems
  | .element _ hcontent =>
    have hchildren := filled_of_makesAll hcontent (List.forall_mem_cons.mp hn).2
    refine List.not_mem_cons_of_ne_of_not_mem (by simp) (not_mem_itemsMarks_iff.mpr ?_)
    split
    · exact hchildren
    · exact filled_trimBoundary hchildren

/-- The same for lists of items. -/
theorem filled_of_makesAll {keepBlanks : Bool} {index later : Nat} {parts : List Nested}
    {items : List Item} (h : MakesAll settings keepBlanks index parts items later)
    (hparts : ∀ lexeme ∈ partsListing parts, lexeme ≠ .text "") : ∀ item ∈ items, item.Filled := by
  match h with
  | .nil .. => exact List.forall_mem_nil _
  | .cons hitem hitems =>
    obtain ⟨hn, hrest⟩ := List.forall_mem_append.mp hparts
    exact List.forall_mem_cons.mpr ⟨filled_of_makes hitem hn, filled_of_makesAll hitems hrest⟩

end

/-! ## Templates and fragments -/

/-- Texts that are put together are not empty if they are not empty before. -/
theorem filled_of_buildAll {tokens : List Token} (htokens : ∀ t ∈ tokens, t.lexeme ≠ .text "")
    {keepBlanks : Bool} {index : Nat} {items : List Item}
    (h : (buildAll settings keepBlanks (Nesting.ofTokens tokens) index).result = .ok items) :
    ∀ item ∈ items, item.Filled := by
  refine filled_of_makesAll (makesAll_of_buildAll _ h)
    (Nesting.forall_mem_listing (P := (· ≠ .text "")) (fun content next hcontent _ => ?_) htokens)
  simp only [ne_eq, Lexeme.text.injEq, String.append_eq_empty_iff] at hcontent ⊢
  exact fun hboth => hcontent hboth.1

/-- If no token is an empty text, there is no empty text in what is built of the tokens. -/
theorem Template.filled_of_ofTokens {tokens : List Token}
    (htokens : ∀ t ∈ tokens, t.lexeme ≠ .text "") {items : List Item}
    (h : (ofTokens settings tokens).result = .ok items) : Mark.text "" ∉ itemsMarks items := by
  obtain ⟨built, hbuilt, rfl, -⟩ := exists_buildAll_of_ofTokens h
  have hfilled := filled_of_buildAll htokens hbuilt
  rw [not_mem_itemsMarks_iff]
  split
  · exact hfilled
  · exact filled_trimBoundary hfilled

/-- A fragment of a value holds no elements and no empty texts. -/
def PlainFragment (items : List Item) : Prop :=
  itemsElements items = [] ∧ Mark.text "" ∉ itemsMarks items

/-- What is built of texts and mustaches, and so of the parts that a directive is cut into. -/
theorem turns_fragmentItems :
    (fragmentItems settings).Turns
      (fun tokens => ∀ t ∈ tokens, t.lexeme.inValue = true ∧ t.lexeme ≠ .text "")
      PlainFragment where
  parts tokens h := by
    have hvalue := inValue_splitAtColon fun t ht => (h t ht).1
    have hfilled := List.forall_mem_append.mp
      ((cutAtColon_splitAtColon tokens).ne_empty fun t ht => (h t ht).2)
    exact ⟨fun t ht => ⟨hvalue.1 t ht, hfilled.1 t ht⟩, fun t ht => ⟨hvalue.2 t ht, hfilled.2 t ht⟩⟩
  ensures tokens h index items hitems := by
    obtain ⟨items', helements, hyields⟩ := exists_fragment fun t ht => (h t ht).1
    obtain rfl : items' = items := by
      rw [(hyields settings index).result rfl] at hitems
      exact Except.ok.inj hitems
    rw [fragmentItems_result] at hitems
    have hfilled := filled_of_buildAll (fun t ht => (h t ht).2) hitems
    exact ⟨helements, not_mem_itemsMarks_iff.mpr hfilled⟩

end

end MustacheMarkup
