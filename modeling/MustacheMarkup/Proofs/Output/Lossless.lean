import MustacheMarkup.Proofs.Output.Duplicates
import MustacheMarkup.Proofs.Output.Outline

/-!
# Structured forms lose nothing but what outlines forget

Two templates with one structured form without markup have the same outlines
(`outlines_eq_of_form_eq`), since the outlines can be read from the form.
-/

set_option autoImplicit false

namespace MustacheMarkup.Template

open Building Journal

/-- Two templates that a fresh serializer gives the same structured form without markup have the
same outlines, and these can be read from the form. -/
theorem outlines_eq_of_form_eq (options options' : Options) (source source' : String)
    (items items' : List Item) (form : Json) (h : parse options source = .ok items)
    (h' : parse options' source' = .ok items')
    (hform : (Serializer.itemsForm false items Memo.empty).result = .ok form)
    (hform' : (Serializer.itemsForm false items' Memo.empty).result = .ok form) :
    itemsOutline items = itemsOutline items' ∧ form.contentOutline = itemsOutline items := by
  rw [Serializer.result_itemsForm_parse h] at hform
  rw [Serializer.result_itemsForm_parse h'] at hform'
  obtain ⟨tokens, -, hitems⟩ := exists_ofTokens_of_parse h
  obtain ⟨tokens', -, hitems'⟩ := exists_ofTokens_of_parse h'
  have hread := contentOutline_of_itemsStructured (built_of_ofTokens hitems) hform
  have hread' := contentOutline_of_itemsStructured (built_of_ofTokens hitems') hform'
  exact ⟨hread.symm.trans hread', hread⟩

/-- An empty element, written in two ways, with two proxies for one occasion in the second. The
forms are equal, and so are the outlines, as the last of these proxies counts in both. -/
theorem outlines_eq_of_spellings :
    ∃ items items' form, parse {} "<p on-a=b></p>" = .ok items ∧
      parse {} "<P on-a=c on-a=b />" = .ok items' ∧
      (Serializer.itemsForm false items Memo.empty).result = .ok form ∧
      (Serializer.itemsForm false items' Memo.empty).result = .ok form ∧
      itemsOutline items = itemsOutline items' ∧ form.contentOutline = itemsOutline items := by
  have hitems : parse {} "<p on-a=b></p>" = .ok
      [.element ⟨⟨0, 0⟩, "p", "p",
        .html ⟨"p", [], [⟨"a", .fixed "b", none, none⟩], none, none, none⟩, false, false, false,
        some Vocabulary.paragraphClosers, some []⟩] := by
    with_unfolding_all rfl
  have hitems' : parse {} "<P on-a=c on-a=b />" = .ok
      [.element ⟨⟨0, 0⟩, "P", "p",
        .html ⟨"p", [], [⟨"a", .fixed "c", none, none⟩, ⟨"a", .fixed "b", none, none⟩], none, none,
          none⟩, false, true, false, some Vocabulary.paragraphClosers, none⟩] := by
    with_unfolding_all rfl
  have hform := (Serializer.result_itemsForm_parse hitems false).trans rfl
  have hform' := (Serializer.result_itemsForm_parse hitems' false).trans rfl
  have houtlines := outlines_eq_of_form_eq _ _ _ _ _ _ _ hitems hitems' hform hform'
  exact ⟨_, _, _, hitems, hitems', hform, hform', houtlines⟩

end MustacheMarkup.Template
