import Mathlib.Data.List.Nodup
import Mathlib.Data.Set.Function
import MustacheMarkup.Proofs.Nesting.Descent
import MustacheMarkup.Proofs.Output.Memory
import MustacheMarkup.Proofs.Template.Session

/-!
# Every element of a template has an identity of its own

The identities in a template are consecutive. So a serializer that remembers by identity gives the
markup of its items and their structured form.
-/

set_option autoImplicit false

namespace MustacheMarkup

/-- No two elements of a template have the same identity. -/
theorem Template.nodup_ids_of_ofTokens {settings : Settings} {tokens : List Token}
    {items : List Item} (h : (Template.ofTokens settings tokens).result = .ok items) :
    (idsOf (itemsElements items)).Nodup := by
  rw [Template.idsOf_ofTokens h]
  exact List.nodup_range.map fun i j hij => (NodeId.mk.inj hij).2

/-- No two elements of a template have the same identity. -/
theorem Template.nodup_ids_of_parse {options : Options} {source : String} {items : List Item}
    (h : Template.parse options source = .ok items) : (idsOf (itemsElements items)).Nodup := by
  obtain ⟨tokens, -, hitems⟩ := Template.exists_ofTokens_of_parse h
  exact Template.nodup_ids_of_ofTokens hitems

/-- Where no two elements have the same identity, it tells them apart. -/
theorem injOn_id_of_nodup {elements : List Element} (h : (idsOf elements).Nodup) :
    Set.InjOn Element.id {e | e ∈ elements} :=
  fun _ he _ he' hid => List.inj_on_of_nodup_map h he he' hid

namespace Serializer

section

variable {items : List Item} (h : (idsOf (itemsElements items)).Nodup)

include h

/-- A serializer that remembers nothing wrong gives the markup of items whose elements have
identities of their own. -/
theorem result_itemsMarkup_of_sound {memo : Memo}
    (hmemo : memo.Sound {e | e ∈ itemsElements items}) :
    (itemsMarkup items memo).result = .ok (itemsMarkup? items) :=
  (yields_itemsMarkup (injOn_id_of_nodup h) items fun _ he => he).result hmemo

/-- It gives their structured form as well. -/
theorem result_itemsForm_of_sound {memo : Memo} (hmemo : memo.Sound {e | e ∈ itemsElements items})
    (inline : Bool) : (itemsForm inline items memo).result = itemsStructured inline items := by
  have hid := injOn_id_of_nodup h
  have hlist := yields_listForm hid inline items fun _ he => he
  exact (yields_itemsFormWith hid inline items (fun _ he => he) hlist).result hmemo

/-- A fresh serializer writes the markup of items. -/
theorem result_itemsMarkup :
    (itemsMarkup items Memo.empty).result = .ok (itemsMarkup? items) :=
  result_itemsMarkup_of_sound h (Memo.sound_empty _)

/-- A fresh serializer gives the structured form of items. -/
theorem result_itemsForm (inline : Bool) :
    (itemsForm inline items Memo.empty).result = itemsStructured inline items :=
  result_itemsForm_of_sound h (Memo.sound_empty _) inline

end

/-- The report of a compilation does not change what it gives. -/
theorem result_compile (items : List Item) :
    (compile items).result = (itemsForm true items Memo.empty).result := by
  unfold compile
  dsimp only
  rw [Journal.bind_apply]
  rcases itemsForm true items Memo.empty with ⟨_ | form, memo, log⟩
  · rfl
  · rfl

end Serializer

/-- A serializer that remembers nothing gives the markup of the items of a template. -/
theorem Serializer.result_itemsMarkup_parse {options : Options} {source : String}
    {items : List Item} (h : Template.parse options source = .ok items) :
    (Serializer.itemsMarkup items Memo.empty).result = .ok (itemsMarkup? items) :=
  Serializer.result_itemsMarkup (Template.nodup_ids_of_parse h)

end MustacheMarkup
