import Mathlib.Data.List.Forall2
import MustacheMarkup.Proofs.Item.Elements
import MustacheMarkup.Proofs.Nesting.Descent
import MustacheMarkup.Proofs.Nesting.Listing
import MustacheMarkup.Proofs.Nesting.Makes
import MustacheMarkup.Proofs.Template.Values

/-!
# Where the elements of a template come from

Every element of a template that is read from a source text is made by one of its opening tags: what
the tag gives to its element, with some content. So what holds of all such elements holds of all
elements of the template, however deep they stand, and whether or not blanks are kept.
-/

set_option autoImplicit false

namespace MustacheMarkup

open Building Journal

/-- What an element is, is built of its opening tag. -/
theorem exists_kind_of_elementHeader {settings : Settings} {tag : Tag} {span : Span} {index : Nat}
    {header : NodeId × ElementKind}
    (h : (elementHeader settings tag span index).result = .ok header) :
    ∃ index', (elementKind settings.options (fragmentItems settings) (Text.lower tag.name) tag span
      index').result = .ok header.2 := by
  unfold elementHeader at h
  obtain ⟨_, -, h⟩ := result_bind_eq_ok h
  obtain ⟨_, -, h⟩ := result_bind_eq_ok h
  obtain ⟨kind, hkind, h⟩ := result_bind_eq_ok h
  rw [← result_pure_eq_ok h]
  exact ⟨_, hkind⟩

/-- What an opening tag of a source text gives to its element holds no elements. -/
theorem Tag.Readable.elements_elementHeader {settings : Settings} {tag : Tag} (h : tag.Readable)
    {span : Span} {index : Nat} {header : NodeId × ElementKind}
    (hheader : (elementHeader settings tag span index).result = .ok header) :
    header.2.elements = [] := by
  obtain ⟨r, hkinds, hyields⟩ := h.exists_elementKind span
  obtain ⟨index', hkind⟩ := exists_kind_of_elementHeader hheader
  have hkind' := ((hyields settings _).result rfl).symm.trans hkind
  cases r with
  | error e => cases hkind'
  | ok plain =>
    rw [← Except.ok.inj hkind']
    exact plain.elements_withAttributes (hkinds plain rfl).1 (h.elements_builtAttributes _)

/-- Without elements in its opening tag, an element has itself and the elements of its content. -/
theorem elements_element {tag : Tag} {header : NodeId × ElementKind}
    (h : header.2.elements = []) (children : Option (List Item)) :
    (Item.element (tag.element header children)).elements =
      [tag.element header children] ++ fragmentElements children := by
  rw [Item.elements, Tag.element, Element.elements, h, List.nil_append, List.singleton_append]

/-- An element with what an opening tag of a source text gives to it. -/
def Element.MadeBy (settings : Settings) (tag : Tag) (e : Element) : Prop :=
  tag.Readable ∧ ∃ span index header children,
    (elementHeader settings tag span index).result = .ok header ∧ e = tag.element header children

/-- An element that an opening tag makes has no elements besides those in its content. -/
theorem Element.MadeBy.elements_kind {settings : Settings} {tag : Tag} {e : Element}
    (h : e.MadeBy settings tag) : e.kind.elements = [] := by
  obtain ⟨hreadable, span, index, header, children, hheader, rfl⟩ := h
  exact hreadable.elements_elementHeader hheader

section

variable {settings : Settings}

/-- The elements of an element are made by its opening tag and by those in its content, in this
order. -/
theorem madeBy_element {tag : Tag} {span : Span} {index : Nat} {header : NodeId × ElementKind}
    (hreadable : tag.Readable)
    (hheader : (elementHeader settings tag span index).result = .ok header)
    {tags : List Tag} {children : Option (List Item)}
    (hcontent : List.Forall₂ (Element.MadeBy settings) tags (fragmentElements children)) :
    List.Forall₂ (Element.MadeBy settings) (tag :: tags)
      (Item.element (tag.element header children)).elements := by
  have hnone := hreadable.elements_elementHeader hheader
  rw [elements_element hnone, List.singleton_append]
  exact .cons ⟨hreadable, span, index, header, children, hheader, rfl⟩ hcontent

mutual

/-- The elements of an item are made by the opening tags of its part, one by one and in order. The
induction is over how the item is made. -/
theorem madeBy_of_makes {keepBlanks : Bool} {index later : Nat} {n : Nested} {item : Item}
    (h : n.Makes settings keepBlanks index item later)
    (hreadable : ∀ lexeme ∈ n.listing, lexeme.Readable) :
    List.Forall₂ (Element.MadeBy settings) n.tags item.elements := by
  match h with
  | .text .. | .mustache .. | .inclusion .. | .comment .. =>
    exact .nil
  | .block _ _ hcontent =>
    rw [Nested.tags, Item.elements]
    exact madeBy_of_makesAll hcontent (List.forall_mem_cons.mp hreadable).2
  | .alone _ hheader =>
    rw [Nested.tags]
    exact madeBy_element (hreadable _ List.mem_cons_self) hheader .nil
  | .element hheader hcontent =>
    obtain ⟨htag, hinside⟩ := List.forall_mem_cons.mp hreadable
    rw [Nested.tags]
    apply madeBy_element htag hheader
    rw [fragmentElements, elements_keptOrTrimmed]
    exact madeBy_of_makesAll hcontent hinside

/-- The elements of items are made one by one by the tags of the parts that the items are
made of. -/
theorem madeBy_of_makesAll {keepBlanks : Bool} {index later : Nat} {parts : List Nested}
    {items : List Item} (h : MakesAll settings keepBlanks index parts items later)
    (hreadable : ∀ lexeme ∈ partsListing parts, lexeme.Readable) :
    List.Forall₂ (Element.MadeBy settings) (partsTags parts) (itemsElements items) := by
  match h with
  | .nil .. =>
    exact .nil
  | .cons hitem hitems =>
    obtain ⟨hn, hrest⟩ := List.forall_mem_append.mp hreadable
    rw [partsTags, itemsElements]
    exact List.rel_append (madeBy_of_makes hitem hn) (madeBy_of_makesAll hitems hrest)

end

end

/-- The elements of a template are made one by one by its opening tags, if these can be read. -/
theorem Template.madeBy_of_ofTokens {settings : Settings} {tokens : List Token}
    {items : List Item} (hreadable : ∀ t ∈ tokens, t.lexeme.Readable)
    (h : (Template.ofTokens settings tokens).result = .ok items) :
    List.Forall₂ (Element.MadeBy settings) (openingTags tokens) (itemsElements items) := by
  obtain ⟨built, hbuilt, rfl, -⟩ := Template.exists_buildAll_of_ofTokens h
  rw [elements_keptOrTrimmed, ← Nesting.tags_ofTokens]
  exact madeBy_of_makesAll (makesAll_of_buildAll _ hbuilt)
    (Nesting.forall_mem_listing (P := Lexeme.Readable) (fun _ _ _ _ => trivial) hreadable)

/-- The elements of a template are made one by one by the opening tags of its source text. -/
theorem Template.madeBy_of_parse {options : Options} {source : String} {items : List Item}
    (h : Template.parse options source = .ok items) :
    ∃ tokens, tokenize source = .ok tokens ∧
      List.Forall₂ (Element.MadeBy ⟨options, 0⟩) (openingTags tokens) (itemsElements items) := by
  obtain ⟨tokens, htokens, hitems⟩ := Template.exists_ofTokens_of_parse h
  exact ⟨tokens, htokens, madeBy_of_ofTokens (readable_of_tokenize htokens) hitems⟩

/-- Whatever one by one belongs to the members of a list belongs to one of them. -/
theorem exists_mem_of_forall₂ {α β : Type} {R : α → β → Prop} {l : List α} {l' : List β}
    (h : List.Forall₂ R l l') {b : β} (hb : b ∈ l') : ∃ a ∈ l, R a b := by
  induction h with
  | nil => cases hb
  | cons hfirst hrest ih =>
    rcases List.mem_cons.mp hb with rfl | hb
    · exact ⟨_, List.mem_cons_self, hfirst⟩
    · obtain ⟨a, ha, hab⟩ := ih hb
      exact ⟨a, List.mem_cons_of_mem _ ha, hab⟩

/-- Every element of a template is made by an opening tag. -/
theorem Template.exists_madeBy_of_parse {options : Options} {source : String} {items : List Item}
    (h : Template.parse options source = .ok items) :
    ∀ e ∈ itemsElements items, ∃ tag, e.MadeBy ⟨options, 0⟩ tag := by
  obtain ⟨tokens, -, hmade⟩ := Template.madeBy_of_parse h
  intro e he
  obtain ⟨tag, -, htag⟩ := exists_mem_of_forall₂ hmade he
  exact ⟨tag, htag⟩

/-- The elements of a template stand in content only, not in attributes. -/
theorem Template.elements_kind_of_parse {options : Options} {source : String} {items : List Item}
    (h : Template.parse options source = .ok items) :
    ∀ e ∈ itemsElements items, e.kind.elements = [] := by
  intro e he
  obtain ⟨tag, hmade⟩ := Template.exists_madeBy_of_parse h e he
  exact hmade.elements_kind

end MustacheMarkup
