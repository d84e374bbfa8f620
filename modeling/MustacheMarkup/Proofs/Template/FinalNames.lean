import MustacheMarkup.Proofs.Journal.Ensures
import MustacheMarkup.Proofs.Template.Elements

/-!
# The names that attributes end up with

The attributes of an element have the names that its tag and the options give them, in the order of
the tag (`ensures_elementKind`). The values of attributes have no say in that. So the names in a
whole template can be read off the opening tags of its source text (`names_of_parse`).
-/

set_option autoImplicit false

namespace MustacheMarkup

open Building Journal

/-- The names of the attributes that the element of a tag has. A component has all of them as they
are written. An element of the markup has the plain ones that the options let it keep, in lower case
or as SVG has them. -/
def Tag.finalNames (tag : Tag) (options : Options) : List String :=
  if isComponent (Text.lower tag.name) then tag.attributes.map RawAttribute.name
  else (tag.plainAttributes.filter options.keeps).map fun a => htmlAttributeName a.name

/-- The names of the attributes that do not stand for behaviour. -/
def ElementKind.attributeNames : ElementKind → List String
  | .component _ attributes => attributes.map Attribute.name
  | .html details => details.attributes.map Attribute.name

/-- The names of the attributes of an element are told by its kind. -/
theorem Element.map_name_attributes (e : Element) :
    e.attributes.map Attribute.name = e.kind.attributeNames := by
  unfold Element.attributes
  cases e.kind <;> rfl

/-! ## One tag -/

section

variable {fragment : FragmentBuilder}

/-- An attribute of the markup gets its final name. -/
theorem ensures_ofHtml (a : RawAttribute) :
    Ensures (Attribute.ofHtml fragment a) fun built => built.name = htmlAttributeName a.name := by
  refine ensures_bind _ fun value => ensures_pure ?_
  dsimp only

/-- An attribute of a component keeps its name. -/
theorem ensures_ofComponent (a : RawAttribute) :
    Ensures (Attribute.ofComponent fragment a) fun built => built.name = a.name :=
  ensures_bind _ fun _ => ensures_pure rfl

/-- The attributes of the details have the final names of those that are kept, in order. -/
theorem ensures_detailsOf (name : String) (span : Span) (sorted : SortedAttributes)
    (plain : List RawAttribute) :
    Ensures (detailsOf fragment name span sorted plain) fun details =>
      details.attributes.map Attribute.name = plain.map fun a => htmlAttributeName a.name := by
  unfold detailsOf
  refine (ensures_each_map ensures_ofHtml plain).bind fun attributes hnames => ?_
  refine ensures_bind _ fun proxies => ensures_bind _ fun intro => ensures_bind _ fun outro => ?_
  exact ensures_bind _ fun decorator => ensures_pure hnames

/-- A tag gives the attributes of its element their names, whatever their values are. So which names
stand twice in an element is known from the tag alone. -/
theorem ensures_elementKind (options : Options) (tag : Tag) (span : Span) :
    Ensures (elementKind options fragment (Text.lower tag.name) tag span) fun kind =>
      kind.attributeNames = tag.finalNames options := by
  unfold elementKind Tag.finalNames
  split
  · refine (ensures_each_map ensures_ofComponent tag.attributes).bind fun attributes hnames => ?_
    exact ensures_pure hnames
  · refine Ensures.map (P := fun details : HtmlDetails => details.attributes.map Attribute.name =
      (tag.plainAttributes.filter options.keeps).map fun a => htmlAttributeName a.name) ?_
      fun details hnames => hnames
    intro index details hdetails
    rw [htmlDetails_eq] at hdetails
    obtain ⟨sorted, hsorted, hdetails⟩ := result_bind_eq_ok hdetails
    obtain ⟨plain, hplain, hdetails⟩ := result_bind_eq_ok hdetails
    cases ((yields_kept options _ _ _).result rfl).symm.trans hplain
    rw [ensures_detailsOf _ _ _ _ _ _ hdetails,
      SortedAttributes.plain_ofList (ofList_eq_of_mapError hsorted)]
    rfl

end

/-! ## All tags -/

/-- The names of an element can be read off its tag, without building it. -/
theorem Element.MadeBy.names {settings : Settings} {tag : Tag} {e : Element}
    (h : e.MadeBy settings tag) :
    e.attributes.map Attribute.name = tag.finalNames settings.options := by
  obtain ⟨-, span, index, header, children, hheader, rfl⟩ := h
  rw [Element.map_name_attributes]
  have hnames : Ensures (elementHeader settings tag span) fun header =>
      header.2.attributeNames = tag.finalNames settings.options :=
    ensures_bind _ fun _ => ensures_bind _ fun _ =>
      (ensures_elementKind settings.options tag span).bind fun _ hkind => ensures_pure hkind
  exact hnames index header hheader

/-- The names of the attributes in a template are those that the opening tags of its source text
give, tag by tag. -/
theorem Template.names_of_parse {options : Options} {source : String} {items : List Item}
    (h : Template.parse options source = .ok items) :
    ∃ tokens, tokenize source = .ok tokens ∧
      (itemsElements items).map (fun e => e.attributes.map Attribute.name) =
        (openingTags tokens).map fun tag => tag.finalNames options := by
  obtain ⟨tokens, htokens, hmade⟩ := Template.madeBy_of_parse h
  refine ⟨tokens, htokens, ?_⟩
  generalize openingTags tokens = tags at hmade
  generalize itemsElements items = elements at hmade
  induction hmade with
  | nil => rfl
  | cons hfirst hrest ih => rw [List.map_cons, List.map_cons, hfirst.names, ih]

end MustacheMarkup
