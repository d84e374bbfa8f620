import MustacheMarkup.Proofs.Nesting.Fitting
import MustacheMarkup.Proofs.Nesting.Makes
import MustacheMarkup.Proofs.Output.Reread
import MustacheMarkup.Proofs.Token.Sound

/-!
# The forms of a template are legible

Whatever a template has that is literal can be read again: this is where the forms of templates
differ from arbitrary forms (`legible_of_parse`). Names and comments are as they were read, the
texts of a value hold no mustache because they were cut at mustaches, and elements stand where their
opening tags let them stand.
-/

set_option autoImplicit false

namespace MustacheMarkup

open Building Journal Output

/-! ## Values -/

/-- The characters of a lexeme that is literal text. -/
def Lexeme.chars : Lexeme → List Char
  | .text content => content.toList
  | _ => []

/-- The characters of literal texts are those of the lexemes, in order. -/
theorem textChars_eq (tokens : List Token) :
    textChars tokens = (tokens.map Token.lexeme).flatMap Lexeme.chars := by
  rw [textChars, List.flatMap_map]
  refine List.flatMap_congr fun t _ => ?_
  obtain ⟨lexeme, span⟩ := t
  cases lexeme <;> rfl

/-- To put neighbouring texts together changes no character. -/
theorem textChars_joinTexts (tokens : List Token) :
    textChars (Nesting.joinTexts tokens) = textChars tokens := by
  induction tokens with
  | nil => rfl
  | cons t rest ih =>
    have hcons : ∀ t rest, textChars (t :: rest) = textChars [t] ++ textChars rest := by
      simp [textChars]
    rw [Nesting.joinTexts, hcons t rest, ← ih]
    split
    · rename_i htext hjoined
      rw [hjoined, hcons, hcons ⟨_, _⟩]
      simp [textChars, Token.text?] at htext ⊢
      simp [htext]
    · rw [hcons]

/-- What lasts of tokens has all their texts. Texts are only put together on the way into the
listing, and none is dropped. -/
theorem chars_listing (tokens : List Token) :
    (partsListing (Nesting.ofTokens tokens)).flatMap Lexeme.chars = textChars tokens := by
  have hfilter : ∀ lexemes : List Lexeme,
      (lexemes.filter Lexeme.lasts).flatMap Lexeme.chars = lexemes.flatMap Lexeme.chars := by
    intro lexemes
    induction lexemes with
    | nil => rfl
    | cons lexeme rest ih =>
      rw [List.filter_cons, List.flatMap_cons]
      split
      · rw [List.flatMap_cons, ih]
      · rename_i hlasts
        have hnone : lexeme.chars = [] := by
          cases lexeme with
          | text content => exact absurd rfl hlasts
          | _ => rfl
        rw [hnone, List.nil_append, ih]
  rw [Nesting.listing_ofTokens, hfilter, ← textChars_eq, textChars_joinTexts]

/-- A part of a value that makes an item with a markup is a text. -/
theorem text_of_makes {settings : Settings} {index later : Nat} {n : Nested} {item : Item}
    (h : n.Makes settings true index item later)
    (hvalue : ∀ lexeme ∈ n.listing, lexeme.inValue = true) (hmarkup : item.markup?.isSome = true) :
    ∃ content, n = .text content ∧ item = .text content := by
  cases h with
  | text _ _ content => exact ⟨content, rfl, rfl⟩
  | mustache | block | inclusion => cases hmarkup
  | comment | alone | element => cases hvalue _ List.mem_cons_self

/-- Where there are neither tags nor comments, a markup is made of texts. A mustache has no markup,
so if there is one at all, the characters are those of the listing. -/
theorem chars_of_makesAll {settings : Settings} {index later : Nat} {parts : List Nested}
    {items : List Item} (h : MakesAll settings true index parts items later)
    (hvalue : ∀ lexeme ∈ partsListing parts, lexeme.inValue = true) {text : String}
    (htext : itemsMarkup? items = some text) :
    text.toList = (partsListing parts).flatMap Lexeme.chars := by
  induction parts generalizing index items text with
  | nil =>
    cases h
    rw [← Option.some.inj htext]
    rfl
  | cons n rest ih =>
    obtain ⟨hn, hrest⟩ := List.forall_mem_append.mp hvalue
    cases h with
    | cons hitem hitems =>
      rw [itemsMarkup?] at htext
      split at htext
      · cases htext
      · rename_i first hfirst
        obtain ⟨later, hlater, rfl⟩ := Option.map_eq_some_iff.mp htext
        obtain ⟨content, rfl, rfl⟩ := text_of_makes hitem hn (by rw [hfirst]; rfl)
        rw [String.toList_append, ih hitems hrest hlater, ← Option.some.inj hfirst]
        simp [partsListing, Nested.listing, Lexeme.chars]

/-- The markup of a value is made of its literal texts. -/
theorem toList_markup_valueItems {tokens : List Token}
    (h : ∀ t ∈ tokens, t.lexeme.inValue = true) {text : String}
    (htext : itemsMarkup? (valueItems tokens) = some text) : text.toList = textChars tokens := by
  obtain ⟨items, -, hyields⟩ := exists_fragment h
  rw [valueItems_eq hyields] at htext
  have hresult := (hyields ⟨default, 0⟩ 0).result rfl
  rw [fragmentItems_result] at hresult
  rw [← chars_listing]
  exact chars_of_makesAll (makesAll_of_buildAll _ hresult)
    (Nesting.forall_mem_listing (P := fun lexeme => lexeme.inValue = true) (fun _ _ _ _ => rfl) h)
    htext

/-! ## Attributes -/

/-- The texts of attributes that are built can be read again: the names are final and can be read,
none is reserved, and no text starts a mustache, as texts of tokens do not. -/
theorem legible_of_attributesLiteral? {raws : List RawAttribute}
    (hreadable : ∀ a ∈ raws, a.Readable) (hsound : ∀ a ∈ raws, a.Sound)
    {texts : List (String × String)}
    (h : attributesLiteral? (raws.map RawAttribute.built) = some texts) :
    ∀ a ∈ texts, LegibleAttribute a := by
  induction raws generalizing texts with
  | nil =>
    cases h
    exact List.forall_mem_nil _
  | cons raw rest ih =>
    obtain ⟨hreadable, hreadable'⟩ := List.forall_mem_cons.mp hreadable
    obtain ⟨hsound, hsound'⟩ := List.forall_mem_cons.mp hsound
    rw [List.map_cons, RawAttribute.built, attributesLiteral?] at h
    split at h
    · cases h
    · rename_i hreserved
      split at h
      · rename_i text written hvalue hrest
        cases h
        have hname := readableName_htmlAttributeName hsound.name
        have hfinal := htmlAttributeName_htmlAttributeName raw.name
        have hbraces : braceless (text.getD "").toList = true := by
          cases htokens : raw.value with
          | none =>
            rw [htokens] at hvalue
            cases hvalue
            rfl
          | some tokens =>
            rw [htokens] at hvalue
            obtain ⟨content, hcontent, rfl⟩ := Option.map_eq_some_iff.mp hvalue
            rw [Option.getD_some, toList_markup_valueItems (hreadable tokens htokens) hcontent]
            exact hsound.value tokens htokens
        generalize htmlAttributeName raw.name = name at hname hfinal hreserved
        exact List.forall_mem_cons.mpr ⟨⟨hname, hfinal, Bool.eq_false_iff.mpr hreserved, hbraces⟩,
          ih hreadable' hsound' hrest⟩
      · cases h

/-! ## Lists of forms -/

/-- A form that is legible unless it is a text, which may be empty. -/
def Literal.Fine (l : Literal) : Prop :=
  (∀ content, l ≠ .text content) → l.Legible

/-- A fine form may be put before legible ones: a text before a text becomes one with it, and an
empty text is left out. -/
theorem legible_cons {l : Literal} {literals : List Literal} (hl : l.Fine)
    (h : literalsLegible literals) : literalsLegible (l.cons literals) := by
  fun_cases Literal.cons l literals with
  | case1 s s' rest =>
    obtain ⟨hs', hbefore, hrest⟩ := h
    refine ⟨fun hempty => hs' (String.append_eq_empty_iff.mp hempty).2, ?_, hrest⟩
    cases rest with
    | nil => rfl
    | cons l rest =>
      cases l with
      | text content => cases hbefore
      | _ => rfl
  | case2 s rest hrest hempty => exact h
  | case3 s _ hrest hempty =>
    refine ⟨fun hs => hempty (String.isEmpty_iff.mpr hs), ?_, h⟩
    cases literals with
    | nil => rfl
    | cons l rest =>
      cases l with
      | text s' => exact (hrest s' rest rfl).elim
      | _ => rfl
  | case4 l _ hrest hl' =>
    refine ⟨hl fun content => hl' content, ?_, h⟩
    cases l with
    | text content => exact absurd rfl (hl' content)
    | _ => rfl

/-- What holds of the forms of items and of all texts holds of the forms of the items together.
Texts are put together there, so the forms of two items may become one. -/
theorem forall_mem_itemsLiterals? {P : Literal → Prop} (htext : ∀ content, P (.text content)) :
    ∀ {items : List Item} {literals : List Literal}, itemsLiterals? items = some literals →
      (∀ item ∈ items, ∀ l, item.literal? = some l → P l) → ∀ l ∈ literals, P l
  | [], literals, h, _ => by
    cases h
    exact List.forall_mem_nil _
  | item :: items, literals, h, hitems => by
    obtain ⟨hitem, hitems⟩ := List.forall_mem_cons.mp hitems
    rw [itemsLiterals?] at h
    split at h
    · rename_i l rest hl hrest
      cases h
      have hih := forall_mem_itemsLiterals? htext hrest hitems
      fun_cases Literal.cons l rest with
      | case1 s s' rest =>
        exact List.forall_mem_cons.mpr ⟨htext _, (List.forall_mem_cons.mp hih).2⟩
      | case2 => exact hih
      | case3 => exact List.forall_mem_cons.mpr ⟨htext _, hih⟩
      | case4 => exact List.forall_mem_cons.mpr ⟨hitem _ hl, hih⟩
    · cases h

/-- The forms of items are legible if each one is fine. Between them texts are put together. -/
theorem legible_of_itemsLiterals? : ∀ {items : List Item} {literals : List Literal},
    itemsLiterals? items = some literals → (∀ item ∈ items, ∀ l, item.literal? = some l → l.Fine) →
      literalsLegible literals
  | [], literals, h, _ => by
    cases h
    trivial
  | item :: items, literals, h, hitems => by
    obtain ⟨hitem, hitems⟩ := List.forall_mem_cons.mp hitems
    rw [itemsLiterals?] at h
    split at h
    · rename_i l rest hl hrest
      cases h
      exact legible_cons (hitem l hl) (legible_of_itemsLiterals? hrest hitems)
    · cases h

/-! ## Items -/

/-- A plain name in lower case is written as it is, since the names of SVG are not plain. -/
theorem lower_of_isPlain_lower {name : String}
    (h : Vocabulary.isPlain (Text.lower name) = true) :
    writtenName (Text.lower name) = Text.lower name := by
  have hname := (isComponent_of_isPlain h).2
  rwa [Text.lower_lower] at hname

section

variable {settings : Settings} {index : Nat}

/-- An element that an opening tag makes has a form only if it has no behaviour but a decorator, and
its attributes and its content have forms. -/
theorem exists_of_literal?_element {tag : Tag} (hreadable : tag.Readable) {span : Span}
    {header : NodeId × ElementKind}
    (hheader : (elementHeader settings tag span index).result = .ok header)
    {children : Option (List Item)} {l : Literal}
    (hl : (Item.element (tag.element header children)).literal? = some l) :
    Vocabulary.isPlain (Text.lower tag.name) = true ∧ ∃ decorator content texts,
      header.2 = .html ⟨Text.lower tag.name, tag.builtAttributes settings.options, [], none, none,
        decorator⟩ ∧
      contentLiterals? children = some content ∧
      attributesLiteral? (tag.builtAttributes settings.options) = some texts ∧
      l = if Vocabulary.isVoid (Text.lower tag.name) || tag.selfClosing then
          .alone (Text.lower tag.name) texts !(Vocabulary.isVoid (Text.lower tag.name))
        else .element (Text.lower tag.name) texts content := by
  rcases hreadable.elementHeader_cases hheader with ⟨name, attributes, hkind, -⟩ |
    ⟨proxies, intro, outro, decorator, hkind⟩
  · rw [Item.literal?, Tag.element, hkind] at hl
    cases hl
  · rw [Item.literal?, Tag.element, hkind, Element.literal?] at hl
    split at hl
    · cases hl
    · rename_i hplain
      simp only [Bool.or_eq_true, Bool.not_eq_true', not_or, Bool.not_eq_false, List.isEmpty_iff,
        Bool.not_eq_true, Option.isSome_eq_false_iff, Option.isNone_iff_eq_none] at hplain
      obtain ⟨⟨⟨hplain, rfl⟩, rfl⟩, rfl⟩ := hplain
      rw [lower_of_isPlain_lower hplain] at hkind hl
      split at hl
      · rename_i content texts hchildren htexts
        refine ⟨hplain, decorator, content, texts, hkind, hchildren, htexts, ?_⟩
        rw [← apply_ite some] at hl
        exact (Option.some.inj hl).symm
      · cases hl

/-- The form of an element is legible if its content is, and it closes what the element closes. The
tag is one that was read, so its name and its attributes can be read again. -/
theorem legible_element {tag : Tag} (hreadable : tag.Readable)
    (hsound : ∀ a ∈ tag.attributes, a.Sound) {span : Span} {header : NodeId × ElementKind}
    (hheader : (elementHeader settings tag span index).result = .ok header)
    {children : Option (List Item)}
    (hcontent : ∀ literals, contentLiterals? children = some literals → literalsLegible literals ∧
      ∀ l ∈ literals, l.closes (Text.lower tag.name) = false) {l : Literal}
    (hl : (Item.element (tag.element header children)).literal? = some l) :
    l.Legible ∧ ∀ parent, l.closes parent = Vocabulary.closes (Text.lower tag.name) parent := by
  obtain ⟨hplain, decorator, content, texts, -, hchildren, htexts, rfl⟩ :=
    exists_of_literal?_element hreadable hheader hl
  have hmem : ∀ {P : RawAttribute → Prop}, (∀ a ∈ tag.attributes, P a) →
      ∀ a ∈ tag.plainAttributes.filter settings.options.keeps, P a := by
    intro P h a ha
    exact h a (List.mem_filter.mp (List.mem_filter.mp ha).1).1
  have hattributes := legible_of_attributesLiteral? (hmem hreadable) (hmem hsound) htexts
  obtain ⟨hlegible, hcloses⟩ := hcontent content hchildren
  split
  · exact ⟨⟨hplain, rfl, hattributes⟩, fun _ => rfl⟩
  · rename_i hvoid
    rw [Bool.or_eq_true, not_or, Bool.not_eq_true] at hvoid
    exact ⟨⟨hplain, hvoid.1, hattributes, hcloses, hlegible⟩, fun _ => rfl⟩

end

/-- Items whose forms are legible but for texts, and which close no more than certain parts do, are
legible together, with their ends trimmed or not. -/
theorem legible_of_fine {parts : List Nested} {items : List Item} (trimmed : Bool)
    (hfine : ∀ item ∈ items, ∀ l, item.literal? = some l →
      l.Fine ∧ ∀ parent, (∀ n ∈ parts, n.closes parent = false) → l.closes parent = false)
    {literals : List Literal}
    (h : itemsLiterals? (if trimmed then items else trimBoundary items) = some literals) :
    literalsLegible literals ∧ ∀ l ∈ literals, ∀ parent,
      (∀ n ∈ parts, n.closes parent = false) → l.closes parent = false := by
  have hitems : ∀ item ∈ (if trimmed then items else trimBoundary items), ∀ l,
      item.literal? = some l →
      l.Fine ∧ ∀ parent, (∀ n ∈ parts, n.closes parent = false) → l.closes parent = false := by
    cases trimmed with
    | true => exact hfine
    | false =>
      refine forall_mem_trimBoundary (fun content _ l hl => ?_) hfine
      cases hl
      exact ⟨fun h => absurd rfl (h content), fun _ _ => rfl⟩
  exact ⟨legible_of_itemsLiterals? h fun item hitem l hl => (hitems item hitem l hl).1,
    forall_mem_itemsLiterals? (fun _ _ _ => rfl) h
      fun item hitem l hl => (hitems item hitem l hl).2⟩

/-- What is known of the lexemes of parts of a template. -/
def Lexeme.Known (lexeme : Lexeme) : Prop :=
  lexeme.Sound ∧ lexeme.Readable

mutual

/-- The form of an item of a template is legible, unless it is a text, and it closes no more than
the part that the item is made of. -/
theorem fine_of_makes {settings : Settings} {keepBlanks : Bool} {index later : Nat} {n : Nested}
    {item : Item} (h : n.Makes settings keepBlanks index item later) (hfitting : n.Fitting)
    (hknown : ∀ lexeme ∈ n.listing, lexeme.Known) {l : Literal} (hl : item.literal? = some l) :
    l.Fine ∧ ∀ parent, n.closes parent = false → l.closes parent = false := by
  match h with
  | .text .. =>
    cases hl
    exact ⟨fun htext => absurd rfl (htext _), fun _ _ => rfl⟩
  | .comment .. =>
    cases hl
    exact ⟨fun _ => (hknown _ List.mem_cons_self).1, fun _ _ => rfl⟩
  | .mustache .. | .block .. | .inclusion .. => cases hl
  | .alone _ hheader =>
    obtain ⟨hsound, hreadable⟩ := hknown _ List.mem_cons_self
    obtain ⟨hlegible, hcloses⟩ := legible_element hreadable hsound hheader
      (fun literals hliterals => by
        cases hliterals
        exact ⟨trivial, List.forall_mem_nil _⟩) hl
    exact ⟨fun _ => hlegible, fun parent hparent => by rw [hcloses]; exact hparent⟩
  | .element hheader hcontent =>
    obtain ⟨⟨hsound, hreadable⟩, hknown⟩ := List.forall_mem_cons.mp hknown
    have hfine := fine_of_makesAll hcontent hfitting.2 hknown
    obtain ⟨hlegible, hcloses⟩ := legible_element hreadable hsound hheader
      (fun literals hliterals => by
        obtain ⟨hlegible, hforms⟩ := legible_of_fine _ hfine hliterals
        exact ⟨hlegible, fun l hl => hforms l hl _ hfitting.1⟩) hl
    exact ⟨fun _ => hlegible, fun parent hparent => by rw [hcloses]; exact hparent⟩

/-- The forms of items of a template are legible, but for the texts among them, which may stand side
by side. None of the forms closes an element that its part does not close. -/
theorem fine_of_makesAll {settings : Settings} {keepBlanks : Bool} {index later : Nat}
    {parts : List Nested} {items : List Item}
    (h : MakesAll settings keepBlanks index parts items later) (hfitting : partsFitting parts)
    (hknown : ∀ lexeme ∈ partsListing parts, lexeme.Known) :
    ∀ item ∈ items, ∀ l, item.literal? = some l →
      l.Fine ∧ ∀ parent, (∀ n ∈ parts, n.closes parent = false) → l.closes parent = false := by
  match h with
  | .nil .. =>
    exact List.forall_mem_nil _
  | .cons hitem hitems =>
    obtain ⟨hn, hrest⟩ := List.forall_mem_append.mp hknown
    have hfirst := @fine_of_makes _ _ _ _ _ _ hitem hfitting.1 hn
    have hlater := fine_of_makesAll hitems hfitting.2 hrest
    rw [List.forall_mem_cons]
    constructor
    · intro l hl
      obtain ⟨hfine, hcloses⟩ := hfirst hl
      exact ⟨hfine, fun parent hparent => hcloses parent (List.forall_mem_cons.mp hparent).1⟩
    · intro item' hitem' l hl
      obtain ⟨hfine, hcloses⟩ := hlater item' hitem' l hl
      exact ⟨hfine, fun parent hparent => hcloses parent (List.forall_mem_cons.mp hparent).2⟩

end

/-- The forms of a template are legible. -/
theorem legible_of_parse {options : Options} {source : String} {items : List Item}
    (h : Template.parse options source = .ok items) {literals : List Literal}
    (hliterals : itemsLiterals? items = some literals) : literalsLegible literals := by
  obtain ⟨tokens, built, htokens, hbuilt, rfl⟩ := Template.parse_eq_ok_iff.mp h
  have hknown : ∀ lexeme ∈ partsListing (Nesting.ofTokens tokens), lexeme.Known :=
    Nesting.forall_mem_listing (P := Lexeme.Known) (fun _ _ _ _ => ⟨trivial, trivial⟩)
      fun t ht => ⟨sound_of_tokenize htokens t ht, readable_of_tokenize htokens t ht⟩
  have hfine := fine_of_makesAll (makesAll_of_buildAll _ hbuilt) (Nesting.fitting_ofTokens tokens)
    hknown
  exact (legible_of_fine _ hfine hliterals).1

end MustacheMarkup
