import MustacheMarkup.Proofs.Template.LoneAttribute
import MustacheMarkup.Proofs.Template.Spelling
import MustacheMarkup.Proofs.Token.Sound

/-!
# When it does not matter how attributes are spelled

Two source texts may differ in the case of the letters in the names of attributes, and compile to
the same. They do not always: roles and event handlers are found by the name as it is written.
`compile_respelled_iff` says of every choice of spellings whether they can be exchanged for one
another in all source texts: they can if and only if they are interchangeable.
-/

set_option autoImplicit false

namespace MustacheMarkup

open Building

/-- Two attributes have the same value, and the same name or names that `S` relates. -/
structure RawAttribute.Respelled (S : String → String → Prop) (a a' : RawAttribute) : Prop where
  value : a'.value = a.value
  name : a'.name = a.name ∨ S a.name a'.name

/-- Two tags are the same but for the names of attributes. These are the same in the tag of a
component, and the same or related by `S` in others. -/
structure Tag.Respelled (S : String → String → Prop) (tag tag' : Tag) : Prop where
  outside : tag.SameOutside tag'
  attributes : List.Forall₂ (RawAttribute.Respelled S) tag.attributes tag'.attributes
  component : isComponent (Text.lower tag.name) = true → tag'.attributes = tag.attributes

variable {options : Options} {S : String → String → Prop}

section

variable (hsame : ∀ name name', S name name' → Vocabulary.sameAscii name name' = true)
  (hS : ∀ name name', ReadableName name → S name name' → Interchangeable options name name')

include hsame hS

/-- An attribute that is spelled in another way is alike, if `S` relates only names that can be
exchanged. -/
theorem RawAttribute.Respelled.alike {a a' : RawAttribute} (h : a.Respelled S a')
    (ha : ReadableName a.name) : a.Alike options a' := by
  obtain ⟨hvalue, hname | hname⟩ := h
  · exact ⟨hvalue, congrArg htmlAttributeName hname, hname ▸ Interchangeable.rfl⟩
  · exact ⟨hvalue, htmlAttributeName_eq_of_sameAscii (hsame _ _ hname), hS _ _ ha hname⟩

/-- The same for all attributes of a tag. -/
theorem forall₂_alike {attributes attributes' : List RawAttribute}
    (h : List.Forall₂ (RawAttribute.Respelled S) attributes attributes')
    (hreadable : ∀ a ∈ attributes, ReadableName a.name) :
    List.Forall₂ (RawAttribute.Alike options) attributes attributes' := by
  induction h with
  | nil => exact .nil
  | cons ha _ ih =>
    obtain ⟨hfirst, hrest⟩ := List.forall_mem_cons.mp hreadable
    exact .cons (ha.alike hsame hS hfirst) (ih hrest)

/-- The same for lexemes of a source text, whose names can be read. -/
theorem Lexeme.Related.alike {lexeme lexeme' : Lexeme}
    (h : lexeme.Related (Tag.Respelled S) lexeme') (hsound : lexeme.Sound) :
    lexeme.Related (Tag.Alike options) lexeme' := by
  cases h with
  | text content => exact .text content
  | comment content => exact .comment content
  | mustache kind reference => exact .mustache kind reference
  | tag h => exact .tag ⟨h.outside, forall₂_alike hsame hS h.attributes
      fun a ha => (hsound a ha).name, h.component⟩

/-- The same for tokens of a source text. -/
theorem forall₂_related_alike {tokens tokens' : List Token}
    (h : List.Forall₂ (Token.Related (Tag.Respelled S)) tokens tokens')
    (hsound : ∀ t ∈ tokens, t.lexeme.Sound) :
    List.Forall₂ (Token.Related (Tag.Alike options)) tokens tokens' := by
  induction h with
  | nil => exact .nil
  | cons ht _ ih =>
    obtain ⟨hfirst, hrest⟩ := List.forall_mem_cons.mp hsound
    exact .cons ⟨ht.lexeme.alike hsame hS hfirst, ht.span⟩ (ih hrest)

end

/-! ## Names -/

/-- A letter in lower case may stand in a name exactly if the letter may. -/
theorem isAttributeNameChar_toLower (c : Char) :
    isAttributeNameChar c.toLower = isAttributeNameChar c :=
  Text.apply_toLower (by decide) c

/-- A name can be read whatever the case of its ASCII letters is, because no letter ends a name or
is told apart from others in one. -/
theorem ReadableName.of_sameAscii {name name' : String} (h : ReadableName name)
    (hsame : Vocabulary.sameAscii name name' = true) : ReadableName name' := by
  have hlower : name.toList.map Char.toLower = name'.toList.map Char.toLower := beq_iff_eq.mp hsame
  have hmark : ∀ mark : Char, mark.isAlpha = false → name = String.singleton mark →
      name' = String.singleton mark := by
    rintro mark hmark rfl
    rw [String.toList_singleton, List.map_singleton, Text.toLower_eq_self_of_not_isAlpha hmark]
      at hlower
    obtain ⟨c, hc, hcs⟩ := List.map_eq_singleton_iff.mp hlower.symm
    have hletter : c.isAlpha = false := by
      rw [← Bool.not_eq_true]
      intro hc'
      rw [← hcs, isAlpha_toLower hc'] at hmark
      cases hmark
    rw [Text.toLower_eq_self_of_not_isAlpha hletter] at hcs
    rw [← String.toList_inj, hc, hcs, String.toList_singleton]
  obtain ⟨hne, hchars⟩ | rfl | rfl | rfl := h
  · refine Or.inl ⟨?_, fun c hc => ?_⟩
    · rintro rfl
      exact hne (String.toList_eq_nil_iff.mp (List.map_eq_nil_iff.mp hlower))
    · have hmem : c.toLower ∈ name.toList.map Char.toLower := by
        rw [hlower]
        exact List.mem_map_of_mem hc
      obtain ⟨d, hd, hcd⟩ := List.mem_map.mp hmem
      rw [← isAttributeNameChar_toLower, ← hcd, isAttributeNameChar_toLower]
      exact hchars d hd
  · exact Or.inr (Or.inl (hmark '=' rfl rfl))
  · exact Or.inr (Or.inr (Or.inl (hmark '"' rfl rfl)))
  · exact Or.inr (Or.inr (Or.inr (hmark '\'' rfl rfl)))

/-! ## Source texts -/

/-- The tags of the two templates that tell spellings apart differ in the spelling only. -/
theorem respelled_loneTag {name name' : String} (h : S name name') (valueSpan span : Span) :
    List.Forall₂ (Token.Related (Tag.Respelled S)) [⟨.tag (loneTag name valueSpan), span⟩]
      [⟨.tag (loneTag name' valueSpan), span⟩] := by
  refine .cons ⟨.tag ⟨⟨rfl, rfl, rfl, rfl⟩, .cons ⟨rfl, .inr h⟩ .nil, ?_⟩, rfl⟩ .nil
  have hnone : isComponent (Text.lower "x") = false := by decide
  exact fun hcomponent => absurd hcomponent (ne_of_eq_of_ne hnone Bool.false_ne_true)

/-- Spelling the names of attributes differently, each by one that `S` relates to it and
that differs from it in the case of ASCII letters at most, changes for no source text what
it compiles to, nor the error if it does not compile, if and only if names that `S` relates
are interchangeable. -/
theorem compile_respelled_iff (options : Options) (S : String → String → Prop)
    (hsame : ∀ name name', S name name' → Vocabulary.sameAscii name name' = true) :
    (∀ source source' tokens tokens', tokenize source = .ok tokens →
      tokenize source' = .ok tokens' →
      List.Forall₂ (Token.Related (Tag.Respelled S)) tokens tokens' →
      compile options source' = compile options source) ↔
    ∀ name name', ReadableName name → S name name' → Interchangeable options name name' := by
  constructor
  · intro h name name' hname hrespelled
    have hlength := congrArg List.length (beq_iff_eq.mp (hsame name name' hrespelled))
    rw [List.length_map, List.length_map] at hlength
    have hname' : ReadableName name' := hname.of_sameAscii (hsame name name' hrespelled)
    obtain ⟨valueSpan, span, htokens⟩ := exists_tokenize_loneAttribute name.toList.length
    exact interchangeable_of_compile_eq hname hname' (h _ _ _ _ (htokens name hname rfl)
      (htokens name' hname' hlength.symm) (respelled_loneTag hrespelled valueSpan span))
  · intro hS source source' tokens tokens' htokens htokens' hrespelled
    have halike := forall₂_related_alike hsame hS hrespelled (sound_of_tokenize htokens)
    have hparse : Template.parse options source' = Template.parse options source := by
      rw [Template.parse, Template.parse, Template.ofSource, Template.ofSource, htokens, htokens']
      exact (Template.result_ofTokens_alike halike).symm
    rw [compile, compile, hparse]

/-- A name in capital letters that is written as in small ones may be exchanged for it. -/
theorem compile_respelled_title : compile ⟨false, true⟩ "<x TITLE=v>" =
    compile ⟨false, true⟩ "<x title=v>" := by
  have hname : ReadableName "title" := readableName_of_all (by decide) (by decide)
  have hname' : ReadableName "TITLE" := readableName_of_all (by decide) (by decide)
  obtain ⟨valueSpan, span, htokens⟩ := exists_tokenize_loneAttribute 5
  refine (compile_respelled_iff ⟨false, true⟩ (fun name name' => name = "title" ∧ name' = "TITLE")
    ?_).mpr ?_ "<x title=v>" "<x TITLE=v>" _ _ (htokens "title" hname rfl)
    (htokens "TITLE" hname' rfl) (respelled_loneTag ⟨rfl, rfl⟩ valueSpan span)
  · rintro name name' ⟨rfl, rfl⟩
    decide
  · rintro name name' - ⟨rfl, rfl⟩
    decide

/-- In capital letters a name no longer stands for an event that is passed on. -/
theorem compile_differs_in_capitals : ∃ tokens tokens',
    tokenize "<x on-click=v>" = .ok tokens ∧ tokenize "<x ON-CLICK=v>" = .ok tokens' ∧
      List.Forall₂ (Token.Related (Tag.Respelled fun name name' =>
        Vocabulary.sameAscii name name' = true)) tokens tokens' ∧
      compile ⟨false, false⟩ "<x ON-CLICK=v>" ≠ compile ⟨false, false⟩ "<x on-click=v>" := by
  have hname : ReadableName "on-click" := readableName_of_all (by decide) (by decide)
  have hname' : ReadableName "ON-CLICK" := readableName_of_all (by decide) (by decide)
  obtain ⟨valueSpan, span, htokens⟩ := exists_tokenize_loneAttribute 8
  refine ⟨_, _, htokens "on-click" hname rfl, htokens "ON-CLICK" hname' rfl,
    respelled_loneTag (by decide) valueSpan span, fun h => ?_⟩
  have hnames : Interchangeable ⟨false, false⟩ "on-click" "ON-CLICK" :=
    interchangeable_of_compile_eq hname hname' h
  exact absurd hnames (by decide)

end MustacheMarkup
