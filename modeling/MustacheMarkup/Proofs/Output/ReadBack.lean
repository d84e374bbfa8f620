import MustacheMarkup.Proofs.Attribute.Name
import MustacheMarkup.Proofs.Nesting.Machine
import MustacheMarkup.Proofs.Output.ReadTag

/-!
# Reading markup back

The markup of literal forms is read as tokens that nest as the forms do. `Literal.Legible` says what
holds of every form that a template has (`legible_of_parse`); what a template may break is in
`Literal.separate`: texts that were put together must not make anything that ends a run of text, and
no attribute `=` may give its value to the attribute before it.
-/

set_option autoImplicit false

namespace MustacheMarkup

open Output

/-! ## Forms that can be read -/

/-- An attribute as it can stand in a form: its name can be read and is final, and no mustache
starts in its value. -/
structure LegibleAttribute (a : String × String) : Prop where
  name : ReadableName a.1
  final : htmlAttributeName a.1 = a.1
  unreserved : isReserved a.1 = false
  value : braceless a.2.toList = true

/-- Whether the opening tag of a form closes an open element of a name. -/
def Literal.closes (parent : String) : Literal → Bool
  | .alone name _ _ => Vocabulary.closes name parent
  | .element name _ _ => Vocabulary.closes name parent
  | _ => false

/-- Whether a form may stand before others: not a text before a text. -/
def Literal.standsBefore : Literal → List Literal → Bool
  | .text _, .text _ :: _ => false
  | _, _ => true

mutual

/-- What holds of every form that a template has. -/
def Literal.Legible : Literal → Prop
  | .text content => content ≠ ""
  | .comment content => closesComment content
  | .alone name attributes slash =>
    Vocabulary.isPlain name = true ∧ slash = !Vocabulary.isVoid name ∧
      ∀ a ∈ attributes, LegibleAttribute a
  | .element name attributes content =>
    Vocabulary.isPlain name = true ∧ Vocabulary.isVoid name = false ∧
      (∀ a ∈ attributes, LegibleAttribute a) ∧ (∀ l ∈ content, l.closes name = false) ∧
      literalsLegible content

/-- What holds of the forms that a template has. -/
def literalsLegible : List Literal → Prop
  | [] => True
  | l :: rest => l.Legible ∧ l.standsBefore rest = true ∧ literalsLegible rest

end

mutual

/-- Whether nothing is made by putting texts together, and no attribute gives its value
to another. -/
def Literal.separate : Literal → Bool
  | .text content => inert content.toList
  | .comment _ => true
  | .alone _ attributes _ => attributesApart attributes
  | .element _ attributes content => attributesApart attributes && literalsSeparate content

/-- Whether all of some forms are separate. -/
def literalsSeparate : List Literal → Bool
  | [] => true
  | l :: rest => l.separate && literalsSeparate rest

end

/-! ## How forms are read -/

/-- The part that a form is read as. -/
inductive Literal.ReadAs : Literal → Nested → Prop where
  | text (content : String) : ReadAs (.text content) (.text content)
  | comment (content : String) : ReadAs (.comment content) (.comment content)
  | alone (name : String) {attributes : List (String × String)} (slash : Bool)
      {raws : List RawAttribute} (hattributes : List.Forall₂ RawAttribute.Reads raws attributes)
      (span : Span) :
      ReadAs (.alone name attributes slash) (.element ⟨name, raws, false, slash, false⟩ span none)
  | element (name : String) {attributes : List (String × String)} {content : List Literal}
      {raws : List RawAttribute} {parts : List Nested}
      (hattributes : List.Forall₂ RawAttribute.Reads raws attributes) (span : Span)
      (hcontent : List.Forall₂ ReadAs content parts) :
      ReadAs (.element name attributes content)
        (.element ⟨name, raws, false, false, false⟩ span (some parts))

/-- Whether a form may stand in the innermost list of a stack. -/
def Literal.fits (l : Literal) : List Frame → Bool
  | ⟨.element tag _, _⟩ :: _ => !l.closes (Text.lower tag.name)
  | _ => true

/-- Tokens are read as parts of the innermost list, whatever the stack is in which the forms may
stand. -/
def NestAs (tokens : List Token) (literals : List Literal) (parts : List Nested) : Prop :=
  ∀ s : Nesting, (∀ l ∈ literals, l.fits s.frames = true) →
    tokens.foldl Nesting.step s = ⟨s.content ++ parts, s.frames⟩

/-- What is read as parts may be read behind what is read as others. -/
theorem NestAs.append {tokens tokens' : List Token} {literals literals' : List Literal}
    {parts parts' : List Nested} (h : NestAs tokens literals parts)
    (h' : NestAs tokens' literals' parts') :
    NestAs (tokens ++ tokens') (literals ++ literals') (parts ++ parts') := by
  intro s hfits
  rw [List.foldl_append, h s fun l hl => hfits l (List.mem_append_left _ hl),
    h' ⟨s.content ++ parts, s.frames⟩ fun l hl => hfits l (List.mem_append_right _ hl),
    List.append_assoc]

/-- An opening tag that closes no sibling leaves the stack as it is. -/
theorem leaveSiblings_eq_self {name : String} {frames : List Frame}
    (h : ∀ tag span before more, frames = ⟨.element tag span, before⟩ :: more →
      Vocabulary.closes name (Text.lower tag.name) = false) (content : List Nested) :
    Nesting.leaveSiblings name content frames = ⟨content, frames⟩ := by
  unfold Nesting.leaveSiblings
  split
  · rename_i tag span before more
    rw [h tag span before more rfl, if_neg Bool.false_ne_true]
  · rfl

/-- A text is a part of the innermost list. -/
theorem nestAs_text (content : String) (span : Span) :
    NestAs [⟨.text content, span⟩] [.text content] [.text content] :=
  fun _ _ => rfl

/-- A comment is a part of the innermost list. -/
theorem nestAs_comment (content : String) (span : Span) :
    NestAs [⟨.comment content, span⟩] [.comment content] [.comment content] :=
  fun _ _ => rfl

/-- To read an opening tag closes nothing where its element fits. -/
theorem step_openingTag {tag : Tag} (hclosing : tag.closing = false) {l : Literal} {s : Nesting}
    (hl : ∀ parent, l.closes parent = Vocabulary.closes (Text.lower tag.name) parent)
    (hfits : l.fits s.frames = true) (span : Span) :
    s.step ⟨.tag tag, span⟩ =
      if tag.isAlone then s.add (.element tag span none) else s.enter (.element tag span) := by
  have hleft : Nesting.leaveSiblings (Text.lower tag.name) s.content s.frames = s := by
    refine leaveSiblings_eq_self (fun tag' span' before more hframes => ?_) s.content
    rw [hframes, Literal.fits, Bool.not_eq_true', hl] at hfits
    exact hfits
  unfold Nesting.step Nesting.openTag
  dsimp only
  rw [hclosing, if_neg Bool.false_ne_true, hleft]

section

variable {name : String} (attributes : List (String × String)) {raws : List RawAttribute}

/-- The tag of a form that stands alone is a part. It has a slash exactly if its element is not
void. -/
theorem nestAs_alone {slash : Bool} (hname : Text.lower name = name)
    (hslash : slash = !Vocabulary.isVoid name) (span : Span) :
    NestAs [⟨.tag ⟨name, raws, false, slash, false⟩, span⟩] [.alone name attributes slash]
      [.element ⟨name, raws, false, slash, false⟩ span none] := by
  intro s hfits
  have hstep := @step_openingTag ⟨name, raws, false, slash, false⟩ rfl
    (.alone name attributes slash) s (fun parent => by simp only [Literal.closes, hname])
    (hfits _ List.mem_cons_self) span
  have halone : Tag.isAlone ⟨name, raws, false, slash, false⟩ = true := by
    simp [Tag.isAlone, hname, hslash]
  rw [List.foldl_cons, List.foldl_nil, hstep, if_pos halone]
  rfl

/-- An opening tag, what is read as its content, and the closing tag are one part. The content
closes nothing, so the closing tag finds the element open. -/
theorem nestAs_element {tokens : List Token} {content : List Literal} {parts : List Nested}
    (hname : Text.lower name = name) (hvoid : Vocabulary.isVoid name = false)
    (hcloses : ∀ l ∈ content, l.closes name = false) (h : NestAs tokens content parts)
    (span span' : Span) :
    NestAs ([⟨.tag ⟨name, raws, false, false, false⟩, span⟩] ++
        (tokens ++ [⟨.tag ⟨name, [], true, false, false⟩, span'⟩]))
      [.element name attributes content]
      [.element ⟨name, raws, false, false, false⟩ span (some parts)] := by
  intro s hfits
  have hstep := @step_openingTag ⟨name, raws, false, false, false⟩ rfl
    (.element name attributes content) s (fun parent => by simp only [Literal.closes, hname])
    (hfits _ List.mem_cons_self) span
  have halone : Tag.isAlone ⟨name, raws, false, false, false⟩ = false := by
    simp [Tag.isAlone, hname, hvoid]
  rw [List.singleton_append, List.foldl_cons, hstep, halone, if_neg Bool.false_ne_true,
    List.foldl_append, h _ fun l hl => ?_]
  · simp [Nesting.step, Nesting.enter, Nesting.leaveElement, hname]
  · simp [Nesting.enter, Literal.fits, hname, hcloses l hl]

end

/-! ## Reading tokens -/

/-- What is left is read as tokens, and then as what is left later. -/
def Source.Reads (src : Source) (tokens : List Token) (later : Source) : Prop :=
  src.tokens = later.tokens.map (tokens ++ ·)

/-- Nothing is read of nothing. -/
theorem Source.reads_nil (src : Source) : src.Reads [] src := by
  unfold Source.Reads
  cases src.tokens <;> rfl

/-- Tokens are read one after the other. -/
theorem Source.Reads.append {src later last : Source} {tokens tokens' : List Token}
    (h : src.Reads tokens later) (h' : later.Reads tokens' last) :
    src.Reads (tokens ++ tokens') last := by
  unfold Source.Reads at h h' ⊢
  rw [h, h']
  cases last.tokens with
  | error e => rfl
  | ok more => simp [Except.map]

/-- The token that is read next, with the place where it stands. -/
theorem Source.reads_of_scanNext {src later : Source} {lexeme : Lexeme} {c : Char}
    {rest : List Char} (hsrc : src.rest = c :: rest) (h : scanNext src = .ok (lexeme, later)) :
    src.Reads [⟨lexeme, src.spanTo later⟩] later :=
  scanAll_of_scan (by rw [hsrc]; exact List.cons_ne_nil c rest) h

/-! ## Names of plain elements -/

/-- The names of plain elements are in lower case and can be read behind `<`, entry by entry. -/
theorem lower_of_mem_plainElements : ∀ name ∈ Vocabulary.plainElements, Text.lower name = name ∧
    name.toList.all isTagNameChar = true ∧ name.toList.head?.any Char.isAlpha = true := by
  decide +kernel

/-- A plain name is in lower case. -/
theorem lower_of_isPlain {name : String} (h : Vocabulary.isPlain name = true) :
    Text.lower name = name :=
  (lower_of_mem_plainElements name (List.contains_iff_mem.mp h)).1

/-- A plain name can be read behind `<`. -/
theorem readableTagName_of_isPlain {name : String} (h : Vocabulary.isPlain name = true) :
    ReadableTagName name := by
  obtain ⟨-, hchars, hhead⟩ := lower_of_mem_plainElements name (List.contains_iff_mem.mp h)
  refine ⟨List.all_eq_true.mp hchars, ?_⟩
  cases hname : name.toList with
  | nil =>
    rw [hname] at hhead
    cases hhead
  | cons c s =>
    rw [hname] at hhead
    exact ⟨c, s, rfl, hhead⟩

/-! ## Reading forms -/

/-- The markup of a form that is no text starts so that a text before it ends: with a comment or
with a tag, whatever follows. -/
theorem endsRun_markup {l : Literal} (hl : l.Legible) (hlt : ∀ content, l ≠ .text content)
    (rest : List Char) : endsRun (l.markup.toList ++ rest) = true := by
  have htag : ∀ {name : String}, Vocabulary.isPlain name = true → ∀ more : List Char,
      endsRun ('<' :: (name.toList ++ more)) = true := by
    intro name hname more
    obtain ⟨-, c, s, hcs, hc⟩ := readableTagName_of_isPlain hname
    have hstart : startsTag ('<' :: (name.toList ++ more)) = true := by
      rw [hcs]
      exact startsTag_iff.mpr ⟨[], c, s ++ more, by simp, hc, by simp⟩
    simp [endsRun, endsText, hstart]
  cases l with
  | text content => exact absurd rfl (hlt content)
  | comment content =>
    simp [Literal.markup, endsRun, endsText, startsComment, List.isPrefixOf]
  | alone name attributes slash =>
    rw [Literal.markup, toList_openingTag, List.cons_append, List.append_assoc]
    exact htag hl.1 _
  | element name attributes content =>
    rw [Literal.markup, String.toList_append, toList_openingTag, List.append_assoc,
      List.cons_append, List.append_assoc]
    exact htag hl.1 _

/-- Behind a form, what follows it in a list starts so that a text ends. -/
theorem endsRun_literalsMarkup {l : Literal} {literals : List Literal}
    (h : literalsLegible literals) (hbefore : l.standsBefore literals = true) {content : String}
    (hl : l = .text content) {rest : List Char} (hrest : endsRun rest = true) :
    endsRun ((literalsMarkup literals).toList ++ rest) = true := by
  subst hl
  cases literals with
  | nil => exact hrest
  | cons l' more =>
    rw [literalsMarkup, String.toList_append, List.append_assoc]
    refine endsRun_markup h.1 (fun content' hl' => ?_) _
    subst hl'
    cases hbefore

/-- Legible attributes have names that can be read, and no mustache starts in their values. -/
theorem LegibleAttribute.readable {attributes : List (String × String)}
    (h : ∀ a ∈ attributes, LegibleAttribute a) :
    ∀ a ∈ attributes, ReadableName a.1 ∧ braceless a.2.toList = true :=
  fun a ha => ⟨(h a ha).name, (h a ha).value⟩

mutual

/-- The markup of a form is read as tokens that nest as the form does. What follows has to end a run
of text only if the form is a text, because all others end with a bracket of their own. -/
theorem reads_markup : ∀ (l : Literal) (src : Source) (rest : List Char), l.Legible →
    l.separate = true → src.rest = l.markup.toList ++ rest →
    ((∃ content, l = .text content) → endsRun rest = true) →
    ∃ tokens later part, src.Reads tokens later ∧ later.rest = rest ∧ l.ReadAs part ∧
      NestAs tokens [l] [part]
  | .text content, src, rest, hl, hseparate, hsrc, hrest => by
    obtain ⟨later, hscan, hlater⟩ :=
      scanNext_text hsrc hl hseparate (hrest ⟨content, rfl⟩)
    obtain ⟨c, s, hcs⟩ :=
      List.exists_cons_of_ne_nil fun hnil => hl (String.toList_eq_nil_iff.mp hnil)
    rw [Literal.markup, hcs] at hsrc
    exact ⟨_, later, _, Source.reads_of_scanNext hsrc hscan, hlater, .text content,
      nestAs_text content _⟩
  | .comment content, src, rest, hl, hseparate, hsrc, hrest => by
    obtain ⟨later, hscan, hlater⟩ := scanNext_comment hsrc hl
    have hcons : src.rest = '<' :: (src.rest.drop 1) := by
      rw [hsrc, Literal.markup]
      simp
    exact ⟨_, later, _, Source.reads_of_scanNext hcons hscan, hlater, .comment content,
      nestAs_comment content _⟩
  | .alone name attributes slash, src, rest, hl, hseparate, hsrc, hrest => by
    obtain ⟨hplain, hslash, hattributes⟩ := hl
    obtain ⟨raws, later, hscan, hlater, hreads⟩ := scanNext_openingTag hsrc
      (readableTagName_of_isPlain hplain) (LegibleAttribute.readable hattributes) hseparate
    rw [Bool.not_not, Bool.and_true] at hscan
    rw [Literal.markup, toList_openingTag, List.cons_append] at hsrc
    exact ⟨_, later, _, Source.reads_of_scanNext hsrc hscan, hlater, .alone name slash hreads _,
      nestAs_alone attributes (lower_of_isPlain hplain) hslash _⟩
  | .element name attributes content, src, rest, hl, hseparate, hsrc, hrest => by
    obtain ⟨hplain, hvoid, hattributes, hcloses, hcontent⟩ := hl
    rw [Literal.separate, Bool.and_eq_true] at hseparate
    have hname := readableTagName_of_isPlain hplain
    rw [Literal.markup, String.toList_append, List.append_assoc] at hsrc
    obtain ⟨raws, inner, hscan, hinner, hreads⟩ := scanNext_openingTag hsrc hname
      (LegibleAttribute.readable hattributes) hseparate.1
    rw [String.append_assoc, String.append_assoc, String.toList_append, List.append_assoc,
      ← String.append_assoc] at hinner
    have hclose : endsRun (("</" ++ name ++ ">").toList ++ rest) = true := by
      obtain ⟨-, c, s, hcs, hc⟩ := hname
      have hstart : startsTag ('<' :: '/' :: (name.toList ++ '>' :: rest)) = true := by
        rw [hcs]
        exact startsTag_iff.mpr ⟨['/'], c, s ++ '>' :: rest, by simp, hc, by simp⟩
      simp [endsRun, endsText, hstart]
    obtain ⟨tokens, outer, parts, hread, houter, hparts, hnest⟩ :=
      reads_literalsMarkup content inner _ hcontent hseparate.2 hinner hclose
    obtain ⟨later, hscan', hlater⟩ := scanNext_closingTag houter hname
    have hsrc' : src.rest = '<' :: src.rest.drop 1 := by
      rw [hsrc, toList_openingTag]
      rfl
    have houter' : outer.rest = '<' :: outer.rest.drop 1 := by
      rw [houter]
      simp
    exact ⟨_, later, _, (Source.reads_of_scanNext hsrc' hscan).append
        (hread.append (Source.reads_of_scanNext houter' hscan')), hlater,
      .element name hreads _ hparts,
      nestAs_element attributes (lower_of_isPlain hplain) hvoid hcloses hnest _ _⟩

/-- The markup of forms is read as tokens that nest as the forms do. They are separate, so each text
ends where the next form starts. -/
theorem reads_literalsMarkup : ∀ (literals : List Literal) (src : Source) (rest : List Char),
    literalsLegible literals → literalsSeparate literals = true →
    src.rest = (literalsMarkup literals).toList ++ rest → endsRun rest = true →
    ∃ tokens later parts, src.Reads tokens later ∧ later.rest = rest ∧
      List.Forall₂ Literal.ReadAs literals parts ∧ NestAs tokens literals parts
  | [], src, rest, _, _, hsrc, _ =>
    ⟨[], src, [], src.reads_nil, hsrc, .nil, fun s _ => by rw [List.append_nil]; rfl⟩
  | l :: literals, src, rest, hlegible, hseparate, hsrc, hrest => by
    obtain ⟨hl, hbefore, hliterals⟩ := hlegible
    rw [literalsSeparate, Bool.and_eq_true] at hseparate
    rw [literalsMarkup, String.toList_append, List.append_assoc] at hsrc
    obtain ⟨tokens, later, part, hread, hlater, hpart, hnest⟩ := reads_markup l src _ hl hseparate.1
      hsrc fun ⟨content, hcontent⟩ => endsRun_literalsMarkup hliterals hbefore hcontent hrest
    obtain ⟨tokens', last, parts, hread', hlast, hparts, hnest'⟩ :=
      reads_literalsMarkup literals later rest hliterals hseparate.2 hlater hrest
    exact ⟨tokens ++ tokens', last, part :: parts, hread.append hread', hlast,
      .cons hpart hparts, hnest.append hnest'⟩

end

end MustacheMarkup
