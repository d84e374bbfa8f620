import Mathlib.Data.List.Forall2
import MustacheMarkup.Proofs.Nesting.Machine

/-!
# How the nesting depends on tags

The machine looks at the name of a tag in lower case and at its slashes only. So if tags are
replaced by others that agree in these (`Tag.NestsLike`), tokens nest as before, with the new tags
in place of the old ones (`related_ofTokens`).
-/

set_option autoImplicit false

namespace MustacheMarkup

/-- Two tags are the same to the machine. -/
structure Tag.NestsLike (tag tag' : Tag) : Prop where
  lower : Text.lower tag'.name = Text.lower tag.name
  closing : tag'.closing = tag.closing
  selfClosing : tag'.selfClosing = tag.selfClosing

/-- Two tags are the same but for what stands behind their names. -/
structure Tag.SameOutside (tag tag' : Tag) : Prop where
  name : tag'.name = tag.name
  closing : tag'.closing = tag.closing
  selfClosing : tag'.selfClosing = tag.selfClosing
  doctype : tag'.doctype = tag.doctype

/-- Tags that are the same but for what stands behind their names are the same to the machine. -/
theorem Tag.SameOutside.nestsLike {tag tag' : Tag} (h : tag.SameOutside tag') :
    tag.NestsLike tag' :=
  ⟨congrArg Text.lower h.name, h.closing, h.selfClosing⟩

/-- Two lexemes are the same, or tags that `R` relates. -/
inductive Lexeme.Related (R : Tag → Tag → Prop) : Lexeme → Lexeme → Prop where
  | text (content : String) : Lexeme.Related R (.text content) (.text content)
  | comment (content : String) : Lexeme.Related R (.comment content) (.comment content)
  | mustache (kind : MustacheKind) (reference : String) :
      Lexeme.Related R (.mustache kind reference) (.mustache kind reference)
  | tag {tag tag' : Tag} (h : R tag tag') : Lexeme.Related R (.tag tag) (.tag tag')

/-- Two tokens at one place are the same, or tags that `R` relates. -/
structure Token.Related (R : Tag → Tag → Prop) (t t' : Token) : Prop where
  lexeme : t.lexeme.Related R t'.lexeme
  span : t'.span = t.span

/-- Two parts are the same but for their tags, which `R` relates. -/
inductive Nested.Related (R : Tag → Tag → Prop) : Nested → Nested → Prop where
  | text (content : String) : Nested.Related R (.text content) (.text content)
  | mustache (escaped : Bool) (reference : String) :
      Nested.Related R (.mustache escaped reference) (.mustache escaped reference)
  | block (reference : String) (inverted : Bool) {content content' : List Nested}
      (h : List.Forall₂ (Nested.Related R) content content') :
      Nested.Related R (.block reference inverted content) (.block reference inverted content')
  | inclusion (name : String) : Nested.Related R (.inclusion name) (.inclusion name)
  | comment (content : String) : Nested.Related R (.comment content) (.comment content)
  | alone {tag tag' : Tag} (h : R tag tag') (span : Span) :
      Nested.Related R (.element tag span none) (.element tag' span none)
  | element {tag tag' : Tag} (h : R tag tag') (span : Span) {content content' : List Nested}
      (hcontent : List.Forall₂ (Nested.Related R) content content') :
      Nested.Related R (.element tag span (some content)) (.element tag' span (some content'))

/-- Two openings are the same but for their tags, which `R` relates. -/
inductive Opening.Related (R : Tag → Tag → Prop) : Opening → Opening → Prop where
  | block (reference : String) (inverted : Bool) :
      Opening.Related R (.block reference inverted) (.block reference inverted)
  | element {tag tag' : Tag} (h : R tag tag') (span : Span) :
      Opening.Related R (.element tag span) (.element tag' span)

/-- Two frames are the same but for their tags, which `R` relates. -/
structure Frame.Related (R : Tag → Tag → Prop) (f f' : Frame) : Prop where
  opening : f.opening.Related R f'.opening
  before : List.Forall₂ (Nested.Related R) f.before f'.before

/-- What is closed on both sides is related if what was opened is, and the content. -/
theorem Opening.Related.nested {R : Tag → Tag → Prop} {o o' : Opening} (h : o.Related R o')
    {content content' : List Nested}
    (hcontent : List.Forall₂ (Nested.Related R) content content') :
    (o.nested content).Related R (o'.nested content') := by
  cases h with
  | block reference inverted => exact .block reference inverted hcontent
  | element h span => exact .element h span hcontent

/-- Related tokens have the same text, or none. -/
theorem Token.Related.text?_eq {R : Tag → Tag → Prop} {t t' : Token} (h : t.Related R t') :
    t'.text? = t.text? := by
  obtain ⟨lexeme, span⟩ := t
  obtain ⟨lexeme', span'⟩ := t'
  obtain ⟨hlexeme, -⟩ := h
  cases hlexeme <;> rfl

namespace Nesting

/-- Two nestings are the same but for their tags, which `R` relates. -/
structure Related (R : Tag → Tag → Prop) (s s' : Nesting) : Prop where
  content : List.Forall₂ (Nested.Related R) s.content s'.content
  frames : List.Forall₂ (Frame.Related R) s.frames s'.frames

section

variable {R : Tag → Tag → Prop}

/-- One more pair of related parts behind others. -/
theorem forall₂_concat {before before' : List Nested} {n n' : Nested}
    (h : List.Forall₂ (Nested.Related R) before before') (hn : n.Related R n') :
    List.Forall₂ (Nested.Related R) (before ++ [n]) (before' ++ [n']) :=
  List.rel_append h (.cons hn .nil)

/-- Related parts may be added on both sides. -/
theorem Related.add {s s' : Nesting} {n n' : Nested} (h : s.Related R s') (hn : n.Related R n') :
    (s.add n).Related R (s'.add n') :=
  ⟨forall₂_concat h.content hn, h.frames⟩

/-- Related openings may be opened on both sides. -/
theorem Related.enter {s s' : Nesting} {o o' : Opening} (h : s.Related R s')
    (ho : o.Related R o') : (s.enter o).Related R (s'.enter o') :=
  ⟨.nil, .cons ⟨ho, h.content⟩ h.frames⟩

/-- All that is open is closed on both sides. -/
theorem related_leaveAll {content content' : List Nested} {frames frames' : List Frame}
    (hcontent : List.Forall₂ (Nested.Related R) content content')
    (hframes : List.Forall₂ (Frame.Related R) frames frames') :
    List.Forall₂ (Nested.Related R) (leaveAll content frames) (leaveAll content' frames') := by
  induction hframes generalizing content content' with
  | nil => exact hcontent
  | cons hf _ ih =>
    rw [leaveAll, leaveAll]
    exact ih (forall₂_concat hf.before (hf.opening.nested hcontent))

variable (hR : ∀ tag tag', R tag tag' → tag.NestsLike tag')

include hR

/-- The same siblings are left on both sides, because the machine sees only what related tags have
in common. -/
theorem related_leaveSiblings (name : String) {content content' : List Nested}
    {frames frames' : List Frame} (hcontent : List.Forall₂ (Nested.Related R) content content')
    (hframes : List.Forall₂ (Frame.Related R) frames frames') :
    (leaveSiblings name content frames).Related R (leaveSiblings name content' frames') := by
  induction hframes generalizing content content' with
  | nil => exact ⟨hcontent, .nil⟩
  | @cons f f' frames frames' hf hframes ih =>
    obtain ⟨opening, before⟩ := f
    obtain ⟨opening', before'⟩ := f'
    obtain ⟨hopening, hbefore⟩ := hf
    cases hopening with
    | block reference inverted =>
      exact ⟨hcontent, .cons ⟨.block reference inverted, hbefore⟩ hframes⟩
    | element h span =>
      rw [leaveSiblings, leaveSiblings, (hR _ _ h).lower]
      split
      · exact ih (forall₂_concat hbefore (.element h span hcontent))
      · exact ⟨hcontent, .cons ⟨.element h span, hbefore⟩ hframes⟩

/-- The same elements are left on both sides. Related tags have the same name in lower case, and
nothing else decides which elements a closing tag ends. -/
theorem related_leaveElement (name : String) {content content' : List Nested}
    {frames frames' : List Frame} (hcontent : List.Forall₂ (Nested.Related R) content content')
    (hframes : List.Forall₂ (Frame.Related R) frames frames') :
    (leaveElement name content frames).Related R (leaveElement name content' frames') := by
  induction hframes generalizing content content' with
  | nil => exact ⟨hcontent, .nil⟩
  | @cons f f' frames frames' hf hframes ih =>
    obtain ⟨opening, before⟩ := f
    obtain ⟨opening', before'⟩ := f'
    obtain ⟨hopening, hbefore⟩ := hf
    cases hopening with
    | block reference inverted =>
      exact ⟨hcontent, .cons ⟨.block reference inverted, hbefore⟩ hframes⟩
    | element h span =>
      have hclosed := forall₂_concat hbefore (.element h span hcontent)
      rw [leaveElement, leaveElement, (hR _ _ h).lower]
      split
      · exact ⟨hclosed, hframes⟩
      · exact ih hclosed

omit hR in
/-- The same sections are left on both sides. -/
theorem related_leaveBlock {content content' : List Nested}
    {frames frames' : List Frame} (hcontent : List.Forall₂ (Nested.Related R) content content')
    (hframes : List.Forall₂ (Frame.Related R) frames frames') :
    (leaveBlock content frames).Related R (leaveBlock content' frames') := by
  induction hframes generalizing content content' with
  | nil => exact ⟨hcontent, .nil⟩
  | @cons f f' frames frames' hf hframes ih =>
    obtain ⟨opening, before⟩ := f
    obtain ⟨opening', before'⟩ := f'
    obtain ⟨hopening, hbefore⟩ := hf
    cases hopening with
    | block reference inverted =>
      exact ⟨forall₂_concat hbefore (.block reference inverted hcontent), hframes⟩
    | element h span => exact ih (forall₂_concat hbefore (.element h span hcontent))

/-- Related opening tags do the same on both sides: they close the same siblings and then stand
alone or are opened. -/
theorem Related.openTag {s s' : Nesting} {tag tag' : Tag} (h : s.Related R s') (htag : R tag tag')
    (span : Span) : (s.openTag tag span).Related R (s'.openTag tag' span) := by
  have hleft := related_leaveSiblings hR (Text.lower tag.name) h.content h.frames
  have halone : tag'.isAlone = tag.isAlone := by
    rw [Tag.isAlone, Tag.isAlone, (hR _ _ htag).lower, (hR _ _ htag).selfClosing]
  unfold Nesting.openTag
  rw [halone, (hR _ _ htag).lower]
  dsimp only
  split
  · exact hleft.add (.alone htag span)
  · exact hleft.enter (.element htag span)

/-- One token, and one that differs at most in its tag, lead from related nestings to
related ones. -/
theorem Related.step {s s' : Nesting} {t t' : Token} (h : s.Related R s') (ht : t.Related R t') :
    (s.step t).Related R (s'.step t') := by
  obtain ⟨lexeme, span⟩ := t
  obtain ⟨lexeme', span'⟩ := t'
  obtain ⟨hlexeme, rfl⟩ := ht
  cases hlexeme with
  | text content => exact h.add (.text content)
  | comment content => exact h.add (.comment content)
  | mustache kind reference =>
    cases kind with
    | interpolation => exact h.add (.mustache true reference)
    | unescaped => exact h.add (.mustache false reference)
    | inclusion => exact h.add (.inclusion reference)
    | remark => exact h
    | opening => exact h.enter (.block reference false)
    | inverted => exact h.enter (.block reference true)
    | closing => exact related_leaveBlock h.content h.frames
  | @tag tag tag' htag =>
    unfold Nesting.step
    dsimp only
    rw [(hR _ _ htag).closing, (hR _ _ htag).lower]
    split
    · exact related_leaveElement hR (Text.lower tag.name) h.content h.frames
    · exact h.openTag hR htag _

omit hR in
/-- To put texts together is no matter of tags. Related tokens that are no tags are equal, so runs
of texts start and end together. -/
theorem related_joinTexts {tokens tokens' : List Token}
    (h : List.Forall₂ (Token.Related R) tokens tokens') :
    List.Forall₂ (Token.Related R) (joinTexts tokens) (joinTexts tokens') := by
  induction h with
  | nil => exact .nil
  | @cons t t' rest rest' ht hrest ih =>
    have hspan := ht.span
    have htext := ht.text?_eq
    rw [joinTexts, joinTexts, htext, hspan]
    generalize joinTexts rest = joined at ih
    generalize joinTexts rest' = joined' at ih
    cases t.text? with
    | none => exact .cons ht ih
    | some content =>
      cases ih with
      | nil => exact .cons ht .nil
      | @cons u u' more more' hu hmore =>
        obtain ⟨lexeme, span⟩ := u
        obtain ⟨lexeme', span'⟩ := u'
        obtain ⟨hlexeme, rfl⟩ := hu
        cases hlexeme with
        | text content' => exact .cons ⟨.text (content ++ content'), rfl⟩ hmore
        | comment content' => exact .cons ht (.cons ⟨.comment content', rfl⟩ hmore)
        | mustache kind reference => exact .cons ht (.cons ⟨.mustache kind reference, rfl⟩ hmore)
        | tag htag => exact .cons ht (.cons ⟨.tag htag, rfl⟩ hmore)

/-- Tokens that differ at most in their tags nest in the same way. -/
theorem related_ofTokens {tokens tokens' : List Token}
    (h : List.Forall₂ (Token.Related R) tokens tokens') :
    List.Forall₂ (Nested.Related R) (ofTokens tokens) (ofTokens tokens') := by
  have hrun : ∀ {tokens tokens' : List Token} {s s' : Nesting},
      List.Forall₂ (Token.Related R) tokens tokens' → s.Related R s' →
      (tokens.foldl Nesting.step s).Related R (tokens'.foldl Nesting.step s') := by
    intro tokens tokens' s s' h hs
    induction h generalizing s s' with
    | nil => exact hs
    | cons ht _ ih => exact ih (hs.step hR ht)
  have hempty : empty.Related R empty := ⟨.nil, .nil⟩
  have hend := hrun (related_joinTexts h) hempty
  exact related_leaveAll hend.content hend.frames

end

end Nesting

end MustacheMarkup
