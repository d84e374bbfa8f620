import MustacheMarkup.Proofs.Nesting.Closing

/-!
# Which elements have content

An element has content, be it an empty list, unless its opening tag closes itself or is that of an
element that never has any. So the parts that the stack machine finds say no more about content than
their opening tags do.
-/

set_option autoImplicit false

namespace MustacheMarkup

mutual

/-- The elements in a part have content, unless they stand alone. -/
def Nested.Complete : Nested → Prop
  | .block _ _ content => partsComplete content
  | .element tag _ none => tag.isAlone = true
  | .element tag _ (some content) => tag.isAlone = false ∧ partsComplete content
  | _ => True

/-- The elements in parts have content, unless they stand alone. -/
def partsComplete : List Nested → Prop
  | [] => True
  | n :: rest => n.Complete ∧ partsComplete rest

end

/-- One more complete part behind complete parts. -/
theorem partsComplete_concat {parts : List Nested} {n : Nested} (h : partsComplete parts)
    (hn : n.Complete) : partsComplete (parts ++ [n]) := by
  induction parts with
  | nil => exact ⟨hn, trivial⟩
  | cons n' rest ih => exact ⟨h.1, ih h.2⟩

namespace Nesting

/-- What an opening opens may have content. -/
def HasContent : Opening → Prop
  | .block _ _ => True
  | .element tag _ => tag.isAlone = false

/-- Everything that has been read has content or stands alone, and what is open has content. -/
structure IsComplete (s : Nesting) : Prop where
  content : partsComplete s.content
  frames : ∀ f ∈ s.frames, partsComplete f.before ∧ HasContent f.opening

/-- What is closed with complete content is complete, since only what may have content is ever
opened. -/
theorem complete_nested {o : Opening} (ho : HasContent o) {content : List Nested}
    (h : partsComplete content) : (o.nested content).Complete := by
  cases o with
  | block reference inverted => exact h
  | element tag span => exact ⟨ho, h⟩

/-- To close what is innermost keeps everything complete. -/
theorem IsComplete.closing {s s' : Nesting} (h : s.IsComplete) (hclosing : Closing s s') :
    s'.IsComplete := by
  refine hclosing.preserves (fun content f frames hopen => ?_) h
  obtain ⟨hcontent, hframes⟩ := hopen
  obtain ⟨⟨hbefore, hopening⟩, hframes⟩ := List.forall_mem_cons.mp hframes
  exact ⟨partsComplete_concat hbefore (complete_nested hopening hcontent), hframes⟩

/-- A complete part may be added. -/
theorem IsComplete.add {s : Nesting} (h : s.IsComplete) {n : Nested} (hn : n.Complete) :
    (s.add n).IsComplete :=
  ⟨partsComplete_concat h.content hn, h.frames⟩

/-- What may have content may be opened. -/
theorem IsComplete.enter {s : Nesting} (h : s.IsComplete) {o : Opening} (ho : HasContent o) :
    (s.enter o).IsComplete :=
  ⟨trivial, List.forall_mem_cons.mpr ⟨⟨h.content, ho⟩, h.frames⟩⟩

/-- An opening tag adds an element that stands alone, or opens one that may have content. -/
theorem IsComplete.openTag {s : Nesting} (h : s.IsComplete) (tag : Tag) (span : Span) :
    (s.openTag tag span).IsComplete := by
  have hleft := h.closing (closing_leaveSiblings (Text.lower tag.name) s.content s.frames)
  unfold Nesting.openTag
  dsimp only
  split
  · rename_i halone
    exact hleft.add halone
  · rename_i halone
    exact hleft.enter (Bool.eq_false_iff.mpr halone)

/-- Every token keeps everything complete: it adds a part that is complete, opens something, or
closes what is open, which is complete by then. -/
theorem IsComplete.step {s : Nesting} (h : s.IsComplete) (t : Token) : (s.step t).IsComplete := by
  obtain ⟨lexeme, span⟩ := t
  cases lexeme with
  | text content => exact h.add trivial
  | comment content => exact h.add trivial
  | mustache kind reference =>
    cases kind with
    | interpolation => exact h.add trivial
    | unescaped => exact h.add trivial
    | inclusion => exact h.add trivial
    | opening => exact h.enter trivial
    | inverted => exact h.enter trivial
    | closing => exact h.closing (closing_leaveBlock s.content s.frames)
    | remark => exact h
  | tag tag =>
    simp only [Nesting.step]
    split
    · exact h.closing (closing_leaveElement _ s.content s.frames)
    · exact h.openTag tag span

/-- The elements of a template have content, unless they stand alone. -/
theorem complete_ofTokens (tokens : List Token) : partsComplete (ofTokens tokens) := by
  have hfold : ∀ (tokens : List Token) (s : Nesting), s.IsComplete →
      (tokens.foldl Nesting.step s).IsComplete := by
    intro tokens
    induction tokens with
    | nil => exact fun s h => h
    | cons t rest ih => exact fun s h => ih _ (h.step t)
  have hempty : empty.IsComplete := ⟨trivial, List.forall_mem_nil _⟩
  exact ((hfold (joinTexts tokens) empty hempty).closing (closing_leaveAll _ _)).content

end Nesting

end MustacheMarkup
