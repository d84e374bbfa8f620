import MustacheMarkup.Proofs.Nesting.Listing

/-!
# No element closes the one that it stands in

An opening tag closes the open elements that it may not stand in before its own element is opened or
added. So nothing that stands in an element closes it. Sections are no obstacle for that: what
stands in a section may stand there whatever the section stands in.
-/

set_option autoImplicit false

namespace MustacheMarkup

/-- Whether the opening tag of a part closes an open element of a name. -/
def Nested.closes (parent : String) : Nested → Bool
  | .element tag _ _ => Vocabulary.closes (Text.lower tag.name) parent
  | _ => false

mutual

/-- No element in a part closes the one that it stands in. -/
def Nested.Fitting : Nested → Prop
  | .block _ _ content => partsFitting content
  | .element tag _ (some content) =>
    (∀ n ∈ content, n.closes (Text.lower tag.name) = false) ∧ partsFitting content
  | _ => True

/-- No element in parts closes the one that it stands in. -/
def partsFitting : List Nested → Prop
  | [] => True
  | n :: rest => n.Fitting ∧ partsFitting rest

end

/-- Two lists of parts fit exactly if they fit together. -/
theorem partsFitting_append {parts parts' : List Nested} :
    partsFitting (parts ++ parts') ↔ partsFitting parts ∧ partsFitting parts' := by
  induction parts with
  | nil => simp [partsFitting]
  | cons n rest ih => rw [List.cons_append, partsFitting, partsFitting, ih, and_assoc]

namespace Nesting

/-- The element whose content the innermost list is, if it is that of an element. -/
def parent? : List Frame → Option String
  | ⟨.element tag _, _⟩ :: _ => some (Text.lower tag.name)
  | _ => none

/-- Parts that may stand in the innermost list. -/
def Stand (frames : List Frame) (parts : List Nested) : Prop :=
  (∀ parent ∈ parent? frames, ∀ n ∈ parts, n.closes parent = false) ∧ partsFitting parts

/-- One more part may stand in the innermost list if it does not close the element around it. -/
theorem Stand.concat {frames : List Frame} {parts : List Nested} {n : Nested}
    (h : Stand frames parts) (hcloses : ∀ parent ∈ parent? frames, n.closes parent = false)
    (hn : n.Fitting) : Stand frames (parts ++ [n]) := by
  refine ⟨fun parent hparent => ?_, partsFitting_append.mpr ⟨h.2, hn, trivial⟩⟩
  exact List.forall_mem_append.mpr
    ⟨h.1 parent hparent, List.forall_mem_singleton.mpr (hcloses parent hparent)⟩

/-- What stands before an open element or section may stand there, and so may what is open. -/
def FramesFit : List Frame → Prop
  | [] => True
  | f :: frames => Stand frames f.before ∧
    (∀ parent ∈ parent? frames, ∀ content, (f.opening.nested content).closes parent = false) ∧
    FramesFit frames

/-- Everything that has been read stands where it may. -/
def Fits (s : Nesting) : Prop :=
  Stand s.frames s.content ∧ FramesFit s.frames

/-- What is closed fits, because its content stood where it may. -/
theorem fitting_nested {f : Frame} {frames : List Frame} {content : List Nested}
    (h : Stand (f :: frames) content) : (f.opening.nested content).Fitting := by
  obtain ⟨⟨reference, inverted⟩ | ⟨tag, span⟩, before⟩ := f
  · exact h.2
  · exact ⟨h.1 (Text.lower tag.name) rfl, h.2⟩

/-- To close something leaves everything where it may stand. -/
theorem fits_closed {content : List Nested} {f : Frame} {frames : List Frame}
    (h : Fits ⟨content, f :: frames⟩) :
    Fits ⟨f.before ++ [f.opening.nested content], frames⟩ := by
  obtain ⟨hcontent, hbefore, hopening, hframes⟩ := h
  refine ⟨hbefore.concat (fun parent hparent => ?_) (fitting_nested hcontent), hframes⟩
  exact hopening parent hparent content

/-- To close what is innermost keeps everything where it may stand. -/
theorem Fits.closing {s s' : Nesting} (h : s.Fits) (hclosing : Closing s s') : s'.Fits :=
  hclosing.preserves (P := Fits) (fun _ _ _ => fits_closed) h

/-- What an opening tag leaves open it does not close. -/
theorem closes_leaveSiblings (name : String) (content : List Nested) (frames : List Frame) :
    ∀ parent ∈ parent? (leaveSiblings name content frames).frames,
      Vocabulary.closes name parent = false := by
  fun_induction leaveSiblings name content frames with
  | case1 content tag span before frames hcloses ih => exact ih
  | case2 content tag span before frames hcloses =>
    intro parent hparent
    cases hparent
    exact Bool.eq_false_iff.mpr hcloses
  | case3 content frames hne =>
    intro parent hparent
    obtain _ | ⟨⟨⟨reference, inverted⟩ | ⟨tag, span⟩, before⟩, frames⟩ := frames
    · cases hparent
    · cases hparent
    · exact (hne tag span before frames rfl).elim

/-- A part may be added if it does not close the element around it. -/
theorem fits_add {n : Nested} {s : Nesting} (h : s.Fits)
    (hcloses : ∀ parent ∈ parent? s.frames, n.closes parent = false) (hn : n.Fitting) :
    (s.add n).Fits :=
  ⟨h.1.concat hcloses hn, h.2⟩

/-- Something may be opened if it does not close the element around it. -/
theorem fits_enter {o : Opening} {s : Nesting} (h : s.Fits)
    (hcloses : ∀ parent ∈ parent? s.frames, ∀ content, (o.nested content).closes parent = false) :
    (s.enter o).Fits :=
  ⟨⟨fun _ _ _ hn => absurd hn List.not_mem_nil, trivial⟩, h.1, hcloses, h.2⟩

/-- An opening tag first closes the siblings that it ends, so what it opens stands where it may. -/
theorem fits_openTag {s : Nesting} (h : s.Fits) (tag : Tag) (span : Span) :
    (s.openTag tag span).Fits := by
  have hleft := h.closing (closing_leaveSiblings (Text.lower tag.name) s.content s.frames)
  have hcloses := closes_leaveSiblings (Text.lower tag.name) s.content s.frames
  unfold openTag
  dsimp only
  split
  · exact fits_add hleft hcloses trivial
  · exact fits_enter hleft fun parent hparent content => hcloses parent hparent

/-- Every token keeps everything where it may stand. A tag is opened only after the elements that it
closes were left, so it never stands directly in one of these. -/
theorem fits_step {s : Nesting} (h : s.Fits) (t : Token) : (s.step t).Fits := by
  obtain ⟨lexeme, span⟩ := t
  cases lexeme with
  | text content => exact fits_add h (fun _ _ => rfl) trivial
  | comment content => exact fits_add h (fun _ _ => rfl) trivial
  | mustache kind reference =>
    cases kind with
    | interpolation => exact fits_add h (fun _ _ => rfl) trivial
    | unescaped => exact fits_add h (fun _ _ => rfl) trivial
    | inclusion => exact fits_add h (fun _ _ => rfl) trivial
    | opening => exact fits_enter h fun _ _ _ => rfl
    | inverted => exact fits_enter h fun _ _ _ => rfl
    | closing => exact h.closing (closing_leaveBlock s.content s.frames)
    | remark => exact h
  | tag tag =>
    simp only [step]
    split
    · exact h.closing (closing_leaveElement _ s.content s.frames)
    · exact fits_openTag h tag span

/-- No element of a template closes the one that it stands in. -/
theorem fitting_ofTokens (tokens : List Token) : partsFitting (ofTokens tokens) := by
  have hfold : ∀ (tokens : List Token) (s : Nesting), s.Fits → (tokens.foldl step s).Fits := by
    intro tokens
    induction tokens with
    | nil => exact fun s h => h
    | cons t rest ih => exact fun s h => ih _ (fits_step h t)
  have hempty : empty.Fits := ⟨⟨fun _ _ _ hn => absurd hn List.not_mem_nil, trivial⟩, trivial⟩
  exact ((hfold (joinTexts tokens) empty hempty).closing (closing_leaveAll _ _)).1.2

end Nesting

end MustacheMarkup
