import MustacheMarkup.Proofs.Nesting.Machine

/-!
# Closing, one after another

Whatever makes the stack machine close something, it closes the innermost element or section that is
open, then the next one, and so on. So what closing once preserves is preserved by every way of
leaving elements and sections.
-/

set_option autoImplicit false

namespace MustacheMarkup.Nesting

/-- One nesting is another with some of what was innermost closed. -/
inductive Closing : Nesting → Nesting → Prop where
  | refl (s : Nesting) : Closing s s
  | close {content : List Nested} {f : Frame} {frames : List Frame} {s : Nesting}
      (h : Closing ⟨f.before ++ [f.opening.nested content], frames⟩ s) :
      Closing ⟨content, f :: frames⟩ s

/-- What it preserves to close once, it preserves to close several times. -/
theorem Closing.preserves {P : Nesting → Prop}
    (hclose : ∀ content f frames, P ⟨content, f :: frames⟩ →
      P ⟨f.before ++ [f.opening.nested content], frames⟩)
    {s s' : Nesting} (h : Closing s s') (hs : P s) : P s' := by
  induction h with
  | refl s => exact hs
  | close _ ih => exact ih (hclose _ _ _ hs)

/-- To leave siblings closes elements only as far as they are closed by the name. -/
theorem closing_leaveSiblings (name : String) (content : List Nested) (frames : List Frame) :
    Closing ⟨content, frames⟩ (leaveSiblings name content frames) := by
  fun_induction leaveSiblings name content frames with
  | case1 content tag span before frames hcloses ih => exact .close ih
  | case2 => exact .refl _
  | case3 => exact .refl _

/-- To leave an element closes what is open up to it, and no section. -/
theorem closing_leaveElement (name : String) (content : List Nested) (frames : List Frame) :
    Closing ⟨content, frames⟩ (leaveElement name content frames) := by
  fun_induction leaveElement name content frames with
  | case1 content tag span before frames hname => exact .close (.refl _)
  | case2 content tag span before frames hname ih => exact .close ih
  | case3 => exact .refl _

/-- To leave a section closes it with the elements that are open in it, or all elements if no
section is open. -/
theorem closing_leaveBlock (content : List Nested) (frames : List Frame) :
    Closing ⟨content, frames⟩ (leaveBlock content frames) := by
  fun_induction leaveBlock content frames with
  | case1 content tag span before frames ih => exact .close ih
  | case2 => exact .close (.refl _)
  | case3 => exact .refl _

/-- At the end of the tokens all that is open is closed. -/
theorem closing_leaveAll (content : List Nested) (frames : List Frame) :
    Closing ⟨content, frames⟩ ⟨leaveAll content frames, []⟩ := by
  fun_induction leaveAll content frames with
  | case1 => exact .refl _
  | case2 content f frames ih => exact .close ih

end MustacheMarkup.Nesting
