import MustacheMarkup.Proofs.Journal.Success
import MustacheMarkup.Proofs.Nesting.Build

/-!
# What parts are made into

`Nested.Makes` says which items can be made of a part: with which index it starts, and with which
the next part starts. Every item that is built is so made (`makes_of_build`), so what holds of the
items of a template follows by induction on how they were made, without looking at how a computation
is put together.
-/

set_option autoImplicit false

namespace MustacheMarkup

open Building Journal

mutual

/-- An item that is made of a part, from an index on up to the next index. -/
inductive Nested.Makes (settings : Settings) : Bool → Nat → Nested → Item → Nat → Prop where
  | text (keepBlanks : Bool) (index : Nat) (content : String) :
      Nested.Makes settings keepBlanks index (.text content)
        (.text (if keepBlanks then content else Text.collapse content)) index
  | mustache (keepBlanks : Bool) (index : Nat) (escaped : Bool) (reference : String) :
      Nested.Makes settings keepBlanks index (.mustache escaped reference)
        (.mustache (.ofEscaped escaped) reference) index
  | block {keepBlanks : Bool} {index later : Nat} (reference : String) (inverted : Bool)
      {content : List Nested} {items : List Item}
      (hcontent : MakesAll settings keepBlanks index content items later) :
      Nested.Makes settings keepBlanks index (.block reference inverted content)
        (.block reference inverted items) later
  | inclusion (keepBlanks : Bool) (index : Nat) (name : String) :
      Nested.Makes settings keepBlanks index (.inclusion name) (.inclusion name) index
  | comment (keepBlanks : Bool) (index : Nat) (content : String) :
      Nested.Makes settings keepBlanks index (.comment content) (.comment content) index
  | alone (keepBlanks : Bool) {index : Nat} {tag : Tag} {span : Span}
      {header : NodeId × ElementKind}
      (hheader : (elementHeader settings tag span index).result = .ok header) :
      Nested.Makes settings keepBlanks index (.element tag span none)
        (.element (tag.element header none)) (elementHeader settings tag span index).state
  | element {keepBlanks : Bool} {index later : Nat} {tag : Tag} {span : Span}
      {header : NodeId × ElementKind} {content : List Nested} {children : List Item}
      (hheader : (elementHeader settings tag span index).result = .ok header)
      (hcontent : MakesAll settings (tag.keepsBlanks keepBlanks)
        (elementHeader settings tag span index).state content children later) :
      Nested.Makes settings keepBlanks index (.element tag span (some content))
        (.element (tag.element header
          (some (if tag.keepsBlanks keepBlanks then children else trimBoundary children)))) later

/-- Items that are made of parts, one after another. -/
inductive MakesAll (settings : Settings) : Bool → Nat → List Nested → List Item → Nat → Prop where
  | nil (keepBlanks : Bool) (index : Nat) : MakesAll settings keepBlanks index [] [] index
  | cons {keepBlanks : Bool} {index next later : Nat} {n : Nested} {parts : List Nested}
      {item : Item} {items : List Item} (hitem : Nested.Makes settings keepBlanks index n item next)
      (hitems : MakesAll settings keepBlanks next parts items later) :
      MakesAll settings keepBlanks index (n :: parts) (item :: items) later

end

section

variable {settings : Settings}

mutual

/-- An item that is built of a part is made of it. What it is made of says nothing about the order
of building or about reports, so later proofs need not look at these. -/
theorem makes_of_build (n : Nested) {keepBlanks : Bool} {index : Nat} {item : Item}
    (h : (n.build settings keepBlanks index).result = .ok item) :
    n.Makes settings keepBlanks index item (n.build settings keepBlanks index).state := by
  cases n with
  | text content =>
    rw [Nested.build] at h ⊢
    rw [state_pure, ← result_pure_eq_ok h]
    exact .text keepBlanks index content
  | mustache escaped reference =>
    rw [Nested.build] at h ⊢
    rw [state_pure, ← result_pure_eq_ok h]
    exact .mustache keepBlanks index escaped reference
  | block reference inverted content =>
    rw [Nested.build] at h ⊢
    obtain ⟨items, hitems, hitem⟩ := result_bind_eq_ok h
    rw [state_bind_of_ok hitems, ← result_pure_eq_ok hitem, state_pure]
    exact .block reference inverted (makesAll_of_buildAll content hitems)
  | inclusion name =>
    rw [Nested.build] at h ⊢
    rw [state_pure, ← result_pure_eq_ok h]
    exact .inclusion keepBlanks index name
  | comment content =>
    rw [Nested.build] at h ⊢
    rw [state_pure, ← result_pure_eq_ok h]
    exact .comment keepBlanks index content
  | element tag span content =>
    cases content with
    | none =>
      rw [Nested.build] at h ⊢
      obtain ⟨header, hheader, hitem⟩ := result_bind_eq_ok h
      rw [state_bind_of_ok hheader, ← result_pure_eq_ok hitem, state_pure]
      exact .alone keepBlanks hheader
    | some content =>
      rw [Nested.build] at h ⊢
      obtain ⟨header, hheader, h⟩ := result_bind_eq_ok h
      obtain ⟨children, hchildren, hitem⟩ := result_bind_eq_ok h
      rw [state_bind_of_ok hheader, state_bind_of_ok hchildren, ← result_pure_eq_ok hitem,
        state_pure]
      exact .element hheader (makesAll_of_buildAll content hchildren)

/-- Items that are built of parts are made of them. -/
theorem makesAll_of_buildAll (parts : List Nested) {keepBlanks : Bool} {index : Nat}
    {items : List Item} (h : (buildAll settings keepBlanks parts index).result = .ok items) :
    MakesAll settings keepBlanks index parts items
      (buildAll settings keepBlanks parts index).state := by
  cases parts with
  | nil =>
    rw [buildAll] at h ⊢
    rw [state_pure, ← result_pure_eq_ok h]
    exact .nil keepBlanks index
  | cons n rest =>
    rw [buildAll] at h ⊢
    obtain ⟨item, hitem, h⟩ := result_bind_eq_ok h
    obtain ⟨more, hmore, h⟩ := result_bind_eq_ok h
    rw [state_bind_of_ok hitem, state_bind_of_ok hmore, ← result_pure_eq_ok h, state_pure]
    exact .cons (makes_of_build n hitem) (makesAll_of_buildAll rest hmore)

end

end

end MustacheMarkup
