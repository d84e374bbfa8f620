import MustacheMarkup.Proofs.Item.Tidy
import MustacheMarkup.Proofs.Nesting.Descent

/-!
# Blanks that are not kept

A template that does not keep its blanks is the one that keeps them, tidied afterwards: which item
stands where, which identities elements have and whether building fails are all decided without
looking at that option. The reason is that the option reaches the items of attributes nowhere, since
they always keep their blanks, and that it reaches the content of a template only where an item or
the list it stands in is finished.
-/

set_option autoImplicit false

namespace MustacheMarkup

open Building Journal

/-! ## Attributes do not see the option -/

/-- What is collected does not depend on whether blanks are kept, except through what each container
is told. -/
theorem Building.collect_eq_collect (k k' sanitize : Bool) (run n : Nat) :
    collect ⟨⟨k, sanitize⟩, run⟩ n = collect ⟨⟨k', sanitize⟩, run⟩ n := by
  induction n with
  | zero => rfl
  | succ n ih =>
    funext container keepBlanks
    rw [collect, collect, ih]
    rfl

/-- Fragments always keep their blanks, whatever the template does. -/
theorem Building.fragmentItems_eq_fragmentItems (k k' sanitize : Bool) (run : Nat) :
    fragmentItems ⟨⟨k, sanitize⟩, run⟩ = fragmentItems ⟨⟨k', sanitize⟩, run⟩ := by
  unfold fragmentItems items
  simp only [collect_eq_collect k k']

/-- What an opening tag says does not depend on whether blanks are kept outside of it. -/
theorem elementHeader_eq_elementHeader (k k' sanitize : Bool) (run : Nat) :
    elementHeader ⟨⟨k, sanitize⟩, run⟩ = elementHeader ⟨⟨k', sanitize⟩, run⟩ := by
  funext tag span
  unfold elementHeader
  rw [fragmentItems_eq_fragmentItems k k']
  rfl

/-! ## Parts built without blanks -/

section

variable {settings settings' : Settings}

mutual

/-- Parts are built alike if their opening tags are. -/
theorem build_congr (h : elementHeader settings' = elementHeader settings) (keepBlanks : Bool) :
    ∀ n : Nested, n.build settings' keepBlanks = n.build settings keepBlanks
  | .text _ => rfl
  | .mustache _ _ => rfl
  | .block _ _ content => by
    rw [Nested.build, Nested.build, buildAll_congr h keepBlanks content]
  | .inclusion _ => rfl
  | .comment _ => rfl
  | .element _ _ none => by
    rw [Nested.build, Nested.build, h]
  | .element _ _ (some content) => by
    rw [Nested.build, Nested.build, h, buildAll_congr h _ content]

/-- The same for lists of parts. -/
theorem buildAll_congr (h : elementHeader settings' = elementHeader settings) (keepBlanks : Bool) :
    ∀ parts : List Nested,
      buildAll settings' keepBlanks parts = buildAll settings keepBlanks parts
  | [] => rfl
  | n :: rest => by
    rw [buildAll, buildAll, build_congr h keepBlanks n, buildAll_congr h keepBlanks rest]

end

mutual

/-- To build a part without its blanks is to build it with them and to tidy the item. The induction
is over parts, and a verbatim element is where both sides keep blanks. -/
theorem build_tidied (h : elementHeader settings' = elementHeader settings) :
    ∀ n : Nested, n.build settings' false = Item.tidied <$> n.build settings true
  | .text _ => rfl
  | .mustache _ _ => rfl
  | .block reference inverted content => by
    rw [Nested.build, Nested.build, buildAll_tidied h content]
    simp only [bind_map_left, map_bind, map_pure, Item.tidied]
  | .inclusion _ => rfl
  | .comment _ => rfl
  | .element tag span none => by
    rw [Nested.build, Nested.build, h]
    simp only [map_bind, map_pure, Item.tidied, Tag.element, Element.tidied]
  | .element tag span (some content) => by
    rw [Nested.build, Nested.build, h]
    have hkept : tag.keepsBlanks true = true := rfl
    have hname :
        tag.keepsBlanks false = (Text.lower tag.name == Vocabulary.verbatimElement) := rfl
    simp only [map_bind, map_pure, Item.tidied, Tag.element, Element.tidied, hkept, hname, if_true]
    congr
    funext header
    -- a verbatim element keeps its blanks in both runs, so what stands in it is the same
    cases hverbatim : Text.lower tag.name == Vocabulary.verbatimElement with
    | true =>
      rw [buildAll_congr h true content]
      rfl
    | false =>
      rw [buildAll_tidied h content]
      simp only [bind_map_left, Bool.false_eq_true, if_false]

/-- The same for lists of parts. -/
theorem buildAll_tidied (h : elementHeader settings' = elementHeader settings) :
    ∀ parts : List Nested,
      buildAll settings' false parts = itemsTidied <$> buildAll settings true parts
  | [] => rfl
  | n :: rest => by
    rw [buildAll, buildAll, build_tidied h n, buildAll_tidied h rest]
    simp only [bind_map_left, map_bind, map_pure, itemsTidied]

end

end

/-! ## Templates -/

namespace Template

/-- Blanks that are not kept are tidied after the template is built: it fails exactly if it fails
with all its blanks, for the same reason, and otherwise the items are those with all their blanks,
each tidied, and their list trimmed. -/
theorem result_ofTokens_tidied (sanitize : Bool) (run : Nat) (tokens : List Token) :
    (ofTokens ⟨⟨false, sanitize⟩, run⟩ tokens).result =
      (ofTokens ⟨⟨true, sanitize⟩, run⟩ tokens).result.map
        fun items => trimBoundary (itemsTidied items) := by
  have hheader := elementHeader_eq_elementHeader false true sanitize run
  rw [ofTokens_result, ofTokens_result, buildAll_tidied hheader, map_apply]
  cases (buildAll ⟨⟨true, sanitize⟩, run⟩ true (Nesting.ofTokens tokens) 0).result with
  | error e => rfl
  | ok items => rfl

end Template

end MustacheMarkup
