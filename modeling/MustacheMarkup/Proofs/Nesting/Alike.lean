import MustacheMarkup.Proofs.Journal.Pairs
import MustacheMarkup.Proofs.Nesting.Build
import MustacheMarkup.Proofs.Nesting.Related

/-!
# Parts that are built alike

Parts that are the same but for their tags are built alike if their tags are: what is seen of the
items, and how many elements are counted, is the same (`pairs_buildAll_of_related`). How much of an
item is seen is left open. It may be everything, and it may leave out what the tags differ in.
-/

set_option autoImplicit false

namespace MustacheMarkup

open Journal

/-- What `view` sees of an item is made up of what it sees of the items in it. Of an element it sees
no more than `head` sees of its header, the items in it, and what tags that `R` relates have in
common. -/
structure Composes {α β : Type} (R : Tag → Tag → Prop) (head : NodeId × ElementKind → α)
    (view : Item → β) : Prop where
  block : ∀ reference inverted items items', items.map view = items'.map view →
    view (.block reference inverted items) = view (.block reference inverted items')
  element : ∀ tag tag' header header' children children', R tag tag' → head header = head header' →
    children.map (List.map view) = children'.map (List.map view) →
    view (.element (tag.element header children)) = view (.element (tag'.element header' children'))
  trim : ∀ items items', items.map view = items'.map view →
    (trimBoundary items).map view = (trimBoundary items').map view

section

variable {α β : Type} {R : Tag → Tag → Prop} {head : NodeId × ElementKind → α} {view : Item → β}
  {settings settings' : Settings}

mutual

/-- Two parts that `R` relates are built to items that look the same to `view`, provided that
opening tags that `R` relates do so to `head`. The induction is over the parts, and a list of them
goes member by member. -/
theorem pairs_build_of_related (hview : Composes R head view)
    (hR : ∀ tag tag', R tag tag' → tag.NestsLike tag')
    (hheader : ∀ tag tag' span, R tag tag' →
      PairsUpTo head (elementHeader settings tag span) (elementHeader settings' tag' span))
    (keepBlanks : Bool) : ∀ n n' : Nested, n.Related R n' →
      PairsUpTo view (n.build settings keepBlanks) (n'.build settings' keepBlanks)
  | .text _, _, .text _ => pairs_pure rfl
  | .mustache _ _, _, .mustache _ _ => pairs_pure rfl
  | .inclusion _, _, .inclusion _ => pairs_pure rfl
  | .comment _, _, .comment _ => pairs_pure rfl
  | .block reference inverted content, _, @Nested.Related.block _ _ _ _ content' hcontent => by
    rw [Nested.build, Nested.build]
    refine (pairs_buildAll_of_related hview hR hheader keepBlanks content content' hcontent).bind
      fun items items' hitems => ?_
    exact pairs_pure (hview.block reference inverted items items' hitems)
  | .element tag span none, _, @Nested.Related.alone _ _ tag' htag _ => by
    rw [Nested.build, Nested.build]
    refine (hheader tag tag' span htag).bind fun header header' hsame => ?_
    exact pairs_pure (hview.element tag tag' header header' none none htag hsame rfl)
  | .element tag span (some content), _,
      @Nested.Related.element _ _ tag' htag _ _ content' hcontent => by
    rw [Nested.build, Nested.build, Tag.keepsBlanks, Tag.keepsBlanks, (hR tag tag' htag).lower]
    refine (hheader tag tag' span htag).bind fun header header' hsame => ?_
    refine (pairs_buildAll_of_related hview hR hheader _ content content' hcontent).bind
      fun children children' hchildren => pairs_pure ?_
    refine hview.element tag tag' header header' _ _ htag hsame (congrArg some ?_)
    split
    · exact hchildren
    · exact hview.trim children children' hchildren

/-- Parts are built alike if they are the same but for their tags and the headers of these are built
alike. -/
theorem pairs_buildAll_of_related (hview : Composes R head view)
    (hR : ∀ tag tag', R tag tag' → tag.NestsLike tag')
    (hheader : ∀ tag tag' span, R tag tag' →
      PairsUpTo head (elementHeader settings tag span) (elementHeader settings' tag' span))
    (keepBlanks : Bool) : ∀ parts parts' : List Nested,
    List.Forall₂ (Nested.Related R) parts parts' →
      PairsUpTo (List.map view) (buildAll settings keepBlanks parts)
        (buildAll settings' keepBlanks parts')
  | [], _, .nil => pairs_pure rfl
  | n :: rest, _, @List.Forall₂.cons _ _ _ _ n' _ rest' hn hrest => by
    rw [buildAll, buildAll]
    refine (pairs_build_of_related hview hR hheader keepBlanks n n' hn).bind
      fun item item' hitem => ?_
    refine (pairs_buildAll_of_related hview hR hheader keepBlanks rest rest' hrest).bind
      fun items items' hitems => pairs_pure ?_
    rw [List.map_cons, List.map_cons, hitem, hitems]

end

end

end MustacheMarkup
