import MustacheMarkup.Proofs.Nesting.Listing

/-!
# The tags of nested parts

Every opening tag of a template becomes one element, and elements stand in the order of their
opening tags: `tags_ofTokens`. This is what the openings of the parts say about tags.
-/

set_option autoImplicit false

namespace MustacheMarkup

mutual

/-- The tags of a part, outside before inside. -/
def Nested.tags : Nested → List Tag
  | .text _ => []
  | .mustache _ _ => []
  | .block _ _ content => partsTags content
  | .inclusion _ => []
  | .comment _ => []
  | .element tag _ none => [tag]
  | .element tag _ (some content) => tag :: partsTags content

/-- The tags of parts. -/
def partsTags : List Nested → List Tag
  | [] => []
  | n :: rest => n.tags ++ partsTags rest

end

/-- The opening tags among tokens. -/
def openingTags : List Token → List Tag
  | [] => []
  | ⟨.tag tag, _⟩ :: rest => if tag.closing then openingTags rest else tag :: openingTags rest
  | _ :: rest => openingTags rest

mutual

/-- The opening tags of a part are its openings without their places. -/
theorem Nested.tags_eq : ∀ n : Nested, n.tags = n.openings.map Prod.fst
  | .text _ => rfl
  | .mustache _ _ => rfl
  | .block _ _ content => partsTags_eq content
  | .inclusion _ => rfl
  | .comment _ => rfl
  | .element _ _ none => rfl
  | .element tag _ (some content) => congrArg (tag :: ·) (partsTags_eq content)

/-- The tags of parts are their opening tags, wherever these stand. -/
theorem partsTags_eq : ∀ parts : List Nested,
    partsTags parts = (partsOpenings parts).map Prod.fst
  | [] => rfl
  | n :: rest => by
    rw [partsTags, partsOpenings, List.map_append, Nested.tags_eq n, partsTags_eq rest]

end

/-- The opening tags among tokens are their openings without their places. The first form is what
elements are made of, the second what faults are reported of. -/
theorem openingTags_eq (tokens : List Token) :
    openingTags tokens = (tokens.filterMap Token.opening?).map Prod.fst := by
  fun_induction openingTags tokens with
  | case1 => rfl
  | case2 tag span rest hclosing ih =>
    rw [ih, List.filterMap_cons_none (by simp [Token.opening?, hclosing])]
  | case3 tag span rest hclosing ih =>
    rw [ih, List.filterMap_cons_some (b := (tag, span)) (by simp [Token.opening?, hclosing]),
      List.map_cons]
  | case4 t rest ht ih =>
    have hnone : t.opening? = none := by
      obtain ⟨lexeme, span⟩ := t
      cases lexeme with
      | tag tag => exact absurd rfl (ht tag span)
      | _ => rfl
    rw [ih, List.filterMap_cons_none hnone]

/-- What holds of all tokens holds of the opening tags among them. -/
theorem forall_mem_openingTags {P : Lexeme → Prop} {tokens : List Token}
    (h : ∀ t ∈ tokens, P t.lexeme) : ∀ tag ∈ openingTags tokens, P (.tag tag) := by
  fun_induction openingTags tokens with
  | case1 => exact List.forall_mem_nil _
  | case2 tag span rest hclosing ih => exact ih (List.forall_mem_cons.mp h).2
  | case3 tag span rest hclosing ih =>
    obtain ⟨hfirst, hrest⟩ := List.forall_mem_cons.mp h
    exact List.forall_mem_cons.mpr ⟨hfirst, ih hrest⟩
  | case4 t rest ht ih => exact ih (List.forall_mem_cons.mp h).2

/-- The elements of a template stand in the order of their opening tags, and no opening tag is left
out. -/
theorem Nesting.tags_ofTokens (tokens : List Token) :
    partsTags (Nesting.ofTokens tokens) = openingTags tokens := by
  rw [partsTags_eq, Nesting.openings_ofTokens, openingTags_eq]

end MustacheMarkup
