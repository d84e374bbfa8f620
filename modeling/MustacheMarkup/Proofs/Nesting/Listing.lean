import MustacheMarkup.Proofs.Nesting.Closing

/-!
# Nothing is lost, doubled or moved

A `Listing` lists what is in parts, outside before inside: an opening first, then what stands in it.
Whatever is listed, for the parts of a template it comes from one token after another
(`Listing.parts_ofTokens`). The invariant is that of a stack read from its outermost list to its
innermost. To close something changes no listing, so only what is opened or added counts.

The listing of parts by their lexemes has the tokens without those that only close something, and
without remarks (`listing_ofTokens`). The openings of parts are their opening tags, with the places
where these stand (`openings_ofTokens`).
-/

set_option autoImplicit false

namespace MustacheMarkup

/-! ## Listings -/

/-- A way to list what is in parts, outside before inside. -/
structure Listing (α : Type) where
  part : Nested → List α
  opening : Opening → List α
  part_nested : ∀ o content, part (o.nested content) = opening o ++ content.flatMap part
  part_alone : ∀ tag span, part (.element tag span none) = opening (.element tag span)

namespace Listing

variable {α : Type} (l : Listing α)

/-- What is listed for parts. -/
def parts (parts : List Nested) : List α :=
  parts.flatMap l.part

/-- What is listed for a token: for what it adds, or for what it opens. -/
def token (t : Token) : List α :=
  match t.lexeme with
  | .text content => l.part (.text content)
  | .comment content => l.part (.comment content)
  | .mustache .interpolation reference => l.part (.mustache true reference)
  | .mustache .unescaped reference => l.part (.mustache false reference)
  | .mustache .inclusion name => l.part (.inclusion name)
  | .mustache .remark _ => []
  | .mustache .opening reference => l.opening (.block reference false)
  | .mustache .inverted reference => l.opening (.block reference true)
  | .mustache .closing _ => []
  | .tag tag => if tag.closing then [] else l.opening (.element tag t.span)

/-- What is listed for open elements and sections and for what stands before them. -/
def frames : List Frame → List α
  | [] => []
  | f :: fs => frames fs ++ (l.parts f.before ++ l.opening f.opening)

/-- What is listed for all that has been read. -/
def read (s : Nesting) : List α :=
  l.frames s.frames ++ l.parts s.content

/-- The listing of one part more stands behind that of the others. -/
theorem parts_concat (ps : List Nested) (n : Nested) :
    l.parts (ps ++ [n]) = l.parts ps ++ l.part n := by
  rw [parts, List.flatMap_append, List.flatMap_singleton]
  rfl

/-- To close something changes nothing. -/
theorem read_closed (content : List Nested) (f : Frame) (fs : List Frame) :
    l.read ⟨f.before ++ [f.opening.nested content], fs⟩ = l.read ⟨content, f :: fs⟩ := by
  simp only [read, frames, parts_concat, l.part_nested, List.append_assoc]
  rfl

/-- To close what is innermost changes no listing, because a part is listed before its content. -/
theorem read_of_closing {s s' : Nesting} (h : Nesting.Closing s s') : l.read s' = l.read s :=
  h.preserves (P := fun s' => l.read s' = l.read s)
    (fun content f fs heq => (l.read_closed content f fs).trans heq) rfl

/-- A part that is added is listed last. -/
theorem read_add (n : Nested) (s : Nesting) : l.read (s.add n) = l.read s ++ l.part n := by
  simp only [read, Nesting.add, parts_concat, List.append_assoc]

/-- What is opened is listed last, before anything in it was read. -/
theorem read_enter (o : Opening) (s : Nesting) : l.read (s.enter o) = l.read s ++ l.opening o := by
  have hnil : l.parts [] = [] := rfl
  simp only [read, Nesting.enter, frames, hnil, List.append_nil, List.append_assoc]

/-- An opening tag is listed last, whether its element stands alone or is opened. -/
theorem read_openTag (s : Nesting) (tag : Tag) (span : Span) :
    l.read (s.openTag tag span) = l.read s ++ l.opening (.element tag span) := by
  have hleft := l.read_of_closing
    (Nesting.closing_leaveSiblings (Text.lower tag.name) s.content s.frames)
  unfold Nesting.openTag
  dsimp only
  split
  · rw [read_add, hleft, l.part_alone]
  · rw [read_enter, hleft]

/-- What a token adds to the listing depends on the token alone. This is where the order of the
listing comes from. -/
theorem read_step (s : Nesting) (t : Token) : l.read (s.step t) = l.read s ++ l.token t := by
  obtain ⟨lexeme, span⟩ := t
  cases lexeme with
  | text content => exact l.read_add _ s
  | comment content => exact l.read_add _ s
  | mustache kind reference =>
    cases kind with
    | interpolation => exact l.read_add _ s
    | unescaped => exact l.read_add _ s
    | inclusion => exact l.read_add _ s
    | opening => exact l.read_enter _ s
    | inverted => exact l.read_enter _ s
    | closing =>
      have hleft := l.read_of_closing (Nesting.closing_leaveBlock s.content s.frames)
      exact hleft.trans (List.append_nil _).symm
    | remark => exact (List.append_nil _).symm
  | tag tag =>
    simp only [Nesting.step, token]
    split
    · rw [l.read_of_closing (Nesting.closing_leaveElement _ _ _), List.append_nil]
    · exact l.read_openTag s tag span

/-- The listing after some tokens is that before them and what each token adds. -/
theorem read_foldl_step (s : Nesting) (tokens : List Token) :
    l.read (tokens.foldl Nesting.step s) = l.read s ++ tokens.flatMap l.token := by
  induction tokens generalizing s with
  | nil => exact (List.append_nil _).symm
  | cons t rest ih =>
    rw [List.foldl_cons, ih, read_step, List.flatMap_cons, List.append_assoc]

/-- What is listed for a template is what is listed for its tokens, in the same order. -/
theorem parts_ofTokens (tokens : List Token) :
    l.parts (Nesting.ofTokens tokens) = (Nesting.joinTexts tokens).flatMap l.token := by
  unfold Nesting.ofTokens Nesting.finish Nesting.run
  have hall := l.read_of_closing (Nesting.closing_leaveAll
    ((Nesting.joinTexts tokens).foldl Nesting.step Nesting.empty).content
    ((Nesting.joinTexts tokens).foldl Nesting.step Nesting.empty).frames)
  exact hall.trans (l.read_foldl_step Nesting.empty (Nesting.joinTexts tokens))

end Listing

/-! ## Lexemes -/

mutual

/-- The listing of a part. -/
def Nested.listing : Nested → List Lexeme
  | .text content => [.text content]
  | .mustache escaped reference =>
    [.mustache (.ofEscaped escaped) reference]
  | .block reference inverted content =>
    .mustache (if inverted then .inverted else .opening) reference :: partsListing content
  | .inclusion name => [.mustache .inclusion name]
  | .comment content => [.comment content]
  | .element tag _ none => [.tag tag]
  | .element tag _ (some content) => .tag tag :: partsListing content

/-- The listing of parts. -/
def partsListing : List Nested → List Lexeme
  | [] => []
  | n :: rest => n.listing ++ partsListing rest

end

/-- The listing of parts is that of each, in order. -/
theorem partsListing_eq (parts : List Nested) :
    partsListing parts = parts.flatMap Nested.listing := by
  induction parts with
  | nil => rfl
  | cons n rest ih => rw [partsListing, ih, List.flatMap_cons]

/-- What an opening adds to a listing. -/
def Opening.lexeme : Opening → Lexeme
  | .block reference inverted => .mustache (if inverted then .inverted else .opening) reference
  | .element tag _ => .tag tag

/-- The listing of parts by their lexemes. -/
def lexemeListing : Listing Lexeme where
  part := Nested.listing
  opening o := [o.lexeme]
  part_nested o content := by
    rw [← partsListing_eq]
    cases o <;> rfl
  part_alone _ _ := rfl

/-- Whether a token leaves something in a template: it neither only closes something nor is a
remark. -/
def Lexeme.lasts : Lexeme → Bool
  | .mustache .closing _ => false
  | .mustache .remark _ => false
  | .tag t => !t.closing
  | _ => true

/-- A token is listed by its lexeme if it lasts. -/
theorem token_lexemeListing (t : Token) :
    lexemeListing.token t = [t.lexeme].filter Lexeme.lasts := by
  obtain ⟨lexeme, span⟩ := t
  cases lexeme with
  | mustache kind reference => cases kind <;> rfl
  | tag tag =>
    obtain ⟨name, attributes, closing, selfClosing, doctype⟩ := tag
    cases closing <;> rfl
  | _ => rfl

/-! ## Opening tags and their places -/

mutual

/-- The opening tags of a part and where they stand. -/
def Nested.openings : Nested → List (Tag × Span)
  | .block _ _ content => partsOpenings content
  | .element tag span none => [(tag, span)]
  | .element tag span (some content) => (tag, span) :: partsOpenings content
  | _ => []

/-- The opening tags of parts and where they stand. -/
def partsOpenings : List Nested → List (Tag × Span)
  | [] => []
  | n :: rest => n.openings ++ partsOpenings rest

end

/-- The opening tags of parts are those of each, in order. -/
theorem partsOpenings_eq (parts : List Nested) :
    partsOpenings parts = parts.flatMap Nested.openings := by
  induction parts with
  | nil => rfl
  | cons n rest ih => rw [partsOpenings, ih, List.flatMap_cons]

/-- The opening tag of an opening, if it is one. -/
def Opening.tag? : Opening → Option (Tag × Span)
  | .block _ _ => none
  | .element tag span => some (tag, span)

/-- The listing of parts by their opening tags. -/
def openingListing : Listing (Tag × Span) where
  part := Nested.openings
  opening o := o.tag?.toList
  part_nested o content := by
    rw [← partsOpenings_eq]
    cases o <;> rfl
  part_alone _ _ := rfl

/-- The opening tag that a token is, if it is one, and where it stands. -/
def Token.opening? (t : Token) : Option (Tag × Span) :=
  match t.lexeme with
  | .tag tag => if tag.closing then none else some (tag, t.span)
  | _ => none

/-- An opening tag is listed by itself, and no other token is. -/
theorem token_openingListing (t : Token) : openingListing.token t = t.opening?.toList := by
  obtain ⟨lexeme, span⟩ := t
  cases lexeme with
  | mustache kind reference => cases kind <;> rfl
  | tag tag =>
    simp only [Listing.token, Token.opening?]
    split <;> rfl
  | _ => rfl

namespace Nesting

/-- The parts of a template are those of its tokens that last, in the same order. -/
theorem listing_ofTokens (tokens : List Token) :
    partsListing (ofTokens tokens) =
      ((joinTexts tokens).map Token.lexeme).filter Lexeme.lasts := by
  rw [partsListing_eq]
  refine (lexemeListing.parts_ofTokens tokens).trans ?_
  induction joinTexts tokens with
  | nil => rfl
  | cons t rest ih =>
    rw [List.flatMap_cons, ih, token_lexemeListing, ← List.filter_append, List.map_cons,
      List.singleton_append]

/-- Every opening tag of a template is one of its parts, in the order and at the places of the
tokens. -/
theorem openings_ofTokens (tokens : List Token) :
    partsOpenings (ofTokens tokens) = tokens.filterMap Token.opening? := by
  rw [partsOpenings_eq, ← filterMap_joinTexts (fun _ _ => rfl) tokens]
  refine (openingListing.parts_ofTokens tokens).trans ?_
  induction joinTexts tokens with
  | nil => rfl
  | cons t rest ih =>
    rw [List.flatMap_cons, ih, token_openingListing, List.filterMap_cons]
    cases t.opening? <;> rfl

/-- What holds of all tokens holds of all that is listed, if it holds of texts put together. Tokens
that the machine drops are not listed, and it lists nothing else. -/
theorem forall_mem_listing {P : Lexeme → Prop}
    (htext : ∀ content next, P (.text content) → P (.text next) → P (.text (content ++ next)))
    {tokens : List Token} (h : ∀ t ∈ tokens, P t.lexeme) :
    ∀ lexeme ∈ partsListing (ofTokens tokens), P lexeme := by
  have hjoined : ∀ t ∈ joinTexts tokens, P t.lexeme := by
    induction tokens with
    | nil => exact h
    | cons t rest ih =>
      obtain ⟨ht, hrest⟩ := List.forall_mem_cons.mp h
      have hjoined := ih hrest
      rw [joinTexts]
      split
      · rename_i content next span more hcontent heq
        rw [heq] at hjoined
        obtain ⟨hnext, hmore⟩ := List.forall_mem_cons.mp hjoined
        have hfirst : P (.text content) := by
          obtain ⟨lexeme, span'⟩ := t
          cases lexeme <;> cases hcontent
          exact ht
        exact List.forall_mem_cons.mpr ⟨htext _ _ hfirst hnext, hmore⟩
      · exact List.forall_mem_cons.mpr ⟨ht, hjoined⟩
  intro lexeme hlexeme
  rw [listing_ofTokens] at hlexeme
  obtain ⟨t, ht, rfl⟩ := List.mem_map.mp (List.mem_filter.mp hlexeme).1
  exact hjoined t ht

end Nesting

end MustacheMarkup
