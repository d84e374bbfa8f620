import MustacheMarkup.Proofs.Item.Trim
import MustacheMarkup.Proofs.Nesting.Listing
import MustacheMarkup.Proofs.Nesting.Shape
import MustacheMarkup.Proofs.Template.Blanks

/-!
# Nothing is lost

The items of a template are listed in the order of the source: an element or a section, then what
stands in it. Up to the places where texts are parted, this is the list of the tokens without those
that only close something and without remarks, so building loses no token, uses none twice and
exchanges no two.

Where blanks are not kept the same is true of the listings without blanks. Each step of tidying
leaves the listing without blanks as it is, and that listing does not see whether texts were put
together before or after their blanks were dropped.
-/

set_option autoImplicit false

namespace MustacheMarkup

/-- What a listing has at one place: a part without its content. -/
inductive Mark where
  | text (content : String)
  | mustache (kind : MustacheKind) (reference : String)
  | block (reference : String) (inverted : Bool)
  | inclusion (name : String)
  | comment (content : String)
  | element (name : String) (doctype selfClosing : Bool)
deriving Repr, DecidableEq

/-! ## The marks of items and of tokens -/

mutual

/-- The marks of a shape. -/
def Shape.marks : Shape → List Mark
  | .text content => [.text content]
  | .mustache kind reference => [.mustache kind reference]
  | .block reference inverted content => .block reference inverted :: shapesMarks content
  | .inclusion name => [.inclusion name]
  | .comment content => [.comment content]
  | .element name doctype selfClosing none => [.element name doctype selfClosing]
  | .element name doctype selfClosing (some content) =>
    .element name doctype selfClosing :: shapesMarks content

/-- The marks of shapes. -/
def shapesMarks : List Shape → List Mark
  | [] => []
  | shape :: rest => shape.marks ++ shapesMarks rest

end

/-- The marks of items. -/
def itemsMarks (items : List Item) : List Mark :=
  shapesMarks (itemShapes items)

/-- The mark of a token that lasts. -/
def Lexeme.mark? : Lexeme → Option Mark
  | .text content => some (.text content)
  | .comment content => some (.comment content)
  | .mustache .interpolation reference => some (.mustache .interpolation reference)
  | .mustache .unescaped reference => some (.mustache .unescaped reference)
  | .mustache .opening reference => some (.block reference false)
  | .mustache .inverted reference => some (.block reference true)
  | .mustache .inclusion name => some (.inclusion name)
  | .mustache .closing _ => none
  | .mustache .remark _ => none
  | .tag t => some (.element t.name t.doctype t.selfClosing)

/-- The marks of the tokens that last. -/
def tokensMarks (tokens : List Token) : List Mark :=
  ((tokens.map Token.lexeme).filter Lexeme.lasts).filterMap Lexeme.mark?

mutual

/-- The marks of the shape of a part can be read off its listing. -/
theorem marks_shape : ∀ n : Nested, n.shape.marks = n.listing.filterMap Lexeme.mark?
  | .text _ => rfl
  | .mustache escaped _ => by cases escaped <;> rfl
  | .block reference inverted content => by
    rw [Nested.shape, Shape.marks, shapesMarks_nestedShapes content, Nested.listing]
    cases inverted <;> rfl
  | .inclusion _ => rfl
  | .comment _ => rfl
  | .element _ _ none => rfl
  | .element tag span (some content) => by
    rw [Nested.shape, Shape.marks, shapesMarks_nestedShapes content, Nested.listing]
    rfl

/-- The same for lists of parts. -/
theorem shapesMarks_nestedShapes : ∀ parts : List Nested,
    shapesMarks (nestedShapes parts) = (partsListing parts).filterMap Lexeme.mark?
  | [] => rfl
  | n :: rest => by
    rw [nestedShapes, shapesMarks, marks_shape n, shapesMarks_nestedShapes rest, partsListing,
      List.filterMap_append]

end

/-- The marks of what the machine finds are those of the tokens, each run of texts as one. -/
theorem shapesMarks_ofTokens (tokens : List Token) :
    shapesMarks (nestedShapes (Nesting.ofTokens tokens)) =
      tokensMarks (Nesting.joinTexts tokens) := by
  rw [shapesMarks_nestedShapes, Nesting.listing_ofTokens]
  rfl

/-! ## Texts that meet -/

/-- Put a mark before others. Texts that meet become one. -/
def Mark.onto : Mark → List Mark → List Mark
  | .text content, .text next :: rest => .text (content ++ next) :: rest
  | mark, rest => mark :: rest

/-- Marks with neighbouring texts put together. -/
def joinMarks : List Mark → List Mark
  | [] => []
  | mark :: rest => mark.onto (joinMarks rest)

/-- Where texts meet it does not matter which two are put together first. -/
theorem onto_text_append (content next : String) (marks : List Mark) :
    (Mark.text (content ++ next)).onto marks =
      (Mark.text content).onto ((Mark.text next).onto marks) := by
  cases marks with
  | nil => rfl
  | cons mark rest =>
    cases mark with
    | text last => simp only [Mark.onto, String.append_assoc]
    | _ => rfl

/-- A change of single marks for which it makes no difference whether texts are put
together before. -/
def Mark.Joins (change : Mark → Option Mark) : Prop :=
  ∀ content next marks, joinMarks ((change (.text (content ++ next))).toList ++ marks) =
    joinMarks ((change (.text content)).toList ++ ((change (.text next)).toList ++ marks))

/-- To change nothing joins with putting texts together. -/
theorem Mark.joins_some : Mark.Joins some := by
  intro content next marks
  exact onto_text_append content next (joinMarks marks)

/-- What stands before does not see in which way neighbouring texts behind it are put together. -/
theorem joinMarks_append_congr (marks : List Mark) {rest rest' : List Mark}
    (h : joinMarks rest = joinMarks rest') :
    joinMarks (marks ++ rest) = joinMarks (marks ++ rest') := by
  induction marks with
  | nil => exact h
  | cons mark marks ih => rw [List.cons_append, List.cons_append, joinMarks, joinMarks, ih]

/-- One member of a list that is filtered, whatever becomes of it. -/
theorem filterMap_cons_toList {α β : Type} (f : α → Option β) (a : α) (rest : List α) :
    (a :: rest).filterMap f = (f a).toList ++ rest.filterMap f := by
  cases h : f a with
  | none => rw [List.filterMap_cons_none h, Option.toList_none, List.nil_append]
  | some b => rw [List.filterMap_cons_some h, Option.toList_some, List.singleton_append]

/-- The marks of one token. -/
theorem tokensMarks_cons (t : Token) (tokens : List Token) :
    tokensMarks (t :: tokens) = tokensMarks [t] ++ tokensMarks tokens := by
  have hcons : (t :: tokens).map Token.lexeme = [t.lexeme] ++ tokens.map Token.lexeme := rfl
  unfold tokensMarks
  rw [hcons, List.filter_append, List.filterMap_append]
  rfl

/-- That runs of texts are put together is not seen when the texts of a listing are, also if the
marks are changed first in a way that goes along with joining. -/
theorem joinMarks_joinTexts {change : Mark → Option Mark} (h : Mark.Joins change)
    (tokens : List Token) :
    joinMarks ((tokensMarks (Nesting.joinTexts tokens)).filterMap change) =
      joinMarks ((tokensMarks tokens).filterMap change) := by
  induction tokens with
  | nil => rfl
  | cons t rest ih =>
    have hgoal : joinMarks ((tokensMarks (t :: Nesting.joinTexts rest)).filterMap change) =
        joinMarks ((tokensMarks (t :: rest)).filterMap change) := by
      rw [tokensMarks_cons t (Nesting.joinTexts rest), tokensMarks_cons t rest,
        List.filterMap_append, List.filterMap_append]
      exact joinMarks_append_congr _ ih
    rw [Nesting.joinTexts]
    split
    · rename_i content next span more htext hjoined
      obtain ⟨lexeme, span'⟩ := t
      obtain rfl : lexeme = .text content := by
        cases lexeme <;> cases htext
        rfl
      rw [← hgoal, hjoined]
      have hboth : tokensMarks (⟨.text content, span'⟩ :: ⟨.text next, span⟩ :: more) =
          .text content :: .text next :: tokensMarks more := rfl
      have hone : tokensMarks (⟨.text (content ++ next), span'⟩ :: more) =
          .text (content ++ next) :: tokensMarks more := rfl
      rw [hboth, hone, filterMap_cons_toList, filterMap_cons_toList, filterMap_cons_toList]
      exact h content next _
    · exact hgoal

/-! ## Listings without blanks -/

/-- The characters of a text that are not blank. -/
def bareChars (s : List Char) : List Char :=
  s.filter fun c => !Text.isBlank c

/-- A mark without the blanks of a text, and nothing if the text has nothing else. -/
def Mark.bare? : Mark → Option Mark
  | .text content =>
    if (bareChars content.toList).isEmpty then none
    else some (.text (String.ofList (bareChars content.toList)))
  | mark => some mark

/-- Marks without blanks in texts. -/
def bareMarks (marks : List Mark) : List Mark :=
  marks.filterMap Mark.bare?

/-- Blanks are taken out of one mark after another. -/
theorem bareMarks_append (marks marks' : List Mark) :
    bareMarks (marks ++ marks') = bareMarks marks ++ bareMarks marks' :=
  List.filterMap_append

/-- To take blanks out of texts joins with putting these together. A text of blanks only is left
out, as nothing of it would be seen between two others. -/
theorem Mark.joins_bare? : Mark.Joins Mark.bare? := by
  intro content next marks
  have hchars : bareChars (content ++ next).toList =
      bareChars content.toList ++ bareChars next.toList := by
    unfold bareChars
    rw [String.toList_append, List.filter_append]
  simp only [Mark.bare?, hchars]
  cases hcontent : bareChars content.toList with
  | nil => rfl
  | cons c cs =>
    cases hnext : bareChars next.toList with
    | nil => simp only [List.append_nil, List.isEmpty_nil, if_true, Option.toList_none,
        List.nil_append]
    | cons d ds =>
      have hof : String.ofList (c :: cs ++ d :: ds) =
          String.ofList (c :: cs) ++ String.ofList (d :: ds) := String.ofList_append
      simp only [List.cons_append, List.isEmpty_cons, Bool.false_eq_true, if_false,
        Option.toList_some, List.nil_append, joinMarks]
      rw [← List.cons_append, hof]
      exact onto_text_append _ _ _

/-- Texts with the same characters besides blanks leave the same mark. -/
theorem bareMarks_text_congr {content content' : String}
    (h : bareChars content.toList = bareChars content'.toList) :
    bareMarks [.text content] = bareMarks [.text content'] := by
  unfold bareMarks
  rw [filterMap_cons_toList, filterMap_cons_toList]
  simp only [Mark.bare?, h]

/-- A text of blanks only leaves no mark. -/
theorem bareMarks_text_of_nil {content : String} (h : bareChars content.toList = []) :
    bareMarks [.text content] = [] := by
  unfold bareMarks
  rw [filterMap_cons_toList]
  simp only [Mark.bare?, h, List.isEmpty_nil, if_true]
  rfl

/-- To squeeze blanks takes away none of the other characters. -/
theorem bareChars_squeezeBlanks (afterBlank : Bool) (s : List Char) :
    bareChars (Text.squeezeBlanks afterBlank s) = bareChars s := by
  induction s generalizing afterBlank with
  | nil => rfl
  | cons c rest ih =>
    have hspace : Text.isBlank ' ' = true := by decide
    unfold bareChars at ih ⊢
    rw [Text.squeezeBlanks]
    split
    · rename_i hblank
      rw [List.filter_cons_of_neg (by simp only [hblank, Bool.not_true, Bool.false_eq_true,
        not_false_eq_true])]
      split
      · exact ih true
      · rw [List.filter_cons_of_neg (by simp only [hspace, Bool.not_true, Bool.false_eq_true,
          not_false_eq_true])]
        exact ih true
    · rename_i hblank
      rw [List.filter_cons_of_pos (by simp only [hblank, Bool.not_false]),
        List.filter_cons_of_pos (by simp only [hblank, Bool.not_false]), ih false]

/-- To drop blanks at the start takes away none of the other characters. -/
theorem bareChars_dropBlanks (s : List Char) : bareChars (Text.dropBlanks s) = bareChars s := by
  induction s with
  | nil => rfl
  | cons c rest ih =>
    unfold Text.dropBlanks at ih ⊢
    unfold bareChars at ih ⊢
    cases hblank : Text.isBlank c with
    | true =>
      rw [List.dropWhile_cons_of_pos hblank, ih,
        List.filter_cons_of_neg (by simp only [hblank, Bool.not_true, Bool.false_eq_true,
          not_false_eq_true])]
    | false =>
      rw [List.dropWhile_cons_of_neg (by simp only [hblank, Bool.false_eq_true,
        not_false_eq_true])]

/-- To drop blanks at the end takes away none of the other characters. -/
theorem bareChars_dropBlanksEnd (s : List Char) :
    bareChars (Text.dropBlanksEnd s) = bareChars s := by
  have hreverse : ∀ s : List Char, bareChars s.reverse = (bareChars s).reverse := by
    intro s
    exact List.filter_reverse
  rw [Text.dropBlanksEnd, hreverse, bareChars_dropBlanks, hreverse, List.reverse_reverse]

/-- The same for a text that is trimmed at its start. -/
theorem bareChars_trimStart (s : String) :
    bareChars (Text.trimStart s).toList = bareChars s.toList := by
  rw [Text.trimStart, String.toList_ofList, bareChars_dropBlanks]

/-- The same for a text that is trimmed at its end. -/
theorem bareChars_trimEnd (s : String) :
    bareChars (Text.trimEnd s).toList = bareChars s.toList := by
  rw [Text.trimEnd, String.toList_ofList, bareChars_dropBlanksEnd]

/-- The same for a text whose blanks are collapsed. -/
theorem bareChars_collapse (s : String) :
    bareChars (Text.collapse s).toList = bareChars s.toList := by
  rw [Text.collapse, String.toList_ofList, bareChars_squeezeBlanks]

/-! ## Tidying keeps the listing without blanks -/

/-- The marks of items are those of each, in order. -/
theorem itemsMarks_cons (item : Item) (rest : List Item) :
    itemsMarks (item :: rest) = item.shape.marks ++ itemsMarks rest := by
  unfold itemsMarks
  rw [itemShapes, shapesMarks]

/-- A text may give way to one with the same characters, up to blanks, or to none if it has only
blanks. -/
theorem bareMarks_text_trimmed {content trimmed : String}
    (h : bareChars trimmed.toList = bareChars content.toList) (rest : List Item) :
    bareMarks (itemsMarks (if trimmed.isEmpty then rest else .text trimmed :: rest)) =
      bareMarks (itemsMarks (.text content :: rest)) := by
  rw [itemsMarks_cons, bareMarks_append]
  cases hempty : trimmed.isEmpty with
  | true =>
    have hnil : trimmed.toList = [] := by
      rw [String.isEmpty_iff.mp hempty]
      rfl
    have hbare : bareChars content.toList = [] := by
      rw [← h, hnil]
      rfl
    rw [if_pos rfl, Item.shape, Shape.marks, bareMarks_text_of_nil hbare, List.nil_append]
  | false =>
    rw [if_neg Bool.false_ne_true, itemsMarks_cons, bareMarks_append, Item.shape, Shape.marks,
      Item.shape, Shape.marks, bareMarks_text_congr h]

/-- To trim the first item changes no marks besides blanks. -/
theorem bareMarks_trimFirst (items : List Item) :
    bareMarks (itemsMarks (trimFirst items)) = bareMarks (itemsMarks items) := by
  cases items with
  | nil => rfl
  | cons item rest =>
    cases item with
    | text content => exact bareMarks_text_trimmed (bareChars_trimStart content) rest
    | _ => rfl

/-- To trim the last item changes no marks besides blanks. -/
theorem bareMarks_trimLast (items : List Item) :
    bareMarks (itemsMarks (trimLast items)) = bareMarks (itemsMarks items) := by
  fun_induction trimLast items with
  | case1 => rfl
  | case2 content trimmed hempty =>
    have h := bareMarks_text_trimmed (bareChars_trimEnd content) []
    rwa [if_pos hempty] at h
  | case3 content trimmed hempty =>
    have h := bareMarks_text_trimmed (bareChars_trimEnd content) []
    rwa [if_neg hempty] at h
  | case4 item rest hne ih =>
    rw [itemsMarks_cons, itemsMarks_cons, bareMarks_append, bareMarks_append, ih]

/-- To trim both ends changes no marks besides blanks. -/
theorem bareMarks_trimBoundary (items : List Item) :
    bareMarks (itemsMarks (trimBoundary items)) = bareMarks (itemsMarks items) := by
  rw [trimBoundary, bareMarks_trimLast, bareMarks_trimFirst]

mutual

/-- To tidy an item changes no marks besides blanks. The induction is over content: what is trimmed
inside was tidied before. -/
theorem bareMarks_tidied : ∀ item : Item,
    bareMarks item.tidied.shape.marks = bareMarks item.shape.marks
  | .text content => bareMarks_text_congr (bareChars_collapse content)
  | .mustache _ _ => rfl
  | .block reference inverted items => by
    have h := bareMarks_itemsTidied items
    unfold itemsMarks at h
    rw [Item.tidied, Item.shape, Item.shape, Shape.marks, Shape.marks, ← List.singleton_append,
      bareMarks_append, h, ← bareMarks_append, List.singleton_append]
  | .inclusion _ => rfl
  | .comment _ => rfl
  | .element e => by
    rw [Item.tidied, Item.shape, Item.shape]
    exact bareMarks_element_tidied e

/-- The same for an element, whose content is trimmed besides unless it is verbatim. -/
theorem bareMarks_element_tidied : ∀ e : Element,
    bareMarks e.tidied.shape.marks = bareMarks e.shape.marks
  | ⟨_, _, _, _, _, _, _, _, none⟩ => rfl
  | ⟨id, rawName, lowerName, kind, doctype, selfClosing, isVoid, closers, some children⟩ => by
    have h : bareMarks (itemsMarks (if lowerName == Vocabulary.verbatimElement then children
        else trimBoundary (itemsTidied children))) = bareMarks (itemsMarks children) := by
      split
      · rfl
      · rw [bareMarks_trimBoundary]
        exact bareMarks_itemsTidied children
    unfold itemsMarks at h
    rw [Element.tidied, Element.shape, Element.shape, Shape.marks, Shape.marks,
      ← List.singleton_append, bareMarks_append, h, ← bareMarks_append, List.singleton_append]

/-- The same for lists of items. -/
theorem bareMarks_itemsTidied : ∀ items : List Item,
    bareMarks (itemsMarks (itemsTidied items)) = bareMarks (itemsMarks items)
  | [] => rfl
  | item :: rest => by
    rw [itemsTidied, itemsMarks_cons, itemsMarks_cons, bareMarks_append, bareMarks_append,
      bareMarks_tidied item, bareMarks_itemsTidied rest]

end

/-! ## Templates -/

namespace Template

/-- The items built with their blanks have the marks of the tokens. -/
theorem joinMarks_of_buildAll {settings : Settings} {tokens : List Token} {built : List Item}
    (h : (buildAll settings true (Nesting.ofTokens tokens) 0).result = .ok built)
    {change : Mark → Option Mark} (hchange : Mark.Joins change) :
    joinMarks ((itemsMarks built).filterMap change) =
      joinMarks ((tokensMarks tokens).filterMap change) := by
  have hshapes := shapes_of_buildAll settings (Nesting.ofTokens tokens) 0 built h
  rw [itemsMarks, hshapes, shapesMarks_ofTokens]
  exact joinMarks_joinTexts hchange tokens

/-- A template that is built lists its tokens in their order, up to where texts are parted and, if
blanks are not kept, up to blanks; and no token is left. -/
theorem listed_in_order (settings : Settings) (tokens : List Token) (items : List Item)
    (hitems : (ofTokens settings tokens).result = .ok items) :
    (settings.options.preserveWhitespace = true →
      joinMarks (itemsMarks items) = joinMarks (tokensMarks tokens)) ∧
    (settings.options.preserveWhitespace = false →
      joinMarks (bareMarks (itemsMarks items)) = joinMarks (bareMarks (tokensMarks tokens))) ∧
    (ofTokens settings tokens).state.tokens = [] := by
  obtain ⟨built, hbuilt, rfl, hrest⟩ := exists_buildAll_of_ofTokens hitems
  refine ⟨fun hkeep => ?_, fun hkeep => ?_, hrest⟩
  · rw [hkeep] at hbuilt
    have hmarks := joinMarks_of_buildAll hbuilt Mark.joins_some
    rw [List.filterMap_some, List.filterMap_some] at hmarks
    rw [if_pos hkeep]
    exact hmarks
  · rw [hkeep, buildAll_tidied rfl] at hbuilt
    obtain ⟨kept, hkept, rfl⟩ := Journal.result_map_eq_ok hbuilt
    have hmarks := joinMarks_of_buildAll hkept Mark.joins_bare?
    have hfalse : ¬settings.options.preserveWhitespace = true := by
      rw [hkeep]
      exact Bool.false_ne_true
    rw [if_neg hfalse, bareMarks_trimBoundary, bareMarks_itemsTidied]
    exact hmarks

/-- Texts that only a remark parts, in an element that the end of the section closes. -/
def parted : List Token :=
  [⟨.mustache .opening "s", default⟩, ⟨.tag ⟨"P", [], false, false, false⟩, default⟩,
    ⟨.text " a ", default⟩, ⟨.mustache .remark "r", default⟩, ⟨.text " b", default⟩,
    ⟨.mustache .closing "s", default⟩, ⟨.text " ", default⟩]

/-- Two texts that only a remark parts are listed as one, with their blanks if these are kept and
without them otherwise. -/
theorem parted_listed_in_order :
    let tree (content : List Item) (rest : List Item) : List Item :=
      .block "s" false [.element ⟨⟨0, 0⟩, "P", "p", .html ⟨"p", [], [], none, none, none⟩, false,
        false, false, some Vocabulary.paragraphClosers, some content⟩] :: rest
    let marks (rest : List Mark) : List Mark :=
      .block "s" false :: .element "P" false false :: rest
    joinMarks (itemsMarks (tree [.text " a ", .text " b"] [.text " "])) =
        marks [.text " a  b "] ∧
      joinMarks (bareMarks (itemsMarks (tree [.text "a ", .text " b"] []))) = marks [.text "ab"] :=
  ⟨((listed_in_order ⟨⟨true, false⟩, 0⟩ parted _ (by rfl)).1 rfl).trans (by decide +kernel),
    ((listed_in_order ⟨⟨false, false⟩, 0⟩ parted _ (by rfl)).2.1 rfl).trans (by decide +kernel)⟩

end Template

end MustacheMarkup
