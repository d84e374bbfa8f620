import MustacheMarkup.Proofs.Item.Trim
import MustacheMarkup.Proofs.Nesting.Closing
import MustacheMarkup.Proofs.Nesting.Descent
import MustacheMarkup.Proofs.Nesting.Makes

/-!
# Sections nest by their mustaches alone

The sections of a template without the elements between them are a forest. To find it, one only has
to match the mustaches that open and close sections: each closing mustache closes the innermost
section that is open, whatever its reference, or nothing if none is open; what is open at the end
runs up to the end. Tags, texts and comments have no part in it.

The stack machine of `Nesting` has elements on its stack as well. `Nesting.sectioned` forgets them
and hands what stands in them on to the section around them. To open or close an element changes
nothing there, and the rest of a step is a step of the matching (`sectioned_step`).
-/

set_option autoImplicit false

namespace MustacheMarkup

/-- A section with the sections in it. -/
inductive SectionTree where
  | node (reference : String) (inverted : Bool) (inner : List SectionTree)

/-! ## Matching -/

/-- A mustache that opens a section, or one that closes a section. -/
inductive SectionMark where
  | opening (reference : String) (inverted : Bool)
  | closing
deriving Repr, DecidableEq

/-- What a token does to sections, if it does anything. The reference of a closing mustache does not
count. -/
def Lexeme.sectionMark? : Lexeme → Option SectionMark
  | .mustache .opening reference => some (.opening reference false)
  | .mustache .inverted reference => some (.opening reference true)
  | .mustache .closing _ => some .closing
  | _ => none

/-- The mustaches among tokens that open and close sections. -/
def sectionMarks (tokens : List Token) : List SectionMark :=
  tokens.filterMap fun t => t.lexeme.sectionMark?

/-- A section that is open, and the sections before it in the one around it. -/
structure OpenSection where
  reference : String
  inverted : Bool
  before : List SectionTree

/-- The section with what stands in it. -/
def OpenSection.tree (s : OpenSection) (inner : List SectionTree) : SectionTree :=
  .node s.reference s.inverted inner

/-- The sections in the innermost one that is open, and what is open, innermost first. -/
structure Matching where
  inner : List SectionTree
  frames : List OpenSection

namespace Matching

/-- Nothing has been read. -/
def empty : Matching := ⟨[], []⟩

/-- Read a mark: open a section, or close the innermost one if one is open. -/
def step : Matching → SectionMark → Matching
  | ⟨inner, frames⟩, .opening reference inverted => ⟨[], ⟨reference, inverted, inner⟩ :: frames⟩
  | ⟨inner, []⟩, .closing => ⟨inner, []⟩
  | ⟨inner, s :: frames⟩, .closing => ⟨s.before ++ [s.tree inner], frames⟩

/-- Close all sections that are open. -/
def finish : List SectionTree → List OpenSection → List SectionTree
  | inner, [] => inner
  | inner, s :: frames => finish (s.before ++ [s.tree inner]) frames

end Matching

/-- The sections that marks make, each closing mark matched with the innermost open section. -/
def matchedSections (marks : List SectionMark) : List SectionTree :=
  let m := marks.foldl Matching.step Matching.empty
  Matching.finish m.inner m.frames

/-! ## The sections of items and of parts -/

mutual

/-- The sections of an item. An element has those in its content. -/
def Item.sections : Item → List SectionTree
  | .block reference inverted items => [.node reference inverted (itemsSections items)]
  | .element e => e.sections
  | _ => []

/-- The sections in the content of an element. -/
def Element.sections : Element → List SectionTree
  | ⟨_, _, _, _, _, _, _, _, none⟩ => []
  | ⟨_, _, _, _, _, _, _, _, some children⟩ => itemsSections children

/-- The sections of items. -/
def itemsSections : List Item → List SectionTree
  | [] => []
  | item :: rest => item.sections ++ itemsSections rest

end

mutual

/-- The sections of a part. An element has those in its content. -/
def Nested.sections : Nested → List SectionTree
  | .block reference inverted content => [.node reference inverted (partsSections content)]
  | .element _ _ (some content) => partsSections content
  | _ => []

/-- The sections of parts. -/
def partsSections : List Nested → List SectionTree
  | [] => []
  | n :: rest => n.sections ++ partsSections rest

end

/-- The sections of one part more stand behind those of the others. -/
theorem partsSections_concat (parts : List Nested) (n : Nested) :
    partsSections (parts ++ [n]) = partsSections parts ++ n.sections := by
  induction parts with
  | nil => simp [partsSections]
  | cons n' rest ih => simp [partsSections, ih]

/-- The sections of items are those of each, in order. -/
theorem itemsSections_eq (items : List Item) :
    itemsSections items = items.flatMap Item.sections := by
  induction items with
  | nil => rfl
  | cons item rest ih => rw [itemsSections, ih, List.flatMap_cons]

/-- Only texts are trimmed, no sections. -/
theorem itemsSections_keptOrTrimmed (kept : Bool) (items : List Item) :
    itemsSections (if kept then items else trimBoundary items) = itemsSections items := by
  rw [itemsSections_eq, itemsSections_eq]
  exact flatMap_keptOrTrimmed (fun _ => rfl) kept items

mutual

/-- An item has the sections of the part that it is made of. -/
theorem sections_of_makes {settings : Settings} {keepBlanks : Bool} {index later : Nat} {n : Nested}
    {item : Item} (h : n.Makes settings keepBlanks index item later) :
    item.sections = n.sections := by
  match h with
  | .text .. | .mustache .. | .inclusion .. | .comment .. | .alone .. => rfl
  | .block _ _ hcontent => rw [Item.sections, Nested.sections, sections_of_makesAll hcontent]
  | .element _ hcontent =>
    rw [Nested.sections, ← sections_of_makesAll hcontent]
    exact itemsSections_keptOrTrimmed _ _

/-- Items have the sections of the parts that they are built of. -/
theorem sections_of_makesAll {settings : Settings} {keepBlanks : Bool} {index later : Nat}
    {parts : List Nested} {items : List Item}
    (h : MakesAll settings keepBlanks index parts items later) :
    itemsSections items = partsSections parts := by
  match h with
  | .nil .. => rfl
  | .cons hitem hitems =>
    rw [itemsSections, partsSections, sections_of_makes hitem, sections_of_makesAll hitems]

end

/-! ## Forgetting elements -/

namespace Nesting

/-- The sections that are open and the sections in them, where all elements are forgotten. What
stands in an open element stands in the section around it, behind what is before the element. -/
def sectionedBy : List SectionTree → List Frame → Matching
  | inner, [] => ⟨inner, []⟩
  | inner, ⟨.element _ _, before⟩ :: frames => sectionedBy (partsSections before ++ inner) frames
  | inner, ⟨.block reference inverted, before⟩ :: frames =>
    let around := sectionedBy (partsSections before) frames
    ⟨inner, ⟨reference, inverted, around.inner⟩ :: around.frames⟩

/-- What has been read, with all elements forgotten. -/
def sectioned (s : Nesting) : Matching :=
  sectionedBy (partsSections s.content) s.frames

/-- Sections that come later stand behind those that the innermost open section has already. -/
theorem sectionedBy_append (inner more : List SectionTree) (frames : List Frame) :
    sectionedBy (inner ++ more) frames =
      ⟨(sectionedBy inner frames).inner ++ more, (sectionedBy inner frames).frames⟩ := by
  induction frames generalizing inner with
  | nil => rfl
  | cons f frames ih =>
    obtain ⟨⟨reference, inverted⟩ | ⟨tag, span⟩, before⟩ := f
    · rfl
    · rw [sectionedBy, ← List.append_assoc, ih, sectionedBy]

/-- A part that is added adds its sections. -/
theorem sectioned_add (n : Nested) (s : Nesting) :
    (s.add n).sectioned = ⟨s.sectioned.inner ++ n.sections, s.sectioned.frames⟩ := by
  unfold sectioned add
  rw [partsSections_concat, sectionedBy_append]

/-- A part without sections adds none, so texts and the like are not seen. -/
theorem sectioned_add_of_nil {n : Nested} (h : n.sections = []) (s : Nesting) :
    (s.add n).sectioned = s.sectioned := by
  rw [sectioned_add, h, List.append_nil]

/-- To open an element opens no section. -/
theorem sectioned_enter_element (tag : Tag) (span : Span) (s : Nesting) :
    (s.enter (.element tag span)).sectioned = s.sectioned := by
  simp only [sectioned, enter, sectionedBy, partsSections, List.append_nil]

/-- To close an element closes no section. -/
theorem sectioned_leave_element (tag : Tag) (span : Span) (content before : List Nested)
    (frames : List Frame) :
    sectioned ⟨before ++ [.element tag span (some content)], frames⟩ =
      sectioned ⟨content, ⟨.element tag span, before⟩ :: frames⟩ := by
  simp only [sectioned, partsSections_concat, Nested.sections, sectionedBy]

/-- To close the innermost section is to read a closing mark. -/
theorem sectioned_leave_block (reference : String) (inverted : Bool) (content before : List Nested)
    (frames : List Frame) :
    sectioned ⟨before ++ [.block reference inverted content], frames⟩ =
      (sectioned ⟨content, ⟨.block reference inverted, before⟩ :: frames⟩).step .closing := by
  simp only [sectioned, partsSections_concat, Nested.sections, sectionedBy, sectionedBy_append,
    Matching.step, OpenSection.tree]

/-- To leave siblings closes elements only, which are no sections. -/
theorem sectioned_leaveSiblings (name : String) (content : List Nested) (frames : List Frame) :
    (leaveSiblings name content frames).sectioned = sectioned ⟨content, frames⟩ := by
  fun_induction leaveSiblings name content frames with
  | case1 content tag span before frames hcloses ih => rw [ih, sectioned_leave_element]
  | case2 => rfl
  | case3 => rfl

/-- To leave an element closes elements only, up to the innermost section that is open. -/
theorem sectioned_leaveElement (name : String) (content : List Nested) (frames : List Frame) :
    (leaveElement name content frames).sectioned = sectioned ⟨content, frames⟩ := by
  fun_induction leaveElement name content frames with
  | case1 content tag span before frames hname => rw [sectioned_leave_element]
  | case2 content tag span before frames hname ih => rw [ih, sectioned_leave_element]
  | case3 => rfl

/-- To leave a section is to match a closing mark. -/
theorem sectioned_leaveBlock (content : List Nested) (frames : List Frame) :
    (leaveBlock content frames).sectioned = (sectioned ⟨content, frames⟩).step .closing := by
  fun_induction leaveBlock content frames with
  | case1 content tag span before frames ih => rw [ih, sectioned_leave_element]
  | case2 content reference inverted before frames => rw [sectioned_leave_block]
  | case3 => rfl

/-- What is closed at the end are the sections that are open. -/
theorem partsSections_leaveAll (content : List Nested) (frames : List Frame) :
    partsSections (leaveAll content frames) =
      Matching.finish (sectioned ⟨content, frames⟩).inner (sectioned ⟨content, frames⟩).frames := by
  fun_induction leaveAll content frames with
  | case1 => rfl
  | case2 content f frames ih =>
    rw [ih]
    obtain ⟨⟨reference, inverted⟩ | ⟨tag, span⟩, before⟩ := f
    · simp only [Opening.nested, sectioned_leave_block]
      rfl
    · simp only [Opening.nested, sectioned_leave_element]

/-- An opening tag is not seen. -/
theorem sectioned_openTag (s : Nesting) (tag : Tag) (span : Span) :
    (s.openTag tag span).sectioned = s.sectioned := by
  have hleft := sectioned_leaveSiblings (Text.lower tag.name) s.content s.frames
  unfold openTag
  dsimp only
  split
  · rw [sectioned_add_of_nil rfl, hleft]
  · rw [sectioned_enter_element, hleft]

/-- To read a token is to read its mark, if it has one. A tag has none: it may close elements, but
sections are closed by mustaches only. -/
theorem sectioned_step (s : Nesting) (t : Token) :
    (s.step t).sectioned = t.lexeme.sectionMark?.toList.foldl Matching.step s.sectioned := by
  obtain ⟨lexeme, span⟩ := t
  cases lexeme with
  | text content => exact sectioned_add_of_nil rfl s
  | comment content => exact sectioned_add_of_nil rfl s
  | mustache kind reference =>
    cases kind with
    | interpolation => exact sectioned_add_of_nil rfl s
    | unescaped => exact sectioned_add_of_nil rfl s
    | inclusion => exact sectioned_add_of_nil rfl s
    | remark => rfl
    | opening => rfl
    | inverted => rfl
    | closing => exact sectioned_leaveBlock s.content s.frames
  | tag tag =>
    simp only [step]
    split
    · exact sectioned_leaveElement (Text.lower tag.name) s.content s.frames
    · exact sectioned_openTag s tag span

/-- The machine matches sections as the marks of the tokens do, whatever elements stand
in between. -/
theorem sectioned_foldl_step (s : Nesting) (tokens : List Token) :
    (tokens.foldl step s).sectioned = (sectionMarks tokens).foldl Matching.step s.sectioned := by
  induction tokens generalizing s with
  | nil => rfl
  | cons t rest ih =>
    have hmarks : sectionMarks (t :: rest) =
        t.lexeme.sectionMark?.toList ++ sectionMarks rest := by
      unfold sectionMarks
      rw [List.filterMap_cons]
      cases t.lexeme.sectionMark? <;> rfl
    rw [List.foldl_cons, ih, sectioned_step, hmarks, List.foldl_append]

/-- To put neighbouring texts together changes no mark. -/
theorem sectionMarks_joinTexts (tokens : List Token) :
    sectionMarks (joinTexts tokens) = sectionMarks tokens :=
  filterMap_joinTexts (fun _ _ => rfl) tokens

/-- The sections of a template are those that its marks make. -/
theorem sections_ofTokens (tokens : List Token) :
    partsSections (ofTokens tokens) = matchedSections (sectionMarks tokens) := by
  unfold ofTokens finish run
  rw [partsSections_leaveAll]
  have hfold := sectioned_foldl_step empty (joinTexts tokens)
  rw [sectionMarks_joinTexts] at hfold
  show Matching.finish ((joinTexts tokens).foldl step empty).sectioned.inner
    ((joinTexts tokens).foldl step empty).sectioned.frames = _
  rw [hfold]
  rfl

end Nesting

/-! ## Templates -/

namespace Template

/-- The sections of a template are those that its marks make. -/
theorem itemsSections_of_ofTokens {settings : Settings} {tokens : List Token} {items : List Item}
    (hitems : (ofTokens settings tokens).result = .ok items) :
    itemsSections items = matchedSections (sectionMarks tokens) := by
  obtain ⟨built, hbuilt, rfl, -⟩ := exists_buildAll_of_ofTokens hitems
  rw [itemsSections_keptOrTrimmed, sections_of_makesAll (makesAll_of_buildAll _ hbuilt),
    Nesting.sections_ofTokens]

/-- The sections of a template that is built are those that its marks make, whatever stands between
these. So any other template with the same marks has the same sections. -/
theorem sections_matched (settings : Settings) (tokens : List Token) (items : List Item)
    (hitems : (ofTokens settings tokens).result = .ok items) :
    itemsSections items = matchedSections (sectionMarks tokens) ∧
      ∀ (settings' : Settings) (tokens' : List Token) (items' : List Item),
        sectionMarks tokens' = sectionMarks tokens →
        (ofTokens settings' tokens').result = .ok items' →
          itemsSections items' = itemsSections items := by
  have hsections := itemsSections_of_ofTokens hitems
  refine ⟨hsections, fun settings' tokens' items' hmarks hitems' => ?_⟩
  rw [hsections, itemsSections_of_ofTokens hitems', hmarks]

/-- Sections whose ends cut through elements: the first is closed by a mustache of another name with
two elements open in it, a closing mustache closes an element where no section is open, and the last
section is open at the end. -/
def cutElements : List Token :=
  let openTag (name : String) : Token := ⟨.tag ⟨name, [], false, false, false⟩, default⟩
  [openTag "p", ⟨.mustache .opening "s", default⟩, openTag "b", ⟨.mustache .inverted "t", default⟩,
    openTag "i", ⟨.mustache .closing "s", default⟩, openTag "u", ⟨.mustache .closing "", default⟩,
    ⟨.text "x", default⟩, ⟨.mustache .closing "s", default⟩, ⟨.text "y", default⟩,
    ⟨.mustache .opening "v", default⟩, ⟨.tag ⟨"p", [], true, false, false⟩, default⟩]

/-- The same marks with nothing between them. -/
def marksAlone : List Token :=
  [⟨.mustache .opening "s", default⟩, ⟨.mustache .inverted "t", default⟩,
    ⟨.mustache .closing "t", default⟩, ⟨.mustache .closing "s", default⟩,
    ⟨.mustache .closing "", default⟩, ⟨.mustache .opening "v", default⟩]

/-- Where the ends of sections cut through elements, the sections are matched as if no tag were
there. -/
theorem cutElements_sections_matched :
    let element (index : Nat) (name : String) (children : List Item) : Item :=
      .element ⟨⟨0, index⟩, name, name, .html ⟨name, [], [], none, none, none⟩, false, false,
        Vocabulary.isVoid name, Vocabulary.closers? name, some children⟩
    let items : List Item := [element 0 "p" [.block "s" false [element 1 "b" [.block "t" true
      [element 2 "i" []], element 3 "u" []]], .text "x"], .text "y", .block "v" false []]
    let bare : List Item := [.block "s" false [.block "t" true []], .block "v" false []]
    sectionMarks marksAlone = sectionMarks cutElements ∧
      itemsSections items = matchedSections (sectionMarks cutElements) ∧
      itemsSections bare = itemsSections items ∧
      itemsSections bare = [.node "s" false [.node "t" true []], .node "v" false []] :=
  have h := sections_matched ⟨⟨true, false⟩, 0⟩ cutElements _ (by rfl)
  ⟨rfl, h.1, h.2 ⟨⟨false, false⟩, 0⟩ marksAlone _ rfl (by rfl), rfl⟩

end Template

end MustacheMarkup
