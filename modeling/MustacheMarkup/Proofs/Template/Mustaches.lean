import MustacheMarkup.Proofs.Journal.Ensures
import MustacheMarkup.Proofs.Nesting.Marks
import MustacheMarkup.Proofs.Template.Steps

/-!
# The mustaches of a tree

A token can be a mustache of any kind, but one that stays in the tree as a mustache stands for a
value that is inserted: those that open something become sections, and of the others nothing is
left. `Item.Inserts` says so of all mustaches in an item. It holds of everything that is built, from
any tokens and in any number of steps (`inserting_collect`), because it holds of each item as it is
made of what was built before.
-/

set_option autoImplicit false

namespace MustacheMarkup

open Building Journal

/-- Mustaches of this kind stand for values that are inserted, escaped or not. -/
def MustacheKind.Inserts (kind : MustacheKind) : Prop :=
  kind = .interpolation ∨ kind = .unescaped

/-- All mustaches in an item stand for values that are inserted, however deep they stand in content
and in sections. -/
def Item.Inserts (item : Item) : Prop :=
  ∀ kind reference, Mark.mustache kind reference ∈ item.shape.marks → kind.Inserts

/-! ## One item -/

/-- A text has no mustaches, whatever is trimmed of it. -/
theorem Item.inserts_text (content : String) : (Item.text content).Inserts := by
  simp [Item.Inserts, Item.shape, Shape.marks]

/-- A mustache is its own only mark. -/
theorem Item.inserts_mustache_iff {kind : MustacheKind} {reference : String} :
    (Item.mustache kind reference).Inserts ↔ kind.Inserts := by
  simp [Item.Inserts, Item.shape, Shape.marks]

/-- What items have as their marks is what each of them has. -/
theorem inserts_itemsMarks_iff {items : List Item} :
    (∀ kind reference, Mark.mustache kind reference ∈ itemsMarks items → kind.Inserts) ↔
      ∀ item ∈ items, item.Inserts := by
  induction items with
  | nil => simp [itemsMarks, itemShapes, shapesMarks]
  | cons item rest ih =>
    rw [itemsMarks_cons, List.forall_mem_cons, ← ih]
    simp only [List.mem_append, or_imp, forall_and]
    rfl

/-- The mustaches of a section are those of its items. -/
theorem Item.inserts_block_iff {reference : String} {inverted : Bool} {items : List Item} :
    (Item.block reference inverted items).Inserts ↔ ∀ item ∈ items, item.Inserts := by
  rw [← inserts_itemsMarks_iff]
  simp [Item.Inserts, Item.shape, Shape.marks, itemsMarks]

/-- The mustaches of an element are those of its content. -/
theorem Item.inserts_element_iff {e : Element} :
    (Item.element e).Inserts ↔ ∀ item ∈ e.content, item.Inserts := by
  rw [← inserts_itemsMarks_iff]
  obtain ⟨id, rawName, lowerName, kind, doctype, selfClosing, isVoid, closers, _ | children⟩ := e
  · simp [Item.Inserts, Item.shape, Element.shape, Shape.marks, Element.content, itemsMarks,
      itemShapes, shapesMarks]
  · simp [Item.Inserts, Item.shape, Element.shape, Shape.marks, Element.content, itemsMarks]

/-- Trimming makes no mustaches. -/
theorem inserts_keptOrTrimmed {items : List Item} (h : ∀ item ∈ items, item.Inserts) (kept : Bool) :
    ∀ item ∈ if kept then items else trimBoundary items, item.Inserts := by
  split
  · exact h
  · exact forall_mem_trimBoundary (fun content _ => Item.inserts_text content) h

/-! ## Building -/

namespace Building

/-- All mustaches in the content that is built stand for values that are inserted. -/
def Inserting (collect : Container → Bool → Building (List Item)) : Prop :=
  ∀ container keepBlanks, Ensures (collect container keepBlanks) fun items =>
    ∀ item ∈ items, item.Inserts

section

variable {settings : Settings} {collect : Container → Bool → Building (List Item)}

/-- A mustache stays one only if its kind says that a value is inserted. Those of the other kinds
become a section or an inclusion, or leave nothing. -/
theorem Inserting.mustache (h : Inserting collect) (keepBlanks : Bool) (kind : MustacheKind)
    (reference : String) (line : Nat) :
    Ensures (mustacheWith collect keepBlanks kind reference line) fun item =>
      ∀ i ∈ item.toList, i.Inserts := by
  have hblock : ∀ inverted, Ensures (do
      let items ← collect (.block reference) keepBlanks
      return some (Item.block reference inverted items)) fun item => ∀ i ∈ item.toList, i.Inserts :=
    fun inverted => (h (.block reference) keepBlanks).bind fun items hitems =>
      ensures_pure (List.forall_mem_singleton.mpr (Item.inserts_block_iff.mpr hitems))
  cases kind with
  | interpolation =>
    exact ensures_pure (List.forall_mem_singleton.mpr (Item.inserts_mustache_iff.mpr (.inl rfl)))
  | unescaped =>
    exact ensures_pure (List.forall_mem_singleton.mpr (Item.inserts_mustache_iff.mpr (.inr rfl)))
  | inclusion =>
    refine ensures_pure (List.forall_mem_singleton.mpr ?_)
    simp [Item.Inserts, Item.shape, Shape.marks]
  | remark => exact ensures_pure (List.forall_mem_nil _)
  | closing => exact ensures_bind _ fun _ => ensures_pure (List.forall_mem_nil _)
  | opening => exact hblock false
  | inverted => exact hblock true

/-- The content of an element was built before. -/
theorem Inserting.element (h : Inserting collect) (keepBlanks : Bool) (tag : Tag) (span : Span) :
    Ensures (elementWith settings collect keepBlanks tag span) fun e =>
      (Item.element e).Inserts := by
  unfold elementWith
  refine ensures_bind _ fun _ => ensures_bind _ fun index => ensures_bind _ fun kind => ?_
  dsimp only
  split
  · exact ensures_bind _ fun _ => ensures_pure
      (Item.inserts_element_iff.mpr (List.forall_mem_nil _))
  · refine ensures_bind _ fun _ => (h _ _).bind fun children hchildren => ensures_pure ?_
    exact Item.inserts_element_iff.mpr (inserts_keptOrTrimmed hchildren _)

/-- Whatever the next token is, what is made of it has no other mustaches. -/
theorem Inserting.nextItem (h : Inserting collect) (keepBlanks : Bool) :
    Ensures (nextItemWith settings collect keepBlanks) fun item =>
      ∀ i ∈ item.toList, i.Inserts := by
  refine ensures_bind _ fun next => ?_
  split
  · exact ensures_pure (List.forall_mem_nil _)
  · exact ensures_bind _ fun content =>
      ensures_pure (List.forall_mem_singleton.mpr (Item.inserts_text _))
  · refine ensures_bind _ fun _ => ensures_pure (List.forall_mem_singleton.mpr ?_)
    simp [Item.Inserts, Item.shape, Shape.marks]
  · exact ensures_bind _ fun _ => h.mustache keepBlanks _ _ _
  · rename_i tag span
    split
    · exact ensures_bind _ fun _ => ensures_bind _ fun _ => ensures_pure (List.forall_mem_nil _)
    · exact (h.element keepBlanks tag span).map fun e he => List.forall_mem_singleton.mpr he

end

/-- However many steps are allowed: the induction is on them. -/
theorem inserting_collect (settings : Settings) (n : Nat) : Inserting (collect settings n) := by
  induction n with
  | zero => exact fun _ _ => ensures_pure (List.forall_mem_nil _)
  | succ n ih =>
    intro container keepBlanks
    refine ensures_bind _ fun ended => ?_
    split
    · exact ensures_pure (List.forall_mem_nil _)
    · refine (ih.nextItem keepBlanks).bind fun item hitem => ?_
      refine (ih container keepBlanks).bind fun items hitems => ensures_pure ?_
      exact List.forall_mem_append.mpr ⟨hitem, hitems⟩

/-- All content that is built has mustaches only for values that are inserted. -/
theorem inserting_items (settings : Settings) : Inserting (items settings) :=
  fun container keepBlanks c =>
    inserting_collect settings (Token.totalWeight c.tokens) container keepBlanks c

end Building

end MustacheMarkup
