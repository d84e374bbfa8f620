import MustacheMarkup.Proofs.Item.Tidy
import MustacheMarkup.Proofs.Item.Trim
import MustacheMarkup.Proofs.Text.BlankEnds

/-!
# Blanks at the ends of a list

To trim a list looks once at its first item and once at its last. If the first is a text of blanks
only it is dropped, and what stood behind it is not looked at again. So a list starts with a blank
after trimming if and only if a text of blanks only stood before a text that starts with one, and in
the same way for its end. Two texts stand side by side only where a token between them left nothing.
-/

set_option autoImplicit false

namespace MustacheMarkup

/-! ## Ends of lists -/

/-- Items start with a text that starts with a blank. -/
def StartsBlank (items : List Item) : Prop :=
  ∃ content rest, items = .text content :: rest ∧ Text.startsBlank content = true

/-- Items end with a text that ends with a blank. -/
def EndsBlank (items : List Item) : Prop :=
  ∃ before content, items = before ++ [.text content] ∧ Text.endsBlank content = true

/-- Items start with a text of blanks only and a text behind it that starts with a blank, and there
is something else than blanks. -/
def HidesBlankStart (items : List Item) : Prop :=
  ∃ content content' rest, items = .text content :: .text content' :: rest ∧
    Text.allBlank content = true ∧ Text.startsBlank content' = true ∧
    (rest = [] → Text.allBlank content' = false)

/-- Items end with a text of blanks only and a text before it that ends with a blank, and there is
something else than blanks. -/
def HidesBlankEnd (items : List Item) : Prop :=
  ∃ before content' content, items = before ++ [.text content', .text content] ∧
    Text.allBlank content = true ∧ Text.endsBlank content' = true ∧
    (before = [] → Text.allBlank content' = false)

/-- Whether items hide a blank at their start, by a look at the first two. -/
def startHides : List Item → Bool
  | .text content :: .text content' :: rest =>
    Text.allBlank content && Text.startsBlank content' &&
      (!rest.isEmpty || !Text.allBlank content')
  | _ => false

/-- The look at the first two items finds what the definition speaks of. -/
theorem startHides_iff {items : List Item} : startHides items = true ↔ HidesBlankStart items := by
  constructor
  · intro h
    unfold startHides at h
    split at h
    · rename_i content content' rest
      rw [Bool.and_eq_true, Bool.and_eq_true] at h
      refine ⟨content, content', rest, rfl, h.1.1, h.1.2, ?_⟩
      rintro rfl
      simpa using h.2
    · cases h
  · rintro ⟨content, content', rest, rfl, hblank, hstarts, hrest⟩
    rw [startHides, hblank, hstarts]
    cases rest with
    | nil => simp [hrest rfl]
    | cons => rfl

/-- Whether items hide a blank at their start can be computed. -/
instance (items : List Item) : Decidable (HidesBlankStart items) :=
  decidable_of_iff _ startHides_iff

/-! ## Trimming -/

/-- To trim the first item: a text of blanks only is dropped, and any other text loses those at its
start. -/
theorem trimFirst_text (content : String) (rest : List Item) :
    trimFirst (.text content :: rest) =
      if Text.allBlank content then rest else .text (Text.trimStart content) :: rest := by
  rw [trimFirst, Text.isEmpty_trimStart]

/-- To trim the last item, in the same way. The list is taken apart at its end. -/
theorem trimLast_text (before : List Item) (content : String) :
    trimLast (before ++ [.text content]) =
      before ++ if Text.allBlank content then [] else [.text (Text.trimEnd content)] := by
  induction before with
  | nil =>
    rw [List.nil_append, List.nil_append, trimLast, Text.isEmpty_trimEnd]
  | cons item rest ih =>
    obtain ⟨next, more, hmore⟩ : ∃ next more, rest ++ [.text content] = next :: more :=
      List.exists_cons_of_ne_nil (by simp)
    rw [List.cons_append, hmore, trimLast_cons_cons, ← hmore, ih, List.cons_append]

/-- An item that is no text stays as it is at the end of a list. -/
theorem trimLast_concat_of_ne {item : Item} (h : ∀ content, item ≠ .text content)
    (before : List Item) : trimLast (before ++ [item]) = before ++ [item] := by
  induction before with
  | nil => exact trimLast_of_ne h
  | cons first rest ih =>
    obtain ⟨next, more, hmore⟩ : ∃ next more, rest ++ [item] = next :: more :=
      List.exists_cons_of_ne_nil (by simp)
    rw [List.cons_append, hmore, trimLast_cons_cons, ← hmore, ih]

/-- All that trimming can do at the start of a list, as three cases that say what the first item
was. -/
theorem trimFirst_cons_cases (item : Item) (rest : List Item) :
    (∃ content, item = .text content ∧ Text.allBlank content = true ∧
      trimFirst (item :: rest) = rest) ∨
    (∃ content, item = .text content ∧ Text.allBlank content = false ∧
      trimFirst (item :: rest) = .text (Text.trimStart content) :: rest) ∨
    ((∀ content, item ≠ .text content) ∧ trimFirst (item :: rest) = item :: rest) := by
  cases item with
  | text content =>
    rw [trimFirst_text]
    cases hall : Text.allBlank content with
    | true => exact .inl ⟨content, rfl, hall, if_pos rfl⟩
    | false => exact .inr (.inl ⟨content, rfl, hall, if_neg Bool.false_ne_true⟩)
  | _ => exact .inr (.inr ⟨(fun _ h => by cases h), rfl⟩)

/-! ## The start -/

/-- The start of items is still there when their end is trimmed, unless that takes all of them, as
it does with a single text of blanks only. -/
theorem startsBlank_trimLast_iff (items : List Item) : StartsBlank (trimLast items) ↔
    ∃ content rest, items = .text content :: rest ∧ Text.startsBlank content = true ∧
      (rest = [] → Text.allBlank content = false) := by
  constructor
  · rintro ⟨content, rest, heq, hstart⟩
    obtain - | ⟨item, - | ⟨next, more⟩⟩ := items
    · cases heq
    · cases item with
      | text content' =>
        have htrim := trimLast_text [] content'
        rw [List.nil_append, heq, List.nil_append] at htrim
        clear heq
        cases hall : Text.allBlank content' with
        | true =>
          rw [hall, if_pos rfl] at htrim
          cases htrim
        | false =>
          rw [hall, if_neg Bool.false_ne_true] at htrim
          obtain ⟨hcontent, -⟩ := List.cons.inj htrim
          rw [Item.text.inj hcontent, Text.startsBlank_trimEnd hall] at hstart
          exact ⟨content', [], rfl, hstart, fun _ => hall⟩
      | _ => cases heq
    · rw [trimLast_cons_cons] at heq
      obtain ⟨rfl, -⟩ := List.cons.inj heq
      exact ⟨content, next :: more, rfl, hstart, fun h => by cases h⟩
  · rintro ⟨content, rest, rfl, hstart, hrest⟩
    cases rest with
    | nil =>
      have htrim := trimLast_text [] content
      rw [hrest rfl, if_neg Bool.false_ne_true, List.nil_append, List.nil_append] at htrim
      rw [htrim]
      exact ⟨_, [], rfl, (Text.startsBlank_trimEnd (hrest rfl)).trans hstart⟩
    | cons next more =>
      rw [trimLast_cons_cons]
      exact ⟨content, _, rfl, hstart⟩

/-- A list that is trimmed starts with a blank only if one was hidden at its start. A first text
that is kept has lost its blanks, so one can only be in a second text. -/
theorem startsBlank_trimBoundary_iff (items : List Item) :
    StartsBlank (trimBoundary items) ↔ HidesBlankStart items := by
  rw [trimBoundary, startsBlank_trimLast_iff]
  cases items with
  | nil =>
    constructor
    · rintro ⟨_, _, heq, -⟩
      cases heq
    · rintro ⟨_, _, _, heq, -⟩
      cases heq
  | cons item rest =>
    rcases trimFirst_cons_cases item rest with
      ⟨content, rfl, hall, htrim⟩ | ⟨content, rfl, hall, htrim⟩ | ⟨hne, htrim⟩
    · rw [htrim]
      constructor
      · rintro ⟨content', more, rfl, hstart, hmore⟩
        exact ⟨content, content', more, rfl, hall, hstart, hmore⟩
      · rintro ⟨_, content', more, heq, -, hstart, hmore⟩
        exact ⟨content', more, (List.cons.inj heq).2, hstart, hmore⟩
    · rw [htrim]
      constructor
      · rintro ⟨content', more, heq, hstart, -⟩
        obtain ⟨hcontent, -⟩ := List.cons.inj heq
        rw [← Item.text.inj hcontent, Text.startsBlank_trimStart] at hstart
        cases hstart
      · rintro ⟨content', _, _, heq, hall', -⟩
        obtain ⟨hcontent, -⟩ := List.cons.inj heq
        rw [← Item.text.inj hcontent, hall] at hall'
        cases hall'
    · rw [htrim]
      constructor
      · rintro ⟨content, _, heq, -⟩
        exact absurd (List.cons.inj heq).1 (hne content)
      · rintro ⟨content, _, _, heq, -⟩
        exact absurd (List.cons.inj heq).1 (hne content)

/-! ## The end -/

/-- Items are none, or they end with a text, or with something else. -/
theorem eq_concat_cases (items : List Item) :
    items = [] ∨ (∃ before content, items = before ++ [.text content]) ∨
      ∃ before item, items = before ++ [item] ∧ ∀ content, item ≠ .text content := by
  rcases List.eq_nil_or_concat items with h | ⟨before, item, h⟩
  · exact .inl h
  · rw [List.concat_eq_append] at h
    cases item with
    | text content => exact .inr (.inl ⟨before, content, h⟩)
    | _ => exact .inr (.inr ⟨before, _, h, fun _ hne => by cases hne⟩)

/-- Lists that are taken apart at their ends are the same only if both parts are. -/
theorem concat_inj {before before' : List Item} {item item' : Item}
    (h : before ++ [item] = before' ++ [item']) : before = before' ∧ item = item' := by
  obtain ⟨hbefore, hitem⟩ := List.append_inj' h rfl
  exact ⟨hbefore, (List.cons.inj hitem).1⟩

/-- When the end of items is trimmed, a blank is there only if what is taken away stood
behind it. -/
theorem endsBlank_trimLast_iff (items : List Item) : EndsBlank (trimLast items) ↔
    ∃ before content' content, items = before ++ [.text content', .text content] ∧
      Text.allBlank content = true ∧ Text.endsBlank content' = true := by
  have hpair : ∀ (before : List Item) (content' content : String),
      before ++ [.text content', .text content] =
        (before ++ [.text content']) ++ [.text content] := by
    intro before content' content
    rw [List.append_assoc, List.singleton_append]
  rcases eq_concat_cases items with rfl | ⟨before, content, rfl⟩ | ⟨before, item, rfl, hne⟩
  · constructor
    · rintro ⟨before, content, heq, -⟩
      exact absurd heq.symm (by simp [trimLast])
    · rintro ⟨before, content', content, heq, -⟩
      exact absurd heq.symm (by simp)
  · rw [trimLast_text]
    cases hall : Text.allBlank content with
    | true =>
      rw [if_pos rfl, List.append_nil]
      constructor
      · rintro ⟨before', content', rfl, hend⟩
        exact ⟨before', content', content, (hpair _ _ _).symm, hall, hend⟩
      · rintro ⟨before', content', content'', heq, -, hend⟩
        rw [hpair] at heq
        exact ⟨before', content', (concat_inj heq).1, hend⟩
    | false =>
      rw [if_neg Bool.false_ne_true]
      constructor
      · rintro ⟨before', content', heq, hend⟩
        rw [← Item.text.inj (concat_inj heq).2, Text.endsBlank_trimEnd] at hend
        cases hend
      · rintro ⟨before', content', content'', heq, hall', -⟩
        rw [hpair] at heq
        rw [← Item.text.inj (concat_inj heq).2, hall] at hall'
        cases hall'
  · rw [trimLast_concat_of_ne hne]
    constructor
    · rintro ⟨before', content, heq, -⟩
      exact absurd (concat_inj heq).2 (hne content)
    · rintro ⟨before', content', content, heq, -⟩
      rw [hpair] at heq
      exact absurd (concat_inj heq).2 (hne content)

/-- A list that is trimmed ends with a blank only if one was hidden at its end. By then the start
has been trimmed, which changes the end only if the list is a single text. -/
theorem endsBlank_trimBoundary_iff (items : List Item) :
    EndsBlank (trimBoundary items) ↔ HidesBlankEnd items := by
  rw [trimBoundary, endsBlank_trimLast_iff]
  constructor
  · rintro ⟨before, content', content, heq, hall, hend⟩
    cases items with
    | nil => exact absurd heq.symm (by simp [trimFirst])
    | cons item rest =>
      rcases trimFirst_cons_cases item rest with
        ⟨first, rfl, hfirst, htrim⟩ | ⟨first, rfl, hfirst, htrim⟩ | ⟨hne, htrim⟩
      · refine ⟨.text first :: before, content', content, ?_, hall, hend, fun h => by cases h⟩
        rw [List.cons_append, ← heq, htrim]
      · rw [htrim] at heq
        cases before with
        | nil =>
          obtain ⟨hcontent, rfl⟩ := List.cons.inj heq
          rw [← Item.text.inj hcontent, Text.endsBlank_trimStart hfirst] at hend
          exact ⟨[], first, content, rfl, hall, hend, fun _ => hfirst⟩
        | cons first' before =>
          obtain ⟨-, rfl⟩ := List.cons.inj heq
          exact ⟨.text first :: before, content', content, rfl, hall, hend, fun h => by cases h⟩
      · refine ⟨before, content', content, htrim.symm.trans heq, hall, hend, ?_⟩
        rintro rfl
        rw [htrim] at heq
        exact absurd (List.cons.inj heq).1 (hne content')
  · rintro ⟨before, content', content, rfl, hall, hend, hbefore⟩
    cases before with
    | nil =>
      have hcontent := hbefore rfl
      refine ⟨[], Text.trimStart content', content, ?_, hall, ?_⟩
      · rw [List.nil_append, trimFirst_text, hcontent, if_neg Bool.false_ne_true, List.nil_append]
      · rw [Text.endsBlank_trimStart hcontent, hend]
    | cons item before =>
      rw [List.cons_append]
      rcases trimFirst_cons_cases item (before ++ [.text content', .text content]) with
        ⟨first, -, -, htrim⟩ | ⟨first, -, -, htrim⟩ | ⟨-, htrim⟩
      · exact ⟨before, content', content, htrim, hall, hend⟩
      · exact ⟨.text (Text.trimStart first) :: before, content', content, htrim, hall, hend⟩
      · exact ⟨item :: before, content', content, htrim, hall, hend⟩

/-! ## Tidying -/

/-- To tidy a list tidies each of its items. -/
theorem itemsTidied_eq (items : List Item) : itemsTidied items = items.map Item.tidied := by
  induction items with
  | nil => rfl
  | cons item rest ih => rw [itemsTidied, ih, List.map_cons]

/-- An item is a text after tidying exactly if it was one before, and then its blanks
are collapsed. -/
theorem tidied_eq_text_iff {item : Item} {content : String} : item.tidied = .text content ↔
    ∃ content', item = .text content' ∧ content = Text.collapse content' := by
  constructor
  · intro h
    cases item with
    | text content' => exact ⟨content', rfl, (Item.text.inj h).symm⟩
    | _ => cases h
  · rintro ⟨content', rfl, rfl⟩
    rw [Item.tidied]

/-- To tidy the items of a list hides no blank at its start and uncovers none: a text of blanks only
is still one when it is tidied, and one that starts with a blank still does. -/
theorem hidesBlankStart_itemsTidied (items : List Item) :
    HidesBlankStart (itemsTidied items) ↔ HidesBlankStart items := by
  rw [itemsTidied_eq]
  constructor
  · rintro ⟨content, content', rest, heq, hall, hstart, hrest⟩
    obtain ⟨item, more, rfl, hitem, hmore⟩ := List.map_eq_cons_iff.mp heq
    obtain ⟨item', more', rfl, hitem', rfl⟩ := List.map_eq_cons_iff.mp hmore
    obtain ⟨first, rfl, rfl⟩ := tidied_eq_text_iff.mp hitem
    obtain ⟨second, rfl, rfl⟩ := tidied_eq_text_iff.mp hitem'
    rw [Text.allBlank_collapse] at hall hrest
    rw [Text.startsBlank_collapse] at hstart
    exact ⟨first, second, more', rfl, hall, hstart, fun h => hrest (by rw [h, List.map_nil])⟩
  · rintro ⟨content, content', rest, rfl, hall, hstart, hrest⟩
    refine ⟨Text.collapse content, Text.collapse content', rest.map Item.tidied, ?_, ?_, ?_, ?_⟩
    · rw [List.map_cons, List.map_cons, Item.tidied, Item.tidied]
    · rw [Text.allBlank_collapse, hall]
    · rw [Text.startsBlank_collapse, hstart]
    · rw [Text.allBlank_collapse]
      exact fun h => hrest (List.map_eq_nil_iff.mp h)

/-- To tidy the items of a list hides no blank at its end and uncovers none. -/
theorem hidesBlankEnd_itemsTidied (items : List Item) :
    HidesBlankEnd (itemsTidied items) ↔ HidesBlankEnd items := by
  rw [itemsTidied_eq]
  constructor
  · rintro ⟨before, content', content, heq, hall, hend, hbefore⟩
    obtain ⟨first, last, rfl, rfl, hlast⟩ := List.map_eq_append_iff.mp heq
    obtain ⟨item', more, rfl, hitem', hmore⟩ := List.map_eq_cons_iff.mp hlast
    obtain ⟨item, none, rfl, hitem, hnone⟩ := List.map_eq_cons_iff.mp hmore
    obtain rfl := List.map_eq_nil_iff.mp hnone
    obtain ⟨text', rfl, rfl⟩ := tidied_eq_text_iff.mp hitem'
    obtain ⟨text, rfl, rfl⟩ := tidied_eq_text_iff.mp hitem
    rw [Text.allBlank_collapse] at hall hbefore
    rw [Text.endsBlank_collapse] at hend
    exact ⟨first, text', text, rfl, hall, hend, fun h => hbefore (by rw [h, List.map_nil])⟩
  · rintro ⟨before, content', content, rfl, hall, hend, hbefore⟩
    refine ⟨before.map Item.tidied, Text.collapse content', Text.collapse content, ?_, ?_, ?_, ?_⟩
    · rw [List.map_append, List.map_cons, List.map_cons, List.map_nil, Item.tidied, Item.tidied]
    · rw [Text.allBlank_collapse, hall]
    · rw [Text.endsBlank_collapse, hend]
    · rw [Text.allBlank_collapse]
      exact fun h => hbefore (List.map_eq_nil_iff.mp h)

end MustacheMarkup
