import MustacheMarkup.Item.Blank

/-!
# What trimming leaves

To trim a list touches a text at either end and nothing else.
-/

set_option autoImplicit false

namespace MustacheMarkup

/-- At the start of a list only a text is trimmed. -/
theorem trimFirst_of_ne {item : Item} (h : ∀ content, item ≠ .text content) (rest : List Item) :
    trimFirst (item :: rest) = item :: rest := by
  cases item with
  | text content => exact absurd rfl (h content)
  | _ => rfl

/-- At the end of a list only a text is trimmed. -/
theorem trimLast_of_ne {item : Item} (h : ∀ content, item ≠ .text content) :
    trimLast [item] = [item] := by
  cases item with
  | text content => exact absurd rfl (h content)
  | _ => rfl

/-- What stands before the last item is not looked at when the end of a list is trimmed. -/
theorem trimLast_cons_cons (item next : Item) (rest : List Item) :
    trimLast (item :: next :: rest) = item :: trimLast (next :: rest) := by
  cases item <;> rfl

/-- A function that leaves texts as they are and makes nothing else a text may be applied before
trimming or after it. -/
theorem map_trimBoundary {f : Item → Item} (htext : ∀ content, f (.text content) = .text content)
    (hne : ∀ item, (∀ content, item ≠ .text content) → ∀ content, f item ≠ .text content)
    (items : List Item) : (trimBoundary items).map f = trimBoundary (items.map f) := by
  have hlast : ∀ items : List Item, (trimLast items).map f = trimLast (items.map f) := by
    intro items
    induction items with
    | nil => rfl
    | cons item rest ih =>
      cases rest with
      | nil =>
        by_cases hitem : ∃ content, item = .text content
        · obtain ⟨content, rfl⟩ := hitem
          rw [List.map_singleton, htext, trimLast]
          split
          · rfl
          · rw [List.map_singleton, htext]
        · rw [not_exists] at hitem
          rw [trimLast_of_ne hitem, List.map_singleton, trimLast_of_ne (hne item hitem)]
      | cons next rest =>
        rw [trimLast_cons_cons, List.map_cons, ih]
        exact (trimLast_cons_cons (f item) (f next) (rest.map f)).symm
  rw [trimBoundary, trimBoundary, hlast]
  cases items with
  | nil => rfl
  | cons item rest =>
    by_cases hitem : ∃ content, item = .text content
    · obtain ⟨content, rfl⟩ := hitem
      rw [List.map_cons, htext, trimFirst, trimFirst]
      split
      · rfl
      · rw [List.map_cons, htext]
    · rw [not_exists] at hitem
      rw [trimFirst_of_ne hitem, List.map_cons, trimFirst_of_ne (hne item hitem)]

/-- What texts have nothing of is not trimmed. So the elements, the sections and the contents of a
list are the same before and after. -/
theorem flatMap_trimBoundary {α : Type} {f : Item → List α}
    (htext : ∀ content, f (.text content) = []) (items : List Item) :
    (trimBoundary items).flatMap f = items.flatMap f := by
  have hlast : ∀ items : List Item, (trimLast items).flatMap f = items.flatMap f := by
    intro items
    fun_induction trimLast items with
    | case1 => rfl
    | case2 content => rw [List.flatMap_singleton, htext, List.flatMap_nil]
    | case3 content => rw [List.flatMap_singleton, List.flatMap_singleton, htext, htext]
    | case4 item rest hne ih => rw [List.flatMap_cons, List.flatMap_cons, ih]
  rw [trimBoundary, hlast]
  cases items with
  | nil => rfl
  | cons item rest =>
    cases item with
    | text content =>
      simp only [trimFirst]
      split
      · rw [List.flatMap_cons, htext, List.nil_append]
      · rw [List.flatMap_cons, List.flatMap_cons, htext, htext]
    | _ => rfl

/-- What texts have nothing of is the same whether items are kept or trimmed. -/
theorem flatMap_keptOrTrimmed {α : Type} {f : Item → List α}
    (htext : ∀ content, f (.text content) = []) (kept : Bool) (items : List Item) :
    (if kept then items else trimBoundary items).flatMap f = items.flatMap f := by
  split
  · rfl
  · exact flatMap_trimBoundary htext items

/-- What holds of some items and of all texts that are not empty holds of the items when they are
trimmed. -/
theorem forall_mem_trimBoundary {P : Item → Prop}
    (htext : ∀ content, content ≠ "" → P (.text content)) {items : List Item}
    (h : ∀ item ∈ items, P item) : ∀ item ∈ trimBoundary items, P item := by
  have hfirst : ∀ item ∈ trimFirst items, P item := by
    cases items with
    | nil => exact h
    | cons item rest =>
      obtain ⟨hitem, hrest⟩ := List.forall_mem_cons.mp h
      cases item with
      | text content =>
        simp only [trimFirst]
        split
        · exact hrest
        · rename_i hne
          exact List.forall_mem_cons.mpr ⟨htext _ fun h => hne (String.isEmpty_iff.mpr h), hrest⟩
      | _ => exact List.forall_mem_cons.mpr ⟨hitem, hrest⟩
  have hlast : ∀ items : List Item, (∀ item ∈ items, P item) →
      ∀ item ∈ trimLast items, P item := by
    intro items
    fun_induction trimLast items with
    | case1 => exact fun h => h
    | case2 => exact fun _ => by simp
    | case3 content trimmed hne =>
      exact fun _ => List.forall_mem_singleton.mpr
        (htext _ fun h => hne (String.isEmpty_iff.mpr h))
    | case4 item rest hne ih =>
      intro h
      obtain ⟨hitem, hrest⟩ := List.forall_mem_cons.mp h
      exact List.forall_mem_cons.mpr ⟨hitem, ih hrest⟩
  exact hlast _ hfirst

end MustacheMarkup
