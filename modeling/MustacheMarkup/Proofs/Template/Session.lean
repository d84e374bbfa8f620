import MustacheMarkup.Proofs.Template.Numbering

/-!
# No two elements of one parser have the same identity

One cursor may be asked for items again and again, in any order, and it goes on after a failure from
where that left it. `Call` names what it can be asked for. Each call gives out identities behind all
that were given out before it (`counts_perform`), and a failure only skips some. So the identities
in all that several calls built are a part of those from the first index to the last, in order
(`sublist_idsBetween_answers`).
-/

set_option autoImplicit false

namespace MustacheMarkup.Building

open Journal

/-- What a cursor can be asked for. -/
inductive Call where
  /-- the next item -/
  | nextItem (keepBlanks : Bool)
  /-- all items that are left, as a template -/
  | template
  /-- a fragment of tokens of its own -/
  | fragment (tokens : List Token)
  /-- to pass over the next token -/
  | advance

namespace Call

/-- Do what a call asks for, and list the items that come of it. -/
def perform (settings : Settings) : Call → Building (List Item)
  | nextItem keepBlanks => Option.toList <$> Building.nextItem settings keepBlanks
  | template => Building.template settings
  | fragment tokens => numbered (fragmentItems settings tokens)
  | advance => (fun _ => []) <$> Building.advance

/-- What comes of calls in turn. A call that fails does not end the turn: the next one goes on at
the cursor that it left. -/
def answers (settings : Settings) : List Call → Cursor → List (Except ParseError (List Item))
  | [], _ => []
  | call :: rest, c =>
    (call.perform settings c).result :: answers settings rest (call.perform settings c).state

/-- The elements anywhere in what was built. A failure has none. -/
def answersElements : List (Except ParseError (List Item)) → List Element
  | [] => []
  | .error _ :: rest => answersElements rest
  | .ok items :: rest => itemsElements items ++ answersElements rest

variable (settings : Settings)

/-- A call gives out identities for the elements that come of it. -/
theorem counts_perform (call : Call) :
    Counts settings.run Cursor.nextIndex [] (call.perform settings)
      fun items => idsOf (itemsElements items) := by
  cases call with
  | nextItem keepBlanks => exact (counts_nextItem settings keepBlanks).map fun _ => rfl
  | template => exact counts_template settings
  | fragment tokens => exact counts_numbered (counts_fragmentItems settings tokens)
  | advance => exact (counts_advance settings.run []).map fun _ => rfl

/-- What calls give out lies between the index that the first one starts with and the index that the
last one leaves, in order and without repetition. -/
theorem sublist_idsBetween_answers (calls : List Call) (c : Cursor) :
    ∃ later, c.nextIndex ≤ later ∧
      (idsOf (answersElements (answers settings calls c))).Sublist
        (idsBetween settings.run c.nextIndex later) := by
  induction calls generalizing c with
  | nil => exact ⟨c.nextIndex, Nat.le_refl _, List.nil_sublist _⟩
  | cons call rest ih =>
    have hcall := call.counts_perform settings
    have hle := (hcall c).1
    obtain ⟨later, hle', hrest⟩ := ih (call.perform settings c).state
    refine ⟨later, Nat.le_trans hle hle', ?_⟩
    rw [← idsBetween_append settings.run hle hle', answers]
    cases hresult : (call.perform settings c).result with
    | error e => exact hrest.trans (List.sublist_append_right _ _)
    | ok items =>
      have hids : idsOf (itemsElements items) = _ := hcall.ids_eq hresult
      rw [answersElements, idsOf_append, hids]
      exact (List.Sublist.refl _).append hrest

/-- A fragment that fails gives its identities back. -/
theorem state_fragment_of_error {items : Building (List Item)} {tokens : List Token} {index : Nat}
    {e : ParseError} (h : (Building.fragment items tokens index).result = .error e) :
    (Building.fragment items tokens index).state = index := by
  unfold Building.fragment at h ⊢
  dsimp only at h ⊢
  cases hresult : (items ⟨tokens, index⟩).result with
  | error e' => rfl
  | ok built =>
    rw [hresult] at h
    cases h

/-- A fragment that fails changes nothing at the cursor; one that is built changes only the index,
which goes up by the number of its elements. -/
theorem state_perform_fragment (tokens : List Token) (c : Cursor) :
    (∀ e, ((fragment tokens).perform settings c).result = .error e →
      ((fragment tokens).perform settings c).state = c) ∧
    ∀ items, ((fragment tokens).perform settings c).result = .ok items →
      ((fragment tokens).perform settings c).state =
        ⟨c.tokens, c.nextIndex + (itemsElements items).length⟩ := by
  constructor
  · intro e he
    have hstate : (fragmentItems settings tokens c.nextIndex).state = c.nextIndex :=
      state_fragment_of_error he
    show (⟨c.tokens, (fragmentItems settings tokens c.nextIndex).state⟩ : Cursor) = c
    rw [hstate]
  · intro items hitems
    have hindex := (counts_perform settings (fragment tokens)).index_eq hitems
    rw [length_idsOf] at hindex
    rw [← hindex]
    rfl

end Call

end MustacheMarkup.Building

namespace MustacheMarkup

open Building Journal

/-- The elements of a template have the identities from zero on, in the order in which they are
listed. -/
theorem Template.idsOf_ofTokens {settings : Settings} {tokens : List Token} {items : List Item}
    (h : (Template.ofTokens settings tokens).result = .ok items) :
    idsOf (itemsElements items) =
      (List.range (itemsElements items).length).map (NodeId.mk settings.run) := by
  have hids : idsOf (itemsElements items) = _ := (counts_template settings).ids_eq h
  have hindex := (counts_template settings).index_eq h
  dsimp only at hindex
  rw [length_idsOf, Nat.zero_add] at hindex
  rw [hids, idsBetween, Nat.sub_zero, List.range_eq_range', ← hindex]

/-- Whatever one parser is asked, the elements in all that it builds have identities of their own,
with the number of its run. Building a fragment changes nothing but the index, and that only if it
succeeds and by the elements in it. A template built at the start has the identities from zero on,
in the order in which its elements are listed. -/
theorem Building.Call.nodup_ids_answers (settings : Settings) (calls : List Call) (c : Cursor)
    (tokens : List Token) :
    (idsOf (answersElements (answers settings calls c))).Nodup ∧
      (∀ e ∈ answersElements (answers settings calls c), e.id.run = settings.run) ∧
      (∀ e, ((fragment tokens).perform settings c).result = .error e →
        ((fragment tokens).perform settings c).state = c) ∧
      (∀ items, ((fragment tokens).perform settings c).result = .ok items →
        ((fragment tokens).perform settings c).state =
          ⟨c.tokens, c.nextIndex + (itemsElements items).length⟩) ∧
      ∀ items, (Template.ofTokens settings tokens).result = .ok items →
        idsOf (itemsElements items) =
          (List.range (itemsElements items).length).map (NodeId.mk settings.run) := by
  obtain ⟨later, -, hsublist⟩ := sublist_idsBetween_answers settings calls c
  obtain ⟨hfails, hbuilds⟩ := state_perform_fragment settings tokens c
  refine ⟨hsublist.nodup (nodup_idsBetween _ _ _), fun e he => ?_, hfails, hbuilds,
    fun items hitems => Template.idsOf_ofTokens hitems⟩
  have hid : e.id ∈ idsOf (answersElements (answers settings calls c)) :=
    List.mem_map.mpr ⟨e, he, rfl⟩
  exact run_of_mem_idsBetween (hsublist.subset hid)

namespace Building.Call

/-- A tag that closes itself. -/
def aloneTag (name : String) (attributes : List RawAttribute) : Token :=
  ⟨.tag ⟨name, attributes, false, true, false⟩, default⟩

/-- An element in the value of an attribute and in both transitions. -/
def holding : Token :=
  aloneTag "a" [⟨"intro-outro", some [aloneTag "i" []]⟩, ⟨"href", some [aloneTag "b" []]⟩]

/-- A tag that fails when it and an element in a value of it have been counted. -/
def failing : Token :=
  aloneTag "p" [⟨"k", some [aloneTag "b" []]⟩, ⟨"on-x", none⟩]

/-- A parser at the start of a template that fails at its second element. -/
def halfway : Cursor :=
  ⟨[holding, failing, ⟨.text "x", default⟩, aloneTag "u" []], 0⟩

/-- A fragment that fails after one element, then the template, which is asked on where
it failed. -/
def askedOn : List Call :=
  [fragment [aloneTag "b" [], failing], nextItem true, template,
    fragment [aloneTag "s" [⟨"k", some [aloneTag "b" []]⟩]], advance, template]

/-- Asked for an item, for a fragment, for the rest and once more after a failure, one parser gives
no identity twice. -/
theorem nodup_ids_askedOn :
    let settings : Settings := ⟨⟨false, false⟩, 7⟩
    let ids := idsOf (answersElements (answers settings askedOn halfway))
    ids = [⟨7, 0⟩, ⟨7, 1⟩, ⟨7, 2⟩, ⟨7, 3⟩, ⟨7, 6⟩, ⟨7, 7⟩, ⟨7, 8⟩] ∧ ids.Nodup ∧
      ((fragment [aloneTag "b" [], failing]).perform settings halfway).state = halfway ∧
      ((fragment [holding]).perform settings halfway).state = ⟨halfway.tokens, 4⟩ ∧
      ∃ items, (Template.ofTokens settings [holding]).result = .ok items ∧
        idsOf (itemsElements items) = [⟨7, 0⟩, ⟨7, 1⟩, ⟨7, 2⟩, ⟨7, 3⟩] := by
  obtain ⟨hnodup, -, hfails, -⟩ :=
    nodup_ids_answers ⟨⟨false, false⟩, 7⟩ askedOn halfway [aloneTag "b" [], failing]
  obtain ⟨-, -, -, hbuilds, hnumbered⟩ :=
    nodup_ids_answers ⟨⟨false, false⟩, 7⟩ askedOn halfway [holding]
  exact ⟨rfl, hnodup, hfails _ rfl, hbuilds _ rfl, _, rfl, hnumbered _ rfl⟩

end Building.Call

end MustacheMarkup
