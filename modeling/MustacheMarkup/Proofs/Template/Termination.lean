import Mathlib.Logic.Function.Iterate
import MustacheMarkup.Proofs.Template.EveryElement

/-!
# Building comes to an end

All content is collected in one loop. One turn of it (`turn`) sees whether the content ends, and
builds the next item if it does not. A turn that does not leave the loop uses a token, whatever the
container and the tokens are (`turnAt_turn`), although content may end before a token and leave that
to whoever asked for it. So no loop has more turns than there are tokens left (`exists_loop`).

A turn builds further content, in loops of its own. These calls are not nested without end either:
`contentWith` is one call with those that it makes left open, and put into itself more often than
the tokens weigh it is `items`, whatever is done behind that (`iterate_contentWith`).
-/

set_option autoImplicit false

namespace MustacheMarkup

open Building Journal

/-! ## Where a cursor stands -/

/-- A cursor stands at a place in a list of tokens: the tokens from there on are left. -/
structure Cursor.At (tokens : List Token) (pos : Nat) (c : Cursor) : Prop where
  le : pos ≤ tokens.length
  rest : c.tokens = tokens.drop pos

namespace Cursor.At

variable {tokens : List Token} {pos : Nat} {c c' : Cursor}

/-- A parser starts at the first of its tokens. -/
theorem start (c : Cursor) : c.At c.tokens 0 :=
  ⟨Nat.zero_le _, rfl⟩

/-- How many tokens are left can be told from how many were used. -/
theorem length_rest (h : c.At tokens pos) : c.tokens.length = tokens.length - pos := by
  rw [h.rest, List.length_drop]

/-- Nothing is left exactly if all tokens were used. -/
theorem rest_eq_nil_iff (h : c.At tokens pos) : c.tokens = [] ↔ pos = tokens.length := by
  have hle := h.le
  rw [← List.length_eq_zero_iff, h.length_rest]
  omega

/-- A cursor that has used the next token stands behind it. -/
theorem tail (h : c.At tokens pos) (hpos : pos < tokens.length)
    (hrest : c'.tokens = c.tokens.tail) : c'.At tokens (pos + 1) := by
  refine ⟨hpos, ?_⟩
  rw [hrest, h.rest, List.tail_drop]

/-- To leave an end of the tokens is to go forward, and not past the end. -/
theorem of_suffix (h : c.At tokens pos) (hsuffix : c'.tokens <:+ c.tokens) :
    ∃ pos', pos ≤ pos' ∧ c'.At tokens pos' := by
  obtain ⟨used, hused⟩ := hsuffix
  have hlength := congrArg List.length hused
  rw [List.length_append, h.length_rest] at hlength
  have hle := h.le
  refine ⟨pos + used.length, Nat.le_add_right _ _, by omega, ?_⟩
  rw [← List.drop_drop, ← h.rest, ← hused, List.drop_left]

/-- To leave an end of the tokens behind the next one is to go forward by one token at least. -/
theorem of_suffix_tail (h : c.At tokens pos) (hpos : pos < tokens.length)
    (hsuffix : c'.tokens <:+ c.tokens.tail) : ∃ pos', pos < pos' ∧ c'.At tokens pos' := by
  have hbehind : Cursor.At tokens (pos + 1) ⟨c.tokens.tail, c.nextIndex⟩ := h.tail hpos rfl
  exact hbehind.of_suffix hsuffix

end Cursor.At

namespace Building

variable {settings : Settings} {container : Container} {keepBlanks : Bool} {tokens : List Token}
  {pos : Nat} {c : Cursor}

/-- Building the next item goes forward, and not past the end. So does a failure. -/
theorem exists_at_nextItem (settings : Settings) (keepBlanks : Bool) (h : c.At tokens pos)
    (hpos : pos < tokens.length) :
    ∃ pos', pos < pos' ∧ (nextItem settings keepBlanks c).state.At tokens pos' := by
  refine h.of_suffix_tail hpos ?_
  obtain ⟨_ | ⟨t, rest⟩, index⟩ := c
  · exact absurd (h.rest_eq_nil_iff.mp rfl) (Nat.ne_of_lt hpos)
  · exact suffix_nextItem settings keepBlanks t rest index

/-! ## One turn of a loop -/

/-- One turn of the loop that collects the content of a container: nothing if the loop is left, and
otherwise what was built of the next token, which may be no item. -/
def turn (settings : Settings) (container : Container) (keepBlanks : Bool) :
    Building (Option (Option Item)) := do
  if ← ends container then return none
  else some <$> nextItem settings keepBlanks

/-- What a turn may come to that starts at a place in a list of tokens. It leaves the loop, and has
used the token that ends the content or none; or it fails behind that place; or it has built
something and goes on behind it. -/
inductive TurnAt (tokens : List Token) (pos : Nat) :
    Outcome Cursor ParseError (Option (Option Item)) → Prop where
  | leave {c : Cursor} {log : List Event} (h : c.At tokens pos ∨ c.At tokens (pos + 1)) :
      TurnAt tokens pos ⟨.ok none, c, log⟩
  | fail {e : ParseError} {c : Cursor} {log : List Event} {pos' : Nat} (hpos : pos < pos')
      (h : c.At tokens pos') : TurnAt tokens pos ⟨.error e, c, log⟩
  | goOn {item : Option Item} {c : Cursor} {log : List Event} {pos' : Nat} (hpos : pos < pos')
      (h : c.At tokens pos') : TurnAt tokens pos ⟨.ok (some item), c, log⟩

/-- Every turn of every loop leaves the loop or uses a token, from any cursor and in any container,
whether or not what it builds succeeds. -/
theorem turnAt_turn (settings : Settings) (container : Container) (keepBlanks : Bool)
    (h : c.At tokens pos) : TurnAt tokens pos (turn settings container keepBlanks c) := by
  obtain ⟨_ | ⟨t, rest⟩, index⟩ := c
  · exact .leave (.inl h)
  have hpos : pos < tokens.length := by
    refine Nat.lt_of_le_of_ne h.le fun heq => ?_
    have hnil := h.rest_eq_nil_iff.mpr heq
    cases hnil
  obtain ⟨hresult, hstate⟩ := ends_apply container t rest index
  rw [turn, bind_apply]
  rcases hends : ends container ⟨t :: rest, index⟩ with ⟨r, c', log⟩
  rw [hends] at hresult hstate
  obtain rfl : r = _ := hresult
  obtain rfl : c' = _ := hstate
  cases hending : container.ending t.lexeme with
  | goesOn =>
    -- Nothing has been used so far, and the next item uses what comes next.
    obtain ⟨pos', hlt, hat⟩ := exists_at_nextItem settings keepBlanks h hpos
    show TurnAt tokens pos ⟨((some <$> nextItem settings keepBlanks) ⟨t :: rest, index⟩).result,
      ((some <$> nextItem settings keepBlanks) ⟨t :: rest, index⟩).state, _⟩
    rw [map_apply]
    rcases hnext : nextItem settings keepBlanks ⟨t :: rest, index⟩ with ⟨_ | item, later, log'⟩
    · rw [hnext] at hat
      exact .fail hlt hat
    · rw [hnext] at hat
      exact .goOn hlt hat
  | before => exact .leave (.inl h)
  | behind => exact .leave (.inr (h.tail hpos rfl))

/-! ## A whole loop -/

/-- The turns of a loop, one after another, and what the loop comes to: `Loop n c o` has `n` turns
that go on, and one that does not. -/
inductive Loop (settings : Settings) (container : Container) (keepBlanks : Bool) :
    Nat → Cursor → Outcome Cursor ParseError (List Item) → Prop where
  | leave {c c' : Cursor} {log : List Event}
      (h : turn settings container keepBlanks c = ⟨.ok none, c', log⟩) :
      Loop settings container keepBlanks 0 c ⟨.ok [], c', log⟩
  | fail {c c' : Cursor} {e : ParseError} {log : List Event}
      (h : turn settings container keepBlanks c = ⟨.error e, c', log⟩) :
      Loop settings container keepBlanks 0 c ⟨.error e, c', log⟩
  | goOn {n : Nat} {c c' : Cursor} {item : Option Item} {log : List Event}
      {o : Outcome Cursor ParseError (List Item)}
      (h : turn settings container keepBlanks c = ⟨.ok (some item), c', log⟩)
      (hrest : Loop settings container keepBlanks n c' o) :
      Loop settings container keepBlanks (n + 1) c
        ⟨o.result.map (item.toList ++ ·), o.state, log ++ o.log⟩

/-- Content is what is built in one turn, and the content that follows. -/
theorem items_eq_turn (settings : Settings) (container : Container) (keepBlanks : Bool) :
    items settings container keepBlanks = (do
      match ← turn settings container keepBlanks with
      | none => return []
      | some item => (item.toList ++ ·) <$> items settings container keepBlanks) := by
  refine (items_eq settings container keepBlanks).trans ?_
  rw [turn, bind_assoc]
  congr
  funext ended
  cases ended with
  | true => rfl
  | false =>
    simp only [Bool.false_eq_true, if_false, map_eq_pure_bind, bind_assoc, pure_bind]

/-- Content is collected in a loop that has no more turns than there are tokens left, and what it
gives is what collecting gives. -/
theorem exists_loop (settings : Settings) (container : Container) (keepBlanks : Bool) (c : Cursor) :
    ∃ n, Loop settings container keepBlanks n c (items settings container keepBlanks c) ∧
      n ≤ c.tokens.length := by
  induction hlength : c.tokens.length using Nat.strongRecOn generalizing c with
  | ind length ih =>
    have hturn := turnAt_turn settings container keepBlanks (.start c)
    rw [items_eq_turn, bind_apply]
    rcases hc : turn settings container keepBlanks c with ⟨_ | _ | item, c', log⟩
    · exact ⟨0, .fail hc, Nat.zero_le _⟩
    · refine ⟨0, ?_, Nat.zero_le _⟩
      have hleave : Loop settings container keepBlanks 0 c ⟨.ok [], c', log ++ []⟩ := by
        rw [List.append_nil]
        exact .leave hc
      exact hleave
    · -- A turn that goes on has used a token, so there are fewer left for the rest of the loop.
      rw [hc] at hturn
      obtain ⟨⟩ | ⟨⟩ | ⟨hpos, hat⟩ := hturn
      have hlater := hat.length_rest
      have hle := hat.le
      obtain ⟨n, hrest, hn⟩ := ih c'.tokens.length (by omega) c' rfl
      refine ⟨n + 1, ?_, by omega⟩
      have hgoOn := Loop.goOn hc hrest
      dsimp only
      rw [map_apply]
      exact hgoOn

/-! ## Calls in calls -/

/-- With more calls in one another than the tokens weigh, it does not matter what is done behind
them. -/
theorem iterate_contentWith (settings : Settings)
    (stuck : Container → Bool → Building (List Item)) (container : Container) (keepBlanks : Bool)
    {n : Nat} {c : Cursor} (hn : Token.totalWeight c.tokens < n) :
    ((contentWith settings)^[n] stuck) container keepBlanks c =
      items settings container keepBlanks c := by
  induction n generalizing container keepBlanks c with
  | zero => exact absurd hn (Nat.not_lt_zero _)
  | succ n ih =>
    rw [Function.iterate_succ_apply', items_eq_contentWith]
    refine contentWith_congr container keepBlanks c (consumes_items settings) ?_
    intro container keepBlanks c' hc'
    exact ih container keepBlanks (Nat.lt_of_lt_of_le hc' (Nat.le_of_lt_succ hn))

/-- The next item needs one call less. -/
theorem nextItemWith_iterate (settings : Settings)
    (stuck : Container → Bool → Building (List Item)) (keepBlanks : Bool) {n : Nat} {c : Cursor}
    (hn : Token.totalWeight c.tokens ≤ n) :
    nextItemWith settings ((contentWith settings)^[n] stuck) keepBlanks c =
      nextItem settings keepBlanks c := by
  rw [nextItem_eq]
  refine nextItemWith_congr keepBlanks c fun container keepBlanks c' hc' => ?_
  exact iterate_contentWith settings stuck container keepBlanks (Nat.lt_of_lt_of_le hc' hn)

/-! ## Building -/

/-- The elements of an item, however deep they stand, are built with the options of the run and have
its number. -/
theorem elements_nextItem {item : Item}
    (h : (nextItem settings keepBlanks c).result = .ok (some item)) :
    ∀ e ∈ item.elements, e.id.run = settings.run ∧ e.IsBuilt settings.options := by
  have hperform : ((Call.nextItem keepBlanks).perform settings c).result = .ok [item] := by
    rw [Call.perform, map_apply, h]
    rfl
  have hids : idsOf (itemsElements [item]) = _ :=
    ((Call.nextItem keepBlanks).counts_perform settings).ids_eq hperform
  intro e he
  have hmem : e ∈ itemsElements [item] := by
    rw [itemsElements]
    exact List.mem_append_left _ he
  have hid : e.id ∈ idsOf (itemsElements [item]) := List.mem_map.mpr ⟨e, hmem, rfl⟩
  rw [hids] at hid
  exact ⟨run_of_mem_idsBetween hid,
    every_perform settings (Call.nextItem keepBlanks) c [item] hperform e hmem⟩

/-- Building goes on from any place in any tokens, and comes to an end. The next item leaves the
cursor behind where it was and not past the end, and so does a failure to build it; the tokens that
the cursor stands in, the options and the number of the run stay as they are. In the loop for the
content of any container a turn leaves the loop or uses a token, so there are no more turns than
tokens left. And no more calls stand in one another than these tokens weigh: with as many, it does
not matter what is done behind them. -/
theorem terminates (settings : Settings) (tokens : List Token) (pos : Nat) (c : Cursor)
    (h : c.At tokens pos) (keepBlanks : Bool) :
    (pos < tokens.length → ∃ pos', pos < pos' ∧
      (nextItem settings keepBlanks c).state.At tokens pos') ∧
    (∀ item, (nextItem settings keepBlanks c).result = .ok (some item) →
      ∀ e ∈ item.elements, e.id.run = settings.run ∧ e.IsBuilt settings.options) ∧
    (∀ stuck, nextItemWith settings ((contentWith settings)^[Token.totalWeight c.tokens] stuck)
      keepBlanks c = nextItem settings keepBlanks c) ∧
    ∀ container,
      TurnAt tokens pos (turn settings container keepBlanks c) ∧
      (∃ n, Loop settings container keepBlanks n c (items settings container keepBlanks c) ∧
        n ≤ tokens.length - pos) ∧
      ∀ stuck, ((contentWith settings)^[Token.totalWeight c.tokens + 1] stuck) container keepBlanks
        c = items settings container keepBlanks c := by
  refine ⟨exists_at_nextItem settings keepBlanks h, fun item hitem => elements_nextItem hitem,
    fun stuck => nextItemWith_iterate settings stuck keepBlanks (Nat.le_refl _),
    fun container => ⟨turnAt_turn settings container keepBlanks h, ?_,
      fun stuck => iterate_contentWith settings stuck container keepBlanks (Nat.lt_succ_self _)⟩⟩
  obtain ⟨n, hloop, hn⟩ := exists_loop settings container keepBlanks c
  exact ⟨n, hloop, h.length_rest ▸ hn⟩

/-- A paragraph that a further one closes, the end of a section that was not opened, and a tag that
closes nothing. -/
def paragraphs : List Token :=
  let tag (name : String) (closing : Bool) : Token :=
    ⟨.tag ⟨name, [], closing, false, false⟩, default⟩
  [tag "p" false, ⟨.text "x", default⟩, tag "p" false, ⟨.mustache .closing "s", default⟩,
    tag "b" true]

/-- The first paragraph ends before the second, and the template goes on there. So the loop of its
content is left without a token being used, and the one outside uses more. -/
theorem terminates_of_paragraphs :
    (∃ pos', 0 < pos' ∧ (nextItem ⟨{}, 0⟩ true ⟨paragraphs, 0⟩).state.At paragraphs pos') ∧
      (nextItem ⟨{}, 0⟩ true ⟨paragraphs, 0⟩).state.tokens.length = 3 ∧
      (∃ pos', 2 < pos' ∧
        (nextItem ⟨{}, 0⟩ true ⟨paragraphs.drop 2, 1⟩).state.At paragraphs pos') ∧
      TurnAt paragraphs 2 (turn ⟨{}, 0⟩ (.element "p" (Vocabulary.closers? "p")) true
        ⟨paragraphs.drop 2, 1⟩) ∧
      ∃ n, Loop ⟨{}, 0⟩ .whole true n ⟨paragraphs, 0⟩ (items ⟨{}, 0⟩ .whole true ⟨paragraphs, 0⟩) ∧
        n ≤ 5 := by
  have hstart : Cursor.At paragraphs 0 ⟨paragraphs, 0⟩ := ⟨Nat.zero_le _, rfl⟩
  have hsecond : Cursor.At paragraphs 2 ⟨paragraphs.drop 2, 1⟩ := ⟨by decide, rfl⟩
  obtain ⟨hnext, -, -, hloops⟩ := terminates ⟨{}, 0⟩ paragraphs 0 _ hstart true
  obtain ⟨hnext', -, -, hloops'⟩ := terminates ⟨{}, 0⟩ paragraphs 2 _ hsecond true
  exact ⟨hnext (by decide), by decide +kernel, hnext' (by decide), (hloops' (.element "p" _)).1,
    (hloops .whole).2.1⟩

end Building

end MustacheMarkup
