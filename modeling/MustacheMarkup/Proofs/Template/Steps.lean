import MustacheMarkup.Proofs.Template.Ending
import MustacheMarkup.Proofs.Template.OpeningTag
import MustacheMarkup.Proofs.Template.Progress

/-!
# Enough steps

`collect` builds content in at most so many steps. The weight of the tokens that are left is always
enough: with that many steps or more the outcome is the same, its events included
(`collect_eq_items`). So `items` and `nextItem` satisfy the equations that they would have as plain
recursive functions (`items_eq`, `nextItem_eq`), and nothing else needs to speak of steps.
-/

set_option autoImplicit false

namespace MustacheMarkup.Building

open Journal

variable {settings : Settings} {collect collect' : Container → Bool → Building (List Item)}

/-- Two ways to build content that do the same with lighter tokens build the same fragments of
lighter tokens. -/
theorem agreeBelow_fragment {bound : Nat} (h : ∀ container keepBlanks c,
    Token.totalWeight c.tokens < bound →
      collect container keepBlanks c = collect' container keepBlanks c) :
    (fragment (collect .whole true)).AgreeBelow bound (fragment (collect' .whole true)) := by
  intro tokens htokens
  funext index
  unfold fragment
  rw [h .whole true ⟨tokens, index⟩ htokens]

/-- An element depends on the way to build content only for tokens that are lighter than its
opening tag and all that follows. -/
theorem elementWith_congr (keepBlanks : Bool) (tag : Tag) (span : Span) (rest : List Token)
    (index : Nat) (h : ∀ container keepBlanks c,
      Token.totalWeight c.tokens < Token.totalWeight (⟨.tag tag, span⟩ :: rest) →
        collect container keepBlanks c = collect' container keepBlanks c) :
    elementWith settings collect keepBlanks tag span ⟨⟨.tag tag, span⟩ :: rest, index⟩ =
      elementWith settings collect' keepBlanks tag span ⟨⟨.tag tag, span⟩ :: rest, index⟩ := by
  have hkind : elementKind settings.options (fragment (collect .whole true))
      (Text.lower tag.name) tag span = elementKind settings.options
      (fragment (collect' .whole true)) (Text.lower tag.name) tag span := by
    refine elementKind_congr (agreeBelow_fragment h) _ _ _ _ ?_
    rw [Token.totalWeight]
    omega
  unfold elementWith
  rw [hkind]
  refine bind_congr_at fun _ _ => bind_congr_at fun index' _ => bind_congr_at fun kind _ => ?_
  dsimp only
  split
  · rfl
  · refine bind_congr_at fun _ _ => ?_
    have hcollect := fun keepBlanks index => h tag.container keepBlanks
      ⟨rest, index⟩ (Token.totalWeight_lt_cons List.suffix_rfl)
    exact bind_congr_left (hcollect _ _)

/-- The next item needs content only of tokens that weigh less. So two ways to collect content that
agree on these give the same item, and this is what makes the number of steps irrelevant. -/
theorem nextItemWith_congr (keepBlanks : Bool) (c : Cursor) (h : ∀ container keepBlanks c',
      Token.totalWeight c'.tokens < Token.totalWeight c.tokens →
        collect container keepBlanks c' = collect' container keepBlanks c') :
    nextItemWith settings collect keepBlanks c = nextItemWith settings collect' keepBlanks c := by
  obtain ⟨_ | ⟨⟨lexeme, span⟩, rest⟩, index⟩ := c
  · rfl
  cases lexeme with
  | text content => rfl
  | comment content => rfl
  | mustache kind reference =>
    have hblock := h (.block reference) keepBlanks ⟨rest, index⟩
      (Token.totalWeight_lt_cons List.suffix_rfl)
    refine bind_congr_at fun t ht => ?_
    cases ht
    refine bind_congr_at fun _ _ => ?_
    cases kind with
    | opening => exact bind_congr_left hblock
    | inverted => exact bind_congr_left hblock
    | _ => rfl
  | tag tag =>
    cases hclosing : tag.closing with
    | true => rw [nextItemWith_closingTag _ hclosing, nextItemWith_closingTag _ hclosing]
    | false =>
      rw [nextItemWith_openingTag _ hclosing, nextItemWith_openingTag _ hclosing, map_apply,
        map_apply, elementWith_congr keepBlanks tag span rest index h]

/-- Nothing is used to see that content does not end. -/
theorem state_ends_of_not_ended {container : Container} {c : Cursor}
    (h : (ends container c).result = .ok false) : (ends container c).state = c := by
  obtain ⟨_ | ⟨t, rest⟩, index⟩ := c
  · rfl
  obtain ⟨hresult, hstate⟩ := ends_apply container t rest index
  rw [hresult] at h
  rw [hstate]
  cases hending : container.ending t.lexeme with
  | goesOn => rfl
  | before => rfl
  | behind =>
    rw [hending] at h
    cases h

/-- Build the content of a container, where `collect` builds the content that follows an item, and
that of the containers in it. -/
def contentWith (settings : Settings) (collect : Container → Bool → Building (List Item))
    (container : Container) (keepBlanks : Bool) : Building (List Item) := do
  if ← ends container then return []
  else
    let item ← nextItemWith settings collect keepBlanks
    let items ← collect container keepBlanks
    return item.toList ++ items

/-- With one step more, content is collected as the loop of the program does, with the rest of the
steps for what is inside. -/
theorem collect_succ (settings : Settings) (n : Nat) :
    Building.collect settings (n + 1) = contentWith settings (Building.collect settings n) :=
  rfl

/-- Content depends on the way to build what follows and what stands in it only for lighter tokens,
since an item uses a token. -/
theorem contentWith_congr (container : Container) (keepBlanks : Bool) (c : Cursor)
    (hconsumes : ∀ container keepBlanks, Consumes (collect' container keepBlanks))
    (h : ∀ container keepBlanks c', Token.totalWeight c'.tokens < Token.totalWeight c.tokens →
      collect container keepBlanks c' = collect' container keepBlanks c') :
    contentWith settings collect container keepBlanks c =
      contentWith settings collect' container keepBlanks c := by
  obtain ⟨_ | ⟨t, rest⟩, index⟩ := c
  · rfl
  refine bind_congr_at fun ended hended => ?_
  cases ended with
  | true => rfl
  | false =>
    rw [state_ends_of_not_ended hended]
    refine (bind_congr_left (nextItemWith_congr keepBlanks _ h)).trans ?_
    refine bind_congr_at fun item _ => bind_congr_left (h container keepBlanks _ ?_)
    exact Token.totalWeight_lt_cons (suffix_nextItemWith hconsumes keepBlanks t rest index)

/-- Without tokens nothing is collected, however many steps there are. -/
theorem collect_nil (settings : Settings) (n : Nat) (container : Container) (keepBlanks : Bool)
    (index : Nat) : Building.collect settings n container keepBlanks ⟨[], index⟩ =
      ⟨.ok [], ⟨[], index⟩, []⟩ := by
  cases n <;> rfl

/-- With no fewer steps than the tokens weigh, the number of steps does not matter. Each step uses a
token, and a fragment weighs less than the tag that it stands in. -/
theorem collect_congr_steps (settings : Settings) {n n' : Nat} (container : Container)
    (keepBlanks : Bool) {c : Cursor} (hn : Token.totalWeight c.tokens ≤ n)
    (hn' : Token.totalWeight c.tokens ≤ n') :
    Building.collect settings n container keepBlanks c =
      Building.collect settings n' container keepBlanks c := by
  induction n generalizing n' container keepBlanks c with
  | zero =>
    obtain ⟨tokens, index⟩ := c
    obtain rfl := Token.eq_nil_of_totalWeight_eq_zero (Nat.le_zero.mp hn)
    rw [collect_nil, collect_nil]
  | succ n ih =>
    cases n' with
    | zero =>
      obtain ⟨tokens, index⟩ := c
      obtain rfl := Token.eq_nil_of_totalWeight_eq_zero (Nat.le_zero.mp hn')
      rw [collect_nil, collect_nil]
    | succ n' =>
      rw [collect_succ, collect_succ]
      refine contentWith_congr container keepBlanks c (consumes_collect settings n') ?_
      intro container keepBlanks c' hc'
      exact ih container keepBlanks (Nat.le_of_lt_succ (Nat.lt_of_lt_of_le hc' hn))
        (Nat.le_of_lt_succ (Nat.lt_of_lt_of_le hc' hn'))

/-! ## Without steps -/

/-- The number of steps does not matter if the tokens weigh no more. -/
theorem collect_eq_items (settings : Settings) {n : Nat} (container : Container)
    (keepBlanks : Bool) {c : Cursor} (hn : Token.totalWeight c.tokens ≤ n) :
    Building.collect settings n container keepBlanks c = items settings container keepBlanks c :=
  collect_congr_steps settings container keepBlanks hn (Nat.le_refl _)

/-- What is left behind content is an end of the tokens. -/
theorem consumes_items (settings : Settings) (container : Container) (keepBlanks : Bool) :
    Consumes (items settings container keepBlanks) :=
  fun c => consumes_collect settings _ container keepBlanks c

/-- Content is built with all that `items` builds. -/
theorem items_eq_contentWith (settings : Settings) :
    items settings = contentWith settings (items settings) := by
  funext container keepBlanks c
  rw [← collect_eq_items settings container keepBlanks (Nat.le_succ _), collect_succ]
  exact contentWith_congr container keepBlanks c (consumes_items settings)
    fun container keepBlanks c' hc' =>
      collect_eq_items settings container keepBlanks (Nat.le_of_lt hc')

/-- The item that comes next is built with all that `items` builds. -/
theorem nextItem_eq (settings : Settings) :
    nextItem settings = nextItemWith settings (items settings) := by
  funext keepBlanks c
  exact nextItemWith_congr keepBlanks c fun container keepBlanks c' hc' =>
    collect_eq_items settings container keepBlanks (Nat.le_of_lt hc')

/-- Building the next item uses the token that comes next. -/
theorem suffix_nextItem (settings : Settings) (keepBlanks : Bool) (t : Token) (rest : List Token)
    (index : Nat) : (nextItem settings keepBlanks ⟨t :: rest, index⟩).state.tokens <:+ rest := by
  rw [nextItem_eq]
  exact suffix_nextItemWith (consumes_items settings) keepBlanks t rest index

/-- Content ends, or it is an item and the content that follows. This is the loop of the parser as
it is reasoned about, without the number of steps. -/
theorem items_eq (settings : Settings) (container : Container) (keepBlanks : Bool) :
    items settings container keepBlanks = (do
      if ← ends container then return []
      else
        let item ← nextItem settings keepBlanks
        let rest ← items settings container keepBlanks
        return item.toList ++ rest) := by
  rw [nextItem_eq]
  exact congrFun (congrFun (items_eq_contentWith settings) container) keepBlanks

end MustacheMarkup.Building
