import MustacheMarkup.Proofs.Token.Weight
import MustacheMarkup.Template.Build

/-!
# Building goes forward

No part of building gives back tokens: what is left afterwards is an end of what was left before.
A call that builds the next item uses the token that comes next, whatever it is and whether or not
it leaves an item. Both hold of failures too.
-/

set_option autoImplicit false

namespace MustacheMarkup.Building

open Journal

variable {α β : Type}

/-- Wherever it starts, `m` leaves an end of the tokens that were left. -/
def Consumes (m : Building α) : Prop :=
  ∀ c, (m c).state.tokens <:+ c.tokens

/-- To give back a value uses no tokens. -/
theorem consumes_pure (a : α) : Consumes (pure a) :=
  fun _ => List.suffix_rfl

/-- A report uses no tokens. -/
theorem consumes_note (e : Event) : Consumes (note e) :=
  fun _ => List.suffix_rfl

/-- To look at the next token uses none. -/
theorem consumes_peek : Consumes peek :=
  fun _ => List.suffix_rfl

/-- To leave out a token leaves the others. -/
theorem consumes_advance : Consumes advance :=
  fun c => List.tail_suffix c.tokens

/-- To take an index uses no tokens. -/
theorem consumes_takeIndex : Consumes takeIndex :=
  fun _ => List.suffix_rfl

/-- What uses only the index uses no tokens. -/
theorem consumes_numbered (m : Numbered α) : Consumes (numbered m) :=
  fun _ => List.suffix_rfl

/-- If the first of two computations leaves an end of some tokens, both together do. -/
theorem suffix_bind {m : Building α} {f : α → Building β} {c : Cursor} {tokens : List Token}
    (hm : (m c).state.tokens <:+ tokens) (hf : ∀ a, Consumes (f a)) :
    ((m >>= f) c).state.tokens <:+ tokens := by
  rw [bind_apply]
  rcases hms : m c with ⟨_ | a, c', log⟩
  · rw [hms] at hm
    exact hm
  · rw [hms] at hm
    exact (hf a c').trans hm

/-- What two computations leave is an end of what the first one leaves, and so of what there was. -/
theorem Consumes.bind {m : Building α} {f : α → Building β} (hm : Consumes m)
    (hf : ∀ a, Consumes (f a)) : Consumes (m >>= f) :=
  fun c => suffix_bind (hm c) hf

/-- Behind a text stands an end of the tokens. -/
theorem afterText_suffix (tokens : List Token) : afterText tokens <:+ tokens := by
  induction tokens with
  | nil => exact List.suffix_rfl
  | cons t rest ih =>
    rw [afterText]
    split
    · exact ih.trans (List.suffix_cons t rest)
    · exact List.suffix_rfl

/-- To see whether an element ends uses its closing tag or nothing. -/
theorem consumes_elementEnds (name : String) (closers : Option (List String)) (t : Token) :
    Consumes (elementEnds name closers t) := by
  unfold elementEnds
  split
  · exact (consumes_note _).bind fun _ => consumes_pure _
  · split
    · split
      · exact consumes_advance.bind fun _ => (consumes_note _).bind fun _ => consumes_pure _
      · exact (consumes_note _).bind fun _ => consumes_pure _
    · split
      · exact (consumes_note _).bind fun _ => consumes_pure _
      · exact consumes_pure _
  · exact consumes_pure _

/-- To see whether a section ends uses its closing mustache or nothing. -/
theorem consumes_blockEnds (reference : String) (t : Token) : Consumes (blockEnds reference t) := by
  unfold blockEnds
  split
  · split
    · exact (consumes_note _).bind fun _ => consumes_advance.bind fun _ => consumes_pure _
    · exact consumes_advance.bind fun _ => consumes_pure _
  · exact consumes_pure _

/-- To see whether content ends uses at most one token. -/
theorem consumes_ends (container : Container) : Consumes (ends container) := by
  refine consumes_peek.bind fun t => ?_
  cases t with
  | none => exact consumes_pure _
  | some t =>
    cases container with
    | whole => exact consumes_pure _
    | block reference => exact consumes_blockEnds reference t
    | element name closers => exact consumes_elementEnds name closers t

section

variable {settings : Settings} {collect : Container → Bool → Building (List Item)}

/-- A mustache uses its own section at most. -/
theorem consumes_mustacheWith (hcollect : ∀ container keepBlanks,
    Consumes (collect container keepBlanks)) (keepBlanks : Bool) (kind : MustacheKind)
    (reference : String) (line : Nat) :
    Consumes (mustacheWith collect keepBlanks kind reference line) := by
  cases kind with
  | opening => exact (hcollect _ _).bind fun _ => consumes_pure _
  | inverted => exact (hcollect _ _).bind fun _ => consumes_pure _
  | closing => exact (consumes_note _).bind fun _ => consumes_pure _
  | _ => exact consumes_pure _

/-- A closing tag that nothing claims is passed over. -/
theorem nextItemWith_closingTag (keepBlanks : Bool) {tag : Tag} (h : tag.closing = true)
    (span : Span) (rest : List Token) (index : Nat) :
    nextItemWith settings collect keepBlanks ⟨⟨.tag tag, span⟩ :: rest, index⟩ =
      ⟨.ok none, ⟨rest, index⟩, [.strayClosingTag tag.name span.line]⟩ := by
  simp only [nextItemWith, bind_apply, peek, List.head?_cons, h, if_true]
  rfl

/-- An opening tag starts an element. -/
theorem nextItemWith_openingTag (keepBlanks : Bool) {tag : Tag} (h : tag.closing = false)
    (span : Span) (rest : List Token) (index : Nat) :
    nextItemWith settings collect keepBlanks ⟨⟨.tag tag, span⟩ :: rest, index⟩ =
      ((fun e => some (.element e)) <$> elementWith settings collect keepBlanks tag span)
        ⟨⟨.tag tag, span⟩ :: rest, index⟩ := by
  simp only [nextItemWith, bind_apply, peek, List.head?_cons, h, Bool.false_eq_true, if_false]
  generalize elementWith settings collect keepBlanks tag span = element
  rfl

/-- An element uses its opening tag, and may use tokens behind it. -/
theorem suffix_elementWith (hcollect : ∀ container keepBlanks,
    Consumes (collect container keepBlanks)) (keepBlanks : Bool) (tag : Tag) (span : Span)
    (c : Cursor) :
    (elementWith settings collect keepBlanks tag span c).state.tokens <:+ c.tokens.tail := by
  refine suffix_bind (m := advance) List.suffix_rfl fun _ => ?_
  refine consumes_takeIndex.bind fun index => (consumes_numbered _).bind fun kind => ?_
  dsimp only
  split
  · exact (consumes_note _).bind fun _ => consumes_pure _
  · exact (consumes_note _).bind fun _ => (hcollect _ _).bind fun _ => consumes_pure _

/-- Building the next item uses the token that comes next, whether or not it succeeds. All that it
does behind that token leaves a suffix of the rest. -/
theorem suffix_nextItemWith (hcollect : ∀ container keepBlanks,
    Consumes (collect container keepBlanks)) (keepBlanks : Bool) (t : Token) (rest : List Token)
    (index : Nat) :
    (nextItemWith settings collect keepBlanks ⟨t :: rest, index⟩).state.tokens <:+ rest := by
  obtain ⟨lexeme, span⟩ := t
  cases lexeme with
  | text content =>
    refine suffix_bind (m := takeText) ?_ fun _ => consumes_pure _
    exact afterText_suffix rest
  | comment content => exact suffix_bind (m := advance) List.suffix_rfl fun _ => consumes_pure _
  | mustache kind reference =>
    exact suffix_bind (m := advance) List.suffix_rfl fun _ => consumes_mustacheWith hcollect _ _ _ _
  | tag tag =>
    cases hclosing : tag.closing with
    | true =>
      simp only [nextItemWith_closingTag keepBlanks hclosing, List.suffix_rfl]
    | false =>
      rw [nextItemWith_openingTag keepBlanks hclosing, map_apply]
      have h := @suffix_elementWith settings collect hcollect keepBlanks tag span
        ⟨⟨.tag tag, span⟩ :: rest, index⟩
      dsimp only [List.tail_cons] at h ⊢
      exact h

end

/-- Whatever is collected, an end of the tokens is left, in any number of steps. -/
theorem consumes_collect (settings : Settings) (n : Nat) (container : Container)
    (keepBlanks : Bool) : Consumes (collect settings n container keepBlanks) := by
  induction n generalizing container keepBlanks with
  | zero => exact consumes_pure _
  | succ n ih =>
    refine (consumes_ends container).bind fun ended => ?_
    split
    · exact consumes_pure _
    · refine Consumes.bind ?_ fun item => (ih container keepBlanks).bind fun _ => consumes_pure _
      intro c
      obtain ⟨_ | ⟨t, rest⟩, index⟩ := c
      · exact List.suffix_rfl
      · exact (suffix_nextItemWith ih keepBlanks t rest index).trans (List.suffix_cons t rest)

end MustacheMarkup.Building
