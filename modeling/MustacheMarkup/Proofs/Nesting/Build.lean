import MustacheMarkup.Proofs.Nesting.Machine
import MustacheMarkup.Template.Build

/-!
# Items made of nested parts

`Nested.build` makes an item of a nested part: each tag is given the next index and looked into,
first the tag and then what stands in it. It has no tokens to use, so its state is the index alone.

`Building.Like` compares a step of building, which has tokens, with one that only counts elements:
both end the same way and have counted the same, and the first leaves certain tokens if it succeeds.
What is reported is not compared.
-/

set_option autoImplicit false

namespace MustacheMarkup

open Building Journal

/-! ## Building nested parts -/

/-- The identity of the next element and what it is, by its opening tag. -/
def elementHeader (settings : Settings) (tag : Tag) (span : Span) :
    Numbered (NodeId × ElementKind) := do
  let index ← Journal.get
  Journal.modify (· + 1)
  let kind ← elementKind settings.options (fragmentItems settings) (Text.lower tag.name) tag span
  return (⟨settings.run, index⟩, kind)

/-- An element takes its index before what is in its tag. -/
theorem result_elementHeader (settings : Settings) (tag : Tag) (span : Span) (index : Nat) :
    (elementHeader settings tag span index).result =
      (elementKind settings.options (fragmentItems settings) (Text.lower tag.name) tag span
        (index + 1)).result.map ((⟨settings.run, index⟩, ·)) := by
  unfold elementHeader
  simp only [bind_apply, Journal.get, Journal.modify]
  rcases elementKind settings.options (fragmentItems settings) (Text.lower tag.name) tag span
    (index + 1) with ⟨_ | kind, state, log⟩
  · rfl
  · rfl

/-- Whether blanks are kept in the element of an opening tag. -/
def Tag.keepsBlanks (tag : Tag) (keepBlanks : Bool) : Bool :=
  keepBlanks || Text.lower tag.name == Vocabulary.verbatimElement

/-- The element of an opening tag. -/
def Tag.element (tag : Tag) (header : NodeId × ElementKind) (children : Option (List Item)) :
    Element :=
  ⟨header.1, tag.name, Text.lower tag.name, header.2, tag.doctype, tag.selfClosing,
    Vocabulary.isVoid (Text.lower tag.name), Vocabulary.closers? (Text.lower tag.name), children⟩

mutual

/-- Make an item of a nested part. -/
def Nested.build (settings : Settings) (keepBlanks : Bool) : Nested → Numbered Item
  | .text content => return .text (if keepBlanks then content else Text.collapse content)
  | .mustache escaped reference => return .mustache (.ofEscaped escaped) reference
  | .block reference inverted content => do
    let items ← buildAll settings keepBlanks content
    return .block reference inverted items
  | .inclusion name => return .inclusion name
  | .comment content => return .comment content
  | .element tag span none => do
    let header ← elementHeader settings tag span
    return .element (tag.element header none)
  | .element tag span (some content) => do
    let header ← elementHeader settings tag span
    let children ← buildAll settings (tag.keepsBlanks keepBlanks) content
    return .element (tag.element header
      (some (if tag.keepsBlanks keepBlanks then children else trimBoundary children)))

/-- Make items of nested parts. -/
def buildAll (settings : Settings) (keepBlanks : Bool) : List Nested → Numbered (List Item)
  | [] => return []
  | n :: rest => do
    let item ← n.build settings keepBlanks
    let items ← buildAll settings keepBlanks rest
    return item :: items

end

/-! ## Comparing with building from tokens -/

namespace Building

variable {α β : Type}

/-- Started at `c`, `m` ends as `m'` does and counts as many elements; if it succeeds, it leaves
`rest`. -/
def Like (m : Building α) (c : Cursor) (m' : Numbered α) (rest : List Token) : Prop :=
  (m c).result = (m' c.nextIndex).result ∧ (m c).state.nextIndex = (m' c.nextIndex).state ∧
    ∀ a, (m c).result = .ok a → (m c).state.tokens = rest

/-- To give back a value uses no token and no index. -/
theorem like_pure (a : α) (c : Cursor) : Like (pure a) c (pure a) c.tokens :=
  ⟨rfl, rfl, fun _ _ => rfl⟩

/-- What uses only the index does the same without a cursor. -/
theorem like_numbered (m : Numbered α) (c : Cursor) : Like (numbered m) c m c.tokens :=
  ⟨rfl, rfl, fun _ _ => rfl⟩

/-- Where two computations are like two others step by step, so are they together. What comes of the
first pair is the same on both sides, so the second pair is only asked about that. -/
theorem Like.bind {m : Building α} {f : α → Building β} {c : Cursor} {m' : Numbered α}
    {f' : α → Numbered β} {rest rest' : List Token} (hm : Like m c m' rest)
    (hf : ∀ a index, Like (f a) ⟨rest, index⟩ (f' a) rest') :
    Like (m >>= f) c (m' >>= f') rest' := by
  obtain ⟨hresult, hindex, hrest⟩ := hm
  unfold Like
  rw [bind_apply, bind_apply]
  rcases hc : m c with ⟨_ | a, ⟨tokens, index⟩, log⟩
  · rcases hc' : m' c.nextIndex with ⟨_ | a', index', log'⟩
    · rw [hc, hc'] at hresult hindex
      cases hresult
      exact ⟨rfl, hindex, fun _ h => by cases h⟩
    · rw [hc, hc'] at hresult
      cases hresult
  · rcases hc' : m' c.nextIndex with ⟨_ | a', index', log'⟩
    · rw [hc, hc'] at hresult
      cases hresult
    · rw [hc, hc'] at hresult hindex
      rw [hc] at hrest
      cases hresult
      obtain rfl : tokens = rest := hrest a rfl
      obtain rfl : index = index' := hindex
      exact hf a index

/-- A first computation that succeeds and counts no elements may be left out. -/
theorem Like.after {m : Building α} {f : α → Building β} {c : Cursor} {a : α} {m' : Numbered β}
    {rest : List Token} (ha : (m c).result = .ok a)
    (hf : Like (f a) ⟨(m c).state.tokens, c.nextIndex⟩ m' rest)
    (hindex : (m c).state.nextIndex = c.nextIndex) : Like (m >>= f) c m' rest := by
  unfold Like
  rw [bind_apply]
  rcases hc : m c with ⟨_ | b, ⟨tokens, index⟩, log⟩
  · rw [hc] at ha
    cases ha
  · rw [hc] at ha hf hindex
    cases ha
    obtain rfl : index = c.nextIndex := hindex
    exact hf

/-- What is made of the value does not change what is used. -/
theorem Like.map {m : Building α} {c : Cursor} {m' : Numbered α} {rest : List Token}
    (f : α → β) (h : Like m c m' rest) : Like (f <$> m) c (f <$> m') rest := by
  obtain ⟨hresult, hindex, hrest⟩ := h
  unfold Like
  rw [map_apply, map_apply]
  refine ⟨congrArg (Except.map f) hresult, hindex, fun b hb => ?_⟩
  cases hr : (m c).result with
  | error e =>
    rw [hr] at hb
    cases hb
  | ok a => exact hrest a hr

end Building

end MustacheMarkup
