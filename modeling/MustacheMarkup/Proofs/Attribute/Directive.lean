import Mathlib.Data.List.Infix
import Mathlib.Data.List.TakeWhile
import MustacheMarkup.Proofs.Nesting.Marks
import MustacheMarkup.Proofs.Template.Values
import MustacheMarkup.Proofs.Token.Reading

/-!
# What the value of a directive says

The value of a directive is a list of texts and mustaches. Read character by character, it is cut at
its first literal colon: a colon in a text, not one in a mustache. What stands before is the name of
the directive and what stands behind are its arguments, and nothing but the colon is lost. Each of
the two is known as it stands if it is one literal text, and depends on values otherwise
(`Directive.says_of_ofRaw`).
-/

set_option autoImplicit false

namespace MustacheMarkup

open Building Journal

/-! ## Cutting a value -/

/-- What a value has at one place: a literal character, or a mustache. -/
inductive Sign where
  | char (c : Char)
  | mustache (kind : MustacheKind) (reference : String)
deriving Repr, DecidableEq

/-- The signs of a token of a value. -/
def Lexeme.signs : Lexeme → List Sign
  | .text content => content.toList.map .char
  | .mustache kind reference => [.mustache kind reference]
  | _ => []

/-- The signs of a value, one after another. -/
def valueSigns (tokens : List Token) : List Sign :=
  tokens.flatMap (·.lexeme.signs)

/-- No text among the tokens has a colon. -/
def Colonless (tokens : List Token) : Prop :=
  Sign.char ':' ∉ valueSigns tokens

/-- A value is cut in two at its first literal colon. Without one, all of it comes before the cut.
Of the text that is cut, a part that would be empty is left out. -/
inductive CutAtColon : List Token → List Token → List Token → Prop where
  | whole {tokens : List Token} (h : Colonless tokens) : CutAtColon tokens tokens []
  | cut {before after : List Token} {front back : List Char} {span : Span}
      (hbefore : Colonless before) (hfront : ':' ∉ front) :
      CutAtColon (before ++ ⟨.text (String.ofList (front ++ ':' :: back)), span⟩ :: after)
        (before ++ literal front span) (literal back span ++ after)

/-- A value says what its tokens say one after the other, so it can be taken apart
between tokens. -/
theorem valueSigns_append (tokens tokens' : List Token) :
    valueSigns (tokens ++ tokens') = valueSigns tokens ++ valueSigns tokens' :=
  List.flatMap_append

/-- A text in a value says its characters and nothing else. -/
theorem valueSigns_literal (content : List Char) (span : Span) :
    valueSigns (literal content span) = content.map .char := by
  unfold literal
  split
  · rename_i hempty
    rw [List.isEmpty_iff.mp hempty]
    rfl
  · simp [valueSigns, Lexeme.signs]

/-- The parts of a cut are what stands before and behind the first literal colon. In signs this can
be said without the tokens, of which one may be cut in two. -/
theorem CutAtColon.signs {tokens name arguments : List Token}
    (h : CutAtColon tokens name arguments) :
    valueSigns name = (valueSigns tokens).takeWhile (· ≠ .char ':') ∧
      valueSigns arguments = ((valueSigns tokens).dropWhile (· ≠ .char ':')).tail := by
  cases h with
  | whole h =>
    have hall : ∀ sign ∈ valueSigns tokens, decide (sign ≠ Sign.char ':') = true := by
      rintro sign hsign
      exact decide_eq_true (ne_of_mem_of_not_mem hsign h)
    rw [List.takeWhile_eq_self_iff.mpr hall, List.dropWhile_eq_nil_iff.mpr hall]
    exact ⟨rfl, rfl⟩
  | @cut before after front back span hbefore hfront =>
    have hall : ∀ sign ∈ valueSigns before ++ front.map Sign.char,
        decide (sign ≠ Sign.char ':') = true := by
      rintro sign hsign
      refine decide_eq_true (ne_of_mem_of_not_mem hsign fun hmem => ?_)
      rcases List.mem_append.mp hmem with hmem | hmem
      · exact hbefore hmem
      · obtain ⟨c, hc, hcolon⟩ := List.mem_map.mp hmem
        rw [Sign.char.inj hcolon] at hc
        exact hfront hc
    have hsigns : valueSigns
        (before ++ ⟨.text (String.ofList (front ++ ':' :: back)), span⟩ :: after) =
        (valueSigns before ++ front.map Sign.char) ++
          Sign.char ':' :: (back.map Sign.char ++ valueSigns after) := by
      simp [valueSigns, Lexeme.signs]
    rw [hsigns, List.takeWhile_append_of_pos hall, List.dropWhile_append_of_pos hall,
      valueSigns_append, valueSigns_append, valueSigns_literal, valueSigns_literal]
    simp

/-- Where a text is cut at its first colon, the colon is dropped and none stands before it. -/
theorem cutAtColon?_eq_some {s front back : List Char} (h : cutAtColon? s = some (front, back)) :
    s = front ++ ':' :: back ∧ ':' ∉ front := by
  obtain ⟨front', hbefore, heq⟩ := Option.map_eq_some_iff.mp h
  cases heq
  obtain ⟨rest, hrest⟩ := prefix_of_before? hbefore
  refine ⟨?_, fun hmem => not_infix_of_before? (by simp) hbefore ?_⟩
  · rw [← hrest]
    simp
  · exact (List.singleton_infix_iff _ _).mpr hmem

/-- A text that is not cut has no colon at all. -/
theorem not_mem_of_cutAtColon?_eq_none {s : List Char} (h : cutAtColon? s = none) : ':' ∉ s :=
  fun hmem => not_infix_of_before?_eq_none (by simp) (Option.map_eq_none_iff.mp h)
    ((List.singleton_infix_iff _ _).mpr hmem)

/-- What a value says starts with what its first token says. -/
theorem valueSigns_cons (t : Token) (tokens : List Token) :
    valueSigns (t :: tokens) = t.lexeme.signs ++ valueSigns tokens :=
  List.flatMap_cons

/-- A token without a colon goes to the name, and the cut is looked for behind it. The cut of a list
is found in this way. -/
theorem CutAtColon.cons {t : Token} {tokens name arguments : List Token}
    (ht : Sign.char ':' ∉ t.lexeme.signs) (h : CutAtColon tokens name arguments) :
    CutAtColon (t :: tokens) (t :: name) arguments := by
  have hcolonless : ∀ tokens, Colonless tokens → Colonless (t :: tokens) := fun tokens h hmem => by
    rw [valueSigns_cons] at hmem
    exact (List.mem_append.mp hmem).elim ht h
  cases h with
  | whole h => exact .whole (hcolonless _ h)
  | @cut before after front back span hbefore hfront =>
    rw [← List.cons_append, ← List.cons_append]
    exact .cut (hcolonless _ hbefore) hfront

/-- A value is cut at its first literal colon. The induction is on the tokens: a mustache and a text
without a colon are passed, a text with one ends the search. -/
theorem cutAtColon_splitAtColon (tokens : List Token) :
    CutAtColon tokens (splitAtColon tokens).1 (splitAtColon tokens).2 := by
  induction tokens with
  | nil => exact .whole List.not_mem_nil
  | cons t rest ih =>
    rw [splitAtColon]
    split
    · rename_i front back hcut
      obtain ⟨content, htext, hcontent⟩ := Option.bind_eq_some_iff.mp hcut
      obtain ⟨lexeme, span⟩ := t
      obtain rfl : lexeme = .text content := by
        cases lexeme <;> cases htext
        rfl
      obtain ⟨hcontent, hfront⟩ := cutAtColon?_eq_some hcontent
      rw [← String.ofList_toList (s := content), hcontent]
      exact @CutAtColon.cut [] rest front back span List.not_mem_nil hfront
    · rename_i hcut
      refine ih.cons fun hmem => ?_
      obtain ⟨lexeme, span⟩ := t
      cases lexeme with
      | text content =>
        obtain ⟨c, hc, hcolon⟩ := List.mem_map.mp hmem
        rw [Sign.char.inj hcolon] at hc
        exact not_mem_of_cutAtColon?_eq_none hcut hc
      | mustache kind reference => cases List.mem_singleton.mp hmem
      | comment content => cases hmem
      | tag tag => cases hmem

/-- If no text of a value is empty, none is in the parts it is cut into. The text with the colon
gives a piece to each side, and a piece without characters is left out. -/
theorem CutAtColon.ne_empty {tokens name arguments : List Token}
    (h : CutAtColon tokens name arguments) (htokens : ∀ t ∈ tokens, t.lexeme ≠ .text "") :
    ∀ t ∈ name ++ arguments, t.lexeme ≠ .text "" := by
  have hliteral : ∀ (content : List Char) (span : Span), ∀ t ∈ literal content span,
      t.lexeme ≠ .text "" := by
    intro content span t ht
    unfold literal at ht
    split at ht
    · cases ht
    · rename_i hne
      rw [List.mem_singleton.mp ht]
      intro hempty
      have hnil : content = [] := by simpa using Lexeme.text.inj hempty
      exact hne (by rw [hnil]; rfl)
  cases h with
  | whole => simpa using htokens
  | @cut before after front back span =>
    simp only [List.forall_mem_append, List.forall_mem_cons] at htokens ⊢
    exact ⟨⟨htokens.1, hliteral front span⟩, hliteral back span, htokens.2.2⟩

/-! ## What parts are built into -/

/-- A part of a value is one literal text. -/
def IsLiteral (tokens : List Token) (content : String) : Prop :=
  ∃ span, tokens = [⟨.text content, span⟩]

/-- A list is looked at as a text exactly if it is a single token that is one. -/
theorem onlyText?_eq_some_iff {tokens : List Token} {content : String} :
    onlyText? tokens = some content ↔ IsLiteral tokens content := by
  constructor
  · intro h
    unfold onlyText? at h
    split at h
    · rename_i t
      obtain ⟨lexeme, span⟩ := t
      cases lexeme <;> cases h
      exact ⟨span, rfl⟩
    · cases h
  · rintro ⟨span, rfl⟩
    rfl

/-- The items are those of the tokens with all their blanks. In their order they have all that the
tokens have. -/
structure BuiltOf (tokens : List Token) (items : List Item) : Prop where
  result : ∀ settings : Settings, settings.options.preserveWhitespace = true →
    (Template.ofTokens settings tokens).result = .ok items
  marks : joinMarks (itemsMarks items) = joinMarks (tokensMarks tokens)

/-- What tokens are built to does not depend on the settings, so it is one list of items. This is
what lets the name and the arguments be said once for all runs. -/
theorem BuiltOf.unique {tokens : List Token} {items items' : List Item} (h : BuiltOf tokens items)
    (h' : BuiltOf tokens items') : items = items' := by
  have hresult := h.result ⟨⟨true, false⟩, 0⟩ rfl
  rw [h'.result ⟨⟨true, false⟩, 0⟩ rfl] at hresult
  exact (Except.ok.inj hresult).symm

/-- A part of a value without tags can be built, and no element is counted. -/
theorem exists_builtOf {tokens : List Token} (h : ∀ t ∈ tokens, t.lexeme.inValue = true) :
    ∃ items, BuiltOf tokens items ∧
      ∀ settings index, Yields (· = index) (fragmentItems settings tokens) (.ok items) := by
  obtain ⟨items, -, hyields⟩ := exists_fragment h
  have hbuilt : ∀ settings,
      (buildAll settings true (Nesting.ofTokens tokens) 0).result = .ok items := by
    intro settings
    rw [← fragmentItems_result]
    exact (hyields settings 0).result rfl
  refine ⟨items, ⟨fun settings hkeep => ?_, ?_⟩, hyields⟩
  · rw [Template.ofTokens_result, hkeep, hbuilt]
    rfl
  · have hmarks := Template.joinMarks_of_buildAll (hbuilt ⟨default, 0⟩) Mark.joins_some
    rwa [List.filterMap_some, List.filterMap_some] at hmarks

/-- What a directive says whose value is cut into these two parts. -/
structure Directive.Says (name arguments : List Token) (d : Directive) : Prop where
  fixed : ∀ s, d.name = .fixed s ↔ IsLiteral name s
  dynamic : ∀ items, d.name = .dynamic items ↔
    (∀ s, ¬IsLiteral name s) ∧ BuiltOf name items
  known : ∀ json, d.arguments = some json ↔
    ∃ s, IsLiteral arguments s ∧ json = (Json.read? s).getD (.string s)
  dependent : ∀ items, d.dynamicArguments = some items ↔
    arguments ≠ [] ∧ (∀ s, ¬IsLiteral arguments s) ∧ BuiltOf arguments items

/-- The name of a directive is fixed exactly if its tokens are one text, and else it is what these
are built to, in every run and from every index. -/
theorem exists_name {tokens : List Token} (h : ∀ t ∈ tokens, t.lexeme.inValue = true) :
    ∃ name : DirectiveName,
      (∀ settings index, Yields (· = index)
        (DirectiveName.ofTokens (fragmentItems settings) tokens) (.ok name)) ∧
      (∀ s, name = .fixed s ↔ IsLiteral tokens s) ∧
      ∀ items, name = .dynamic items ↔ (∀ s, ¬IsLiteral tokens s) ∧ BuiltOf tokens items := by
  simp only [← onlyText?_eq_some_iff]
  unfold DirectiveName.ofTokens
  cases honly : onlyText? tokens with
  | some content =>
    refine ⟨.fixed content, fun _ _ => yields_pure _, fun s => ?_, fun items => ?_⟩
    · simp
    · simp
  | none =>
    obtain ⟨items, hbuilt, hyields⟩ := exists_builtOf h
    refine ⟨.dynamic items, fun settings index => ?_, fun s => ?_, fun items' => ?_⟩
    · exact (hyields settings index).bind_ok (yields_pure _)
    · simp
    · simp only [DirectiveName.dynamic.injEq, reduceCtorEq, not_false_eq_true, implies_true,
        true_and]
      exact ⟨fun heq => heq ▸ hbuilt, hbuilt.unique⟩

/-- The arguments are known exactly if the tokens behind the colon are one text, which is read as
JSON where that is possible. Else they are what the tokens are built to, and without tokens there
are none. -/
theorem exists_arguments {tokens : List Token} (h : ∀ t ∈ tokens, t.lexeme.inValue = true) :
    ∃ arguments : Option Json × Option (List Item),
      (∀ settings index, Yields (· = index)
        (Directive.arguments? (fragmentItems settings) tokens) (.ok arguments)) ∧
      (∀ json, arguments.1 = some json ↔
        ∃ s, IsLiteral tokens s ∧ json = (Json.read? s).getD (.string s)) ∧
      ∀ items, arguments.2 = some items ↔
        tokens ≠ [] ∧ (∀ s, ¬IsLiteral tokens s) ∧ BuiltOf tokens items := by
  simp only [← onlyText?_eq_some_iff]
  unfold Directive.arguments?
  cases hempty : tokens with
  | nil =>
    refine ⟨(none, none), fun _ _ => yields_pure _, fun json => ?_, fun items => ?_⟩
    · simp [onlyText?]
    · simp
  | cons t rest =>
    rw [hempty] at h
    cases honly : onlyText? (t :: rest) with
    | some content =>
      refine ⟨(some (argumentValue content), none), fun _ _ => yields_pure _, fun json => ?_,
        fun items => ?_⟩
      · simp [argumentValue, eq_comm]
      · simp
    | none =>
      obtain ⟨items, hbuilt, hyields⟩ := exists_builtOf h
      refine ⟨(none, some items), fun settings index => ?_, fun json => ?_, fun items' => ?_⟩
      · exact (hyields settings index).bind_ok (yields_pure _)
      · simp
      · simp only [Option.some.injEq, ne_eq, reduceCtorEq, not_false_eq_true, implies_true,
          true_and]
        exact ⟨fun heq => heq ▸ hbuilt, hbuilt.unique⟩

/-! ## Directives -/

/-- A directive whose occasion is named and whose value has texts and mustaches can be built. Its
value is cut at the first literal colon, and both parts are said. -/
theorem Directive.says_of_ofRaw (settings : Settings) (span : Span) (occasion : String)
    (tokens : List Token) (index : Nat) (hoccasion : occasion ≠ "")
    (htokens : ∀ t ∈ tokens, t.lexeme.inValue = true ∧ t.lexeme ≠ .text "") :
    ∃ name arguments d, CutAtColon tokens name arguments ∧
      valueSigns name = (valueSigns tokens).takeWhile (· ≠ .char ':') ∧
      valueSigns arguments = ((valueSigns tokens).dropWhile (· ≠ .char ':')).tail ∧
      (∀ t ∈ name ++ arguments, t.lexeme ≠ .text "") ∧
      (Directive.ofRaw (fragmentItems settings) span ⟨occasion, some tokens⟩ index).result =
        .ok d ∧
      d.occasion = occasion ∧ d.Says name arguments := by
  have hcut := cutAtColon_splitAtColon tokens
  have hparts := inValue_splitAtColon fun t ht => (htokens t ht).1
  obtain ⟨name, hname, hfixed, hdynamic⟩ := exists_name hparts.1
  obtain ⟨⟨known, dependent⟩, harguments, hknown, hdependent⟩ := exists_arguments hparts.2
  refine ⟨_, _, ⟨occasion, name, known, dependent⟩, hcut, hcut.signs.1, hcut.signs.2,
    hcut.ne_empty fun t ht => (htokens t ht).2, ?_, rfl, hfixed, hdynamic, hknown, hdependent⟩
  have hnamed : ¬occasion.isEmpty = true := fun hempty => hoccasion (String.isEmpty_iff.mp hempty)
  have hyields : Yields (· = index)
      (Directive.ofRaw (fragmentItems settings) span ⟨occasion, some tokens⟩)
      (.ok ⟨occasion, name, known, dependent⟩) := by
    unfold Directive.ofRaw
    dsimp only
    rw [if_neg hnamed]
    exact (hname settings index).bind_ok ((harguments settings index).bind_ok (yields_pure _))
  exact hyields.result rfl

/-- Colons in a mustache, at the end of a text, as a text of their own, and in the arguments. -/
def manyColons : List Token :=
  [⟨.mustache .interpolation "a:b", default⟩, ⟨.text "go", default⟩, ⟨.text ":", default⟩,
    ⟨.text "[1, \"\u00fc:\"]", default⟩]

/-- A value with three colons, one of them in a mustache: the cut is at the first one outside of it,
and both sides are taken from there. -/
theorem Directive.says_manyColons :
    ∃ name arguments d, CutAtColon manyColons name arguments ∧
      valueSigns name = (valueSigns manyColons).takeWhile (· ≠ .char ':') ∧
      valueSigns arguments = ((valueSigns manyColons).dropWhile (· ≠ .char ':')).tail ∧
      (∀ t ∈ name ++ arguments, t.lexeme ≠ .text "") ∧
      (Directive.ofRaw (fragmentItems ⟨⟨false, true⟩, 3⟩) default ⟨"click", some manyColons⟩
        7).result = .ok d ∧
      d.occasion = "click" ∧ d.Says name arguments :=
  Directive.says_of_ofRaw ⟨⟨false, true⟩, 3⟩ default "click" manyColons 7 (by decide) fun t ht => by
    simp only [manyColons, List.mem_cons, List.not_mem_nil, or_false] at ht
    rcases ht with rfl | rfl | rfl | rfl <;> exact ⟨rfl, by simp⟩

end MustacheMarkup
