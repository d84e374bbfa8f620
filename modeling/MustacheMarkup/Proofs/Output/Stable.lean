import Mathlib.Algebra.GroupWithZero.Nat
import MustacheMarkup.Proofs.Output.Reread

/-!
# When the second markup is the first

A form is stable if its second markup is the same as its first. What that asks for is said directly:
no attribute stands for behaviour, no value is quoted for nothing but the double quotes in it, and
where blanks are not kept none could be squeezed or trimmed. That nothing else will do is shown by a
weight: the second markup never weighs more than the first, and it weighs less if a form is not
stable. A blank that is no space weighs two, so that turning it into a space is seen.
-/

set_option autoImplicit false

namespace MustacheMarkup

open Output

/-! ## Stable forms -/

/-- A value is written again as it was if it needs no quotes, or needs them for something else than
double quotes. -/
def valueStable (value : String) : Bool :=
  !needsQuotes value || needsQuotes (escapeQuotes value)

/-- Whether an attribute is written again as it was. -/
def attributeStable (a : String × String) : Bool :=
  decide (Role.ofName a.1 = .plain) && valueStable a.2

/-- Whether forms start with a text that starts with a blank. -/
def startsBlank : List Literal → Bool
  | .text content :: _ => content.toList.head?.any Text.isBlank
  | _ => false

/-- Whether forms end with a text that ends with a blank. -/
def endsBlank : List Literal → Bool
  | [] => false
  | [.text content] => content.toList.getLast?.any Text.isBlank
  | _ :: rest => endsBlank rest

/-- What stands before the last form does not matter for how the forms end. -/
theorem endsBlank_cons_cons (l l' : Literal) (rest : List Literal) :
    endsBlank (l :: l' :: rest) = endsBlank (l' :: rest) := by
  cases l <;> rfl

mutual

/-- Whether a form is written again as it was. -/
def Literal.stable (keepBlanks : Bool) : Literal → Bool
  | .text content => keepBlanks || Text.collapse content == content
  | .comment _ => true
  | .alone _ attributes _ => attributes.all attributeStable
  | .element name attributes content => attributes.all attributeStable &&
    (literalsStable (keepsBlanksIn name keepBlanks) content &&
      (keepsBlanksIn name keepBlanks || !(startsBlank content || endsBlank content)))

/-- Whether all of some forms are written again as they were. -/
def literalsStable (keepBlanks : Bool) : List Literal → Bool
  | [] => true
  | l :: rest => l.stable keepBlanks && literalsStable keepBlanks rest

end

/-- Whether the forms of content are written again as they were, with the blanks at its ends. -/
def contentStable (keepBlanks : Bool) (literals : List Literal) : Bool :=
  literalsStable keepBlanks literals &&
    (keepBlanks || !(startsBlank literals || endsBlank literals))

/-- Attributes that are written again as they were stand for no behaviour. -/
theorem attributesPlain_of_stable {attributes : List (String × String)}
    (h : attributes.all attributeStable = true) : attributesPlain attributes = true := by
  rw [List.all_eq_true] at h
  refine List.all_eq_true.mpr fun a ha => ?_
  have hstable := h a ha
  rw [attributeStable, Bool.and_eq_true] at hstable
  exact hstable.1

mutual

/-- A stable form is without behaviour. -/
theorem plain_of_stable {keepBlanks : Bool} : ∀ l : Literal, l.stable keepBlanks = true →
    l.plain = true
  | .text _, _ => rfl
  | .comment _, _ => rfl
  | .alone _ _ _, h => attributesPlain_of_stable h
  | .element _ _ content, h => by
    rw [Literal.stable, Bool.and_eq_true, Bool.and_eq_true] at h
    rw [Literal.plain, attributesPlain_of_stable h.1, plain_of_literalsStable content h.2.1]
    rfl

/-- Stable forms are without behaviour. -/
theorem plain_of_literalsStable {keepBlanks : Bool} : ∀ literals : List Literal,
    literalsStable keepBlanks literals = true → literalsPlain literals = true
  | [], _ => rfl
  | l :: rest, h => by
    rw [literalsStable, Bool.and_eq_true] at h
    rw [literalsPlain, plain_of_stable l h.1, plain_of_literalsStable rest h.2]
    rfl

end

/-! ## Weights -/

/-- The weight of a character. -/
def charWeight (c : Char) : Nat :=
  if Text.isBlank c && c != ' ' then 2 else 1

/-- The weight of a text. -/
def weight (s : List Char) : Nat :=
  (s.map charWeight).sum

/-- Every character has a weight, so to drop one makes a text lighter. -/
theorem charWeight_pos (c : Char) : 0 < charWeight c := by
  unfold charWeight
  split <;> omega

/-- A text without characters has no weight. -/
@[simp]
theorem weight_nil : weight [] = 0 := rfl

/-- The weight of a text, character by character. -/
@[simp]
theorem weight_cons (c : Char) (s : List Char) : weight (c :: s) = charWeight c + weight s := rfl

/-- The weight of two texts is that of both. -/
@[simp]
theorem weight_append (s t : List Char) : weight (s ++ t) = weight s + weight t := by
  simp [weight]

/-- A text is written again as it was, or it becomes lighter. -/
def Rewrites (stable : Bool) (again before : List Char) : Prop :=
  if stable then again = before else weight again < weight before

/-- A text that is written again as it was. -/
theorem rewrites_refl (s : List Char) : Rewrites true s s := rfl

section

variable {a b : Bool} {s s' t t' : List Char}

/-- Whatever is written again is no heavier than it was. -/
theorem Rewrites.weight_le (h : Rewrites a s t) : weight s ≤ weight t := by
  cases a with
  | true => exact Nat.le_of_eq (congrArg weight h)
  | false => exact Nat.le_of_lt h

/-- Whether something is written again as it was can be told from the flag, because a text that
becomes lighter is another one. -/
theorem Rewrites.eq_iff (h : Rewrites a s t) : s = t ↔ a = true := by
  cases a with
  | true => exact ⟨fun _ => rfl, fun _ => h⟩
  | false =>
    refine ⟨fun heq => ?_, fun h => by cases h⟩
    have hlt : weight s < weight t := h
    rw [heq] at hlt
    exact absurd hlt (Nat.lt_irrefl _)

/-- Two texts that are written again, one after the other: both are the same again, or together they
are lighter. -/
theorem Rewrites.append (h : Rewrites a s t) (h' : Rewrites b s' t') :
    Rewrites (a && b) (s ++ s') (t ++ t') := by
  have hle := h.weight_le
  have hle' := h'.weight_le
  cases a with
  | true =>
    obtain rfl : s = t := h
    cases b with
    | true =>
      obtain rfl : s' = t' := h'
      exact rfl
    | false =>
      have hlt : weight s' < weight t' := h'
      show weight (s ++ s') < weight (s ++ t')
      rw [weight_append, weight_append]
      omega
  | false =>
    have hlt : weight s < weight t := h
    show weight (s ++ s') < weight (t ++ t')
    rw [weight_append, weight_append]
    omega

/-- What is written again twice is lighter if it was so in one of the two steps. -/
theorem Rewrites.trans (h : Rewrites a s t) (h' : Rewrites b t t') : Rewrites (b && a) s t' := by
  have hle := h.weight_le
  cases b with
  | true =>
    obtain rfl : t = t' := h'
    exact h
  | false =>
    have hlt : weight t < weight t' := h'
    exact Nat.lt_of_le_of_lt hle hlt

end

/-! ## Texts -/

/-- What is the same or lighter rewrites, with the flag that tells which. -/
theorem rewrites_beq {s t : List Char} (h : s = t ∨ weight s < weight t) :
    Rewrites (s == t) s t := by
  by_cases heq : s = t
  · rw [beq_iff_eq.mpr heq]
    exact heq
  · rw [beq_eq_false_iff_ne.mpr heq]
    exact h.resolve_left heq

/-- To squeeze blanks leaves a text as it was or makes it lighter. A blank that is no space weighs
more than the space that it becomes. -/
theorem squeezeBlanks_lighter (afterBlank : Bool) (s : List Char) :
    Text.squeezeBlanks afterBlank s = s ∨ weight (Text.squeezeBlanks afterBlank s) < weight s := by
  induction s generalizing afterBlank with
  | nil => exact Or.inl rfl
  | cons c s ih =>
    have hc := charWeight_pos c
    have hle : ∀ b, weight (Text.squeezeBlanks b s) ≤ weight s := fun b => by
      rcases ih b with h | h
      · exact Nat.le_of_eq (congrArg weight h)
      · exact Nat.le_of_lt h
    rw [Text.squeezeBlanks, weight_cons]
    split
    · rename_i hblank
      have hrest := hle true
      split
      · exact Or.inr (by omega)
      · have hspace : charWeight ' ' = 1 := by decide
        rw [weight_cons, hspace]
        by_cases hspace : c = ' '
        · subst hspace
          rcases ih true with h | h
          · exact Or.inl (by rw [h])
          · exact Or.inr (by omega)
        · have htwo : charWeight c = 2 := by simp [charWeight, hblank, hspace]
          exact Or.inr (by omega)
    · rw [weight_cons]
      rcases ih false with h | h
      · exact Or.inl (by rw [h])
      · exact Or.inr (by omega)

/-- To collapse blanks rewrites a text, and leaves it as it was exactly if they were collapsed
before. -/
theorem rewrites_collapse (s : String) :
    Rewrites (Text.collapse s == s) (Text.collapse s).toList s.toList := by
  have hbeq : (Text.collapse s == s) = (Text.squeezeBlanks false s.toList == s.toList) := by
    rw [Bool.eq_iff_iff, beq_iff_eq, beq_iff_eq, Text.collapse]
    exact ⟨fun h => by rw [← String.toList_ofList (l := Text.squeezeBlanks false s.toList), h],
      fun h => by rw [h, String.ofList_toList]⟩
  rw [hbeq, Text.collapse, String.toList_ofList]
  exact rewrites_beq (squeezeBlanks_lighter false s.toList)

/-- To drop blanks at the start leaves a text as it was exactly if it does not start with one. -/
theorem rewrites_dropBlanks (s : List Char) :
    Rewrites (!s.head?.any Text.isBlank) (Text.dropBlanks s) s := by
  cases s with
  | nil => exact rfl
  | cons c s =>
    unfold Text.dropBlanks
    rw [List.head?_cons, Option.any_some]
    cases hc : Text.isBlank c with
    | false => exact List.dropWhile_cons_of_neg (by simp [hc])
    | true =>
      have hsuffix : s.dropWhile Text.isBlank <:+ s := List.dropWhile_suffix _
      obtain ⟨t, ht⟩ := hsuffix
      have hle : weight (s.dropWhile Text.isBlank) ≤ weight s := by
        have hweight := congrArg weight ht
        rw [weight_append] at hweight
        omega
      have hpos := charWeight_pos c
      show weight ((c :: s).dropWhile Text.isBlank) < weight (c :: s)
      rw [List.dropWhile_cons_of_pos hc, weight_cons]
      omega

/-- A text weighs the same in reverse. -/
theorem weight_reverse (s : List Char) : weight s.reverse = weight s := by
  unfold weight
  rw [List.map_reverse, List.sum_reverse]

/-- To drop blanks at the end leaves a text as it was exactly if it does not end with one. -/
theorem rewrites_dropBlanksEnd (s : List Char) :
    Rewrites (!s.getLast?.any Text.isBlank) (Text.dropBlanksEnd s) s := by
  have hdrop := rewrites_dropBlanks s.reverse
  rw [List.head?_reverse] at hdrop
  unfold Text.dropBlanksEnd
  cases hlast : s.getLast?.any Text.isBlank with
  | false =>
    rw [hlast] at hdrop
    have heq : Text.dropBlanks s.reverse = s.reverse := hdrop
    show (Text.dropBlanks s.reverse).reverse = s
    rw [heq, List.reverse_reverse]
  | true =>
    rw [hlast] at hdrop
    have hlt : weight (Text.dropBlanks s.reverse) < weight s.reverse := hdrop
    show weight (Text.dropBlanks s.reverse).reverse < weight s
    rw [weight_reverse, ← weight_reverse s]
    exact hlt

/-! ## Content -/

/-- What is trimmed at the start of forms is dropped from their markup. A text that becomes empty
writes nothing anyway. -/
theorem literalsMarkup_trimFirst (content : String) (rest : List Literal) :
    literalsMarkup (trimFirstLiteral (.text content :: rest)) =
      Text.trimStart content ++ literalsMarkup rest := by
  simp only [trimFirstLiteral]
  split
  · rename_i hempty
    rw [String.isEmpty_iff.mp hempty, String.empty_append]
  · rfl

/-- To trim the start of forms rewrites their markup. -/
theorem rewrites_trimFirst (literals : List Literal) :
    Rewrites (!startsBlank literals) (literalsMarkup (trimFirstLiteral literals)).toList
      (literalsMarkup literals).toList := by
  cases literals with
  | nil => exact rewrites_refl _
  | cons l rest =>
    cases l with
    | text content =>
      rw [literalsMarkup_trimFirst, literalsMarkup, Literal.markup, String.toList_append,
        String.toList_append, Text.trimStart, String.toList_ofList,
        ← Bool.and_true (!startsBlank _)]
      exact (rewrites_dropBlanks content.toList).append (rewrites_refl _)
    | _ => exact rewrites_refl _

/-- To trim the end of forms rewrites their markup. -/
theorem rewrites_trimLast (literals : List Literal) :
    Rewrites (!endsBlank literals) (literalsMarkup (trimLastLiteral literals)).toList
      (literalsMarkup literals).toList := by
  induction literals with
  | nil => exact rewrites_refl _
  | cons l rest ih =>
    cases rest with
    | nil =>
      cases l with
      | text content =>
        have hmarkup : literalsMarkup (trimLastLiteral [.text content]) = Text.trimEnd content := by
          simp only [trimLastLiteral]
          split
          · rename_i hempty
            rw [String.isEmpty_iff.mp hempty]
            rfl
          · simp [literalsMarkup, Literal.markup]
        rw [hmarkup, literalsMarkup, literalsMarkup, Literal.markup, String.append_empty,
          Text.trimEnd, String.toList_ofList]
        exact rewrites_dropBlanksEnd content.toList
      | _ => exact rewrites_refl _
    | cons l' rest =>
      rw [trimLastLiteral_cons_cons, literalsMarkup, literalsMarkup, String.toList_append,
        String.toList_append, endsBlank_cons_cons, ← Bool.true_and (!endsBlank _)]
      exact (rewrites_refl _).append ih

/-- Where no blank is trimmed at the start, the end is the same as before. -/
theorem endsBlank_trimFirst {literals : List Literal} (h : startsBlank literals = false) :
    endsBlank (trimFirstLiteral literals) = endsBlank literals := by
  cases literals with
  | nil => rfl
  | cons l rest =>
    cases l with
    | text content =>
      have hdrop := rewrites_dropBlanks content.toList
      rw [show content.toList.head?.any Text.isBlank = false from h] at hdrop
      have hself : Text.trimStart content = content := by
        rw [Text.trimStart, show Text.dropBlanks content.toList = content.toList from hdrop,
          String.ofList_toList]
      simp only [trimFirstLiteral]
      rw [hself]
      split
      · rename_i hempty
        rw [String.isEmpty_iff.mp hempty]
        cases rest <;> rfl
      · rfl
    | _ => rfl

/-- To trim both ends rewrites the markup, unless blanks are kept. -/
theorem rewrites_trimLiterals (keepBlanks : Bool) (literals : List Literal) :
    Rewrites (keepBlanks || !(startsBlank literals || endsBlank literals))
      (literalsMarkup (trimLiterals keepBlanks literals)).toList
      (literalsMarkup literals).toList := by
  cases keepBlanks with
  | true => exact rewrites_refl _
  | false =>
    have hfirst := rewrites_trimFirst literals
    have hlast := rewrites_trimLast (trimFirstLiteral literals)
    have htrim := hlast.trans hfirst
    cases hstart : startsBlank literals with
    | true =>
      rw [hstart] at htrim
      exact htrim
    | false =>
      rw [hstart, endsBlank_trimFirst hstart] at htrim
      exact htrim

/-! ## Tags -/

/-- There are no double quotes left to be escaped a second time. -/
@[simp]
theorem escapeQuotes_escapeQuotes (value : String) :
    escapeQuotes (escapeQuotes value) = escapeQuotes value :=
  escapeQuotes_eq_self (escapeQuotes_ne value)

/-- A value that needs no quotes has nothing to be escaped. -/
theorem escapeQuotes_of_not_needsQuotes {value : String} (h : needsQuotes value = false) :
    escapeQuotes value = value :=
  escapeQuotes_eq_self fun c hc => (chars_of_not_needsQuotes h c hc).2.1

/-- To escape quotes makes no value empty. -/
theorem isEmpty_escapeQuotes (value : String) :
    (escapeQuotes value).isEmpty = value.isEmpty := by
  cases hempty : value.isEmpty with
  | true =>
    rw [String.isEmpty_iff.mp hempty]
    rfl
  | false =>
    rw [Bool.eq_false_iff]
    intro h
    exact escapeQuotes_ne_empty hempty (String.toList_eq_nil_iff.mpr (String.isEmpty_iff.mp h))

/-- A value that is not stable loses its quotes: what stands for a double quote has no double quote
in it, so nothing asks for quotes any more. -/
theorem valueChars_escapeQuotes (value : String) :
    valueChars (escapeQuotes value) = valueChars value ∧ valueStable value = true ∨
      weight (valueChars (escapeQuotes value)) + 2 = weight (valueChars value) ∧
        valueStable value = false := by
  unfold valueStable
  cases hquotes : needsQuotes value with
  | false =>
    rw [escapeQuotes_of_not_needsQuotes hquotes]
    exact Or.inl ⟨rfl, rfl⟩
  | true =>
    unfold valueChars
    rw [escapeQuotes_escapeQuotes, hquotes, if_pos rfl]
    cases hagain : needsQuotes (escapeQuotes value) with
    | true => exact Or.inl ⟨rfl, rfl⟩
    | false =>
      have hquote : charWeight '"' = 1 := by decide
      refine Or.inr ⟨?_, rfl⟩
      rw [if_neg Bool.false_ne_true, List.cons_append, weight_cons, weight_append, weight_cons,
        weight_nil, hquote]
      omega

/-- What stays of an attribute is written again as it was, or is lighter by at least two: the two
quotes of its value, or the name with the blank before it. -/
theorem attributeChars_reread (a : String × String) (hname : a.1 ≠ "") :
    attributesChars (rereadAttributes [a]) = attributesChars [a] ∧ attributeStable a = true ∨
      weight (attributesChars (rereadAttributes [a])) + 2 ≤ weight (attributesChars [a]) ∧
        attributeStable a = false := by
  have hspace : charWeight ' ' = 1 := by decide
  by_cases hrole : Role.ofName a.1 = .plain
  · have hreread : rereadAttributes [a] = [(a.1, escapeQuotes a.2)] := by
      simp [rereadAttributes, hrole]
    have hstable : attributeStable a = valueStable a.2 := by
      simp [attributeStable, hrole]
    rw [hreread, hstable]
    simp only [attributesChars, List.flatMap_cons, List.flatMap_nil, List.append_nil,
      attributeChars, isEmpty_escapeQuotes]
    split
    · rename_i hempty
      refine Or.inl ⟨rfl, ?_⟩
      rw [String.isEmpty_iff.mp hempty]
      rfl
    · rcases valueChars_escapeQuotes a.2 with ⟨hchars, hstable⟩ | ⟨hweight, hstable⟩
      · exact Or.inl ⟨by rw [hchars], hstable⟩
      · refine Or.inr ⟨?_, hstable⟩
        simp only [weight_cons, weight_append]
        omega
  · have hreread : rereadAttributes [a] = [] := by
      simp [rereadAttributes, hrole]
    have hstable : attributeStable a = false := by
      simp [attributeStable, hrole]
    rw [hreread, hstable]
    refine Or.inr ⟨?_, rfl⟩
    obtain ⟨c, s, hcs⟩ := List.exists_cons_of_ne_nil fun hnil =>
      hname (String.toList_eq_nil_iff.mp hnil)
    have hc := charWeight_pos c
    simp only [attributesChars, List.flatMap_cons, List.flatMap_nil, List.append_nil,
      attributeChars, hcs, List.cons_append, weight_cons, hspace, weight_nil]
    omega

/-- Attributes that are read again are written as they were if all are stable. Otherwise they become
lighter by at least two, which is more than the space that the end of the tag may gain. -/
theorem attributesChars_reread {attributes : List (String × String)}
    (hnames : ∀ a ∈ attributes, a.1 ≠ "") :
    attributesChars (rereadAttributes attributes) = attributesChars attributes ∧
        attributes.all attributeStable = true ∨
      weight (attributesChars (rereadAttributes attributes)) + 2 ≤
          weight (attributesChars attributes) ∧
        attributes.all attributeStable = false := by
  induction attributes with
  | nil => exact Or.inl ⟨rfl, rfl⟩
  | cons a rest ih =>
    obtain ⟨hname, hrest⟩ := List.forall_mem_cons.mp hnames
    have hchars : ∀ a : String × String, ∀ rest,
        attributesChars (a :: rest) = attributesChars [a] ++ attributesChars rest := by
      simp [attributesChars]
    have hreread : attributesChars (rereadAttributes (a :: rest)) =
        attributesChars (rereadAttributes [a]) ++ attributesChars (rereadAttributes rest) := by
      by_cases hrole : Role.ofName a.1 = .plain
      · simp [rereadAttributes, hrole, attributesChars]
      · simp [rereadAttributes, hrole, attributesChars]
    rw [hreread, hchars, List.all_cons, weight_append, weight_append]
    rcases attributeChars_reread a hname with ⟨ha, hstable⟩ | ⟨ha, hstable⟩
    · rw [ha, hstable, Bool.true_and]
      rcases ih hrest with ⟨hsame, hall⟩ | ⟨hlighter, hall⟩
      · exact Or.inl ⟨by rw [hsame], hall⟩
      · exact Or.inr ⟨by omega, hall⟩
    · rw [hstable, Bool.false_and]
      refine Or.inr ⟨?_, rfl⟩
      rcases ih hrest with ⟨hsame, -⟩ | ⟨hlighter, -⟩
      · rw [hsame]
        omega
      · omega

/-- Stable attributes end in the same way when they are read again, so the end of the tag is written
in the same way too. -/
theorem lastUnquoted_reread {attributes : List (String × String)}
    (h : attributes.all attributeStable = true) :
    lastUnquoted (rereadAttributes attributes) = lastUnquoted attributes := by
  rw [List.all_eq_true] at h
  have hall : attributes.filter (fun a => Role.ofName a.1 = .plain) = attributes := by
    rw [List.filter_eq_self]
    intro a ha
    have hstable := h a ha
    rw [attributeStable, Bool.and_eq_true] at hstable
    exact hstable.1
  unfold lastUnquoted rereadAttributes
  rw [hall, List.getLast?_map]
  cases hlast : attributes.getLast? with
  | none => rfl
  | some a =>
    have hstable := h a (List.mem_of_getLast? hlast)
    rw [attributeStable, Bool.and_eq_true, valueStable] at hstable
    simp only [Option.map_some, Option.any_some, isEmpty_escapeQuotes]
    cases hquotes : needsQuotes a.2 with
    | false => rw [escapeQuotes_of_not_needsQuotes hquotes, hquotes]
    | true =>
      rw [hquotes] at hstable
      rw [show needsQuotes (escapeQuotes a.2) = true from hstable.2]

/-- An opening tag is written again as it was, or becomes lighter. A space before its end weighs
less than what is gone. -/
theorem rewrites_openingTag (name : String) {attributes : List (String × String)}
    (hnames : ∀ a ∈ attributes, a.1 ≠ "") (void selfClosing : Bool) :
    Rewrites (attributes.all attributeStable)
      (openingTag name (written (rereadAttributes attributes)) void selfClosing).toList
      (openingTag name (written attributes) void selfClosing).toList := by
  rw [toList_openingTag, toList_openingTag, tagEnd_written, tagEnd_written]
  rcases attributesChars_reread hnames with ⟨hchars, hall⟩ | ⟨hlighter, hall⟩
  · rw [hchars, lastUnquoted_reread hall, hall]
    exact rewrites_refl _
  · have hend : ∀ before after : Bool,
        weight (if void then ">" else if selfClosing then if after then " />" else "/>"
          else ">").toList ≤
        weight (if void then ">" else if selfClosing then if before then " />" else "/>"
          else ">").toList + 1 := by
      cases void <;> cases selfClosing <;> decide
    have hle := hend (lastUnquoted attributes) (lastUnquoted (rereadAttributes attributes))
    rw [hall]
    show weight _ < weight _
    simp only [weight_cons, weight_append]
    omega

/-! ## Forms -/

/-- A stable text is read again as it was. -/
theorem reread_text {keepBlanks : Bool} {content : String}
    (h : (Literal.text content).stable keepBlanks = true) :
    (Literal.text content).reread keepBlanks = .text content := by
  rw [Literal.stable, Bool.or_eq_true, beq_iff_eq] at h
  rw [Literal.reread]
  rcases h with h | h
  · rw [h, if_pos rfl]
  · rw [h, ite_self]

/-- Stable forms start with a blank exactly if they do so when they are read again. -/
theorem startsBlank_reread {keepBlanks : Bool} {literals : List Literal}
    (h : literalsStable keepBlanks literals = true) :
    startsBlank (literalsReread keepBlanks literals) = startsBlank literals := by
  cases literals with
  | nil => rfl
  | cons l rest =>
    rw [literalsStable, Bool.and_eq_true] at h
    cases l with
    | text content =>
      rw [literalsReread, reread_text h.1]
      rfl
    | _ => rfl

/-- Stable forms end with a blank exactly if they do so when they are read again. -/
theorem endsBlank_reread {keepBlanks : Bool} {literals : List Literal}
    (h : literalsStable keepBlanks literals = true) :
    endsBlank (literalsReread keepBlanks literals) = endsBlank literals := by
  induction literals with
  | nil => rfl
  | cons l rest ih =>
    rw [literalsStable, Bool.and_eq_true] at h
    cases rest with
    | nil =>
      cases l with
      | text content =>
        rw [literalsReread, reread_text h.1]
        rfl
      | _ => rfl
    | cons l' rest =>
      have hrest := ih h.2
      rw [literalsReread] at hrest
      rw [literalsReread, literalsReread, endsBlank_cons_cons, endsBlank_cons_cons, hrest]

mutual

/-- A form is written again as it was, or becomes lighter. So the second markup of forms is the
first one only if every single form is stable. -/
theorem rewrites_reread (keepBlanks : Bool) : ∀ l : Literal, l.Legible →
    Rewrites (l.stable keepBlanks) (l.reread keepBlanks).markup.toList l.markup.toList
  | .text content, _ => by
    rw [Literal.stable, Literal.reread, Literal.markup, Literal.markup]
    cases keepBlanks with
    | true => exact rewrites_refl _
    | false => exact rewrites_collapse content
  | .comment content, _ => rewrites_refl _
  | .alone name attributes slash, h => by
    obtain ⟨-, -, hattributes⟩ := h
    exact rewrites_openingTag name (fun a ha => (hattributes a ha).name.ne_empty) _ _
  | .element name attributes content, h => by
    obtain ⟨-, -, hattributes, -, hcontent⟩ := h
    have htag := rewrites_openingTag name (fun a ha => (hattributes a ha).name.ne_empty) false false
    have hinner := rewrites_contentReread (keepsBlanksIn name keepBlanks) content hcontent
    have hclose : Rewrites true ("</" ++ name ++ ">").toList ("</" ++ name ++ ">").toList :=
      rewrites_refl _
    have happend := htag.append (hinner.append hclose)
    rw [Bool.and_true] at happend
    simp only [Literal.reread, Literal.markup, String.toList_append, List.append_assoc] at happend ⊢
    exact happend

/-- Forms are written again as they were, or become lighter. -/
theorem rewrites_literalsReread (keepBlanks : Bool) : ∀ literals : List Literal,
    literalsLegible literals → Rewrites (literalsStable keepBlanks literals)
      (literalsMarkup (literalsReread keepBlanks literals)).toList (literalsMarkup literals).toList
  | [], _ => rewrites_refl _
  | l :: rest, h => by
    obtain ⟨hl, -, hrest⟩ := h
    rw [literalsReread, literalsMarkup, literalsMarkup, String.toList_append, String.toList_append]
    exact (rewrites_reread keepBlanks l hl).append (rewrites_literalsReread keepBlanks rest hrest)

/-- Content is written again as it was, or becomes lighter. -/
theorem rewrites_contentReread (keepBlanks : Bool) (literals : List Literal)
    (h : literalsLegible literals) : Rewrites (contentStable keepBlanks literals)
      (literalsMarkup (trimLiterals keepBlanks (literalsReread keepBlanks literals))).toList
      (literalsMarkup literals).toList := by
  have hforms := rewrites_literalsReread keepBlanks literals h
  have htrim := rewrites_trimLiterals keepBlanks (literalsReread keepBlanks literals)
  have hboth := htrim.trans hforms
  unfold contentStable
  cases hstable : literalsStable keepBlanks literals with
  | false =>
    rw [hstable] at hboth
    exact hboth
  | true =>
    rw [hstable, startsBlank_reread hstable, endsBlank_reread hstable] at hboth
    exact hboth

end

end MustacheMarkup
