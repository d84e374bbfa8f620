import Mathlib.Data.List.Forall2
import MustacheMarkup.Proofs.Nesting.Related
import MustacheMarkup.Proofs.Token.Weight
import MustacheMarkup.Template.Build

/-!
# Tags in capital or small letters

`Token.Recased` says that two tokens are the same but for how the names of tags are written, the
tags in the values of attributes included. The names have one form in lower case, and the name of a
component, which is read as it is written, stays the same. Such tokens nest in the same way, and
their values are cut at the same colon.
-/

set_option autoImplicit false

namespace MustacheMarkup

open Building

mutual

/-- Two tokens at one place are the same but for how tags are written. -/
inductive Token.Recased : Token → Token → Prop where
  | text (content : String) (span : Span) :
      Token.Recased ⟨.text content, span⟩ ⟨.text content, span⟩
  | comment (content : String) (span : Span) :
      Token.Recased ⟨.comment content, span⟩ ⟨.comment content, span⟩
  | mustache (kind : MustacheKind) (reference : String) (span : Span) :
      Token.Recased ⟨.mustache kind reference, span⟩ ⟨.mustache kind reference, span⟩
  | tag {tag tag' : Tag} (h : Tag.Recased tag tag') (span : Span) :
      Token.Recased ⟨.tag tag, span⟩ ⟨.tag tag', span⟩

/-- Two tags have names that are one in lower case, and are the same otherwise but for how the tags
in their attributes are written. The tag of a component has one name. -/
inductive Tag.Recased : Tag → Tag → Prop where
  | intro {name name' : String} {attributes attributes' : List RawAttribute}
      (closing selfClosing doctype : Bool) (lower : Text.lower name' = Text.lower name)
      (component : isComponent (Text.lower name) = true → name' = name)
      (h : List.Forall₂ RawAttribute.Recased attributes attributes') :
      Tag.Recased ⟨name, attributes, closing, selfClosing, doctype⟩
        ⟨name', attributes', closing, selfClosing, doctype⟩

/-- Two attributes have one name, and values that are the same but for how tags are written. -/
inductive RawAttribute.Recased : RawAttribute → RawAttribute → Prop where
  | intro (name : String) {value value' : Option (List Token)}
      (h : Option.Rel (List.Forall₂ Token.Recased) value value') :
      RawAttribute.Recased ⟨name, value⟩ ⟨name, value'⟩

end

/-- Tokens are the same but for how tags are written, and weigh less than a bound. -/
structure Token.RecasedBelow (bound : Nat) (tokens tokens' : List Token) : Prop where
  recased : List.Forall₂ Token.Recased tokens tokens'
  weight : Token.totalWeight tokens < bound

/-- Two attributes have one name, and values that are the same but for how tags are written and that
weigh less than a bound. -/
structure RawAttribute.RecasedBelow (bound : Nat) (a a' : RawAttribute) : Prop where
  name : a'.name = a.name
  value : Option.Rel (Token.RecasedBelow bound) a.value a'.value

/-- Two tags are the same but for how names are written, and their attributes weigh less than a
bound. -/
structure Tag.RecasedBelow (bound : Nat) (tag tag' : Tag) : Prop where
  recased : tag.Recased tag'
  weight : RawAttribute.totalWeight tag.attributes < bound

variable {bound : Nat}

/-! ## Tags -/

namespace Tag.Recased

variable {tag tag' : Tag}

/-- Tags in another case are the same to the machine, which sees names in lower case. -/
theorem nestsLike (h : tag.Recased tag') : tag.NestsLike tag' := by
  cases h with
  | intro closing selfClosing doctype lower component h => exact ⟨lower, rfl, rfl⟩

/-- The case of its name does not matter for a doctype. -/
theorem doctype (h : tag.Recased tag') : tag'.doctype = tag.doctype := by
  cases h with
  | intro closing selfClosing doctype lower component h => rfl

/-- The tag of a component is written in one way, since its name is written again. -/
theorem name_of_component (h : tag.Recased tag')
    (hcomponent : isComponent (Text.lower tag.name) = true) : tag'.name = tag.name := by
  cases h with
  | intro closing selfClosing doctype lower component h => exact component hcomponent

end Tag.Recased

/-- The value of an attribute weighs less than what all the attributes weigh less than. -/
theorem RawAttribute.recasedBelow {attributes attributes' : List RawAttribute}
    (h : List.Forall₂ RawAttribute.Recased attributes attributes')
    (hweight : totalWeight attributes < bound) :
    List.Forall₂ (RawAttribute.RecasedBelow bound) attributes attributes' := by
  induction h with
  | nil => exact .nil
  | cons ha hrest ih =>
    cases ha with
    | intro name hvalue =>
      cases hvalue with
      | none => exact .cons ⟨rfl, .none⟩ (ih hweight)
      | some htokens =>
        rw [totalWeight] at hweight
        exact .cons ⟨rfl, .some ⟨htokens, by omega⟩⟩ (ih (by omega))

/-- The attributes of tags in another case are related, below the same bound. -/
theorem Tag.RecasedBelow.attributes {tag tag' : Tag} (h : tag.RecasedBelow bound tag') :
    List.Forall₂ (RawAttribute.RecasedBelow bound) tag.attributes tag'.attributes := by
  obtain ⟨hrecased, hweight⟩ := h
  cases hrecased with
  | intro closing selfClosing doctype lower component hattributes =>
    exact RawAttribute.recasedBelow hattributes hweight

/-! ## Tokens -/

/-- Tokens in another case are related by their tags, below the same bound. -/
theorem Token.Recased.related {t t' : Token} (h : t.Recased t') (hweight : t.weight ≤ bound) :
    t.Related (Tag.RecasedBelow bound) t' := by
  cases h with
  | text content span => exact ⟨.text content, rfl⟩
  | comment content span => exact ⟨.comment content, rfl⟩
  | mustache kind reference span => exact ⟨.mustache kind reference, rfl⟩
  | @tag tag tag' htag span =>
    obtain ⟨name, attributes, closing, selfClosing, doctype⟩ := tag
    rw [weight, Nat.add_comm] at hweight
    exact ⟨.tag ⟨htag, hweight⟩, rfl⟩

/-- Tags in tokens are the same but for how they are written, and their attributes weigh less than
the tokens. -/
theorem related_of_recased {tokens tokens' : List Token}
    (h : List.Forall₂ Token.Recased tokens tokens') (hweight : Token.totalWeight tokens ≤ bound) :
    List.Forall₂ (Token.Related (Tag.RecasedBelow bound)) tokens tokens' := by
  induction h with
  | nil => exact .nil
  | cons ht hrest ih =>
    rw [Token.totalWeight] at hweight
    exact .cons (ht.related (by omega)) (ih (by omega))

/-- A text is the same. -/
theorem Token.Recased.text?_eq {t t' : Token} (h : t.Recased t') : t'.text? = t.text? :=
  (h.related (Nat.le_refl _)).text?_eq

/-- The place is the same. -/
theorem Token.Recased.span_eq {t t' : Token} (h : t.Recased t') : t'.span = t.span :=
  (h.related (Nat.le_refl _)).span

/-- Literal text has no tags. -/
theorem recased_literal (content : List Char) (span : Span) :
    List.Forall₂ Token.Recased (literal content span) (literal content span) := by
  unfold literal
  split
  · exact .nil
  · exact .cons (.text _ span) .nil

/-! ## Values -/

/-- A value is looked at as a text on both sides or on none. -/
theorem onlyText?_eq_of_recased {tokens tokens' : List Token}
    (h : List.Forall₂ Token.Recased tokens tokens') : onlyText? tokens' = onlyText? tokens := by
  cases h with
  | nil => rfl
  | cons ht hrest =>
    cases hrest with
    | nil => exact ht.text?_eq
    | cons hu hmore => rfl

/-- A value is empty on both sides or on none. -/
theorem isEmpty_eq_of_recased {tokens tokens' : List Token}
    (h : List.Forall₂ Token.Recased tokens tokens') : tokens'.isEmpty = tokens.isEmpty := by
  cases h <;> rfl

/-- Both values are cut at the same colon. -/
theorem recased_splitAtColon {tokens tokens' : List Token}
    (h : List.Forall₂ Token.Recased tokens tokens') :
    List.Forall₂ Token.Recased (splitAtColon tokens).1 (splitAtColon tokens').1 ∧
      List.Forall₂ Token.Recased (splitAtColon tokens).2 (splitAtColon tokens').2 := by
  induction h with
  | nil => exact ⟨.nil, .nil⟩
  | cons ht hrest ih =>
    rw [splitAtColon, splitAtColon, ht.text?_eq, ht.span_eq]
    split
    · exact ⟨recased_literal _ _, List.rel_append (recased_literal _ _) hrest⟩
    · exact ⟨.cons ht ih.1, ih.2⟩

/-- Values in another case are cut at the same colon, and both sides weigh less than before. -/
theorem Token.RecasedBelow.splitAtColon {tokens tokens' : List Token}
    (h : RecasedBelow bound tokens tokens') :
    RecasedBelow bound (splitAtColon tokens).1 (splitAtColon tokens').1 ∧
      RecasedBelow bound (splitAtColon tokens).2 (splitAtColon tokens').2 := by
  obtain ⟨hname, harguments⟩ := recased_splitAtColon h.recased
  obtain ⟨hle, hle'⟩ := totalWeight_splitAtColon_le tokens
  exact ⟨⟨hname, Nat.lt_of_le_of_lt hle h.weight⟩, ⟨harguments, Nat.lt_of_le_of_lt hle' h.weight⟩⟩

end MustacheMarkup
