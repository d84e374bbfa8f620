import MustacheMarkup.Attribute.Build

/-!
# How many tokens are left

The weight of tokens counts them together with those in the values of their attributes. It goes
down whenever a token is used, and the value of an attribute weighs less than the tag that it stands
in. So it is what every recursion over the tokens of a template goes down by.
-/

set_option autoImplicit false

namespace MustacheMarkup

namespace Token

/-- Every token weighs something, so to use one makes the rest lighter. -/
theorem weight_pos (t : Token) : 0 < t.weight := by
  obtain ⟨_ | _ | _ | ⟨_, _, _, _, _⟩, _⟩ := t <;> simp only [weight] <;> omega

/-- The weight of two lists of tokens is that of both. -/
@[simp]
theorem totalWeight_append (s t : List Token) :
    totalWeight (s ++ t) = totalWeight s + totalWeight t := by
  induction s with
  | nil => simp [totalWeight]
  | cons a s ih =>
    simp only [List.cons_append, totalWeight, ih]
    omega

/-- The end of some tokens weighs no more than all of them. -/
theorem totalWeight_le_of_suffix {s t : List Token} (h : s <:+ t) :
    totalWeight s ≤ totalWeight t := by
  obtain ⟨before, rfl⟩ := h
  rw [totalWeight_append]
  omega

/-- What is left behind a token weighs less than with it. -/
theorem totalWeight_lt_cons {s : List Token} {t : Token} {rest : List Token} (h : s <:+ rest) :
    totalWeight s < totalWeight (t :: rest) := by
  have hs := totalWeight_le_of_suffix h
  have ht := weight_pos t
  rw [totalWeight]
  omega

/-- Only no tokens weigh nothing. -/
theorem eq_nil_of_totalWeight_eq_zero {tokens : List Token} (h : totalWeight tokens = 0) :
    tokens = [] := by
  cases tokens with
  | nil => rfl
  | cons t rest =>
    have ht := weight_pos t
    rw [totalWeight] at h
    omega

end Token

namespace RawAttribute

/-- The tokens of an attribute's value, none if it has no value. -/
def valueWeight (a : RawAttribute) : Nat :=
  (a.value.map Token.totalWeight).getD 0

/-- The value of an attribute weighs no more than all the attributes. -/
theorem valueWeight_le_of_mem {a : RawAttribute} {attributes : List RawAttribute}
    (h : a ∈ attributes) : a.valueWeight ≤ totalWeight attributes := by
  induction attributes with
  | nil => cases h
  | cons b rest ih =>
    obtain ⟨name, value⟩ := b
    rcases List.mem_cons.mp h with rfl | h
    · cases value <;> simp [valueWeight, totalWeight]
    · have := ih h
      cases value <;> simp only [totalWeight] <;> omega

/-- The value of an attribute weighs less than the tag that the attribute stands in. -/
theorem valueWeight_lt_of_mem {a : RawAttribute} {tag : Tag} {span : Span}
    (h : a ∈ tag.attributes) : a.valueWeight < Token.weight ⟨.tag tag, span⟩ := by
  obtain ⟨name, attributes, closing, selfClosing, doctype⟩ := tag
  have := valueWeight_le_of_mem h
  simp only [Token.weight]
  simp only at this
  omega

end RawAttribute

/-- Literal text is at most one token. -/
theorem totalWeight_literal_le (content : List Char) (span : Span) :
    Token.totalWeight (literal content span) ≤ 1 := by
  unfold literal
  split <;> simp [Token.totalWeight, Token.weight]

/-- Neither part of a directive's value weighs more than the value. -/
theorem totalWeight_splitAtColon_le (tokens : List Token) :
    Token.totalWeight (splitAtColon tokens).1 ≤ Token.totalWeight tokens ∧
      Token.totalWeight (splitAtColon tokens).2 ≤ Token.totalWeight tokens := by
  induction tokens with
  | nil => simp [splitAtColon]
  | cons t rest ih =>
    have ht := Token.weight_pos t
    rw [splitAtColon]
    split
    · rename_i before behind _
      have hbefore := totalWeight_literal_le before t.span
      have hbehind := totalWeight_literal_le behind t.span
      simp only [Token.totalWeight_append, Token.totalWeight]
      omega
    · simp only [Token.totalWeight]
      omega

end MustacheMarkup
