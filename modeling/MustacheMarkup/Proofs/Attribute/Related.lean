import Mathlib.Data.List.Forall2
import MustacheMarkup.Attribute.Roles
import MustacheMarkup.Proofs.Journal.Pairs

/-!
# Sorting two lists of attributes alike

Attributes are sorted by their names alone. So two lists whose members have the same roles, one by
one, are sorted alike or refused for one fault, and what relates the members relates the sorted
attributes (`sameEnd_ofList_of_related`).
-/

set_option autoImplicit false

namespace MustacheMarkup

open Journal (SameEnd)

/-- Two attributes have one role, and are related as attributes of that role are: `P` relates plain
ones, and `Q` all others. Proxies are named for their occasion. -/
structure RawAttribute.Related (P Q : RawAttribute → RawAttribute → Prop) (a a' : RawAttribute) :
    Prop where
  role : Role.ofName a'.name = Role.ofName a.name
  plain : Role.ofName a.name = .plain → P a a'
  proxy : ∀ occasion, Role.ofName a.name = .proxy occasion →
    Q ⟨occasion, a.value⟩ ⟨occasion, a'.value⟩
  single : Role.ofName a.name ∈ [.intro, .outro, .introOutro, .decorator] → Q a a'

/-- The members of two sortings are related one by one: plain attributes by `P`, all others by
`Q`. -/
structure SortedAttributes.Related (P Q : RawAttribute → RawAttribute → Prop)
    (sorted sorted' : SortedAttributes) : Prop where
  plain : List.Forall₂ P sorted.plain sorted'.plain
  proxies : List.Forall₂ Q sorted.proxies sorted'.proxies
  intro : Option.Rel Q sorted.intro sorted'.intro
  outro : Option.Rel Q sorted.outro sorted'.outro
  decorator : Option.Rel Q sorted.decorator sorted'.decorator

/-- Of two related places either both are taken or none. -/
theorem isSome_eq_of_rel {α β : Type} {R : α → β → Prop} {o : Option α} {o' : Option β}
    (h : Option.Rel R o o') : o'.isSome = o.isSome := by
  cases h <;> rfl

/-- Places that are related by equality are the same. -/
theorem eq_of_rel_eq {α : Type} {o o' : Option α} (h : Option.Rel (· = ·) o o') : o = o' := by
  cases h with
  | none => rfl
  | some h => rw [h]

namespace SortedAttributes

variable {P Q : RawAttribute → RawAttribute → Prop}

/-- Sorted attributes that are related stay so when related attributes are added, or both refuse
them. This is the step for whole lists. -/
theorem Related.add {sorted sorted' : SortedAttributes} {a a' : RawAttribute}
    (h : sorted.Related P Q sorted') (ha : a.Related P Q a') :
    SameEnd (SortedAttributes.Related P Q) (sorted.add a) (sorted'.add a') := by
  have hintro := isSome_eq_of_rel h.intro
  have houtro := isSome_eq_of_rel h.outro
  unfold SortedAttributes.add
  rw [ha.role, hintro, houtro]
  cases hrole : Role.ofName a.name with
  | plain => exact .ok { h with plain := List.rel_append h.plain (.cons (ha.plain hrole) .nil) }
  | proxy occasion =>
    have hproxy := ha.proxy occasion hrole
    exact .ok { h with proxies := List.rel_append h.proxies (.cons hproxy .nil) }
  | intro =>
    have hsingle := ha.single (by simp [hrole])
    dsimp only
    split
    · exact .error _
    · exact .ok { h with intro := .some hsingle }
  | outro =>
    have hsingle := ha.single (by simp [hrole])
    dsimp only
    split
    · exact .error _
    · exact .ok { h with outro := .some hsingle }
  | introOutro =>
    have hsingle := ha.single (by simp [hrole])
    dsimp only
    split
    · exact .error _
    · exact .ok { h with intro := .some hsingle, outro := .some hsingle }
  | decorator => exact .ok { h with decorator := .some (ha.single (by simp [hrole])) }

/-- Attributes that are related one by one are sorted alike, or not at all for one fault. The
relation only has to keep the role of an attribute, and for a proxy the name behind the mark. -/
theorem sameEnd_ofList_of_related {attributes attributes' : List RawAttribute}
    (h : List.Forall₂ (RawAttribute.Related P Q) attributes attributes') :
    SameEnd (SortedAttributes.Related P Q) (ofList attributes) (ofList attributes') := by
  have haddAll : ∀ {sorted sorted' : SortedAttributes}, sorted.Related P Q sorted' →
      SameEnd (SortedAttributes.Related P Q) (sorted.addAll attributes)
        (sorted'.addAll attributes') := by
    induction h with
    | nil => exact fun hsorted => .ok hsorted
    | @cons a a' rest rest' ha _ ih =>
      intro sorted sorted' hsorted
      have hadd := hsorted.add ha
      rw [addAll, addAll]
      revert hadd
      generalize sorted.add a = r
      generalize sorted'.add a' = r'
      rintro (fault | hadded)
      · exact .error fault
      · exact ih hadded
  exact haddAll ⟨.nil, .nil, .none, .none, .none⟩

end SortedAttributes

end MustacheMarkup
