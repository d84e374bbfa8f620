import Mathlib.Data.List.Forall2
import MustacheMarkup.Attribute.Build
import MustacheMarkup.Proofs.Attribute.EventHandler
import MustacheMarkup.Proofs.Attribute.Related
import MustacheMarkup.Proofs.Attribute.Sorted
import MustacheMarkup.Proofs.Text.AsciiCase
import MustacheMarkup.Template.Options

/-!
# Names that are spelled differently

The name that an attribute has in the tree does not depend on the case of ASCII letters
(`htmlAttributeName_eq_of_sameAscii`). Its role does, and so does whether it is sanitized, because
both are found by the name as it is written. Where these agree, names are `Interchangeable`, and
then attributes are sorted alike under either name (`sameEnd_ofList`).
-/

set_option autoImplicit false

namespace MustacheMarkup

open Journal (SameEnd)

/-! ## Two names -/

/-- The name that an attribute has in the tree does not depend on the case of ASCII letters. -/
theorem htmlAttributeName_eq_of_sameAscii {name name' : String}
    (h : Vocabulary.sameAscii name name' = true) :
    htmlAttributeName name' = htmlAttributeName name := by
  unfold htmlAttributeName
  rw [Text.lower_eq_of_sameAscii h]

/-- Under some options two names of attributes stand for the same. -/
structure Interchangeable (options : Options) (name name' : String) : Prop where
  role : Role.ofName name' = Role.ofName name
  sanitizing : options.sanitizeEventAttributes = true →
    Vocabulary.isEventHandler name' = Vocabulary.isEventHandler name

/-- A name can stand for itself. -/
theorem Interchangeable.rfl {options : Options} {name : String} :
    Interchangeable options name name :=
  ⟨Eq.refl _, fun _ => Eq.refl _⟩

/-- Whether two names are interchangeable can be computed, so that examples are decided. -/
instance (options : Options) (name name' : String) :
    Decidable (Interchangeable options name name') :=
  decidable_of_iff (Role.ofName name' = Role.ofName name ∧
      (options.sanitizeEventAttributes = true →
        Vocabulary.isEventHandler name' = Vocabulary.isEventHandler name))
    ⟨fun h => ⟨h.1, h.2⟩, fun h => ⟨h.1, h.2⟩⟩

/-- A role that is neither plain nor that of a proxy belongs to one name only. -/
theorem Role.eq_of_ofName_eq {name name' : String} (h : Role.ofName name' = Role.ofName name) :
    name' = name ∨ Role.ofName name = .plain ∨ ∃ occasion, Role.ofName name = .proxy occasion := by
  obtain ⟨rfl, hrole⟩ | ⟨rfl, hrole⟩ | ⟨rfl, hrole⟩ | ⟨rfl, hrole⟩ |
    ⟨-, ⟨occasion, -, hrole⟩ | ⟨-, hrole⟩⟩ := Role.ofName_cases name
  all_goals
    rw [hrole] at h
    obtain ⟨rfl, hrole'⟩ | ⟨rfl, hrole'⟩ | ⟨rfl, hrole'⟩ | ⟨rfl, hrole'⟩ |
      ⟨-, ⟨occasion', -, hrole'⟩ | ⟨-, hrole'⟩⟩ := Role.ofName_cases name'
    all_goals
      rw [hrole'] at h
      simp_all

/-- The name of an event handler gives no role but the plain one: it starts with `on` and a letter,
where the mark of a proxy has a hyphen, and none of the four names with a role of their own starts
like this. -/
theorem Role.ofName_of_isEventHandler {name : String}
    (h : Vocabulary.isEventHandler name = true) : Role.ofName name = .plain := by
  obtain ⟨rfl, -⟩ | ⟨rfl, -⟩ | ⟨rfl, -⟩ | ⟨rfl, -⟩ |
    ⟨-, ⟨occasion, hoccasion, -⟩ | ⟨-, hrole⟩⟩ := Role.ofName_cases name
  · exact absurd h (by decide)
  · exact absurd h (by decide)
  · exact absurd h (by decide)
  · exact absurd h (by decide)
  · obtain ⟨c, rest, hcs, hc⟩ := isEventHandler_iff.mp h
    have hdash : ('-' == c) = false := by
      rw [beq_eq_false_iff_ne]
      rintro rfl
      cases hc
    have hproxy : "proxy-".toList = ['p', 'r', 'o', 'x', 'y', '-'] := by decide
    have hon : "on-".toList = ['o', 'n', '-'] := by decide
    simp [proxyOccasion?, afterMark?, hproxy, hon, hcs, List.isPrefixOf, hdash] at hoccasion
  · exact hrole

/-- What a name stands for is its role: names that pass on the same event, fill the same places and
decorate alike have the same one. -/
theorem Role.ofName_eq_of_marks {name name' : String}
    (hproxy : (RawAttribute.proxy? ⟨name', none⟩).map (·.name) =
      (RawAttribute.proxy? ⟨name, none⟩).map (·.name))
    (hintro : RawAttribute.fillsIntro ⟨name', none⟩ = RawAttribute.fillsIntro ⟨name, none⟩)
    (houtro : RawAttribute.fillsOutro ⟨name', none⟩ = RawAttribute.fillsOutro ⟨name, none⟩)
    (hdecorator : RawAttribute.isDecorator ⟨name', none⟩ =
      RawAttribute.isDecorator ⟨name, none⟩) : Role.ofName name' = Role.ofName name := by
  simp only [RawAttribute.proxy?, RawAttribute.fillsIntro, RawAttribute.fillsOutro,
    RawAttribute.isDecorator] at hproxy hintro houtro hdecorator
  obtain ⟨rfl, hrole⟩ | ⟨rfl, hrole⟩ | ⟨rfl, hrole⟩ | ⟨rfl, hrole⟩ |
    ⟨⟨h1, h2, h3, h4⟩, ⟨occasion, -, hrole⟩ | ⟨-, hrole⟩⟩ := Role.ofName_cases name
  all_goals
    obtain ⟨rfl, hrole'⟩ | ⟨rfl, hrole'⟩ | ⟨rfl, hrole'⟩ | ⟨rfl, hrole'⟩ |
      ⟨⟨h1', h2', h3', h4'⟩, ⟨occasion', -, hrole'⟩ | ⟨-, hrole'⟩⟩ := Role.ofName_cases name'
    all_goals simp_all

/-! ## Two lists of attributes -/

/-- Two attributes have the same value, and names that stand for the same and become the same. -/
structure RawAttribute.Alike (options : Options) (a a' : RawAttribute) : Prop where
  value : a'.value = a.value
  final : htmlAttributeName a'.name = htmlAttributeName a.name
  names : Interchangeable options a.name a'.name

/-- Two sortings of attributes are the same but for the names of plain attributes. -/
structure SortedAttributes.Alike (options : Options) (sorted sorted' : SortedAttributes) :
    Prop where
  plain : List.Forall₂ (RawAttribute.Alike options) sorted.plain sorted'.plain
  proxies : sorted'.proxies = sorted.proxies
  intro : sorted'.intro = sorted.intro
  outro : sorted'.outro = sorted.outro
  decorator : sorted'.decorator = sorted.decorator

variable {options : Options}

/-- Only plain attributes and proxies can have different names, and proxies lose theirs. -/
theorem RawAttribute.Alike.related {a a' : RawAttribute} (h : a.Alike options a') :
    a.Related (RawAttribute.Alike options) (· = ·) a' := by
  refine ⟨h.names.role, fun _ => h, fun occasion _ => by rw [h.value], fun hsingle => ?_⟩
  obtain hname | hrole | ⟨occasion, hrole⟩ := Role.eq_of_ofName_eq h.names.role
  · obtain ⟨name, value⟩ := a
    obtain ⟨name', value'⟩ := a'
    exact (congrArg₂ RawAttribute.mk hname h.value).symm
  · simp [hrole] at hsingle
  · simp [hrole] at hsingle

/-- Attributes with interchangeable names are sorted alike, or not at all for one fault. -/
theorem SortedAttributes.sameEnd_ofList {attributes attributes' : List RawAttribute}
    (h : List.Forall₂ (RawAttribute.Alike options) attributes attributes') :
    SameEnd (SortedAttributes.Alike options) (ofList attributes) (ofList attributes') := by
  have hrelated := h.imp fun _ _ ha => ha.related
  refine (sameEnd_ofList_of_related hrelated).imp fun sorted sorted' hsorted => ?_
  obtain ⟨hplain, hproxies, hintro, houtro, hdecorator⟩ := hsorted
  rw [List.forall₂_eq_eq_eq] at hproxies
  exact ⟨hplain, hproxies.symm, (eq_of_rel_eq hintro).symm, (eq_of_rel_eq houtro).symm,
    (eq_of_rel_eq hdecorator).symm⟩

end MustacheMarkup
