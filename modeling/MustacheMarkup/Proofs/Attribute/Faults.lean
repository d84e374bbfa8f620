import MustacheMarkup.Attribute.Build
import MustacheMarkup.Proofs.Attribute.Sorted

/-!
# What is wrong with attributes

The attributes of an element of the markup are refused for two reasons. Two of them may name the
same transition. Or one that stands for behaviour lacks what it needs: an event that is passed on
needs a name and a value, a transition needs a value, and the decorator that counts needs a value
that is not empty. Which fault is reported is found by looking at the sorted attributes in order
(`attributesFault?`); whether there is one, and of which kind, is said by names and values alone
(`attributesFault?_cases`).
-/

set_option autoImplicit false

namespace MustacheMarkup

/-! ## The fault that is reported -/

/-- The fault of an attribute that stands for a directive of this name. -/
def RawAttribute.directiveFault? (a : RawAttribute) : Option ParseFault :=
  if a.value = none ∨ a.name = "" then some .illegalDirective else none

/-- The fault of an attribute that stands for a decorator. -/
def RawAttribute.decoratorFault? (a : RawAttribute) : Option ParseFault :=
  if a.value.getD [] = [] then some .illegalDecorator else none

/-- The first fault of sorted attributes, as they are built one after another. -/
def SortedAttributes.fault? (sorted : SortedAttributes) : Option ParseFault :=
  (sorted.proxies.findSome? RawAttribute.directiveFault?).or
    ((sorted.intro.bind RawAttribute.directiveFault?).or
      ((sorted.outro.bind RawAttribute.directiveFault?).or
        (sorted.decorator.bind RawAttribute.decoratorFault?)))

/-- The fault that the attributes of an element of the markup are refused for. -/
def attributesFault? (attributes : List RawAttribute) : Option ParseFault :=
  match SortedAttributes.ofList attributes with
  | .error fault => some fault
  | .ok sorted => sorted.fault?

/-! ## What attributes lack -/

/-- The name of an attribute says that it passes on an event. -/
def RawAttribute.PassesOn (a : RawAttribute) : Prop :=
  "proxy-".toList <+: a.name.toList ∨ "on-".toList <+: a.name.toList

/-- An attribute that stands for behaviour lacks what it needs: an event that is passed on its name
or its value, a transition its value, or the last decorator one that is not empty. -/
def Misdirected (attributes : List RawAttribute) : Prop :=
  (∃ a ∈ attributes, a.PassesOn ∧ (a.name = "proxy-" ∨ a.name = "on-" ∨ a.value = none)) ∨
    (∃ a ∈ attributes, (a.fillsIntro = true ∨ a.fillsOutro = true) ∧ a.value = none) ∨
    ∃ a, (attributes.filter RawAttribute.isDecorator).getLast? = some a ∧
      (a.value = none ∨ a.value = some [])

/-- What is left behind a mark at the start of a name, by characters. -/
theorem afterMark?_eq_some_iff {mark name rest : String} :
    afterMark? mark name = some rest ↔ name.toList = mark.toList ++ rest.toList := by
  unfold afterMark?
  constructor
  · intro h
    split at h
    · rename_i hstarts
      cases h
      rw [String.toList_ofList]
      exact (List.prefix_iff_eq_append.mp (List.isPrefixOf_iff_prefix.mp hstarts)).symm
    · cases h
  · intro h
    have hstarts : mark.toList <+: name.toList := ⟨rest.toList, h.symm⟩
    rw [if_pos (List.isPrefixOf_iff_prefix.mpr hstarts), h, List.drop_left, String.ofList_toList]

/-- A name has nothing behind a mark exactly if it does not start with it. -/
theorem afterMark?_eq_none_iff {mark name : String} :
    afterMark? mark name = none ↔ ¬mark.toList <+: name.toList := by
  unfold afterMark?
  rw [← List.isPrefixOf_iff_prefix]
  split
  · rename_i hstarts
    simp [hstarts]
  · rename_i hstarts
    simp [hstarts]

/-- Nothing is left behind a mark if the name is the mark. -/
theorem eq_empty_iff_of_afterMark? {mark name rest : String}
    (h : afterMark? mark name = some rest) : rest = "" ↔ name = mark := by
  have hname := afterMark?_eq_some_iff.mp h
  constructor
  · rintro rfl
    rw [String.toList_empty, List.append_nil] at hname
    exact String.toList_inj.mp hname
  · rintro rfl
    exact String.toList_eq_nil_iff.mp (List.self_eq_append_right.mp hname)

/-- A name either has a mark, with the occasion behind it, or passes on no event. The occasion is
empty if and only if the name is the mark alone. -/
theorem proxyOccasion?_cases (name : String) :
    (∃ occasion, proxyOccasion? name = some occasion ∧
      ("proxy-".toList <+: name.toList ∨ "on-".toList <+: name.toList) ∧
        (occasion = "" ↔ name = "proxy-" ∨ name = "on-")) ∨
    (proxyOccasion? name = none ∧
      ¬("proxy-".toList <+: name.toList ∨ "on-".toList <+: name.toList)) := by
  unfold proxyOccasion?
  cases hproxy : afterMark? "proxy-" name with
  | some occasion =>
    have hname := afterMark?_eq_some_iff.mp hproxy
    have hon : name ≠ "on-" := by
      rintro rfl
      cases hname
    refine .inl ⟨occasion, rfl, .inl ⟨occasion.toList, hname.symm⟩, ?_⟩
    rw [eq_empty_iff_of_afterMark? hproxy, or_iff_left hon]
  | none =>
    have hnone := afterMark?_eq_none_iff.mp hproxy
    cases hon : afterMark? "on-" name with
    | some occasion =>
      have hname := afterMark?_eq_some_iff.mp hon
      have hproxy : name ≠ "proxy-" := by
        rintro rfl
        exact hnone List.prefix_rfl
      refine .inl ⟨occasion, rfl, .inr ⟨occasion.toList, hname.symm⟩, ?_⟩
      rw [eq_empty_iff_of_afterMark? hon, or_iff_right hproxy]
    | none => exact .inr ⟨rfl, fun h => h.elim hnone (afterMark?_eq_none_iff.mp hon)⟩

/-- The proxy that an attribute stands for has the value of the attribute, and lacks its occasion if
the name of the attribute is the mark alone. -/
theorem RawAttribute.proxy?_cases (a : RawAttribute) :
    (∃ occasion, a.proxy? = some ⟨occasion, a.value⟩ ∧ a.PassesOn ∧
      (occasion = "" ↔ a.name = "proxy-" ∨ a.name = "on-")) ∨
    (a.proxy? = none ∧ ¬a.PassesOn) := by
  obtain ⟨name, value⟩ := a
  unfold proxy? PassesOn
  dsimp only
  obtain ⟨rfl, hrole⟩ | ⟨rfl, hrole⟩ | ⟨rfl, hrole⟩ | ⟨rfl, hrole⟩ | ⟨-, h⟩ :=
    Role.ofName_cases name
  · exact .inr ⟨by rw [hrole], by decide⟩
  · exact .inr ⟨by rw [hrole], by decide⟩
  · exact .inr ⟨by rw [hrole], by decide⟩
  · exact .inr ⟨by rw [hrole], by decide⟩
  · obtain ⟨occasion, hoccasion, hrole⟩ | ⟨hoccasion, hrole⟩ := h
    · obtain ⟨occasion', hoccasion', hpasses, hempty⟩ | ⟨hnone, -⟩ := proxyOccasion?_cases name
      · obtain rfl := Option.some.inj (hoccasion.symm.trans hoccasion')
        exact .inl ⟨occasion, by rw [hrole], hpasses, hempty⟩
      · rw [hoccasion] at hnone
        cases hnone
    · obtain ⟨occasion', hoccasion', -⟩ | ⟨-, hpasses⟩ := proxyOccasion?_cases name
      · rw [hoccasion] at hoccasion'
        cases hoccasion'
      · exact .inr ⟨by rw [hrole], hpasses⟩

/-! ## Whether there is a fault, and of which kind -/

/-- A directive has no fault exactly if it has a value and an occasion, which is its name here. -/
theorem RawAttribute.directiveFault?_eq_none_iff {a : RawAttribute} :
    a.directiveFault? = none ↔ a.value ≠ none ∧ a.name ≠ "" := by
  simp only [directiveFault?, ite_eq_right_iff, reduceCtorEq, imp_false, not_or, ne_eq]

/-- A decorator has no fault exactly if its value is there and is not empty. -/
theorem RawAttribute.decoratorFault?_eq_none_iff {a : RawAttribute} :
    a.decoratorFault? = none ↔ ¬(a.value = none ∨ a.value = some []) := by
  obtain ⟨name, _ | _ | ⟨t, rest⟩⟩ := a <;> simp [decoratorFault?]

/-- Of one member at most that satisfies a property, the last is any. -/
theorem getLast?_filter_eq_some_iff {α : Type} {p : α → Bool} {l : List α} (h : l.countP p ≤ 1)
    {a : α} : (l.filter p).getLast? = some a ↔ a ∈ l ∧ p a = true := by
  rw [← List.mem_filter]
  rw [List.countP_eq_length_filter] at h
  match hl : l.filter p with
  | [] => simp
  | [b] => simp [eq_comm]
  | b :: c :: rest =>
    rw [hl] at h
    simp at h

/-- Proxies lack nothing if no attribute that passes on an event does. What one can lack is the name
of the event, if its own name is the mark alone, and a value. -/
theorem proxies_faultless_iff (attributes : List RawAttribute) :
    (attributes.filterMap RawAttribute.proxy?).findSome? RawAttribute.directiveFault? = none ↔
      ¬∃ a ∈ attributes, a.PassesOn ∧ (a.name = "proxy-" ∨ a.name = "on-" ∨ a.value = none) := by
  rw [List.findSome?_eq_none_iff]
  simp only [List.mem_filterMap, RawAttribute.directiveFault?_eq_none_iff]
  constructor
  · rintro h ⟨a, ha, hpasses, hlacks⟩
    obtain ⟨occasion, hproxy, -, hempty⟩ | ⟨-, hnot⟩ := a.proxy?_cases
    · obtain ⟨hvalue, hname⟩ := h _ ⟨a, ha, hproxy⟩
      obtain hname' | hname' | hvalue' := hlacks
      · exact hname (hempty.mpr (.inl hname'))
      · exact hname (hempty.mpr (.inr hname'))
      · exact hvalue hvalue'
    · exact hnot hpasses
  · rintro h proxy ⟨a, ha, hproxy⟩
    obtain ⟨occasion, hproxy', hpasses, hempty⟩ | ⟨hnone, -⟩ := a.proxy?_cases
    · rw [hproxy] at hproxy'
      obtain rfl := Option.some.inj hproxy'
      refine ⟨fun hvalue => h ⟨a, ha, hpasses, .inr (.inr hvalue)⟩, fun hname => ?_⟩
      obtain hname' | hname' := hempty.mp hname
      · exact h ⟨a, ha, hpasses, .inl hname'⟩
      · exact h ⟨a, ha, hpasses, .inr (.inl hname')⟩
    · rw [hproxy] at hnone
      cases hnone

/-- A transition lacks nothing if no attribute that names it lacks a value. -/
theorem transition_faultless_iff {p : RawAttribute → Bool}
    (hname : ∀ a, p a = true → a.name ≠ "") {attributes : List RawAttribute}
    (h : attributes.countP p ≤ 1) :
    (attributes.filter p).getLast?.bind RawAttribute.directiveFault? = none ↔
      ¬∃ a ∈ attributes, p a = true ∧ a.value = none := by
  rw [Option.bind_eq_none_iff]
  simp only [getLast?_filter_eq_some_iff h, RawAttribute.directiveFault?_eq_none_iff]
  constructor
  · rintro h ⟨a, ha, hp, hvalue⟩
    exact (h a ⟨ha, hp⟩).1 hvalue
  · rintro h a ⟨ha, hp⟩
    exact ⟨fun hvalue => h ⟨a, ha, hp, hvalue⟩, hname a hp⟩

/-- If no two attributes name the same transition, none lacks what it needs if and only if the
sorted ones have no fault. -/
theorem fault?_ofRoles_eq_none_iff {attributes : List RawAttribute} (h : ¬Clash attributes) :
    (SortedAttributes.ofRoles attributes).fault? = none ↔ ¬Misdirected attributes := by
  obtain ⟨hintro, houtro⟩ : attributes.countP RawAttribute.fillsIntro ≤ 1 ∧
      attributes.countP RawAttribute.fillsOutro ≤ 1 := by
    unfold Clash at h
    omega
  have hproxies := proxies_faultless_iff attributes
  have hintro := transition_faultless_iff (p := RawAttribute.fillsIntro) (by
    rintro a hfills hname
    rw [RawAttribute.fillsIntro, hname] at hfills
    cases hfills) hintro
  have houtro := transition_faultless_iff (p := RawAttribute.fillsOutro) (by
    rintro a hfills hname
    rw [RawAttribute.fillsOutro, hname] at hfills
    cases hfills) houtro
  have hdecorator : (attributes.filter RawAttribute.isDecorator).getLast?.bind
      RawAttribute.decoratorFault? = none ↔ ¬∃ a, (attributes.filter
        RawAttribute.isDecorator).getLast? = some a ∧ (a.value = none ∨ a.value = some []) := by
    simp only [Option.bind_eq_none_iff, RawAttribute.decoratorFault?_eq_none_iff, not_exists,
      not_and]
  unfold SortedAttributes.fault? SortedAttributes.ofRoles Misdirected
  simp only [Option.or_eq_none_iff, hproxies, hintro, houtro, hdecorator, or_and_right, and_or_left,
    exists_or, not_or, and_assoc]

/-- The faults of directives are of their own kind, so they are told from second transitions. -/
theorem RawAttribute.kind_of_directiveFault? {a : RawAttribute} {fault : ParseFault}
    (h : a.directiveFault? = some fault) : fault.kind = .directive := by
  unfold directiveFault? at h
  split at h
  · cases h
    rfl
  · cases h

/-- The faults of decorators count as faults of directives. -/
theorem RawAttribute.kind_of_decoratorFault? {a : RawAttribute} {fault : ParseFault}
    (h : a.decoratorFault? = some fault) : fault.kind = .directive := by
  unfold decoratorFault? at h
  split at h
  · cases h
    rfl
  · cases h

/-- Sorted attributes only have faults of directives. All other faults have been found by the time
that they are sorted. -/
theorem SortedAttributes.kind_of_fault? {sorted : SortedAttributes} {fault : ParseFault}
    (h : sorted.fault? = some fault) : fault.kind = .directive := by
  have hbind : ∀ {o : Option RawAttribute}, o.bind RawAttribute.directiveFault? = some fault →
      fault.kind = .directive := by
    intro o ho
    obtain ⟨a, -, ha⟩ := Option.bind_eq_some_iff.mp ho
    exact RawAttribute.kind_of_directiveFault? ha
  unfold fault? at h
  obtain hproxies | ⟨-, h⟩ := Option.or_eq_some_iff.mp h
  · obtain ⟨a, -, ha⟩ := List.exists_of_findSome?_eq_some hproxies
    exact RawAttribute.kind_of_directiveFault? ha
  obtain hintro | ⟨-, h⟩ := Option.or_eq_some_iff.mp h
  · exact hbind hintro
  obtain houtro | ⟨-, hdecorator⟩ := Option.or_eq_some_iff.mp h
  · exact hbind houtro
  · obtain ⟨a, -, ha⟩ := Option.bind_eq_some_iff.mp hdecorator
    exact RawAttribute.kind_of_decoratorFault? ha

/-- Attributes are refused if two of them name the same transition, and otherwise if one that stands
for behaviour lacks what it needs. -/
theorem attributesFault?_cases (attributes : List RawAttribute) :
    (Clash attributes ∧
      ∃ fault, attributesFault? attributes = some fault ∧ fault.kind = .structural) ∨
    (¬Clash attributes ∧ Misdirected attributes ∧
      ∃ fault, attributesFault? attributes = some fault ∧ fault.kind = .directive) ∨
    (¬Clash attributes ∧ ¬Misdirected attributes ∧ attributesFault? attributes = none) := by
  obtain ⟨hsorts, hfails⟩ := SortedAttributes.ofList_eq attributes
  unfold attributesFault?
  by_cases hclash : Clash attributes
  · obtain ⟨fault, hfault, hkind⟩ := hfails hclash
    rw [hfault]
    exact .inl ⟨hclash, fault, rfl, hkind⟩
  · rw [hsorts hclash]
    have hnone := fault?_ofRoles_eq_none_iff hclash
    dsimp only
    cases hfault : (SortedAttributes.ofRoles attributes).fault? with
    | none => exact .inr (.inr ⟨hclash, hnone.mp hfault, rfl⟩)
    | some fault =>
      have hlacks : Misdirected attributes := by
        apply Classical.byContradiction
        intro hnot
        rw [hnone.mpr hnot] at hfault
        cases hfault
      exact .inr (.inl ⟨hclash, hlacks, fault, rfl, SortedAttributes.kind_of_fault? hfault⟩)

end MustacheMarkup
