import MustacheMarkup.Attribute.Roles

/-!
# What sorting attributes comes to

Attributes can be sorted unless two of them name the same transition; an attribute for both
transitions names either. Sorted, they are the attributes of each role in their order, and where
only one counts it is the last one (`ofList_eq`). Sorting makes up no attribute: a sorted attribute
has the value of an attribute that was there, and but for proxies its name too. So what holds of all
values, or of all attributes, holds after sorting (`all_ofList`).
-/

set_option autoImplicit false

namespace MustacheMarkup

/-! ## What names stand for -/

namespace RawAttribute

/-- Whether an attribute names the transition when the element appears. -/
def fillsIntro (a : RawAttribute) : Bool :=
  a.name == "intro" || a.name == "intro-outro"

/-- Whether an attribute names the transition when the element disappears. -/
def fillsOutro (a : RawAttribute) : Bool :=
  a.name == "outro" || a.name == "intro-outro"

/-- Whether an attribute names a decorator. -/
def isDecorator (a : RawAttribute) : Bool :=
  a.name == "decorator"

/-- The proxy that an attribute stands for, named for its occasion. -/
def proxy? (a : RawAttribute) : Option RawAttribute :=
  match Role.ofName a.name with
  | .proxy occasion => some ⟨occasion, a.value⟩
  | _ => none

end RawAttribute

/-- Two attributes name the same transition. -/
def Clash (attributes : List RawAttribute) : Prop :=
  2 ≤ attributes.countP RawAttribute.fillsIntro ∨ 2 ≤ attributes.countP RawAttribute.fillsOutro

/-- What roles names have. Four names have one of their own, and of all others the mark decides.
Proofs about roles go through these cases and not through the tests. -/
theorem Role.ofName_cases (name : String) :
    (name = "intro" ∧ Role.ofName name = .intro) ∨
    (name = "outro" ∧ Role.ofName name = .outro) ∨
    (name = "intro-outro" ∧ Role.ofName name = .introOutro) ∨
    (name = "decorator" ∧ Role.ofName name = .decorator) ∨
    ((name ≠ "intro" ∧ name ≠ "outro" ∧ name ≠ "intro-outro" ∧ name ≠ "decorator") ∧
      ((∃ occasion, proxyOccasion? name = some occasion ∧ Role.ofName name = .proxy occasion) ∨
        (proxyOccasion? name = none ∧ Role.ofName name = .plain))) := by
  by_cases hintro : name = "intro"
  · exact .inl ⟨hintro, by rw [hintro]; rfl⟩
  by_cases houtro : name = "outro"
  · exact .inr (.inl ⟨houtro, by rw [houtro]; rfl⟩)
  by_cases hboth : name = "intro-outro"
  · exact .inr (.inr (.inl ⟨hboth, by rw [hboth]; rfl⟩))
  by_cases hdecorator : name = "decorator"
  · exact .inr (.inr (.inr (.inl ⟨hdecorator, by rw [hdecorator]; rfl⟩)))
  refine .inr (.inr (.inr (.inr ⟨⟨hintro, houtro, hboth, hdecorator⟩, ?_⟩)))
  rw [ofName, if_neg hintro, if_neg houtro, if_neg hboth, if_neg hdecorator]
  cases proxyOccasion? name with
  | none => exact .inr ⟨rfl, rfl⟩
  | some occasion => exact .inl ⟨occasion, rfl, rfl⟩

namespace SortedAttributes

/-! ## One attribute -/

/-- An attribute finds the transitions free that it names. -/
def Free (sorted : SortedAttributes) (a : RawAttribute) : Prop :=
  (a.fillsIntro = true → sorted.intro = none) ∧ (a.fillsOutro = true → sorted.outro = none)

/-- Attributes with one more put where it belongs, in the place of an earlier one where only one
counts. -/
def put (sorted : SortedAttributes) (a : RawAttribute) : SortedAttributes :=
  ⟨sorted.plain ++ [a].filter (Role.ofName ·.name = .plain), sorted.proxies ++ a.proxy?.toList,
    if a.fillsIntro then some a else sorted.intro, if a.fillsOutro then some a else sorted.outro,
    if a.isDecorator then some a else sorted.decorator⟩

/-- One more attribute is put where it belongs if it finds that free. Otherwise it is refused, and
which place was taken is left open here. -/
theorem add_eq (sorted : SortedAttributes) (a : RawAttribute) :
    (sorted.Free a → sorted.add a = .ok (sorted.put a)) ∧
      (¬sorted.Free a → ∃ fault, sorted.add a = .error fault ∧ fault.kind = .structural) := by
  obtain ⟨name, value⟩ := a
  obtain ⟨plain, proxies, intro, outro, decorator⟩ := sorted
  unfold Free add put RawAttribute.fillsIntro RawAttribute.fillsOutro RawAttribute.isDecorator
    RawAttribute.proxy?
  obtain ⟨rfl, hrole⟩ | ⟨rfl, hrole⟩ | ⟨rfl, hrole⟩ | ⟨rfl, hrole⟩ |
    ⟨⟨hintro, houtro, hboth, hdecorator⟩, ⟨occasion, -, hrole⟩ | ⟨-, hrole⟩⟩ :=
    Role.ofName_cases name
  · cases intro with
    | none => simp [hrole]
    | some a => simp [hrole, ParseFault.kind]
  · cases outro with
    | none => simp [hrole]
    | some a => simp [hrole, ParseFault.kind]
  · cases intro with
    | none =>
      cases outro with
      | none => simp [hrole]
      | some a => simp [hrole, ParseFault.kind]
    | some a => simp [hrole, ParseFault.kind]
  · simp [hrole]
  · simp [hrole, hintro, houtro, hboth, hdecorator]
  · simp [hrole, hintro, houtro, hboth, hdecorator]

/-- One attribute alone is put where it belongs. -/
theorem ofList_singleton (a : RawAttribute) : ofList [a] = .ok (empty.put a) := by
  obtain ⟨hadds, -⟩ := empty.add_eq a
  rw [ofList, addAll, hadds ⟨fun _ => rfl, fun _ => rfl⟩]
  rfl

/-! ## All attributes -/

/-- Further attributes name each transition once at most, and none that is named already. -/
def HasRoom (sorted : SortedAttributes) (attributes : List RawAttribute) : Prop :=
  sorted.intro.toList.length + attributes.countP RawAttribute.fillsIntro ≤ 1 ∧
    sorted.outro.toList.length + attributes.countP RawAttribute.fillsOutro ≤ 1

section

variable {α : Type} (p : α → Bool) (slot : Option α) (a : α) (rest : List α)

/-- A place and the attributes that still come hold at most one attribute together if and only
if this is so once the next one is put. It is the step of the induction over the attributes of
a tag. -/
theorem room_cons : slot.toList.length + (a :: rest).countP p ≤ 1 ↔
    (p a = true → slot = none) ∧
      (if p a then some a else slot).toList.length + rest.countP p ≤ 1 := by
  by_cases hp : p a = true
  · cases slot with
    | none => simp [hp, Nat.add_comm]
    | some b => simp [hp]
  · simp [hp]

/-- The last attribute of a role, or what the place holds already, is found by looking at one
attribute after another. -/
theorem getLast?_filter_cons : ((a :: rest).filter p).getLast?.or slot =
    (rest.filter p).getLast?.or (if p a then some a else slot) := by
  by_cases hp : p a = true
  · rw [List.filter_cons_of_pos hp, if_pos hp, List.getLast?_cons]
    cases (rest.filter p).getLast? <;> rfl
  · rw [List.filter_cons_of_neg hp, if_neg hp]

end

/-- There is room for some attributes exactly if the first one finds its place free and there is
room for the others after it. -/
theorem hasRoom_cons (sorted : SortedAttributes) (a : RawAttribute) (rest : List RawAttribute) :
    sorted.HasRoom (a :: rest) ↔ sorted.Free a ∧ (sorted.put a).HasRoom rest := by
  unfold HasRoom Free put
  rw [room_cons, room_cons]
  exact and_and_and_comm

/-- Further attributes are sorted if there is room for them. Plain ones and proxies are added behind
those that were there, in their order, and for each other place the last one counts. -/
theorem addAll_eq (attributes : List RawAttribute) (sorted : SortedAttributes) :
    (sorted.HasRoom attributes → sorted.addAll attributes = .ok
      ⟨sorted.plain ++ attributes.filter (Role.ofName ·.name = .plain),
        sorted.proxies ++ attributes.filterMap RawAttribute.proxy?,
        (attributes.filter RawAttribute.fillsIntro).getLast?.or sorted.intro,
        (attributes.filter RawAttribute.fillsOutro).getLast?.or sorted.outro,
        (attributes.filter RawAttribute.isDecorator).getLast?.or sorted.decorator⟩) ∧
      (¬sorted.HasRoom attributes →
        ∃ fault, sorted.addAll attributes = .error fault ∧ fault.kind = .structural) := by
  induction attributes generalizing sorted with
  | nil =>
    have hroom : sorted.HasRoom [] :=
      ⟨Option.length_toList_le, Option.length_toList_le⟩
    refine ⟨fun _ => ?_, fun h => absurd hroom h⟩
    simp [addAll]
  | cons a rest ih =>
    obtain ⟨hadds, hfails⟩ := sorted.add_eq a
    obtain ⟨hroom, hfull⟩ := ih (sorted.put a)
    rw [addAll, hasRoom_cons]
    by_cases hfree : sorted.Free a
    · rw [hadds hfree]
      dsimp only
      refine ⟨fun h => ?_, fun h => hfull fun hrest => h ⟨hfree, hrest⟩⟩
      rw [hroom h.2, getLast?_filter_cons, getLast?_filter_cons, getLast?_filter_cons]
      unfold put
      dsimp only
      have hproxies : (a :: rest).filterMap RawAttribute.proxy? =
          a.proxy?.toList ++ rest.filterMap RawAttribute.proxy? := by
        rw [List.filterMap_cons]
        cases a.proxy? <;> rfl
      rw [List.append_assoc, ← List.filter_append, List.append_assoc, List.singleton_append,
        hproxies]
    · obtain ⟨fault, hadd, hkind⟩ := hfails hfree
      rw [hadd]
      exact ⟨fun h => absurd h.1 hfree, fun _ => ⟨fault, rfl, hkind⟩⟩

/-- The attributes of each role, in their order, and the last one where only one counts. -/
def ofRoles (attributes : List RawAttribute) : SortedAttributes :=
  ⟨attributes.filter (Role.ofName ·.name = .plain), attributes.filterMap RawAttribute.proxy?,
    (attributes.filter RawAttribute.fillsIntro).getLast?,
    (attributes.filter RawAttribute.fillsOutro).getLast?,
    (attributes.filter RawAttribute.isDecorator).getLast?⟩

/-- At the start all places are free, so there is room exactly if no two attributes clash. -/
theorem hasRoom_empty (attributes : List RawAttribute) :
    empty.HasRoom attributes ↔ ¬Clash attributes := by
  simp only [HasRoom, empty, Clash, Option.toList_none, List.length_nil]
  omega

/-- Attributes are sorted unless two of them name the same transition. -/
theorem ofList_eq (attributes : List RawAttribute) :
    (¬Clash attributes → ofList attributes = .ok (ofRoles attributes)) ∧
      (Clash attributes →
        ∃ fault, ofList attributes = .error fault ∧ fault.kind = .structural) := by
  obtain ⟨hroom, hfull⟩ := addAll_eq attributes empty
  rw [hasRoom_empty] at hroom hfull
  refine ⟨fun h => ?_, fun h => hfull (not_not_intro h)⟩
  rw [ofList, hroom h]
  simp only [empty, ofRoles, List.nil_append, Option.or_none]

/-- Attributes that were sorted did not clash, and each role has what its attributes are. -/
theorem eq_ofRoles_of_ofList {attributes : List RawAttribute} {sorted : SortedAttributes}
    (h : ofList attributes = .ok sorted) : ¬Clash attributes ∧ sorted = ofRoles attributes := by
  obtain ⟨hsorts, hfails⟩ := ofList_eq attributes
  by_cases hclash : Clash attributes
  · obtain ⟨fault, hfault, -⟩ := hfails hclash
    rw [hfault] at h
    cases h
  · rw [hsorts hclash] at h
    exact ⟨hclash, (Except.ok.inj h).symm⟩

/-! ## What all sorted attributes satisfy -/

/-- All sorted attributes satisfy a property. Proxies, which have lost the start of their names,
need only satisfy one of their own. -/
structure All (sorted : SortedAttributes) (P Q : RawAttribute → Prop) : Prop where
  plain : ∀ a ∈ sorted.plain, P a
  proxies : ∀ a ∈ sorted.proxies, Q a
  intro : ∀ a ∈ sorted.intro, P a
  outro : ∀ a ∈ sorted.outro, P a
  decorator : ∀ a ∈ sorted.decorator, P a

variable {P Q : RawAttribute → Prop}

/-- What holds of all attributes holds of all of them when they are sorted. -/
theorem all_ofList {attributes : List RawAttribute} (hP : ∀ a ∈ attributes, P a)
    (hQ : ∀ a ∈ attributes, ∀ occasion, Q ⟨occasion, a.value⟩) {sorted : SortedAttributes}
    (h : ofList attributes = .ok sorted) : sorted.All P Q := by
  obtain ⟨-, rfl⟩ := eq_ofRoles_of_ofList h
  have hlast : ∀ p : RawAttribute → Bool, ∀ a ∈ (attributes.filter p).getLast?, P a := by
    intro p a ha
    exact hP a (List.mem_filter.mp (List.mem_of_getLast? ha)).1
  refine ⟨fun a ha => hP a (List.mem_filter.mp ha).1, fun a ha => ?_, hlast _, hlast _, hlast _⟩
  obtain ⟨raw, hraw, hproxy⟩ := List.mem_filterMap.mp ha
  unfold RawAttribute.proxy? at hproxy
  split at hproxy
  · cases hproxy
    exact hQ raw hraw _
  · cases hproxy

/-- The plain attributes are those whose names give them that role. -/
theorem plain_ofList {attributes : List RawAttribute} {sorted : SortedAttributes}
    (h : ofList attributes = .ok sorted) :
    sorted.plain = attributes.filter (Role.ofName ·.name = .plain) := by
  obtain ⟨-, rfl⟩ := eq_ofRoles_of_ofList h
  rfl

/-- Without directives and decorators nothing can clash, and the attributes are all plain. This is
so of the attributes in what is written, as behaviour has no markup. -/
theorem ofList_of_plain {attributes : List RawAttribute}
    (h : ∀ a ∈ attributes, Role.ofName a.name = .plain) :
    ofList attributes = .ok ⟨attributes, [], none, none, none⟩ := by
  have haddAll : ∀ before : List RawAttribute,
      (⟨before, [], none, none, none⟩ : SortedAttributes).addAll attributes =
        .ok ⟨before ++ attributes, [], none, none, none⟩ := by
    induction attributes with
    | nil =>
      intro before
      rw [addAll, List.append_nil]
    | cons a rest ih =>
      intro before
      obtain ⟨ha, hrest⟩ := List.forall_mem_cons.mp h
      rw [addAll, add, ha]
      dsimp only
      rw [ih hrest, List.append_assoc, List.singleton_append]
  exact haddAll []

end SortedAttributes

end MustacheMarkup
