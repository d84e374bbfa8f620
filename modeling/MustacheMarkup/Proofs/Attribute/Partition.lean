import Mathlib.Data.List.Forall2
import MustacheMarkup.Proofs.Attribute.Faults

/-!
# Sorting attributes parts them

The roles part the attributes of an element: each attribute has one place, and those of one place
keep their order. Whether they can be sorted is a matter of counting names, so it does not depend on
their order. Which fault is reported does: it is that of the first attribute that names a transition
that one before it names already (`exists_firstTaken_of_addAll`).
-/

set_option autoImplicit false

namespace MustacheMarkup

namespace RawAttribute

/-! ## Places -/

/-- Whether an attribute has one of the four names with a role of their own. -/
def hasFixedRole (a : RawAttribute) : Bool :=
  ["intro", "outro", "intro-outro", "decorator"].contains a.name

/-- Whether an attribute passes on events is decided by its name. -/
instance (a : RawAttribute) : Decidable a.PassesOn :=
  inferInstanceAs (Decidable (_ ∨ _))

/-- Whether an attribute stands for an event that is passed on. -/
def isProxy (a : RawAttribute) : Bool :=
  !a.hasFixedRole && decide a.PassesOn

/-- Whether an attribute stands for nothing but itself. -/
def isPlain (a : RawAttribute) : Bool :=
  !a.hasFixedRole && !decide a.PassesOn

/-- Whether an attribute names a transition. -/
def isTransition (a : RawAttribute) : Bool :=
  a.fillsIntro || a.fillsOutro

/-- A proxy is an attribute without the mark at the start of its name. -/
def Unmarks (a proxy : RawAttribute) : Prop :=
  (a.name = "proxy-" ++ proxy.name ∨ a.name = "on-" ++ proxy.name) ∧ proxy.value = a.value

/-- What the places have to do with the roles: an attribute is plain by its place if it is by its
role, and has the place of a proxy if it is one, under the name behind its mark. -/
theorem places_of_role (a : RawAttribute) :
    (a.isPlain = true ↔ Role.ofName a.name = .plain) ∧
      (a.isProxy = true ↔ ∃ proxy, a.proxy? = some proxy) ∧
      ∀ proxy, a.proxy? = some proxy → a.Unmarks proxy := by
  obtain ⟨name, value⟩ := a
  unfold isPlain isProxy proxy? hasFixedRole Unmarks
  obtain ⟨rfl, hrole⟩ | ⟨rfl, hrole⟩ | ⟨rfl, hrole⟩ | ⟨rfl, hrole⟩ |
    ⟨⟨hintro, houtro, hboth, hdecorator⟩, hothers⟩ := Role.ofName_cases name
  · simp [hrole]
  · simp [hrole]
  · simp [hrole]
  · simp [hrole]
  · obtain ⟨occasion, hoccasion, hrole⟩ | ⟨hnone, hrole⟩ := hothers
    · have hname : name = "proxy-" ++ occasion ∨ name = "on-" ++ occasion := by
        rcases Option.or_eq_some_iff.mp hoccasion with hproxy | ⟨-, hon⟩
        · exact .inl (String.toList_inj.mp (by
            rw [String.toList_append, afterMark?_eq_some_iff.mp hproxy]))
        · exact .inr (String.toList_inj.mp (by
            rw [String.toList_append, afterMark?_eq_some_iff.mp hon]))
      have hpasses : PassesOn ⟨name, value⟩ := by
        rcases hname with hname | hname
        · exact .inl ⟨occasion.toList, by rw [hname, String.toList_append]⟩
        · exact .inr ⟨occasion.toList, by rw [hname, String.toList_append]⟩
      simp [hrole, hintro, houtro, hboth, hdecorator, hpasses, hname]
    · obtain ⟨hproxy, hon⟩ := Option.or_eq_none_iff.mp hnone
      have hpasses : ¬PassesOn ⟨name, value⟩ := fun h =>
        h.elim (afterMark?_eq_none_iff.mp hproxy) (afterMark?_eq_none_iff.mp hon)
      simp [hrole, hintro, houtro, hboth, hdecorator, hpasses]

/-- An attribute names a transition that one of some attributes names already. -/
def IsTaken (before : List RawAttribute) (a : RawAttribute) : Prop :=
  (a.fillsIntro = true ∧ ∃ b ∈ before, b.fillsIntro = true) ∨
    (a.fillsOutro = true ∧ ∃ b ∈ before, b.fillsOutro = true)

/-- An attribute is the first one to name a transition that one before it names already. -/
structure FirstTaken (before : List RawAttribute) (a : RawAttribute) : Prop where
  taken : a.IsTaken before
  first : ∀ earlier b between, before = earlier ++ b :: between → ¬b.IsTaken earlier

/-- The fault of an attribute whose transition is taken. -/
def takenFault (a : RawAttribute) : ParseFault :=
  if a.name = "intro" then .secondIntro
  else if a.name = "outro" then .secondOutro
  else .secondIntroOutro

/-- What is said about an attribute whose transition is taken. -/
def takenMessage (a : RawAttribute) : String :=
  if a.name = "intro" then "An element can only have one intro transition"
  else if a.name = "outro" then "An element can only have one outro transition"
  else "An element can only have one intro and one outro transition"

/-- The fault of an attribute whose place is taken is structural, and has the wording that the
attribute's role has for it. -/
theorem takenFault_message (a : RawAttribute) :
    a.takenFault.kind = .structural ∧ a.takenFault.message = a.takenMessage := by
  unfold takenFault takenMessage
  split
  · exact ⟨rfl, rfl⟩
  · split
    · exact ⟨rfl, rfl⟩
    · exact ⟨rfl, rfl⟩

end RawAttribute

namespace SortedAttributes

open RawAttribute

/-! ## Counting names -/

/-- A transition is named by its own name or by that of both. -/
theorem countP_fills (attributes : List RawAttribute) :
    attributes.countP fillsIntro =
        attributes.countP (·.name == "intro") + attributes.countP (·.name == "intro-outro") ∧
      attributes.countP fillsOutro =
        attributes.countP (·.name == "outro") + attributes.countP (·.name == "intro-outro") := by
  induction attributes with
  | nil => exact ⟨rfl, rfl⟩
  | cons a rest ih =>
    obtain ⟨hintro, houtro⟩ := ih
    have hintro_ne : a.name = "intro" → a.name ≠ "intro-outro" := fun h h' =>
      absurd (h.symm.trans h') (by decide)
    have houtro_ne : a.name = "outro" → a.name ≠ "intro-outro" := fun h h' =>
      absurd (h.symm.trans h') (by decide)
    simp only [List.countP_cons, fillsIntro, fillsOutro, Bool.or_eq_true, beq_iff_eq]
      at hintro houtro ⊢
    grind

/-- Whether attributes clash is a matter of counting names. -/
theorem clash_iff (attributes : List RawAttribute) : Clash attributes ↔
    2 ≤ attributes.countP (·.name == "intro") + attributes.countP (·.name == "intro-outro") ∨
      2 ≤ attributes.countP (·.name == "outro") + attributes.countP (·.name == "intro-outro") := by
  obtain ⟨hintro, houtro⟩ := countP_fills attributes
  rw [Clash, hintro, houtro]

/-- Attributes clash or not in whatever order they stand, because only their number by
role counts. -/
theorem clash_of_perm {attributes attributes' : List RawAttribute}
    (h : attributes.Perm attributes') : Clash attributes ↔ Clash attributes' := by
  rw [Clash, Clash, h.countP_eq, h.countP_eq]

/-- Attributes are refused exactly if two of them ask for one place. -/
theorem exists_error_iff (attributes : List RawAttribute) :
    (∃ fault, ofList attributes = .error fault) ↔ Clash attributes := by
  obtain ⟨hsorts, hfails⟩ := ofList_eq attributes
  constructor
  · rintro ⟨fault, hfault⟩
    by_contra hclash
    rw [hsorts hclash] at hfault
    cases hfault
  · intro hclash
    obtain ⟨fault, hfault, -⟩ := hfails hclash
    exact ⟨fault, hfault⟩

/-! ## The places together -/

section

variable {α : Type} {p q r : α → Bool} {l : List α}

/-- What satisfies one of two conditions that exclude each other is, up to order, what satisfies the
one and then what satisfies the other. -/
theorem perm_filter_append (h : ∀ a ∈ l, r a = (p a || q a))
    (hnot : ∀ a ∈ l, p a = true → q a = false) :
    (l.filter p ++ l.filter q).Perm (l.filter r) := by
  have hp : (l.filter r).filter p = l.filter p := by
    rw [List.filter_filter]
    refine List.filter_congr fun a ha => ?_
    rw [h a ha]
    cases p a <;> rfl
  have hq : (l.filter r).filter (fun a => !p a) = l.filter q := by
    rw [List.filter_filter]
    refine List.filter_congr fun a ha => ?_
    have hexcludes := hnot a ha
    rw [h a ha]
    cases hpa : p a with
    | false => rfl
    | true => rw [hexcludes hpa]; rfl
  have hparts := List.filter_append_perm p (l.filter r)
  rwa [hp, hq] at hparts

/-- A list of one member at most is its last member. -/
theorem toList_getLast?_of_length_le (h : l.length ≤ 1) : l.getLast?.toList = l := by
  match l, h with
  | [], _ => rfl
  | [a], _ => rfl

end

/-- The plain attributes stand in the order of the tag. -/
theorem plain_ofRoles (attributes : List RawAttribute) :
    (ofRoles attributes).plain = attributes.filter isPlain := by
  refine List.filter_congr fun a _ => ?_
  rw [Bool.eq_iff_iff, decide_eq_true_iff, a.places_of_role.1]

/-- Proxies are the attributes with the mark of one, in their order, each with the mark taken off
its name. -/
theorem proxies_ofRoles (attributes : List RawAttribute) :
    List.Forall₂ Unmarks (attributes.filter isProxy) (ofRoles attributes).proxies := by
  unfold ofRoles
  dsimp only
  induction attributes with
  | nil => exact .nil
  | cons a rest ih =>
    obtain ⟨-, hproxy, hunmarks⟩ := a.places_of_role
    cases hcase : a.proxy? with
    | none =>
      rw [hcase] at hproxy
      rw [List.filter_cons_of_neg (by simp [hproxy]), List.filterMap_cons_none hcase]
      exact ih
    | some proxy =>
      have hkept : a.isProxy = true := hproxy.mpr ⟨proxy, hcase⟩
      rw [List.filter_cons_of_pos hkept, List.filterMap_cons_some hcase]
      exact .cons (hunmarks proxy hcase) ih

/-- Of the attributes that name the second transition, those that do not name the first one too. -/
theorem filter_outro (attributes : List RawAttribute) :
    (attributes.filter fillsOutro).filter (·.name == "outro") =
      attributes.filter (·.name == "outro") := by
  rw [List.filter_filter]
  refine List.filter_congr fun a _ => ?_
  unfold fillsOutro
  cases a.name == "outro" <;> simp

/-- The sorted transitions are all attributes that name them. -/
theorem transitions_ofRoles {attributes : List RawAttribute} (h : ¬Clash attributes) :
    (ofRoles attributes).intro.toList = attributes.filter fillsIntro ∧
      (ofRoles attributes).outro.toList = attributes.filter fillsOutro := by
  rw [Clash, List.countP_eq_length_filter, List.countP_eq_length_filter] at h
  exact ⟨toList_getLast?_of_length_le (by omega), toList_getLast?_of_length_le (by omega)⟩

/-- Every attribute has one place: it is plain, or a proxy, or names a transition, or
a decorator. -/
theorem perm_places (attributes : List RawAttribute) :
    (attributes.filter isPlain ++ attributes.filter isProxy ++
      (attributes.filter fillsIntro ++ attributes.filter (·.name == "outro")) ++
      attributes.filter isDecorator).Perm attributes := by
  have hordinary : (attributes.filter isPlain ++ attributes.filter isProxy).Perm
      (attributes.filter fun a => !a.hasFixedRole) := by
    refine perm_filter_append (fun a _ => ?_) fun a _ => ?_
    · unfold isPlain isProxy
      cases a.hasFixedRole <;> cases decide a.PassesOn <;> rfl
    · unfold isPlain isProxy
      cases a.hasFixedRole <;> cases decide a.PassesOn <;> simp
  have htransitions : (attributes.filter fillsIntro ++ attributes.filter (·.name == "outro")).Perm
      (attributes.filter isTransition) := by
    refine perm_filter_append (fun a _ => ?_) fun a _ => ?_
    · unfold isTransition fillsIntro fillsOutro
      cases a.name == "intro" <;> cases a.name == "intro-outro" <;> simp
    · unfold fillsIntro
      grind
  have hfixed : (attributes.filter isTransition ++ attributes.filter isDecorator).Perm
      (attributes.filter hasFixedRole) := by
    refine perm_filter_append (fun a _ => ?_) fun a _ => ?_
    · unfold isTransition isDecorator hasFixedRole fillsIntro fillsOutro
      grind
    · unfold isTransition isDecorator fillsIntro fillsOutro
      grind
  have hall := List.filter_append_perm (fun a : RawAttribute => !a.hasFixedRole) attributes
  simp only [Bool.not_not] at hall
  rw [List.append_assoc]
  exact (hordinary.append ((htransitions.append_right _).trans hfixed)).trans hall

/-! ## The first transition that is taken -/

/-- The transitions of sorted attributes are those that some attributes name. -/
structure Reflects (sorted : SortedAttributes) (before : List RawAttribute) : Prop where
  intro : sorted.intro.isSome = true ↔ ∃ b ∈ before, b.fillsIntro = true
  outro : sorted.outro.isSome = true ↔ ∃ b ∈ before, b.fillsOutro = true

/-- Nothing was put yet, and no attribute stands before. -/
theorem reflects_empty : empty.Reflects [] := by
  constructor <;> simp [empty]

/-- To put one more attribute keeps up with what stands before. -/
theorem Reflects.put {sorted : SortedAttributes} {before : List RawAttribute}
    (h : sorted.Reflects before) (a : RawAttribute) : (sorted.put a).Reflects (before ++ [a]) := by
  obtain ⟨hintro, houtro⟩ := h
  constructor
  · unfold SortedAttributes.put
    simp only [List.mem_append, List.mem_singleton]
    cases ha : a.fillsIntro with
    | true => simp [or_and_right, exists_or, ha]
    | false => grind
  · unfold SortedAttributes.put
    simp only [List.mem_append, List.mem_singleton]
    cases ha : a.fillsOutro with
    | true => simp [or_and_right, exists_or, ha]
    | false => grind

/-- An attribute finds its transitions free unless they are taken. -/
theorem Reflects.free_iff {sorted : SortedAttributes} {before : List RawAttribute}
    (h : sorted.Reflects before) (a : RawAttribute) : sorted.Free a ↔ ¬a.IsTaken before := by
  obtain ⟨hintro, houtro⟩ := h
  unfold Free IsTaken
  rw [← hintro, ← houtro, ← Option.not_isSome_iff_eq_none, ← Option.not_isSome_iff_eq_none]
  tauto

/-- An attribute whose place is taken is refused with a fault that goes by its name. So one that
fills both places has the same fault whichever of the two is taken. -/
theorem add_of_not_free {sorted : SortedAttributes} {a : RawAttribute} (h : ¬sorted.Free a) :
    sorted.add a = .error a.takenFault := by
  obtain ⟨name, value⟩ := a
  obtain ⟨plain, proxies, intro, outro, decorator⟩ := sorted
  unfold Free fillsIntro fillsOutro at h
  unfold add takenFault
  obtain ⟨rfl, hrole⟩ | ⟨rfl, hrole⟩ | ⟨rfl, hrole⟩ | ⟨rfl, hrole⟩ |
    ⟨⟨hintro, houtro, hboth, -⟩, -⟩ := Role.ofName_cases name
  · cases intro with
    | none => simp at h
    | some _ => simp [hrole]
  · cases outro with
    | none => simp at h
    | some _ => simp [hrole]
  · cases intro with
    | some _ => simp [hrole]
    | none =>
      cases outro with
      | none => simp at h
      | some _ => simp [hrole]
  · simp at h
  · simp [hintro, houtro, hboth] at h

/-- The fault is that of the first attribute whose transition is taken, by attributes sorted before
or by further ones. -/
theorem exists_firstTaken_of_addAll {sorted : SortedAttributes} {done : List RawAttribute}
    (hsorted : sorted.Reflects done)
    (hdone : ∀ earlier b between, done = earlier ++ b :: between → ¬b.IsTaken earlier)
    {attributes : List RawAttribute} {fault : ParseFault}
    (h : sorted.addAll attributes = .error fault) :
    ∃ before a behind, attributes = before ++ a :: behind ∧ a.FirstTaken (done ++ before) ∧
      fault = a.takenFault := by
  induction attributes generalizing sorted done with
  | nil => cases h
  | cons a rest ih =>
    by_cases hfree : sorted.Free a
    · rw [addAll, (sorted.add_eq a).1 hfree] at h
      have hnot := (hsorted.free_iff a).mp hfree
      have hdone' : ∀ earlier b between, done ++ [a] = earlier ++ b :: between →
          ¬b.IsTaken earlier := by
        intro earlier b between heq
        rcases List.eq_nil_or_concat between with rfl | ⟨between, c, rfl⟩
        · obtain ⟨rfl, hb⟩ := List.append_inj' heq rfl
          cases hb
          exact hnot
        · have hcut : done ++ [a] = (earlier ++ b :: between) ++ [c] := by
            rw [heq, List.concat_eq_append, List.append_assoc, List.cons_append]
          exact hdone earlier b between (List.append_inj' hcut rfl).1
      obtain ⟨before, b, behind, rfl, hfirst, hfault⟩ := ih (hsorted.put a) hdone' h
      refine ⟨a :: before, b, behind, rfl, ?_, hfault⟩
      rwa [List.append_assoc, List.singleton_append] at hfirst
    · rw [addAll, add_of_not_free hfree] at h
      refine ⟨[], a, rest, rfl, ?_, (Except.error.inj h).symm⟩
      rw [List.append_nil]
      exact ⟨not_not.mp fun hnot => hfree ((hsorted.free_iff a).mpr hnot), hdone⟩

/-! ## Sorting -/

/-- Attributes are refused if and only if a transition is named twice, in whatever order. Otherwise
those of each place are kept in their order: the plain ones as they are, the proxies without the
mark at the start of their names, the one attribute that names a transition where there is one, and
the last of the decorators; and every attribute has one place. What is reported is about the first
attribute that names a transition that one before it names already. -/
theorem ofList_parts (attributes : List RawAttribute) :
    ((∃ fault, ofList attributes = .error fault) ↔
      2 ≤ attributes.countP (·.name == "intro") + attributes.countP (·.name == "intro-outro") ∨
      2 ≤ attributes.countP (·.name == "outro") + attributes.countP (·.name == "intro-outro")) ∧
    (∀ attributes' : List RawAttribute, attributes.Perm attributes' →
      ((∃ fault, ofList attributes = .error fault) ↔ ∃ fault, ofList attributes' = .error fault)) ∧
    (∀ sorted, ofList attributes = .ok sorted →
      sorted.plain = attributes.filter isPlain ∧
      List.Forall₂ Unmarks (attributes.filter isProxy) sorted.proxies ∧
      sorted.intro.toList = attributes.filter fillsIntro ∧
      sorted.outro.toList = attributes.filter fillsOutro ∧
      sorted.decorator = (attributes.filter isDecorator).getLast? ∧
      (sorted.plain ++ attributes.filter isProxy ++
        (sorted.intro.toList ++ sorted.outro.toList.filter (·.name == "outro")) ++
        attributes.filter isDecorator).Perm attributes) ∧
    ∀ fault, ofList attributes = .error fault →
      ∃ before a behind, attributes = before ++ a :: behind ∧ a.FirstTaken before ∧
        fault.kind = .structural ∧ fault.message = a.takenMessage := by
  refine ⟨?_, fun attributes' hperm => ?_, fun sorted hsorted => ?_, fun fault hfault => ?_⟩
  · rw [exists_error_iff, clash_iff]
  · rw [exists_error_iff, exists_error_iff, clash_of_perm hperm]
  · obtain ⟨hclash, rfl⟩ := eq_ofRoles_of_ofList hsorted
    obtain ⟨hintro, houtro⟩ := transitions_ofRoles hclash
    have hplain := plain_ofRoles attributes
    refine ⟨hplain, proxies_ofRoles attributes, hintro, houtro, rfl, ?_⟩
    rw [hplain, hintro, houtro, filter_outro]
    exact perm_places attributes
  · obtain ⟨before, a, behind, hattributes, hfirst, rfl⟩ :=
      exists_firstTaken_of_addAll reflects_empty (fun _ _ _ h => by simp at h) hfault
    obtain ⟨hkind, hmessage⟩ := a.takenFault_message
    exact ⟨before, a, behind, hattributes, hfirst, hkind, hmessage⟩

/-- Attributes of all sorts, among them two decorators, and two that clash in either order. So every
part of the theorem has something to say. -/
theorem ofList_parts_mixed :
    let attributes : List RawAttribute := [⟨"on-click", some []⟩, ⟨"decorator", none⟩,
      ⟨"proxy-on-x", none⟩, ⟨"intro-outro", some []⟩, ⟨"onclick", none⟩, ⟨"decorator", some []⟩,
      ⟨"Intro", none⟩]
    let clashing : List RawAttribute := [⟨"a", none⟩, ⟨"intro-outro", none⟩, ⟨"outro", none⟩]
    (ofList attributes = .ok ⟨[⟨"onclick", none⟩, ⟨"Intro", none⟩],
        [⟨"click", some []⟩, ⟨"on-x", none⟩], some ⟨"intro-outro", some []⟩,
        some ⟨"intro-outro", some []⟩, some ⟨"decorator", some []⟩⟩ ∧
      attributes.filter fillsOutro = [⟨"intro-outro", some []⟩]) ∧
    (ofList clashing = .error .secondOutro ∧
      (∃ fault, ofList clashing.reverse = .error fault) ∧
      ∃ before a behind, clashing = before ++ a :: behind ∧ a.FirstTaken before ∧
        ParseFault.secondOutro.kind = .structural ∧
        ParseFault.secondOutro.message = a.takenMessage) := by
  intro attributes clashing
  have hsorted : ofList attributes = .ok ⟨[⟨"onclick", none⟩, ⟨"Intro", none⟩],
      [⟨"click", some []⟩, ⟨"on-x", none⟩], some ⟨"intro-outro", some []⟩,
      some ⟨"intro-outro", some []⟩, some ⟨"decorator", some []⟩⟩ := rfl
  have hclashes : ofList clashing = .error .secondOutro := rfl
  obtain ⟨-, -, hparts, -⟩ := ofList_parts attributes
  obtain ⟨-, hperm, -, hfirst⟩ := ofList_parts clashing
  obtain ⟨-, -, -, houtro, -⟩ := hparts _ hsorted
  exact ⟨⟨hsorted, houtro.symm⟩, hclashes,
    (hperm _ clashing.reverse_perm.symm).mp ⟨_, hclashes⟩, hfirst _ hclashes⟩

end SortedAttributes

end MustacheMarkup
