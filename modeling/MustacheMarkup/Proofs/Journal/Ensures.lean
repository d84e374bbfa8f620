import MustacheMarkup.Journal

/-!
# What holds of every value that a computation ends with

`Journal.Ensures m Q` says that `Q` holds of whatever `m` ends with, from any state that it is
started in. It says nothing of failures, of events or of the state that is left. The rules below put
such statements together along the way a computation is put together.
-/

set_option autoImplicit false

namespace MustacheMarkup.Journal

variable {σ ε α β γ : Type} {P : α → Prop} {Q : β → Prop}

/-- Whatever `m` ends with satisfies `P`. -/
def Ensures (m : Journal σ ε α) (P : α → Prop) : Prop :=
  ∀ s a, (m s).result = .ok a → P a

/-- A value that is given back has the property if it has it. -/
theorem ensures_pure {a : α} (h : P a) : Ensures (pure a : Journal σ ε α) P := by
  intro s b hb
  cases hb
  exact h

/-- A failure has no value, so it ensures anything. -/
theorem ensures_fail (e : ε) (P : α → Prop) : Ensures (fail e : Journal σ ε α) P := by
  intro s a ha
  cases ha

/-- What the first computation ensures may be used of the value that the second one gets. -/
theorem Ensures.bind {m : Journal σ ε α} {f : α → Journal σ ε β} (hm : Ensures m P)
    (hf : ∀ a, P a → Ensures (f a) Q) : Ensures (m >>= f) Q := by
  intro s b hb
  rw [bind_apply] at hb
  rcases hs : m s with ⟨_ | a, s', log⟩
  · rw [hs] at hb
    cases hb
  · rw [hs] at hb
    have ha := hm s a
    rw [hs] at ha
    exact hf a (ha rfl) s' b hb

/-- What a first computation ends with need not be known. -/
theorem ensures_bind (m : Journal σ ε α) {f : α → Journal σ ε β} (hf : ∀ a, Ensures (f a) Q) :
    Ensures (m >>= f) Q :=
  Ensures.bind (P := fun _ => True) (fun _ _ _ => trivial) fun a _ => hf a

/-- A property of the value goes over to what is made of it. -/
theorem Ensures.map {m : Journal σ ε α} {f : α → β} (hm : Ensures m P)
    (hf : ∀ a, P a → Q (f a)) : Ensures (f <$> m) Q := by
  intro s b hb
  rw [map_apply] at hb
  cases hr : (m s).result with
  | error e =>
    rw [hr] at hb
    cases hb
  | ok a =>
    rw [hr] at hb
    cases hb
    exact hf a (hm s a hr)

/-- What each member is made to has the property of all of them. -/
theorem ensures_each {f : α → Journal σ ε β} {l : List α} (h : ∀ a ∈ l, Ensures (f a) Q) :
    Ensures (each f l) fun bs => ∀ b ∈ bs, Q b := by
  induction l with
  | nil => exact ensures_pure (List.forall_mem_nil Q)
  | cons a rest ih =>
    obtain ⟨ha, hrest⟩ := List.forall_mem_cons.mp h
    refine ha.bind fun b hb => (ih hrest).bind fun bs hbs => ensures_pure ?_
    exact List.forall_mem_cons.mpr ⟨hb, hbs⟩

/-- If each member of a list is made into something that agrees with it, the list is. -/
theorem ensures_each_map {f : α → Journal σ ε β} {g : β → γ} {g' : α → γ}
    (h : ∀ a, Ensures (f a) fun b => g b = g' a) (l : List α) :
    Ensures (each f l) fun bs => bs.map g = l.map g' := by
  induction l with
  | nil => exact ensures_pure rfl
  | cons a rest ih =>
    refine (h a).bind fun b hb => ih.bind fun bs hbs => ensures_pure ?_
    rw [List.map_cons, List.map_cons, hb, hbs]

/-- What a value that may be missing is made to, if it is there, has the property. -/
theorem ensures_whenSome {f : α → Journal σ ε β} {o : Option α} (h : ∀ a ∈ o, Ensures (f a) Q) :
    Ensures (whenSome f o) fun b => ∀ x ∈ b, Q x := by
  cases o with
  | none => exact ensures_pure fun _ hx => by cases hx
  | some a =>
    refine (h a rfl).map fun b hb x hx => ?_
    cases hx
    exact hb

end MustacheMarkup.Journal
