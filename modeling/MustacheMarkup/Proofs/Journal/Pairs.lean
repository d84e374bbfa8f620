import Mathlib.Data.List.Forall2
import MustacheMarkup.Journal

/-!
# Comparing two computations

`Journal.Pairs R m m'` says that two computations started in the same state leave the same state,
and fail with the same error or succeed with values that `R` relates. What is reported is not
compared.
-/

set_option autoImplicit false

namespace MustacheMarkup.Journal

variable {σ ε α α' β β' : Type}

/-- Two results that are the same error, or values that `R` relates. -/
inductive SameEnd (R : α → α' → Prop) : Except ε α → Except ε α' → Prop where
  | error (e : ε) : SameEnd R (.error e) (.error e)
  | ok {a : α} {a' : α'} : R a a' → SameEnd R (.ok a) (.ok a')

/-- Outcomes that end alike do so after their values are changed in a way that keeps
the relation. -/
theorem SameEnd.map {R : α → α' → Prop} {S : β → β' → Prop} {f : α → β} {f' : α' → β'}
    {r : Except ε α} {r' : Except ε α'} (h : SameEnd R r r')
    (hf : ∀ a a', R a a' → S (f a) (f' a')) : SameEnd S (r.map f) (r'.map f') := by
  cases h with
  | error e => exact .error e
  | ok ha => exact .ok (hf _ _ ha)

/-- Outcomes that end alike do so after their errors are changed in the same way. -/
theorem SameEnd.mapError {ε' : Type} {R : α → α' → Prop} {r : Except ε α} {r' : Except ε α'}
    (h : SameEnd R r r') (f : ε → ε') : SameEnd R (r.mapError f) (r'.mapError f) := by
  cases h with
  | error e => exact .error (f e)
  | ok ha => exact .ok ha

/-- A relation of values may be weakened. -/
theorem SameEnd.imp {R S : α → α' → Prop} {r : Except ε α} {r' : Except ε α'}
    (h : SameEnd R r r') (hRS : ∀ a a', R a a' → S a a') : SameEnd S r r' := by
  cases h with
  | error e => exact .error e
  | ok ha => exact .ok (hRS _ _ ha)

/-- To end alike with equal values is to be equal. -/
theorem SameEnd.eq {r r' : Except ε α} (h : SameEnd (· = ·) r r') : r = r' := by
  cases h with
  | error e => rfl
  | ok ha => rw [ha]

/-- Every outcome ends like itself. -/
theorem sameEnd_refl (r : Except ε α) : SameEnd (· = ·) r r := by
  cases r with
  | error e => exact .error e
  | ok a => exact .ok rfl

/-- Neither succeeds without the other. -/
theorem SameEnd.isOk_iff {R : α → α' → Prop} {r : Except ε α} {r' : Except ε α'}
    (h : SameEnd R r r') : r.isOk ↔ r'.isOk := by
  cases h <;> exact Iff.rfl

/-- From every state, both leave the same state, and they end alike up to `R`. -/
def Pairs (R : α → α' → Prop) (m : Journal σ ε α) (m' : Journal σ ε α') : Prop :=
  ∀ s, SameEnd R (m s).result (m' s).result ∧ (m s).state = (m' s).state

/-- Values that are related may be given back on both sides. -/
theorem pairs_pure {R : α → α' → Prop} {a : α} {a' : α'} (h : R a a') :
    Pairs R (pure a : Journal σ ε α) (pure a') :=
  fun _ => ⟨.ok h, rfl⟩

/-- The same failure on both sides. -/
theorem pairs_fail (R : α → α' → Prop) (e : ε) :
    Pairs R (fail e : Journal σ ε α) (fail e) :=
  fun _ => ⟨.error e, rfl⟩

/-- Every computation is paired with itself. -/
theorem pairs_refl (m : Journal σ ε α) : Pairs (· = ·) m m :=
  fun s => ⟨sameEnd_refl (m s).result, rfl⟩

/-- Outcomes that end alike may be taken into computations on both sides. -/
theorem pairs_ofExcept {R : α → α' → Prop} {r : Except ε α} {r' : Except ε α'}
    (h : SameEnd R r r') : Pairs R (ofExcept r : Journal σ ε α) (ofExcept r') :=
  fun _ => ⟨h, rfl⟩

/-- Computations are paired step by step: the second ones have to be paired for all values that the
first ones may leave. -/
theorem Pairs.bind {R : α → α' → Prop} {S : β → β' → Prop} {m : Journal σ ε α}
    {m' : Journal σ ε α'} {f : α → Journal σ ε β} {f' : α' → Journal σ ε β'} (hm : Pairs R m m')
    (hf : ∀ a a', R a a' → Pairs S (f a) (f' a')) : Pairs S (m >>= f) (m' >>= f') := by
  intro s
  obtain ⟨hend, hstate⟩ := hm s
  rw [bind_apply, bind_apply]
  rcases hms : m s with ⟨r, s₁, log⟩
  rcases hms' : m' s with ⟨r', s₁', log'⟩
  rw [hms, hms'] at hend hstate
  obtain rfl : s₁ = s₁' := hstate
  cases hend with
  | error e => exact ⟨.error e, rfl⟩
  | ok ha => exact hf _ _ ha s₁

/-- A relation of values may be weakened, and so what is related is forgotten in part. -/
theorem Pairs.imp {R S : α → α' → Prop} {m : Journal σ ε α} {m' : Journal σ ε α'}
    (h : Pairs R m m') (hRS : ∀ a a', R a a' → S a a') : Pairs S m m' :=
  fun s => ⟨(h s).1.imp hRS, (h s).2⟩

/-- Functions that keep the relation may be applied on both sides. -/
theorem Pairs.map {R : α → α' → Prop} {S : β → β' → Prop} {m : Journal σ ε α}
    {m' : Journal σ ε α'} {f : α → β} {f' : α' → β'} (hm : Pairs R m m')
    (hf : ∀ a a', R a a' → S (f a) (f' a')) : Pairs S (f <$> m) (f' <$> m') := by
  intro s
  obtain ⟨hend, hstate⟩ := hm s
  rw [map_apply, map_apply]
  exact ⟨hend.map hf, hstate⟩

/-- From every state, both leave the same state, and they end alike up to what `f` forgets. -/
abbrev PairsUpTo (f : α → β) (m m' : Journal σ ε α) : Prop :=
  Pairs (fun a a' => f a = f a') m m'

variable {γ : Type}

/-- Steps for two lists are paired member by member, up to what `f` forgets. -/
theorem pairsUpTo_each {f : β → γ} {R : α → α' → Prop} {g : α → Journal σ ε β}
    {g' : α' → Journal σ ε β} (hg : ∀ a a', R a a' → PairsUpTo f (g a) (g' a')) {l : List α}
    {l' : List α'} (h : List.Forall₂ R l l') :
    PairsUpTo (List.map f) (each g l) (each g' l') := by
  induction h with
  | nil => exact pairs_pure rfl
  | cons ha _ ih =>
    refine (hg _ _ ha).bind fun b b' hb => ih.bind fun bs bs' hbs => pairs_pure ?_
    rw [List.map_cons, List.map_cons, hb, hbs]

/-- The same for values that may be missing, on both sides or on none. -/
theorem pairsUpTo_whenSome {f : β → γ} {R : α → α' → Prop} {g : α → Journal σ ε β}
    {g' : α' → Journal σ ε β} (hg : ∀ a a', R a a' → PairsUpTo f (g a) (g' a')) {o : Option α}
    {o' : Option α'} (h : Option.Rel R o o') :
    PairsUpTo (Option.map f) (whenSome g o) (whenSome g' o') := by
  cases h with
  | none => exact pairs_pure rfl
  | some ha => exact (hg _ _ ha).map fun _ _ hb => congrArg some hb

end MustacheMarkup.Journal
