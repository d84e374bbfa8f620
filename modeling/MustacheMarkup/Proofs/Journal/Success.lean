import MustacheMarkup.Journal

/-!
# What a success says about the parts of a computation

If a computation that is put together succeeds, its parts did. The lemmas here take a success apart,
one for each way to put computations together.
-/

set_option autoImplicit false

namespace MustacheMarkup.Journal

variable {σ ε α β : Type}

/-- An outcome that is known to be no error has a value. Examples are decided in this way. -/
theorem exists_of_isOk {r : Except ε α} (h : r.isOk = true) : ∃ a, r = .ok a := by
  cases r with
  | error e => cases h
  | ok a => exact ⟨a, rfl⟩

/-- Two checks pass only if the first one does and then the second, on its value. -/
theorem exists_of_bind_eq_ok {r : Except ε α} {f : α → Except ε β} {b : β}
    (h : r >>= f = .ok b) : ∃ a, r = .ok a ∧ f a = .ok b := by
  cases r with
  | error e => cases h
  | ok a => exact ⟨a, rfl, h⟩

/-- What was made of a value was made of some value. -/
theorem exists_of_map_eq_ok {r : Except ε α} {f : α → β} {b : β} (h : r.map f = .ok b) :
    ∃ a, r = .ok a ∧ f a = b := by
  cases r with
  | error e => cases h
  | ok a => exact ⟨a, rfl, Except.ok.inj h⟩

/-- If two computations succeed, both do, the second one from the state that the first leaves. -/
theorem result_bind_eq_ok {m : Journal σ ε α} {f : α → Journal σ ε β} {s : σ} {b : β}
    (h : ((m >>= f) s).result = .ok b) :
    ∃ a, (m s).result = .ok a ∧ (f a (m s).state).result = .ok b := by
  rw [bind_apply] at h
  rcases hm : m s with ⟨_ | a, s', log⟩
  · rw [hm] at h
    cases h
  · rw [hm] at h
    exact ⟨a, rfl, h⟩

/-- The result of two computations is that of the second, if the first one succeeds. -/
theorem result_bind_of_ok {m : Journal σ ε α} {f : α → Journal σ ε β} {s : σ} {a : α}
    {r : Except ε β} (hm : (m s).result = .ok a) (hf : (f a (m s).state).result = r) :
    ((m >>= f) s).result = r := by
  rw [bind_apply]
  rcases hs : m s with ⟨_ | b, s', log⟩
  · rw [hs] at hm
    cases hm
  · rw [hs] at hm hf
    cases hm
    exact hf

/-- The last state of two computations is that of the second, if the first one succeeds. -/
theorem state_bind_of_ok {m : Journal σ ε α} {s : σ} {a : α} (hm : (m s).result = .ok a)
    (f : α → Journal σ ε β) : ((m >>= f) s).state = (f a (m s).state).state := by
  rw [bind_apply]
  rcases hs : m s with ⟨_ | b, s', log⟩
  · rw [hs] at hm
    cases hm
  · rw [hs] at hm
    cases hm
    rfl

/-- To give back a value leaves the state. -/
theorem state_pure (a : α) (s : σ) : ((pure a : Journal σ ε α) s).state = s := rfl

/-- What was made of a result was made of a result. -/
theorem result_map_eq_ok {m : Journal σ ε α} {f : α → β} {s : σ} {b : β}
    (h : ((f <$> m) s).result = .ok b) : ∃ a, (m s).result = .ok a ∧ f a = b := by
  rw [map_apply] at h
  rcases hm : (m s).result with _ | a
  · rw [hm] at h
    cases h
  · rw [hm] at h
    cases h
    exact ⟨a, rfl, rfl⟩

/-- Only the value itself is given back. -/
theorem result_pure_eq_ok {a b : α} {s : σ} (h : ((pure a : Journal σ ε α) s).result = .ok b) :
    a = b := by
  cases h
  rfl

end MustacheMarkup.Journal
