import MustacheMarkup.Journal

/-!
# What a success reports

`Journal.Succeeds P m s a s'` says that `m`, started in `s`, succeeds with `a`, leaves `s'`, and
reports only events that satisfy `P`. The rules put such statements together along the way a
computation is put together.
-/

set_option autoImplicit false

namespace MustacheMarkup.Journal

variable {σ ε α β : Type} {P : Event → Prop}

/-- From `s`, `m` succeeds with `a` and leaves `s'`, and it reports only events of one sort. -/
structure Succeeds (P : Event → Prop) (m : Journal σ ε α) (s : σ) (a : α) (s' : σ) : Prop where
  result : (m s).result = .ok a
  state : (m s).state = s'
  log : ∀ event ∈ (m s).log, P event

/-- What ends at once and reports nothing. -/
theorem succeeds_of_eq {m : Journal σ ε α} {s s' : σ} {a : α} (h : m s = ⟨.ok a, s', []⟩) :
    Succeeds P m s a s' := by
  refine ⟨?_, ?_, ?_⟩
  · rw [h]
  · rw [h]
  · rw [h]
    exact List.forall_mem_nil _

/-- Only the outcome counts. -/
theorem Succeeds.of_eq {m m' : Journal σ ε α} {s s' t : σ} {a : α} (h : Succeeds P m' s' a t)
    (heq : m s = m' s') : Succeeds P m s a t := by
  obtain ⟨hresult, hstate, hlog⟩ := h
  rw [← heq] at hresult hstate hlog
  exact ⟨hresult, hstate, hlog⟩

/-- To give back a value succeeds in the state that there is, and reports nothing. -/
theorem succeeds_pure (a : α) (s : σ) : Succeeds P (pure a : Journal σ ε α) s a s :=
  succeeds_of_eq rfl

/-- A report succeeds if it is of the kind that is allowed. -/
theorem succeeds_note {event : Event} (h : P event) (s : σ) :
    Succeeds P (note event : Journal σ ε Unit) s () s :=
  ⟨rfl, rfl, List.forall_mem_singleton.mpr h⟩

/-- Two computations succeed one after the other, and both report only what is allowed. So a long
one is followed step by step, from each state to the next. -/
theorem Succeeds.bind {m : Journal σ ε α} {f : α → Journal σ ε β} {s s' s'' : σ} {a : α} {b : β}
    (hm : Succeeds P m s a s') (hf : Succeeds P (f a) s' b s'') : Succeeds P (m >>= f) s b s'' := by
  obtain ⟨hresult, hstate, hlog⟩ := hm
  rcases hms : m s with ⟨_ | a', later, log⟩
  · rw [hms] at hresult
    cases hresult
  · rw [hms] at hresult hstate hlog
    cases hresult
    obtain rfl : later = s' := hstate
    have hbind : (m >>= f) s = ⟨(f a later).result, (f a later).state, log ++ (f a later).log⟩ := by
      rw [bind_apply, hms]
    refine ⟨?_, ?_, ?_⟩
    · rw [hbind, hf.result]
    · rw [hbind, hf.state]
    · rw [hbind]
      exact List.forall_mem_append.mpr ⟨hlog, hf.log⟩

/-- What is made of the value succeeds with it. -/
theorem Succeeds.map {m : Journal σ ε α} {s s' : σ} {a : α} (f : α → β)
    (h : Succeeds P m s a s') : Succeeds P (f <$> m) s (f a) s' := by
  refine ⟨?_, ?_, ?_⟩
  · rw [map_apply, h.result]
    rfl
  · rw [map_apply, h.state]
  · rw [map_apply]
    exact h.log

end MustacheMarkup.Journal
