import MustacheMarkup.Journal

/-!
# What a computation yields while an invariant of its state holds

`Journal.Yields I m r` says that `m`, started in any state that satisfies `I`, ends with the result
`r` and leaves a state that satisfies `I`. So `r` depends on the state only through `I`, and the
rules below put such statements together along the way a computation is put together: one rule for
each way to build a `Journal`, success and failure alike.
-/

set_option autoImplicit false

namespace MustacheMarkup.Journal

variable {σ ε α β : Type} {I : σ → Prop}

/-- From every state that satisfies `I`, `m` ends with `r` and keeps `I`. -/
def Yields (I : σ → Prop) (m : Journal σ ε α) (r : Except ε α) : Prop :=
  ∀ s, I s → (m s).result = r ∧ I (m s).state

/-- From a state that is as it should be, the computation has its result. -/
theorem Yields.result {m : Journal σ ε α} {r : Except ε α} {s : σ} (h : Yields I m r) (hs : I s) :
    (m s).result = r :=
  (h s hs).1

/-- The state stays as it should be. -/
theorem Yields.state {m : Journal σ ε α} {r : Except ε α} {s : σ} (h : Yields I m r) (hs : I s) :
    I (m s).state :=
  (h s hs).2

/-- To give back a value yields it. -/
theorem yields_pure (a : α) : Yields I (pure a : Journal σ ε α) (.ok a) :=
  fun _ hs => ⟨rfl, hs⟩

/-- A failure yields its error. -/
theorem yields_fail (e : ε) : Yields I (fail e : Journal σ ε α) (.error e) :=
  fun _ hs => ⟨rfl, hs⟩

/-- A report yields nothing, and leaves the state. -/
theorem yields_note (e : Event) : Yields I (note e : Journal σ ε Unit) (.ok ()) :=
  fun _ hs => ⟨rfl, hs⟩

/-- A change of the state that keeps the invariant. -/
theorem yields_modify {f : σ → σ} (hf : ∀ s, I s → I (f s)) :
    Yields I (modify f : Journal σ ε Unit) (.ok ()) :=
  fun s hs => ⟨rfl, hf s hs⟩

/-- One computation after another: the second has to be right only for the value that the first
yields, and not at all if the first fails. -/
theorem Yields.bind {m : Journal σ ε α} {f : α → Journal σ ε β} {r : Except ε α}
    {g : α → Except ε β} (hm : Yields I m r) (hf : ∀ a, r = .ok a → Yields I (f a) (g a)) :
    Yields I (m >>= f) (r >>= g) := by
  intro s hs
  obtain ⟨hr, hI⟩ := hm s hs
  rw [bind_apply]
  rcases hms : m s with ⟨_ | a, s', log⟩
  · rw [hms] at hr hI
    subst hr
    exact ⟨rfl, hI⟩
  · rw [hms] at hr hI
    subst hr
    exact hf a rfl s' hI

/-- One computation after another, if the first succeeds. -/
theorem Yields.bind_ok {m : Journal σ ε α} {f : α → Journal σ ε β} {a : α} {r : Except ε β}
    (hm : Yields I m (.ok a)) (hf : Yields I (f a) r) : Yields I (m >>= f) r :=
  Yields.bind (g := fun _ => r) hm fun b hb => by
    cases hb
    exact hf

/-- What is made of a yield is yielded. -/
theorem Yields.map {m : Journal σ ε α} {r : Except ε α} (f : α → β) (hm : Yields I m r) :
    Yields I (f <$> m) (r.map f) := by
  intro s hs
  obtain ⟨hr, hI⟩ := hm s hs
  rw [map_apply]
  exact ⟨congrArg (Except.map f) hr, hI⟩

/-- A computation for each member of a list, if all of them succeed. -/
theorem yields_each {f : α → Journal σ ε β} {g : α → β} {l : List α}
    (h : ∀ a ∈ l, Yields I (f a) (.ok (g a))) : Yields I (each f l) (.ok (l.map g)) := by
  induction l with
  | nil => exact yields_pure []
  | cons a rest ih =>
    have hrest := ih fun b hb => h b (List.mem_cons_of_mem _ hb)
    exact (h a List.mem_cons_self).bind_ok (hrest.bind_ok (yields_pure _))

end MustacheMarkup.Journal
