import MustacheMarkup.Event

/-!
# Computations that keep a journal

A `Journal σ ε α` works on a state of type `σ`, reports events, and ends with a value of type `α` or
fails with an `ε`. State and events survive a failure: what was done before it stays done.
-/

set_option autoImplicit false

namespace MustacheMarkup

/-- What a computation ends with. -/
structure Outcome (σ ε α : Type) where
  result : Except ε α
  state : σ
  log : List Event

/-- A computation on a state that reports events and may fail. -/
def Journal (σ ε α : Type) : Type :=
  σ → Outcome σ ε α

namespace Journal

variable {σ ε α β : Type}

/-- End with a value at once. -/
protected def pure (a : α) : Journal σ ε α :=
  fun s => ⟨.ok a, s, []⟩

/-- One computation after another. A failure of the first is the end. -/
protected def bind (m : Journal σ ε α) (f : α → Journal σ ε β) : Journal σ ε β :=
  fun s =>
    match m s with
    | ⟨.error e, s, log⟩ => ⟨.error e, s, log⟩
    | ⟨.ok a, s, log⟩ =>
      let o := f a s
      ⟨o.result, o.state, log ++ o.log⟩

/-- The second computation goes on from the state that the first leaves, and its log stands behind
that of the first. After a failure nothing goes on. -/
instance : Monad (Journal σ ε) where
  pure := Journal.pure
  bind := Journal.bind

/-- To give back a value leaves the state as it is and reports nothing. -/
theorem pure_apply (a : α) (s : σ) : (pure a : Journal σ ε α) s = ⟨.ok a, s, []⟩ := rfl

/-- What one computation after another does, by what the first one does. Later proofs take sequences
apart with this and do not look at the instance. -/
theorem bind_apply (m : Journal σ ε α) (f : α → Journal σ ε β) (s : σ) :
    (m >>= f) s =
      match m s with
      | ⟨.error e, s, log⟩ => ⟨.error e, s, log⟩
      | ⟨.ok a, s, log⟩ => ⟨(f a s).result, (f a s).state, log ++ (f a s).log⟩ := rfl

/-- To apply a function to the result leaves the state and the log alone. -/
theorem map_apply (f : α → β) (m : Journal σ ε α) (s : σ) :
    (f <$> m) s = ⟨(m s).result.map f, (m s).state, (m s).log⟩ := by
  change (m >>= fun a => pure (f a)) s = _
  rw [bind_apply]
  rcases m s with ⟨_ | a, s', log⟩
  · rfl
  · simp [pure_apply, Except.map]

/-- Sequences of computations can be regrouped, so that a proof may put the first steps of one
together. -/
instance : LawfulMonad (Journal σ ε) :=
  LawfulMonad.mk' (Journal σ ε)
    (fun m => funext fun s => by
      rw [map_apply]
      rcases m s with ⟨_ | _, _, _⟩ <;> rfl)
    (fun _ _ => rfl)
    (fun m f g => funext fun s => by
      simp only [bind_apply]
      rcases m s with ⟨_ | a, s', log⟩
      · rfl
      · dsimp only
        rcases f a s' with ⟨_ | b, s'', log'⟩
        · rfl
        · simp [List.append_assoc])

/-- Fail. -/
def fail (e : ε) : Journal σ ε α :=
  fun s => ⟨.error e, s, []⟩

/-- Report an event. -/
def note (e : Event) : Journal σ ε Unit :=
  fun s => ⟨.ok (), s, [e]⟩

/-- The state. -/
def get : Journal σ ε σ :=
  fun s => ⟨.ok s, s, []⟩

/-- Change the state. -/
def modify (f : σ → σ) : Journal σ ε Unit :=
  fun s => ⟨.ok (), f s, []⟩

/-- The outcome of something that neither has a state nor reports events. -/
def ofExcept (r : Except ε α) : Journal σ ε α :=
  fun s => ⟨r, s, []⟩

/-- Do a computation on a part of the state. -/
def focus {τ : Type} (part : σ → τ) (put : τ → σ → σ) (m : Journal τ ε α) : Journal σ ε α :=
  fun s =>
    let o := m (part s)
    ⟨o.result, put o.state s, o.log⟩

/-- Do a computation for each member of a list, in order. -/
def each (f : α → Journal σ ε β) : List α → Journal σ ε (List β)
  | [] => pure []
  | a :: rest => do
    let b ← f a
    let bs ← each f rest
    return b :: bs

/-- Do a computation for a value if there is one. -/
def whenSome (f : α → Journal σ ε β) : Option α → Journal σ ε (Option β)
  | none => pure none
  | some a => some <$> f a

end Journal

end MustacheMarkup
