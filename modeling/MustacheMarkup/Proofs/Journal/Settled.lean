import MustacheMarkup.Proofs.Journal.Yields

/-!
# Computations that are settled in advance

A family of computations is settled if all of them end the same way from every state and leave that
state as it was. What they end with is not named: `Journal.Settled Q m` says only that it has the
property `Q` if it is a value. Such a family stays settled under everything that puts computations
together.
-/

set_option autoImplicit false

namespace MustacheMarkup.Journal

variable {ι σ ε α β : Type}

/-- All members of a family end the same way, with a value that satisfies `Q` or with an error, and
leave the state as it was. -/
def Settled (Q : α → Prop) (m : ι → Journal σ ε α) : Prop :=
  ∃ r : Except ε α, (∀ a, r = .ok a → Q a) ∧ ∀ i s, Yields (· = s) (m i) r

/-- What gives the same value in all runs, without a change of the state, is settled. -/
theorem settled_of_yields {Q : α → Prop} {m : ι → Journal σ ε α} {a : α} (h : Q a)
    (hm : ∀ i s, Yields (· = s) (m i) (.ok a)) : Settled Q m := by
  refine ⟨.ok a, fun b hb => ?_, hm⟩
  cases hb
  exact h

/-- To give back a value that does not depend on the run is settled. -/
theorem settled_pure {Q : α → Prop} {a : α} (h : Q a) :
    Settled Q fun _ : ι => (pure a : Journal σ ε α) :=
  settled_of_yields h fun _ _ => yields_pure a

/-- A failure that does not depend on the run is settled. -/
theorem settled_fail (Q : α → Prop) (e : ε) :
    Settled Q fun _ : ι => (fail e : Journal σ ε α) := by
  refine ⟨.error e, ?_, fun _ _ => yields_fail e⟩
  intro a h
  cases h

/-- A report does not depend on the run. -/
theorem settled_note (e : Event) :
    Settled (fun _ => True) fun _ : ι => (note e : Journal σ ε Unit) :=
  settled_of_yields trivial fun _ _ => yields_note e

/-- What is settled comes to one value, so the second computation has to be settled for that value
only. -/
theorem Settled.bind {P : α → Prop} {Q : β → Prop} {m : ι → Journal σ ε α}
    {f : ι → α → Journal σ ε β} (hm : Settled P m)
    (hf : ∀ a, P a → Settled Q fun i => f i a) : Settled Q fun i => m i >>= f i := by
  obtain ⟨r, hP, hm⟩ := hm
  cases r with
  | error e =>
    refine ⟨.error e, ?_, fun i s => ?_⟩
    · intro b h
      cases h
    · exact (hm i s).bind (g := fun _ => .error e) fun a ha => by cases ha
  | ok a =>
    obtain ⟨r, hQ, hf⟩ := hf a (hP a rfl)
    exact ⟨r, hQ, fun i s => (hm i s).bind_ok (hf i s)⟩

/-- To make something of a settled value is settled. -/
theorem Settled.map {P : α → Prop} {Q : β → Prop} {m : ι → Journal σ ε α} {f : α → β}
    (hm : Settled P m) (hf : ∀ a, P a → Q (f a)) : Settled Q fun i => f <$> m i := by
  have hbind : (fun i => f <$> m i) = fun i => m i >>= fun a => pure (f a) :=
    funext fun i => map_eq_pure_bind f (m i)
  rw [hbind]
  exact hm.bind fun a ha => settled_pure (hf a ha)

/-- Steps for the members of a list are settled if each one is. -/
theorem settled_each {Q : β → Prop} {f : ι → α → Journal σ ε β} {l : List α}
    (h : ∀ a ∈ l, Settled Q fun i => f i a) :
    Settled (fun bs => ∀ b ∈ bs, Q b) fun i => each (f i) l := by
  induction l with
  | nil => exact settled_pure (List.forall_mem_nil _)
  | cons a rest ih =>
    refine (h a List.mem_cons_self).bind fun b hb => ?_
    refine (ih fun a' ha' => h a' (List.mem_cons_of_mem _ ha')).bind fun bs hbs => ?_
    exact settled_pure (List.forall_mem_cons.mpr ⟨hb, hbs⟩)

/-- A step for a value that may be missing is settled if it is for the value. -/
theorem settled_whenSome {Q : β → Prop} {f : ι → α → Journal σ ε β} {o : Option α}
    (h : ∀ a ∈ o, Settled Q fun i => f i a) :
    Settled (fun b => ∀ b' ∈ b, Q b') fun i => whenSome (f i) o := by
  cases o with
  | none => exact settled_pure fun b hb => by cases hb
  | some a =>
    refine (h a rfl).map fun b hb => ?_
    intro b' hb'
    cases hb'
    exact hb

end MustacheMarkup.Journal
