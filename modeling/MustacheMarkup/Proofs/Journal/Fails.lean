import MustacheMarkup.Journal

/-!
# What a computation fails with

`Journal.FailsWith o m` says that `m` fails with the error `o`, or succeeds if `o` is none, from
every state. Of computations one after another the first that fails decides, so the error of what is
put together is the first of those of its parts. What a success ends with does not count.
-/

set_option autoImplicit false

namespace MustacheMarkup.Journal

variable {σ ε α β : Type}

/-- The error of a result that is one. -/
def error? : Except ε α → Option ε
  | .error e => some e
  | .ok _ => none

/-- An outcome has an error exactly if it is one. -/
theorem error?_eq_some_iff {r : Except ε α} {e : ε} : error? r = some e ↔ r = .error e := by
  cases r with
  | error e' => simp [error?]
  | ok a => simp [error?]

/-- To change the value of an outcome leaves its error. -/
theorem error?_map (f : α → β) (r : Except ε α) : error? (r.map f) = error? r := by
  cases r <;> rfl

/-- From every state, `m` fails with this error, or succeeds if there is none. -/
def FailsWith (o : Option ε) (m : Journal σ ε α) : Prop :=
  ∀ s, error? (m s).result = o

/-- A value that is given back is no failure. -/
theorem failsWith_pure (a : α) : FailsWith none (pure a : Journal σ ε α) :=
  fun _ => rfl

/-- A failure fails with its own error. -/
theorem failsWith_fail (e : ε) : FailsWith (some e) (fail e : Journal σ ε α) :=
  fun _ => rfl

/-- A report is no failure. -/
theorem failsWith_note (e : Event) : FailsWith none (note e : Journal σ ε Unit) :=
  fun _ => rfl

/-- The first of two computations decides, unless it succeeds. The second one is only asked for
values that the first can end with. -/
theorem FailsWith.bind_of_ok {m : Journal σ ε α} {f : α → Journal σ ε β} {o o' : Option ε}
    (hm : FailsWith o m) (hf : ∀ s a, (m s).result = .ok a → FailsWith o' (f a)) :
    FailsWith (o.or o') (m >>= f) := by
  intro s
  have hs := hm s
  rw [bind_apply]
  rcases hresult : m s with ⟨e | a, s', log⟩
  · rw [hresult] at hs
    rw [← hs]
    rfl
  · rw [hresult] at hs
    obtain rfl : none = o := hs
    exact hf s a (by rw [hresult]) s'

/-- The error of two computations is that of the first, or else that of the second. Each of them has
to fail in one way only, whatever it starts from. -/
theorem FailsWith.bind {m : Journal σ ε α} {f : α → Journal σ ε β} {o o' : Option ε}
    (hm : FailsWith o m) (hf : ∀ a, FailsWith o' (f a)) : FailsWith (o.or o') (m >>= f) :=
  hm.bind_of_ok fun _ a _ => hf a

/-- What comes before does not count if it cannot fail. -/
theorem FailsWith.none_bind {m : Journal σ ε α} {f : α → Journal σ ε β} {o : Option ε}
    (hm : FailsWith none m) (hf : ∀ a, FailsWith o (f a)) : FailsWith o (m >>= f) :=
  hm.bind hf

/-- What comes behind does not count if it cannot fail. -/
theorem FailsWith.bind_none {m : Journal σ ε α} {f : α → Journal σ ε β} {o : Option ε}
    (hm : FailsWith o m) (hf : ∀ a, FailsWith none (f a)) : FailsWith o (m >>= f) := by
  have h := hm.bind hf
  rwa [Option.or_none] at h

/-- What is made of the value cannot fail. -/
theorem FailsWith.map {m : Journal σ ε α} {o : Option ε} (hm : FailsWith o m) (f : α → β) :
    FailsWith o (f <$> m) := by
  intro s
  rw [map_apply, error?_map]
  exact hm s

/-- The first error in a list is that of its first member, or else the first in the rest. -/
theorem findSome?_cons_eq_or (f : α → Option ε) (a : α) (rest : List α) :
    (a :: rest).findSome? f = (f a).or (rest.findSome? f) := by
  rw [List.findSome?_cons]
  cases f a <;> rfl

/-- The first member of a list whose computation fails decides. -/
theorem failsWith_each {f : α → Journal σ ε β} {error : α → Option ε} {l : List α}
    (h : ∀ a ∈ l, FailsWith (error a) (f a)) : FailsWith (l.findSome? error) (each f l) := by
  induction l with
  | nil => exact failsWith_pure []
  | cons a rest ih =>
    have hrest := ih fun b hb => h b (List.mem_cons_of_mem _ hb)
    rw [findSome?_cons_eq_or]
    refine (h a List.mem_cons_self).bind fun b => ?_
    exact hrest.bind_none fun bs => failsWith_pure (b :: bs)

/-- If the computation fails for no member, it does not fail for the list. -/
theorem failsWith_each_none {f : α → Journal σ ε β} {l : List α}
    (h : ∀ a ∈ l, FailsWith none (f a)) : FailsWith none (each f l) := by
  have heach : FailsWith (l.findSome? fun _ => none) (each f l) := failsWith_each h
  rwa [List.findSome?_eq_none_iff.mpr fun _ _ => rfl] at heach

/-- A value that is missing causes no failure. -/
theorem failsWith_whenSome {f : α → Journal σ ε β} {error : α → Option ε} {o : Option α}
    (h : ∀ a ∈ o, FailsWith (error a) (f a)) : FailsWith (o.bind error) (whenSome f o) := by
  cases o with
  | none => exact failsWith_pure none
  | some a => exact (h a rfl).map some

end MustacheMarkup.Journal
