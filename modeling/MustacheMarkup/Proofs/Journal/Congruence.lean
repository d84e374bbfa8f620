import MustacheMarkup.Journal

/-!
# Replacing a part of a computation

A part of a computation may be replaced by one that does the same where it is used. For one
computation after another that is at the states and values that the first one really leaves; for a
list it is at the members of the list.
-/

set_option autoImplicit false

namespace MustacheMarkup.Journal

variable {σ ε α β : Type}

/-- The second of two computations matters only for what the first one ends with. -/
theorem bind_congr_at {m : Journal σ ε α} {f g : α → Journal σ ε β} {s : σ}
    (h : ∀ a, (m s).result = .ok a → f a (m s).state = g a (m s).state) :
    (m >>= f) s = (m >>= g) s := by
  rw [bind_apply, bind_apply]
  rcases hm : m s with ⟨_ | a, s', log⟩
  · rfl
  · rw [hm] at h
    simp only [h a rfl]

/-- The first of two computations matters only where it is started. -/
theorem bind_congr_left {m m' : Journal σ ε α} {f : α → Journal σ ε β} {s : σ} (h : m s = m' s) :
    (m >>= f) s = (m' >>= f) s := by
  rw [bind_apply, bind_apply, h]

/-- What follows a check may be rewritten knowing that the check was passed. -/
theorem ofExcept_bind_congr {r : Except ε α} {f g : α → Journal σ ε β}
    (h : ∀ a, r = .ok a → f a = g a) : (ofExcept r >>= f) = (ofExcept r >>= g) :=
  funext fun s => bind_congr_at fun a ha => congrFun (h a ha) s

/-- Steps for the members of a list may be rewritten knowing that they are members. -/
theorem each_congr {f g : α → Journal σ ε β} {l : List α} (h : ∀ a ∈ l, f a = g a) :
    each f l = each g l := by
  induction l with
  | nil => rfl
  | cons a rest ih =>
    rw [each, each, h a List.mem_cons_self, ih fun b hb => h b (List.mem_cons_of_mem _ hb)]

/-- A step for a value that may be missing may be rewritten knowing which value it is. -/
theorem whenSome_congr {f g : α → Journal σ ε β} {o : Option α} (h : ∀ a ∈ o, f a = g a) :
    whenSome f o = whenSome g o := by
  cases o with
  | none => rfl
  | some a => rw [whenSome, whenSome, h a rfl]

end MustacheMarkup.Journal
