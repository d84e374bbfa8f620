import MustacheMarkup.Item.Basic
import MustacheMarkup.Journal

/-!
# Computations that give out identities

A computation that builds elements has a counter somewhere in its state, from which each element
gets its index. `Journal.Counts` follows the identities that have been given out so far: those
before a computation, and those in what it ends with, which are the earlier ones and then one for
each step of the counter, in order. It is put together along the way the computation is, like a
precondition and a postcondition. A failure gives out nothing, but it does not count back.
-/

set_option autoImplicit false

namespace MustacheMarkup

/-- The identities that a run gives out from one index up to another. -/
def idsBetween (run index later : Nat) : List NodeId :=
  (List.range' index (later - index)).map (NodeId.mk run)

/-- Between an index and itself there is no identity. -/
@[simp]
theorem idsBetween_self (run index : Nat) : idsBetween run index index = [] := by
  simp [idsBetween]

/-- To count one element is to give one identity. -/
theorem idsBetween_succ (run index : Nat) : idsBetween run index (index + 1) = [⟨run, index⟩] := by
  have hone : index + 1 - index = 1 := by omega
  rw [idsBetween, hone]
  rfl

/-- As many identities are given as the index moves on. -/
theorem length_idsBetween (run index later : Nat) :
    (idsBetween run index later).length = later - index := by
  simp [idsBetween]

/-- Identities that are given one after the other are given together. -/
theorem idsBetween_append (run : Nat) {index middle later : Nat} (h : index ≤ middle)
    (h' : middle ≤ later) :
    idsBetween run index middle ++ idsBetween run middle later = idsBetween run index later := by
  have hmiddle : index + (middle - index) = middle := by omega
  have hlength : middle - index + (later - middle) = later - index := by omega
  have hrange := List.range'_append_1 (s := index) (m := middle - index) (n := later - middle)
  rw [hmiddle, hlength] at hrange
  rw [idsBetween, idsBetween, idsBetween, ← List.map_append, hrange]

/-- All identities of one run carry its number. -/
theorem run_of_mem_idsBetween {run index later : Nat} {id : NodeId}
    (h : id ∈ idsBetween run index later) : id.run = run := by
  obtain ⟨i, -, rfl⟩ := List.mem_map.mp h
  rfl

/-- No identity is given twice in one run. -/
theorem nodup_idsBetween (run index later : Nat) : (idsBetween run index later).Nodup := by
  refine List.Pairwise.map _ ?_ (List.nodup_range' (s := index) (n := later - index))
  intro i j hne heq
  exact hne (NodeId.mk.inj heq).2

namespace Journal

variable {σ ε α β : Type} {run : Nat} {index : σ → Nat}

/-- `m` does not count back. If it ends with a value, the identities in that are those given out
before and one more for each step of the counter. -/
def Counts (run : Nat) (index : σ → Nat) (before : List NodeId) (m : Journal σ ε α)
    (ids : α → List NodeId) : Prop :=
  ∀ s, index s ≤ index (m s).state ∧ ∀ a, (m s).result = .ok a →
    ids a = before ++ idsBetween run (index s) (index (m s).state)

/-- What starts with nothing given has exactly the identities that were given meanwhile. -/
theorem Counts.ids_eq {m : Journal σ ε α} {ids : α → List NodeId} (h : Counts run index [] m ids)
    {s : σ} {a : α} (ha : (m s).result = .ok a) :
    ids a = idsBetween run (index s) (index (m s).state) :=
  (h s).2 a ha

/-- As many identities are given out as the counter makes steps. -/
theorem Counts.index_eq {m : Journal σ ε α} {ids : α → List NodeId}
    (h : Counts run index [] m ids) {s : σ} {a : α} (ha : (m s).result = .ok a) :
    index (m s).state = index s + (ids a).length := by
  have hle := (h s).1
  rw [h.ids_eq ha, length_idsBetween]
  omega

/-- What leaves the counter as it was gives out nothing. -/
theorem counts_of_index_eq {m : Journal σ ε α} {before : List NodeId} {ids : α → List NodeId}
    (hindex : ∀ s, index (m s).state = index s) (hids : ∀ s a, (m s).result = .ok a →
      ids a = before) : Counts run index before m ids := by
  intro s
  refine ⟨Nat.le_of_eq (hindex s).symm, fun a ha => ?_⟩
  rw [hids s a ha, hindex, idsBetween_self, List.append_nil]

/-- What gives no identity has those that were there before. -/
theorem counts_pure {a : α} {before : List NodeId} {ids : α → List NodeId} (h : ids a = before) :
    Counts run index before (pure a : Journal σ ε α) ids := by
  refine counts_of_index_eq (fun _ => rfl) fun s b hb => ?_
  cases hb
  exact h

/-- A failure has no value, and so no identities to account for. -/
theorem counts_fail (e : ε) (before : List NodeId) (ids : α → List NodeId) :
    Counts run index before (fail e : Journal σ ε α) ids :=
  counts_of_index_eq (fun _ => rfl) fun s a ha => by cases ha

/-- A report gives no identity. -/
theorem counts_note (e : Event) (before : List NodeId) :
    Counts run index before (note e : Journal σ ε Unit) fun _ => before :=
  counts_of_index_eq (fun _ => rfl) fun _ _ _ => rfl

/-- Where the second computation counts on from the identities of the first, the two together count
on from those before. -/
theorem Counts.bind {m : Journal σ ε α} {f : α → Journal σ ε β} {before : List NodeId}
    {ids : α → List NodeId} {ids' : β → List NodeId} (hm : Counts run index before m ids)
    (hf : ∀ a, Counts run index (ids a) (f a) ids') : Counts run index before (m >>= f) ids' := by
  intro s
  obtain ⟨hle, hids⟩ := hm s
  rw [bind_apply]
  rcases hs : m s with ⟨_ | a, s', log⟩
  · rw [hs] at hle
    exact ⟨hle, fun b hb => by cases hb⟩
  · rw [hs] at hle hids
    obtain ⟨hle', hids'⟩ := hf a s'
    refine ⟨Nat.le_trans hle hle', fun b hb => ?_⟩
    rw [hids' b hb, hids a rfl, List.append_assoc, idsBetween_append run hle hle']

/-- Nothing that was given out before is given out again. -/
theorem Counts.frame {m : Journal σ ε α} {ids : α → List NodeId} (h : Counts run index [] m ids)
    (before : List NodeId) : Counts run index before m fun a => before ++ ids a := by
  intro s
  obtain ⟨hle, hids⟩ := h s
  refine ⟨hle, fun a ha => ?_⟩
  show before ++ ids a = _
  rw [hids a ha, List.nil_append]

/-- To put a value into another one keeps its identities. -/
theorem Counts.map {m : Journal σ ε α} {before : List NodeId} {ids : α → List NodeId}
    {ids' : β → List NodeId} (h : Counts run index before m ids) {f : α → β}
    (hf : ∀ a, ids' (f a) = ids a) : Counts run index before (f <$> m) ids' := by
  rw [map_eq_pure_bind]
  exact h.bind fun a => counts_pure (hf a)

/-- What each member is made to, one after the other, has identities in this order. -/
theorem counts_each {f : α → Journal σ ε β} {ids : β → List NodeId}
    (h : ∀ a, Counts run index [] (f a) ids) (l : List α) :
    Counts run index [] (each f l) fun bs => bs.flatMap ids := by
  induction l with
  | nil => exact counts_pure rfl
  | cons a rest ih =>
    refine (h a).bind fun b => (ih.frame (ids b)).bind fun bs => ?_
    exact counts_pure List.flatMap_cons

/-- A value that may be missing has the identities of what it is made to, or none. -/
theorem counts_whenSome {f : α → Journal σ ε β} {ids : β → List NodeId}
    (h : ∀ a, Counts run index [] (f a) ids) (o : Option α) :
    Counts run index [] (whenSome f o) fun b => b.toList.flatMap ids := by
  cases o with
  | none => exact counts_pure rfl
  | some a => exact (h a).map fun b => List.flatMap_singleton ids b

end Journal

end MustacheMarkup
