/-!
# JSON values

Numbers keep the difference between integers and floating-point numbers, because it can be seen when
they are written. The members of an object stand in the order in which their keys first came.
-/

set_option autoImplicit false

namespace MustacheMarkup

/-- A JSON value. -/
inductive Json where
  | null
  | bool (b : Bool)
  /-- a number without fraction and exponent -/
  | integer (n : Int)
  /-- any other number -/
  | real (x : Float)
  | string (s : String)
  | array (items : List Json)
  | object (members : List (String × Json))
deriving Inhabited

namespace Json

/-- Give a key a value. A new key goes to the end; a key that is there stays where it is. -/
def put {α : Type} (members : List (String × α)) (key : String) (value : α) :
    List (String × α) :=
  match members with
  | [] => [(key, value)]
  | (k, v) :: rest => if k = key then (k, value) :: rest else (k, v) :: put rest key value

/-- The members that come from pairs in order. The last value of a key counts. -/
def ofPairs {α : Type} (pairs : List (String × α)) : List (String × α) :=
  pairs.foldl (fun members p => put members p.1 p.2) []

/-- The keys after giving one a value. -/
theorem map_fst_put {α : Type} (members : List (String × α)) (key : String) (value : α) :
    (put members key value).map Prod.fst =
      if key ∈ members.map Prod.fst then members.map Prod.fst
      else members.map Prod.fst ++ [key] := by
  induction members with
  | nil => simp [put]
  | cons m rest ih =>
    obtain ⟨k, v⟩ := m
    by_cases hk : k = key
    · simp [put, hk]
    · have hk' : key ≠ k := fun h => hk h.symm
      simp only [put, hk, if_false, List.map_cons, ih, List.mem_cons, hk', false_or]
      split <;> simp

/-- The value of a key after giving one a value. -/
theorem lookup_put {α : Type} (members : List (String × α)) (key other : String) (value : α) :
    (put members key value).lookup other =
      if other = key then some value else members.lookup other := by
  induction members with
  | nil =>
    by_cases h : other = key
    · simp [put, h]
    · simp [put, List.lookup_cons, beq_eq_false_iff_ne.mpr h, h]
  | cons m rest ih =>
    obtain ⟨k, v⟩ := m
    by_cases hk : k = key
    · subst hk
      by_cases h : other = k
      · simp [put, h]
      · simp [put, List.lookup_cons, beq_eq_false_iff_ne.mpr h, h]
    · by_cases h : other = k
      · subst h
        simp [put, hk]
      · simp [put, hk, List.lookup_cons, beq_eq_false_iff_ne.mpr h, ih]

end Json

end MustacheMarkup
