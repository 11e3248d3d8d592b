/-!
# Tables

A table is a list of rows of which each has a key. Putting a row replaces the row of the same key where it
stands, or adds it at the end, so rows keep the order in which their keys first came.
-/

set_option autoImplicit false
namespace Deadwood.Keyed

variable {α : Type}

def put (key : α → String) (row : α) : List α → List α
  | [] => [row]
  | first :: rest => if key first = key row then row :: rest else first :: put key row rest

def find? (key : α → String) (wanted : String) (table : List α) : Option α :=
  table.find? fun row => key row = wanted

theorem find?_put_self (key : α → String) (row : α) (table : List α) :
    find? key (key row) (put key row table) = some row := by
  induction table with
  | nil => simp [put, find?]
  | cons first rest inductionHypothesis =>
      by_cases sameKey : key first = key row
      · simp [put, find?, sameKey]
      · simpa [put, find?, sameKey] using inductionHypothesis

theorem find?_put_of_ne (key : α → String) (row : α) (table : List α) (wanted : String)
    (differs : wanted ≠ key row) : find? key wanted (put key row table) = find? key wanted table := by
  induction table with
  | nil => simp [put, find?, Ne.symm differs]
  | cons first rest inductionHypothesis =>
      by_cases sameKey : key first = key row
      · simp [put, find?, sameKey, Ne.symm differs]
      · by_cases hit : key first = wanted
        · subst hit
          simp [put, find?, sameKey]
        · simpa [put, find?, sameKey, hit] using inductionHypothesis

theorem mem_put {key : α → String} {row other : α} {table : List α} (member : other ∈ put key row table) :
    other = row ∨ other ∈ table := by
  induction table with
  | nil => exact Or.inl (List.mem_singleton.mp member)
  | cons first rest inductionHypothesis =>
      unfold put at member
      split at member
      · exact (List.mem_cons.mp member).imp_right (List.mem_cons_of_mem first)
      · rcases List.mem_cons.mp member with rfl | later
        · exact Or.inr List.mem_cons_self
        · exact (inductionHypothesis later).imp_right (List.mem_cons_of_mem first)

theorem key_of_find? {key : α → String} {wanted : String} {table : List α} {row : α}
    (found : find? key wanted table = some row) : key row = wanted := by
  simpa using List.find?_some found

/-- A row is found at the keys of the table. -/
theorem isSome_find? {key : α → String} {wanted : String} {table : List α} :
    (find? key wanted table).isSome ↔ wanted ∈ table.map key := by
  simp [find?]

theorem isSome_find?_put {key : α → String} {row : α} {table : List α} {wanted : String} :
    (find? key wanted (put key row table)).isSome ↔ (find? key wanted table).isSome ∨ key row = wanted := by
  by_cases same : key row = wanted
  · subst same
    simp [find?_put_self]
  · simp [find?_put_of_ne key row table wanted (Ne.symm same), same]

theorem map_key_put {key : α → String} {row : α} {table : List α} :
    (put key row table).map key =
      if key row ∈ table.map key then table.map key else table.map key ++ [key row] := by
  induction table with
  | nil => rfl
  | cons first rest ih =>
      unfold put
      by_cases here : key first = key row
      · simp [here]
      · rw [if_neg here, List.map_cons, ih, List.map_cons]
        by_cases later : key row ∈ rest.map key
        · rw [if_pos later, if_pos (List.mem_cons_of_mem _ later)]
        · rw [if_neg later, if_neg (by simpa [Ne.symm here] using later)]
          rfl

theorem nodup_map_key_put {key : α → String} {row : α} {table : List α} (once : (table.map key).Nodup) :
    ((put key row table).map key).Nodup := by
  rw [map_key_put]
  split
  case isTrue => exact once
  case isFalse fresh =>
    refine List.nodup_append.mpr ⟨once, List.pairwise_singleton _ _, fun old member new listed same => ?_⟩
    rw [List.mem_singleton.mp listed] at same
    exact fresh (same ▸ member)

/-- A row of a new key comes at the end. -/
theorem put_of_fresh {key : α → String} {row : α} {table : List α} (fresh : key row ∉ table.map key) :
    put key row table = table ++ [row] := by
  induction table with
  | nil => rfl
  | cons first rest ih =>
      rw [List.map_cons, List.mem_cons, not_or] at fresh
      rw [put, if_neg (Ne.symm fresh.1), ih fresh.2, List.cons_append]

end Deadwood.Keyed
