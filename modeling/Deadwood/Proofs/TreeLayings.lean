import Deadwood.Proofs.TreeCopies

/-!
# Laying entries

Entries can be laid below a location one after the other if each has a place that holds nothing, in a directory. Entries in
order of their names, closed under parents, can be laid wherever nothing is in the way, and a copy of them succeeds.
-/

set_option autoImplicit false
namespace Deadwood.Files.Tree

open Deadwood.Text

variable {tree tree' : Tree} {base location place : Location} {rows : List (Location × Entry)}

/-! ## Making directories -/

theorem foldlM_eq_ok_of_fixed {α β ε : Type} {step : β → α → Except ε β} {state : β} {items : List α}
    (fixed : ∀ item ∈ items, step state item = .ok state) : items.foldlM step state = .ok state := by
  induction items with
  | nil => rfl
  | cons item rest ih =>
      obtain ⟨first, restFixed⟩ := List.forall_mem_cons.mp fixed
      rw [List.foldlM_cons, first]
      exact ih restFixed

theorem makeDirectories_of_room (wellFormed : tree.WellFormed) (vacant : tree.entry? location = none)
    (room : tree.isDirectory location.dropLast = true) :
    tree.makeDirectories location = .ok (tree.put location .directory) := by
  have someName : location ≠ [] := by
    rintro rfl
    cases vacant
  obtain ⟨parent, name, rfl⟩ := List.eq_nil_or_concat location |>.resolve_left someName
  rw [List.concat_eq_append] at vacant room ⊢
  rw [List.dropLast_concat, isDirectory_iff] at room
  have above : ∀ count ∈ List.range parent.length,
      tree.entry? ((parent ++ [name]).take (count + 1)) = some .directory := by
    intro count inside
    have inside := List.mem_range.mp inside
    rw [List.take_append_of_le_length inside]
    by_cases whole : parent.take (count + 1) = parent
    · rw [whole, room]
    · exact wellFormed.isDirectory_above room (List.take_prefix _ _) whole
  have last : (parent ++ [name]).take (parent.length + 1) = parent ++ [name] :=
    List.take_of_length_le (by simp)
  rw [makeDirectories_eq, List.length_append, List.length_singleton, foldlM_range_succ_eq_ok_iff]
  refine ⟨tree, foldlM_eq_ok_of_fixed fun count inside => ?_, ?_⟩
  · rw [makePassage, above count inside]
  · rw [makePassage, last, vacant]

theorem WellFormed.no_file_above (wellFormed : tree.WellFormed) (held : tree.entry? location = some .directory) :
    ∀ place, place <+: location → ∀ content, tree.entry? place ≠ some (.file content) := by
  intro place onWay content isFile
  by_cases here : place = location
  · rw [here, held] at isFile
    cases isFile
  · cases isFile.symm.trans (wellFormed.isDirectory_above held onWay here)

/-- Directories can be made unless a file is in the way. -/
theorem exists_makeDirectories (free : ∀ place, place <+: location → ∀ content, tree.entry? place ≠ some (.file content)) :
    ∃ tree', tree.makeDirectories location = .ok tree' := by
  suffices made : ∀ count ≤ location.length, ∃ later, (List.range count).foldlM (makePassage location) tree = .ok later ∧
      ∀ place, place <+: location → ∀ content, later.entry? place ≠ some (.file content) by
    obtain ⟨later, whole, _⟩ := made location.length (Nat.le_refl _)
    exact ⟨later, whole⟩
  intro count
  induction count with
  | zero => exact fun _ => ⟨tree, rfl, free⟩
  | succ count ih =>
      intro inside
      obtain ⟨middle, first, stillFree⟩ := ih (Nat.le_of_succ_le inside)
      simp only [foldlM_range_succ_eq_ok_iff]
      cases held : middle.entry? (location.take (count + 1)) with
      | none =>
          refine ⟨_, ⟨middle, first, by rw [makePassage, held]⟩, fun place onWay content => ?_⟩
          rw [entry?_put (by rintro atRoot; rw [atRoot] at held; cases held)]
          split
          · exact fun same => by cases same
          · exact stillFree place onWay content
      | some entry =>
          cases entry with
          | directory => exact ⟨middle, ⟨middle, first, by rw [makePassage, held]⟩, stillFree⟩
          | file content => exact absurd held (stillFree _ (List.take_prefix _ _) content)

/-! ## Laying -/

/-- Entries laid one after the other below a location, and the tree that comes of it. -/
inductive Laid (base : Location) : Tree → List (Location × Entry) → Tree → Prop
  | nil {tree : Tree} : Laid base tree [] tree
  | cons {tree tree' : Tree} {row : Location × Entry} {rest : List (Location × Entry)}
      (vacant : tree.entry? (base ++ row.1) = none) (room : tree.isDirectory (base ++ row.1).dropLast = true)
      (later : Laid base (tree.put (base ++ row.1) row.2) rest tree') : Laid base tree (row :: rest) tree'

theorem ne_nil_of_vacant (vacant : tree.entry? location = none) : location ≠ [] := by
  rintro rfl
  cases vacant

/-- Entries in order, each in a directory that is there or is laid with them, can be laid where nothing is. -/
theorem exists_laid (sorted : rows.Pairwise fun first second => rowNotAfter first second = true)
    (once : (rows.map Prod.fst).Nodup) (named : ∀ row ∈ rows, row.1 ≠ [])
    (vacant : ∀ row ∈ rows, tree.entry? (base ++ row.1) = none)
    (closed : ∀ row ∈ rows, tree.entry? (base ++ row.1.dropLast) = some .directory ∨
      (row.1.dropLast, Entry.directory) ∈ rows) : ∃ tree', Laid base tree rows tree' := by
  induction rows generalizing tree with
  | nil => exact ⟨tree, .nil⟩
  | cons row rest ih =>
      obtain ⟨notAfterRest, restSorted⟩ := List.pairwise_cons.mp sorted
      obtain ⟨fresh, restOnce⟩ := List.nodup_cons.mp once
      obtain ⟨someName, restNamed⟩ := List.forall_mem_cons.mp named
      obtain ⟨rowVacant, restVacant⟩ := List.forall_mem_cons.mp vacant
      obtain ⟨rowClosed, restClosed⟩ := List.forall_mem_cons.mp closed
      have placeNamed := ne_nil_of_vacant rowVacant
      -- the parent of the first entry comes before it, so it is there already
      have parent : tree.entry? (base ++ row.1.dropLast) = some .directory := by
        refine rowClosed.resolve_right fun listed => ?_
        have same : row.1.dropLast = row.1 := by
          rcases List.mem_cons.mp listed with isRow | inRest
          · exact congrArg Prod.fst isRow
          · obtain ⟨last, whole⟩ := List.dropLast_prefix row.1
            have before := notAfter_append row.1.dropLast last
            rw [whole] at before
            exact notAfter_antisymm before (notAfterRest _ inRest)
        exact dropLast_ne someName same
      have differs : ∀ other ∈ rest, base ++ other.1 ≠ base ++ row.1 := by
        intro other inRest same
        rw [← List.append_cancel_left same] at fresh
        exact fresh (List.mem_map_of_mem inRest)
      have laterVacant : ∀ other ∈ rest, Tree.entry? (tree.put (base ++ row.1) row.2) (base ++ other.1) = none := by
        intro other inRest
        rw [entry?_put placeNamed, if_neg (differs other inRest)]
        exact restVacant other inRest
      obtain ⟨tree', later⟩ := ih restSorted restOnce restNamed laterVacant fun other inRest => by
        rw [entry?_put placeNamed]
        rcases restClosed other inRest with there | listed
        · refine Or.inl ?_
          rw [if_neg, there]
          rintro here
          rw [here, rowVacant] at there
          cases there
        · rcases List.mem_cons.mp listed with isRow | inRest
          · rw [if_pos (by rw [← isRow]), ← isRow]
            exact Or.inl rfl
          · exact Or.inr inRest
      refine ⟨tree', .cons rowVacant ?_ later⟩
      rwa [List.dropLast_append_of_ne_nil someName, isDirectory_iff]

theorem Laid.copyInto (laid : Laid base tree rows tree') (wellFormed : tree.WellFormed)
    (noParent : ∀ row ∈ rows, ".." ∉ base ++ row.1) : tree.copyInto base rows = .ok tree' := by
  induction laid with
  | nil => rfl
  | @cons tree tree' row rest vacant room later ih =>
      obtain ⟨rowNoParent, restNoParent⟩ := List.forall_mem_cons.mp noParent
      have first : tree.copyOne base row = .ok (tree.put (base ++ row.1) row.2) := by
        obtain ⟨relative, entry⟩ := row
        cases entry with
        | directory => exact makeDirectories_of_room wellFormed vacant room
        | file content =>
            have written : tree.write (base ++ relative) content = .ok (tree.put (base ++ relative) (.file content)) := by
              rw [write, vacant, Tree.room, if_pos room]
              rfl
            exact written
      have whole : (tree.put (base ++ row.1) row.2).WellFormed :=
        wellFormed.put (ne_nil_of_vacant vacant) rowNoParent room fun held => by cases vacant.symm.trans held
      rw [copyInto_eq, List.foldlM_cons, first]
      exact ih whole restNoParent

end Deadwood.Files.Tree
