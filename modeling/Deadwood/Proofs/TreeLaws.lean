import Mathlib.Data.List.Induction
import Deadwood.Files.Tree

/-!
# Laws of file trees

What a location holds after an entry is put or a location is taken away, and which trees are well formed: each location is
listed once, no name leads to a parent, and each entry stands in a directory. Every operation keeps a tree well formed.
-/

set_option autoImplicit false
namespace Deadwood.Files.Tree

open Deadwood.Text

variable {tree : Tree} {location place : Location} {entry : Entry}

/-! ## Looking after a change -/

theorem entry?_of_ne_nil (someName : place ≠ []) : tree.entry? place = tree.rows.lookup place := by
  unfold entry?
  rw [if_neg (by simpa using someName)]

theorem lookup_cons_of_ne {rows : List (Location × Entry)} {row : Location × Entry} (differs : place ≠ row.1) :
    (row :: rows).lookup place = rows.lookup place := by
  rw [List.lookup_cons, beq_false_of_ne differs]

theorem lookup_putRow (rows : List (Location × Entry)) :
    (put.putRow location entry rows).lookup place = if place = location then some entry else rows.lookup place := by
  induction rows with
  | nil =>
      unfold put.putRow
      split
      · rename_i same
        rw [same, List.lookup_cons_self]
      · rename_i differs
        exact lookup_cons_of_ne differs
  | cons row rest ih =>
      unfold put.putRow
      split
      · rename_i same
        split
        · rename_i here
          rw [here, List.lookup_cons_self]
        · rename_i elsewhere
          rw [lookup_cons_of_ne elsewhere, lookup_cons_of_ne (same ▸ elsewhere)]
      · rename_i differs
        by_cases here : place = row.1
        · rw [if_neg (here ▸ differs), List.lookup_cons, List.lookup_cons, here, beq_self_eq_true]
        · rw [lookup_cons_of_ne here, lookup_cons_of_ne here, ih]

theorem entry?_put (someName : location ≠ []) :
    Tree.entry? (tree.put location entry) place = if place = location then some entry else tree.entry? place := by
  by_cases atRoot : place = []
  · subst atRoot
    rw [if_neg (Ne.symm someName)]
    rfl
  · rw [entry?_of_ne_nil atRoot, entry?_of_ne_nil atRoot]
    exact lookup_putRow tree.rows

theorem lookup_filter_key (kept : Location → Bool) (rows : List (Location × Entry)) :
    (rows.filter fun row => kept row.1).lookup place = if kept place then rows.lookup place else none := by
  induction rows with
  | nil => simp
  | cons row rest ih =>
      by_cases here : place = row.1
      · subst here
        cases isKept : kept row.1 with
        | true => rw [List.filter_cons, isKept, if_pos rfl, if_pos rfl, List.lookup_cons, List.lookup_cons, beq_self_eq_true]
        | false => rw [List.filter_cons, isKept, if_neg Bool.false_ne_true, ih, isKept]; rfl
      · rw [lookup_cons_of_ne here, ← ih, List.filter_cons]
        split
        · exact lookup_cons_of_ne here
        · rfl

theorem entry?_erase (someName : location ≠ []) :
    Tree.entry? (tree.erase location) place = if location <+: place then none else tree.entry? place := by
  by_cases atRoot : place = []
  · subst atRoot
    rw [if_neg (by simpa using someName)]
    rfl
  · rw [entry?_of_ne_nil atRoot, entry?_of_ne_nil atRoot, erase, lookup_filter_key (!location.isPrefixOf ·)]
    simp only [Bool.not_eq_true', ← List.isPrefixOf_iff_prefix]
    cases location.isPrefixOf place <;> rfl

/-! ## Well formed trees -/

/-- A tree as file systems have it. -/
structure WellFormed (tree : Tree) : Prop where
  named : ∀ row ∈ tree.rows, row.1 ≠ [] ∧ ".." ∉ row.1
  once : (tree.rows.map Prod.fst).Nodup
  parents : ∀ row ∈ tree.rows, tree.isDirectory row.1.dropLast = true

theorem isDirectory_iff : tree.isDirectory location = true ↔ tree.entry? location = some .directory := by
  rw [isDirectory, beq_iff_eq]

theorem lookup_eq_some_of_mem {rows : List (Location × Entry)} (once : (rows.map Prod.fst).Nodup)
    (member : (place, entry) ∈ rows) : rows.lookup place = some entry := by
  induction rows with
  | nil => cases member
  | cons row rest ih =>
      obtain ⟨fresh, restOnce⟩ := List.nodup_cons.mp once
      rw [List.lookup_cons]
      rcases List.mem_cons.mp member with rfl | inRest
      · simp
      · have differs : place ≠ row.1 := by
          rintro rfl
          exact fresh (List.mem_map.mpr ⟨_, inRest, rfl⟩)
        rw [beq_false_of_ne differs]
        exact ih restOnce inRest

theorem mem_of_lookup_eq_some {rows : List (Location × Entry)} (found : rows.lookup place = some entry) :
    (place, entry) ∈ rows := by
  obtain ⟨before, after, split, _⟩ := List.lookup_eq_some_iff.mp found
  rw [split]
  exact List.mem_append_right _ List.mem_cons_self

namespace WellFormed

theorem mem_rows_iff (wellFormed : tree.WellFormed) :
    (place, entry) ∈ tree.rows ↔ place ≠ [] ∧ tree.entry? place = some entry := by
  constructor
  · intro member
    have someName := (wellFormed.named _ member).1
    rw [entry?_of_ne_nil someName]
    exact ⟨someName, lookup_eq_some_of_mem wellFormed.once member⟩
  · rintro ⟨someName, found⟩
    rw [entry?_of_ne_nil someName] at found
    exact mem_of_lookup_eq_some found

theorem isDirectory_dropLast (wellFormed : tree.WellFormed) (held : tree.entry? place = some entry) :
    tree.isDirectory place.dropLast = true := by
  by_cases atRoot : place = []
  · subst atRoot
    rfl
  · exact wellFormed.parents _ (wellFormed.mem_rows_iff.mpr ⟨atRoot, held⟩)

theorem no_parent_name (wellFormed : tree.WellFormed) (held : tree.entry? place = some entry) : ".." ∉ place := by
  by_cases atRoot : place = []
  · subst atRoot
    exact List.not_mem_nil
  · exact (wellFormed.named _ (wellFormed.mem_rows_iff.mpr ⟨atRoot, held⟩)).2

theorem isDirectory_above (wellFormed : tree.WellFormed) (held : tree.entry? place = some entry)
    (above : location <+: place) (proper : location ≠ place) : tree.entry? location = some .directory := by
  obtain ⟨rest, rfl⟩ := above
  induction rest using List.reverseRecOn generalizing entry with
  | nil => exact absurd (List.append_nil location).symm proper
  | append_singleton rest name ih =>
      rw [← List.append_assoc] at held
      have parent := isDirectory_iff.mp (wellFormed.isDirectory_dropLast held)
      rw [List.dropLast_concat] at parent
      by_cases direct : rest = []
      · rwa [direct, List.append_nil] at parent
      · exact ih parent fun same => direct (List.append_right_eq_self.mp same.symm)

end WellFormed

/-! ## Changes that keep a tree well formed -/

theorem dropLast_ne (someName : location ≠ []) : location.dropLast ≠ location := by
  intro same
  have lengths := congrArg List.length same
  have positive := List.length_pos_iff.mpr someName
  rw [List.length_dropLast] at lengths
  omega

theorem keys_putRow (rows : List (Location × Entry)) :
    (put.putRow location entry rows).map Prod.fst =
      if location ∈ rows.map Prod.fst then rows.map Prod.fst else rows.map Prod.fst ++ [location] := by
  induction rows with
  | nil => rfl
  | cons row rest ih =>
      unfold put.putRow
      split
      · rename_i same
        rw [if_pos (by simp [same]), List.map_cons, List.map_cons, same]
      · rename_i differs
        rw [List.map_cons, ih, List.map_cons]
        by_cases listed : location ∈ rest.map Prod.fst
        · rw [if_pos listed, if_pos (List.mem_cons_of_mem row.1 listed)]
        · rw [if_neg listed, if_neg, List.cons_append]
          rw [List.mem_cons, not_or]
          exact ⟨Ne.symm differs, listed⟩

theorem mem_of_mem_putRow {rows : List (Location × Entry)} {row : Location × Entry}
    (member : row ∈ put.putRow location entry rows) : row = (location, entry) ∨ row ∈ rows := by
  induction rows with
  | nil => exact Or.inl (List.mem_singleton.mp member)
  | cons first rest ih =>
      unfold put.putRow at member
      split at member
      · rcases List.mem_cons.mp member with rfl | inRest
        · exact Or.inl rfl
        · exact Or.inr (List.mem_cons_of_mem first inRest)
      · rcases List.mem_cons.mp member with rfl | inRest
        · exact Or.inr List.mem_cons_self
        · exact (ih inRest).imp_right (List.mem_cons_of_mem first)

/-- An entry is put into a directory, and not over a directory that may hold something. -/
theorem WellFormed.put (wellFormed : tree.WellFormed) (someName : location ≠ []) (noParent : ".." ∉ location)
    (room : tree.isDirectory location.dropLast = true)
    (fits : tree.entry? location = some .directory → entry = .directory) : (tree.put location entry).WellFormed where
  named row member := by
    rcases mem_of_mem_putRow member with rfl | old
    · exact ⟨someName, noParent⟩
    · exact wellFormed.named row old
  once := by
    rw [Tree.put, keys_putRow]
    split
    · exact wellFormed.once
    · rename_i fresh
      refine List.nodup_append.mpr ⟨wellFormed.once, by simp, ?_⟩
      intro key listed other isLocation same
      exact fresh (List.mem_singleton.mp isLocation ▸ same ▸ listed)
  parents row member := by
    have stays : tree.isDirectory row.1.dropLast = true → (tree.put location entry).isDirectory row.1.dropLast = true := by
      intro parent
      rw [isDirectory_iff] at parent ⊢
      rw [entry?_put someName]
      split
      · rename_i same
        rw [fits (same ▸ parent)]
      · exact parent
    rcases mem_of_mem_putRow member with rfl | old
    · exact stays room
    · exact stays (wellFormed.parents row old)

theorem WellFormed.erase (wellFormed : tree.WellFormed) (someName : location ≠ []) :
    (tree.erase location).WellFormed where
  named row member := wellFormed.named row (List.mem_filter.mp member).1
  once := List.Nodup.sublist (List.filter_sublist.map Prod.fst) wellFormed.once
  parents row member := by
    obtain ⟨old, outside⟩ := List.mem_filter.mp member
    rw [Bool.not_eq_true', Bool.eq_false_iff, ne_eq, List.isPrefixOf_iff_prefix] at outside
    have parent := isDirectory_iff.mp (wellFormed.parents row old)
    rw [isDirectory_iff, entry?_erase someName, if_neg, parent]
    exact fun above => outside (above.trans (List.dropLast_prefix row.1))

/-! ## Operations -/

variable {tree' : Tree} {content : Bytes}

theorem entry?_write (written : tree.write location content = .ok tree') (place : Location) :
    tree'.entry? place = if place = location then some (.file content) else tree.entry? place := by
  unfold write at written
  split at written
  · cases written
  · rename_i old held
    obtain rfl := Except.ok.inj written
    exact entry?_put (by rintro rfl; cases held)
  · rename_i absent
    have someName : location ≠ [] := by
      rintro rfl
      cases absent
    unfold room at written
    split at written
    · obtain rfl := Except.ok.inj written
      exact entry?_put someName
    · cases written

theorem not_directory_of_write (written : tree.write location content = .ok tree') :
    tree.entry? location ≠ some .directory := by
  intro held
  rw [write, held] at written
  cases written

theorem WellFormed.write (wellFormed : tree.WellFormed) (noParent : ".." ∉ location)
    (written : tree.write location content = .ok tree') : tree'.WellFormed := by
  have noDirectory := not_directory_of_write written
  have someName : location ≠ [] := by
    rintro rfl
    exact noDirectory rfl
  unfold Tree.write at written
  split at written
  · cases written
  · rename_i old held
    obtain rfl := Except.ok.inj written
    exact wellFormed.put someName noParent (wellFormed.isDirectory_dropLast held) fun held => absurd held noDirectory
  · unfold room at written
    split at written
    · rename_i parent
      obtain rfl := Except.ok.inj written
      exact wellFormed.put someName noParent parent fun held => absurd held noDirectory
    · cases written

theorem directory_of_write (written : tree.write location content = .ok tree')
    (held : tree.entry? place = some .directory) : tree'.entry? place = some .directory := by
  rw [entry?_write written, if_neg, held]
  rintro rfl
  exact not_directory_of_write written held

/-- A file is taken away, and nothing else. -/
theorem entry?_remove (wellFormed : tree.WellFormed) (removed : tree.remove location = .ok tree') (place : Location) :
    tree'.entry? place = if place = location then none else tree.entry? place := by
  unfold remove at removed
  split at removed
  · cases removed
  · rename_i content held
    obtain rfl := Except.ok.inj removed
    have someName : location ≠ [] := by
      rintro rfl
      cases held
    rw [entry?_erase someName]
    by_cases here : place = location
    · rw [here, if_pos (List.prefix_refl location), if_pos rfl]
    · rw [if_neg here]
      split
      · rename_i below
        cases inside : tree.entry? place with
        | none => rfl
        | some entry =>
            have directory := wellFormed.isDirectory_above inside below (Ne.symm here)
            cases held.symm.trans directory
      · rfl
  · cases removed

/-- Taking a file away leaves every directory. -/
theorem directory_of_remove (wellFormed : tree.WellFormed) (removed : tree.remove location = .ok tree')
    (held : tree.entry? place = some .directory) : tree'.entry? place = some .directory := by
  rw [entry?_remove wellFormed removed, if_neg, held]
  rintro rfl
  rw [remove, held] at removed
  cases removed

theorem WellFormed.remove (wellFormed : tree.WellFormed) (removed : tree.remove location = .ok tree') :
    tree'.WellFormed := by
  unfold Tree.remove at removed
  split at removed
  · cases removed
  · rename_i content held
    obtain rfl := Except.ok.inj removed
    refine wellFormed.erase ?_
    rintro rfl
    cases held
  · cases removed

/-! ## Directories -/

structure OpenedTo (tree tree' : Tree) (location : Location) : Prop where
  entry?_eq : ∀ place, tree'.entry? place = if place <+: location then some .directory else tree.entry? place
  way : ∀ place, place <+: location → tree.entry? place = none ∨ tree.entry? place = some .directory
  wellFormed : tree.WellFormed → ".." ∉ location → tree'.WellFormed

theorem OpenedTo.root (tree : Tree) : OpenedTo tree tree [] where
  entry?_eq place := by
    split
    · rename_i atRoot
      rw [List.prefix_nil.mp atRoot]
      rfl
    · rfl
  way place atRoot := by
    rw [List.prefix_nil.mp atRoot]
    exact Or.inr rfl
  wellFormed whole _ := whole

theorem OpenedTo.step {name : String} (opened : OpenedTo tree tree' location) :
    (tree'.entry? (location ++ [name]) = some .directory → OpenedTo tree tree' (location ++ [name])) ∧
      (tree'.entry? (location ++ [name]) = none →
        OpenedTo tree (tree'.put (location ++ [name]) .directory) (location ++ [name])) := by
  have someName : location ++ [name] ≠ [] := by simp
  have notYet : ¬ location ++ [name] <+: location := by
    intro within
    have := within.length_le
    rw [List.length_append, List.length_singleton] at this
    omega
  have old := opened.entry?_eq (location ++ [name])
  rw [if_neg notYet] at old
  have way : (tree.entry? (location ++ [name]) = none ∨ tree.entry? (location ++ [name]) = some .directory) →
      ∀ place, place <+: location ++ [name] → tree.entry? place = none ∨ tree.entry? place = some .directory := by
    intro last place onWay
    rcases List.prefix_concat_iff.mp onWay with rfl | onWay
    · exact last
    · exact opened.way place onWay
  constructor
  · intro held
    refine ⟨fun place => ?_, way (Or.inr (old ▸ held)), fun whole noParent => ?_⟩
    · by_cases last : place = location ++ [name]
      · rw [last, held, if_pos (List.prefix_refl _)]
      · rw [opened.entry?_eq place]
        simp only [List.prefix_concat_iff, last, false_or]
    · exact opened.wellFormed whole fun listed => noParent (List.mem_append_left _ listed)
  · intro absent
    refine ⟨fun place => ?_, way (Or.inl (old ▸ absent)), fun whole noParent => ?_⟩
    · rw [entry?_put someName]
      by_cases last : place = location ++ [name]
      · rw [if_pos last, last, if_pos (List.prefix_refl _)]
      · rw [if_neg last, opened.entry?_eq place]
        simp only [List.prefix_concat_iff, last, false_or]
    · have before := opened.wellFormed whole fun listed => noParent (List.mem_append_left _ listed)
      refine before.put someName noParent ?_ fun held => ?_
      · rw [List.dropLast_concat, isDirectory_iff, opened.entry?_eq, if_pos (List.prefix_refl _)]
      · cases absent.symm.trans held

/-- Makes the directory that the way to a location passes through after so many names and one more, unless it is there. -/
def makePassage (location : Location) (tree : Tree) (count : Nat) : Except Fault Tree :=
  match tree.entry? (location.take (count + 1)) with
  | some .directory => .ok tree
  | some (.file _) => .error (if count + 1 = location.length then .present else .notDirectory)
  | none => .ok (tree.put (location.take (count + 1)) .directory)

theorem makeDirectories_eq (tree : Tree) (location : Location) :
    tree.makeDirectories location = (List.range location.length).foldlM (makePassage location) tree := rfl

theorem foldlM_range_succ_eq_ok_iff {σ ε : Type} {step : σ → Nat → Except ε σ} {start last : σ} {count : Nat} :
    (List.range (count + 1)).foldlM step start = .ok last ↔
      ∃ middle, (List.range count).foldlM step start = .ok middle ∧ step middle count = .ok last := by
  rw [List.range_succ, List.foldlM_append]
  cases (List.range count).foldlM step start with
  | error fault => simp [bind, Except.bind]
  | ok middle =>
      cases taken : step middle count <;> simp [bind, Except.bind, pure, Except.pure, taken]

theorem openedTo_of_makeDirectories (made : tree.makeDirectories location = .ok tree') :
    OpenedTo tree tree' location := by
  suffices holds : ∀ count ≤ location.length, ∀ later,
      (List.range count).foldlM (makePassage location) tree = .ok later → OpenedTo tree later (location.take count) by
    have whole := holds location.length (Nat.le_refl _) tree' made
    rwa [List.take_length] at whole
  intro count
  induction count with
  | zero =>
      intro _ later same
      obtain rfl := Except.ok.inj same
      exact OpenedTo.root tree
  | succ count ih =>
      intro inside later done
      obtain ⟨middle, first, passed⟩ := foldlM_range_succ_eq_ok_iff.mp done
      have opened := ih (Nat.le_of_succ_le inside) middle first
      have next : location.take (count + 1) = location.take count ++ [location[count]] :=
        List.take_succ_eq_append_getElem inside
      rw [makePassage, next] at passed
      rw [next]
      split at passed
      case h_1 held =>
        obtain rfl := Except.ok.inj passed
        exact opened.step.1 held
      case h_2 => cases passed
      case h_3 absent =>
        obtain rfl := Except.ok.inj passed
        exact opened.step.2 absent

end Deadwood.Files.Tree
