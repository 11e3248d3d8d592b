import Mathlib.Data.List.Nodup
import Deadwood.Proofs.TreeLaws

/-!
# Copies

What stands below a location is determined by the entries there. So a copy of entries that are closed under parents, made
below a new directory, stands below it just as they stood, and nothing else changes.
-/

set_option autoImplicit false
namespace Deadwood.Files.Tree

open Deadwood.Text

variable {tree tree' : Tree} {root base place : Location} {entry : Entry}

/-! ## What stands below a location -/

theorem mem_below_iff : (place, entry) ∈ tree.below root ↔ place ≠ [] ∧ (root ++ place, entry) ∈ tree.rows := by
  rw [below, List.mem_mergeSort, List.mem_filterMap]
  constructor
  · rintro ⟨⟨location, held⟩, listed, found⟩
    dsimp only at found
    split at found
    · rename_i inside
      rw [Bool.and_eq_true, List.isPrefixOf_iff_prefix, decide_eq_true_eq] at inside
      obtain ⟨⟨rest, rfl⟩, longer⟩ := inside
      simp only [List.drop_left, Option.some.injEq, Prod.mk.injEq] at found
      obtain ⟨rfl, rfl⟩ := found
      refine ⟨?_, listed⟩
      rintro rfl
      simp at longer
    · cases found
  · rintro ⟨someName, listed⟩
    refine ⟨_, listed, ?_⟩
    have longer : root.length < (root ++ place).length := by
      have := List.length_pos_iff.mpr someName
      rw [List.length_append]
      omega
    dsimp only
    rw [if_pos (by simpa using longer), List.drop_left]

theorem WellFormed.mem_below_iff (wellFormed : tree.WellFormed) :
    (place, entry) ∈ tree.below root ↔ place ≠ [] ∧ tree.entry? (root ++ place) = some entry := by
  rw [Tree.mem_below_iff, wellFormed.mem_rows_iff]
  simp only [ne_eq, List.append_eq_nil_iff, not_and]
  exact ⟨fun ⟨someName, _, held⟩ => ⟨someName, held⟩, fun ⟨someName, held⟩ => ⟨someName, fun _ => someName, held⟩⟩

theorem rowNotAfter_trans (first second third : Location × Entry) (before : rowNotAfter first second = true)
    (after : rowNotAfter second third = true) : rowNotAfter first third = true :=
  notAfter_trans before after

theorem rowNotAfter_total (first second : Location × Entry) :
    (rowNotAfter first second || rowNotAfter second first) = true :=
  notAfter_total first.1 second.1

theorem pairwise_below (tree : Tree) (root : Location) :
    (tree.below root).Pairwise fun first second => rowNotAfter first second = true :=
  List.pairwise_mergeSort rowNotAfter_trans rowNotAfter_total _

theorem WellFormed.nodup_below (wellFormed : tree.WellFormed) (root : Location) : (tree.below root).Nodup := by
  rw [below, (List.mergeSort_perm _ _).nodup_iff]
  have rows : tree.rows.Nodup := List.Nodup.of_map Prod.fst wellFormed.once
  refine rows.filterMap ?_
  rintro ⟨first, held⟩ ⟨second, held'⟩ row found found'
  simp only [Option.mem_def] at found found'
  split at found
  · rename_i inside
    split at found'
    · rename_i inside'
      rw [Bool.and_eq_true, List.isPrefixOf_iff_prefix] at inside inside'
      obtain ⟨⟨rest, rfl⟩, -⟩ := inside
      obtain ⟨⟨rest', rfl⟩, -⟩ := inside'
      simp only [List.drop_left, Option.some.injEq] at found found'
      obtain ⟨rfl, rfl⟩ := Prod.mk.inj (found.trans found'.symm)
      rfl
    · cases found'
  · cases found

theorem nodup_keys_below (wellFormed : tree.WellFormed) (root : Location) : ((tree.below root).map Prod.fst).Nodup := by
  refine List.Nodup.map_on ?_ (wellFormed.nodup_below root)
  rintro ⟨place, entry⟩ listed ⟨place', entry'⟩ listed' (same : place = place')
  subst same
  have held := (wellFormed.mem_below_iff.mp listed).2
  have held' := (wellFormed.mem_below_iff.mp listed').2
  rw [Option.some.inj (held.symm.trans held')]

/-- Two rows of what stands below a location are one if neither is after the other. -/
theorem WellFormed.eq_of_notAfter (wellFormed : tree.WellFormed) {first second : Location × Entry}
    (firstListed : first ∈ tree.below root) (secondListed : second ∈ tree.below root)
    (before : rowNotAfter first second = true) (after : rowNotAfter second first = true) : first = second := by
  have sameKey : first.1 = second.1 := notAfter_antisymm before after
  have held := (wellFormed.mem_below_iff.mp (show (first.1, first.2) ∈ _ from firstListed)).2
  have held' := (wellFormed.mem_below_iff.mp (show (second.1, second.2) ∈ _ from secondListed)).2
  rw [sameKey, held'] at held
  exact Prod.ext sameKey (Option.some.inj held).symm

/-- What stands below a location is what is kept of what stands below another, if the entries say so. -/
theorem below_eq_filter {root' : Location} (keeps : Location → Bool) (wellFormed : tree.WellFormed)
    (wellFormed' : tree'.WellFormed)
    (same : ∀ place, place ≠ [] →
      tree'.entry? (root' ++ place) = if keeps place then tree.entry? (root ++ place) else none) :
    tree'.below root' = (tree.below root).filter fun row => keeps row.1 := by
  have member : ∀ row, row ∈ tree'.below root' ↔ row ∈ (tree.below root).filter fun row => keeps row.1 := by
    rintro ⟨place, entry⟩
    rw [wellFormed'.mem_below_iff, List.mem_filter, wellFormed.mem_below_iff]
    constructor
    · rintro ⟨someName, held⟩
      rw [same place someName] at held
      split at held
      · rename_i kept
        exact ⟨⟨someName, held⟩, kept⟩
      · cases held
    · rintro ⟨⟨someName, held⟩, kept⟩
      exact ⟨someName, by rw [same place someName, if_pos kept, held]⟩
  refine List.Perm.eq_of_pairwise ?_ (pairwise_below tree' root') ((pairwise_below tree root).filter _) ?_
  · intro first second firstListed secondListed
    exact wellFormed'.eq_of_notAfter firstListed ((member second).mpr secondListed)
  · exact (List.perm_ext_iff_of_nodup (wellFormed'.nodup_below root') ((wellFormed.nodup_below root).filter _)).mpr member

theorem below_congr (wellFormed : tree.WellFormed) (wellFormed' : tree'.WellFormed)
    (same : ∀ place, place ≠ [] → tree'.entry? (root ++ place) = tree.entry? (root ++ place)) :
    tree'.below root = tree.below root := by
  have kept := below_eq_filter (fun _ => true) wellFormed wellFormed' same
  rwa [List.filter_eq_self.mpr fun _ _ => rfl] at kept

/-! ## Copying one entry -/

def copyOne (tree : Tree) (base : Location) (row : Location × Entry) : Except Fault Tree :=
  match row.2 with
  | .directory => tree.makeDirectories (base ++ row.1)
  | .file content => tree.write (base ++ row.1) content

theorem copyInto_eq (tree : Tree) (base : Location) (rows : List (Location × Entry)) :
    tree.copyInto base rows = rows.foldlM (fun tree row => tree.copyOne base row) tree :=
  rfl

structure Copied (tree tree' : Tree) (base : Location) (rows : List (Location × Entry)) : Prop where
  own : ∀ row ∈ rows, tree'.entry? (base ++ row.1) = some row.2
  stays : ∀ place entry, (∀ row ∈ rows, place ≠ base ++ row.1) → tree.entry? place = some entry →
    tree'.entry? place = some entry
  absent : ∀ place, (∀ row ∈ rows, ¬ place <+: base ++ row.1) → tree.entry? place = none → tree'.entry? place = none
  wellFormed : tree.WellFormed → (∀ row ∈ rows, ".." ∉ base ++ row.1) → tree'.WellFormed

theorem copied_copyOne {row : Location × Entry} (done : tree.copyOne base row = .ok tree') :
    Copied tree tree' base [row] := by
  obtain ⟨key, held⟩ := row
  unfold copyOne at done
  cases held with
  | directory =>
      have opened := openedTo_of_makeDirectories done
      refine ⟨?_, ?_, ?_, ?_⟩
      · intro row member
        obtain rfl := List.mem_singleton.mp member
        rw [opened.entry?_eq, if_pos (List.prefix_refl _)]
      · intro place entry _ present
        rw [opened.entry?_eq]
        split
        · rename_i onWay
          rcases opened.way place onWay with none | directory
          · cases none.symm.trans present
          · exact directory.symm.trans present
        · exact present
      · intro place elsewhere none
        rw [opened.entry?_eq, if_neg (elsewhere _ (List.mem_singleton_self _))]
        exact none
      · intro whole named
        exact opened.wellFormed whole (named _ (List.mem_singleton_self _))
  | file content =>
      have written := entry?_write done
      refine ⟨?_, ?_, ?_, ?_⟩
      · intro row member
        obtain rfl := List.mem_singleton.mp member
        rw [written, if_pos rfl]
      · intro place entry elsewhere present
        rw [written, if_neg (elsewhere _ (List.mem_singleton_self _))]
        exact present
      · intro place elsewhere none
        rw [written, if_neg]
        · exact none
        · rintro rfl
          exact elsewhere _ (List.mem_singleton_self _) (List.prefix_refl _)
      · intro whole named
        exact whole.write (named _ (List.mem_singleton_self _)) done

/-! ## Copying entries -/

theorem copied_of_copyInto {rows : List (Location × Entry)} (once : (rows.map Prod.fst).Nodup)
    (done : tree.copyInto base rows = .ok tree') : Copied tree tree' base rows := by
  rw [copyInto_eq] at done
  induction rows generalizing tree with
  | nil =>
      obtain rfl := Except.ok.inj done
      exact ⟨fun _ member => absurd member List.not_mem_nil, fun _ _ _ held => held, fun _ _ none => none,
        fun whole _ => whole⟩
  | cons row rest ih =>
      obtain ⟨fresh, restOnce⟩ := List.nodup_cons.mp once
      rw [List.foldlM_cons] at done
      cases first : tree.copyOne base row with
      | error fault =>
          rw [first] at done
          cases done
      | ok middle =>
          rw [first] at done
          have head := copied_copyOne first
          have tail := ih restOnce done
          refine ⟨?_, ?_, ?_, ?_⟩
          · intro other member
            rcases List.mem_cons.mp member with rfl | inRest
            · refine tail.stays _ _ (fun later inRest same => ?_) (head.own _ (List.mem_singleton_self _))
              rw [List.append_cancel_left same] at fresh
              exact fresh (List.mem_map_of_mem inRest)
            · exact tail.own other inRest
          · intro place entry elsewhere held
            refine tail.stays place entry (fun later inRest => elsewhere later (List.mem_cons_of_mem row inRest)) ?_
            refine head.stays place entry (fun only isRow => ?_) held
            rw [List.mem_singleton.mp isRow]
            exact elsewhere row List.mem_cons_self
          · intro place elsewhere none
            refine tail.absent place (fun later inRest => elsewhere later (List.mem_cons_of_mem row inRest)) ?_
            refine head.absent place (fun only isRow => ?_) none
            rw [List.mem_singleton.mp isRow]
            exact elsewhere row List.mem_cons_self
          · intro whole named
            refine tail.wellFormed (head.wellFormed whole fun only isRow => ?_) fun later inRest =>
              named later (List.mem_cons_of_mem row inRest)
            rw [List.mem_singleton.mp isRow]
            exact named row List.mem_cons_self

end Deadwood.Files.Tree
