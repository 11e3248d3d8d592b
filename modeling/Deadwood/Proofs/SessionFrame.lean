import Deadwood.Deletion.Session
import Deadwood.Proofs.PathLaws
import Deadwood.Proofs.TreeLaws

/-!
# What a session touches

Whatever a session does with a path, it changes at most the file that the path names below its root, and a dry run changes
nothing. Carrying out a plan therefore changes at most the files that are named in the plan.
-/

set_option autoImplicit false
namespace Deadwood

open Files

def Plan.paths (plan : Plan) : List String :=
  plan.functions.map (·.path) ++ plan.files

namespace DeletionSession

open Tree

def placeOf (root : Location) (path : String) : Location :=
  ((⟨"/", root⟩ : Path).join (Path.ofString path)).resolve

structure Follows (paths : List String) (session later : DeletionSession) : Prop where
  root : later.root = session.root
  dryRun : later.dryRun = session.dryRun
  rehearsed : session.dryRun = true → later.tree = session.tree
  wellFormed : session.tree.WellFormed → later.tree.WellFormed
  directories : session.tree.WellFormed → ∀ place, session.tree.entry? place = some .directory →
    later.tree.entry? place = some .directory
  changes : session.tree.WellFormed → ∀ place, later.tree.entry? place = session.tree.entry? place ∨
    session.root <+: place ∧ ∃ path ∈ paths, place = placeOf session.root path

variable {paths : List String} {session middle later : DeletionSession}

theorem Follows.of_tree_eq (root : later.root = session.root) (dryRun : later.dryRun = session.dryRun)
    (tree : later.tree = session.tree) : Follows paths session later where
  root := root
  dryRun := dryRun
  rehearsed _ := tree
  wellFormed whole := tree ▸ whole
  directories _ _ held := tree ▸ held
  changes _ _ := Or.inl (by rw [tree])

theorem Follows.refl (paths : List String) (session : DeletionSession) : Follows paths session session :=
  .of_tree_eq rfl rfl rfl

theorem Follows.trans (first : Follows paths session middle) (second : Follows paths middle later) :
    Follows paths session later where
  root := second.root.trans first.root
  dryRun := second.dryRun.trans first.dryRun
  rehearsed dry := (second.rehearsed (first.dryRun.trans dry)).trans (first.rehearsed dry)
  wellFormed whole := second.wellFormed (first.wellFormed whole)
  directories whole place held := second.directories (first.wellFormed whole) place (first.directories whole place held)
  changes whole place := by
    rcases second.changes (first.wellFormed whole) place with same | changed
    · rw [same]
      exact first.changes whole place
    · rw [first.root] at changed
      exact Or.inr changed

/-! ## One deletion -/

theorem of_resolve {path : String} {location : Location} (found : session.resolve path = .ok location) :
    location = placeOf session.root path ∧ session.root <+: location := by
  unfold resolve at found
  dsimp only at found
  split at found
  · rename_i inside
    obtain rfl := Except.ok.inj found
    exact ⟨rfl, List.isPrefixOf_iff_prefix.mp inside⟩
  · cases found

/-- A path leads out of the root, or to the location that it names. -/
theorem resolve_cases (session : DeletionSession) (path : String) :
    (∃ fault, session.resolve path = .error fault) ∨ session.resolve path = .ok (placeOf session.root path) := by
  unfold resolve
  dsimp only
  split
  · exact Or.inr rfl
  · exact Or.inl ⟨_, rfl⟩

theorem of_faultAt {α : Type} {location : Location} {result : Except Fault α} {value : α}
    (done : faultAt location result = .ok value) : result = .ok value := by
  cases result with
  | error fault => cases done
  | ok found =>
      obtain rfl := Except.ok.inj done
      rfl

theorem exists_of_withoutFile {path : String} {found : Tree × Nat} (done : session.withoutFile path = .ok found) :
    session.dryRun = true ∧ found.1 = session.tree ∨ session.dryRun = false ∧
      session.root <+: placeOf session.root path ∧
        session.tree.remove (placeOf session.root path) = .ok found.1 := by
  unfold withoutFile at done
  cases aimed : session.target path with
  | error fault =>
      rw [aimed] at done
      cases done
  | ok target =>
      obtain ⟨location, size⟩ := target
      rw [aimed] at done
      simp only [bind, Except.bind, pure, Except.pure] at done
      have inside : location = placeOf session.root path ∧ session.root <+: location := by
        unfold target at aimed
        cases resolved : session.resolve path with
        | error fault =>
            rw [resolved] at aimed
            cases aimed
        | ok place =>
            have bounds := of_resolve resolved
            rw [resolved] at aimed
            simp only [bind, Except.bind, pure, Except.pure] at aimed
            split at aimed
            · cases aimed
            · split at aimed
              · obtain ⟨rfl, _⟩ := Prod.mk.inj (Except.ok.inj aimed)
                exact bounds
              · obtain ⟨rfl, _⟩ := Prod.mk.inj (Except.ok.inj aimed)
                exact bounds
              · cases aimed
      obtain ⟨rfl, below⟩ := inside
      split at done
      · rename_i dry
        obtain rfl := Except.ok.inj done
        exact Or.inl ⟨dry, rfl⟩
      · rename_i real
        rw [Bool.not_eq_true] at real
        split at done
        · cases done
        · rename_i tree removed
          obtain rfl := Except.ok.inj done
          exact Or.inr ⟨real, below, of_faultAt removed⟩

theorem follows_deleteFile {path : String} (named : path ∈ paths) :
    Follows paths session (session.deleteFile path).1 := by
  unfold deleteFile
  split
  · exact .of_tree_eq rfl rfl rfl
  · rename_i tree size done
    rcases exists_of_withoutFile done with ⟨_, same⟩ | ⟨real, below, removed⟩
    · exact .of_tree_eq rfl rfl same
    · refine ⟨rfl, rfl, fun dry => ?_, fun whole => whole.remove removed,
        fun whole _ => directory_of_remove whole removed, fun whole place => ?_⟩
      · cases real.symm.trans dry
      · by_cases here : place = placeOf session.root path
        · exact Or.inr ⟨here ▸ below, path, named, here⟩
        · refine Or.inl ((entry?_remove whole removed place).trans ?_)
          rw [if_neg here]

theorem of_textOf {path : String} {found : Location × List Char} (done : session.textOf path = .ok found) :
    found.1 = placeOf session.root path ∧ session.root <+: found.1 := by
  unfold textOf at done
  cases resolved : session.resolve path with
  | error fault =>
      rw [resolved] at done
      cases done
  | ok location =>
      have bounds := of_resolve resolved
      rw [resolved] at done
      simp only [bind, Except.bind, pure, Except.pure] at done
      split at done
      · cases done
      · split at done
        · obtain rfl := Except.ok.inj done
          exact bounds
        · split at done
          · cases done
          · split at done
            · obtain rfl := Except.ok.inj done
              exact bounds
            · cases done

theorem follows_deleteFunction {path name : String} (named : path ∈ paths) :
    Follows paths session (session.deleteFunction path name).1 := by
  unfold deleteFunction
  split
  · exact .of_tree_eq rfl rfl rfl
  · rename_i location text read
    obtain ⟨place, below⟩ := of_textOf read
    dsimp only at place below ⊢
    -- noting the text that was read changes nothing of the tree
    have noted : Follows paths session (if (session.pending.lookup path).isSome then session
        else { session with originals := putText path text session.originals }) := by
      split
      · exact .refl paths session
      · exact .of_tree_eq rfl rfl rfl
    generalize (if (session.pending.lookup path).isSome then session
      else { session with originals := putText path text session.originals }) = started at noted ⊢
    refine noted.trans ?_
    rw [← noted.root] at place below
    split
    · exact .of_tree_eq rfl rfl rfl
    · rename_i shorter span cut
      split
      · exact .of_tree_eq rfl rfl rfl
      · rename_i tree written
        split at written
        · obtain rfl := Except.ok.inj written
          exact .of_tree_eq rfl rfl rfl
        · rename_i real
          have done := of_faultAt written
          refine ⟨rfl, rfl, fun dry => absurd dry real, fun whole => whole.write ?_ done,
            fun _ _ => directory_of_write done, fun whole other => ?_⟩
          · rw [place]
            exact no_parent_resolve _
          · by_cases here : other = location
            · exact Or.inr ⟨here ▸ below, path, named, here.trans place⟩
            · refine Or.inl ((entry?_write done other).trans ?_)
              rw [if_neg here]

/-! ## A plan -/

theorem follows_foldl {α : Type} {act : DeletionSession → α → DeletionSession} {items : List α}
    (step : ∀ session, ∀ item ∈ items, Follows paths session (act session item)) (session : DeletionSession) :
    Follows paths session (items.foldl act session) := by
  induction items generalizing session with
  | nil => exact .refl paths session
  | cons item rest ih =>
      refine (step session item List.mem_cons_self).trans ?_
      exact ih (fun later other member => step later other (List.mem_cons_of_mem item member)) (act session item)

/-- Carrying out a plan changes at most the files that are named in it. -/
theorem follows_carryOut (session : DeletionSession) (plan : Plan) :
    Follows plan.paths session (session.carryOut plan).1 := by
  unfold carryOut
  refine (follows_foldl (fun session planned member => ?_) session).trans (follows_foldl (fun session path member => ?_) _)
  · exact follows_deleteFunction (List.mem_append_left _ (List.mem_map_of_mem member))
  · exact follows_deleteFile (List.mem_append_right _ member)

end DeletionSession
end Deadwood
