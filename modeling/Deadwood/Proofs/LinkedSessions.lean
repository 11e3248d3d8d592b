import Deadwood.Deletion.Item

/-!
# Sessions over links

Deleting an item over links is a deletion at the location that its path leads to. Where no links are put, that is the location
that the names of the path alone lead to, and a session deletes items as it does without a thought of links.
-/

set_option autoImplicit false
namespace Deadwood

open Files

namespace LinkedSession

theorem deleteAt_function (linked : LinkedSession) (resolved : Except DeletionFault Location) (link : Option Location)
    (path name : String) : linked.deleteAt resolved link (.function path name) =
      (⟨(linked.session.deleteFunction path name resolved).1, linked.links⟩,
        (linked.session.deleteFunction path name resolved).2) := by
  rw [deleteAt]

def linksAfter (linked : LinkedSession) (link : Option Location) (record : Option DeletionRecord) : Links :=
  (if record.isSome && !linked.session.dryRun then link else none).elim linked.links linked.links.take

theorem deleteAt_file (linked : LinkedSession) (resolved : Except DeletionFault Location) (link : Option Location)
    (path : String) : linked.deleteAt resolved link (.file path) =
      (⟨(linked.session.deleteFile path resolved (linked.session.dryRun || link.isSome)).1,
        linked.linksAfter link (linked.session.deleteFile path resolved (linked.session.dryRun || link.isSome)).2⟩,
        (linked.session.deleteFile path resolved (linked.session.dryRun || link.isSome)).2) := by
  rw [deleteAt, linksAfter]

theorem carryOut_of_deleteAll {linked later : LinkedSession} {plan : Plan} (allowed : linked.session.mayDelete = true)
    (done : linked.deleteAll plan.items = (later, none)) :
    linked.carryOut plan = .ok (later, .ok (later.session.records.drop linked.session.records.length)) := by
  rw [carryOut, if_pos allowed, done]

end LinkedSession

/-! ## Without links -/

namespace Files.Links

theorem walk_unlinked (enter : Location → String → Trail) (reversed : Location) (names : List String) :
    ({} : Links).walk enter reversed names = .reached (follow reversed names) := by
  induction names generalizing reversed with
  | nil => rfl
  | cons name rest ih =>
      rw [walk]
      by_cases parent : name = ".."
      · rw [if_pos parent, ih, parent, follow]
      · rw [if_neg parent, follow.eq_3 _ _ _ parent]
        exact ih (name :: reversed)

theorem place?_unlinked (tree : Tree) (path : Path) :
    ({} : Links).place? tree path = some (path.resolve, path.resolve) := by
  have reached : ({} : Links).trail ({} : Links).rows.length [] [] path.names = .reached path.resolve :=
    walk_unlinked _ [] path.names
  rw [place?, reached]

theorem linkAt?_unlinked (tree : Tree) (location : Location) : ({} : Links).linkAt? tree location = none := by
  unfold linkAt?
  split <;> rfl

end Files.Links

namespace LinkedSession

theorem resolve_unlinked (session : DeletionSession) (path : String) :
    (⟨session, {}⟩ : LinkedSession).resolve path = .ok (session.resolve path, none) := by
  rw [resolve, Links.place?_unlinked]
  dsimp only
  rw [Links.linkAt?_unlinked]
  rfl

theorem delete_unlinked (session : DeletionSession) (item : DeletionItem) :
    (⟨session, {}⟩ : LinkedSession).delete item = .ok (⟨(item.deleteIn session).1, {}⟩, (item.deleteIn session).2) := by
  rw [delete, resolve_unlinked]
  refine congrArg Except.ok ?_
  cases item with
  | function path name => exact deleteAt_function ⟨session, {}⟩ _ none path name
  | file path =>
      refine (deleteAt_file ⟨session, {}⟩ _ none path).trans ?_
      dsimp only [DeletionItem.deleteIn, DeletionItem.path, Option.isSome_none]
      rw [Bool.or_false, linksAfter, ite_self]
      rfl

end LinkedSession
end Deadwood
