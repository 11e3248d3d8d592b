/-!
# Sorted sets

A set of texts is kept as a list in increasing order (by code points) without repetition.
-/

set_option autoImplicit false
namespace Deadwood.Text

def insertSorted (member : String) : List String → List String
  | [] => [member]
  | first :: rest =>
    if member = first then first :: rest
    else if member < first then member :: first :: rest
    else first :: insertSorted member rest

def sortedSet (members : List String) : List String :=
  members.foldl (fun collected member => insertSorted member collected) []

theorem mem_insertSorted {member other : String} {collected : List String} :
    other ∈ insertSorted member collected ↔ other = member ∨ other ∈ collected := by
  induction collected with
  | nil => simp [insertSorted]
  | cons first rest inductionHypothesis =>
      unfold insertSorted
      split
      · rename_i same
        simp [same]
      · split
        · simp
        · simp only [List.mem_cons, inductionHypothesis]
          exact or_left_comm

theorem mem_foldl_insertSorted {other : String} (members collected : List String) :
    other ∈ members.foldl (fun collected member => insertSorted member collected) collected ↔
      other ∈ members ∨ other ∈ collected := by
  induction members generalizing collected with
  | nil => simp
  | cons first rest inductionHypothesis =>
      simp only [List.foldl_cons, inductionHypothesis, mem_insertSorted, List.mem_cons]
      exact or_left_comm.trans or_assoc.symm

theorem mem_sortedSet {other : String} {members : List String} :
    other ∈ sortedSet members ↔ other ∈ members := by
  simp [sortedSet, mem_foldl_insertSorted]

theorem pairwise_insertSorted {member : String} {collected : List String}
    (sorted : collected.Pairwise (· < ·)) : (insertSorted member collected).Pairwise (· < ·) := by
  induction collected with
  | nil => simp [insertSorted]
  | cons first rest inductionHypothesis =>
      obtain ⟨firstLeast, restSorted⟩ := List.pairwise_cons.mp sorted
      unfold insertSorted
      split
      · exact sorted
      · rename_i differs
        split
        · rename_i before
          refine List.pairwise_cons.mpr ⟨?_, sorted⟩
          intro other present
          rcases List.mem_cons.mp present with rfl | present
          · exact before
          · exact String.lt_trans before (firstLeast other present)
        · rename_i notBefore
          have firstBefore : first < member := by
            apply Classical.byContradiction
            intro notAfter
            exact differs (String.le_antisymm (String.not_lt.mp notAfter) (String.not_lt.mp notBefore))
          refine List.pairwise_cons.mpr ⟨?_, inductionHypothesis restSorted⟩
          intro other present
          rcases mem_insertSorted.mp present with rfl | present
          · exact firstBefore
          · exact firstLeast other present

theorem pairwise_sortedSet (members : List String) : (sortedSet members).Pairwise (· < ·) := by
  have step : ∀ (rest collected : List String), collected.Pairwise (· < ·) →
      (rest.foldl (fun collected member => insertSorted member collected) collected).Pairwise (· < ·) := by
    intro rest
    induction rest with
    | nil => intro collected sorted; exact sorted
    | cons member rest inductionHypothesis =>
        intro collected sorted
        exact inductionHypothesis (insertSorted member collected) (pairwise_insertSorted sorted)
  exact step members [] List.Pairwise.nil

/-- Lists in strictly increasing order are the same if they have the same members. -/
theorem eq_of_pairwise_lt {first second : List String} (firstSorted : first.Pairwise (· < ·))
    (secondSorted : second.Pairwise (· < ·)) (same : ∀ member, member ∈ first ↔ member ∈ second) : first = second := by
  have perm : first.Perm second :=
    (List.perm_ext_iff_of_nodup (firstSorted.imp String.ne_of_lt) (secondSorted.imp String.ne_of_lt)).mpr same
  refine perm.eq_of_pairwise (fun a b _ _ before after => ?_) firstSorted secondSorted
  exact absurd before (String.lt_asymm after)

theorem sortedSet_congr {members others : List String} (same : ∀ member, member ∈ members ↔ member ∈ others) :
    sortedSet members = sortedSet others := by
  refine eq_of_pairwise_lt (pairwise_sortedSet members) (pairwise_sortedSet others) fun member => ?_
  rw [mem_sortedSet, mem_sortedSet, same]

end Deadwood.Text
