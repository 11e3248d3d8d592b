import Deadwood.Source.Definition

/-!
# Claiming positions

Introductions claim their positions one after the other, and the first to claim a position keeps it. The claimed ones
stand in the order of their positions, so leaving out some positions beforehand is leaving them out afterwards, and moving
positions without changing their order moves the claimed ones.
-/

set_option autoImplicit false
namespace Deadwood.Source

def claims (found : List Introduction) : List Introduction :=
  found.foldl (fun claimed introduction => claim introduction claimed) []

def Ordered (claimed : List Introduction) : Prop :=
  claimed.Pairwise fun earlier later => earlier.position < later.position

variable {introduction : Introduction} {claimed : List Introduction}

theorem mem_of_mem_claim {other : Introduction} (member : other ∈ claim introduction claimed) :
    other = introduction ∨ other ∈ claimed := by
  induction claimed with
  | nil => exact Or.inl (List.mem_singleton.mp member)
  | cons earlier rest ih =>
      simp only [claim] at member
      split at member
      · exact List.mem_cons.mp member
      · split at member
        · exact Or.inr member
        · rcases List.mem_cons.mp member with rfl | member
          · exact Or.inr List.mem_cons_self
          · exact (ih member).imp_right (List.mem_cons_of_mem earlier)

theorem ordered_claim (ordered : Ordered claimed) : Ordered (claim introduction claimed) := by
  induction claimed with
  | nil => exact List.pairwise_singleton _ _
  | cons earlier rest ih =>
      obtain ⟨first, restOrdered⟩ := List.pairwise_cons.mp ordered
      simp only [claim]
      split
      · rename_i before
        refine List.pairwise_cons.mpr ⟨?_, ordered⟩
        intro other member
        rcases List.mem_cons.mp member with rfl | member
        · exact before
        · exact Nat.lt_trans before (first other member)
      · rename_i notBefore
        split
        · exact ordered
        · rename_i differs
          refine List.pairwise_cons.mpr ⟨?_, ih restOrdered⟩
          intro other member
          rcases mem_of_mem_claim member with rfl | member
          · omega
          · exact first other member

/-- An introduction at a position before all claimed ones goes to the front. -/
theorem claim_eq_cons (before : ∀ other ∈ claimed, introduction.position < other.position) :
    claim introduction claimed = introduction :: claimed := by
  cases claimed with
  | nil => rfl
  | cons earlier rest => rw [claim, if_pos (before earlier List.mem_cons_self)]

theorem filter_claim (keeps : Nat → Bool) (ordered : Ordered claimed) :
    (claim introduction claimed).filter (fun other => keeps other.position) =
      if keeps introduction.position then claim introduction (claimed.filter fun other => keeps other.position)
      else claimed.filter fun other => keeps other.position := by
  induction claimed with
  | nil => cases kept : keeps introduction.position <;> simp [claim, kept]
  | cons earlier rest ih =>
      obtain ⟨first, restOrdered⟩ := List.pairwise_cons.mp ordered
      simp only [claim]
      split
      · rename_i before
        have beforeAll : ∀ other ∈ (earlier :: rest).filter (fun other => keeps other.position),
            introduction.position < other.position := by
          intro other member
          rcases List.mem_cons.mp (List.mem_filter.mp member).1 with rfl | member
          · exact before
          · exact Nat.lt_trans before (first other member)
        rw [claim_eq_cons beforeAll, List.filter_cons]
      · rename_i notBefore
        split
        · rename_i same
          cases kept : keeps introduction.position with
          | false => rfl
          | true =>
              have keptEarlier : keeps earlier.position = true := same ▸ kept
              rw [List.filter_cons, if_pos keptEarlier, if_pos rfl, claim, if_neg notBefore, if_pos same]
        · rename_i differs
          rw [List.filter_cons, List.filter_cons, ih restOrdered]
          cases keptEarlier : keeps earlier.position with
          | false => rfl
          | true =>
              cases kept : keeps introduction.position with
              | false => rfl
              | true => simp [claim, notBefore, differs]

theorem ordered_foldl_claim (found : List Introduction) (ordered : Ordered claimed) :
    Ordered (found.foldl (fun claimed introduction => claim introduction claimed) claimed) := by
  induction found generalizing claimed with
  | nil => exact ordered
  | cons introduction rest ih => exact ih (ordered_claim ordered)

theorem filter_foldl_claim (keeps : Nat → Bool) (found : List Introduction) (ordered : Ordered claimed) :
    (found.foldl (fun claimed introduction => claim introduction claimed) claimed).filter
        (fun other => keeps other.position) =
      (found.filter fun other => keeps other.position).foldl (fun claimed introduction => claim introduction claimed)
        (claimed.filter fun other => keeps other.position) := by
  induction found generalizing claimed with
  | nil => rfl
  | cons introduction rest ih =>
      rw [List.foldl_cons, ih (ordered_claim ordered), filter_claim keeps ordered, List.filter_cons]
      cases keeps introduction.position <;> rfl

theorem ordered_claims (found : List Introduction) : Ordered (claims found) :=
  ordered_foldl_claim found List.Pairwise.nil

theorem mem_of_mem_foldl_claim {other : Introduction} {found : List Introduction}
    (member : other ∈ found.foldl (fun claimed introduction => claim introduction claimed) claimed) :
    other ∈ found ∨ other ∈ claimed := by
  induction found generalizing claimed with
  | nil => exact Or.inr member
  | cons introduction rest ih =>
      rcases ih member with inRest | inClaimed
      · exact Or.inl (List.mem_cons_of_mem introduction inRest)
      · rcases mem_of_mem_claim inClaimed with rfl | inClaimed
        · exact Or.inl List.mem_cons_self
        · exact Or.inr inClaimed

theorem mem_of_mem_claims {other : Introduction} {found : List Introduction} (member : other ∈ claims found) :
    other ∈ found :=
  (mem_of_mem_foldl_claim member).resolve_right List.not_mem_nil

/-- The positions that are left out do not matter to the others. -/
theorem filter_claims (keeps : Nat → Bool) (found : List Introduction) :
    (claims found).filter (fun introduction => keeps introduction.position) =
      claims (found.filter fun introduction => keeps introduction.position) :=
  filter_foldl_claim keeps found List.Pairwise.nil

structure KeepsOrder (move : Introduction → Introduction) (first second : Introduction) : Prop where
  before : (move first).position < (move second).position ↔ first.position < second.position
  same : (move first).position = (move second).position ↔ first.position = second.position

theorem claim_map {move : Introduction → Introduction}
    (keeps : ∀ other ∈ claimed, KeepsOrder move introduction other) :
    claim (move introduction) (claimed.map move) = (claim introduction claimed).map move := by
  induction claimed with
  | nil => rfl
  | cons earlier rest ih =>
      have first := keeps earlier List.mem_cons_self
      have later := ih fun other member => keeps other (List.mem_cons_of_mem earlier member)
      simp only [List.map_cons, claim, first.before, first.same]
      split
      · rfl
      · split
        · rfl
        · rw [List.map_cons, later]

theorem foldl_claim_map {move : Introduction → Introduction} (found : List Introduction)
    (keeps : ∀ first ∈ found, ∀ second, second ∈ found ∨ second ∈ claimed → KeepsOrder move first second) :
    (found.map move).foldl (fun claimed introduction => claim introduction claimed) (claimed.map move) =
      (found.foldl (fun claimed introduction => claim introduction claimed) claimed).map move := by
  induction found generalizing claimed with
  | nil => rfl
  | cons introduction rest ih =>
      rw [List.map_cons, List.foldl_cons, List.foldl_cons,
        claim_map fun other member => keeps introduction List.mem_cons_self other (Or.inr member)]
      apply ih
      intro first firstMember second member
      apply keeps first (List.mem_cons_of_mem introduction firstMember)
      rcases member with inRest | inClaimed
      · exact Or.inl (List.mem_cons_of_mem introduction inRest)
      · rcases mem_of_mem_claim inClaimed with rfl | inClaimed
        · exact Or.inl List.mem_cons_self
        · exact Or.inr inClaimed

/-- Positions that are moved without changing their order are claimed alike. -/
theorem claims_map {move : Introduction → Introduction} (found : List Introduction)
    (keeps : ∀ first ∈ found, ∀ second ∈ found, KeepsOrder move first second) :
    claims (found.map move) = (claims found).map move := by
  change (found.map move).foldl _ (([] : List Introduction).map move) = _
  refine foldl_claim_map found fun first firstMember second member => ?_
  exact keeps first firstMember second (member.resolve_right List.not_mem_nil)

end Deadwood.Source
