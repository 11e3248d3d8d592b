import Mathlib.Data.List.Basic
import Deadwood.Text.Order
import Deadwood.Text.SortedSet

/-!
# Stable orders

Sorting leaves elements that are tied as they come, and that settles the result: two lists whose tied elements come alike are
sorted into the same list. Rows in strictly increasing order of their keys are settled by what rows there are.
-/

set_option autoImplicit false
namespace Deadwood

namespace Text

variable {α : Type} {le : α → α → Bool} {first second : List α}

def tied (le : α → α → Bool) (a b : α) : Bool :=
  le a b && le b a

structure Orders (le : α → α → Bool) : Prop where
  trans : ∀ a b c, le a b = true → le b c = true → le a c = true
  total : ∀ a b, (le a b || le b a) = true

theorem Orders.refl (orders : Orders le) (a : α) : le a a = true := by
  simpa using orders.total a a

theorem filter_tied_mergeSort (orders : Orders le) (items : List α) (a : α) :
    (items.mergeSort le).filter (tied le a) = items.filter (tied le a) := by
  have allTied : (items.filter (tied le a)).Pairwise fun b c => le b c = true := by
    refine List.pairwise_of_forall_mem_list fun b bMember c cMember => ?_
    have beforeA := (Bool.and_eq_true_iff.mp (List.mem_filter.mp bMember).2).2
    have afterA := (Bool.and_eq_true_iff.mp (List.mem_filter.mp cMember).2).1
    exact orders.trans b a c beforeA afterA
  have kept := (List.sublist_mergeSort orders.trans orders.total allTied List.filter_sublist).filter (tied le a)
  rw [List.filter_filter] at kept
  simp only [Bool.and_self] at kept
  -- what is tied comes in this order after sorting, and there is no more of it
  refine (kept.eq_of_length ?_).symm
  exact ((List.mergeSort_perm items le).filter _).length_eq.symm

/-- In order, and with the same tied elements, lists are the same. -/
theorem eq_of_pairwise_of_filter_tied (orders : Orders le) (firstSorted : first.Pairwise fun a b => le a b = true)
    (secondSorted : second.Pairwise fun a b => le a b = true)
    (same : ∀ a, first.filter (tied le a) = second.filter (tied le a)) : first = second := by
  have selfTied : ∀ a, tied le a a = true := fun a => by simp [tied, orders.refl a]
  induction first generalizing second with
  | nil =>
      cases second with
      | nil => rfl
      | cons b others =>
          have none := same b
          rw [List.filter_cons, if_pos (selfTied b)] at none
          cases none
  | cons a rest ih =>
      cases second with
      | nil =>
          have none := same a
          rw [List.filter_cons, if_pos (selfTied a)] at none
          cases none
      | cons b others =>
          have least : ∀ {x y : α} {items : List α}, (x :: items).Pairwise (fun a b => le a b = true) →
              y ∈ x :: items → le x y = true := by
            intro x y items sorted member
            rcases List.mem_cons.mp member with rfl | later
            · exact orders.refl y
            · exact (List.pairwise_cons.mp sorted).1 y later
          have aInSecond : a ∈ b :: others := by
            have member : a ∈ (a :: rest).filter (tied le a) := List.mem_filter.mpr ⟨List.mem_cons_self, selfTied a⟩
            rw [same a] at member
            exact (List.mem_filter.mp member).1
          have bInFirst : b ∈ a :: rest := by
            have member : b ∈ (b :: others).filter (tied le b) := List.mem_filter.mpr ⟨List.mem_cons_self, selfTied b⟩
            rw [← same b] at member
            exact (List.mem_filter.mp member).1
          -- each head comes first of all, so the two are tied, and the tied come in the same order in both lists
          have headsTied : tied le a b = true := by
            rw [tied, least firstSorted bInFirst, least secondSorted aInSecond]
            rfl
          have sameHead : a = b := by
            have heads := same a
            rw [List.filter_cons, List.filter_cons, if_pos (selfTied a), if_pos headsTied] at heads
            exact (List.cons.inj heads).1
          subst sameHead
          rw [ih (List.pairwise_cons.mp firstSorted).2 (List.pairwise_cons.mp secondSorted).2 fun c => ?_]
          have tails := same c
          rw [List.filter_cons, List.filter_cons] at tails
          split at tails
          · exact (List.cons.inj tails).2
          · exact tails

theorem mergeSort_eq_of_filter_tied (orders : Orders le)
    (same : ∀ a, first.filter (tied le a) = second.filter (tied le a)) :
    first.mergeSort le = second.mergeSort le := by
  refine eq_of_pairwise_of_filter_tied orders (List.pairwise_mergeSort orders.trans orders.total _)
    (List.pairwise_mergeSort orders.trans orders.total _) fun a => ?_
  rw [filter_tied_mergeSort orders, filter_tied_mergeSort orders, same]

theorem mergeSort_eq_of_perm (orders : Orders le) (perm : first.Perm second)
    (untied : ∀ a ∈ first, ∀ b ∈ second, le a b = true → le b a = true → a = b) :
    first.mergeSort le = second.mergeSort le := by
  refine ((List.mergeSort_perm first le).trans (perm.trans (List.mergeSort_perm second le).symm)).eq_of_pairwise ?_
    (List.pairwise_mergeSort orders.trans orders.total _) (List.pairwise_mergeSort orders.trans orders.total _)
  intro a b aMember bMember
  exact untied a (List.mem_mergeSort.mp aMember) b (List.mem_mergeSort.mp bMember)

theorem orders_notAfter {key : α → List String} : Orders fun a b => notAfter (key a) (key b) where
  trans _ _ _ := notAfter_trans
  total _ _ := notAfter_total _ _

theorem eq_of_pairwise_key_lt {key : α → String} (firstSorted : (first.map key).Pairwise (· < ·))
    (secondSorted : (second.map key).Pairwise (· < ·)) (sameKeys : ∀ wanted, wanted ∈ first.map key ↔ wanted ∈ second.map key)
    (sameRows : ∀ row ∈ first, ∀ other ∈ second, key row = key other → row = other) : first = second := by
  have sameNames : first.map key = second.map key := eq_of_pairwise_lt firstSorted secondSorted sameKeys
  clear firstSorted secondSorted sameKeys
  induction first generalizing second with
  | nil => exact (List.map_eq_nil_iff.mp sameNames.symm).symm
  | cons row rest ih =>
      cases second with
      | nil => cases sameNames
      | cons other others =>
          obtain ⟨sameKey, sameRest⟩ := List.cons.inj sameNames
          rw [sameRows row List.mem_cons_self other List.mem_cons_self sameKey,
            ih (fun row member other otherMember =>
              sameRows row (List.mem_cons_of_mem _ member) other (List.mem_cons_of_mem _ otherMember)) sameRest]

end Text

end Deadwood
