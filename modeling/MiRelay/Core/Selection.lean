import Mathlib

/-!
# Selecting and sorting

Operations of a standard library that say little about the order in which they
leave elements: the values of a hash map, an unstable sort, and a partition around
the element of one position. Where a comparison tells the elements apart, sorting
what the partition left in front gives the front of the sorted list.
-/

namespace MiRelay

open Std

variable {α : Type} {cmp : α → α → Ordering} {l m : List α}

/-- Sort by a comparison. -/
def sortBy (cmp : α → α → Ordering) (l : List α) : List α := l.mergeSort fun a b => (cmp a b).isLE

/-- The order in which a list is sorted. -/
def SortedBy (cmp : α → α → Ordering) (l : List α) : Prop := l.Pairwise fun a b => (cmp a b).isLE

/-- A comparison tells the elements of a list apart. -/
def Separates (cmp : α → α → Ordering) (l : List α) : Prop :=
  ∀ a ∈ l, ∀ b ∈ l, cmp a b = .eq → a = b

theorem sortBy_perm : (sortBy cmp l).Perm l := List.mergeSort_perm _ _

theorem sortedBy_sortBy [TransCmp cmp] : SortedBy cmp (sortBy cmp l) := by
  refine List.pairwise_mergeSort (fun a b c => TransCmp.isLE_trans) (fun a b => ?_) l
  rw [Bool.or_eq_true]
  by_cases h : (cmp a b).isLE
  · exact .inl h
  · exact .inr (Ordering.isLE_of_eq_lt (OrientedCmp.lt_of_not_isLE h))

/-- Only one list of the same elements is sorted. -/
theorem eq_sortBy [TransCmp cmp] (hperm : m.Perm l) (hsorted : SortedBy cmp m)
    (hl : Separates cmp l) : m = sortBy cmp l := by
  refine List.Perm.eq_of_pairwise (fun a b ha hb hab hba => ?_) hsorted sortedBy_sortBy
    (hperm.trans sortBy_perm.symm)
  exact hl a (hperm.mem_iff.mp ha) b (sortBy_perm.mem_iff.mp hb)
    (OrientedCmp.isLE_antisymm hab hba)

theorem Separates.of_perm (h : Separates cmp l) (hperm : m.Perm l) : Separates cmp m :=
  fun a ha b hb => h a (hperm.mem_iff.mp ha) b (hperm.mem_iff.mp hb)

theorem sortBy_congr [TransCmp cmp] (hperm : m.Perm l) (hl : Separates cmp l) :
    sortBy cmp m = sortBy cmp l :=
  eq_sortBy (sortBy_perm.trans hperm) sortedBy_sortBy hl

/-- The front of a partition, sorted, is the front of the sorted list. -/
theorem sortBy_take [TransCmp cmp] {front back : List α} (hperm : (front ++ back).Perm l)
    (hparted : ∀ a ∈ front, ∀ b ∈ back, (cmp a b).isLE) (hl : Separates cmp l) :
    sortBy cmp front = (sortBy cmp l).take front.length := by
  have hwhole : sortBy cmp front ++ sortBy cmp back = sortBy cmp l := by
    refine eq_sortBy ((sortBy_perm.append sortBy_perm).trans hperm) ?_ hl
    refine List.pairwise_append.mpr ⟨sortedBy_sortBy, sortedBy_sortBy, fun a ha b hb => ?_⟩
    exact hparted a (sortBy_perm.mem_iff.mp ha) b (sortBy_perm.mem_iff.mp hb)
  rw [← hwhole, List.take_left' sortBy_perm.length_eq]

/-- What a standard library promises of these operations. -/
structure Unstable where
  /-- The values of a hash map, in the order in which it yields them. -/
  intoValues : ∀ {α : Type}, List α → List α
  /-- `sort_unstable_by`. -/
  sortUnstableBy : ∀ {α : Type}, (α → α → Ordering) → List α → List α
  /-- `select_nth_unstable_by`. -/
  selectNthUnstableBy : ∀ {α : Type}, (α → α → Ordering) → Nat → List α → List α
  intoValues_perm : ∀ {α : Type} (l : List α), (intoValues l).Perm l
  sort_perm : ∀ {α : Type} (cmp : α → α → Ordering) (l : List α), (sortUnstableBy cmp l).Perm l
  sort_sorted : ∀ {α : Type} (cmp : α → α → Ordering) [TransCmp cmp] (l : List α),
    SortedBy cmp (sortUnstableBy cmp l)
  select_perm : ∀ {α : Type} (cmp : α → α → Ordering) (n : Nat) (l : List α),
    (selectNthUnstableBy cmp n l).Perm l
  select_parted : ∀ {α : Type} (cmp : α → α → Ordering) [TransCmp cmp] (n : Nat) (l : List α),
    n < l.length → ∃ (front : List α) (x : α) (back : List α), selectNthUnstableBy cmp n l = front ++ x :: back ∧
      front.length = n ∧ (∀ a ∈ front, (cmp a x).isLE) ∧ ∀ b ∈ back, (cmp x b).isLE

namespace Unstable

variable (u : Unstable)

/-- An unstable sort is the sort. -/
theorem sort_eq [TransCmp cmp] (hl : Separates cmp l) : u.sortUnstableBy cmp l = sortBy cmp l :=
  eq_sortBy (u.sort_perm cmp l) (u.sort_sorted cmp l) hl

/-- The first elements after a selection, sorted. -/
theorem sort_take_select [TransCmp cmp] {n : Nat} (hl : Separates cmp l) (hn : n < l.length) :
    u.sortUnstableBy cmp ((u.selectNthUnstableBy cmp n l).take n) = (sortBy cmp l).take n := by
  obtain ⟨front, x, back, hselect, rfl, hfront, hback⟩ := u.select_parted cmp n l hn
  have hperm : (front ++ x :: back).Perm l := hselect ▸ u.select_perm cmp front.length l
  have hparted : ∀ a ∈ front, ∀ b ∈ x :: back, (cmp a b).isLE := by
    intro a ha b hb
    rcases List.mem_cons.mp hb with rfl | hb
    · exact hfront a ha
    · exact TransCmp.isLE_trans (hfront a ha) (hback b hb)
  have hsub : Separates cmp front := fun a ha b hb =>
    hl a (hperm.mem_iff.mp (List.mem_append_left _ ha)) b
      (hperm.mem_iff.mp (List.mem_append_left _ hb))
  rw [hselect, List.take_left' rfl, u.sort_eq hsub]
  exact sortBy_take hperm hparted hl

/-- A library that sorts where it may choose. -/
def sorting : Unstable where
  intoValues l := l
  sortUnstableBy := sortBy
  selectNthUnstableBy cmp _ l := sortBy cmp l
  intoValues_perm _ := .refl _
  sort_perm _ _ := sortBy_perm
  sort_sorted _ _ _ := sortedBy_sortBy
  select_perm _ _ _ := sortBy_perm
  select_parted := by
    intro α cmp _ n l hn
    have hlength : n < (sortBy cmp l).length := by rwa [sortBy_perm.length_eq]
    have hsplit : (sortBy cmp l).take n ++ (sortBy cmp l)[n] :: (sortBy cmp l).drop (n + 1) =
        sortBy cmp l := by
      rw [← List.drop_eq_getElem_cons hlength, List.take_append_drop]
    have hsorted : SortedBy cmp (sortBy cmp l) := sortedBy_sortBy
    rw [SortedBy, ← hsplit, List.pairwise_append, List.pairwise_cons] at hsorted
    obtain ⟨-, ⟨hback, -⟩, hfront⟩ := hsorted
    refine ⟨_, _, _, hsplit.symm, ?_, fun a ha => hfront a ha _ List.mem_cons_self, hback⟩
    rw [List.length_take]
    omega

end Unstable

end MiRelay
