import Mathlib

/-!
# Replacing the middle of a list

Two lists are compared from the front, and what is left of them from the back.
What lies between differs at both ends; replacing it in the one list makes it the
other one. A list whose elements stand for those of the first, replaced at the
same places, stands for the second, and keeps its elements on both sides.
-/

namespace MiRelay

variable {α β : Type}

/-- A part of a list by its bounds, which must be in order and within it. -/
def slice (xs : List α) (start stop : Nat) : Option (List α) :=
  if start ≤ stop ∧ stop ≤ xs.length then some ((xs.take stop).drop start) else none

/-- A difference that is none if it is negative. -/
def checkedSub (m n : Nat) : Option Nat := if n ≤ m then some (m - n) else none

/-- The list with some elements replaced. -/
def replaceRange (xs : List α) (position removals : Nat) (added : List α) : List α :=
  xs.take position ++ added ++ xs.drop (position + removals)

theorem slice_eq_some {xs : List α} {start stop : Nat} (h : start ≤ stop)
    (hstop : stop ≤ xs.length) : slice xs start stop = some ((xs.take stop).drop start) :=
  if_pos ⟨h, hstop⟩

theorem checkedSub_eq_some {m n : Nat} (h : n ≤ m) : checkedSub m n = some (m - n) := if_pos h

/-- The middle of three parts is replaced. -/
theorem replaceRange_parts (front middle back added : List α) :
    replaceRange (front ++ middle ++ back) front.length middle.length added =
      front ++ added ++ back := by
  rw [replaceRange, ← List.length_append, List.drop_left, List.append_assoc front middle back,
    List.take_left]

/-- The middle of three parts lies between its bounds. -/
theorem slice_parts (front middle back : List α) :
    slice (front ++ middle ++ back) front.length ((front ++ middle ++ back).length - back.length) =
      some middle := by
  have hstop : (front ++ middle ++ back).length - back.length = (front ++ middle).length := by
    rw [List.length_append, Nat.add_sub_cancel]
  rw [hstop, slice_eq_some (by simp) (by simp), List.take_left, List.drop_left]

/-- A list that stands for three parts has three parts. -/
theorem exists_parts {f : β → α} {items : List β} {front middle back : List α}
    (h : items.map f = front ++ middle ++ back) : ∃ front' middle' back',
      items = front' ++ middle' ++ back' ∧ front'.map f = front ∧ middle'.map f = middle ∧
      back'.map f = back := by
  obtain ⟨rest, back', hitems, hrest, hback⟩ := List.map_eq_append_iff.mp h
  obtain ⟨front', middle', hsplit, hfront, hmiddle⟩ := List.map_eq_append_iff.mp hrest
  exact ⟨front', middle', back', by rw [hitems, hsplit], hfront, hmiddle, hback⟩

variable [DecidableEq α]

/-- How many elements two lists begin with in common. -/
def commonLength (xs ys : List α) : Nat := ((xs.zip ys).takeWhile fun p => p.1 = p.2).length

@[simp] theorem commonLength_nil_left (ys : List α) : commonLength [] ys = 0 := rfl

@[simp] theorem commonLength_nil_right (xs : List α) : commonLength xs [] = 0 := by
  simp [commonLength]

theorem commonLength_cons (x y : α) (xs ys : List α) :
    commonLength (x :: xs) (y :: ys) = if x = y then commonLength xs ys + 1 else 0 := by
  by_cases h : x = y
  · simp [commonLength, h]
  · simp [commonLength, h]

/-- The common beginning of two lists, and where they differ. -/
theorem commonLength_spec (xs ys : List α) : ∃ common xs' ys', common.length = commonLength xs ys ∧
    xs = common ++ xs' ∧ ys = common ++ ys' ∧ ∀ z, xs'.head? = some z → ys'.head? ≠ some z := by
  induction xs generalizing ys with
  | nil => exact ⟨[], [], ys, rfl, rfl, rfl, nofun⟩
  | cons x xs ih =>
    cases ys with
    | nil => exact ⟨[], x :: xs, [], by simp, rfl, rfl, fun _ _ => nofun⟩
    | cons y ys =>
      rw [commonLength_cons]
      split_ifs with heq
      · obtain ⟨common, xs', ys', hlength, hxs, hys, hdiffer⟩ := ih ys
        exact ⟨x :: common, xs', ys', by simp [hlength], by rw [hxs, List.cons_append],
          by rw [← heq, hys, List.cons_append], hdiffer⟩
      · refine ⟨[], x :: xs, y :: ys, rfl, rfl, rfl, fun z hz hz' => heq ?_⟩
        rw [List.head?_cons, Option.some.injEq] at hz hz'
        rw [hz, hz']

/-- Two lists are a common beginning, a common end and middles that share neither their first
nor their last elements. -/
structure Middles (xs ys front xs' ys' back : List α) : Prop where
  left : xs = front ++ xs' ++ back
  right : ys = front ++ ys' ++ back
  heads : ∀ z, xs'.head? = some z → ys'.head? ≠ some z
  lasts : ∀ z, xs'.getLast? = some z → ys'.getLast? ≠ some z

/-- Compared from both sides, two lists are cut into such parts. -/
theorem exists_middles (xs ys : List α) : ∃ front xs' ys' back, Middles xs ys front xs' ys' back ∧
    front.length = commonLength xs ys ∧
    back.length = commonLength (xs.drop front.length).reverse (ys.drop front.length).reverse := by
  obtain ⟨front, xs₁, ys₁, hfront, hxs, hys, hheads⟩ := commonLength_spec xs ys
  obtain ⟨back, xs₂, ys₂, hback, hxs₁, hys₁, hlasts⟩ := commonLength_spec xs₁.reverse ys₁.reverse
  rw [List.reverse_eq_iff, List.reverse_append] at hxs₁ hys₁
  refine ⟨front, xs₂.reverse, ys₂.reverse, back.reverse, ⟨?_, ?_, fun z hz hz' => ?_,
    fun z hz hz' => ?_⟩, hfront, ?_⟩
  · rw [hxs, hxs₁, List.append_assoc]
  · rw [hys, hys₁, List.append_assoc]
  · refine hheads z ?_ ?_
    · rw [hxs₁, List.head?_append, hz, Option.some_or]
    · rw [hys₁, List.head?_append, hz', Option.some_or]
  · rw [List.getLast?_reverse] at hz hz'
    exact hlasts z hz hz'
  · rw [List.length_reverse, hback, hxs, hys, List.drop_left, List.drop_left]

end MiRelay
