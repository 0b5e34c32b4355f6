import Mathlib

/-!
# Words with separators

A word over an alphabet with a separator letter has a proper ancestor for each
separator: what stands before it. The ancestors are the prefixes that a
component-wise path comparison looks at; the same relation is decided by
comparing a fixed number of leading letters.
-/

namespace MiRelay

variable {α : Type}

/-- Everything that stands before a separator of the word, shortest first. -/
def ancestors [DecidableEq α] (sep : α) : List α → List (List α)
  | [] => []
  | c :: w => (if c = sep then [[]] else []) ++ (ancestors sep w).map (c :: ·)

/-- The ancestors are the prefixes directly followed by a separator. -/
theorem mem_ancestors [DecidableEq α] {sep : α} {a w : List α} :
    a ∈ ancestors sep w ↔ ∃ r, w = a ++ sep :: r := by
  induction w generalizing a with
  | nil => simp [ancestors]
  | cons c w ih =>
    rw [ancestors, List.mem_append, List.mem_map]
    constructor
    · rintro (h | ⟨b, hb, rfl⟩)
      · split at h
        · rename_i hc
          rw [List.mem_singleton] at h
          exact ⟨w, by rw [h, hc, List.nil_append]⟩
        · contradiction
      · obtain ⟨r, rfl⟩ := ih.mp hb
        exact ⟨r, rfl⟩
    · rintro ⟨r, hr⟩
      cases a with
      | nil =>
        rw [List.nil_append, List.cons.injEq] at hr
        exact Or.inl (by simp [hr.1])
      | cons d b =>
        rw [List.cons_append, List.cons.injEq] at hr
        exact Or.inr ⟨b, ih.mpr ⟨r, hr.2⟩, by rw [hr.1]⟩

/-- Comparing as many leading letters as the prefix and its separator have decides the
ancestor relation. -/
theorem take_eq_append_singleton_iff {sep : α} {a w : List α} :
    w.take (a.length + 1) = a ++ [sep] ↔ ∃ r, w = a ++ sep :: r := by
  constructor
  · intro h
    refine ⟨w.drop (a.length + 1), ?_⟩
    calc w = w.take (a.length + 1) ++ w.drop (a.length + 1) := (List.take_append_drop _ _).symm
      _ = a ++ sep :: w.drop (a.length + 1) := by rw [h, List.append_assoc, List.singleton_append]
  · rintro ⟨r, rfl⟩
    rw [List.take_append, List.take_of_length_le (by omega)]
    simp

/-- The parts of a word contain no separator. -/
theorem notMem_of_mem_splitOn [DecidableEq α] {sep : α} {w part : List α}
    (h : part ∈ w.splitOn sep) : sep ∉ part := by
  induction w generalizing part with
  | nil =>
    rw [List.splitOn_eq_splitOnP, List.splitOnP_nil, List.mem_singleton] at h
    simp [h]
  | cons c w ih =>
    rw [List.splitOn_cons_eq_if_modifyHead] at h
    split at h
    · rcases List.mem_cons.mp h with rfl | h
      · simp
      · exact ih h
    · rename_i hc
      cases hs : w.splitOn sep with
      | nil => exact absurd hs (List.splitOn_ne_nil sep w)
      | cons p ps =>
        rw [hs] at h ih
        rcases List.mem_cons.mp h with rfl | h
        · simp only [List.mem_cons, not_or]
          exact ⟨fun h => hc (by simp [h]), ih (List.mem_cons_self ..)⟩
        · exact ih (List.mem_cons_of_mem _ h)

/-- The parts consist of letters of the word. -/
theorem mem_of_mem_splitOn [DecidableEq α] {sep : α} {w part : List α}
    (h : part ∈ w.splitOn sep) {c : α} (hc : c ∈ part) : c ∈ w := by
  induction w generalizing part with
  | nil =>
    rw [List.splitOn_eq_splitOnP, List.splitOnP_nil, List.mem_singleton] at h
    rwa [h] at hc
  | cons d w ih =>
    rw [List.splitOn_cons_eq_if_modifyHead] at h
    split at h
    · rcases List.mem_cons.mp h with rfl | h
      · contradiction
      · exact List.mem_cons_of_mem d (ih h hc)
    · cases hs : w.splitOn sep with
      | nil => exact absurd hs (List.splitOn_ne_nil sep w)
      | cons p ps =>
        rw [hs] at h ih
        rcases List.mem_cons.mp h with rfl | h
        · rcases List.mem_cons.mp hc with rfl | hc
          · exact List.mem_cons_self ..
          · exact List.mem_cons_of_mem d (ih (List.mem_cons_self ..) hc)
        · exact List.mem_cons_of_mem d (ih (List.mem_cons_of_mem _ h) hc)

/-- A proper ancestor is a different word. -/
theorem ne_of_ancestor {sep : α} {a w : List α} (h : ∃ r, w = a ++ sep :: r) : a ≠ w := by
  rintro rfl
  obtain ⟨r, hr⟩ := h
  have := congrArg List.length hr
  simp at this

end MiRelay
