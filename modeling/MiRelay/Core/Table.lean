import Mathlib

/-!
# Tables with uniqueness constraints and finite maps

A table is a list of rows in which no two rows clash; the constraint travels
with the rows, hence an insertion either respects it or fails. Rows are changed
by maps that create no clash and removed by predicates. Directories of files
are finite maps, for which the lookups after one change are given as equations.
-/

namespace MiRelay

/-- Rows of which no two violate the uniqueness constraint `clash`. -/
structure Table (α : Type) (clash : α → α → Bool) where
  /-- The rows in insertion order. -/
  rows : List α
  /-- No two rows violate the constraint. -/
  sound : rows.Pairwise fun a b => clash a b = false

namespace Table

variable {α : Type} {clash : α → α → Bool}

/-- The table without rows. -/
def empty : Table α clash := ⟨[], List.Pairwise.nil⟩

/-- Insert a row unless it clashes with a present one. -/
def insert (t : Table α clash) (a : α) : Option (Table α clash) :=
  if h : ∀ b ∈ t.rows, clash b a = false then
    some ⟨t.rows ++ [a], by
      rw [List.pairwise_append]
      exact ⟨t.sound, List.pairwise_singleton _ _, fun b hb c hc => by
        rw [List.mem_singleton] at hc
        exact hc ▸ h b hb⟩⟩
  else none

/-- Change every row by a map that creates no clash. -/
def update (t : Table α clash) (g : α → α) (hg : ∀ a b, clash (g a) (g b) = clash a b) :
    Table α clash :=
  ⟨t.rows.map g, by
    rw [List.pairwise_map]
    exact t.sound.imp fun {a b} h => (hg a b).trans h⟩

/-- Remove the rows with `p`. -/
def delete (t : Table α clash) (p : α → Bool) : Table α clash :=
  ⟨t.rows.filter fun a => !p a, t.sound.sublist List.filter_sublist⟩

@[simp] theorem rows_empty : (empty : Table α clash).rows = [] := rfl

@[simp] theorem rows_update (t : Table α clash) (g : α → α)
    (hg : ∀ a b, clash (g a) (g b) = clash a b) : (t.update g hg).rows = t.rows.map g := rfl

@[simp] theorem mem_delete {t : Table α clash} {p : α → Bool} {a : α} :
    a ∈ (t.delete p).rows ↔ a ∈ t.rows ∧ p a = false := by
  simp [delete]

/-- A successful insertion appends exactly the new row. -/
theorem rows_insert {t t' : Table α clash} {a : α} (h : t.insert a = some t') :
    t'.rows = t.rows ++ [a] := by
  unfold insert at h
  split at h
  · cases h
    rfl
  · contradiction

/-- A successful insertion found no clashing row. -/
theorem insert_free {t t' : Table α clash} {a : α} (h : t.insert a = some t') :
    ∀ b ∈ t.rows, clash b a = false := by
  unfold insert at h
  split at h
  · assumption
  · contradiction

/-- An insertion succeeds exactly when no present row clashes. -/
theorem insert_isSome_iff {t : Table α clash} {a : α} :
    (t.insert a).isSome ↔ ∀ b ∈ t.rows, clash b a = false := by
  unfold insert
  split <;> simp_all

/-- Two clashing rows of a table are the same row. -/
theorem eq_of_clash (t : Table α clash) (hsymm : ∀ a b, clash a b = clash b a) {a b : α}
    (ha : a ∈ t.rows) (hb : b ∈ t.rows) (h : clash a b = true) : a = b := by
  by_contra hne
  have : Std.Symm fun a b => clash a b = false := ⟨fun x y hxy => (hsymm y x).trans hxy⟩
  have hall := t.sound.forall ha hb hne
  rw [h] at hall
  contradiction

end Table

/-- A finite map, such as a directory of files by name. -/
abbrev Files (κ β : Type) : Type := AList fun _ : κ => β

namespace Files

variable {κ β : Type} [DecidableEq κ]

/-- After writing `k`, exactly `k` reads differently. -/
theorem lookup_insert (m : Files κ β) (k j : κ) (b : β) :
    (m.insert k b).lookup j = if j = k then some b else m.lookup j := by
  by_cases h : j = k
  · subst h
    rw [AList.lookup_insert, if_pos rfl]
  · rw [AList.lookup_insert_ne h, if_neg h]

/-- So with a default for missing names. -/
theorem getD_insert (m : Files κ β) (k j : κ) (b d : β) :
    ((m.insert k b).lookup j).getD d = if j = k then b else (m.lookup j).getD d := by
  rw [lookup_insert]
  split
  · rfl
  · rfl

/-- After removing `k`, exactly `k` is missing. -/
theorem lookup_erase (m : Files κ β) (k j : κ) :
    (m.erase k).lookup j = if j = k then none else m.lookup j := by
  by_cases h : j = k
  · subst h
    rw [AList.lookup_erase, if_pos rfl]
  · rw [AList.lookup_erase_ne h, if_neg h]

/-- The names of a finite map are those that can be looked up. -/
theorem mem_keys_iff (m : Files κ β) (k : κ) : k ∈ m.keys ↔ ∃ b, m.lookup k = some b := by
  rw [← AList.mem_keys, ← AList.lookup_isSome, Option.isSome_iff_exists]

/-- The values of a finite map. -/
def values (m : Files κ β) : List β := m.entries.map (·.2)

omit [DecidableEq κ] in
@[simp] theorem values_empty : values (∅ : Files κ β) = [] := rfl

theorem mem_values_iff (m : Files κ β) (b : β) : b ∈ m.values ↔ ∃ k, m.lookup k = some b := by
  simp only [values, List.mem_map, Sigma.exists, exists_eq_right, ← AList.mem_lookup_iff,
    Option.mem_def]

/-- Write the elements of a list one after the other. -/
def insertAll {α : Type} (m : Files κ β) (key : α → κ) (value : α → β) (l : List α) : Files κ β :=
  l.foldl (fun m a => m.insert (key a) (value a)) m

/-- Writing a list touches only the names of its elements. -/
theorem lookup_insertAll_of_notMem {α : Type} {key : α → κ} {value : α → β} {l : List α} {k : κ}
    (h : k ∉ l.map key) (m : Files κ β) :
    (m.insertAll key value l).lookup k = m.lookup k := by
  induction l generalizing m with
  | nil => rfl
  | cons a l ih =>
    rw [List.map_cons, List.mem_cons, not_or] at h
    rw [insertAll, List.foldl_cons]
    exact (ih h.2 _).trans (by rw [lookup_insert, if_neg h.1])

/-- Without repeated names every element of a written list is read back. -/
theorem lookup_insertAll_of_mem {α : Type} {key : α → κ} {value : α → β} {l : List α}
    (hl : (l.map key).Nodup) {a : α} (ha : a ∈ l) (m : Files κ β) :
    (m.insertAll key value l).lookup (key a) = some (value a) := by
  induction l generalizing m with
  | nil => contradiction
  | cons b l ih =>
    rw [List.map_cons, List.nodup_cons] at hl
    rw [insertAll, List.foldl_cons]
    rcases List.mem_cons.mp ha with rfl | ha
    · exact (lookup_insertAll_of_notMem hl.1 _).trans (by rw [lookup_insert, if_pos rfl])
    · exact ih hl.2 ha _

/-- What a map holds after writing a list without repeated names. -/
theorem lookup_insertAll_eq_some {α : Type} {key : α → κ} {value : α → β} {l : List α}
    (hl : (l.map key).Nodup) (m : Files κ β) {k : κ} {b : β} :
    (m.insertAll key value l).lookup k = some b ↔
      (∃ a ∈ l, key a = k ∧ value a = b) ∨ (k ∉ l.map key ∧ m.lookup k = some b) := by
  by_cases hk : k ∈ l.map key
  · obtain ⟨a, ha, rfl⟩ := List.mem_map.mp hk
    rw [lookup_insertAll_of_mem hl ha]
    constructor
    · intro h
      exact Or.inl ⟨a, ha, rfl, Option.some.inj h⟩
    · rintro (⟨c, hc, hkey, rfl⟩ | ⟨hn, -⟩)
      · rw [List.inj_on_of_nodup_map hl hc ha hkey]
      · exact absurd hk hn
  · rw [lookup_insertAll_of_notMem hk]
    constructor
    · intro h
      exact Or.inr ⟨hk, h⟩
    · rintro (⟨a, ha, rfl, -⟩ | ⟨-, h⟩)
      · exact absurd (List.mem_map_of_mem ha) hk
      · exact h

/-- A written name reads as the last element of that name. -/
theorem lookup_insertAll {α : Type} {key : α → κ} {value : α → β} {l : List α} (m : Files κ β)
    (k : κ) : (m.insertAll key value l).lookup k =
      ((l.reverse.find? fun a => key a = k).map value).or (m.lookup k) := by
  induction l generalizing m with
  | nil => rfl
  | cons a l ih =>
    rw [insertAll, List.foldl_cons]
    refine (ih _).trans ?_
    rw [List.reverse_cons, List.find?_append, lookup_insert]
    cases l.reverse.find? fun a => key a = k with
    | some b => rfl
    | none =>
      by_cases h : key a = k
      · rw [if_pos h.symm, List.find?_cons_of_pos (by simpa using h)]
        rfl
      · rw [if_neg (Ne.symm h), List.find?_cons_of_neg (by simpa using h)]
        rfl

/-- Values that tell their names apart are listed once each. -/
theorem nodup_values (m : Files κ β)
    (h : ∀ k k' b, m.lookup k = some b → m.lookup k' = some b → k = k') : m.values.Nodup := by
  have hkeys : m.entries.Pairwise fun e e' => e.1 ≠ e'.1 := List.pairwise_map.mp m.keys_nodup
  refine List.pairwise_map.mpr (hkeys.imp_of_mem fun {e e'} he he' hne heq => hne ?_)
  have hlookup := AList.mem_lookup_iff.mpr he
  have hlookup' := AList.mem_lookup_iff.mpr he'
  exact h e.1 e'.1 e.2 hlookup (heq ▸ hlookup')

/-- Change every value. -/
def modify (m : Files κ β) (change : κ → β → β) : Files κ β where
  entries := m.entries.map fun e => ⟨e.1, change e.1 e.2⟩
  nodupKeys := by
    have hkeys : (m.entries.map fun e => (⟨e.1, change e.1 e.2⟩ : Sigma fun _ : κ => β)).keys =
        m.entries.keys := by
      simp only [List.keys, List.map_map]
      rfl
    rw [List.NodupKeys, hkeys]
    exact m.nodupKeys

@[simp] theorem lookup_modify (m : Files κ β) (change : κ → β → β) (k : κ) :
    (m.modify change).lookup k = (m.lookup k).map (change k) := by
  refine Option.ext fun b => ?_
  rw [← Option.mem_def, AList.mem_lookup_iff, Option.map_eq_some_iff]
  simp only [modify, List.mem_map, Sigma.mk.injEq, heq_eq_eq, Sigma.exists, ← AList.mem_lookup_iff,
    Option.mem_def]
  constructor
  · rintro ⟨k', b', hlookup, rfl, rfl⟩
    exact ⟨b', hlookup, rfl⟩
  · rintro ⟨b', hlookup, rfl⟩
    exact ⟨k, b', hlookup, rfl, rfl⟩

end Files

end MiRelay
