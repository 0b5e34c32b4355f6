import MiRelay.Core.Durable

/-!
# Two machines that take turns

A run of two machines is a list in which the steps of one are mixed with those of
the other. Each machine only sees its own steps; where a step of the first needs
one of the second before it, that is a condition on the list.
-/

namespace MiRelay

variable {σ τ ι κ : Type}

/-- The steps of the first machine. -/
def lefts (w : List (ι ⊕ κ)) : List ι := w.filterMap Sum.getLeft?

/-- The steps of the second machine. -/
def rights (w : List (ι ⊕ κ)) : List κ := w.filterMap Sum.getRight?

section Steps

variable (w v : List (ι ⊕ κ)) (e : ι) (k : κ)

@[simp] theorem lefts_nil : lefts ([] : List (ι ⊕ κ)) = [] := rfl

@[simp] theorem rights_nil : rights ([] : List (ι ⊕ κ)) = [] := rfl

@[simp] theorem lefts_append : lefts (w ++ v) = lefts w ++ lefts v := List.filterMap_append

@[simp] theorem rights_append : rights (w ++ v) = rights w ++ rights v := List.filterMap_append

@[simp] theorem lefts_map (l : List ι) : lefts (l.map (.inl : ι → ι ⊕ κ)) = l := by
  rw [lefts, List.filterMap_map]
  exact List.filterMap_some

@[simp] theorem rights_map (l : List κ) : rights (l.map (.inr : κ → ι ⊕ κ)) = l := by
  rw [rights, List.filterMap_map]
  exact List.filterMap_some

@[simp] theorem lefts_map_inr (l : List κ) : lefts (l.map (.inr : κ → ι ⊕ κ)) = [] := by
  rw [lefts, List.filterMap_map]
  exact List.filterMap_eq_nil_iff.mpr fun _ _ => rfl

@[simp] theorem rights_map_inl (l : List ι) : rights (l.map (.inl : ι → ι ⊕ κ)) = [] := by
  rw [rights, List.filterMap_map]
  exact List.filterMap_eq_nil_iff.mpr fun _ _ => rfl

@[simp] theorem lefts_inl : lefts [(.inl e : ι ⊕ κ)] = [e] := rfl

@[simp] theorem lefts_inr : lefts [(.inr k : ι ⊕ κ)] = [] := rfl

@[simp] theorem rights_inl : rights [(.inl e : ι ⊕ κ)] = [] := rfl

@[simp] theorem rights_inr : rights [(.inr k : ι ⊕ κ)] = [k] := rfl

end Steps

/-- Each step of the first machine is allowed after what the second one has done so far. -/
def Follows (P : List κ → ι → Prop) (w : List (ι ⊕ κ)) : Prop :=
  ∀ pre e post, w = pre ++ .inl e :: post → P (rights pre) e

/-- A run in two parts; the second begins after what the first has done. -/
theorem follows_append {P : List κ → ι → Prop} {w v : List (ι ⊕ κ)} :
    Follows P (w ++ v) ↔ Follows P w ∧ Follows (fun m => P (rights w ++ m)) v := by
  constructor
  · intro h
    constructor
    · intro pre e post hw
      refine h pre e (post ++ v) ?_
      rw [hw, List.append_assoc, List.cons_append]
    · intro pre e post hv
      rw [← rights_append]
      refine h (w ++ pre) e post ?_
      rw [hv, List.append_assoc]
  · rintro ⟨hw, hv⟩ pre e post hsplit
    rcases List.append_eq_append_iff.mp hsplit with ⟨d, rfl, hd⟩ | ⟨d, rfl, hd⟩
    · rw [rights_append]
      exact hv d e post hd
    · cases d with
      | nil =>
        rw [List.append_nil] at hv
        simpa using hv [] e post hd.symm
      | cons first rest =>
        rw [List.cons_append, List.cons.injEq] at hd
        obtain ⟨rfl, -⟩ := hd
        exact hw pre e rest rfl

/-- A run of the first machine alone. -/
theorem follows_lefts {P : List κ → ι → Prop} {l : List ι} (h : ∀ e ∈ l, P [] e) :
    Follows P (l.map .inl) := fun pre e post hl => by
  have hmem : (.inl e : ι ⊕ κ) ∈ l.map .inl := by
    rw [hl]
    exact List.mem_append_right _ List.mem_cons_self
  obtain ⟨e', he', heq⟩ := List.mem_map.mp hmem
  have hnone : rights pre = [] := by
    refine List.filterMap_eq_nil_iff.mpr fun step hstep => ?_
    have hin : step ∈ l.map .inl := by
      rw [hl]
      exact List.mem_append_left _ hstep
    obtain ⟨e'', -, rfl⟩ := List.mem_map.mp hin
    rfl
  rw [hnone]
  exact Sum.inl.inj heq ▸ h e' he'

/-- A run of the second machine alone. -/
theorem follows_rights {P : List κ → ι → Prop} (l : List κ) :
    Follows P (l.map .inr) := fun pre e post hl => by
  have hmem : (.inl e : ι ⊕ κ) ∈ l.map .inr := by
    rw [hl]
    exact List.mem_append_right _ List.mem_cons_self
  obtain ⟨k, -, heq⟩ := List.mem_map.mp hmem
  contradiction

theorem Follows.last {P : List κ → ι → Prop} {w : List (ι ⊕ κ)} {e : ι}
    (h : Follows P (w ++ [.inl e])) : P (rights w) e := h w e [] rfl

variable {left : σ → ι → σ} {right : τ → κ → τ} {G : σ → ι → Prop} {H : τ → κ → Prop}
  {P : List κ → ι → Prop}

/-- What every step of either machine keeps holds after the run. -/
theorem interleaved_invariant {I : List κ → σ → τ → Prop} {s : σ} {t : τ} {w : List (ι ⊕ κ)}
    (hleft : Guarded left G s (lefts w)) (hright : Guarded right H t (rights w))
    (hfollows : Follows P w) (h0 : I [] s t)
    (hl : ∀ m u v e, I m u v → G u e → P m e → I m (left u e) v)
    (hr : ∀ m u v k, I m u v → H v k → I (m ++ [k]) u (right v k)) :
    I (rights w) (after left s (lefts w)) (after right t (rights w)) := by
  induction w using List.reverseRecOn with
  | nil => exact h0
  | append_singleton w step ih =>
    rw [lefts_append, guarded_append] at hleft
    rw [rights_append, guarded_append] at hright
    have hbefore := ih hleft.1 hright.1 (follows_append.mp hfollows).1
    cases step with
    | inl e =>
      rw [lefts_append, rights_append, lefts_inl, rights_inl, List.append_nil, after_append]
      exact hl _ _ _ _ hbefore (guarded_cons.mp hleft.2).1 hfollows.last
    | inr k =>
      rw [lefts_append, rights_append, lefts_inr, rights_inr, List.append_nil, after_append]
      exact hr _ _ _ _ hbefore (guarded_cons.mp hright.2).1

end MiRelay
