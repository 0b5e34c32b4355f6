import MiRelay.Desktop.CleanExit

/-!
# What a removal takes

A removal only takes entries away, none outside its root and none it keeps by
name. A tree without links that is not too deep loses every file it may take.
-/

namespace MiRelay

variable {io : FilePath → Bool} {t t' : FileTree} {p q path : FilePath} {n : Nat}

attribute [local simp] removeOwnedTree

/-- A property that every step keeps, wherever the steps stop. -/
theorem tree_bind {P : FileTree → Prop} {x : Except FileTree FileTree}
    {f : FileTree → Except FileTree FileTree} (hx : P x.tree) (hf : ∀ t, P t → P (f t).tree) :
    P (x >>= f).tree := by
  cases x with
  | error t => exact hx
  | ok t => exact hf t hx

theorem tree_foldlM {P : FileTree → Prop} {f : FileTree → String → Except FileTree FileTree}
    (hf : ∀ t name, P t → P (f t name).tree) {l : List String} {t : FileTree} (ht : P t) :
    P (l.foldlM f t).tree := by
  induction l generalizing t with
  | nil => exact ht
  | cons name l ih =>
    rw [List.foldlM_cons]
    exact tree_bind (hf t name ht) fun t' ht' => ih ht'

@[simp] theorem tree_ensureTree {c : Bool} : (ensureTree c t).tree = t := by
  unfold ensureTree
  split <;> rfl

theorem fileAt_lockExclusive (h : p ≠ appendName path ".lock") :
    (lockExclusive io path t).tree.fileAt p = t.fileAt p := by
  unfold lockExclusive
  dsimp only
  split
  · rfl
  · split
    · exact FileTree.fileAt_set_of_ne h.symm
    · rfl
    · rfl

theorem fileAt_atomicWrite {bytes : String} (h : p ≠ path) :
    (atomicWrite io path bytes t).tree.fileAt p = t.fileAt p := by
  unfold atomicWrite
  split
  · rfl
  · exact FileTree.fileAt_set_of_ne h.symm

/-- A path that a removal may take, by its place and its name. -/
def Reach (n : Nat) (path p : FilePath) : Prop :=
  path <+: p ∧ p.length < path.length + n ∧ keptName (p.getLastD "") = false

theorem Reach.below {name : String} (h : Reach n (path ++ [name]) p) : Reach (n + 1) path p := by
  obtain ⟨hbegins, hlength, hname⟩ := h
  refine ⟨(List.prefix_append path [name]).trans hbegins, ?_, hname⟩
  rw [List.length_append, List.length_singleton] at hlength
  omega

/-- Nothing is created or changed, only taken away. -/
def Taken (t t' : FileTree) : Prop := ∀ q, t'.get q = t.get q ∨ t'.get q = none

theorem Taken.trans {t'' : FileTree} (h : Taken t t') (h' : Taken t' t'') : Taken t t'' := by
  intro q
  rcases h' q with hsame | hnone
  · rw [hsame]
    exact h q
  · exact .inr hnone

theorem Taken.erase : Taken t (t.erase p) := by
  intro q
  by_cases hq : p = q
  · subst hq
    exact .inr FileTree.get_erase_self
  · exact .inl (FileTree.get_erase_of_ne hq)

theorem Taken.fileAt_none (h : Taken t t') (hp : t.fileAt p = none) : t'.fileAt p = none := by
  rcases h p with hsame | hnone
  · rw [FileTree.fileAt_congr hsame]
    exact hp
  · rw [FileTree.fileAt, hnone]

/-- A removal only takes away. -/
theorem taken_removeOwnedTree : Taken t (removeOwnedTree io n path t).tree := by
  induction n generalizing path t with
  | zero => exact fun q => .inl rfl
  | succ n ih =>
    rw [removeOwnedTree]
    split
    · exact fun q => .inl rfl
    · exact fun q => .inl rfl
    · refine tree_bind (P := Taken t) (tree_foldlM (fun t' name ht' => ht'.trans ih) fun q => .inl rfl)
        fun t' ht' => ?_
      split
      · split
        · exact ht'.trans .erase
        · exact ht'
      · exact ht'
    · split
      · exact fun q => .inl rfl
      · split
        · exact .erase
        · exact fun q => .inl rfl

/-- What is not below the root stays. -/
theorem get_removeOwnedTree (h : ¬path <+: p) :
    (removeOwnedTree io n path t).tree.get p = t.get p := by
  induction n generalizing path t with
  | zero => rfl
  | succ n ih =>
    have hne : path ≠ p := fun heq => h (heq ▸ List.prefix_rfl)
    rw [removeOwnedTree]
    split
    · rfl
    · rfl
    · refine tree_bind (P := fun t' => t'.get p = t.get p)
        (tree_foldlM (P := fun t' => t'.get p = t.get p) (fun t' name ht' => ?_) rfl)
        fun t' ht' => ?_
      · rw [ih fun hname => h ((List.prefix_append path [name]).trans hname)]
        exact ht'
      · split
        · split
          · exact (FileTree.get_erase_of_ne hne).trans ht'
          · exact ht'
        · exact ht'
    · split
      · rfl
      · split
        · exact FileTree.get_erase_of_ne hne
        · rfl

/-- Files that are out of reach stay. -/
theorem fileAt_removeOwnedTree (h : ¬Reach n path p) :
    (removeOwnedTree io n path t).tree.fileAt p = t.fileAt p := by
  induction n generalizing path t with
  | zero => rfl
  | succ n ih =>
    rw [removeOwnedTree]
    split
    · rfl
    · rfl
    · rename_i hdir
      refine tree_bind (P := fun t' => t'.fileAt p = t.fileAt p)
        (tree_foldlM (P := fun t' => t'.fileAt p = t.fileAt p) (fun t' name ht' => ?_) rfl)
        fun t' ht' => ?_
      · rw [ih fun hreach => h hreach.below]
        exact ht'
      · split
        · split
          · by_cases hp : path = p
            · -- The directory itself is no file, before and after.
              subst hp
              have hnone : t.fileAt path = none := by rw [FileTree.fileAt, hdir]
              have herased : (t'.erase path).fileAt path = none := by
                rw [FileTree.fileAt, FileTree.get_erase_self]
              exact herased.trans hnone.symm
            · exact (FileTree.fileAt_erase_of_ne hp).trans ht'
          · exact ht'
        · exact ht'
    · split
      · rfl
      · rename_i hname
        split
        · refine FileTree.fileAt_erase_of_ne fun heq => h ⟨heq ▸ List.prefix_rfl, ?_, ?_⟩
          · rw [heq]
            omega
          · rw [← heq]
            exact Bool.eq_false_iff.mpr hname
        · rfl

/-- A file that is kept by its name protects what lies below its path. -/
theorem fileAt_removeOwnedTree_kept {w : FilePath} (hpath : path <+: w)
    (hfile : (t.fileAt w).isSome = true) (hname : keptName (w.getLastD "") = true) :
    ∀ p, w <+: p → (removeOwnedTree io n path t).tree.fileAt p = t.fileAt p := by
  induction n generalizing path t with
  | zero => exact fun p _ => rfl
  | succ n ih =>
    rw [removeOwnedTree]
    split
    · exact fun p _ => rfl
    · exact fun p _ => rfl
    · rename_i hdir
      have hne : path ≠ w := by
        rintro rfl
        rw [FileTree.fileAt, hdir] at hfile
        contradiction
      have hlength : path.length < w.length :=
        lt_of_le_of_ne hpath.length_le fun heq => hne (hpath.eq_of_length heq)
      let P : FileTree → Prop := fun t' => ∀ p, w <+: p → t'.fileAt p = t.fileAt p
      refine tree_bind (P := P) (tree_foldlM (P := P) (fun t' name ht' => ?_) fun p _ => rfl)
        fun t' ht' => ?_
      · by_cases hbelow : path ++ [name] <+: w
        · have hfile' : (t'.fileAt w).isSome = true := by
            rw [ht' w List.prefix_rfl]
            exact hfile
          exact fun p hp => (ih hbelow hfile' p hp).trans (ht' p hp)
        · intro p hp
          have hother : ¬path ++ [name] <+: p := fun h =>
            hbelow (List.prefix_of_prefix_length_le h hp (by
              rw [List.length_append, List.length_singleton]
              omega))
          exact (FileTree.fileAt_congr (get_removeOwnedTree hother)).trans (ht' p hp)
      · have herase : P (t'.erase path) := fun p hp => by
          have hpne : path ≠ p := fun heq => by
            have hle := hp.length_le
            rw [← heq] at hle
            omega
          exact (FileTree.fileAt_erase_of_ne hpne).trans (ht' p hp)
        split
        · split
          · exact herase
          · exact ht'
        · exact ht'
    · rename_i hnode
      split
      · exact fun p _ => rfl
      · rename_i hkept
        have hne : path ≠ w := fun heq => hkept (heq ▸ hname)
        have hlength : path.length < w.length :=
          lt_of_le_of_ne hpath.length_le fun heq => hne (hpath.eq_of_length heq)
        split
        · intro p hp
          refine FileTree.fileAt_erase_of_ne fun heq => ?_
          have hle := hp.length_le
          rw [← heq] at hle
          omega
        · exact fun p _ => rfl

/-- No link and nothing too deep below the root. -/
structure Tame (n : Nat) (path : FilePath) (t : FileTree) : Prop where
  links : ∀ q, path <+: q → ∀ live, t.get q ≠ some (.symlink live)
  depth : ∀ q, path <+: q → t.get q ≠ none → q.length < path.length + n

theorem Tame.taken (h : Tame n path t) (ht : Taken t t') : Tame n path t' where
  links q hq live hlink := by
    rcases ht q with hsame | hnone
    · exact h.links q hq live (hsame.symm.trans hlink)
    · rw [hnone] at hlink
      contradiction
  depth q hq hsome := by
    rcases ht q with hsame | hnone
    · exact h.depth q hq (hsame ▸ hsome)
    · exact absurd hnone hsome

theorem Tame.below {name : String} (h : Tame (n + 1) path t) : Tame n (path ++ [name]) t where
  links q hq := h.links q ((List.prefix_append path [name]).trans hq)
  depth q hq hsome := by
    have hlength := h.depth q ((List.prefix_append path [name]).trans hq) hsome
    rw [List.length_append, List.length_singleton]
    omega

/-- A file that is not kept, in directories down from the root. -/
structure Doomed (path : FilePath) (t : FileTree) (v : FilePath) : Prop where
  below : path <+: v
  file : (t.fileAt v).isSome = true
  name : keptName (v.getLastD "") = false
  dirs : ∀ q, path <+: q → q <+: v → q ≠ v → t.get q = some .dir

/-- The next directory on the way to a doomed file. -/
theorem Doomed.next {v : FilePath} (h : Doomed path t v) (hne : path ≠ v) :
    ∃ name, name ∈ t.children path ∧ Doomed (path ++ [name]) t v := by
  obtain ⟨rest, rfl⟩ := h.below
  cases rest with
  | nil => exact absurd (List.append_nil path).symm hne
  | cons name rest =>
    have hbelow : path ++ [name] <+: path ++ name :: rest := ⟨rest, by simp⟩
    refine ⟨name, FileTree.mem_children.mpr fun hnone => ?_, hbelow, h.file, h.name,
      fun q hq => h.dirs q ((List.prefix_append path [name]).trans hq)⟩
    by_cases heq : path ++ [name] = path ++ name :: rest
    · have hfile := h.file
      rw [← heq, FileTree.fileAt, hnone] at hfile
      contradiction
    · have hdir := h.dirs _ (List.prefix_append path [name]) hbelow heq
      rw [hnone] at hdir
      contradiction

/-- What happens below another name does not save a doomed file. -/
theorem Doomed.keep {v : FilePath} {name other : String} (h : Doomed (path ++ [name]) t v)
    (hne : name ≠ other) (ht : ∀ q, ¬path ++ [other] <+: q → t'.get q = t.get q) :
    Doomed (path ++ [name]) t' v := by
  have hapart : ∀ q, path ++ [name] <+: q → ¬path ++ [other] <+: q := by
    rintro q ⟨r, rfl⟩ hother
    have hsame := List.prefix_of_prefix_length_le hother (List.prefix_append (path ++ [name]) r)
      (by simp)
    have heq := hsame.eq_of_length (by simp)
    exact hne (by simpa using heq.symm)
  refine ⟨h.below, ?_, h.name, fun q hq hqv hqne => ?_⟩
  · rw [FileTree.fileAt_congr (ht v (hapart v h.below))]
    exact h.file
  · rw [ht q (hapart q hq)]
    exact h.dirs q hq hqv hqne

/-- A tame tree loses every doomed file. -/
theorem removeOwnedTree_finishes (hn : 0 < n) (htame : Tame n path t) :
    ∃ t', removeOwnedTree (fun _ => true) n path t = .ok t' ∧
      ∀ v, Doomed path t v → t'.fileAt v = none := by
  induction n generalizing path t with
  | zero => contradiction
  | succ n ih =>
    have hfold : ∀ (l : List String) (t : FileTree), (l ≠ [] → 0 < n) → Tame (n + 1) path t →
        ∃ t', l.foldlM (fun t name => removeOwnedTree (fun _ => true) n (path ++ [name]) t) t =
          .ok t' ∧ Taken t t' ∧
          ∀ v, (∃ name ∈ l, Doomed (path ++ [name]) t v) → t'.fileAt v = none := by
      intro l
      induction l with
      | nil => exact fun t _ _ => ⟨t, rfl, fun q => .inl rfl, fun v ⟨_, hname, _⟩ => nomatch hname⟩
      | cons other l ihl =>
        intro t hpos htame
        obtain ⟨t₁, ht₁, hgone⟩ := ih (hpos (List.cons_ne_nil _ _)) htame.below
        have hstep : (removeOwnedTree (fun _ => true) n (path ++ [other]) t).tree = t₁ := by
          rw [ht₁]
          rfl
        have htaken : Taken t t₁ := hstep ▸ taken_removeOwnedTree
        obtain ⟨t₂, ht₂, htaken₂, hrest⟩ := ihl t₁ (fun _ => hpos (List.cons_ne_nil _ _))
          (htame.taken htaken)
        refine ⟨t₂, ?_, htaken.trans htaken₂, ?_⟩
        · rw [List.foldlM_cons, ht₁]
          exact ht₂
        · rintro v ⟨name, hname, hdoomed⟩
          by_cases hother : name = other
          · subst hother
            exact htaken₂.fileAt_none (hgone v hdoomed)
          · have hmem := (List.mem_cons.mp hname).resolve_left hother
            refine hrest v ⟨name, hmem, hdoomed.keep hother fun q hq => ?_⟩
            rw [← hstep]
            exact get_removeOwnedTree hq
    rw [removeOwnedTree]
    split
    · rename_i hnone
      refine ⟨t, rfl, fun v hv => ?_⟩
      by_cases hpath : path = v
      · have hfile := hv.file
        rw [← hpath, FileTree.fileAt, hnone] at hfile
        contradiction
      · have hdir := hv.dirs path List.prefix_rfl hv.below hpath
        rw [hnone] at hdir
        contradiction
    · rename_i live hlink
      exact absurd hlink (htame.links path List.prefix_rfl live)
    · rename_i hdir
      have hpos : t.children path ≠ [] → 0 < n := by
        intro hchildren
        obtain ⟨name, hname⟩ := List.exists_mem_of_ne_nil _ hchildren
        have hlength := htame.depth _ (List.prefix_append path [name])
          (FileTree.mem_children.mp hname)
        rw [List.length_append, List.length_singleton] at hlength
        omega
      obtain ⟨t₁, ht₁, -, hgone⟩ := hfold _ t hpos htame
      have hfiles : ∀ v, Doomed path t v → t₁.fileAt v = none := by
        intro v hv
        by_cases hpath : path = v
        · have hfile := hv.file
          rw [← hpath, FileTree.fileAt, hdir] at hfile
          contradiction
        · exact hgone v (hv.next hpath)
      rw [ht₁]
      by_cases hempty : t₁.children path = []
      · refine ⟨t₁.erase path, ?_, fun v hv => Taken.erase.fileAt_none (hfiles v hv)⟩
        simp [hempty, bind, Except.bind]
      · refine ⟨t₁, ?_, hfiles⟩
        simp [hempty, bind, Except.bind]
    · rename_i bytes hfile
      have hself : ∀ v, Doomed path t v → v = path := by
        intro v hv
        by_cases hpath : path = v
        · exact hpath.symm
        · have hdir := hv.dirs path List.prefix_rfl hv.below hpath
          rw [hfile] at hdir
          cases Option.some.inj hdir
      by_cases hkept : keptName (path.getLastD "") = true
      · refine ⟨t, by rw [if_pos hkept], fun v hv => ?_⟩
        have hname := hv.name
        rw [hself v hv, hkept] at hname
        contradiction
      · refine ⟨t.erase path, by rw [if_neg hkept, if_pos rfl], fun v hv => ?_⟩
        rw [hself v hv, FileTree.fileAt, FileTree.get_erase_self]

end MiRelay
