import MiRelay.Storage.Receiving

/-!
# What a run leaves in a library

Outside the staging directory nothing goes, and what comes is the declared object or
what another process has put there. Inside, a run leaves the marker and files under
names of temporary files; a cleanup removes these and leaves everything else.
-/

namespace MiRelay

namespace Storage

open Proc

/-! ### Objects -/

section Objects

variable {A : Nat → IoAnswer} {names : String → Bool} {s t : LibraryState} {step : LibraryStep}
  {shard name : String} {object : Bytes → Prop}

/-- Outside the staging directory nothing has changed but that an object has come: the `object`, or
what another process has put there. -/
def Grown (A : Nat → IoAnswer) (shard name : String) (object : Bytes → Prop) (s t : LibraryState) :
    Prop :=
  ∀ d n, d ≠ stagingDirName → t.entry d n = s.entry d n ∨
    (d = shard ∧ n = name ∧ s.entry d n = none ∧ ∃ e, t.entry d n = some e ∧
      ((∃ bytes, object bytes ∧ e = .file bytes) ∨ ∃ m, (A m).appears = some e))

theorem Grown.refl : Grown A shard name object s s := fun _ _ _ => Or.inl rfl

/-- One step. -/
theorem Grown.receives (h : Grown A shard name object s t)
    (hstep : Receives A names shard name object t step) :
    Grown A shard name object s (t.apply step) := by
  intro d n hd
  -- A free place was free before, as no object goes.
  have hfree (hnone : t.entry shard name = none) (hshard : shard ≠ stagingDirName) :
      s.entry shard name = none := by
    rcases h shard name hshard with heq | ⟨-, -, hfree, -⟩
    · rw [← heq, hnone]
    · exact hfree
  cases hstep with
  | prepares hstep =>
    rw [hstep.entry_of_ne hd]
    exact h d n hd
  | put hname hfile hobject hnone =>
    rw [LibraryState.entry_rename hfile]
    split
    · rename_i hplace
      obtain ⟨rfl, rfl⟩ := hplace
      exact Or.inr ⟨rfl, rfl, hfree hnone hd, _, rfl, Or.inl ⟨_, hobject, rfl⟩⟩
    · rw [if_neg fun hplace => hd hplace.1]
      exact h d n hd
  | appear hA hnone =>
    rw [LibraryState.entry_appear]
    split
    · rename_i hplace
      obtain ⟨rfl, rfl⟩ := hplace
      exact Or.inr ⟨rfl, rfl, hfree hnone hd, _, rfl, Or.inr ⟨_, hA⟩⟩
    · exact h d n hd

/-- An object that was there is still there. -/
theorem Grown.keeps (h : Grown A shard name object s t) {d n : String} (hd : d ≠ stagingDirName)
    {e : Entry} (he : s.entry d n = some e) : t.entry d n = some e := by
  rcases h d n hd with heq | ⟨-, -, hnone, -⟩
  · rw [heq, he]
  · exact absurd (hnone.symm.trans he) (by simp)

end Objects

/-! ### Staging files -/

section Staged

variable {A : Nat → IoAnswer} {names : String → Bool} {s t : LibraryState} {step : LibraryStep}
  {shard name : String} {object : Bytes → Prop}

/-- What a step does to one name in the staging directory: nothing, or it makes the marker, or it
works on a temporary file. -/
def Handled (names : String → Bool) (n : String) (before after : Option Entry) : Prop :=
  after = before ∨ (n = stagingOwnerFile ∧ before = none) ∨
    (names n = true ∧ (∀ e, before = some e → e.removable = true) ∧
      ∀ e, after = some e → e.removable = true)

theorem Prepares.handled (h : Prepares A names t step) (n : String) :
    Handled names n (t.entry stagingDirName n) ((t.apply step).entry stagingDirName n) := by
  cases h with
  | answered => exact Or.inl rfl
  | makeDirectory h => exact Or.inl (LibraryState.entry_makeDirectory h _ _)
  | create hname hfree =>
    rw [LibraryState.entry_create]
    split
    · rename_i hplace
      obtain ⟨-, rfl⟩ := hplace
      exact Or.inr (Or.inr ⟨hname, by simp [hfree], by simp [Entry.removable]⟩)
    · exact Or.inl rfl
  | @append name bytes hname =>
    cases hentry : t.entry stagingDirName name with
    | none =>
      rw [LibraryState.apply, hentry]
      exact Or.inl rfl
    | some e =>
      cases e with
      | file content =>
        rw [LibraryState.entry_append hentry]
        split
        · rename_i hplace
          obtain ⟨-, rfl⟩ := hplace
          rw [hentry]
          exact Or.inr (Or.inr ⟨hname, by simp [Entry.removable], by simp [Entry.removable]⟩)
        · exact Or.inl rfl
      | _ =>
        rw [LibraryState.apply, hentry]
        exact Or.inl rfl
  | remove hname hentry =>
    rw [LibraryState.entry_remove]
    split
    · rename_i hplace
      obtain ⟨-, rfl⟩ := hplace
      refine Or.inr (Or.inr ⟨hname, hentry, fun _ h => ?_⟩)
      contradiction
    · exact Or.inl rfl
  | claim hname hfile hfree =>
    rw [LibraryState.entry_rename hfile]
    split
    · rename_i hplace
      obtain ⟨-, rfl⟩ := hplace
      exact Or.inr (Or.inl ⟨rfl, hfree⟩)
    · split
      · rename_i hplace
        obtain ⟨-, rfl⟩ := hplace
        rw [hfile]
        refine Or.inr (Or.inr ⟨hname, by simp [Entry.removable], fun _ h => ?_⟩)
        contradiction
      · exact Or.inl rfl
  | appear hA hfree =>
    rw [LibraryState.entry_appear]
    split
    · rename_i hplace
      obtain ⟨-, rfl⟩ := hplace
      exact Or.inr (Or.inl ⟨rfl, hfree⟩)
    · exact Or.inl rfl

theorem Receives.handled (h : Receives A names shard name object t step)
    (hshard : shard ≠ stagingDirName) (n : String) :
    Handled names n (t.entry stagingDirName n) ((t.apply step).entry stagingDirName n) := by
  cases h with
  | prepares h => exact h.handled n
  | put hname hfile hobject hfree =>
    rw [LibraryState.entry_rename hfile, if_neg fun hplace => hshard hplace.1.symm]
    split
    · rename_i hplace
      obtain ⟨-, rfl⟩ := hplace
      rw [hfile]
      exact Or.inr (Or.inr ⟨hname, by simp [Entry.removable], fun _ h => nomatch h⟩)
    · exact Or.inl rfl
  | appear hA hfree =>
    rw [LibraryState.entry_appear, if_neg fun hplace => hshard hplace.1.symm]
    exact Or.inl rfl

/-- What has come into the staging directory is the marker or has one of the `names`, and what has
gone had one. -/
def Staged (names : String → Bool) (s t : LibraryState) : Prop :=
  (∀ n e, t.entry stagingDirName n = some e → s.entry stagingDirName n = some e ∨
    n = stagingOwnerFile ∨ (names n = true ∧ e.removable = true)) ∧
  ∀ n e, s.entry stagingDirName n = some e → t.entry stagingDirName n = some e ∨
    (names n = true ∧ e.removable = true)

theorem Staged.refl : Staged names s s := ⟨fun _ _ h => Or.inl h, fun _ _ h => Or.inl h⟩

/-- One step. -/
theorem Staged.next (h : Staged names s t)
    (hstep : ∀ n, Handled names n (t.entry stagingDirName n)
      ((t.apply step).entry stagingDirName n)) : Staged names s (t.apply step) := by
  refine ⟨fun n e he => ?_, fun n e he => ?_⟩
  · rcases hstep n with hsame | ⟨rfl, -⟩ | ⟨hname, -, hafter⟩
    · exact h.1 n e (hsame ▸ he)
    · exact Or.inr (Or.inl rfl)
    · exact Or.inr (Or.inr ⟨hname, hafter e he⟩)
  · rcases h.2 n e he with ht | hgone
    · rcases hstep n with hsame | ⟨rfl, hnone⟩ | ⟨hname, hbefore, -⟩
      · exact Or.inl (hsame ▸ ht)
      · exact absurd (hnone.symm.trans ht) (by simp)
      · exact Or.inr ⟨hname, hbefore e ht⟩
    · exact Or.inr hgone

end Staged

/-! ### Cleaning up -/

section Cleanup

variable {A : Nat → IoAnswer} {names : String → Bool} {s : LibraryState}

/-- The names that a cleanup removes: those of temporary markers only while there is no marker. -/
def sweeps (s : LibraryState) (name : String) : Bool :=
  isOwnedTemporary name ||
    (isOwnerTemp name && (s.entry stagingDirName stagingOwnerFile).isNone)

/-- The scan removes what it recognizes among the entries found. -/
theorem removeStale_meets (hnames : ∀ n, isOwnedTemporary n = true → names n = true)
    (found : List String) :
    Meets (removeStale found) s (Prepares A names) (OnSuccess fun _ t => ∀ n e,
      t.entry stagingDirName n = some e → s.entry stagingDirName n = some e ∧
        (n ∈ found → isOwnedTemporary n = true → e.removable = false)) := by
  induction found generalizing s with
  | nil =>
    rw [removeStale, meets_pure]
    rintro _ ⟨⟩ n e he
    exact ⟨he, fun h => absurd h List.not_mem_nil⟩
  | cons name rest ih =>
    apply Meets.afterCall .answered
    apply Meets.read
    rw [meets_ite]
    constructor
    · intro h
      rw [Bool.and_eq_true] at h
      refine Meets.afterAct .answered (.remove (hnames _ h.1) fun e he => ?_)
        (Meets.bind ih fun _ t ht => ?_)
      · have hany := h.2
        rw [LibraryState.entry_answered] at he
        rw [he] at hany
        exact hany
      · rw [meets_pure]
        rintro _ ⟨⟩ n e he
        obtain ⟨hs, hrest⟩ := ht n e he
        rw [LibraryState.entry_remove] at hs
        split at hs
        · contradiction
        · rename_i hne
          exact ⟨hs, fun hmem => hrest ((List.mem_cons.mp hmem).resolve_left fun heq =>
            hne ⟨rfl, heq⟩)⟩
    · intro h
      refine ih.imp fun _ t ht n e he => ?_
      obtain ⟨hs, hrest⟩ := ht n e he
      refine ⟨hs, fun hmem howned => ?_⟩
      rcases List.mem_cons.mp hmem with rfl | hmem
      · rw [howned, hs, Bool.true_and, Option.any_some] at h
        exact Bool.eq_false_iff.mpr h
      · exact hrest hmem howned

/-- A run of `cleanup_staging`. -/
theorem cleanupStaging_meets : Meets cleanupStaging s (Prepares s.answers (sweeps s))
    (OnSuccess fun _ t => ∀ n e, t.entry stagingDirName n = some e →
      isOwnedTemporary n = true → e.removable = false) := by
  have hA : From s.answers s := fun n => ⟨n, rfl⟩
  apply Meets.afterCall .answered
  have hprepared : Prepared s.answers (sweeps s) ensureStagingDirectory (s.apply .answered) :=
    ensureStagingDirectory_prepared (hA.apply .answered) fun hnone n hn => by
      have hmissing : s.entry stagingDirName stagingOwnerFile = none := hnone
      rw [sweeps, hn, hmissing]
      exact Bool.or_true _
  refine Meets.bind hprepared fun _ t _ => ?_
  apply Meets.afterCall .answered
  apply Meets.read
  have hnames : ∀ n, isOwnedTemporary n = true → sweeps s n = true := fun n hn => by
    rw [sweeps, hn, Bool.true_or]
  refine Meets.bind ((removeStale_meets hnames _).imp fun _ u hu n e he howned =>
    (hu n e he).2 ((Files.mem_keys_iff _ _).mpr ⟨e, (hu n e he).1⟩) howned) fun removed u hu => ?_
  dsimp only
  rw [meets_ite]
  constructor
  · intro _
    apply Meets.afterCall .answered
    rw [meets_pure]
    rintro _ ⟨⟩
    exact hu
  · intro _
    rw [meets_pure]
    rintro _ ⟨⟩
    exact hu

end Cleanup

end Storage

end MiRelay
