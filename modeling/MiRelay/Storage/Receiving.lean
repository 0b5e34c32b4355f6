import MiRelay.Storage.ContentPaths

/-!
# What `receive` does to a library

Every step of `receive` makes a missing directory, works on a name in the staging
directory that a later cleanup knows, or puts the object where nothing is. So a run
that is cut off anywhere has changed no object.
-/

namespace MiRelay

/-! ### Streams with failures -/

/-- The pieces of a stream up to its end, if none of them fails. -/
def streamPieces : List ReadStep → Option (List Bytes)
  | [] => some []
  | ⟨.ok [], _⟩ :: _ => some []
  | ⟨.ok (b :: bytes), .ok ()⟩ :: rest => (streamPieces rest).map ((b :: bytes) :: ·)
  | _ => none

/-- What a stream that does not fail contains. -/
def streamOf (reads : List ReadStep) : Option Bytes := (streamPieces reads).map List.flatten

theorem ne_nil_of_streamPieces {reads : List ReadStep} {pieces : List Bytes}
    (h : streamPieces reads = some pieces) : ∀ piece ∈ pieces, piece ≠ [] := by
  induction reads using streamPieces.induct generalizing pieces with
  | case1 | case2 =>
    rw [streamPieces, Option.some.injEq] at h
    rw [← h]
    exact fun piece hpiece => absurd hpiece List.not_mem_nil
  | case3 b bytes rest ih =>
    rw [streamPieces] at h
    obtain ⟨pieces', hpieces, rfl⟩ := Option.map_eq_some_iff.mp h
    exact List.forall_mem_cons.mpr ⟨List.cons_ne_nil _ _, ih hpieces⟩
  | case4 =>
    rw [streamPieces] at h
    · contradiction
    all_goals assumption

section Copy

variable {sha256 : Bytes → String} {hasher : Hasher sha256} {maxFileSize : Nat}
  {expectedSize : Option Nat}

attribute [local simp] streamPieces

/-- A read that gives something, then the others. -/
theorem Copying.copy_step (c : Copying hasher) {bytes : Bytes} (hne : bytes ≠ [])
    (write : Result Unit) (rest : List ReadStep) :
    c.copy maxFileSize expectedSize (⟨.ok bytes, write⟩ :: rest) =
      (c.copy maxFileSize expectedSize [⟨.ok bytes, write⟩] >>= fun next =>
        next.copy maxFileSize expectedSize rest) := by
  have hempty : bytes.isEmpty = false := List.isEmpty_eq_false_iff.mpr hne
  have hok {α β : Type} (a : α) (f : α → Result β) : ((.ok a : Result α) >>= f) = f a := rfl
  simp only [Copying.copy, hok, hempty, Bool.false_eq_true, if_false, bind_assoc]

/-- A stream that does not fail is copied as its pieces. -/
theorem Copying.copy_of_streamPieces {reads : List ReadStep} {pieces : List Bytes}
    (h : streamPieces reads = some pieces) (c : Copying hasher) :
    c.copy maxFileSize expectedSize reads =
      c.copy maxFileSize expectedSize (pieces.map .good) := by
  induction reads using streamPieces.induct generalizing pieces c with
  | case1 | case2 =>
    rw [streamPieces, Option.some.injEq] at h
    rw [← h]
    rfl
  | case3 b bytes rest ih =>
    rw [streamPieces] at h
    obtain ⟨pieces', hpieces, rfl⟩ := Option.map_eq_some_iff.mp h
    rw [List.map_cons, ReadStep.good, copy_step c (List.cons_ne_nil b bytes),
      copy_step c (List.cons_ne_nil b bytes) _ (pieces'.map .good)]
    exact congrArg _ (funext fun next => ih hpieces next)
  | case4 =>
    rw [streamPieces] at h
    · contradiction
    all_goals assumption

/-- What is copied could be written, and is written. -/
theorem Copying.written_of_copy {c next : Copying hasher} {bytes : Bytes} (hne : bytes ≠ [])
    {write : Result Unit}
    (h : c.copy maxFileSize expectedSize [⟨.ok bytes, write⟩] = .ok next) :
    write = .ok () ∧ next.written = c.written ++ bytes := by
  have hempty : bytes.isEmpty = false := List.isEmpty_eq_false_iff.mpr hne
  have hok {α β : Type} (a : α) (f : α → Result β) : ((.ok a : Result α) >>= f) = f a := rfl
  simp only [Copying.copy, hok, hempty, Bool.false_eq_true, if_false, bind_eq_ok,
    Except.ok.injEq] at h
  obtain ⟨_, -, _, -, _, -, _, hwrite, rfl⟩ := h
  exact ⟨hwrite, rfl⟩

/-- A stream that is copied does not fail. -/
theorem Copying.exists_streamPieces {reads : List ReadStep} {c c' : Copying hasher}
    (h : c.copy maxFileSize expectedSize reads = .ok c') :
    ∃ pieces, streamPieces reads = some pieces := by
  induction reads generalizing c with
  | nil => exact ⟨[], rfl⟩
  | cons step rest ih =>
    obtain ⟨read, write⟩ := step
    cases read with
    | error e => contradiction
    | ok bytes =>
      cases bytes with
      | nil => exact ⟨[], rfl⟩
      | cons b bytes =>
        rw [copy_step c (List.cons_ne_nil b bytes), bind_eq_ok] at h
        obtain ⟨next, hnext, hrest⟩ := h
        obtain ⟨pieces, hpieces⟩ := ih hrest
        rw [(written_of_copy (List.cons_ne_nil b bytes) hnext).1, streamPieces, hpieces]
        exact ⟨_, rfl⟩

open Storage in
/-- What is found of a stream, with what was written: the stream did not fail. -/
theorem finishCopy_eq_ok (hmax : maxFileSize < 2 ^ 64) {reads : List ReadStep} {bytes : Bytes}
    {found : FileInspection} :
    (∃ c : Copying hasher, (Copying.new hasher).copy maxFileSize expectedSize reads = .ok c ∧
        finishCopy expectedSize c = .ok found ∧ c.written = bytes) ↔
      streamOf reads = some bytes ∧
        copyAndInspect sha256 maxFileSize expectedSize bytes = .ok found := by
  have hcopyReads (reads : List ReadStep) :
      copyReads hasher maxFileSize expectedSize reads = .ok (found, bytes) ↔
        ∃ c : Copying hasher, (Copying.new hasher).copy maxFileSize expectedSize reads = .ok c ∧
          finishCopy expectedSize c = .ok found ∧ c.written = bytes := by
    simp only [copyReads, finishCopy, bind_eq_ok, pure_eq_ok, Prod.mk.injEq]
    constructor
    · rintro ⟨c, hc, u, hsize, v, hzero, hfound, hwritten⟩
      exact ⟨c, hc, ⟨u, hsize, v, hzero, hfound⟩, hwritten⟩
    · rintro ⟨c, hc, ⟨u, hsize, v, hzero, hfound⟩, hwritten⟩
      exact ⟨c, hc, u, hsize, v, hzero, hfound, hwritten⟩
  constructor
  · rintro ⟨c, hc, hrest⟩
    obtain ⟨pieces, hpieces⟩ := Copying.exists_streamPieces hc
    rw [Copying.copy_of_streamPieces hpieces] at hc
    have hfound := (copyReads_eq_ok hasher hmax (ne_nil_of_streamPieces hpieces)).mp
      ((hcopyReads _).mpr ⟨c, hc, hrest⟩)
    rw [streamOf, hpieces, hfound.2]
    exact ⟨rfl, hfound.1⟩
  · rintro ⟨hstream, hfound⟩
    obtain ⟨pieces, hpieces, rfl⟩ := Option.map_eq_some_iff.mp hstream
    obtain ⟨c, hc, hrest⟩ := (hcopyReads _).mp
      ((copyReads_eq_ok hasher hmax (ne_nil_of_streamPieces hpieces)).mpr ⟨hfound, rfl⟩)
    exact ⟨c, (Copying.copy_of_streamPieces hpieces _).trans hc, hrest⟩

end Copy

namespace Storage

/-! ### Single steps -/

namespace LibraryState

variable {s : LibraryState}

attribute [local simp] apply entry

theorem entries_setEntries (d d' : String) (entries : Files String Entry) :
    (s.setEntries d entries).entries d' = if d' = d then entries else s.entries d' := by
  rw [LibraryState.entries, setEntries]
  dsimp only
  rw [Files.lookup_insert]
  by_cases h : d' = d
  · rw [if_pos h, if_pos h]
  · rw [if_neg h, if_neg h, LibraryState.entries]

theorem entry_setEntries (d d' n : String) (entries : Files String Entry) :
    (s.setEntries d entries).entry d' n = if d' = d then entries.lookup n else s.entry d' n := by
  rw [entry, entries_setEntries]
  split
  · rfl
  · rfl

@[simp] theorem entry_answered (d n : String) : (s.apply .answered).entry d n = s.entry d n := rfl

@[simp] theorem nodes_answered : (s.apply .answered).nodes = s.nodes := rfl

/-- A new directory is empty, as was the missing one. -/
theorem entry_makeDirectory {name : String} (h : s.nodes.lookup name = none) (d n : String) :
    (s.apply (.makeDirectory name)).entry d n = s.entry d n := by
  rw [apply, entry_setEntries]
  split
  · rename_i hd
    rw [hd, entry, entries, h]
  · rfl

theorem entry_create (dir name d n : String) :
    (s.apply (.create dir name)).entry d n =
      if d = dir ∧ n = name then some (.file []) else s.entry d n := by
  rw [apply, entry_setEntries, Files.lookup_insert]
  grind [entry]

theorem entry_append {dir name : String} {content : Bytes}
    (h : s.entry dir name = some (.file content)) (bytes : Bytes) (d n : String) :
    (s.apply (.append dir name bytes)).entry d n =
      if d = dir ∧ n = name then some (.file (content ++ bytes)) else s.entry d n := by
  rw [apply, h]
  dsimp only
  rw [entry_setEntries, Files.lookup_insert]
  grind [entry]

theorem entry_remove (dir name d n : String) :
    (s.apply (.remove dir name)).entry d n =
      if d = dir ∧ n = name then none else s.entry d n := by
  rw [apply, entry_setEntries, Files.lookup_erase]
  grind [entry]

theorem entry_rename {dir name : String} {moved : Entry} (h : s.entry dir name = some moved)
    (dir' name' d n : String) :
    (s.apply (.rename dir name dir' name')).entry d n =
      if d = dir' ∧ n = name' then some moved
      else if d = dir ∧ n = name then none else s.entry d n := by
  rw [apply, h]
  dsimp only
  rw [entry_setEntries, Files.lookup_insert, entries_setEntries, entry_setEntries]
  grind [entry, Files.lookup_erase]

theorem entry_appear (dir name d n : String) (e : Entry) :
    (s.apply (.appear dir name e)).entry d n =
      if d = dir ∧ n = name then some e else s.entry d n := by
  rw [apply, entry_setEntries, Files.lookup_insert]
  grind [entry]

/-- The places that a step can change. -/
def places : LibraryStep → List (String × String)
  | .answered | .makeDirectory _ => []
  | .create d n | .append d n _ | .remove d n | .appear d n _ => [(d, n)]
  | .rename d n d' n' => [(d, n), (d', n')]

/-- All other places stay as they are. -/
theorem entry_of_notMem_places {step : LibraryStep} {d n : String} (h : (d, n) ∉ places step)
    (hmake : ∀ name, step = .makeDirectory name → s.nodes.lookup name = none) :
    (s.apply step).entry d n = s.entry d n := by
  cases step with
  | answered => rfl
  | makeDirectory name => exact entry_makeDirectory (hmake name rfl) d n
  | create dir name =>
    rw [entry_create, if_neg]
    simpa [places] using h
  | append dir name bytes =>
    cases hentry : s.entry dir name with
    | none => rw [apply, hentry]
    | some e =>
      cases e with
      | file content =>
        rw [entry_append hentry, if_neg]
        simpa [places] using h
      | _ => rw [apply, hentry]
  | rename dir name dir' name' =>
    cases hentry : s.entry dir name with
    | none => rw [apply, hentry]
    | some e =>
      simp only [places, List.mem_cons, Prod.mk.injEq, List.not_mem_nil, or_false, not_or] at h
      rw [entry_rename hentry, if_neg h.2, if_neg h.1]
  | remove dir name =>
    rw [entry_remove, if_neg]
    simpa [places] using h
  | appear dir name e =>
    rw [entry_appear, if_neg]
    simpa [places] using h

end LibraryState

/-! ### What a step may do -/

/-- A name that a cleanup knows. -/
def isLeftover (name : String) : Bool := isOwnedTemporary name || isOwnerTemp name

/-- All answers are among `A`. -/
def From (A : Nat → IoAnswer) (s : LibraryState) : Prop := ∀ n, ∃ m, s.answers n = A m

/-- Steps that prepare the staging directory or work on temporary files there that have one of the
`names`. -/
inductive Prepares (A : Nat → IoAnswer) (names : String → Bool) (s : LibraryState) :
    LibraryStep → Prop
  | answered : Prepares A names s .answered
  | makeDirectory {name : String} (h : s.nodes.lookup name = none) :
    Prepares A names s (.makeDirectory name)
  | create {name : String} (hname : names name = true)
    (hfree : s.entry stagingDirName name = none) :
    Prepares A names s (.create stagingDirName name)
  | append {name : String} {bytes : Bytes} (hname : names name = true) :
    Prepares A names s (.append stagingDirName name bytes)
  | remove {name : String} (hname : names name = true)
    (hentry : ∀ e, s.entry stagingDirName name = some e → e.removable = true) :
    Prepares A names s (.remove stagingDirName name)
  | claim {name : String} (hname : names name = true)
    (hfile : s.entry stagingDirName name = some (.file stagingOwnerContent))
    (hfree : s.entry stagingDirName stagingOwnerFile = none) :
    Prepares A names s (.rename stagingDirName name stagingDirName stagingOwnerFile)
  | appear {n : Nat} {entry : Entry} (hA : (A n).appears = some entry)
    (hfree : s.entry stagingDirName stagingOwnerFile = none) :
    Prepares A names s (.appear stagingDirName stagingOwnerFile entry)

/-- Steps of `receive`: besides these, a file that is the `object` is put where no object is, unless
another process has put one there. -/
inductive Receives (A : Nat → IoAnswer) (names : String → Bool) (shard name : String)
    (object : Bytes → Prop) (s : LibraryState) : LibraryStep → Prop
  | prepares {step : LibraryStep} (h : Prepares A names s step) :
    Receives A names shard name object s step
  | put {temporary : String} {bytes : Bytes} (hname : names temporary = true)
    (hfile : s.entry stagingDirName temporary = some (.file bytes)) (hobject : object bytes)
    (hfree : s.entry shard name = none) :
    Receives A names shard name object s (.rename stagingDirName temporary shard name)
  | appear {n : Nat} {entry : Entry} (hA : (A n).appears = some entry)
    (hfree : s.entry shard name = none) :
    Receives A names shard name object s (.appear shard name entry)

section Guards

variable {A : Nat → IoAnswer} {names names' : String → Bool} {s : LibraryState}
  {step : LibraryStep} {d n shard name : String} {object : Bytes → Prop}

theorem From.apply (h : From A s) (step : LibraryStep) : From A (s.apply step) := by
  cases step with
  | answered => exact fun n => h (n + 1)
  | append dir name bytes =>
    unfold LibraryState.apply
    dsimp only
    split
    · exact h
    · exact h
  | rename dir name dir' name' =>
    unfold LibraryState.apply
    dsimp only
    split
    · exact h
    · exact h
  | _ => exact h

theorem Prepares.mono (h : Prepares A names s step)
    (hnames : ∀ n, names n = true → names' n = true) : Prepares A names' s step := by
  cases h with
  | answered => exact .answered
  | makeDirectory h => exact .makeDirectory h
  | create hname hfree => exact .create (hnames _ hname) hfree
  | append hname => exact .append (hnames _ hname)
  | remove hname hentry => exact .remove (hnames _ hname) hentry
  | claim hname hfile hfree => exact .claim (hnames _ hname) hfile hfree
  | appear hA hfree => exact .appear hA hfree

theorem Prepares.missing (h : Prepares A names s step) (name : String)
    (hmake : step = .makeDirectory name) : s.nodes.lookup name = none := by
  subst hmake
  cases h with
  | makeDirectory h => exact h

/-- Outside the staging directory nothing changes. -/
theorem Prepares.entry_of_ne (h : Prepares A names s step) (hd : d ≠ stagingDirName) :
    (s.apply step).entry d n = s.entry d n := by
  apply LibraryState.entry_of_notMem_places _ h.missing
  cases h with
  | answered | makeDirectory => exact List.not_mem_nil
  | _ => simp [LibraryState.places, hd]

/-- Under other names nothing changes but that a marker is made. -/
theorem Prepares.entry_of_names (h : Prepares A names s step) (hn : names n = false)
    (howner : n = stagingOwnerFile → s.entry stagingDirName n ≠ none) :
    (s.apply step).entry d n = s.entry d n := by
  apply LibraryState.entry_of_notMem_places _ h.missing
  have hne {name : String} (hname : names name = true) : n ≠ name := by
    rintro rfl
    exact absurd (hname.symm.trans hn) (by decide)
  have howner (hfree : s.entry stagingDirName stagingOwnerFile = none) : n ≠ stagingOwnerFile := by
    rintro rfl
    exact howner rfl hfree
  cases h with
  | answered | makeDirectory => exact List.not_mem_nil
  | create hname | append hname | remove hname => simp [LibraryState.places, hne hname]
  | claim hname _ hfree => simp [LibraryState.places, hne hname, howner hfree]
  | appear hA hfree => simp [LibraryState.places, howner hfree]

/-- No temporary file has the name of the marker. -/
theorem ne_stagingOwnerFile (h : isLeftover n = true) : n ≠ stagingOwnerFile := by
  rintro rfl
  have howner : isLeftover stagingOwnerFile = false := rfl
  rw [howner] at h
  contradiction

/-- What a temporary file's name stands for can be removed. -/
theorem Prepares.removable (h : Prepares A names s step) (hn : n ≠ stagingOwnerFile)
    (hs : ∀ e, s.entry stagingDirName n = some e → e.removable = true) :
    ∀ e, (s.apply step).entry stagingDirName n = some e → e.removable = true := by
  cases h with
  | answered => exact hs
  | makeDirectory h =>
    rw [LibraryState.entry_makeDirectory h]
    exact hs
  | create hname hfree =>
    rw [LibraryState.entry_create]
    split
    · rintro _ ⟨⟩
      rfl
    · exact hs
  | @append name bytes hname =>
    cases hentry : s.entry stagingDirName name with
    | none =>
      rw [LibraryState.apply, hentry]
      exact hs
    | some e =>
      cases e with
      | file content =>
        rw [LibraryState.entry_append hentry]
        split
        · rintro _ ⟨⟩
          rfl
        · exact hs
      | _ =>
        rw [LibraryState.apply, hentry]
        exact hs
  | remove hname hentry =>
    rw [LibraryState.entry_remove]
    split
    · exact fun _ h => nomatch h
    · exact hs
  | claim hname hfile hfree =>
    rw [LibraryState.entry_rename hfile, if_neg fun h => hn h.2]
    split
    · exact fun _ h => nomatch h
    · exact hs
  | appear hA hfree =>
    rw [LibraryState.entry_appear, if_neg fun h => hn h.2]
    exact hs

/-- So can it during the steps of `receive`. -/
theorem Receives.removable (h : Receives A names shard name object s step)
    (hshard : shard ≠ stagingDirName) (hn : n ≠ stagingOwnerFile)
    (hs : ∀ e, s.entry stagingDirName n = some e → e.removable = true) :
    ∀ e, (s.apply step).entry stagingDirName n = some e → e.removable = true := by
  cases h with
  | prepares h => exact h.removable hn hs
  | put hname hfile hobject hfree =>
    rw [LibraryState.entry_rename hfile, if_neg fun h => hshard h.1.symm]
    split
    · exact fun _ h => nomatch h
    · exact hs
  | appear hA hfree =>
    rw [LibraryState.entry_appear, if_neg fun h => hshard h.1.symm]
    exact hs

end Guards

/-! ### Staging -/

section Staging

open Proc

variable {A : Nat → IoAnswer} {names : String → Bool} {s : LibraryState}
  {G : LibraryState → LibraryStep → Prop}

@[simp] theorem meets_ask {Q : Except Error IoAnswer → LibraryState → Prop} :
    Meets ask s G Q ↔ G s .answered ∧ Q (.ok (s.answers 0)) (s.apply .answered) := by
  simp [ask]

@[simp] theorem meets_call {Q : Except Error Unit → LibraryState → Prop} :
    Meets call s G Q ↔ G s .answered ∧ Q (s.answers 0).done (s.apply .answered) := by
  simp [call]

@[simp] theorem meets_act {step : LibraryStep} {Q : Except Error Unit → LibraryState → Prop} :
    Meets (act step) s G Q ↔ G s .answered ∧ match (s.answers 0).done with
      | .ok _ => G (s.apply .answered) step ∧ Q (.ok ()) ((s.apply .answered).apply step)
      | .error e => Q (.error e) (s.apply .answered) := by
  simp only [act, meets_bind, meets_call]
  cases (s.answers 0).done with
  | error e => exact Iff.rfl
  | ok u => simp only [meets_emit]

/-- A call whose failure is of no interest. -/
theorem Meets.afterCall {α : Type} {f : Unit → LibraryProc α} {post : α → LibraryState → Prop}
    (hG : G s .answered) (hf : Meets (f ()) (s.apply .answered) G (OnSuccess post)) :
    Meets (call >>= f) s G (OnSuccess post) := by
  rw [meets_bind, meets_call]
  refine ⟨hG, ?_⟩
  cases (s.answers 0).done with
  | error e => exact onSuccess_error.mpr trivial
  | ok u => exact hf

/-- A changing call whose failure is of no interest. -/
theorem Meets.afterAct {α : Type} {step : LibraryStep} {f : Unit → LibraryProc α}
    {post : α → LibraryState → Prop} (hG : G s .answered) (hstep : G (s.apply .answered) step)
    (hf : Meets (f ()) ((s.apply .answered).apply step) G (OnSuccess post)) :
    Meets (act step >>= f) s G (OnSuccess post) := by
  rw [meets_bind, meets_act]
  refine ⟨hG, ?_⟩
  cases (s.answers 0).done with
  | error e => exact onSuccess_error.mpr trivial
  | ok u => exact ⟨hstep, hf⟩

/-- Guarded by `Prepares`, with nothing said of the result. -/
def Prepared {α : Type} (A : Nat → IoAnswer) (names : String → Bool) (p : LibraryProc α)
    (s : LibraryState) : Prop :=
  Meets p s (Prepares A names) (OnSuccess fun _ _ => True)

/-- Steps that at most make a missing directory. -/
inductive Makes (s : LibraryState) : LibraryStep → Prop
  | answered : Makes s .answered
  | makeDirectory {name : String} (h : s.nodes.lookup name = none) : Makes s (.makeDirectory name)

theorem Makes.prepares {step : LibraryStep} (h : Makes s step) : Prepares A names s step := by
  cases h with
  | answered => exact .answered
  | makeDirectory h => exact .makeDirectory h

theorem Makes.entry {step : LibraryStep} (h : Makes s step) (d n : String) :
    (s.apply step).entry d n = s.entry d n := by
  cases h with
  | answered => rfl
  | makeDirectory h => exact LibraryState.entry_makeDirectory h d n

theorem ensureChildDirectory_makes (name : String) :
    Meets (ensureChildDirectory name) s Makes (OnSuccess fun _ _ => True) := by
  apply Meets.afterCall .answered
  apply Meets.read
  split
  · simp
  · simp
  · rename_i hnone
    apply Meets.afterAct .answered (.makeDirectory hnone)
    apply Meets.afterCall .answered
    rw [meets_call]
    exact ⟨.answered, fun _ _ => trivial⟩

/-- Work on a temporary file, of a specification that no preparing step disturbs. -/
theorem Meets.withTemporary {α : Type} {temporary : String} {work : LibraryProc α}
    {Q : Except Error α → LibraryState → Prop} (hname : names temporary = true)
    (hG : ∀ s step, Prepares A names s step → G s step)
    (hremovable : ∀ t step, G t step →
      (∀ e, t.entry stagingDirName temporary = some e → e.removable = true) →
        ∀ e, (t.apply step).entry stagingDirName temporary = some e → e.removable = true)
    (hQ : ∀ r t step, Prepares A names t step → Q r t → Q r (t.apply step))
    (herror : ∀ e, Q (.error e) s)
    (hwork : Meets work ((s.apply .answered).apply (.create stagingDirName temporary)) G Q) :
    Meets (withTemporary temporary work) s G Q := by
  unfold Storage.withTemporary
  apply Meets.read
  apply Meets.decide
  · intro _ hfree
    have hfree : s.entry stagingDirName temporary = none := by
      rw [ensure_eq_ok, Bool.not_eq_true', Option.isSome_eq_false_iff, Option.isNone_iff_eq_none]
        at hfree
      exact hfree
    rw [meets_bind, meets_act]
    refine ⟨hG _ _ .answered, ?_⟩
    cases (s.answers 0).done with
    | error e => exact hQ _ _ _ .answered (herror e)
    | ok u =>
      have hcreated : ∀ e, ((s.apply .answered).apply (.create stagingDirName temporary)).entry
          stagingDirName temporary = some e → e.removable = true := by
        rw [LibraryState.entry_create, if_pos ⟨rfl, rfl⟩]
        rintro _ ⟨⟩
        rfl
      refine ⟨hG _ _ (.create hname hfree), ?_⟩
      rw [meets_bind, meets_attempt]
      refine (hwork.keeps (I := fun t => ∀ e, t.entry stagingDirName temporary = some e →
        e.removable = true) hcreated fun t step ht hstep => hremovable t step hstep ht).mono
          (fun _ _ h => h) fun r t ⟨ht, hleft⟩ => ?_
      apply Meets.read
      rw [meets_bind, meets_attempt, meets_call]
      refine ⟨hG _ _ .answered, ?_⟩
      have hanswered := hQ r t _ .answered ht
      have hremove : Prepares A names (t.apply .answered) (.remove stagingDirName temporary) :=
        .remove hname hleft
      dsimp only
      rw [meets_ite]
      constructor
      · intro _
        apply Meets.step (hG _ _ hremove)
        rw [meets_ofExcept]
        exact hQ _ _ _ hremove hanswered
      · intro _
        rw [meets_ofExcept]
        exact hanswered
  · intro e _
    exact herror e

theorem readLimited_prepared (directory name : String) (limit : Nat) :
    Prepared A names (readLimited directory name limit) s := by
  apply Meets.afterCall .answered
  apply Meets.read
  split
  · exact Meets.check fun _ _ => by simp
  · exact Meets.check fun _ _ => Meets.check fun _ _ => by simp
  · simp

/-- Another process may make the marker. -/
theorem raced_prepared (hA : From A s) :
    Prepared A names (raced stagingDirName stagingOwnerFile) s := by
  unfold Prepared raced
  rw [meets_bind, meets_ask]
  refine ⟨.answered, ?_⟩
  apply Meets.read
  obtain ⟨n, hn⟩ := hA 0
  split
  · rename_i entry hfree happears
    rw [meets_emit]
    exact ⟨.appear (hn ▸ happears) hfree, fun _ _ => trivial⟩
  · simp

/-- A text between a prefix and a suffix. -/
theorem between (front middle back : String) :
    front.toList.isPrefixOf (front ++ middle ++ back).toList = true ∧
      back.toList.isSuffixOf (front ++ middle ++ back).toList = true := by
  rw [List.isPrefixOf_iff_prefix, List.isSuffixOf_iff_suffix, String.toList_append,
    String.toList_append]
  exact ⟨List.append_assoc .. ▸ List.prefix_append _ _, List.suffix_append _ _⟩

theorem isOwnerTemp_ownerTemp (name : String) :
    isOwnerTemp (stagingOwnerTempPrefix ++ name ++ ".tmp") = true := by
  rw [isOwnerTemp, (between _ _ _).1, (between _ _ _).2]
  rfl

theorem isLeftover_of_isOwnerTemp {name : String} (h : isOwnerTemp name = true) :
    isLeftover name = true := by
  rw [isLeftover, h, Bool.or_true]

theorem createStagingOwner_prepared (hA : From A s) (hnames : ∀ n, isOwnerTemp n = true →
    names n = true) : Prepared A names createStagingOwner s := by
  unfold Prepared createStagingOwner
  rw [meets_bind, meets_ask]
  refine ⟨.answered, ?_⟩
  have hne := ne_stagingOwnerFile (isLeftover_of_isOwnerTemp
    (isOwnerTemp_ownerTemp (s.answers 0).name))
  have hname := hnames _ (isOwnerTemp_ownerTemp (s.answers 0).name)
  have hA := (hA.apply .answered).apply .answered
  apply Meets.withTemporary hname (fun _ _ h => h) (fun t step h => h.removable hne)
    (fun _ _ _ _ _ _ _ => trivial) (fun _ => onSuccess_error.mpr trivial)
  apply Meets.afterAct .answered (.append hname)
  apply Meets.afterCall .answered
  have hraced (t : LibraryState) (hA : From A t)
      (hfile : t.entry stagingDirName (stagingOwnerTempPrefix ++ (s.answers 0).name ++ ".tmp") =
        some (.file stagingOwnerContent)) :
      Meets (raced stagingDirName stagingOwnerFile) t (Prepares A names)
        (OnSuccess fun _ u => True ∧ u.entry stagingDirName (stagingOwnerTempPrefix ++ (s.answers 0).name ++ ".tmp") =
          some (.file stagingOwnerContent)) := by
    have hquiet : Prepared A (fun _ => false) (raced stagingDirName stagingOwnerFile) t :=
      raced_prepared hA
    exact (hquiet.keep hfile fun u step hu hstep =>
      (hstep.entry_of_names rfl fun h => absurd h hne).trans hu).mono
        (fun _ _ h => h.mono fun _ h => nomatch h) fun _ _ h => h
  refine Meets.bind (hraced _ ((((hA.apply _).apply _).apply _).apply .answered) ?_)
    fun _ t ht => ?_
  · rw [LibraryState.entry_answered, @LibraryState.entry_append _ _ _ [], if_pos ⟨rfl, rfl⟩]
    · rfl
    · rw [LibraryState.entry_answered, LibraryState.entry_create, if_pos ⟨rfl, rfl⟩]
  apply Meets.read
  split
  · exact Meets.bind (readLimited_prepared _ _ _) fun _ _ _ =>
      meets_ofExcept.mpr fun _ _ => trivial
  · rename_i hfree
    apply Meets.afterAct .answered (.claim hname ht.2 hfree)
    rw [meets_call]
    exact ⟨.answered, fun _ _ => trivial⟩

theorem removeOwnerTemps_prepared (hnames : ∀ n, isOwnerTemp n = true → names n = true)
    (found : List String) : Prepared A names (removeOwnerTemps found) s := by
  induction found generalizing s with
  | nil => simp [Prepared, removeOwnerTemps]
  | cons name rest ih =>
    apply Meets.afterCall .answered
    apply Meets.read
    rw [meets_ite]
    constructor
    · intro h
      rw [Bool.and_eq_true] at h
      refine Meets.afterAct .answered (.remove (hnames _ h.1) fun e he => ?_) ih
      have hany := h.2
      rw [LibraryState.entry_answered] at he
      rw [he] at hany
      exact hany
    · simp

/-- `ensure_staging_directory` works on temporary markers alone, and only if there is no marker. -/
theorem ensureStagingDirectory_prepared (hA : From A s)
    (hnames : s.entry stagingDirName stagingOwnerFile = none →
      ∀ n, isOwnerTemp n = true → names n = true) :
    Prepared A names ensureStagingDirectory s := by
  have hchild : Meets (ensureChildDirectory stagingDirName) s Makes (OnSuccess fun _ t => True ∧
      t.entry stagingDirName stagingOwnerFile = s.entry stagingDirName stagingOwnerFile ∧
        From A t) :=
    (ensureChildDirectory_makes stagingDirName).keep ⟨rfl, hA⟩ fun t step ht hstep =>
      ⟨(hstep.entry _ _).trans ht.1, ht.2.apply step⟩
  refine Meets.bind (hchild.mono (fun _ _ h => h.prepares) fun _ _ h => h) fun _ t ht => ?_
  apply Meets.afterCall .answered
  apply Meets.read
  split
  · exact Meets.bind (readLimited_prepared _ _ _) fun _ _ _ =>
      meets_ofExcept.mpr fun _ _ => trivial
  · simp
  · rename_i hnone
    have hnames := hnames (ht.2.1.symm.trans hnone)
    apply Meets.afterCall .answered
    apply Meets.read
    refine Meets.bind ((removeOwnerTemps_prepared hnames _).keep ((ht.2.2.apply _).apply _)
      fun _ _ h _ => h.apply _) fun _ u hu => ?_
    exact Meets.afterCall .answered (createStagingOwner_prepared (hu.2.apply _) hnames)

end Staging

/-! ### Receiving -/

/-- What is read at an entry. -/
def Entry.contents : Entry → Option Bytes
  | .file content => some content
  | .link (some (.ok content)) => some content
  | _ => none

/-- What is read in a library. -/
def LibraryState.contents (s : LibraryState) (directory name : String) : Option Bytes :=
  (s.entry directory name).bind (·.contents)

section Receiving

open Proc

variable {A : Nat → IoAnswer} {names : String → Bool} {s : LibraryState}
  {sha256 : Bytes → String} {hasher : Hasher sha256} {maxFileSize : Nat} {temporary shard name : String} {found : FileInspection} {bytes : Bytes}
  {object : Bytes → Prop}

/-- The reads go to the temporary file. -/
theorem copyInto_meets {expectedSize : Option Nat} (hname : names temporary = true)
    {c : Copying hasher} {reads : List ReadStep}
    (hfile : s.entry stagingDirName temporary = some (.file c.written)) :
    Meets (copyInto hasher temporary maxFileSize expectedSize c reads) s (Prepares A names)
      fun r t => r = c.copy maxFileSize expectedSize reads ∧
        ∀ c', r = .ok c' → t.entry stagingDirName temporary = some (.file c'.written) := by
  induction reads generalizing c s with
  | nil =>
    rw [copyInto, meets_pure]
    refine ⟨rfl, ?_⟩
    rintro _ ⟨⟩
    exact hfile
  | cons step rest ih =>
    obtain ⟨read, write⟩ := step
    rw [copyInto]
    cases read with
    | error e =>
      rw [meets_bind, meets_ofExcept]
      exact ⟨rfl, fun _ h => nomatch h⟩
    | ok bytes =>
      cases bytes with
      | nil =>
        rw [meets_bind, meets_ofExcept]
        refine meets_pure.mpr ⟨rfl, ?_⟩
        rintro _ ⟨⟩
        exact hfile
      | cons b bytes =>
        have hstep : c.copy maxFileSize expectedSize (⟨.ok (b :: bytes), write⟩ :: rest) = _ :=
          Copying.copy_step c (List.cons_ne_nil b bytes) write rest
        rw [meets_bind, meets_ofExcept]
        cases hnext : c.copy maxFileSize expectedSize [⟨.ok (b :: bytes), write⟩] with
        | error e =>
          rw [hnext] at hstep
          exact ⟨hstep.symm, fun _ h => nomatch h⟩
        | ok next =>
          rw [hnext] at hstep
          rw [hstep]
          refine Meets.step (.append hname) (ih ?_)
          rw [LibraryState.entry_append hfile, if_pos ⟨rfl, rfl⟩,
            (Copying.written_of_copy (List.cons_ne_nil b bytes) hnext).2]

/-- What is found at a place was read there. -/
theorem inspectObject_meets : Meets (inspectObject sha256 maxFileSize shard name) s
    (fun _ step => step = .answered) (OnSuccess fun i t => ∃ content,
      t.contents shard name = some content ∧ inspectFile sha256 maxFileSize content = .ok i) := by
  apply Meets.afterCall rfl
  apply Meets.read
  split
  · rename_i content hentry
    rw [meets_ofExcept]
    exact fun i hi => ⟨content, by rw [LibraryState.contents, hentry]; rfl, hi⟩
  · rename_i target hentry
    apply Meets.check
    rintro content rfl
    rw [meets_ofExcept]
    exact fun i hi => ⟨content, by rw [LibraryState.contents, hentry]; rfl, hi⟩
  · exact meets_fail.mpr (onSuccess_error.mpr trivial)

/-- An object that is taken for the received one has been found to be the same. -/
theorem compareExisting_meets : Meets (compareExisting sha256 maxFileSize shard name found) s
    (fun _ step => step = .answered) (OnSuccess fun _ t => ∃ content,
      t.contents shard name = some content ∧
        inspectFile sha256 maxFileSize content = .ok found) := by
  refine Meets.bind inspectObject_meets fun i t ⟨content, hcontent, hi⟩ => ?_
  apply Meets.check
  intro _ hsame
  rw [ensure_eq_ok, beq_iff_eq] at hsame
  rw [meets_call]
  exact ⟨rfl, fun _ _ => ⟨content, hcontent, hsame ▸ hi⟩⟩

/-- Another process may put an object there. -/
theorem raced_meets (hA : From A s) : Meets (raced shard name) s (Receives A names shard name object)
    fun r t => r = .ok () ∧ (∀ d n, (d, n) ≠ (shard, name) → t.entry d n = s.entry d n) ∧
      (t.entry shard name = s.entry shard name ∨ ∃ n, (A n).appears = t.entry shard name) := by
  unfold raced
  rw [meets_bind, meets_ask]
  refine ⟨.prepares .answered, ?_⟩
  apply Meets.read
  obtain ⟨n, hn⟩ := hA 0
  split
  · rename_i entry hfree happears
    rw [meets_emit]
    refine ⟨.appear (hn ▸ happears) hfree, rfl, fun d n' hne => ?_, Or.inr ⟨n, ?_⟩⟩
    · rw [LibraryState.entry_appear, if_neg fun h => hne (Prod.ext h.1 h.2)]
      rfl
    · rw [LibraryState.entry_appear, if_pos ⟨rfl, rfl⟩, ← hn, happears]
  · exact meets_pure.mpr ⟨rfl, fun _ _ _ => rfl, Or.inl rfl⟩

/-- The end of a run of `receive`: a success has the received object at its place, and a failure
has nothing new there, unless the last call failed. -/
def Commits (A : Nat → IoAnswer) (sha256 : Bytes → String) (maxFileSize : Nat)
    (found : FileInspection) (before : Option Entry) (shard name : String) (r : Result Unit)
    (t : LibraryState) : Prop :=
  (r = .ok () → ∃ content, t.contents shard name = some content ∧
    inspectFile sha256 maxFileSize content = .ok found) ∧
  ∀ e, r = .error e → t.entry shard name = before ∨ (∃ n, (A n).appears = t.entry shard name) ∨
    ∃ n, (A n).done = .error e

theorem commitObject_meets (hA : From A s) (hname : names temporary = true)
    (hfile : s.entry stagingDirName temporary = some (.file bytes))
    (hfound : inspectFile sha256 maxFileSize bytes = .ok found)
    (hobject : object bytes) (hshard : shardOf found.sha256 = shard)
    (hplace : objectName found.sha256 found.extension = name) (hne : shard ≠ stagingDirName) :
    Meets (commitObject sha256 maxFileSize temporary found) s (Receives A names shard name object)
      (Commits A sha256 maxFileSize found (s.entry shard name) shard name) := by
  unfold commitObject
  rw [hshard, hplace]
  dsimp only
  have hcompare {t : LibraryState} (hentry : t.entry shard name = s.entry shard name ∨
      ∃ n, (A n).appears = t.entry shard name) :
      Meets (compareExisting sha256 maxFileSize shard name found) t (Receives A names shard name object)
        (Commits A sha256 maxFileSize found (s.entry shard name) shard name) := by
    have hkeep : Meets (compareExisting sha256 maxFileSize shard name found) t _ _ :=
      compareExisting_meets.keeps (I := fun u => u.entry shard name = t.entry shard name) rfl
        fun u step hu hstep => by rw [hstep, LibraryState.entry_answered, hu]
    refine hkeep.mono (fun _ _ h => h ▸ .prepares .answered) fun r u hu => ⟨hu.1 (), fun e _ => ?_⟩
    rw [hu.2]
    exact hentry.imp_right Or.inl
  have hmade : Meets (ensureChildDirectory shard) s Makes fun r t => OnSuccess (fun _ _ => True) r t ∧
      (∀ d n, t.entry d n = s.entry d n) ∧ From A t :=
    (ensureChildDirectory_makes shard).keeps ⟨fun _ _ => rfl, hA⟩
      fun t step ht hstep => ⟨fun d n => (hstep.entry d n).trans (ht.1 d n), ht.2.apply step⟩
  refine Meets.through (M := fun _ t => (∀ d n, t.entry d n = s.entry d n) ∧ From A t)
    (hmade.mono (fun _ _ h => .prepares h.prepares) fun r t ht => ⟨fun _ _ => ht.2, fun e he =>
      ⟨fun h => (nomatch h), fun _ _ => Or.inl (ht.2.1 _ _)⟩⟩) fun _ t ht => ?_
  apply Meets.read
  rw [meets_ite]
  constructor
  · intro _
    exact hcompare (Or.inl (ht.1 _ _))
  · intro _
    have hraced : Meets (raced shard name) t (Receives A names shard name object) _ := raced_meets ht.2
    refine Meets.through (M := fun _ u => (∀ d n, (d, n) ≠ (shard, name) → u.entry d n = t.entry d n) ∧
      (u.entry shard name = s.entry shard name ∨ ∃ n, (A n).appears = u.entry shard name) ∧ From A u)
      ((hraced.keeps ht.2 fun _ step hu _ => hu.apply step).mono (fun _ _ h => h) fun r u hu =>
        ⟨fun _ _ => ⟨hu.1.2.1, ht.1 shard name ▸ hu.1.2.2, hu.2⟩,
          fun e he => (nomatch he.symm.trans hu.1.1)⟩) fun _ u hu => ?_
    apply Meets.read
    split
    · exact hcompare hu.2.1
    · rename_i hfree
      have htemporary : u.entry stagingDirName temporary = some (.file bytes) := by
        rw [hu.1 stagingDirName temporary fun h => hne (Prod.ext_iff.mp h).1.symm, ht.1, hfile]
      rw [meets_bind, meets_act]
      refine ⟨.prepares .answered, ?_⟩
      cases hdone : (u.answers 0).done with
      | error e =>
        exact ⟨fun h => (nomatch h), fun _ _ => hu.2.1.imp_right Or.inl⟩
      | ok v =>
        refine ⟨.put hname htemporary hobject hfree, ?_⟩
        rw [meets_call]
        refine ⟨.prepares .answered, fun _ => ⟨bytes, ?_, hfound⟩, fun e he => Or.inr (Or.inr ?_)⟩
        · rw [LibraryState.contents, LibraryState.entry_answered,
            LibraryState.entry_rename ((LibraryState.entry_answered ..).trans htemporary),
            if_pos ⟨rfl, rfl⟩]
          rfl
        · obtain ⟨n, hn⟩ := ((hu.2.2.apply .answered).apply
            (.rename stagingDirName temporary shard name)) 0
          exact ⟨n, hn ▸ he⟩

/-- The file name of a declared object. -/
def declaredName (delivery : Delivery) : String :=
  objectName delivery.sha256 ((extensionForMediaType delivery.mediaType).getD "")

/-- The stream is the declared content and within the limit. -/
structure Declared (sha256 : Bytes → String) (delivery : Delivery) (maxFileSize : Nat)
    (reads : List ReadStep) (bytes : Bytes) : Prop where
  stream : streamOf reads = some bytes
  size : bytes.length = delivery.size
  digest : sha256 bytes = delivery.sha256
  mediaType : (mediaOf bytes).1 = delivery.mediaType
  limit : bytes.length ≤ maxFileSize

/-- What `receive` returns for a delivery. -/
def declaredAsset (libraryDir : String) (delivery : Delivery) : StoredAsset where
  path := objectPath libraryDir (shardOf delivery.sha256) (declaredName delivery)
  size := delivery.size
  sha256 := delivery.sha256
  mediaType := delivery.mediaType

variable {delivery : Delivery} {reads : List ReadStep} {libraryDir : String}

theorem Declared.extension (h : Declared sha256 delivery maxFileSize reads bytes) :
    objectName (sha256 bytes) (mediaOf bytes).2 = declaredName delivery := by
  rw [declaredName, ← h.mediaType, extensionForMediaType_mediaOf, h.digest]
  rfl

/-- A declared content is found to be what was declared. -/
theorem Declared.inspected (h : Declared sha256 delivery maxFileSize reads bytes)
    (hsize : 0 < delivery.size) :
    inspectFile sha256 maxFileSize bytes = .ok (inspection sha256 bytes) :=
  copyAndInspect_eq_ok.mpr ⟨⟨h.limit, fun _ h => (nomatch h),
    List.ne_nil_of_length_pos (h.size ▸ hsize)⟩, rfl⟩

/-- The end of a run of `receive`. -/
def Received (A : Nat → IoAnswer) (sha256 : Bytes → String) (delivery : Delivery)
    (reads : List ReadStep) (libraryDir : String) (maxFileSize : Nat) (before : Option Entry)
    (r : Result StoredAsset) (t : LibraryState) : Prop :=
  (∀ asset, r = .ok asset → asset = declaredAsset libraryDir delivery ∧
    ∃ bytes content, Declared sha256 delivery maxFileSize reads bytes ∧
      t.contents (shardOf delivery.sha256) (declaredName delivery) = some content ∧
      inspection sha256 content = inspection sha256 bytes) ∧
  ∀ e, r = .error e → t.entry (shardOf delivery.sha256) (declaredName delivery) = before ∨
    (∃ n, (A n).appears = t.entry (shardOf delivery.sha256) (declaredName delivery)) ∨
      ∃ n, (A n).done = .error e

theorem receiveInto_meets (hA : From A s) (hmax : maxFileSize < 2 ^ 64)
    (hvalid : validateDeliveryMetadata delivery maxFileSize = .ok ())
    (hname : names temporary = true)
    (hfile : s.entry stagingDirName temporary = some (.file []))
    (hne : shardOf delivery.sha256 ≠ stagingDirName) :
    Meets (receiveInto hasher delivery reads libraryDir maxFileSize temporary) s
      (Receives A names (shardOf delivery.sha256) (declaredName delivery)
        (Declared sha256 delivery maxFileSize reads))
      (Received A sha256 delivery reads libraryDir maxFileSize
        (s.entry (shardOf delivery.sha256) (declaredName delivery))) := by
  obtain ⟨hsize, -, hdigest, hext⟩ := validateDeliveryMetadata_ok hvalid
  unfold receiveInto
  have hcopied : Meets (copyInto hasher temporary maxFileSize (some delivery.size) (.new hasher)
      reads) s (Prepares A names) fun r t =>
        (r = (Copying.new hasher).copy maxFileSize (some delivery.size) reads ∧
          ∀ c, r = .ok c → t.entry stagingDirName temporary = some (.file c.written)) ∧
        t.entry (shardOf delivery.sha256) (declaredName delivery) =
          s.entry (shardOf delivery.sha256) (declaredName delivery) ∧ From A t :=
    (copyInto_meets hname hfile).keeps ⟨rfl, hA⟩ fun t step ht hstep =>
      ⟨(hstep.entry_of_ne hne).trans ht.1, ht.2.apply step⟩
  refine Meets.through (M := fun c t =>
      (Copying.new hasher).copy maxFileSize (some delivery.size) reads = .ok c ∧
        t.entry stagingDirName temporary = some (.file c.written) ∧
        t.entry (shardOf delivery.sha256) (declaredName delivery) =
          s.entry (shardOf delivery.sha256) (declaredName delivery) ∧ From A t)
    (hcopied.mono (fun _ _ h => .prepares h) fun r t ht =>
      ⟨fun c hc => ⟨ht.1.1.symm.trans hc, ht.1.2 c hc, ht.2⟩,
        fun e _ => ⟨fun _ h => (nomatch h), fun _ _ => Or.inl ht.2.1⟩⟩)
    fun c t ⟨hc, htemporary, hbefore, hA⟩ => ?_
  have hfails (e : Error) : Received A sha256 delivery reads libraryDir maxFileSize
      (s.entry (shardOf delivery.sha256) (declaredName delivery)) (.error e) t :=
    ⟨fun _ h => (nomatch h), fun _ _ => Or.inl hbefore⟩
  refine Meets.decide (fun found hfound => ?_) fun e _ => hfails e
  obtain ⟨hstream, hinspect⟩ := (finishCopy_eq_ok hmax).mp ⟨c, hc, hfound, rfl⟩
  obtain ⟨⟨hlimit, hlength, -⟩, rfl⟩ := copyAndInspect_eq_ok.mp hinspect
  refine Meets.decide (fun _ hsame => ?_) fun e _ => hfails e
  refine Meets.decide (fun _ htype => ?_) fun e _ => hfails e
  rw [ensure_eq_ok, beq_iff_eq, toAsciiLowercase_of_validateSha256 hdigest] at hsame
  rw [ensure_eq_ok, beq_iff_eq] at htype
  have hdeclared : Declared sha256 delivery maxFileSize reads c.written :=
    ⟨hstream, hlength _ rfl, hsame, htype, hlimit⟩
  rw [meets_bind, meets_call]
  refine ⟨.prepares .answered, ?_⟩
  cases (t.answers 0).done with
  | error e => exact hfails e
  | ok u =>
    have hcommit : Meets (commitObject sha256 maxFileSize temporary (inspection sha256 c.written))
        (t.apply .answered) _ _ :=
      commitObject_meets (hA.apply .answered) hname htemporary (hdeclared.inspected hsize) hdeclared
        (congrArg shardOf hsame) hdeclared.extension hne
    refine Meets.through (M := fun _ u => ∃ content,
        u.contents (shardOf delivery.sha256) (declaredName delivery) = some content ∧
          inspection sha256 content = inspection sha256 c.written)
      (hcommit.mono (fun _ _ h => h) fun r u hu => ⟨fun _ hr => ?_, fun e he => ?_⟩) fun _ u hu => ?_
    · obtain ⟨content, hcontent, hinspected⟩ := hu.1 hr
      exact ⟨content, hcontent, (copyAndInspect_eq_ok.mp hinspected).2.symm⟩
    · exact ⟨fun _ h => (nomatch h), fun e' he' => by
        cases he'
        have hend := hu.2 e he
        rwa [LibraryState.entry_answered, hbefore] at hend⟩
    · rw [meets_pure]
      refine ⟨?_, fun _ h => (nomatch h)⟩
      rintro _ ⟨⟩
      obtain ⟨content, hcontent, hinspected⟩ := hu
      refine ⟨?_, c.written, content, hdeclared, hcontent, hinspected⟩
      rw [declaredAsset, ← hdeclared.extension, ← hlength _ rfl, ← hsame, ← htype]
      rfl

/-- Preparing steps leave the end of a run as it is. -/
theorem Received.prepares {before : Option Entry} {r : Result StoredAsset} {t : LibraryState}
    {step : LibraryStep} (hstep : Prepares A names t step)
    (hne : shardOf delivery.sha256 ≠ stagingDirName)
    (h : Received A sha256 delivery reads libraryDir maxFileSize before r t) :
    Received A sha256 delivery reads libraryDir maxFileSize before r (t.apply step) := by
  unfold Received LibraryState.contents at h ⊢
  rw [hstep.entry_of_ne hne]
  exact h

theorem isLeftover_temporary (id random : String) :
    isLeftover ("mirelay-" ++ id ++ "-" ++ random ++ ".part") = true := by
  have hpart := between "mirelay-" (id ++ "-" ++ random) ".part"
  simp only [← String.append_assoc] at hpart
  rw [isLeftover, isOwnedTemporary, hpart.1, hpart.2]
  rfl

/-- No shard is the staging directory. -/
theorem shardOf_ne_stagingDirName {digest : String} (h : validateSha256 digest = .ok ()) :
    shardOf digest ≠ stagingDirName := fun heq => by
  have hname := isContentShardName_shardOf h
  have hstaging : isContentShardName stagingDirName = false := rfl
  rw [heq, hstaging] at hname
  contradiction

/-- A run of `receive`. -/
theorem receive_meets (hmax : maxFileSize < 2 ^ 64) :
    Meets (receive hasher delivery reads libraryDir maxFileSize) s
      (Receives s.answers isLeftover (shardOf delivery.sha256) (declaredName delivery)
        (Declared sha256 delivery maxFileSize reads))
      (Received s.answers sha256 delivery reads libraryDir maxFileSize
        (s.entry (shardOf delivery.sha256) (declaredName delivery))) := by
  have hA : From s.answers s := fun n => ⟨n, rfl⟩
  have hfails {t : LibraryState} (ht : t.entry (shardOf delivery.sha256) (declaredName delivery) =
      s.entry (shardOf delivery.sha256) (declaredName delivery)) (e : Error) :
      Received s.answers sha256 delivery reads libraryDir maxFileSize
        (s.entry (shardOf delivery.sha256) (declaredName delivery)) (.error e) t :=
    ⟨fun _ h => (nomatch h), fun _ _ => Or.inl ht⟩
  refine Meets.decide (fun _ hvalid => ?_) fun e _ => hfails rfl e
  have hne := shardOf_ne_stagingDirName (validateDeliveryMetadata_ok hvalid).2.2.1
  rw [meets_bind, meets_call]
  refine ⟨.prepares .answered, ?_⟩
  cases (s.answers 0).done with
  | error e => exact hfails rfl e
  | ok u =>
    have hprepared : Meets ensureStagingDirectory (s.apply .answered)
        (Prepares s.answers isLeftover) fun r t => OnSuccess (fun _ _ => True) r t ∧ t.entry (shardOf delivery.sha256) (declaredName delivery) =
          s.entry (shardOf delivery.sha256) (declaredName delivery) ∧ From s.answers t :=
      (ensureStagingDirectory_prepared (hA.apply .answered)
        fun _ _ h => isLeftover_of_isOwnerTemp h).keeps ⟨rfl, hA.apply .answered⟩
        fun t step ht hstep => ⟨(hstep.entry_of_ne hne).trans ht.1, ht.2.apply step⟩
    refine Meets.through (M := fun _ t => t.entry (shardOf delivery.sha256) (declaredName delivery) =
          s.entry (shardOf delivery.sha256) (declaredName delivery) ∧ From s.answers t)
      (hprepared.mono (fun _ _ h => .prepares h) fun r t ht =>
        ⟨fun _ _ => ht.2, fun e _ => hfails ht.2.1 e⟩) fun _ t ⟨hbefore, hA⟩ => ?_
    rw [meets_bind, meets_ask]
    refine ⟨.prepares .answered, ?_⟩
    have hname := isLeftover_temporary delivery.id (t.answers 0).name
    apply Meets.withTemporary hname (fun _ _ h => .prepares h)
      (fun u step h => h.removable hne (ne_stagingOwnerFile hname))
      (fun r u step hstep h => h.prepares hstep hne) (hfails (t := t.apply .answered) hbefore)
    have hcreated : (((t.apply .answered).apply .answered).apply (.create stagingDirName
        ("mirelay-" ++ delivery.id ++ "-" ++ (t.answers 0).name ++ ".part"))).entry
          (shardOf delivery.sha256) (declaredName delivery) =
        s.entry (shardOf delivery.sha256) (declaredName delivery) := by
      rw [LibraryState.entry_create, if_neg fun h => hne h.1]
      exact hbefore
    have hempty := LibraryState.entry_create (s := (t.apply .answered).apply .answered) stagingDirName
      ("mirelay-" ++ delivery.id ++ "-" ++ (t.answers 0).name ++ ".part") stagingDirName
      ("mirelay-" ++ delivery.id ++ "-" ++ (t.answers 0).name ++ ".part")
    rw [if_pos ⟨rfl, rfl⟩] at hempty
    have hinto : Meets (receiveInto hasher delivery reads libraryDir maxFileSize
        ("mirelay-" ++ delivery.id ++ "-" ++ (t.answers 0).name ++ ".part")) _ _ _ :=
      receiveInto_meets (((hA.apply .answered).apply .answered).apply _) hmax hvalid hname hempty hne
    rw [hcreated] at hinto
    exact hinto

/-- `receive` has validated what it stores. -/
theorem valid_of_receive {asset : StoredAsset}
    (h : (receive hasher delivery reads libraryDir maxFileSize s).result = .ok asset) :
    validateDeliveryMetadata delivery maxFileSize = .ok () := by
  cases hvalid : validateDeliveryMetadata delivery maxFileSize with
  | ok u => rfl
  | error e =>
    rw [receive, hvalid, result_bind_error (e := e) rfl] at h
    contradiction

end Receiving

end Storage

end MiRelay
