import MiRelay.Storage.Remains

/-!
# Runs without failing calls

When no call fails and nothing is in the way, a run of `receive` on the declared content
of a valid descriptor succeeds, and so does a cleanup. A staging directory that has its
marker is then left as it was found.
-/

namespace MiRelay

namespace Storage

open Proc

/-- No call fails, what another process puts somewhere is `ok`, and the directories are not
something else. -/
structure Calm (ok : Entry → Prop) (dirs : List String) (s : LibraryState) : Prop where
  done : ∀ n, (s.answers n).done = .ok ()
  appears : ∀ n e, (s.answers n).appears = some e → ok e
  directories : ∀ d ∈ dirs, s.nodes.lookup d ≠ some .other

section Calm

variable {ok : Entry → Prop} {dirs : List String} {s : LibraryState} {α β : Type}

theorem setEntries_calm (h : Calm ok dirs s) (d : String) (entries : Files String Entry) :
    Calm ok dirs (s.setEntries d entries) := by
  refine ⟨h.done, h.appears, fun d' hd' => ?_⟩
  rw [LibraryState.setEntries]
  dsimp only
  rw [Files.lookup_insert]
  split
  · simp
  · exact h.directories d' hd'

/-- No step disturbs the calm. -/
theorem Calm.apply (h : Calm ok dirs s) (step : LibraryStep) : Calm ok dirs (s.apply step) := by
  cases step with
  | answered => exact ⟨fun n => h.done (n + 1), fun n => h.appears (n + 1), h.directories⟩
  | makeDirectory | create | remove | appear => exact setEntries_calm h _ _
  | append dir name bytes =>
    unfold LibraryState.apply
    dsimp only
    split
    · exact setEntries_calm h _ _
    · exact h
  | rename dir name dir' name' =>
    unfold LibraryState.apply
    dsimp only
    split
    · exact setEntries_calm (setEntries_calm h _ _) _ _
    · exact h

theorem succeeds_call (h : Calm ok dirs s) : Succeeds call s fun _ t => t = s.apply .answered := by
  rw [Succeeds, meets_call, h.done]
  exact ⟨trivial, (), rfl, rfl⟩

theorem succeeds_ask : Succeeds ask s fun a t => a = s.answers 0 ∧ t = s.apply .answered := by
  rw [Succeeds, meets_ask]
  exact ⟨trivial, _, rfl, rfl, rfl⟩

theorem succeeds_act (h : Calm ok dirs s) (step : LibraryStep) :
    Succeeds (act step) s fun _ t => t = (s.apply .answered).apply step := by
  rw [Succeeds, meets_act, h.done]
  exact ⟨trivial, trivial, (), rfl, rfl⟩

/-- The calm lasts. -/
theorem Succeeds.calm {p : LibraryProc α} {post : α → LibraryState → Prop} (h : Succeeds p s post)
    (hs : Calm ok dirs s) : Succeeds p s fun a t => post a t ∧ Calm ok dirs t :=
  h.keep hs fun _ step ht => ht.apply step

/-- One call first. -/
theorem Succeeds.afterCall {f : Unit → LibraryProc β} {post : β → LibraryState → Prop}
    (h : Calm ok dirs s) (hf : Succeeds (f ()) (s.apply .answered) post) :
    Succeeds (call >>= f) s post :=
  (succeeds_call h).bind fun _ _ ht => ht ▸ hf

/-- One changing call first. -/
theorem Succeeds.afterAct {step : LibraryStep} {f : Unit → LibraryProc β}
    {post : β → LibraryState → Prop} (h : Calm ok dirs s)
    (hf : Succeeds (f ()) ((s.apply .answered).apply step) post) :
    Succeeds (act step >>= f) s post :=
  (succeeds_act h step).bind fun _ _ ht => ht ▸ hf

/-- A missing directory is made, and another is there. -/
theorem ensureChildDirectory_succeeds {name : String} (hs : Calm ok dirs s) (hname : name ∈ dirs) :
    Succeeds (ensureChildDirectory name) s fun _ t => ∀ d n, t.entry d n = s.entry d n := by
  have hentries := (ensureChildDirectory_makes (s := s) name).keeps
    (I := fun t => ∀ d n, t.entry d n = s.entry d n) (fun _ _ => rfl)
    fun t step ht hstep d n => (hstep.entry d n).trans (ht d n)
  have hok : Succeeds (ensureChildDirectory name) s fun _ _ => True := by
    apply Succeeds.afterCall hs
    apply Succeeds.read
    split
    · exact succeeds_pure.imp fun _ _ _ => trivial
    · rename_i hother
      exact absurd hother (hs.directories name hname)
    · have hs := hs.apply .answered
      refine Succeeds.afterAct hs ?_
      have hs := (hs.apply .answered).apply (.makeDirectory name)
      exact Succeeds.afterCall hs ((succeeds_call (hs.apply .answered)).imp fun _ _ _ => trivial)
  exact (hok.and hentries).imp fun _ _ h => h.2.2

/-- Work on a temporary file whose name is free, and the file is gone. -/
theorem withTemporary_succeeds {temporary : String} {work : LibraryProc α}
    {post : α → LibraryState → Prop} (hs : Calm ok dirs s)
    (hfree : s.entry stagingDirName temporary = none)
    (hwork : Succeeds work ((s.apply .answered).apply (.create stagingDirName temporary)) post) :
    Succeeds (withTemporary temporary work) s fun a t => ∃ u, post a u ∧
      ∀ d n, t.entry d n =
        if d = stagingDirName ∧ n = temporary then none else u.entry d n := by
  apply Succeeds.read
  refine (succeeds_ofExcept (a := ()) ?_).bind fun _ _ hnow => ?_
  · rw [hfree, ensure_eq_ok]
    rfl
  obtain ⟨-, rfl⟩ := hnow
  refine Succeeds.afterAct hs ?_
  have hcalm := Succeeds.calm hwork ((hs.apply .answered).apply _)
  rw [Succeeds, meets_bind, meets_attempt]
  refine hcalm.mono (fun _ _ h => h) fun r u hworked => ?_
  obtain ⟨a, ha, hpost, hu⟩ := hworked
  apply Meets.read
  rw [meets_bind, meets_attempt, meets_call, hu.done]
  refine ⟨trivial, ?_⟩
  dsimp only
  rw [meets_ite]
  constructor
  · intro _
    apply Meets.step trivial
    rw [meets_ofExcept]
    exact ⟨a, ha, u, hpost, fun d n => LibraryState.entry_remove ..⟩
  · intro hleft
    have hgone : u.entry stagingDirName temporary = none := by
      cases hentry : u.entry stagingDirName temporary with
      | none => rfl
      | some e => exact absurd ⟨by rw [hentry]; rfl, rfl⟩ hleft
    rw [meets_ofExcept]
    refine ⟨a, ha, u, hpost, fun d n => ?_⟩
    split
    · rename_i hplace
      obtain ⟨rfl, rfl⟩ := hplace
      exact hgone
    · rfl

/-- What has the names of temporary markers goes. -/
theorem removeOwnerTemps_succeeds {found : List String} (hs : Calm ok dirs s)
    (hnodup : found.Nodup)
    (hfound : ∀ n ∈ found, isOwnerTemp n = true ∧
      (s.entry stagingDirName n).any (·.removable) = true) :
    Succeeds (removeOwnerTemps found) s fun _ t => ∀ n, t.entry stagingDirName n =
      if n ∈ found then none else s.entry stagingDirName n := by
  induction found generalizing s with
  | nil => exact succeeds_pure.imp fun _ t ⟨_, ht⟩ n => by rw [ht, if_neg List.not_mem_nil]
  | cons name rest ih =>
    rw [List.nodup_cons] at hnodup
    rw [List.forall_mem_cons] at hfound
    refine Succeeds.afterCall hs (Succeeds.read ?_)
    rw [LibraryState.entry_answered, hfound.1.1, hfound.1.2, Bool.and_self, if_pos rfl]
    have hs := hs.apply .answered
    refine Succeeds.afterAct hs ?_
    have hother {n : String} (hn : n ∈ rest) : n ≠ name := fun h => hnodup.1 (h ▸ hn)
    refine (ih ((hs.apply .answered).apply _) hnodup.2 fun n hn => ⟨(hfound.2 n hn).1, ?_⟩).imp
      fun _ t ht n => ?_
    · rw [LibraryState.entry_remove, if_neg fun h => hother hn h.2]
      exact (hfound.2 n hn).2
    · rw [ht n, LibraryState.entry_remove]
      by_cases hn : n ∈ rest
      · rw [if_pos hn, if_pos (List.mem_cons_of_mem _ hn)]
      · by_cases hname : n = name
        · rw [if_neg hn, if_pos ⟨rfl, hname⟩, if_pos (hname ▸ List.mem_cons_self)]
        · rw [if_neg hn, if_neg fun h => hname h.2,
            if_neg fun h => (List.mem_cons.mp h).elim hname hn]
          rfl

/-- The entry of a marker. -/
def marker : Entry := .file stagingOwnerContent

/-- Nothing appears. -/
theorem raced_succeeds (hs : Calm (fun _ => False) dirs s) (directory name : String) :
    Succeeds (raced directory name) s fun _ t => t = s.apply .answered := by
  refine succeeds_ask.bind fun _ _ ⟨ha, ht⟩ => ?_
  subst ha ht
  apply Succeeds.read
  split
  · rename_i entry _ happears
    exact (hs.appears 0 entry happears).elim
  · exact succeeds_pure.imp fun _ _ h => h.2

/-- A marker is made in an empty directory. -/
theorem createStagingOwner_succeeds (hs : Calm (fun _ => False) dirs s)
    (hempty : ∀ n, s.entry stagingDirName n = none) :
    Succeeds createStagingOwner s fun _ t => ∀ n, t.entry stagingDirName n =
      if n = stagingOwnerFile then some marker else none := by
  refine succeeds_ask.bind fun _ _ ⟨ha, ht⟩ => ?_
  subst ha ht
  dsimp only
  have hne := ne_stagingOwnerFile (isLeftover_of_isOwnerTemp
    (isOwnerTemp_ownerTemp (s.answers 0).name))
  generalize stagingOwnerTempPrefix ++ (s.answers 0).name ++ ".tmp" = temporary at hne
  have hs := hs.apply .answered
  have hkeep {t : LibraryState} : (∃ u : LibraryState, (∀ n, u.entry stagingDirName n =
      if n = stagingOwnerFile then some marker else none) ∧ ∀ d n, t.entry d n =
        if d = stagingDirName ∧ n = temporary then none else u.entry d n) →
      ∀ n, t.entry stagingDirName n = if n = stagingOwnerFile then some marker else none := by
    rintro ⟨u, hu, ht⟩ n
    rw [ht, hu]
    by_cases hn : n = stagingOwnerFile
    · rw [if_neg fun h => hne (h.2.symm.trans hn)]
    · rw [if_neg hn]
      split <;> rfl
  refine (withTemporary_succeeds hs (hempty temporary) ?_).imp fun _ _ => hkeep
  · have hs := (hs.apply .answered).apply (.create stagingDirName temporary)
    refine Succeeds.afterAct hs ?_
    have hs := (hs.apply .answered).apply (.append stagingDirName temporary stagingOwnerContent)
    have hwritten (n : String) : (((((s.apply .answered).apply .answered).apply
        (.create stagingDirName temporary)).apply .answered).apply
          (.append stagingDirName temporary stagingOwnerContent)).entry stagingDirName n =
        if n = temporary then some marker else none := by
      rw [@LibraryState.entry_append _ _ _ [], LibraryState.entry_answered,
        LibraryState.entry_create]
      · by_cases hn : n = temporary
        · rw [if_pos ⟨rfl, hn⟩, if_pos hn]
          rfl
        · rw [if_neg fun h => hn h.2, if_neg fun h => hn h.2, if_neg hn]
          exact hempty n
      · rw [LibraryState.entry_answered, LibraryState.entry_create, if_pos ⟨rfl, rfl⟩]
    refine Succeeds.afterCall hs ((raced_succeeds (hs.apply .answered) _ _).bind fun _ t ht => ?_)
    subst ht
    apply Succeeds.read
    rw [LibraryState.entry_answered, LibraryState.entry_answered, hwritten, if_neg hne.symm]
    dsimp only
    have hs := (hs.apply .answered).apply .answered
    refine Succeeds.afterAct hs ((succeeds_call ((hs.apply .answered).apply _)).imp fun _ t ht n => ?_)
    rw [ht, LibraryState.entry_answered, @LibraryState.entry_rename _ stagingDirName temporary marker]
    · by_cases hn : n = stagingOwnerFile
      · rw [if_pos ⟨rfl, hn⟩, if_pos hn]
      · rw [if_neg fun h => hn h.2, if_neg hn]
        split
        · rfl
        · rename_i hplace
          exact (hwritten n).trans (if_neg fun h => hplace ⟨rfl, h⟩)
    · exact (hwritten temporary).trans (if_pos rfl)

/-- A short file is read. -/
theorem readLimited_succeeds {directory name : String} {limit : Nat} {content : Bytes}
    (hs : Calm ok dirs s) (hentry : s.entry directory name = some (.file content))
    (hlimit : content.length ≤ limit) :
    Succeeds (readLimited directory name limit) s fun b t => b = content ∧ t = s.apply .answered := by
  apply Succeeds.afterCall hs
  apply Succeeds.read
  rw [LibraryState.entry_answered, hentry]
  dsimp only
  refine (succeeds_ofExcept (a := ()) ?_).bind fun _ _ ⟨_, ht⟩ => ht ▸ succeeds_pure
  rw [ensure_eq_ok, decide_eq_true_eq]
  exact hlimit

/-- The staging directory belongs to the library: it has a marker, or nothing but temporary markers
yet. -/
def StagingReady (s : LibraryState) : Prop :=
  s.entry stagingDirName stagingOwnerFile = some marker ∨
    ∀ n e, s.entry stagingDirName n = some e → isOwnerTemp n = true ∧ e.removable = true

/-- A ready staging directory has its marker, and nothing else if it had none. -/
theorem ensureStagingDirectory_succeeds (hs : Calm ok dirs s) (hdir : stagingDirName ∈ dirs)
    (hready : StagingReady s)
    (hquiet : s.entry stagingDirName stagingOwnerFile = some marker ∨ ∀ e, ¬ok e) :
    Succeeds ensureStagingDirectory s fun _ t =>
      t.entry stagingDirName stagingOwnerFile = some marker ∧
      (s.entry stagingDirName stagingOwnerFile = some marker →
        ∀ n, t.entry stagingDirName n = s.entry stagingDirName n) ∧
      (s.entry stagingDirName stagingOwnerFile ≠ some marker →
        ∀ n, n ≠ stagingOwnerFile → t.entry stagingDirName n = none) := by
  refine (Succeeds.calm (ensureChildDirectory_succeeds hs hdir) hs).bind fun _ t ⟨ht, hs'⟩ => ?_
  refine Succeeds.afterCall hs' (Succeeds.read ?_)
  rw [LibraryState.entry_answered, ht]
  have hs' := hs'.apply .answered
  by_cases hmarker : s.entry stagingDirName stagingOwnerFile = some marker
  · rw [hmarker]
    dsimp only [marker]
    have hentry : (t.apply .answered).entry stagingDirName stagingOwnerFile =
        some (.file stagingOwnerContent) := (ht _ _).trans hmarker
    refine (readLimited_succeeds hs' hentry (by decide)).bind fun content u ⟨hcontent, hu⟩ => ?_
    subst hcontent hu
    refine (succeeds_ofExcept (a := ()) ?_).imp fun _ u ⟨_, hu⟩ => ?_
    · rw [ensure_eq_ok, beq_iff_eq]
    · have hsame (n : String) : u.entry stagingDirName n = s.entry stagingDirName n := by
        rw [hu]
        exact ht _ _
      exact ⟨(hsame _).trans hmarker, fun _ => hsame, fun h => absurd rfl h⟩
  · have htemps := hready.resolve_left hmarker
    have hquiet := hquiet.resolve_left hmarker
    have hnone : s.entry stagingDirName stagingOwnerFile = none := by
      cases hentry : s.entry stagingDirName stagingOwnerFile with
      | none => rfl
      | some e =>
        have hname : isOwnerTemp stagingOwnerFile = false := rfl
        rw [(htemps _ e hentry).1] at hname
        contradiction
    rw [hnone]
    dsimp only
    refine Succeeds.afterCall hs' (Succeeds.read ?_)
    have hs' := hs'.apply .answered
    have hkeys {n : String} (hn : n ∈ (((t.apply .answered).apply .answered).entries
        stagingDirName).keys) : isOwnerTemp n = true ∧ (((t.apply .answered).apply
          .answered).entry stagingDirName n).any (·.removable) = true := by
      obtain ⟨e, he⟩ := (Files.mem_keys_iff _ _).mp hn
      have hentry : ((t.apply .answered).apply .answered).entry stagingDirName n = some e := he
      have hs : s.entry stagingDirName n = some e := (ht _ _).symm.trans hentry
      rw [hentry]
      exact htemps n e hs
    refine (Succeeds.calm (removeOwnerTemps_succeeds hs' (AList.keys_nodup _)
      fun n hn => hkeys hn) hs').bind
      fun _ u ⟨hu, hcalm⟩ => ?_
    refine Succeeds.afterCall hcalm ?_
    have hcalm : Calm (fun _ => False) dirs (u.apply .answered) :=
      ⟨(hcalm.apply .answered).done, fun n e h => hquiet e ((hcalm.apply .answered).appears n e h),
        (hcalm.apply .answered).directories⟩
    refine (createStagingOwner_succeeds hcalm fun n => ?_).imp fun _ w hw => ?_
    · rw [LibraryState.entry_answered, hu n]
      split
      · rfl
      · rename_i hn
        cases hentry : ((t.apply .answered).apply .answered).entry stagingDirName n with
        | none => rfl
        | some e => exact absurd ((Files.mem_keys_iff _ _).mpr ⟨e, hentry⟩) hn
    · refine ⟨(hw _).trans (if_pos rfl), fun h => (nomatch h), fun _ n hn => ?_⟩
      rw [hw, if_neg hn]

section Receive

variable {sha256 : Bytes → String} {hasher : Hasher sha256} {maxFileSize : Nat}
  {shard name temporary : String} {found : FileInspection} {bytes content : Bytes}
  {delivery : Delivery} {reads : List ReadStep} {libraryDir : String}

/-- An object that reads as what was found is accepted. -/
theorem compareExisting_succeeds (hs : Calm ok dirs s)
    (hcontent : s.contents shard name = some content)
    (hfound : inspectFile sha256 maxFileSize content = .ok found) :
    Succeeds (compareExisting sha256 maxFileSize shard name found) s fun _ _ => True := by
  have hinspect : Succeeds (inspectObject sha256 maxFileSize shard name) s
      fun i t => i = found ∧ t = s.apply .answered := by
    apply Succeeds.afterCall hs
    apply Succeeds.read
    rw [LibraryState.entry_answered]
    obtain ⟨entry, hentry, hread⟩ := Option.bind_eq_some_iff.mp hcontent
    rw [hentry]
    cases entry with
    | file =>
      cases hread
      exact succeeds_ofExcept hfound
    | link target =>
      match target, hread with
      | some (.ok _), rfl =>
        exact (succeeds_ofExcept rfl).bind fun _ _ ⟨hb, ht⟩ => by
          subst hb ht
          exact succeeds_ofExcept hfound
    | directory | other => contradiction
  refine hinspect.bind fun _ _ ⟨hi, ht⟩ => ?_
  subst hi ht
  refine (succeeds_ofExcept (a := ()) ?_).bind fun _ _ ⟨_, ht⟩ => ?_
  · rw [ensure_eq_ok, beq_self_eq_true]
  · subst ht
    exact (succeeds_call (hs.apply .answered)).imp fun _ _ _ => trivial

/-- What another process puts there is `ok`. -/
theorem raced_ok (hs : Calm ok dirs s) : Succeeds (raced shard name) s fun _ t =>
    t.entry shard name = s.entry shard name ∨ ∃ e, ok e ∧ t.entry shard name = some e := by
  refine succeeds_ask.bind fun _ _ hasked => ?_
  obtain ⟨rfl, rfl⟩ := hasked
  apply Succeeds.read
  split
  · rename_i entry _ happears
    rw [Succeeds, meets_emit]
    refine ⟨trivial, (), rfl, Or.inr ⟨entry, hs.appears 0 entry happears, ?_⟩⟩
    rw [LibraryState.entry_appear, if_pos ⟨rfl, rfl⟩]
  · exact succeeds_pure.imp fun _ _ hsame => Or.inl (hsame.2 ▸ rfl)

/-- The staged file becomes an object, or is one already. -/
theorem commitObject_succeeds (hs : Calm ok dirs s) (hshard : shardOf found.sha256 ∈ dirs)
    (hplace : ∀ e, s.entry (shardOf found.sha256) (objectName found.sha256 found.extension) = some e →
      ∃ content, e.contents = some content ∧ inspectFile sha256 maxFileSize content = .ok found)
    (hok : ∀ e, ok e → ∃ content, e.contents = some content ∧
      inspectFile sha256 maxFileSize content = .ok found) :
    Succeeds (commitObject sha256 maxFileSize temporary found) s fun _ _ => True := by
  unfold commitObject
  dsimp only
  generalize shardOf found.sha256 = shard at *
  generalize objectName found.sha256 found.extension = name at *
  have hcompare {t : LibraryState} {e : Entry} (ht : Calm ok dirs t)
      (hentry : t.entry shard name = some e) (hread : ∃ content, e.contents = some content ∧
        inspectFile sha256 maxFileSize content = .ok found) :
      Succeeds (compareExisting sha256 maxFileSize shard name found) t fun _ _ => True := by
    obtain ⟨content, hcontent, hfound⟩ := hread
    have hthere : t.contents shard name = some content := by
      rw [LibraryState.contents, hentry]
      exact hcontent
    exact compareExisting_succeeds ht hthere hfound
  refine (Succeeds.calm (ensureChildDirectory_succeeds hs hshard) hs).bind fun _ t hensured => ?_
  obtain ⟨ht, hcalm⟩ := hensured
  apply Succeeds.read
  split
  · rename_i hexists
    rw [Option.any_eq_true] at hexists
    obtain ⟨e, hentry, -⟩ := hexists
    exact hcompare hcalm hentry (hplace e ((ht _ _).symm.trans hentry))
  · refine (Succeeds.calm (raced_ok hcalm) hcalm).bind fun _ u hraced => ?_
    obtain ⟨hu, hcalm⟩ := hraced
    apply Succeeds.read
    split
    · rename_i e hentry
      refine hcompare hcalm hentry ?_
      rcases hu with hsame | ⟨e', he', happeared⟩
      · exact hplace e (by rw [← ht, ← hsame, hentry])
      · rw [hentry, Option.some.injEq] at happeared
        exact happeared ▸ hok e' he'
    · exact Succeeds.afterAct hcalm ((succeeds_call ((hcalm.apply .answered).apply _)).imp
        fun _ _ _ => trivial)

/-- What reads as these bytes, as far as an inspection tells. -/
def Reads (sha256 : Bytes → String) (bytes : Bytes) (e : Entry) : Prop :=
  ∃ content, e.contents = some content ∧ inspection sha256 content = inspection sha256 bytes

/-- Nothing is in the way of a run of `receive`: no call fails, the staging directory is ready and
the temporary name free, the shard is a directory or missing, and another process puts nothing but
what is `ok`, and that only into a library with a marker. -/
structure Unobstructed (ok : Entry → Prop) (delivery : Delivery) (s : LibraryState) : Prop where
  calm : Calm ok [stagingDirName, shardOf delivery.sha256] s
  ready : StagingReady s
  quiet : s.entry stagingDirName stagingOwnerFile = some marker ∨ ∀ n, (s.answers n).appears = none
  free : ∀ n, s.entry stagingDirName ("mirelay-" ++ delivery.id ++ "-" ++ (s.answers n).name ++
    ".part") = none

/-- What reads alike is found alike. -/
theorem inspectFile_of_inspection (h : inspection sha256 content = inspection sha256 bytes)
    (hbytes : inspectFile sha256 maxFileSize bytes = .ok found) :
    inspectFile sha256 maxFileSize content = .ok found := by
  obtain ⟨⟨hlimit, -, hne⟩, rfl⟩ := copyAndInspect_eq_ok.mp hbytes
  have hlength : content.length = bytes.length := congrArg FileInspection.size h
  refine copyAndInspect_eq_ok.mpr ⟨⟨hlength ▸ hlimit, fun _ h => (nomatch h), ?_⟩, h.symm⟩
  rw [← List.length_pos_iff_ne_nil] at hne ⊢
  exact hlength ▸ hne

theorem receiveInto_succeeds (hmax : maxFileSize < 2 ^ 64)
    (hvalid : validateDeliveryMetadata delivery maxFileSize = .ok ())
    (hdeclared : Declared sha256 delivery maxFileSize reads bytes)
    (hs : Calm ok dirs s) (hshard : shardOf delivery.sha256 ∈ dirs)
    (hfile : s.entry stagingDirName temporary = some (.file []))
    (hplace : ∀ e, s.entry (shardOf delivery.sha256) (declaredName delivery) = some e →
      Reads sha256 bytes e) (hok : ∀ e, ok e → Reads sha256 bytes e) :
    Succeeds (receiveInto hasher delivery reads libraryDir maxFileSize temporary) s
      fun asset _ => asset = declaredAsset libraryDir delivery := by
  obtain ⟨hsize, -, hdigest, -⟩ := validateDeliveryMetadata_ok hvalid
  have hinspected := hdeclared.inspected hsize
  have hexpected : copyAndInspect sha256 maxFileSize (some delivery.size) bytes =
      .ok (inspection sha256 bytes) := by
    obtain ⟨⟨hlimit, -, hne⟩, -⟩ := copyAndInspect_eq_ok.mp hinspected
    refine copyAndInspect_eq_ok.mpr ⟨⟨hlimit, ?_, hne⟩, rfl⟩
    rintro _ ⟨⟩
    exact hdeclared.size
  obtain ⟨c, hc, hfinish, -⟩ : ∃ c : Copying hasher, (Copying.new hasher).copy maxFileSize
      (some delivery.size) reads = .ok c ∧ finishCopy (some delivery.size) c =
        .ok (inspection sha256 bytes) ∧ c.written = bytes :=
    (finishCopy_eq_ok hmax).mpr ⟨hdeclared.stream, hexpected⟩
  have hcopied : Succeeds (copyInto hasher temporary maxFileSize (some delivery.size) (.new hasher)
      reads) s fun c' t => c' = c ∧ t.entry (shardOf delivery.sha256) (declaredName delivery) =
        s.entry (shardOf delivery.sha256) (declaredName delivery) := by
    have hcopy : Meets (copyInto hasher temporary maxFileSize (some delivery.size) (.new hasher)
        reads) s (Prepares s.answers fun _ => true) _ := copyInto_meets rfl hfile
    refine (hcopy.keeps (I := fun t => t.entry (shardOf delivery.sha256) (declaredName delivery) =
      s.entry (shardOf delivery.sha256) (declaredName delivery)) rfl fun t step ht hstep =>
        (hstep.entry_of_ne (shardOf_ne_stagingDirName hdigest)).trans ht).mono
          (fun _ _ _ => trivial) fun r t ht => ⟨c, ht.1.1.trans hc, rfl, ht.2⟩
  unfold receiveInto
  refine (Succeeds.calm hcopied hs).bind fun _ t ⟨⟨hc', hsame⟩, ht⟩ => ?_
  subst hc'
  refine (succeeds_ofExcept hfinish).bind fun _ _ ⟨hfound, hu⟩ => ?_
  subst hfound hu
  have hsha : (inspection sha256 bytes).sha256 = delivery.sha256 := hdeclared.digest
  refine (succeeds_ofExcept (a := ()) ?_).bind fun _ _ ⟨_, hu⟩ => ?_
  · rw [ensure_eq_ok, beq_iff_eq, toAsciiLowercase_of_validateSha256 hdigest, hsha]
  subst hu
  refine (succeeds_ofExcept (a := ()) ?_).bind fun _ _ ⟨_, hu⟩ => ?_
  · rw [ensure_eq_ok, beq_iff_eq]
    exact hdeclared.mediaType
  subst hu
  refine Succeeds.afterCall ht ?_
  refine (commitObject_succeeds (ht.apply .answered) (hsha ▸ hshard) (fun e he => ?_)
    fun e he => ?_).bind fun _ u _ => succeeds_pure.imp fun _ _ ⟨ha, _⟩ => ?_
  · have hentry : s.entry (shardOf delivery.sha256) (declaredName delivery) = some e := by
      rw [← hsame, ← hdeclared.extension, ← hsha]
      exact he
    obtain ⟨content, hcontent, hread⟩ := hplace e hentry
    exact ⟨content, hcontent, inspectFile_of_inspection hread hinspected⟩
  · obtain ⟨content, hcontent, hread⟩ := hok e he
    exact ⟨content, hcontent, inspectFile_of_inspection hread hinspected⟩
  · rw [ha, declaredAsset, ← hdeclared.extension, ← hdeclared.size, ← hsha, ← hdeclared.mediaType]
    rfl

/-- A run of `receive` touches no other file of a staging directory that has its marker. -/
theorem receiveInto_staging (hmax : maxFileSize < 2 ^ 64)
    (hvalid : validateDeliveryMetadata delivery maxFileSize = .ok ())
    (hfile : s.entry stagingDirName temporary = some (.file []))
    (hmarker : s.entry stagingDirName stagingOwnerFile = some marker) :
    Meets (receiveInto hasher delivery reads libraryDir maxFileSize temporary) s (fun _ _ => True)
      fun _ t => ∀ n, n ≠ temporary → t.entry stagingDirName n = s.entry stagingDirName n := by
  have hshard := shardOf_ne_stagingDirName (validateDeliveryMetadata_ok hvalid).2.2.1
  have hrun : Meets (receiveInto hasher delivery reads libraryDir maxFileSize temporary) s
      (Receives s.answers (· == temporary) (shardOf delivery.sha256) (declaredName delivery)
        (Declared sha256 delivery maxFileSize reads)) _ :=
    receiveInto_meets (fun n => ⟨n, rfl⟩) hmax hvalid (beq_self_eq_true _) hfile hshard
  refine (hrun.keeps (I := fun t => ∀ n, n ≠ temporary →
    t.entry stagingDirName n = s.entry stagingDirName n) (fun _ _ => rfl) fun t step ht hstep n hn =>
      ?_).mono (fun _ _ _ => trivial) fun _ _ h => h.2
  rcases hstep.handled hshard n with hsame | ⟨rfl, hnone⟩ | ⟨hname, -⟩
  · exact hsame.trans (ht n hn)
  · rw [ht _ hn, hmarker] at hnone
    contradiction
  · exact absurd (beq_iff_eq.mp hname) hn

/-- A run of `receive` without failing calls. -/
theorem receive_succeeds (hmax : maxFileSize < 2 ^ 64)
    (hvalid : validateDeliveryMetadata delivery maxFileSize = .ok ())
    (hdeclared : Declared sha256 delivery maxFileSize reads bytes)
    (hs : Calm ok [stagingDirName, shardOf delivery.sha256] s) (hready : StagingReady s)
    (hquiet : s.entry stagingDirName stagingOwnerFile = some marker ∨ ∀ e, ¬ok e)
    (hfree : ∀ n, s.entry stagingDirName ("mirelay-" ++ delivery.id ++ "-" ++ (s.answers n).name ++
      ".part") = none)
    (hplace : ∀ e, s.entry (shardOf delivery.sha256) (declaredName delivery) = some e →
      Reads sha256 bytes e) (hok : ∀ e, ok e → Reads sha256 bytes e) :
    Succeeds (receive hasher delivery reads libraryDir maxFileSize) s fun asset t =>
      asset = declaredAsset libraryDir delivery ∧
        t.entry stagingDirName stagingOwnerFile = some marker ∧
        (s.entry stagingDirName stagingOwnerFile = some marker →
          ∀ n, t.entry stagingDirName n = s.entry stagingDirName n) := by
  have hshard := shardOf_ne_stagingDirName (validateDeliveryMetadata_ok hvalid).2.2.1
  unfold receive
  refine (succeeds_ofExcept hvalid).bind fun _ t ⟨_, ht⟩ => ?_
  rw [ht]
  refine Succeeds.afterCall hs ?_
  have hs := hs.apply .answered
  have hA : From s.answers (s.apply .answered) := fun n => ⟨n + 1, rfl⟩
  have hprepared : Meets ensureStagingDirectory (s.apply .answered)
      (Prepares s.answers isLeftover) _ :=
    (ensureStagingDirectory_prepared hA fun _ _ h => isLeftover_of_isOwnerTemp h).keeps
      (I := fun t => t.entry (shardOf delivery.sha256) (declaredName delivery) =
        s.entry (shardOf delivery.sha256) (declaredName delivery) ∧ From s.answers t)
      ⟨rfl, hA⟩ fun t step ht hstep => ⟨(hstep.entry_of_ne hshard).trans ht.1, ht.2.apply step⟩
  refine (Succeeds.calm ((ensureStagingDirectory_succeeds hs (by simp) hready hquiet).and hprepared)
      hs).bind
    fun _ t ⟨⟨⟨hmarker, hsame, hempty⟩, _, hplaced, hanswers⟩, hcalm⟩ => ?_
  refine succeeds_ask.bind fun _ _ ⟨ha, ht⟩ => ?_
  subst ha ht
  dsimp only
  obtain ⟨m, hm⟩ := hanswers 0
  rw [hm]
  have hfree := hfree m
  have hname := isLeftover_temporary delivery.id (s.answers m).name
  generalize "mirelay-" ++ delivery.id ++ "-" ++ (s.answers m).name ++ ".part" = temporary
    at hfree hname
  have hne := ne_stagingOwnerFile hname
  have hcalm := hcalm.apply .answered
  have htemporary : (t.apply .answered).entry stagingDirName temporary = none := by
    by_cases h : s.entry stagingDirName stagingOwnerFile = some marker
    · exact (hsame h temporary).trans hfree
    · exact hempty h temporary hne
  have hcreated (d n : String) (hplace : ¬(d = stagingDirName ∧ n = temporary)) :
      (((t.apply .answered).apply .answered).apply (.create stagingDirName temporary)).entry d n =
        t.entry d n := by
    rw [LibraryState.entry_create, if_neg hplace]
    rfl
  have hfile : (((t.apply .answered).apply .answered).apply
      (.create stagingDirName temporary)).entry stagingDirName temporary = some (.file []) := by
    rw [LibraryState.entry_create, if_pos ⟨rfl, rfl⟩]
  refine (withTemporary_succeeds hcalm htemporary ((receiveInto_succeeds hmax hvalid hdeclared
    ((hcalm.apply .answered).apply _) (by simp) hfile (fun e he => ?_) hok).and
      (receiveInto_staging hmax hvalid hfile ?_))).imp fun asset w hw => ?_
  · rw [hcreated _ _ fun h => hshard h.1, hplaced] at he
    exact hplace e he
  · rw [hcreated _ _ fun h => hne h.2.symm, hmarker]
  · obtain ⟨u, ⟨hasset, hu⟩, hw⟩ := hw
    have hstaging (n : String) (hn : n ≠ temporary) :
        w.entry stagingDirName n = t.entry stagingDirName n := by
      rw [hw, if_neg fun h => hn h.2, hu n hn, hcreated _ _ fun h => hn h.2]
    refine ⟨hasset, (hstaging _ hne.symm).trans hmarker, fun h n => ?_⟩
    by_cases hn : n = temporary
    · rw [hn, hw, if_pos ⟨rfl, rfl⟩, hfree]
    · exact (hstaging n hn).trans (hsame h n)

/-- An unobstructed run of `receive` on the declared content. -/
theorem receive_succeeds_of_unobstructed (hmax : maxFileSize < 2 ^ 64)
    (hvalid : validateDeliveryMetadata delivery maxFileSize = .ok ())
    (hdeclared : Declared sha256 delivery maxFileSize reads bytes)
    (hs : Unobstructed ok delivery s)
    (hplace : ∀ e, s.entry (shardOf delivery.sha256) (declaredName delivery) = some e →
      Reads sha256 bytes e) (hok : ∀ e, ok e → Reads sha256 bytes e) :
    Succeeds (receive hasher delivery reads libraryDir maxFileSize) s fun asset t =>
      asset = declaredAsset libraryDir delivery ∧
        t.entry stagingDirName stagingOwnerFile = some marker ∧
        (s.entry stagingDirName stagingOwnerFile = some marker →
          ∀ n, t.entry stagingDirName n = s.entry stagingDirName n) := by
  rcases hs.quiet with hmarker | hnone
  · exact receive_succeeds hmax hvalid hdeclared hs.calm hs.ready (Or.inl hmarker) hs.free hplace hok
  · have hcalm : Calm (fun _ => False) [stagingDirName, shardOf delivery.sha256] s :=
      ⟨hs.calm.done, fun n e h => absurd ((hnone n).symm.trans h) (by simp), hs.calm.directories⟩
    exact receive_succeeds hmax hvalid hdeclared hcalm hs.ready (Or.inr fun _ h => h) hs.free hplace
      fun _ h => h.elim

/-- A cleanup succeeds where the staging directory is ready, and leaves what it does not know. -/
theorem cleanupStaging_succeeds (hs : Calm ok dirs s) (hdir : stagingDirName ∈ dirs)
    (hready : StagingReady s)
    (hquiet : s.entry stagingDirName stagingOwnerFile = some marker ∨ ∀ e, ¬ok e) :
    Succeeds cleanupStaging s fun _ t => ∀ n e, t.entry stagingDirName n = some e →
      n = stagingOwnerFile ∨ (s.entry stagingDirName stagingOwnerFile = some marker ∧
        s.entry stagingDirName n = some e ∧ (isOwnedTemporary n = true → e.removable = false)) := by
  have hscan (found : List String) {t : LibraryState} (ht : Calm ok dirs t) :
      Succeeds (removeStale found) t fun _ _ => True := by
    induction found generalizing t with
    | nil => exact succeeds_pure.imp fun _ _ _ => trivial
    | cons name rest ih =>
      refine Succeeds.afterCall ht (Succeeds.read ?_)
      split
      · have ht := ht.apply .answered
        exact Succeeds.afterAct ht ((ih ((ht.apply .answered).apply _)).bind fun _ _ _ =>
          succeeds_pure.imp fun _ _ _ => trivial)
      · exact ih (ht.apply .answered)
  refine Succeeds.afterCall hs ?_
  have hs := hs.apply .answered
  refine (Succeeds.calm (ensureStagingDirectory_succeeds hs hdir hready hquiet) hs).bind
    fun _ t ⟨⟨_, hsame, hempty⟩, ht⟩ => ?_
  refine Succeeds.afterCall ht (Succeeds.read ?_)
  have hstale : Meets (removeStale ((t.apply .answered).entries stagingDirName).keys)
      (t.apply .answered) (Prepares s.answers fun _ => true) _ :=
    removeStale_meets (fun _ _ => rfl) _
  refine (Succeeds.calm ((hscan _ (ht.apply .answered)).and hstale) (ht.apply .answered)).bind
    fun removed u ⟨⟨_, hu⟩, hcalm⟩ => ?_
  have hkept {n : String} {e : Entry} (he : u.entry stagingDirName n = some e) :
      n = stagingOwnerFile ∨ (s.entry stagingDirName stagingOwnerFile = some marker ∧
        s.entry stagingDirName n = some e ∧ (isOwnedTemporary n = true → e.removable = false)) := by
    obtain ⟨hentry, hremovable⟩ := hu removed rfl n e he
    by_cases hmarker : s.entry stagingDirName stagingOwnerFile = some marker
    · exact Or.inr ⟨hmarker, (hsame hmarker n).symm.trans hentry,
        hremovable ((Files.mem_keys_iff _ _).mpr ⟨e, hentry⟩)⟩
    · by_cases hn : n = stagingOwnerFile
      · exact Or.inl hn
      · exact absurd (hentry.symm.trans (hempty hmarker n hn)) (by simp)
  dsimp only
  split
  · refine Succeeds.afterCall hcalm (succeeds_pure.imp fun _ w ⟨_, hw⟩ n e he => hkept ?_)
    rw [hw] at he
    exact he
  · exact succeeds_pure.imp fun _ w ⟨_, hw⟩ n e he => hkept (hw ▸ he)

end Receive

end Calm

end Storage

end MiRelay
