import MiRelay.Android.StagingSound

/-!
# The local exit of a folder from the staging area

Once no staging was cut off in the middle of its marker, the strict scan over
all directories accepts what earlier runs left behind. The cleanup of a folder
then succeeds, empties the directories that were drawn for it and keeps those
of every other folder.
-/

namespace MiRelay.Android

open MiRelay

namespace StagingArea

variable {s t u : StagingArea} {id folder name : String} {files : Files String String}
  {owned : List String}

/-- What the local exit of a folder promises. -/
structure LocallyCleaned (s t : StagingArea) (folder : String) : Prop where
  emptied : ∀ id files, s.Drawn id folder → t.dirs.lookup id = some files →
    ∀ name, files.lookup name = none
  transfers : ∀ id, (id, folder) ∉ t.transfers
  sources : ∀ tree, (folder, tree) ∉ t.sources
  previews : ∀ tree, (folder, tree) ∉ t.previews
  otherDirs : ∀ id other, s.Drawn id other → other ≠ folder →
    t.dirs.lookup id = s.dirs.lookup id
  otherTransfers : t.transfers.filter (·.2 != folder) = s.transfers.filter (·.2 != folder)
  otherSources : t.sources.filter (·.1 != folder) = s.sources.filter (·.1 != folder)
  otherPreviews : t.previews.filter (·.1 != folder) = s.previews.filter (·.1 != folder)

/-! ### The scan -/

/-- A run without a marker cut off leaves the area sound. -/
theorem areaSound_of_steps {l : List StagingStep} (h : Steps perform intact initial l s) :
    AreaSound s :=
  h.invariant (I := fun _ s => AreaSound s) .initial fun _ _ _ _ hs ha hu => hs.perform ha hu

/-- The folder of a queued transfer is the one its identity was drawn for. -/
theorem AreaSound.known_eq (h : AreaSound s) (hfolder : s.Drawn id folder) :
    s.known id = none ∨ s.known id = some folder := by
  cases hknown : s.known id with
  | none => exact .inl rfl
  | some other =>
    have hqueued := h.queued id other (mem_transfers_of_known hknown)
    exact .inr (congrArg some (h.once id other folder hqueued hfolder))

/-- While nothing is staged, no directory needs review. -/
theorem AreaSound.inspect_isSome (h : AreaSound s) (hidle : ∀ id, s.stagings.lookup id = none)
    (hfiles : s.dirs.lookup id = some files) (folder : String) :
    (s.inspect folder id).isSome = true := by
  obtain ⟨owner, howner, hdir⟩ := h.dirs id files hfiles
  obtain ⟨hid, hvalid⟩ := h.valid id owner howner
  unfold inspect
  rw [if_neg (by rw [hid]; exact Bool.noConfusion), hfiles]
  dsimp only
  cases hmarker : files.lookup markerName with
  | some owner' =>
    obtain rfl := hdir.owner (hidle id) hmarker
    dsimp only
    rw [if_pos ⟨length_of_isUuid hvalid, hvalid, h.known_eq howner⟩]
    rfl
  | none =>
    -- Without a marker there is nothing to own.
    have hempty : files.keys.any (fun name =>
        !(name == "resume.json.lock" && files.lookup name == some "") &&
          (name == payloadName || name == partName ||
            "resume.json".toList.isPrefixOf name.toList)) = false := by
      refine List.any_eq_false.mpr fun name hname => ?_
      obtain ⟨bytes, hbytes⟩ := (Files.mem_keys_iff _ _).mp hname
      rw [hdir.unmarked hmarker name] at hbytes
      contradiction
    dsimp only
    rw [if_neg (fun hc => by rw [hempty] at hc; exact absurd hc.2 Bool.false_ne_true)]
    rfl

/-- The scan of a sound area succeeds. -/
theorem AreaSound.cleanupTransfers_eq (h : AreaSound s)
    (hidle : ∀ id, s.stagings.lookup id = none) (folder : String) :
    s.cleanupTransfers folder = some ((s.transfers.filter (·.2 == folder)).map (·.1) ++
      s.dirs.keys.filter fun id => s.inspect folder id == some true) := by
  unfold cleanupTransfers
  refine if_pos (List.all_eq_true.mpr fun id hid => ?_)
  obtain ⟨files, hfiles⟩ := (Files.mem_keys_iff _ _).mp hid
  exact h.inspect_isSome hidle hfiles folder

/-- A directory with a file in it is found by the scan for its folder. -/
theorem AreaSound.found (h : AreaSound s) (hidle : ∀ id, s.stagings.lookup id = none)
    (hfolder : s.Drawn id folder) (hfiles : s.dirs.lookup id = some files)
    (hname : files.lookup name ≠ none) : s.inspect folder id = some true := by
  obtain ⟨owner, howner, hdir⟩ := h.dirs id files hfiles
  obtain rfl := h.once id owner folder howner hfolder
  obtain ⟨hid, hvalid⟩ := h.valid id owner howner
  cases hmarker : files.lookup markerName with
  | none => exact absurd (hdir.unmarked hmarker name) hname
  | some owner' =>
    obtain rfl := hdir.owner (hidle id) hmarker
    unfold inspect
    rw [if_neg (by rw [hid]; exact Bool.noConfusion), hfiles]
    dsimp only
    rw [hmarker]
    dsimp only
    rw [if_pos ⟨length_of_isUuid hvalid, hvalid, h.known_eq howner⟩, beq_self_eq_true]

/-! ### The removal -/

/-- The directories outside a list and all rows are kept. -/
structure Spared (owned : List String) (s t : StagingArea) : Prop where
  dirs : ∀ id, id ∉ owned → t.dirs.lookup id = s.dirs.lookup id
  transfers : t.transfers = s.transfers
  sources : t.sources = s.sources
  previews : t.previews = s.previews

theorem Spared.refl (owned : List String) (s : StagingArea) : Spared owned s s :=
  ⟨fun _ _ => rfl, rfl, rfl, rfl⟩

theorem Spared.trans {owned' : List String} (h : Spared owned s t) (h' : Spared owned' t u)
    (hall : ∀ id, id ∈ owned ∨ id ∈ owned' → id ∈ owned ++ owned') :
    Spared (owned ++ owned') s u where
  dirs id hid := by
    rw [h'.dirs id fun hin => hid (hall id (.inr hin)), h.dirs id fun hin => hid (hall id (.inl hin))]
  transfers := h'.transfers.trans h.transfers
  sources := h'.sources.trans h.sources
  previews := h'.previews.trans h.previews

/-- The removal of some files of a directory. -/
theorem foldl_removeFile (names : List String) (hfiles : s.dirs.lookup id = some files) :
    ∃ files', (names.foldl (fun s name => s.removeFile id name) s).dirs.lookup id = some files' ∧
      (∀ name, files'.lookup name = if name ∈ names then none else files.lookup name) ∧
      Spared [id] s (names.foldl (fun s name => s.removeFile id name) s) := by
  induction names generalizing s files with
  | nil => exact ⟨files, hfiles, fun name => by simp, .refl _ s⟩
  | cons first names ih =>
    have hstep : s.removeFile id first = s.setDir id (files.erase first) := by
      rw [removeFile, hfiles]
    have hfiles' : (s.setDir id (files.erase first)).dirs.lookup id = some (files.erase first) := by
      rw [setDir, Files.lookup_insert, if_pos rfl]
    obtain ⟨rest, hrest, hlookup, hspared⟩ := ih hfiles'
    rw [List.foldl_cons, hstep]
    refine ⟨rest, hrest, fun name => ?_, ⟨fun id' hid' => ?_, hspared.transfers, hspared.sources,
      hspared.previews⟩⟩
    · rw [hlookup, Files.lookup_erase]
      by_cases hin : name ∈ names
      · rw [if_pos hin, if_pos (List.mem_cons_of_mem _ hin)]
      · by_cases hfirst : name = first
        · rw [if_neg hin, if_pos hfirst, if_pos (hfirst ▸ List.mem_cons_self)]
        · rw [if_neg hin, if_neg hfirst, if_neg (by simp [hin, hfirst])]
    · have hne : id' ≠ id := fun heq => hid' (heq ▸ List.mem_cons_self)
      rw [hspared.dirs id' hid', setDir, Files.lookup_insert, if_neg hne]

/-- An owned directory is removed with all its files. -/
theorem removeOwned_eq_some (s : StagingArea) (id : String) :
    ∃ t, s.removeOwned id = some t ∧ t.dirs.lookup id = none ∧ Spared [id] s t := by
  cases hfiles : s.dirs.lookup id with
  | none =>
    refine ⟨s, ?_, hfiles, .refl _ s⟩
    simp only [removeOwned, removalOrder, hfiles, List.foldl_nil, removeDir]
  | some files =>
    obtain ⟨rest, hrest, hlookup, hspared⟩ := foldl_removeFile (s.removalOrder id) hfiles
    have hempty : rest.keys = [] := by
      refine List.eq_nil_iff_forall_not_mem.mpr fun name hname => ?_
      obtain ⟨bytes, hbytes⟩ := (Files.mem_keys_iff _ _).mp hname
      rw [hlookup] at hbytes
      split at hbytes
      · contradiction
      · rename_i hout
        -- Every file of the directory is in the list.
        have hin : name ∈ files.keys := (Files.mem_keys_iff _ _).mpr ⟨bytes, hbytes⟩
        refine hout ?_
        simp only [removalOrder, hfiles, List.mem_append, List.mem_filter, bne_iff_ne, beq_iff_eq]
        by_cases hmarker : name = markerName
        · exact .inr ⟨hin, hmarker⟩
        · exact .inl ⟨hin, hmarker⟩
    have hgone : s.removeOwned id = some
        { (s.removalOrder id).foldl (fun s name => s.removeFile id name) s with
          dirs := ((s.removalOrder id).foldl (fun s name => s.removeFile id name) s).dirs.erase id } := by
      simp only [removeOwned, removeDir, hrest, if_pos hempty]
    refine ⟨_, hgone, ?_, ⟨fun id' hid' => ?_, hspared.transfers, hspared.sources,
      hspared.previews⟩⟩
    · rw [Files.lookup_erase, if_pos rfl]
    · have hne : id' ≠ id := fun heq => hid' (heq ▸ List.mem_cons_self)
      rw [Files.lookup_erase, if_neg hne]
      exact hspared.dirs id' hid'

/-- The owned directories are removed one after the other. -/
theorem foldlM_removeOwned (owned : List String) (s : StagingArea) :
    ∃ t, owned.foldlM removeOwned s = some t ∧ (∀ id ∈ owned, t.dirs.lookup id = none) ∧
      Spared owned s t := by
  induction owned generalizing s with
  | nil => exact ⟨s, rfl, fun _ hid => absurd hid List.not_mem_nil, .refl _ s⟩
  | cons first owned ih =>
    obtain ⟨t, ht, hgone, hspared⟩ := removeOwned_eq_some s first
    obtain ⟨u, hu, hrest, hspared'⟩ := ih t
    refine ⟨u, ?_, fun id hid => ?_, hspared.trans hspared' fun id hid => ?_⟩
    · rw [List.foldlM_cons, ht]
      exact hu
    · by_cases hin : id ∈ owned
      · exact hrest id hin
      · have hfirst : id = first := (List.mem_cons.mp hid).resolve_right hin
        rw [hspared'.dirs id hin, hfirst, hgone]
    · exact List.mem_append.mpr hid

/-! ### The exit -/

/-- In every run that never cuts off the writing of a marker, the local exit of any folder succeeds,
leaves nothing of the folder and keeps everything of the others. -/
theorem clean_local_complete {l : List StagingStep} (h : Steps perform intact initial l s)
    (hidle : s.stagings.keys = []) (folder : String) :
    ∃ t, s.cleanLocal folder = some t ∧ LocallyCleaned s t folder := by
  have hsound := areaSound_of_steps h
  have hnone : ∀ id, s.stagings.lookup id = none := fun id => by
    rw [AList.lookup_eq_none, AList.mem_keys, hidle]
    exact List.not_mem_nil
  have hscan := hsound.cleanupTransfers_eq hnone folder
  obtain ⟨t, ht, hgone, hspared⟩ := foldlM_removeOwned
    ((s.transfers.filter (·.2 == folder)).map (·.1) ++
      s.dirs.keys.filter fun id => s.inspect folder id == some true) s
  have hclean : s.cleanLocal folder = some (t.deleteRows folder) := by
    rw [cleanLocal, hscan, Option.bind_eq_bind, Option.bind_some, ht]
    rfl
  refine ⟨_, hclean, ⟨fun id files hfolder hfiles name => ?_, fun id hid => ?_, fun tree hin => ?_,
    fun tree hin => ?_, fun id other hother hne => ?_, ?_, ?_, ?_⟩⟩
  · by_contra hname
    by_cases hin : s.inspect folder id = some true
    · obtain ⟨files', hfiles', -⟩ := lookup_of_inspect hin
      have hnone := hgone id (List.mem_append_right _ (List.mem_filter.mpr
        ⟨(Files.mem_keys_iff _ _).mpr ⟨files', hfiles'⟩, by rw [hin, beq_self_eq_true]⟩))
      exact Option.some_ne_none _ (hfiles.symm.trans hnone)
    · by_cases howned : id ∈ (s.transfers.filter (·.2 == folder)).map (·.1) ++
          s.dirs.keys.filter fun id => s.inspect folder id == some true
      · exact Option.some_ne_none _ (hfiles.symm.trans (hgone id howned))
      · -- A directory that the scan passed over held no file.
        have hsame : s.dirs.lookup id = some files := (hspared.dirs id howned).symm.trans hfiles
        exact hin (hsound.found hnone hfolder hsame hname)
  · simpa using (List.mem_filter.mp hid).2
  · simpa using (List.mem_filter.mp hin).2
  · simpa using (List.mem_filter.mp hin).2
  · refine hspared.dirs id fun hin => hne ?_
    exact hsound.once id other folder hother (hsound.mem_cleanupTransfers hnone hscan hin)
  · simp only [deleteRows, List.filter_filter, Bool.and_self, hspared.transfers]
  · simp only [deleteRows, List.filter_filter, Bool.and_self, hspared.sources]
  · simp only [deleteRows, List.filter_filter, Bool.and_self, hspared.previews]

/-- The check of every marker for its length. -/
def markersComplete (s : StagingArea) : Bool :=
  s.dirs.keys.all fun id => ((s.dirs.lookup id).bind (·.lookup markerName)).all (·.length == 36)

/-- The condition on a step, with every marker checked when a staging is lost. -/
def intactCheck (s : StagingArea) : StagingStep → Bool
  | .death => s.markersComplete
  | .dropDir _ _ => s.markersComplete
  | _ => true

theorem length_of_markersComplete {owner : String} (h : s.markersComplete = true)
    (hfiles : s.dirs.lookup id = some files) (howner : files.lookup markerName = some owner) :
    owner.length = 36 := by
  have hcheck := List.all_eq_true.mp h id ((Files.mem_keys_iff _ _).mpr ⟨files, hfiles⟩)
  rw [hfiles, Option.bind_some, howner] at hcheck
  exact beq_iff_eq.mp hcheck

theorem intact_of_check (a : StagingStep) (h : s.intactCheck a = true) : intact s a := by
  cases a with
  | death => exact fun _ _ _ hfiles howner => length_of_markersComplete h hfiles howner
  | dropDir id ok => exact fun _ _ hfiles howner => length_of_markersComplete h hfiles howner
  | _ => trivial

/-- Two folders of which the first is left while a copy for each of them was interrupted. -/
def interrupted : List StagingStep :=
  [.addFolder "11111111-1111-1111-1111-111111111111",
    .addFolder "22222222-2222-2222-2222-222222222222",
    .make "33333333-3333-3333-3333-333333333333" "11111111-1111-1111-1111-111111111111",
    .createMarker "33333333-3333-3333-3333-333333333333",
    .writeMarker "33333333-3333-3333-3333-333333333333" 36,
    .createPart "33333333-3333-3333-3333-333333333333",
    .writePart "33333333-3333-3333-3333-333333333333" "half",
    .make "44444444-4444-4444-4444-444444444444" "22222222-2222-2222-2222-222222222222",
    .createMarker "44444444-4444-4444-4444-444444444444",
    .writeMarker "44444444-4444-4444-4444-444444444444" 36,
    .createPart "44444444-4444-4444-4444-444444444444",
    .death,
    .closeFolder "11111111-1111-1111-1111-111111111111"]

/-- The copy of the first folder goes, the copy of the second stays. -/
theorem clean_local_complete_interrupted : ∃ s t,
    Steps perform intact initial interrupted s ∧ s.stagings.keys = [] ∧
      s.cleanLocal "11111111-1111-1111-1111-111111111111" = some t ∧
      LocallyCleaned s t "11111111-1111-1111-1111-111111111111" := by
  obtain ⟨s, hs, hidle⟩ := Steps.exists_of_replay perform intactCheck initial interrupted
    (fun s => s.stagings.keys == []) (by decide)
  have hkeys : s.stagings.keys = [] := beq_iff_eq.mp hidle
  have hsteps := hs.mono fun _ a ha => intact_of_check a ha
  obtain ⟨t, ht, hcleaned⟩ := clean_local_complete hsteps hkeys
    "11111111-1111-1111-1111-111111111111"
  exact ⟨s, t, hsteps, hkeys, ht, hcleaned⟩

/-- The process dies when the marker of an import was created and not yet written; the exit of
another folder then fails. -/
theorem interrupted_marker_blocks_exit : ¬∀ (l : List StagingStep) (s : StagingArea)
    (folder : String), Steps perform (fun _ _ => True) initial l s → s.stagings.keys = [] →
      s.cleaning = none → folder ∈ s.closed →
      ∃ t, s.cleanLocal folder = some t ∧ LocallyCleaned s t folder := by
  intro hall
  obtain ⟨s, hs, hend⟩ := Steps.exists_of_replay perform (fun _ _ => true) initial
    [.addFolder "11111111-1111-1111-1111-111111111111",
      .addFolder "22222222-2222-2222-2222-222222222222",
      .make "33333333-3333-3333-3333-333333333333" "11111111-1111-1111-1111-111111111111",
      .createMarker "33333333-3333-3333-3333-333333333333",
      .death,
      .closeFolder "22222222-2222-2222-2222-222222222222"]
    (fun s => s.stagings.keys == [] && s.cleaning.isNone &&
      decide ("22222222-2222-2222-2222-222222222222" ∈ s.closed) &&
      (s.cleanLocal "22222222-2222-2222-2222-222222222222").isNone) (by decide)
  simp only [Bool.and_eq_true, beq_iff_eq, Option.isNone_iff_eq_none, decide_eq_true_eq] at hend
  obtain ⟨⟨⟨hidle, hfree⟩, hclosed⟩, hfails⟩ := hend
  obtain ⟨t, ht, -⟩ := hall _ s "22222222-2222-2222-2222-222222222222"
    (hs.mono fun _ _ _ => trivial) hidle hfree hclosed
  exact Option.some_ne_none t (ht.symm.trans hfails)

end StagingArea

end MiRelay.Android
