import MiRelay.Android.DirectorySync

/-!
# Versions of the phone's directory files

A version is taken from the counter of the source and leaves it greater; the
counter is above whatever the relay has reported in a call that went through.
The digest of a path is recorded where its content is queued, or where a
confirmed comparison has found it on the other side.
-/

namespace MiRelay.Android

namespace DirectoryPaths

theorem isPrefixOf_startsReserved {part : List Char}
    (h : ".mirelay".toList.isPrefixOf (part.map Char.toLower) = true) :
    startsReserved part = true := by
  obtain ⟨rest, hrest⟩ := List.isPrefixOf_iff_prefix.mp h
  obtain ⟨front, back, rfl, hfront, -⟩ := List.map_eq_append_iff.mp hrest.symm
  have hlen : front.length = 8 := by
    simpa using congrArg List.length hfront
  rw [startsReserved, List.take_left' hlen, hlen, ← hfront]
  simp only [beq_self_eq_true, Bool.true_and, List.all_eq_true, Prod.forall]
  intro c lower hmem
  obtain ⟨i, hi, hget⟩ := List.getElem_of_mem hmem
  simp only [List.getElem_zip, List.getElem_map, Prod.mk.injEq] at hget
  simp [matchesIgnoreCase, ← hget.1, ← hget.2]

/-- A part that the phone accepts is one that the relay accepts. -/
theorem validComponent_of_validPart {part : List Char} (h : validPart part = true) :
    validComponent part = true := by
  simp only [validPart, Bool.and_eq_true, decide_eq_true_eq, Bool.not_eq_true'] at h
  obtain ⟨⟨⟨⟨⟨⟨hblank, hdot⟩, hdots⟩, hsize⟩, hcontrol⟩, hcolon⟩, hreserved⟩ := h
  have hne : part ≠ [] := by
    rintro rfl
    simp at hblank
  have hprefix : ".mirelay".toList.isPrefixOf (part.map Char.toLower) = false := by
    rw [← Bool.not_eq_true]
    intro hp
    rw [isPrefixOf_startsReserved hp] at hreserved
    contradiction
  simp only [validComponent, hne, hdot, hdots, hsize, hcontrol, hcolon, hprefix, ne_eq,
    not_false_eq_true, decide_true, Bool.not_false, Bool.and_self]

/-- A path that the phone accepts is one that the relay accepts. -/
theorem validatePath_of_validate {path : String} {u : Unit} (h : validate path = .ok u) :
    validatePath path = .ok () := by
  simp only [validate, bind_eq_ok, ensure_eq_ok, List.all_eq_true] at h
  obtain ⟨_, hsize, _, hdepth, hparts⟩ := h
  simp only [validatePath, bind_eq_ok, ensure_eq_ok, List.all_eq_true]
  exact ⟨(), hsize, (), hdepth, fun part hpart => validComponent_of_validPart (hparts part hpart)⟩

end DirectoryPaths

/-- The version after the reported ones. -/
theorem le_floor {remote : DirectoryState} {n : Nat} (h : floor remote = some n)
    {e : DirectoryEntry} (he : e ∈ remote.entries) : e.version < n := by
  simp only [floor] at h
  have hmax : ∀ (l : List DirectoryEntry) (m : Nat),
      m ≤ l.foldl (fun m e => max m e.version) m ∧
        ∀ e ∈ l, e.version ≤ l.foldl (fun m e => max m e.version) m := by
    intro l
    induction l with
    | nil => simp
    | cons a l ih =>
      intro m
      obtain ⟨hm, hl⟩ := ih (max m a.version)
      simp only [List.foldl_cons, List.mem_cons, forall_eq_or_imp]
      exact ⟨by omega, by omega, hl⟩
  split at h
  · have hle := (hmax remote.entries 0).2 e he
    simp only [Option.some.injEq] at h
    omega
  · contradiction

namespace Phone

variable {p q : Phone} {folder : String}

/-- The version that the next queued file of a folder takes. -/
def nextVersion (p : Phone) (folder : String) : Nat :=
  ((p.source folder).map (·.nextVersion)).getD 1

/-- The versions that the transfers of a folder carry. -/
def versions (p : Phone) (folder : String) : List Nat :=
  (p.transfers.rows.filter (·.folderId == folder)).filterMap (·.sourceVersion)

theorem source_folderId {a : AutoSource} (h : p.source folder = some a) : a.folderId = folder := by
  simpa using List.find?_some h

theorem source_updateSources {selected : AutoSource → Bool} {change : AutoSource → AutoSource}
    (h : ∀ a, (change a).folderId = a.folderId) :
    (p.updateSources selected change h).source folder =
      (p.source folder).map fun a => if selected a then change a else a := by
  have hid : ∀ a, (if selected a then change a else a).folderId = a.folderId := fun a => by
    split
    · exact h a
    · rfl
  simp only [source, updateSources, Table.rows_update, List.find?_map, Function.comp_def, hid]

@[simp] theorem source_updateTransfers {selected : Transfer → Bool} {change : Transfer → Transfer}
    (h : ∀ t, (change t).id = t.id) :
    (p.updateTransfers selected change h).source folder = p.source folder := rfl

@[simp] theorem source_updateFolders {selected : Folder → Bool} {change : Folder → Folder}
    (h : ∀ f, (change f).id = f.id) :
    (p.updateFolders selected change h).source folder = p.source folder := rfl

@[simp] theorem versions_updateSources {selected : AutoSource → Bool}
    {change : AutoSource → AutoSource} (h : ∀ a, (change a).folderId = a.folderId) :
    (p.updateSources selected change h).versions folder = p.versions folder := rfl

@[simp] theorem versions_updateFolders {selected : Folder → Bool} {change : Folder → Folder}
    (h : ∀ f, (change f).id = f.id) :
    (p.updateFolders selected change h).versions folder = p.versions folder := rfl

/-- An update of other columns carries the same versions. -/
theorem versions_updateTransfers {selected : Transfer → Bool} {change : Transfer → Transfer}
    (h : ∀ t, (change t).id = t.id)
    (hkeep : ∀ t, (change t).folderId = t.folderId ∧ (change t).sourceVersion = t.sourceVersion) :
    (p.updateTransfers selected change h).versions folder = p.versions folder := by
  have hsame : ∀ t : Transfer, (if selected t then change t else t).folderId = t.folderId ∧
      (if selected t then change t else t).sourceVersion = t.sourceVersion := fun t => by
    split
    · exact hkeep t
    · exact ⟨rfl, rfl⟩
  simp only [versions, updateTransfers, Table.rows_update, List.filter_map, List.filterMap_map,
    Function.comp_def, fun t => (hsame t).1, fun t => (hsame t).2]

/-- An update that raises the counters. -/
theorem nextVersion_updateSources {selected : AutoSource → Bool}
    {change : AutoSource → AutoSource} (h : ∀ a, (change a).folderId = a.folderId)
    (hraise : ∀ a, a.nextVersion ≤ (change a).nextVersion) :
    p.nextVersion folder ≤ (p.updateSources selected change h).nextVersion folder := by
  rw [nextVersion, nextVersion, source_updateSources]
  cases p.source folder with
  | none => exact le_rfl
  | some a =>
    simp only [Option.map_some, Option.getD_some]
    split
    · exact hraise a
    · exact le_rfl

/-- Storing a source raises its counter and keeps the versions. -/
theorem putSource_spec {a : AutoSource} (h : p.putSource a = some q) (ha : 1 ≤ a.nextVersion) :
    q.versions folder = p.versions folder ∧ p.nextVersion folder ≤ q.nextVersion folder ∧
      (folder = a.folderId → a.nextVersion ≤ q.nextVersion folder) := by
  unfold putSource at h
  cases hold : p.source a.folderId with
  | some old =>
    rw [hold] at h
    cases h
    have hfind : ∀ b, p.source folder = some b → b.folderId = a.folderId → b = old := by
      intro b hb hid
      rw [← source_folderId hb, hid, hold] at hb
      exact (Option.some.inj hb).symm
    refine ⟨rfl, ?_, ?_⟩
    · rw [nextVersion, nextVersion, source_updateSources]
      cases hb : p.source folder with
      | none => exact le_rfl
      | some b =>
        simp only [Option.map_some, Option.getD_some, beq_iff_eq]
        split
        · rename_i hid
          rw [hfind b hb hid]
          exact le_max_left ..
        · exact le_rfl
    · rintro rfl
      rw [nextVersion, source_updateSources, hold]
      simp [source_folderId hold]
  | none =>
    rw [hold] at h
    obtain ⟨sources, hinsert, rfl⟩ := Option.map_eq_some_iff.mp h
    have hsource : ({ p with sources } : Phone).source folder =
        (p.source folder).or (if a.folderId == folder then some a else none) := by
      simp only [source, Table.rows_insert hinsert, List.find?_append, List.find?_singleton]
    refine ⟨rfl, ?_, ?_⟩
    · rw [nextVersion, nextVersion, hsource]
      cases hb : p.source folder with
      | some b => exact le_rfl
      | none =>
        simp only [Option.none_or, Option.map_none, Option.getD_none]
        split
        · exact ha
        · exact le_rfl
    · rintro rfl
      rw [nextVersion, hsource, hold]
      simp

/-- The row that `addTransfer` and `commit` add. -/
theorem insertTransfer_spec {staged : StagedFile} {now : Nat} {autoRevision : Option String}
    {autoUnmetered : Bool} {directory : Option (String × Nat)} {target : String}
    (h : p.insertTransfer staged target now autoRevision autoUnmetered directory = some q) :
    q.sources = p.sources ∧ ∃ t : Transfer, q.transfers.rows = p.transfers.rows ++ [t] ∧
      t.folderId = target ∧ t.status = .queued ∧ t.relativePath = directory.map (·.1) ∧
      t.sourceVersion = directory.map (·.2) ∧
      t.sourceSha256 = directory.map fun _ => staged.sha256 := by
  unfold insertTransfer at h
  split at h
  · obtain ⟨transfers, hinsert, rfl⟩ := Option.map_eq_some_iff.mp h
    exact ⟨rfl, _, Table.rows_insert hinsert, rfl, rfl, rfl, rfl, rfl⟩
  · contradiction

/-- The versions after a new row. -/
theorem versions_append {t : Transfer} (h : q.transfers.rows = p.transfers.rows ++ [t]) :
    q.versions folder = p.versions folder ++
      (if t.folderId == folder then t.sourceVersion.toList else []) := by
  simp only [versions, h, List.filter_append, List.filterMap_append, List.filter_singleton]
  cases t.folderId == folder <;> cases hv : t.sourceVersion <;> simp [hv]

/-- A new row without a version. -/
theorem insertTransfer_versions {staged : StagedFile} {now : Nat} {autoRevision : Option String}
    {autoUnmetered : Bool} {target : String}
    (h : p.insertTransfer staged target now autoRevision autoUnmetered none = some q) :
    q.versions folder = p.versions folder ∧ p.nextVersion folder ≤ q.nextVersion folder := by
  obtain ⟨hsources, t, hrows, -, -, -, hversion, -⟩ := insertTransfer_spec h
  constructor
  · rw [versions_append hrows, hversion]
    simp
  · rw [nextVersion, nextVersion, source, source, hsources]

/-- A step of the rest of the phone neither assigns a version nor lowers a counter. -/
theorem perform_versions {a : PhoneStep} (hreserved : a.reserved = false)
    (h : p.perform a = some q) :
    q.versions folder = p.versions folder ∧ p.nextVersion folder ≤ q.nextVersion folder := by
  cases a with
  | createFolder id token pairingState =>
    obtain ⟨folders, -, rfl⟩ := Option.map_eq_some_iff.mp h
    exact ⟨rfl, le_rfl⟩
  | saveFolder | pairingResult | finishDisconnect =>
    simp only [perform, Option.ite_none_right_eq_some] at h
    obtain ⟨-, h⟩ := h
    cases h
    exact ⟨rfl, le_rfl⟩
  | beginExit | completeExit =>
    cases h
    exact ⟨rfl, le_rfl⟩
  | beginDisconnect id =>
    simp only [perform, Option.ite_none_right_eq_some] at h
    obtain ⟨-, h⟩ := h
    cases h
    unfold beginDisconnect
    exact ⟨versions_updateTransfers _ (by simp),
      nextVersion_updateSources (by simp) (by simp)⟩
  | cleanExitRows | removeFolder | commitDirectory | confirm | resume | receipts =>
    contradiction
  | addTransfer staged target now => exact insertTransfer_versions h
  | commitAuto target revision unmetered staged now =>
    simp only [perform, Option.ite_none_right_eq_some] at h
    exact insertTransfer_versions h.2
  | assign | makeManual | updateOwned =>
    simp only [perform, Option.ite_none_right_eq_some] at h
    obtain ⟨-, h⟩ := h
    cases h
    exact ⟨versions_updateTransfers _ (by simp), le_rfl⟩
  | pause id =>
    cases h
    exact ⟨versions_updateTransfers _ (by simp), le_rfl⟩
  | enable target tree name revision unmetered startImmediately =>
    simp only [perform, enable, Option.ite_none_right_eq_some] at h
    obtain ⟨hversions, hnext, -⟩ := putSource_spec h.2 le_rfl
    exact ⟨hversions, hnext⟩
  | startPrepared target unmetered =>
    simp only [perform, startPrepared, Option.ite_none_right_eq_some] at h
    obtain ⟨-, h⟩ := h
    cases h
    exact ⟨rfl, nextVersion_updateSources _ (by simp)⟩
  | disable target reason =>
    cases h
    exact ⟨versions_updateTransfers _ (by simp),
      nextVersion_updateSources (by simp) (by simp)⟩
  | doWork workId id =>
    simp only [perform] at h
    split at h
    · simp only [Option.ite_none_right_eq_some] at h
      obtain ⟨-, h⟩ := h
      cases h
      exact ⟨rfl, le_rfl⟩
    · contradiction
  | loseAccess worker =>
    simp only [perform, Option.ite_none_right_eq_some] at h
    obtain ⟨-, h⟩ := h
    cases h
    exact ⟨rfl, le_rfl⟩
  | pauseIfCurrent worker =>
    simp only [perform, Option.ite_none_right_eq_some] at h
    obtain ⟨-, h⟩ := h
    cases h
    exact ⟨versions_updateTransfers _ (by simp),
      nextVersion_updateSources (by simp) (by simp)⟩

/-- Resuming neither assigns a version nor lowers a counter. -/
theorem resume_versions {target tree revision : String} {unmetered : Bool}
    (h : p.resume target tree revision unmetered = some q) :
    q.versions folder = p.versions folder ∧ p.nextVersion folder ≤ q.nextVersion folder := by
  simp only [resume, Option.ite_none_right_eq_some] at h
  obtain ⟨-, h⟩ := h
  cases h
  constructor
  · exact (versions_updateTransfers _ (by simp)).trans
      (versions_updateTransfers _ (by simp))
  · exact nextVersion_updateSources (by simp) (by simp)

/-- A confirmation starts above the reported versions. -/
theorem confirm_versions {target tree name revision : String} {unmetered : Bool} {floor : Nat}
    (hfloor : 1 ≤ floor) (h : p.confirm target tree name revision unmetered floor = some q) :
    q.versions folder = p.versions folder ∧ p.nextVersion folder ≤ q.nextVersion folder ∧
      (folder = target → floor ≤ q.nextVersion folder) := by
  simp only [confirm, Option.ite_none_right_eq_some] at h
  exact putSource_spec h.2 hfloor

/-- Receipts raise the counter of an initialized directory above the reported versions. -/
theorem receipts_versions (target : String) (entries : List Receipt) (floor : Nat) :
    (p.receipts target entries floor).versions folder = p.versions folder ∧
      p.nextVersion folder ≤ (p.receipts target entries floor).nextVersion folder ∧
      (folder = target → (p.source folder).any (·.directorySync) = true →
        floor ≤ (p.receipts target entries floor).nextVersion folder) := by
  have hentries : ∀ (l : List Receipt) (p : Phone),
      (l.foldl (fun p entry => p.receipt target entry) p).versions folder = p.versions folder ∧
        (l.foldl (fun p entry => p.receipt target entry) p).source folder = p.source folder := by
    intro l
    induction l with
    | nil => exact fun p => ⟨rfl, rfl⟩
    | cons entry l ih =>
      intro p
      obtain ⟨hversions, hsource⟩ := ih (p.receipt target entry)
      have hentry : (p.receipt target entry).versions folder = p.versions folder ∧
          (p.receipt target entry).source folder = p.source folder := by
        unfold receipt
        dsimp only
        split
        · exact ⟨(versions_updateTransfers _ (by simp)).trans
            (versions_updateTransfers _ (by simp)), rfl⟩
        · exact ⟨versions_updateTransfers _ (by simp), rfl⟩
      exact ⟨hversions.trans hentry.1, hsource.trans hentry.2⟩
  obtain ⟨hversions, hsource⟩ := hentries entries p
  have hnext : p.nextVersion folder =
      (entries.foldl (fun p entry => p.receipt target entry) p).nextVersion folder := by
    rw [nextVersion, nextVersion, hsource]
  refine ⟨hversions, ?_, ?_⟩
  · rw [hnext]
    exact nextVersion_updateSources _ (by simp)
  · rintro rfl hsync
    rw [receipts, nextVersion, source_updateSources, hsource]
    rw [Option.any_eq_true] at hsync
    obtain ⟨a, ha, hsync⟩ := hsync
    simp [ha, source_folderId ha, hsync]

/-- A commit takes the version of the counter and leaves it greater. -/
theorem commitDirectory_versions {target revision path : String} {unmetered : Bool}
    {staged : StagedFile} {now : Nat}
    (h : p.perform (.commitDirectory target revision unmetered path staged now) = some q) :
    (∃ t : Transfer, q.transfers.rows = p.transfers.rows ++ [t] ∧ t.folderId = target ∧
      t.status = .queued ∧ t.relativePath = some path ∧
      t.sourceVersion = some (p.nextVersion target) ∧ t.sourceSha256 = some staged.sha256) ∧
    p.nextVersion target + 1 = q.nextVersion target ∧
    ∀ folder, folder ≠ target → q.nextVersion folder = p.nextVersion folder := by
  simp only [perform] at h
  cases ha : p.source target with
  | none =>
    rw [ha] at h
    contradiction
  | some a =>
    simp only [ha, Option.ite_none_right_eq_some] at h
    obtain ⟨-, h⟩ := h
    obtain ⟨mid, hinsert, rfl⟩ := Option.map_eq_some_iff.mp h
    obtain ⟨hsources, t, hrows, hfolder, hstatus, hpath, hversion, hsha⟩ :=
      insertTransfer_spec hinsert
    have hmid : ∀ f, mid.source f = p.source f := fun f => by
      rw [source, source, hsources]
    refine ⟨⟨t, hrows, hfolder, hstatus, hpath, ?_, hsha⟩, ?_, ?_⟩
    · rw [hversion, nextVersion, ha]
      rfl
    · rw [nextVersion, nextVersion, source_updateSources, hmid, ha]
      simp [source_folderId ha]
    · intro folder hne
      rw [nextVersion, nextVersion, source_updateSources, hmid]
      cases hb : p.source folder with
      | none => rfl
      | some b =>
        have hid : b.folderId ≠ target := fun hb' => hne ((source_folderId hb).symm.trans hb')
        simp [hid]

/-- Versions without repetition are each carried by one transfer. -/
theorem exists_unique_of_mem_versions (hnodup : (p.versions folder).Nodup) {v : Nat}
    (hv : v ∈ p.versions folder) :
    ∃! t, t ∈ p.transfers.rows ∧ t.folderId = folder ∧ t.sourceVersion = some v := by
  obtain ⟨t, ht, htv⟩ := List.mem_filterMap.mp hv
  rw [List.mem_filter, beq_iff_eq] at ht
  refine ⟨t, ⟨ht.1, ht.2, htv⟩, ?_⟩
  rintro u ⟨hu, hfolder, huv⟩
  by_contra hne
  rw [versions, List.Nodup, List.pairwise_filterMap] at hnodup
  have : Std.Symm fun a b : Transfer => ∀ v, a.sourceVersion = some v →
      ∀ w, b.sourceVersion = some w → v ≠ w :=
    ⟨fun a b hab v hv w hw => (hab w hw v hv).symm⟩
  exact hnodup.forall (List.mem_filter.mpr ⟨hu, by simp [hfolder]⟩)
    (List.mem_filter.mpr ⟨ht.1, by simp [ht.2]⟩) hne v huv v htv rfl

end Phone

namespace DirectoryPhone

variable {s t : DirectoryPhone} {folder path : String}

/-- The digest that is recorded for a path. -/
def recorded (s : DirectoryPhone) (folder path : String) : Option String :=
  (s.file folder path).bind (·.sha256)

/-- Every row has a path that the relay accepts. -/
def PathsValid (s : DirectoryPhone) : Prop :=
  ∀ f ∈ s.files.rows, DirectoryPaths.validate f.path = .ok ()

/-- The rows of the files change: a digest appears only under a condition. -/
structure Recording (s t : DirectoryPhone) (new : String → String → String → Prop) : Prop where
  phone : t.phone = s.phone
  valid : s.PathsValid → t.PathsValid
  recorded : ∀ folder path d, t.recorded folder path = some d →
    s.recorded folder path = some d ∨ new folder path d

theorem Recording.trans {u : DirectoryPhone} {new new' : String → String → String → Prop}
    (h : Recording s t new) (h' : Recording t u new') :
    Recording s u fun folder path d => new folder path d ∨ new' folder path d where
  phone := h'.phone.trans h.phone
  valid hs := h'.valid (h.valid hs)
  recorded folder path d hd := by
    rcases h'.recorded folder path d hd with hold | hnew
    · exact (h.recorded folder path d hold).imp_right .inl
    · exact .inr (.inr hnew)

theorem Recording.mono {new new' : String → String → String → Prop} (h : Recording s t new)
    (himp : ∀ folder path d, new folder path d → new' folder path d) : Recording s t new' :=
  ⟨h.phone, h.valid, fun folder path d hd =>
    (h.recorded folder path d hd).imp_right (himp folder path d)⟩

/-- One file after the other. -/
theorem Recording.foldlM {σ : Type} (view : σ → DirectoryPhone)
    {step : σ → HashedSource → Option σ} {new : HashedSource → String → String → String → Prop}
    (hstep : ∀ st value st', step st value = some st' →
      Recording (view st) (view st') (new value)) :
    ∀ {l : List HashedSource} {st st' : σ}, l.foldlM step st = some st' →
      Recording (view st) (view st') fun folder path d => ∃ value ∈ l, new value folder path d := by
  intro l
  induction l with
  | nil =>
    intro st st' h
    cases h
    exact ⟨rfl, id, fun _ _ _ hd => .inl hd⟩
  | cons value l ih =>
    intro st st' h
    rw [List.foldlM_cons] at h
    obtain ⟨mid, hmid, h⟩ := Option.bind_eq_some_iff.mp h
    refine ((hstep st value mid hmid).trans (ih h)).mono fun folder path d hnew => ?_
    rcases hnew with hnew | ⟨other, hother, hnew⟩
    · exact ⟨value, List.mem_cons_self, hnew⟩
    · exact ⟨other, List.mem_cons_of_mem _ hother, hnew⟩

theorem file_key {f : DirectoryFile} (h : s.file folder path = some f) :
    f.folderId = folder ∧ f.path = path := by
  simpa using List.find?_some h

theorem file_updateFiles {selected : DirectoryFile → Bool} {change : DirectoryFile → DirectoryFile}
    (h : ∀ f, (change f).folderId = f.folderId ∧ (change f).path = f.path) :
    (s.updateFiles selected change h).file folder path =
      (s.file folder path).map fun f => if selected f then change f else f := by
  have hkey : ∀ f, (if selected f then change f else f).folderId = f.folderId ∧
      (if selected f then change f else f).path = f.path := fun f => by
    split
    · exact h f
    · exact ⟨rfl, rfl⟩
  simp only [file, updateFiles, Table.rows_update, List.find?_map, Function.comp_def,
    fun f => (hkey f).1, fun f => (hkey f).2]

/-- An update records the digests that it sets. -/
theorem recording_updateFiles {selected : DirectoryFile → Bool}
    {change : DirectoryFile → DirectoryFile}
    (h : ∀ f, (change f).folderId = f.folderId ∧ (change f).path = f.path) :
    Recording s (s.updateFiles selected change h) fun folder path d =>
      ∃ f, f.folderId = folder ∧ f.path = path ∧ selected f = true ∧
        (change f).sha256 = some d ∧ f.sha256 ≠ some d where
  phone := rfl
  valid hs := by
    intro f hf
    simp only [updateFiles, Table.rows_update, List.mem_map] at hf
    obtain ⟨g, hg, rfl⟩ := hf
    split
    · rw [(h g).2]
      exact hs g hg
    · exact hs g hg
  recorded folder path d hd := by
    rw [recorded, file_updateFiles] at hd
    rw [recorded]
    cases hf : s.file folder path with
    | none =>
      rw [hf] at hd
      contradiction
    | some f =>
      simp only [hf, Option.map_some, Option.bind_some] at hd ⊢
      by_cases hsel : selected f = true
      · rw [if_pos hsel] at hd
        by_cases hold : f.sha256 = some d
        · exact .inl hold
        · exact .inr ⟨f, (file_key hf).1, (file_key hf).2, hsel, hd, hold⟩
      · rw [if_neg hsel] at hd
        exact .inl hd

/-- An update of other columns records nothing. -/
theorem recording_update {selected : DirectoryFile → Bool} {change : DirectoryFile → DirectoryFile}
    (h : ∀ f, (change f).folderId = f.folderId ∧ (change f).path = f.path)
    (hsha : ∀ f, (change f).sha256 = f.sha256) :
    Recording s (s.updateFiles selected change h) fun _ _ _ => False :=
  (recording_updateFiles h).mono fun _ _ _ ⟨f, _, _, _, hnew, hold⟩ =>
    hold ((hsha f).symm.trans hnew)

/-- A new row records its digest. -/
theorem recording_insert {row : DirectoryFile} {files : Table DirectoryFile DirectoryFile.clash}
    (h : s.files.insert row = some files) (hvalid : DirectoryPaths.validate row.path = .ok ()) :
    Recording s { s with files } fun folder path d =>
      row.folderId = folder ∧ row.path = path ∧ row.sha256 = some d where
  phone := rfl
  valid hs := by
    intro f hf
    rw [Table.rows_insert h, List.mem_append, List.mem_singleton] at hf
    rcases hf with hf | rfl
    · exact hs f hf
    · exact hvalid
  recorded folder path d hd := by
    have hfile : ({ s with files } : DirectoryPhone).file folder path =
        (s.file folder path).or
          (if row.folderId == folder && row.path == path then some row else none) := by
      simp only [file, Table.rows_insert h, List.find?_append, List.find?_singleton]
    rw [recorded, hfile] at hd
    rw [recorded]
    cases hf : s.file folder path with
    | some f =>
      rw [hf] at hd
      exact .inl hd
    | none =>
      simp only [hf, Option.none_or] at hd
      split at hd
      · rename_i hkey
        simp only [Bool.and_eq_true, beq_iff_eq] at hkey
        exact .inr ⟨hkey.1, hkey.2, hd⟩
      · contradiction

/-- One confirmed file. -/
theorem confirmFile_recording {changed : List String} {now : Int} {value : HashedSource}
    (h : confirmFile folder changed now s value = some t) :
    Recording s t fun g path d => g = folder ∧ value.file.relativePath = path ∧
      value.sha256 = d ∧ path ∉ changed := by
  unfold confirmFile at h
  split at h
  · contradiction
  · rename_i hvalid
    have hset : ∀ d, (if value.file.relativePath ∈ changed then none else some value.sha256) =
        some d → value.sha256 = d ∧ value.file.relativePath ∉ changed := by
      intro d hd
      split at hd
      · contradiction
      · rename_i hout
        exact ⟨Option.some.inj hd, hout⟩
    dsimp only at h
    split at h
    · rename_i hinsert
      cases h
      refine (recording_insert hinsert hvalid).mono ?_
      rintro g path d ⟨rfl, rfl, hd⟩
      exact ⟨rfl, rfl, hset d hd⟩
    · cases h
      refine (recording_updateFiles _).mono ?_
      rintro g path d ⟨f, rfl, rfl, hsel, hd, -⟩
      simp only [Bool.and_eq_true, beq_iff_eq] at hsel
      obtain ⟨hsha, hout⟩ := hset d hd
      exact ⟨hsel.1, hsel.2.symm, hsha, hsel.2 ▸ hout⟩

theorem confirmFiles_recording {changed : List String} {now : Int} {files : List HashedSource}
    (h : files.foldlM (confirmFile folder changed now) s = some t) :
    Recording s t fun g path d => ∃ value ∈ files, g = folder ∧ value.file.relativePath = path ∧
      value.sha256 = d ∧ path ∉ changed := by
  have hstep : ∀ s value t, confirmFile folder changed now s value = some t →
      Recording s t fun g path d => g = folder ∧ value.file.relativePath = path ∧
        value.sha256 = d ∧ path ∉ changed := fun _ _ _ => confirmFile_recording
  exact Recording.foldlM (fun st => st) hstep h

/-- One observed file. -/
theorem observeFile_recording {now : Int} {st st' : DirectoryPhone × List HashedSource}
    {value : HashedSource} (h : observeFile folder now st value = some st') :
    Recording st.1 st'.1 fun _ _ _ => False := by
  unfold observeFile at h
  split at h
  · contradiction
  · rename_i hvalid
    split at h
    · simp only [Option.ite_none_right_eq_some] at h
      obtain ⟨files, hinsert, rfl⟩ := Option.map_eq_some_iff.mp h.2
      exact (recording_insert hinsert hvalid).mono fun _ _ _ hnew => by
        simpa using hnew.2.2
    · cases h
      exact recording_update (by simp) (by simp)

theorem observe_recording {source : AutoSource} {files ready : List HashedSource} {now : Int}
    (h : s.observe source files now = some (t, ready)) : Recording s t fun _ _ _ => False := by
  simp only [observe, Option.bind_eq_bind, Option.ite_none_right_eq_some,
    Option.bind_eq_some_iff] at h
  obtain ⟨-, ⟨u, _⟩, hfold, h⟩ := h
  have hrows : Recording s u fun _ _ _ => ∃ value ∈ files, False :=
    Recording.foldlM Prod.fst (fun _ _ _ => observeFile_recording) hfold
  cases h
  exact (hrows.trans (recording_update (by simp) (by simp))).mono (by simp)

/-- A step queues a transfer of a path and a digest with the version of the counter. -/
structure Queues (s t : DirectoryPhone) (folder path d : String) : Prop where
  queued : ∃ tr : Transfer, t.phone.transfers.rows = s.phone.transfers.rows ++ [tr] ∧
    tr.folderId = folder ∧ tr.status = .queued ∧ tr.relativePath = some path ∧
    tr.sourceVersion = some (s.phone.nextVersion folder) ∧ tr.sourceSha256 = some d
  raised : s.phone.nextVersion folder < t.phone.nextVersion folder
  valid : DirectoryVersion.validate ⟨path, s.phone.nextVersion folder⟩ = .ok ()

end DirectoryPhone

/-- The versions that the relay has reported for a folder in a call. -/
def DirectoryCall.reported (folder : String) : DirectoryCall → List Nat
  | .confirm target _ _ _ _ _ remote _ _ _ _ =>
    if target = folder then remote.entries.map (·.version) else []
  | .receipts target remote => if target = folder then remote.entries.map (·.version) else []
  | _ => []

/-- The call confirms a preview whose comparison has found the digest on the other side. -/
def DirectoryCall.Identical (s : DirectoryPhone) (folder path d : String) : DirectoryCall → Prop
  | .confirm target _ previewId _ _ files remote _ _ _ _ => target = folder ∧
    ∃ preview, s.previews.lookup folder = some preview ∧ preview.id = previewId ∧
      preview.source = snapshot files ∧ preview.remote = remote ∧
      (∃ value ∈ files, value.file.relativePath = path ∧ value.sha256 = d) ∧
      path ∉ preview.comparison.missing ∧ path ∉ preview.comparison.different
  | _ => False

namespace DirectoryPhone

variable {s t : DirectoryPhone} {folder : String} {a : DirectoryCall}

/-- What a call does to the versions and the recorded digests of a folder. -/
structure Lawful (s t : DirectoryPhone) (a : DirectoryCall) (folder : String) : Prop where
  valid : t.PathsValid
  next : s.phone.nextVersion folder ≤ t.phone.nextVersion folder
  reported : s.Called a → ∀ v ∈ a.reported folder, v < t.phone.nextVersion folder
  versions : t.phone.versions folder = s.phone.versions folder ∨
    ∃ path d, Queues s t folder path d
  recorded : ∀ path d, t.recorded folder path = some d → s.recorded folder path ≠ some d →
    a.Identical s folder path d ∨ Queues s t folder path d

theorem Recording.refl : Recording s s fun _ _ _ => False :=
  ⟨rfl, id, fun _ _ _ hd => .inl hd⟩

/-- A call that records nothing, assigns nothing and reports nothing. -/
theorem Lawful.quiet (hs : s.PathsValid) {u : DirectoryPhone} (hfiles : u.files = s.files)
    (hrec : Recording u t fun _ _ _ => False)
    (hphone : u.phone.versions folder = s.phone.versions folder ∧
      s.phone.nextVersion folder ≤ u.phone.nextVersion folder)
    (hreported : a.reported folder = []) : Lawful s t a folder where
  valid := hrec.valid (by rwa [PathsValid, hfiles])
  next := hrec.phone ▸ hphone.2
  reported _ v hv := by
    rw [hreported] at hv
    contradiction
  versions := .inl (hrec.phone ▸ hphone.1)
  recorded path d hd hold := by
    rcases hrec.recorded folder path d hd with h | h
    · rw [DirectoryPhone.recorded, file, hfiles] at h
      exact absurd h hold
    · exact h.elim

/-- What a confirmation does to the rows of the files. -/
theorem confirm_recording {target scope previewId tree revision : String}
    {files : List HashedSource} {remote : DirectoryState} {unmetered : Bool} {now : Int}
    {filter : FileFilter} {skipped : List SkippedFile}
    (h : s.confirm target scope previewId tree revision files remote unmetered now filter skipped =
      some t) :
    ∃ preview floor, s.previews.lookup target = some preview ∧
      MiRelay.Android.floor remote = some floor ∧ preview.id = previewId ∧
      preview.source = snapshot files ∧ preview.remote = remote ∧
      s.phone.confirm target tree preview.name revision unmetered floor = some t.phone ∧
      (s.PathsValid → t.PathsValid) ∧
      ∀ folder path d, t.recorded folder path = some d → s.recorded folder path = some d ∨
        ∃ value ∈ files, folder = target ∧ value.file.relativePath = path ∧ value.sha256 = d ∧
          path ∉ preview.comparison.missing ++ preview.comparison.different := by
  simp only [confirm, Option.bind_eq_bind, Option.bind_eq_some_iff,
    Option.ite_none_right_eq_some] at h
  obtain ⟨preview, hpreview, floor, hfloor, ⟨-, hid, -, -, hsource, hremote, -⟩, phone, hphone, u,
    hu, h⟩ := h
  have hexcluded : Recording { s with phone, filters := s.filters.insert target filter }
      (DirectoryPhone.updateFiles { s with phone, filters := s.filters.insert target filter }
        (·.folderId == target) (fun f => { f with state := .excluded, error := none })
        fun _ => ⟨rfl, rfl⟩) fun _ _ _ => False :=
    recording_update _ fun _ => rfl
  have hrec := hexcluded.trans (confirmFiles_recording hu)
  cases h
  refine ⟨preview, floor, hpreview, hfloor, hid, hsource, hremote, hphone.trans ?_, hrec.valid,
    fun folder path d hd => (hrec.recorded folder path d hd).imp_right fun hnew =>
      hnew.resolve_left id⟩
  exact congrArg some hrec.phone.symm

theorem lawful_confirm (hs : s.PathsValid) {target scope previewId tree revision : String}
    {files : List HashedSource} {remote : DirectoryState} {unmetered : Bool} {now : Int}
    {filter : FileFilter} {skipped : List SkippedFile}
    (h : s.confirm target scope previewId tree revision files remote unmetered now filter skipped =
      some t) :
    Lawful s t (.confirm target scope previewId tree revision files remote unmetered now filter
      skipped) folder := by
  obtain ⟨preview, floor, hpreview, hfloor, hid, hsource, hremote, hphone, hvalid, hrecorded⟩ :=
    confirm_recording h
  have hpos : 1 ≤ floor := by
    simp only [MiRelay.Android.floor, Option.ite_none_right_eq_some, Option.some.injEq] at hfloor
    omega
  obtain ⟨hversions, hnext, hraise⟩ := Phone.confirm_versions hpos hphone
  refine ⟨hvalid hs, hnext, ?_, .inl hversions, ?_⟩
  · intro _ v hv
    simp only [DirectoryCall.reported] at hv
    split at hv
    · rename_i htarget
      obtain ⟨e, he, rfl⟩ := List.mem_map.mp hv
      exact (le_floor hfloor he).trans_le (hraise htarget.symm)
    · contradiction
  · intro path d hd hold
    rcases hrecorded folder path d hd with hd | ⟨value, hvalue, htarget, hpath, hsha, hout⟩
    · exact absurd hd hold
    · rw [List.mem_append, not_or] at hout
      exact .inl ⟨htarget.symm, preview, htarget ▸ hpreview, hid, hsource, hremote,
        ⟨value, hvalue, hpath, hsha⟩, hout⟩

/-- What a commit does: nothing, or one transfer with its version and digest. -/
theorem commit_queues (hs : s.PathsValid) {source : AutoSource} {value : HashedSource}
    {staged : StagedFile} {createdAt : Nat} (h : s.commit source value staged createdAt = some t) :
    t = s ∨ Queues s t source.folderId value.file.relativePath value.sha256 ∧
      (∀ folder, folder ≠ source.folderId →
        t.phone.versions folder = s.phone.versions folder ∧
          t.phone.nextVersion folder = s.phone.nextVersion folder) ∧
      t.PathsValid ∧ ∀ folder path d, t.recorded folder path = some d →
        s.recorded folder path = some d ∨
          folder = source.folderId ∧ path = value.file.relativePath ∧ d = value.sha256 := by
  simp only [commit] at h
  split at h
  · exact .inl (Option.some.inj h).symm
  split at h
  · contradiction
  rename_i hstaged
  split at h
  · exact .inl (Option.some.inj h).symm
  rename_i hrow
  simp only [Option.bind_eq_bind, Option.bind_eq_some_iff, Option.ite_none_right_eq_some] at h
  obtain ⟨version, hversion, ⟨hpos, hmax, -⟩, phone, hphone, h⟩ := h
  have hrec : Recording { s with phone } t fun folder path d =>
      folder = source.folderId ∧ path = value.file.relativePath ∧ d = value.sha256 := by
    cases h
    refine (recording_updateFiles _).mono ?_
    rintro folder path d ⟨f, rfl, rfl, hsel, hsha, -⟩
    simp only [Bool.and_eq_true, beq_iff_eq] at hsel
    exact ⟨hsel.1, hsel.2, (Option.some.inj hsha).symm⟩
  have htphone : t.phone = phone := hrec.phone
  rw [← htphone] at hphone
  have hversion : s.phone.nextVersion source.folderId = version := by
    rw [Phone.nextVersion, hversion]
    rfl
  -- The row of the path is there, hence the path was checked when it was observed.
  have hvalid : DirectoryPaths.validate value.file.relativePath = .ok () := by
    simp only [Bool.not_eq_true', Bool.not_eq_false, Option.any_eq_true] at hrow
    obtain ⟨f, hf, -⟩ := hrow
    rw [← (file_key hf).2]
    exact hs f (List.mem_of_find?_eq_some hf)
  obtain ⟨⟨tr, hrows, hfolder, hstatus, hpath, hcarried, hsha⟩, hnext, hother⟩ :=
    Phone.commitDirectory_versions hphone
  refine .inr ⟨⟨⟨tr, hrows, hfolder, hstatus, hpath, hcarried, ?_⟩, ?_, ?_⟩, ?_, hrec.valid hs,
    hrec.recorded⟩
  · simp only [not_or, not_not] at hstaged
    rw [hsha, hstaged.1]
  · exact hnext ▸ Nat.lt_succ_self _
  · simp only [DirectoryVersion.validate, bind_eq_ok, ensure_eq_ok, Bool.and_eq_true,
      decide_eq_true_eq]
    exact ⟨(), DirectoryPaths.validatePath_of_validate hvalid, by rwa [hversion],
      by rwa [hversion]⟩
  · intro folder hne
    refine ⟨?_, hother folder hne⟩
    rw [Phone.versions_append hrows, hfolder]
    simp [hne.symm]

theorem lawful_commit (hs : s.PathsValid) {source : AutoSource} {value : HashedSource}
    {staged : StagedFile} {createdAt : Nat} (h : s.commit source value staged createdAt = some t) :
    Lawful s t (.commit source value staged createdAt) folder := by
  rcases commit_queues hs h with rfl | ⟨hqueues, hother, hvalid, hrecorded⟩
  · exact .quiet hs rfl .refl ⟨rfl, le_rfl⟩ rfl
  by_cases hfolder : folder = source.folderId
  · subst hfolder
    refine ⟨hvalid, hqueues.raised.le, fun _ v hv => by contradiction, .inr ⟨_, _, hqueues⟩, ?_⟩
    intro path d hd hold
    rcases hrecorded _ path d hd with hd | ⟨-, rfl, rfl⟩
    · exact absurd hd hold
    · exact .inr hqueues
  · obtain ⟨hversions, hnext⟩ := hother folder hfolder
    refine ⟨hvalid, hnext.ge, fun _ v hv => by contradiction, .inl hversions, ?_⟩
    intro path d hd hold
    rcases hrecorded _ path d hd with hd | ⟨htarget, -⟩
    · exact absurd hd hold
    · exact absurd htarget hfolder

theorem lawful_receipts (hs : s.PathsValid) {target : String} {remote : DirectoryState}
    (h : s.receipts target remote = some t) : Lawful s t (.receipts target remote) folder := by
  simp only [receipts, Option.bind_eq_bind, Option.bind_eq_some_iff,
    Option.ite_none_right_eq_some] at h
  obtain ⟨floor, hfloor, -, phone, hphone, h⟩ := h
  cases h
  cases hphone
  obtain ⟨hversions, hnext, hraise⟩ := Phone.receipts_versions target
    (remote.entries.map fun e => ⟨e.path, e.version, e.sha256, e.acknowledged, e.conflict⟩) floor
  refine ⟨hs, hnext, ?_, .inl hversions, fun path d hd hold => absurd hd hold⟩
  intro hcalled v hv
  simp only [DirectoryCall.reported] at hv
  split at hv
  · rename_i htarget
    obtain ⟨e, he, rfl⟩ := List.mem_map.mp hv
    exact (le_floor hfloor he).trans_le (hraise htarget.symm (htarget ▸ hcalled))
  · contradiction

/-- Every call is lawful for every folder. -/
theorem lawful_perform (hs : s.PathsValid) (h : s.perform a = some t) (folder : String) :
    Lawful s t a folder := by
  cases a with
  | savePreview =>
    simp only [perform, savePreview, Option.ite_none_right_eq_some] at h
    obtain ⟨-, h⟩ := h
    cases h
    exact .quiet hs rfl ⟨rfl, id, fun _ _ _ hd => .inl hd⟩ ⟨rfl, le_rfl⟩ rfl
  | confirm => exact lawful_confirm hs h
  | resume target tree revision unmetered =>
    obtain ⟨phone, hphone, rfl⟩ := Option.map_eq_some_iff.mp h
    exact .quiet hs (u := { s with phone }) rfl .refl (Phone.resume_versions hphone) rfl
  | observe source files now =>
    obtain ⟨⟨u, ready⟩, hobserve, rfl⟩ := Option.map_eq_some_iff.mp h
    exact .quiet hs rfl (observe_recording hobserve) ⟨rfl, le_rfl⟩ rfl
  | commit => exact lawful_commit hs h
  | receipts => exact lawful_receipts hs h
  | fileError source value now =>
    cases h
    unfold fileError
    split
    · exact .quiet hs rfl (recording_update (by simp) (by simp)) ⟨rfl, le_rfl⟩ rfl
    · exact .quiet hs rfl .refl ⟨rfl, le_rfl⟩ rfl
  | phone step =>
    simp only [perform] at h
    split at h
    · contradiction
    · rename_i hreserved
      obtain ⟨phone, hphone, rfl⟩ := Option.map_eq_some_iff.mp h
      exact .quiet hs (u := { s with phone }) rfl .refl
        (Phone.perform_versions (by simpa using hreserved) hphone) rfl

/-- The invariant of the versions of a folder. -/
structure Numbered (l : List DirectoryCall) (s : DirectoryPhone) (folder : String) : Prop where
  paths : s.PathsValid
  nodup : (s.phone.versions folder).Nodup
  below : ∀ v ∈ s.phone.versions folder, v < s.phone.nextVersion folder
  reported : ∀ v ∈ l.flatMap (·.reported folder), v < s.phone.nextVersion folder

theorem Numbered.step {l : List DirectoryCall} (h : Numbered l s folder) (hcalled : s.Called a)
    (ha : s.perform a = some t) : Numbered (l ++ [a]) t folder := by
  have hlaw := lawful_perform h.paths ha folder
  have hreported : ∀ v ∈ (l ++ [a]).flatMap (·.reported folder),
      v < t.phone.nextVersion folder := by
    intro v hv
    rw [List.flatMap_append, List.flatMap_singleton, List.mem_append] at hv
    rcases hv with hv | hv
    · exact (h.reported v hv).trans_le hlaw.next
    · exact hlaw.reported hcalled v hv
  rcases hlaw.versions with hversions | ⟨path, d, hqueues⟩
  · refine ⟨hlaw.valid, hversions ▸ h.nodup, fun v hv => ?_, hreported⟩
    exact (h.below v (hversions ▸ hv)).trans_le hlaw.next
  · obtain ⟨tr, hrows, hfolder, -, -, hcarried, -⟩ := hqueues.queued
    have hversions : t.phone.versions folder =
        s.phone.versions folder ++ [s.phone.nextVersion folder] := by
      rw [Phone.versions_append hrows, hfolder, hcarried]
      simp
    refine ⟨hlaw.valid, ?_, ?_, hreported⟩
    · rw [hversions, List.nodup_append]
      refine ⟨h.nodup, List.nodup_singleton _, ?_⟩
      rintro v hv _ hmem rfl
      rw [List.mem_singleton] at hmem
      exact absurd (h.below v hv) (hmem ▸ lt_irrefl _)
    · intro v hv
      rw [hversions, List.mem_append, List.mem_singleton] at hv
      rcases hv with hv | rfl
      · exact (h.below v hv).trans hqueues.raised
      · exact hqueues.raised

theorem numbered_run {l : List DirectoryCall}
    (h : Steps DirectoryPhone.perform DirectoryPhone.Called .initial l s) :
    Numbered l s folder := by
  have hinitial : Numbered [] .initial folder :=
    ⟨by simp [PathsValid, initial, Table.empty], List.nodup_nil,
      by simp [Phone.versions, initial, Phone.initial, Table.empty], by simp⟩
  exact h.invariant (I := fun l s => Numbered l s folder) hinitial
    fun _ _ _ _ hi hcalled ha => hi.step hcalled ha

/-- The counter never decreases from a state with checked paths on. -/
theorem nextVersion_run {l : List DirectoryCall} (hs : s.PathsValid)
    (h : Steps DirectoryPhone.perform DirectoryPhone.Called s l t) :
    t.PathsValid ∧ s.phone.nextVersion folder ≤ t.phone.nextVersion folder := by
  refine h.invariant (I := fun _ u => u.PathsValid ∧
    s.phone.nextVersion folder ≤ u.phone.nextVersion folder) ⟨hs, le_rfl⟩ ?_
  intro _ u b v ⟨hu, hle⟩ _ hb
  have hlaw := lawful_perform hu hb folder
  exact ⟨hlaw.valid, hle.trans hlaw.next⟩

end DirectoryPhone

/-- The versions of a folder along every run: the counter never decreases; it is above all that
the relay has reported in the calls so far; each version is carried by one transfer; a call
assigns none or queues one transfer with the version of the counter, valid for the relay, and
raises the counter; and a digest is newly recorded only by a confirmation whose comparison has
found it on the other side, or where a transfer of it is queued. -/
theorem directory_versions (folder : String) {l : List DirectoryCall} {s : DirectoryPhone}
    (h : Steps DirectoryPhone.perform DirectoryPhone.Called .initial l s) :
    (∀ v ∈ l.flatMap (·.reported folder), v < s.phone.nextVersion folder) ∧
    (∀ v ∈ s.phone.versions folder,
      ∃! t, t ∈ s.phone.transfers.rows ∧ t.folderId = folder ∧ t.sourceVersion = some v) ∧
    (∀ m t, Steps DirectoryPhone.perform DirectoryPhone.Called s m t →
      s.phone.nextVersion folder ≤ t.phone.nextVersion folder) ∧
    ∀ a t, s.Called a → s.perform a = some t →
      (t.phone.versions folder = s.phone.versions folder ∨
        ∃ path d, DirectoryPhone.Queues s t folder path d) ∧
      ∀ path d, t.recorded folder path = some d → s.recorded folder path ≠ some d →
        a.Identical s folder path d ∨ DirectoryPhone.Queues s t folder path d := by
  have hnumbered : s.Numbered l folder := DirectoryPhone.numbered_run h
  refine ⟨hnumbered.reported, ?_, ?_, ?_⟩
  · exact fun v hv => Phone.exists_unique_of_mem_versions hnumbered.nodup hv
  · exact fun m t hm => (DirectoryPhone.nextVersion_run hnumbered.paths hm).2
  · intro a t _ ha
    have hlaw := DirectoryPhone.lawful_perform hnumbered.paths ha folder
    exact ⟨hlaw.versions, hlaw.recorded⟩

instance (s : DirectoryPhone) (a : DirectoryCall) : Decidable (s.Called a) := by
  unfold DirectoryPhone.Called
  split <;> infer_instance

/-- A photo in the source. -/
def photo : HashedSource := ⟨⟨"document", "a.jpg", some 3, some 1000, "a.jpg"⟩, "digest"⟩

/-- A relay whose receiver has no file and that lists the given versions. -/
def remoteWith (versions : List Nat) : DirectoryState where
  schemaVersion := 1
  receiver := some ⟨"inventory", []⟩
  entries := versions.map fun v =>
    ⟨"other.jpg", v, "delivery", "digest", 3, "image/jpeg", true, false⟩

def photoSource : AutoSource :=
  ⟨"folder", "content://tree", "Photos", "r1", true, false, none, false, true, 1⟩

/-- A folder is paired and its only photo, which the receiver lacks, is previewed, confirmed and
observed. -/
def photoCalls : List DirectoryCall :=
  [.phone (.createFolder "folder" "token" .ready),
   .savePreview "folder" "https://relay" "preview" "content://tree" "Photos" [photo] (remoteWith [])
     ⟨0, ["a.jpg"], [], 0⟩ .all [],
   .confirm "folder" "https://relay" "preview" "content://tree" "r1" [photo] (remoteWith []) false
     50000 .all [],
   .observe photoSource [photo] 50000]

/-- The photo is queued. -/
def photoCommit : DirectoryCall :=
  .commit photoSource photo ⟨"transfer", "a.jpg", 3, "digest"⟩ 50000

theorem directory_versions_photo : ∃ s : DirectoryPhone,
    (∃! t, t ∈ s.phone.transfers.rows ∧ t.folderId = "folder" ∧ t.sourceVersion = some 1) ∧
      s.recorded "folder" "a.jpg" = some "digest" := by
  obtain ⟨s, h, hs⟩ := Steps.exists_of_replay DirectoryPhone.perform (fun s a => decide (s.Called a))
    .initial (photoCalls ++ [photoCommit]) (fun s =>
      s.phone.versions "folder" = [1] ∧ s.recorded "folder" "a.jpg" = some "digest")
    (by decide)
  simp only [decide_eq_true_eq] at hs
  have hrun := directory_versions "folder" (h.mono fun _ _ => of_decide_eq_true)
  exact ⟨s, hrun.2.1 1 (by simp [hs.1]), hs.2⟩

/-- A call that is refused leaves no trace of what the relay has reported in it, and neither do
receipts before the directory is initialized: the next version is below. -/
theorem refused_receipts_forgotten :
    (∃ l s, Steps DirectoryPhone.perform DirectoryPhone.Called .initial l s ∧
      s.Called (.receipts "folder" (remoteWith [longMax - 1])) ∧
      s.perform (.receipts "folder" (remoteWith [longMax - 1])) = none ∧
      DirectoryVersion.validate ⟨"other.jpg", longMax - 1⟩ = .ok () ∧
      ∃ t, s.perform photoCommit = some t ∧ t.phone.versions "folder" = [1] ∧ 1 < longMax - 1) ∧
    ∃ t, Steps DirectoryPhone.perform (fun _ _ => True) .initial
      (photoCalls.take 1 ++ [.receipts "folder" (remoteWith [7])] ++ photoCalls.drop 1 ++
        [photoCommit]) t ∧ t.phone.versions "folder" = [1] := by
  constructor
  · obtain ⟨s, h, hs⟩ := Steps.exists_of_replay DirectoryPhone.perform
      (fun s a => decide (s.Called a)) .initial photoCalls (fun s =>
        s.Called (.receipts "folder" (remoteWith [longMax - 1])) ∧
          (s.perform (.receipts "folder" (remoteWith [longMax - 1]))).isNone ∧
          (s.perform photoCommit).any fun t => t.phone.versions "folder" = [1]) (by decide)
    simp only [decide_eq_true_eq, Option.isNone_iff_eq_none, Option.any_eq_true] at hs
    obtain ⟨hcalled, hnone, t, ht, hversions⟩ := hs
    exact ⟨_, s, h.mono fun _ _ => of_decide_eq_true, hcalled, hnone, by decide, t, ht,
      hversions, by decide⟩
  · obtain ⟨t, h, ht⟩ := Steps.exists_of_replay DirectoryPhone.perform (fun _ _ => true) .initial
      (photoCalls.take 1 ++ [.receipts "folder" (remoteWith [7])] ++ photoCalls.drop 1 ++
        [photoCommit]) (fun t => t.phone.versions "folder" = [1]) (by decide)
    exact ⟨t, h.mono fun _ _ _ => trivial, by simpa using ht⟩

end MiRelay.Android
