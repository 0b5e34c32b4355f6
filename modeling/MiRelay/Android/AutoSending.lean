import MiRelay.Android.AutoStore
import MiRelay.Android.DirectoryVersions

/-!
# Automatic sending never duplicates

A commit acts only under the current revision of its folder, and only on a row
that is pending there; it leaves the row settled until a new revision replaces all
rows of the folder. The receipts of digests outlive revisions. Hence scans that
run late or at the same time queue nothing twice.
-/

namespace MiRelay.Android

namespace Phone

variable {p q : Phone} {folder : String}

/-- The revision of the source of a folder. -/
def revision (p : Phone) (folder : String) : Option String :=
  (p.source folder).map (·.revision)

/-- An active revision is the one of its source, on a folder that is not being disconnected. -/
theorem active_iff {revision : String} : p.active folder revision = true ↔
    (∃ a, p.source folder = some a ∧ a.revision = revision ∧ a.enabled = true) ∧
      p.connectionOpen folder = true := by
  rw [active, Bool.and_eq_true, List.any_eq_true]
  refine and_congr_left fun _ => ⟨?_, ?_⟩
  · rintro ⟨a, ha, hsame⟩
    simp only [Bool.and_eq_true, beq_iff_eq] at hsame
    refine ⟨a, ?_, hsame.1.2, hsame.2⟩
    cases hfound : p.source folder with
    | none =>
      have hnone := List.find?_eq_none.mp hfound a ha
      rw [hsame.1.1] at hnone
      simp at hnone
    | some b =>
      have hclash : b.clash a = true := by
        rw [AutoSource.clash, beq_iff_eq, source_folderId hfound, hsame.1.1]
      rw [p.sources.eq_of_clash (fun a b => Bool.beq_comm) (List.mem_of_find?_eq_some hfound) ha
        hclash]
  · rintro ⟨a, ha, hrevision, henabled⟩
    exact ⟨a, List.mem_of_find?_eq_some ha, by simp [source_folderId ha, hrevision, henabled]⟩

theorem revision_of_active {revision : String} (h : p.active folder revision = true) :
    p.revision folder = some revision := by
  obtain ⟨⟨a, ha, hrevision, -⟩, -⟩ := active_iff.mp h
  rw [Phone.revision, ha, Option.map_some, hrevision]

/-- An update of other columns keeps the revisions. -/
theorem revision_updateSources {selected : AutoSource → Bool} {change : AutoSource → AutoSource}
    (h : ∀ a, (change a).folderId = a.folderId) (hkeep : ∀ a, (change a).revision = a.revision) :
    (p.updateSources selected change h).revision folder = p.revision folder := by
  rw [revision, revision, source_updateSources, Option.map_map]
  refine Option.map_congr fun a _ => ?_
  rw [Function.comp_apply]
  split
  · exact hkeep a
  · rfl

theorem revision_congr (h : q.sources = p.sources) : q.revision folder = p.revision folder := by
  rw [revision, revision, source, source, h]

/-- The other steps of the phone keep the revisions. -/
theorem revision_perform {step : PhoneStep} (hbesides : step.besides = true)
    (h : p.perform step = some q) : q.revision folder = p.revision folder := by
  cases step with
  | createFolder id token pairingState =>
    obtain ⟨folders, -, rfl⟩ := Option.map_eq_some_iff.mp h
    rfl
  | saveFolder | pairingResult | finishDisconnect | assign | makeManual | updateOwned | loseAccess =>
    simp only [perform, Option.ite_none_right_eq_some] at h
    obtain ⟨-, h⟩ := h
    cases h
    rfl
  | beginExit | pause =>
    cases h
    rfl
  | beginDisconnect | pauseIfCurrent =>
    simp only [perform, Option.ite_none_right_eq_some] at h
    obtain ⟨-, h⟩ := h
    cases h
    exact revision_updateSources (by simp) (by simp)
  | addTransfer staged target now => exact revision_congr (insertTransfer_spec h).1
  | doWork workId id =>
    simp only [perform] at h
    split at h
    · simp only [Option.ite_none_right_eq_some] at h
      obtain ⟨-, h⟩ := h
      cases h
      rfl
    · contradiction
  | _ => contradiction

/-- Enabling gives the source its revision. -/
theorem revision_enable {target tree name revision : String} {unmetered startImmediately : Bool}
    (h : p.enable target tree name revision unmetered startImmediately = some q) :
    q.revision folder = if folder = target then some revision else p.revision folder := by
  simp only [enable, Option.ite_none_right_eq_some] at h
  replace h := h.2
  unfold putSource at h
  dsimp only at h
  cases hold : p.source target with
  | some old =>
    rw [hold] at h
    cases h
    rw [Phone.revision, source_updateSources, Phone.revision]
    by_cases hfolder : folder = target
    · rw [if_pos hfolder, hfolder, hold]
      simp [source_folderId hold]
    · rw [if_neg hfolder]
      cases hsource : p.source folder with
      | none => rfl
      | some a => simp [source_folderId hsource, hfolder]
  | none =>
    rw [hold] at h
    obtain ⟨sources, hinsert, rfl⟩ := Option.map_eq_some_iff.mp h
    rw [Phone.revision, Phone.revision, source, Table.rows_insert hinsert, List.find?_append]
    by_cases hfolder : folder = target
    · rw [if_pos hfolder, hfolder, show p.sources.rows.find? (·.folderId == target) = none from hold]
      simp
    · rw [if_neg hfolder, List.find?_cons_of_neg (by simpa using Ne.symm hfolder), List.find?_nil,
        Option.or_none]
      rfl

/-- An automatic transfer of a folder under a revision. -/
def Automatic (p : Phone) (id folder revision : String) : Prop :=
  ∃ t ∈ p.transfers.rows, t.id = id ∧ t.folderId = folder ∧ t.autoRevision = some revision

variable {id revision : String}

theorem automatic_congr (h : q.transfers = p.transfers) :
    q.Automatic id folder revision → p.Automatic id folder revision := by
  rw [Automatic, Automatic, h]
  exact fun h => h

/-- No update makes a transfer automatic. -/
theorem automatic_updateTransfers {selected : Transfer → Bool} {change : Transfer → Transfer}
    (h : ∀ t, (change t).id = t.id) (hfolder : ∀ t, (change t).folderId = t.folderId)
    (hauto : ∀ t, (change t).autoRevision = some revision → t.autoRevision = some revision)
    (hmem : (p.updateTransfers selected change h).Automatic id folder revision) :
    p.Automatic id folder revision := by
  obtain ⟨t', ht', hid, hf, hr⟩ := hmem
  obtain ⟨t, ht, rfl⟩ := List.mem_map.mp ht'
  refine ⟨t, ht, ?_⟩
  split at hid
  · rename_i hselected
    rw [if_pos hselected] at hf hr
    exact ⟨(h t).symm.trans hid, (hfolder t).symm.trans hf, hauto t hr⟩
  · rename_i hselected
    rw [if_neg hselected] at hf hr
    exact ⟨hid, hf, hr⟩

/-- A new row is automatic under its own revision only. -/
theorem automatic_insertTransfer {staged : StagedFile} {target : String} {now : Nat}
    {autoRevision : Option String} {autoUnmetered : Bool} {directory : Option (String × Nat)}
    (h : p.insertTransfer staged target now autoRevision autoUnmetered directory = some q)
    (hmem : q.Automatic id folder revision) :
    p.Automatic id folder revision ∨
      staged.id = id ∧ target = folder ∧ autoRevision = some revision := by
  simp only [insertTransfer, Option.ite_none_right_eq_some] at h
  obtain ⟨transfers, hinsert, rfl⟩ := Option.map_eq_some_iff.mp h.2
  obtain ⟨t, ht, hkey⟩ := hmem
  rw [Table.rows_insert hinsert] at ht
  rcases List.mem_append.mp ht with ht | ht
  · exact .inl ⟨t, ht, hkey⟩
  · rw [List.mem_singleton.mp ht] at hkey
    exact .inr hkey

/-- The other steps of the phone make no transfer automatic. -/
theorem automatic_perform {step : PhoneStep} (hbesides : step.besides = true)
    (h : p.perform step = some q) (hmem : q.Automatic id folder revision) :
    p.Automatic id folder revision := by
  cases step with
  | createFolder =>
    obtain ⟨folders, -, rfl⟩ := Option.map_eq_some_iff.mp h
    exact hmem
  | saveFolder | pairingResult | finishDisconnect | loseAccess =>
    simp only [perform, Option.ite_none_right_eq_some] at h
    obtain ⟨-, h⟩ := h
    cases h
    exact hmem
  | beginExit =>
    cases h
    exact hmem
  | pause =>
    cases h
    exact automatic_updateTransfers (by simp) (by simp) (by simp) hmem
  | assign | makeManual | updateOwned | beginDisconnect | pauseIfCurrent =>
    simp only [perform, Option.ite_none_right_eq_some] at h
    obtain ⟨-, h⟩ := h
    cases h
    exact automatic_updateTransfers (by simp) (by simp) (by simp) hmem
  | addTransfer =>
    refine (automatic_insertTransfer h hmem).resolve_right ?_
    rintro ⟨-, -, h⟩
    contradiction
  | doWork workId id =>
    simp only [perform] at h
    split at h
    · simp only [Option.ite_none_right_eq_some] at h
      obtain ⟨-, h⟩ := h
      cases h
      exact hmem
    · contradiction
  | _ => contradiction

/-- Enabling leaves the transfers as they are. -/
theorem transfers_enable {target tree name : String} {unmetered startImmediately : Bool}
    (h : p.enable target tree name revision unmetered startImmediately = some q) :
    q.transfers = p.transfers := by
  simp only [enable, Option.ite_none_right_eq_some] at h
  replace h := h.2
  unfold putSource at h
  dsimp only at h
  split at h
  · cases h
    rfl
  · obtain ⟨sources, -, rfl⟩ := Option.map_eq_some_iff.mp h
    rfl

end Phone

/-! ### Rows that are settled -/

/-- A row that is no longer pending is kept. -/
def Settled (rows rows' : Files String AutoFile) : Prop :=
  ∀ document row, rows.lookup document = some row → row.state ≠ .pending →
    rows'.lookup document = some row

theorem Settled.refl {rows : Files String AutoFile} : Settled rows rows := fun _ _ h _ => h

theorem Settled.trans {rows rows' rows'' : Files String AutoFile} (h : Settled rows rows')
    (h' : Settled rows' rows'') : Settled rows rows'' :=
  fun document row hrow hstate => h' document row (h document row hrow hstate) hstate

/-- Writing where the row is pending, or where there is none, keeps the settled rows. -/
theorem settled_insert {rows : Files String AutoFile} {document : String} {new : AutoFile}
    (h : ∀ row, rows.lookup document = some row → row.state = .pending) :
    Settled rows (rows.insert document new) := by
  intro d row hrow hstate
  rw [Files.lookup_insert, if_neg]
  · exact hrow
  · rintro rfl
    exact hstate (h row hrow)

namespace Observing

variable {st st' : Observing} {file : SourceFile} {count : Nat} {now : Int}

theorem settled_flag {rows : Files String AutoFile} (h : Settled rows st.rows) :
    Settled rows (st.flag file).rows := by
  unfold flag
  split
  · exact h
  · split
    · rename_i row hrow
      split
      · rename_i hpending
        refine h.trans (settled_insert fun row' hrow' => ?_)
        rw [hrow] at hrow'
        exact Option.some.inj hrow' ▸ hpending
      · exact h
    · exact h

theorem settled_file (h : st.file count now file = some st') : Settled st.rows st'.rows := by
  unfold Observing.file at h
  split at h
  · rename_i hnone
    simp only [Option.ite_none_right_eq_some, Option.some.injEq] at h
    rw [← h.2]
    refine settled_flag (settled_insert fun row hrow => ?_)
    rw [hnone] at hrow
    contradiction
  · rename_i row hrow
    split at h
    · rename_i hpending
      split at h
      · rw [← Option.some.inj h]
        refine settled_flag (settled_insert fun row' hrow' => ?_)
        rw [hrow] at hrow'
        exact Option.some.inj hrow' ▸ hpending
      · split at h <;>
        · rw [← Option.some.inj h]
          exact settled_flag .refl
    · rw [← Option.some.inj h]
      exact settled_flag .refl

theorem settled_foldlM {files : List SourceFile}
    (h : files.foldlM (Observing.file count now) st = some st') : Settled st.rows st'.rows := by
  induction files generalizing st with
  | nil =>
    rw [List.foldlM_nil] at h
    exact Option.some.inj h ▸ .refl
  | cons file files ih =>
    rw [List.foldlM_cons] at h
    obtain ⟨mid, hmid, hrest⟩ := Option.bind_eq_some_iff.mp h
    exact (settled_file hmid).trans (ih hrest)

end Observing

/-! ### What holds in every run -/

/-- The folder, the revision and the document that a commit was for. -/
def AutoCommit.key (c : AutoCommit) : String × String × String := (c.folder, c.revision, c.document)

/-- The digest of a commit in its folder. -/
def AutoCommit.digest (c : AutoCommit) : String × String := (c.folder, c.sha256)

namespace AutoPhone

variable {p q : AutoPhone}

/-- The receipts and the rows of the current revisions are in step with the history. -/
structure Sound (p : AutoPhone) : Prop where
  known : ∀ folder r, p.phone.revision folder = some r → r ∈ p.history.revisions
  commits : ∀ c ∈ p.history.commits, c.revision ∈ p.history.revisions ∧
    (p.phone.revision c.folder = some c.revision →
      ∃ row, (p.rows c.folder).lookup c.document = some row ∧
        row.state = (if c.created then .staged else .duplicate) ∧ row.transferId = some c.transferId)
  baselines : ∀ b ∈ p.history.baselines, b.2.1 ∈ p.history.revisions ∧
    (p.phone.revision b.1 = some b.2.1 →
      ∃ row, (p.rows b.1).lookup b.2.2 = some row ∧ row.state = .baseline)
  nodup : (p.history.commits.map AutoCommit.key).Nodup
  apart : ∀ c ∈ p.history.commits, c.key ∉ p.history.baselines
  hashes : ∀ c ∈ p.history.commits, p.hashes.lookup c.digest = some c.transferId
  origin : ∀ k id, p.hashes.lookup k = some id →
    ∃ c ∈ p.history.commits, c.created = true ∧ c.digest = k ∧ c.transferId = id
  once : ((p.history.commits.filter (·.created)).map AutoCommit.digest).Nodup
  automatic : ∀ id folder r, p.phone.Automatic id folder r → ∃ c ∈ p.history.commits,
    c.created = true ∧ c.transferId = id ∧ c.folder = folder ∧ c.revision = r

/-- Nothing is queued, no source is replaced and settled rows stay. -/
structure Keeps (p q : AutoPhone) : Prop where
  revisions : q.history.revisions = p.history.revisions
  baselines : q.history.baselines = p.history.baselines
  commits : q.history.commits = p.history.commits
  hashes : q.hashes = p.hashes
  revision : ∀ folder, q.phone.revision folder = p.phone.revision folder
  automatic : ∀ id folder r, q.phone.Automatic id folder r → p.phone.Automatic id folder r
  rows : ∀ folder, Settled (p.rows folder) (q.rows folder)

theorem Sound.keeps (h : p.Sound) (hpq : p.Keeps q) : q.Sound where
  known := by
    simp only [hpq.revision, hpq.revisions]
    exact h.known
  commits := by
    simp only [hpq.revision, hpq.revisions, hpq.commits]
    refine fun c hc => (h.commits c hc).imp_right fun hrow hrevision => ?_
    obtain ⟨row, hlookup, hstate, hid⟩ := hrow hrevision
    refine ⟨row, hpq.rows _ _ row hlookup ?_, hstate, hid⟩
    rw [hstate]
    split <;> decide
  baselines := by
    simp only [hpq.revision, hpq.revisions, hpq.baselines]
    refine fun b hb => (h.baselines b hb).imp_right fun hrow hrevision => ?_
    obtain ⟨row, hlookup, hstate⟩ := hrow hrevision
    exact ⟨row, hpq.rows _ _ row hlookup (by rw [hstate]; decide), hstate⟩
  nodup := by
    rw [hpq.commits]
    exact h.nodup
  apart := by
    rw [hpq.commits, hpq.baselines]
    exact h.apart
  hashes := by
    rw [hpq.commits, hpq.hashes]
    exact h.hashes
  origin := by
    rw [hpq.commits, hpq.hashes]
    exact h.origin
  once := by
    rw [hpq.commits]
    exact h.once
  automatic := by
    rw [hpq.commits]
    exact fun id folder r hmem => h.automatic id folder r (hpq.automatic id folder r hmem)

/-- New rows of one folder that keep the settled ones. -/
theorem settled_rows {target : String} {rows : Files String AutoFile}
    (h : Settled (p.rows target) rows) (folder : String) :
    Settled (p.rows folder) ((((p.files.insert target rows).lookup folder).getD ∅)) := by
  rw [Files.lookup_insert]
  split
  · rename_i heq
    rw [heq]
    exact h
  · exact .refl

theorem keeps_observe {source : AutoSource} {files ready : List SourceFile} {now : Int}
    (h : p.observe source files now = some (q, ready)) : p.Keeps q := by
  unfold observe at h
  simp only [Option.ite_none_right_eq_some] at h
  obtain ⟨st, hst, hq⟩ := Option.map_eq_some_iff.mp h.2
  cases hq
  refine ⟨rfl, rfl, rfl, rfl, fun _ => rfl, fun _ _ _ hmem => hmem, settled_rows ?_⟩
  refine (Observing.settled_foldlM hst).trans fun document row hrow hstate => ?_
  rw [Files.lookup_modify, hrow, Option.map_some, if_neg fun hpending => hstate hpending.1]

theorem keeps_fileError {source : AutoSource} {file : SourceFile} {message : String} {now : Int} :
    p.Keeps (p.fileError source file message now) := by
  have hsame : p.Keeps { p with history := { p.history with clock := now } } :=
    ⟨rfl, rfl, rfl, rfl, fun _ => rfl, fun _ _ _ hmem => hmem, fun _ => .refl⟩
  unfold fileError
  dsimp only
  split
  · split
    · exact hsame
    · rename_i row hrow
      split
      · rename_i hmatches
        refine ⟨rfl, rfl, rfl, rfl, fun _ => rfl, fun _ _ _ hmem => hmem,
          settled_rows (settled_insert fun row' hrow' => ?_)⟩
        have hrows : (p.rows source.folderId).lookup file.documentId = some row := hrow
        rw [hrows] at hrow'
        exact Option.some.inj hrow' ▸ hmatches.2
      · exact hsame
  · exact hsame

/-- Enabling under a new revision settles nothing of the revisions before. -/
theorem Sound.enable (h : p.Sound) {folder tree name revision : String}
    {unmetered includeExisting startImmediately : Bool} {files : List SourceFile} {now : Int}
    (hfresh : revision ∉ p.history.revisions)
    (hq : p.enable folder tree name revision unmetered files now includeExisting startImmediately =
      some q) : q.Sound := by
  unfold AutoPhone.enable at hq
  simp only [Option.ite_none_right_eq_some] at hq
  obtain ⟨⟨-, hnodup⟩, hq⟩ := hq
  obtain ⟨phone, hphone, rfl⟩ := Option.map_eq_some_iff.mp hq
  have hrevision (f : String) : phone.revision f =
      if f = folder then some revision else p.phone.revision f := Phone.revision_enable hphone
  -- What was recorded under an old revision concerns another folder, or a replaced revision.
  have hold {f r : String} (hr : r ∈ p.history.revisions) (hcurrent : phone.revision f = some r) :
      f ≠ folder ∧ p.phone.revision f = some r := by
    rw [hrevision] at hcurrent
    split at hcurrent
    · exact absurd (Option.some.inj hcurrent ▸ hr) hfresh
    · rename_i hne
      exact ⟨hne, hcurrent⟩
  refine ⟨fun f r hr => ?_, fun c hc => ?_, fun b hb => ?_, h.nodup, fun c hc hmem => ?_, h.hashes,
    h.origin, h.once, fun id f r hmem =>
      h.automatic id f r (Phone.automatic_congr (Phone.transfers_enable hphone) hmem)⟩
  · rw [hrevision] at hr
    split at hr
    · exact Option.some.inj hr ▸ List.mem_cons_self
    · exact List.mem_cons_of_mem _ (h.known f r hr)
  · obtain ⟨hknown, hrow⟩ := h.commits c hc
    refine ⟨List.mem_cons_of_mem _ hknown, fun hcurrent => ?_⟩
    obtain ⟨hne, hcurrent⟩ := hold hknown hcurrent
    obtain ⟨row, hlookup, hstate⟩ := hrow hcurrent
    refine ⟨row, ?_, hstate⟩
    rw [AutoPhone.rows, Files.lookup_insert, if_neg hne]
    exact hlookup
  · rcases List.mem_append.mp hb with hb | hb
    · split at hb
      · contradiction
      · rename_i hexisting
        obtain ⟨file, hfile, rfl⟩ := List.mem_map.mp hb
        refine ⟨List.mem_cons_self, fun _ => ?_⟩
        refine ⟨.seen file now .baseline, ?_, rfl⟩
        rw [AutoPhone.rows, Files.lookup_insert, if_pos rfl, Option.getD_some,
          Files.lookup_insertAll_of_mem hnodup hfile]
        rw [if_neg hexisting]
    · obtain ⟨hknown, hrow⟩ := h.baselines b hb
      refine ⟨List.mem_cons_of_mem _ hknown, fun hcurrent => ?_⟩
      obtain ⟨hne, hcurrent⟩ := hold hknown hcurrent
      obtain ⟨row, hlookup, hstate⟩ := hrow hcurrent
      refine ⟨row, ?_, hstate⟩
      rw [AutoPhone.rows, Files.lookup_insert, if_neg hne]
      exact hlookup
  · rcases List.mem_append.mp hmem with hmem | hmem
    · split at hmem
      · contradiction
      · obtain ⟨file, -, hkey⟩ := List.mem_map.mp hmem
        rw [AutoCommit.key, Prod.mk.injEq, Prod.mk.injEq] at hkey
        exact hfresh (hkey.2.1 ▸ (h.commits c hc).1)
    · exact h.apart c hc hmem

/-- A commit settles a pending row under the current revision, with the next receipt. -/
theorem Sound.receipt (h : p.Sound) {source : AutoSource} {file : SourceFile}
    {sha256 transferId : String} {created : Bool} {row : AutoFile} {phone : Phone}
    {hashes : Files (String × String) String}
    (hrevision : p.phone.revision source.folderId = some source.revision)
    (hrow : (p.rows source.folderId).lookup file.documentId = some row)
    (hpending : row.state = .pending)
    (hphone : ∀ f, phone.revision f = p.phone.revision f)
    (hautomatic : ∀ id f r, phone.Automatic id f r → p.phone.Automatic id f r ∨
      created = true ∧ transferId = id ∧ source.folderId = f ∧ source.revision = r)
    (hhashes : ∀ k id, p.hashes.lookup k = some id → hashes.lookup k = some id)
    (hreceipt : hashes.lookup (source.folderId, sha256) = some transferId)
    (hfirst : created = true → p.hashes.lookup (source.folderId, sha256) = none)
    (honly : ∀ k id, hashes.lookup k = some id →
      p.hashes.lookup k = some id ∨ created = true ∧ k = (source.folderId, sha256)) :
    (({ p with phone, hashes } : AutoPhone).receipt source file sha256 transferId created
      row).Sound := by
  have hsettled (f : String) : Settled (p.rows f)
      ((({ p with phone, hashes } : AutoPhone).receipt source file sha256 transferId created
        row).rows f) :=
    settled_rows (settled_insert fun row' hrow' =>
      Option.some.inj (hrow.symm.trans hrow') ▸ hpending) f
  -- The row is pending, so nothing was recorded for it under this revision.
  have hkey : (source.folderId, source.revision, file.documentId) ∉
      p.history.commits.map AutoCommit.key := by
    rw [List.mem_map]
    rintro ⟨c, hc, heq⟩
    rw [AutoCommit.key, Prod.mk.injEq, Prod.mk.injEq] at heq
    obtain ⟨row', hrow', hstate, -⟩ := (h.commits c hc).2 (by rw [heq.1, heq.2.1, hrevision])
    rw [heq.1, heq.2.2, hrow] at hrow'
    rw [← Option.some.inj hrow', hpending] at hstate
    split at hstate <;> contradiction
  have hbase : (source.folderId, source.revision, file.documentId) ∉ p.history.baselines := by
    intro hb
    obtain ⟨row', hrow', hstate⟩ := (h.baselines _ hb).2 hrevision
    rw [← Option.some.inj (hrow.symm.trans hrow'), hpending] at hstate
    contradiction
  refine ⟨fun f r hr => h.known f r (hphone f ▸ hr), fun c hc => ?_, fun b hb => ?_, ?_,
    fun c hc => ?_, fun c hc => ?_, fun k id hk => ?_, ?_, fun id f r hmem => ?_⟩
  · rcases List.mem_cons.mp hc with rfl | hc
    · refine ⟨h.known _ _ hrevision, fun _ => ?_⟩
      refine ⟨{ row with
        state := if created then .staged else .duplicate
        transferId := some transferId, error := none }, ?_, rfl, rfl⟩
      rw [AutoPhone.rows, AutoPhone.receipt, Files.lookup_insert, if_pos rfl, Option.getD_some,
        Files.lookup_insert, if_pos rfl]
    · obtain ⟨hknown, hcurrent⟩ := h.commits c hc
      refine ⟨hknown, fun hr => ?_⟩
      obtain ⟨row', hrow', hstate, hid⟩ := hcurrent ((hphone _).symm.trans hr)
      refine ⟨row', hsettled _ _ _ hrow' ?_, hstate, hid⟩
      rw [hstate]
      split <;> decide
  · obtain ⟨hknown, hcurrent⟩ := h.baselines b hb
    refine ⟨hknown, fun hr => ?_⟩
    obtain ⟨row', hrow', hstate⟩ := hcurrent ((hphone _).symm.trans hr)
    exact ⟨row', hsettled _ _ _ hrow' (by rw [hstate]; decide), hstate⟩
  · exact List.nodup_cons.mpr ⟨hkey, h.nodup⟩
  · rcases List.mem_cons.mp hc with rfl | hc
    · exact hbase
    · exact h.apart c hc
  · rcases List.mem_cons.mp hc with rfl | hc
    · exact hreceipt
    · exact hhashes _ _ (h.hashes c hc)
  · rcases honly k id hk with hk | ⟨rfl, rfl⟩
    · obtain ⟨c, hc, hcreated⟩ := h.origin k id hk
      exact ⟨c, List.mem_cons_of_mem _ hc, hcreated⟩
    · exact ⟨_, List.mem_cons_self, rfl, rfl, Option.some.inj (hreceipt.symm.trans hk)⟩
  · cases created with
    | false => exact h.once
    | true =>
      refine List.nodup_cons.mpr ⟨fun hmem => ?_, h.once⟩
      obtain ⟨c, hc, heq⟩ := List.mem_map.mp hmem
      have hlookup := h.hashes c (List.mem_filter.mp hc).1
      rw [heq, AutoCommit.digest, hfirst rfl] at hlookup
      contradiction
  · rcases hautomatic id f r hmem with hmem | ⟨rfl, rfl, rfl, rfl⟩
    · obtain ⟨c, hc, hcreated⟩ := h.automatic id f r hmem
      exact ⟨c, List.mem_cons_of_mem _ hc, hcreated⟩
    · exact ⟨_, List.mem_cons_self, rfl, rfl, rfl, rfl⟩

theorem Sound.commit (h : p.Sound) {source : AutoSource} {file : SourceFile} {staged : StagedFile}
    {createdAt : Nat} (hq : p.commit source file staged createdAt = some q) : q.Sound := by
  unfold AutoPhone.commit at hq
  split at hq
  · rename_i hactive
    have hrevision := Phone.revision_of_active hactive
    split at hq
    · exact Option.some.inj hq ▸ h
    · rename_i row hrow
      split at hq
      · rename_i hmatches
        split at hq
        · -- The digest was queued before: the row becomes a duplicate.
          rename_i transferId hhash
          rw [← Option.some.inj hq]
          exact h.receipt hrevision hrow hmatches.2 (fun _ => rfl) (fun _ _ _ => .inl)
            (fun _ _ hk => hk) hhash (by simp) (fun _ _ => .inl)
        · rename_i hhash
          obtain ⟨phone, hphone, rfl⟩ := Option.map_eq_some_iff.mp hq
          simp only [Phone.perform, if_pos hactive] at hphone
          refine h.receipt hrevision hrow hmatches.2
            (fun _ => Phone.revision_congr (Phone.insertTransfer_spec hphone).1)
            (fun id f r hmem => (Phone.automatic_insertTransfer hphone hmem).imp_right
              fun hnew => ⟨rfl, hnew.1, hnew.2.1, Option.some.inj hnew.2.2⟩)
            (fun k id hk => ?_) ?_ (fun _ => hhash) (fun k id hk => ?_)
          · rw [Files.lookup_insert, if_neg]
            · exact hk
            · rintro rfl
              rw [hhash] at hk
              contradiction
          · rw [Files.lookup_insert, if_pos rfl]
          · rw [Files.lookup_insert] at hk
            split at hk
            · rename_i heq
              exact .inr ⟨rfl, heq⟩
            · exact .inl hk
      · exact Option.some.inj hq ▸ h
  · exact Option.some.inj hq ▸ h

/-- A step of the phone that replaces no source and queues nothing by itself. -/
theorem keeps_phone {phone : Phone} (hrevision : ∀ f, phone.revision f = p.phone.revision f)
    (hautomatic : ∀ id f r, phone.Automatic id f r → p.phone.Automatic id f r) :
    p.Keeps { p with phone } :=
  ⟨rfl, rfl, rfl, rfl, hrevision, hautomatic, fun _ => .refl⟩

/-- The revision that `enable` draws is new. -/
def Fresh (p : AutoPhone) : AutoCall → Prop
  | .enable _ _ _ revision .. => revision ∉ p.history.revisions
  | _ => True

theorem Sound.perform (h : p.Sound) {call : AutoCall} (hfresh : p.Fresh call)
    (hq : p.perform call = some q) : q.Sound := by
  cases call with
  | enable folder tree name revision unmetered files now includeExisting startImmediately =>
    exact h.enable hfresh hq
  | startPrepared folder unmetered =>
    obtain ⟨phone, hphone, rfl⟩ := Option.map_eq_some_iff.mp hq
    simp only [Phone.startPrepared, Option.ite_none_right_eq_some] at hphone
    obtain ⟨-, hphone⟩ := hphone
    cases hphone
    exact h.keeps (keeps_phone (fun _ => Phone.revision_updateSources _ (by simp))
      fun _ _ _ hmem => hmem)
  | disable folder reason =>
    cases hq
    exact h.keeps (keeps_phone (fun _ => Phone.revision_updateSources (by simp) (by simp))
      fun _ _ _ => Phone.automatic_updateTransfers (by simp) (by simp) (by simp))
  | observe source files now =>
    obtain ⟨⟨q', ready⟩, hobserve, rfl⟩ := Option.map_eq_some_iff.mp hq
    exact h.keeps (keeps_observe hobserve)
  | commit source file staged createdAt => exact h.commit hq
  | fileError source file message now =>
    cases hq
    exact h.keeps keeps_fileError
  | phone step =>
    simp only [AutoPhone.perform, Option.ite_none_right_eq_some] at hq
    obtain ⟨phone, hphone, rfl⟩ := Option.map_eq_some_iff.mp hq.2
    exact h.keeps (keeps_phone (fun _ => Phone.revision_perform hq.1 hphone)
      fun _ _ _ => Phone.automatic_perform hq.1 hphone)

theorem sound_initial : AutoPhone.initial.Sound where
  known _ _ h := by contradiction
  commits _ h := by contradiction
  baselines _ h := by contradiction
  nodup := .nil
  apart _ h := by contradiction
  hashes _ h := by contradiction
  origin _ _ h := by contradiction
  once := .nil
  automatic _ _ _ := by
    rintro ⟨t, ht, -⟩
    contradiction

theorem sound_of_steps {l : List AutoCall}
    (h : Steps AutoPhone.perform Fresh .initial l p) : p.Sound :=
  h.invariant (I := fun _ p => p.Sound) sound_initial fun _ _ _ _ hI hfresh hq =>
    hI.perform hfresh hq

/-- A commit that changes anything acts for the source in its present revision, enabled, in a
folder that is not being disconnected. -/
theorem active_of_commit {source : AutoSource} {file : SourceFile} {staged : StagedFile}
    {createdAt : Nat} (hq : p.commit source file staged createdAt = some q) (hne : q ≠ p) :
    (∃ a, p.phone.source source.folderId = some a ∧ a.revision = source.revision ∧
      a.enabled = true) ∧ p.phone.connectionOpen source.folderId = true := by
  unfold AutoPhone.commit at hq
  split at hq
  · rename_i hactive
    exact Phone.active_iff.mp hactive
  · exact absurd (Option.some.inj hq).symm hne

end AutoPhone

/-- Automatic sending never duplicates, in whatever order scans and settings act. -/
theorem autoSending_never_duplicates {l : List AutoCall} {p : AutoPhone}
    (h : Steps AutoPhone.perform AutoPhone.Fresh .initial l p) :
    -- A baseline document is never committed under its revision, any other at most once.
    (∀ c ∈ p.history.commits, c.key ∉ p.history.baselines) ∧
    (p.history.commits.map AutoCommit.key).Nodup ∧
    -- A digest is queued once in its folder, and every automatic transfer was queued so.
    ((p.history.commits.filter (·.created)).map AutoCommit.digest).Nodup ∧
    (∀ t ∈ p.phone.transfers.rows, ∀ r, t.autoRevision = some r → ∃ c ∈ p.history.commits,
      c.created = true ∧ c.transferId = t.id ∧ c.folder = t.folderId ∧ c.revision = r) ∧
    -- Every other commit of a digest is a duplicate of that transfer.
    (∀ c ∈ p.history.commits, ∃ d ∈ p.history.commits, d.created = true ∧ d.digest = c.digest ∧
      d.transferId = c.transferId) ∧
    (∀ c ∈ p.history.commits, p.phone.revision c.folder = some c.revision →
      ∃ row, (p.rows c.folder).lookup c.document = some row ∧
        row.state = (if c.created then .staged else .duplicate) ∧
        row.transferId = some c.transferId) ∧
    -- A commit for a source that is disabled, replaced or being disconnected does nothing.
    ∀ source file staged createdAt q, p.commit source file staged createdAt = some q → q ≠ p →
      (∃ a, p.phone.source source.folderId = some a ∧ a.revision = source.revision ∧
        a.enabled = true) ∧ p.phone.connectionOpen source.folderId = true := by
  have hsound := AutoPhone.sound_of_steps h
  refine ⟨hsound.apart, hsound.nodup, hsound.once, fun t ht r hr => ?_, fun c hc => ?_,
    fun c hc => (hsound.commits c hc).2, fun _ _ _ _ _ => AutoPhone.active_of_commit⟩
  · exact hsound.automatic t.id t.folderId r ⟨t, ht, rfl, rfl, hr⟩
  · exact hsound.origin c.digest c.transferId (hsound.hashes c hc)

instance (p : AutoPhone) (call : AutoCall) : Decidable (p.Fresh call) :=
  match call with
  | .enable _ _ _ revision .. => inferInstanceAs (Decidable (revision ∉ p.history.revisions))
  | .startPrepared .. | .disable .. | .observe .. | .commit .. | .fileError .. | .phone _ =>
    .isTrue trivial

/-- Two new photos are listed and both queued with one digest. -/
theorem autoSending_twins : ∃ (l : List AutoCall) (p : AutoPhone),
    Steps AutoPhone.perform AutoPhone.Fresh .initial l p ∧ p.history.commits.length = 2 ∧
      ((p.history.commits.filter (·.created)).map AutoCommit.digest).Nodup := by
  obtain ⟨p, h, hp⟩ := Steps.exists_of_replay AutoPhone.perform (fun p call => decide (p.Fresh call))
    .initial
    [.phone (.createFolder "folder" "token" .ready),
     .enable "folder" "content://tree" "Photos" "r1" false [autoPhoto "old"] 0 false true,
     .observe autoSource [autoPhoto "old", autoPhoto "first", autoPhoto "second"] 0,
     .commit autoSource (autoPhoto "old") ⟨"t0", "a.jpg", 3, "digest"⟩ 10000,
     .commit autoSource (autoPhoto "first") ⟨"t1", "a.jpg", 3, "digest"⟩ 10000,
     .commit autoSource (autoPhoto "second") ⟨"t2", "a.jpg", 3, "digest"⟩ 10000]
    (fun p => p.history.commits.length = 2) (by decide)
  have hrun := h.mono fun _ _ => of_decide_eq_true
  exact ⟨_, p, hrun, of_decide_eq_true hp, (autoSending_never_duplicates hrun).2.2.1⟩

end MiRelay.Android
