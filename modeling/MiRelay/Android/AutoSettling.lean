import MiRelay.Android.AutoStore

/-!
# Files settle before they are sent

A pending row carries one time and one error. While its error is not the mark of a
missing document, the time is at or after a listing since which every listing has
shown the document with the fingerprint of the row. Only the error report of
another scan breaks this, when it overwrites the mark.
-/

namespace MiRelay.Android

/-- The listing shows the document with this fingerprint. -/
def Listing.Shows (s : Listing) (document fingerprint : String) : Prop :=
  ∃ f ∈ s.files, f.documentId = document ∧ f.fingerprint = fingerprint

/-- From some listing at or before `time` to the last one, all show the document with this
fingerprint. -/
def SettledSince (listings : List Listing) (document fingerprint : String) (time : Int) : Prop :=
  ∃ front o back, listings = front ++ o :: back ∧ o.now ≤ time ∧
    ∀ s ∈ o :: front, s.Shows document fingerprint

theorem SettledSince.mono {listings : List Listing} {document fingerprint : String} {t t' : Int}
    (h : SettledSince listings document fingerprint t) (hle : t ≤ t') :
    SettledSince listings document fingerprint t' := by
  obtain ⟨front, o, back, rfl, htime, hshows⟩ := h
  exact ⟨front, o, back, rfl, htime.trans hle, hshows⟩

/-- The last listing alone. -/
theorem SettledSince.last {s : Listing} {listings : List Listing} {document fingerprint : String}
    (h : s.Shows document fingerprint) :
    SettledSince (s :: listings) document fingerprint s.now :=
  ⟨[], s, listings, rfl, le_rfl, by simpa using h⟩

/-- One more listing that shows the document. -/
theorem SettledSince.cons {s : Listing} {listings : List Listing} {document fingerprint : String}
    {time : Int} (h : SettledSince listings document fingerprint time)
    (hs : s.Shows document fingerprint) :
    SettledSince (s :: listings) document fingerprint time := by
  obtain ⟨front, o, back, rfl, htime, hshows⟩ := h
  refine ⟨s :: front, o, back, rfl, htime, fun seen hseen => ?_⟩
  rcases List.mem_cons.mp hseen with rfl | hseen
  · exact hshows _ List.mem_cons_self
  · rcases List.mem_cons.mp hseen with rfl | hseen
    · exact hs
    · exact hshows _ (List.mem_cons_of_mem _ hseen)

theorem SettledSince.shows_last {s : Listing} {listings : List Listing}
    {document fingerprint : String} {time : Int}
    (h : SettledSince (s :: listings) document fingerprint time) :
    s.Shows document fingerprint := by
  obtain ⟨front, o, back, hlistings, -, hshows⟩ := h
  cases front with
  | nil =>
    cases hlistings
    exact hshows s List.mem_cons_self
  | cons seen front =>
    cases hlistings
    exact hshows s (by simp)

/-- The difference of two times in order is at least what the wrapped difference says. -/
theorem le_sub_of_longSub {a b n : Int} (hle : b ≤ a) (hn : n ≤ longSub a b) : b ≤ a - n := by
  unfold longSub at hn
  rw [Int.bmod_def] at hn
  split at hn <;> omega

/-! ### One listing -/

/-- A pending row that does not carry the mark of a missing document. -/
def Waiting (rows : Files String AutoFile) (document fingerprint : String) (since : Int) : Prop :=
  ∃ row, rows.lookup document = some row ∧ row.state = .pending ∧ row.error ≠ some unavailable ∧
    row.fingerprint = fingerprint ∧ row.stableSince = since

/-- The rows after some files of a listing, compared with the rows before. -/
structure Observed (rows : Files String AutoFile) (now : Int) (files : List SourceFile)
    (st : Observing) : Prop where
  rest : ∀ document, document ∉ files.map (·.documentId) →
    st.rows.lookup document = rows.lookup document
  pending : ∀ document ∈ files.map (·.documentId), ∀ row, st.rows.lookup document = some row →
    row.state = .pending → row.error ≠ some unavailable ∧
      Listing.Shows ⟨now, files⟩ document row.fingerprint ∧
      (row.stableSince = now ∨ Waiting rows document row.fingerprint row.stableSince)
  ready : ∀ f ∈ st.ready, Listing.Shows ⟨now, files⟩ f.documentId f.fingerprint ∧
    ∃ since ≤ now - stableMillis, Waiting rows f.documentId f.fingerprint since

namespace Observed

variable {rows : Files String AutoFile} {now : Int} {files : List SourceFile} {st st' : Observing}
  {file : SourceFile}

theorem start (added : Nat) : Observed rows now [] { rows, ready := [], added } where
  rest _ _ := rfl
  pending _ h := by contradiction
  ready _ h := by contradiction

/-- The error of a file that cannot be sent is not the mark of a missing one. -/
theorem flag (h : Observed rows now files st) (hfile : file.documentId ∈ files.map (·.documentId)) :
    Observed rows now files (st.flag file) := by
  unfold Observing.flag
  split
  · exact h
  · split
    · rename_i row hrow
      split
      · refine ⟨fun document hdocument => ?_, fun document hdocument row' hrow' hpending => ?_,
          h.ready⟩
        · rw [Files.lookup_insert, if_neg]
          · exact h.rest document hdocument
          · rintro rfl
            exact hdocument hfile
        · rw [Files.lookup_insert] at hrow'
          split at hrow'
          · rename_i heq
            subst heq
            rw [← Option.some.inj hrow']
            have hold := h.pending _ hdocument row hrow ‹_›
            exact ⟨(by decide : some unsupported ≠ some unavailable), hold.2⟩
          · exact h.pending document hdocument row' hrow' hpending
      · exact h
    · exact h

theorem shows_append {document fingerprint : String}
    (h : Listing.Shows ⟨now, files⟩ document fingerprint) :
    Listing.Shows ⟨now, files ++ [file]⟩ document fingerprint := by
  obtain ⟨f, hf, hsame⟩ := h
  exact ⟨f, List.mem_append_left _ hf, hsame⟩

theorem shows_last : Listing.Shows ⟨now, files ++ [file]⟩ file.documentId file.fingerprint :=
  ⟨file, by simp, rfl, rfl⟩

/-- Where a row waits, it has waited since before the listing or begins now. -/
theorem waiting (h : Observed rows now files st) {document : String} {row : AutoFile}
    (hrow : st.rows.lookup document = some row) (hpending : row.state = .pending)
    (herror : row.error ≠ some unavailable) :
    row.stableSince = now ∨ Waiting rows document row.fingerprint row.stableSince := by
  by_cases hdocument : document ∈ files.map (·.documentId)
  · exact (h.pending document hdocument row hrow hpending).2.2
  · exact .inr ⟨row, h.rest document hdocument ▸ hrow, hpending, herror, rfl, rfl⟩

/-- A row that begins to wait at the listing. -/
theorem insert (h : Observed rows now files st) {row : AutoFile} {added : Nat}
    (hprint : row.fingerprint = file.fingerprint) (hsince : row.stableSince = now)
    (herror : row.error ≠ some unavailable) :
    Observed rows now (files ++ [file])
      { st with rows := st.rows.insert file.documentId row, added } where
  rest document hdocument := by
    rw [List.map_append, List.mem_append, not_or] at hdocument
    rw [Files.lookup_insert, if_neg (by simpa using hdocument.2)]
    exact h.rest document hdocument.1
  pending document hdocument row' hrow' hpending := by
    rw [Files.lookup_insert] at hrow'
    split at hrow'
    · rename_i heq
      subst heq
      rw [← Option.some.inj hrow', hprint]
      exact ⟨herror, shows_last, .inl hsince⟩
    · rename_i hne
      have hold : document ∈ files.map (·.documentId) := by simpa [hne] using hdocument
      obtain ⟨herror', hshows, hwait⟩ := h.pending document hold row' hrow' hpending
      exact ⟨herror', shows_append hshows, hwait⟩
  ready f hf := (h.ready f hf).imp_left shows_append

/-- A file that leaves the rows as they are. -/
theorem keep (h : Observed rows now files st)
    (hsame : ∀ row, st.rows.lookup file.documentId = some row → row.state = .pending →
      row.error ≠ some unavailable ∧ row.fingerprint = file.fingerprint) :
    Observed rows now (files ++ [file]) st where
  rest document hdocument := by
    rw [List.map_append, List.mem_append, not_or] at hdocument
    exact h.rest document hdocument.1
  pending document hdocument row hrow hpending := by
    by_cases hold : document ∈ files.map (·.documentId)
    · obtain ⟨herror, hshows, hwait⟩ := h.pending document hold row hrow hpending
      exact ⟨herror, shows_append hshows, hwait⟩
    · have heq : document = file.documentId := by simpa [hold] using hdocument
      subst heq
      obtain ⟨herror, hprint⟩ := hsame row hrow hpending
      exact ⟨herror, hprint ▸ shows_last, h.waiting hrow hpending herror⟩
  ready f hf := (h.ready f hf).imp_left shows_append

/-- One file of the listing. -/
theorem step (h : Observed rows now files st) {count : Nat}
    (hst : st.file count now file = some st') : Observed rows now (files ++ [file]) st' := by
  have hmem : file.documentId ∈ (files ++ [file]).map (·.documentId) := by simp
  unfold Observing.file at hst
  split at hst
  · simp only [Option.ite_none_right_eq_some, Option.some.injEq] at hst
    rw [← hst.2]
    have hprint : (AutoFile.seen file now .pending).fingerprint = file.fingerprint := rfl
    exact (h.insert hprint rfl (by simp [AutoFile.seen])).flag hmem
  · rename_i row hrow
    have heq {row' : AutoFile} (hrow' : st.rows.lookup file.documentId = some row') : row' = row :=
      Option.some.inj (hrow'.symm.trans hrow)
    split at hst
    · rename_i hpending
      split at hst
      · rw [← Option.some.inj hst]
        exact (h.insert rfl rfl (by simp)).flag hmem
      · rename_i hsame
        simp only [not_or, not_not, not_lt] at hsame
        obtain ⟨hprint, hle, herror⟩ := hsame
        have hkeep : Observed rows now (files ++ [file]) st :=
          h.keep fun row' hrow' _ => heq hrow' ▸ ⟨herror, hprint⟩
        split at hst
        · rename_i hstable
          rw [← Option.some.inj hst]
          refine Observed.flag ⟨hkeep.rest, hkeep.pending, fun f hf => ?_⟩ hmem
          rcases List.mem_append.mp hf with hf | hf
          · exact hkeep.ready f hf
          · rw [List.mem_singleton.mp hf]
            have hsince := le_sub_of_longSub hle hstable.2
            refine ⟨shows_last, row.stableSince, hsince, ?_⟩
            refine hprint ▸ (h.waiting hrow hpending herror).resolve_left fun hnow => ?_
            rw [hnow, stableMillis] at hsince
            omega
        · rw [← Option.some.inj hst]
          exact hkeep.flag hmem
    · rename_i hstate
      rw [← Option.some.inj hst]
      exact (h.keep fun row' hrow' hpending => absurd (heq hrow' ▸ hpending) hstate).flag hmem

/-- A whole listing. -/
theorem foldlM (h : Observed rows now files st) {count : Nat} {rest : List SourceFile}
    (hst : rest.foldlM (Observing.file count now) st = some st') :
    Observed rows now (files ++ rest) st' := by
  induction rest generalizing files st with
  | nil =>
    rw [List.foldlM_nil] at hst
    rw [List.append_nil, ← Option.some.inj hst]
    exact h
  | cons file rest ih =>
    rw [List.foldlM_cons] at hst
    obtain ⟨mid, hmid, hrest⟩ := Option.bind_eq_some_iff.mp hst
    have hall := ih (h.step hmid) hrest
    rwa [List.append_assoc, List.singleton_append] at hall

end Observed

/-! ### What holds in every run -/

namespace AutoPhone

variable {p q : AutoPhone}

/-- The report would overwrite the mark of a document that a listing has missed. -/
def Unmarks (p : AutoPhone) (source : AutoSource) (file : SourceFile) (message : String) : Prop :=
  message ≠ unavailable ∧ (p.phone.sources.rows.any fun a =>
    a.folderId == source.folderId && a.revision == source.revision && a.enabled) = true ∧
  ∃ row, (p.rows source.folderId).lookup file.documentId = some row ∧
    row.fingerprint = file.fingerprint ∧ row.state = .pending ∧ row.error = some unavailable

/-- The clock does not go back. -/
def Timely (p : AutoPhone) : AutoCall → Prop
  | .enable _ _ _ _ _ _ now _ _ | .observe _ _ now | .fileError _ _ _ now => p.history.clock ≤ now
  | _ => True

/-- The clock does not go back and no report overwrites the mark of a missing document. -/
def Careful (p : AutoPhone) (call : AutoCall) : Prop :=
  p.Timely call ∧
    match call with
    | .fileError source file message _ => ¬p.Unmarks source file message
    | _ => True

/-- Every row that waits has been shown by all listings since its time. -/
structure Paced (p : AutoPhone) : Prop where
  past : ∀ folder, ∀ s ∈ p.listings folder, s.now ≤ p.history.clock
  settled : ∀ folder document fingerprint since,
    Waiting (p.rows folder) document fingerprint since →
      SettledSince (p.listings folder) document fingerprint since

/-- Waiting in rows of which one was written. -/
theorem waiting_insert {rows : Files String AutoFile} {document fingerprint target : String}
    {since : Int} {row : AutoFile} (h : Waiting (rows.insert target row) document fingerprint since) :
    Waiting rows document fingerprint since ∨ document = target ∧ row.state = .pending ∧
      row.error ≠ some unavailable ∧ row.fingerprint = fingerprint ∧ row.stableSince = since := by
  obtain ⟨row', hrow, hrest⟩ := h
  rw [Files.lookup_insert] at hrow
  split at hrow
  · rename_i heq
    cases hrow
    exact .inr ⟨heq, hrest⟩
  · exact .inl ⟨row', hrow, hrest⟩

theorem Paced.enable (h : p.Paced) {folder tree name revision : String}
    {unmetered includeExisting startImmediately : Bool} {files : List SourceFile} {now : Int}
    (hnow : p.history.clock ≤ now)
    (hq : p.enable folder tree name revision unmetered files now includeExisting startImmediately =
      some q) : q.Paced := by
  unfold AutoPhone.enable at hq
  simp only [Option.ite_none_right_eq_some] at hq
  obtain ⟨⟨-, hnodup⟩, hq⟩ := hq
  obtain ⟨phone, -, rfl⟩ := Option.map_eq_some_iff.mp hq
  refine ⟨fun f s hs => ?_, fun f document fingerprint since hwait => ?_⟩
  · rw [listings, Files.getD_insert] at hs
    split at hs
    · split at hs
      · rw [List.mem_singleton.mp hs]
      · contradiction
    · exact (h.past f s hs).trans hnow
  · rw [AutoPhone.rows, Files.getD_insert] at hwait
    rw [listings, Files.getD_insert]
    split
    · rename_i hf
      rw [if_pos hf] at hwait
      obtain ⟨row, hrow, hpending, -, hprint, hsince⟩ := hwait
      obtain ⟨file, hfile, rfl, rfl⟩ | ⟨-, hrow⟩ := (Files.lookup_insertAll_eq_some hnodup _).mp hrow
      · -- Only existing files that are to be sent are pending.
        cases includeExisting with
        | false => contradiction
        | true =>
          rw [← hsince]
          exact .last ⟨file, hfile, rfl, hprint⟩
      · contradiction
    · rename_i hf
      rw [if_neg hf] at hwait
      exact h.settled f document fingerprint since hwait

theorem Paced.observe (h : p.Paced) {source : AutoSource} {files ready : List SourceFile}
    {now : Int} (hnow : p.history.clock ≤ now)
    (hq : p.observe source files now = some (q, ready)) : q.Paced := by
  unfold AutoPhone.observe at hq
  simp only [Option.ite_none_right_eq_some] at hq
  obtain ⟨st, hst, hq⟩ := Option.map_eq_some_iff.mp hq.2
  cases hq
  have hobserved := (Observed.start 0).foldlM hst
  refine ⟨fun f s hs => ?_, fun f document fingerprint since hwait => ?_⟩
  · rw [listings, Files.getD_insert] at hs
    split at hs
    · rcases List.mem_cons.mp hs with rfl | hs
      · exact le_rfl
      · exact (h.past _ s hs).trans hnow
    · exact (h.past f s hs).trans hnow
  · rw [AutoPhone.rows, Files.getD_insert] at hwait
    rw [listings, Files.getD_insert]
    split
    · rename_i hf
      rw [if_pos hf] at hwait
      obtain ⟨row', hrow', hpending, herror, rfl, rfl⟩ := hwait
      rw [Files.lookup_modify] at hrow'
      obtain ⟨row, hrow, rfl⟩ := Option.map_eq_some_iff.mp hrow'
      -- A row without the mark was in the listing.
      by_cases hpresent : row.state = .pending ∧ document ∉ files.map (·.documentId)
      · rw [if_pos hpresent] at herror
        contradiction
      · rw [if_neg hpresent] at hpending ⊢
        have hmem : document ∈ files.map (·.documentId) := by
          by_contra hmissing
          exact hpresent ⟨hpending, hmissing⟩
        obtain ⟨-, hshows, hsince | hwait⟩ := hobserved.pending document hmem row hrow hpending
        · rw [hsince]
          exact .last hshows
        · exact (h.settled _ _ _ _ hwait).cons hshows
    · rename_i hf
      rw [if_neg hf] at hwait
      exact h.settled f document fingerprint since hwait

theorem Paced.receipt (h : p.Paced) {source : AutoSource} {file : SourceFile}
    {sha256 transferId : String} {created : Bool} {row : AutoFile} {phone : Phone}
    {hashes : Files (String × String) String} :
    (({ p with phone, hashes } : AutoPhone).receipt source file sha256 transferId created
      row).Paced := by
  refine ⟨h.past, fun f document fingerprint since hwait => ?_⟩
  rw [AutoPhone.rows, AutoPhone.receipt, Files.getD_insert] at hwait
  split at hwait
  · rename_i hf
    obtain hwait | ⟨-, hpending, -⟩ := waiting_insert hwait
    · exact h.settled f document fingerprint since (hf ▸ hwait)
    · cases created <;> contradiction
  · exact h.settled f document fingerprint since hwait

theorem Paced.commit (h : p.Paced) {source : AutoSource} {file : SourceFile} {staged : StagedFile}
    {createdAt : Nat} (hq : p.commit source file staged createdAt = some q) : q.Paced := by
  unfold AutoPhone.commit at hq
  split at hq
  · split at hq
    · exact Option.some.inj hq ▸ h
    · split at hq
      · split at hq
        · exact Option.some.inj hq ▸ h.receipt
        · obtain ⟨phone, -, rfl⟩ := Option.map_eq_some_iff.mp hq
          exact h.receipt
      · exact Option.some.inj hq ▸ h
  · exact Option.some.inj hq ▸ h

theorem Paced.fileError (h : p.Paced) {source : AutoSource} {file : SourceFile} {message : String}
    {now : Int} (hnow : p.history.clock ≤ now) (hmark : ¬p.Unmarks source file message) :
    (p.fileError source file message now).Paced := by
  have hlater : ({ p with history := { p.history with clock := now } } : AutoPhone).Paced :=
    ⟨fun f s hs => (h.past f s hs).trans hnow, h.settled⟩
  unfold AutoPhone.fileError
  dsimp only
  split
  · rename_i hsource
    split
    · exact hlater
    · rename_i row hrow
      split
      · rename_i hmatches
        refine ⟨hlater.past, fun f document fingerprint since hwait => ?_⟩
        rw [AutoPhone.rows, Files.getD_insert] at hwait
        split at hwait
        · rename_i hf
          obtain hwait | ⟨hdocument, -, herror, hprint, hsince⟩ := waiting_insert hwait
          · exact h.settled f document fingerprint since (hf ▸ hwait)
          · -- The row waited before, so its time was not the mark of a missing document.
            have hwaited : Waiting (p.rows f) document fingerprint row.stableSince := by
              refine ⟨row, hf ▸ hdocument ▸ hrow, hmatches.2, fun hmissing => hmark ?_, hprint, rfl⟩
              exact ⟨fun h => herror (congrArg some h), hsource, row, hrow, hmatches.1, hmatches.2,
                hmissing⟩
            obtain ⟨front, o, back, hlistings, -, hshows⟩ := h.settled _ _ _ _ hwaited
            refine ⟨front, o, back, hlistings, ?_, hshows⟩
            rw [← hsince]
            exact hlater.past f o (show o ∈ p.listings f by rw [hlistings]; simp)
        · exact h.settled f document fingerprint since hwait
      · exact hlater
  · exact hlater

theorem Paced.perform (h : p.Paced) {call : AutoCall} (hcareful : p.Careful call)
    (hq : p.perform call = some q) : q.Paced := by
  cases call with
  | enable => exact h.enable hcareful.1 hq
  | startPrepared =>
    obtain ⟨phone, -, rfl⟩ := Option.map_eq_some_iff.mp hq
    exact ⟨h.past, h.settled⟩
  | disable =>
    cases hq
    exact ⟨h.past, h.settled⟩
  | observe source files now =>
    obtain ⟨⟨q', ready⟩, hobserve, rfl⟩ := Option.map_eq_some_iff.mp hq
    exact h.observe hcareful.1 hobserve
  | commit => exact h.commit hq
  | fileError =>
    cases hq
    exact h.fileError hcareful.1 hcareful.2
  | phone step =>
    simp only [AutoPhone.perform, Option.ite_none_right_eq_some] at hq
    obtain ⟨phone, -, rfl⟩ := Option.map_eq_some_iff.mp hq.2
    exact ⟨h.past, h.settled⟩

theorem paced_of_steps {l : List AutoCall}
    (h : Steps AutoPhone.perform Careful .initial l p) : p.Paced := by
  refine h.invariant (I := fun _ p => p.Paced) ⟨fun _ _ h => ?_, fun _ _ _ _ h => ?_⟩
    fun _ _ _ _ hI hcareful hq => hI.perform hcareful hq
  · contradiction
  · obtain ⟨row, hrow, -⟩ := h
    contradiction

end AutoPhone

/-- While no report overwrites the mark of a missing document, a file is ready only when some
listing at least ten seconds ago and all since then have shown it unchanged. -/
theorem ready_settled {l : List AutoCall} {p q : AutoPhone} {source : AutoSource}
    {files ready : List SourceFile} {now : Int}
    (h : Steps AutoPhone.perform AutoPhone.Careful .initial l p)
    (hq : p.observe source files now = some (q, ready)) :
    ∀ f ∈ ready, Listing.Shows ⟨now, files⟩ f.documentId f.fingerprint ∧
      SettledSince (p.listings source.folderId) f.documentId f.fingerprint (now - stableMillis) := by
  intro f hf
  unfold AutoPhone.observe at hq
  simp only [Option.ite_none_right_eq_some] at hq
  obtain ⟨st, hst, hq⟩ := Option.map_eq_some_iff.mp hq.2
  cases hq
  obtain ⟨hshows, since, hle, hwait⟩ := ((Observed.start 0).foldlM hst).ready f hf
  exact ⟨hshows, ((AutoPhone.paced_of_steps h).settled _ _ _ _ hwait).mono hle⟩

instance (p : AutoPhone) (call : AutoCall) : Decidable (p.Timely call) :=
  match call with
  | .enable _ _ _ _ _ _ now _ _ | .observe _ _ now | .fileError _ _ _ now =>
    inferInstanceAs (Decidable (p.history.clock ≤ now))
  | .startPrepared .. | .disable .. | .commit .. | .phone _ => .isTrue trivial

/-- A source is enabled and its only photo is listed. -/
def photoListed : List AutoCall :=
  [.phone (.createFolder "folder" "token" .ready),
   .enable "folder" "content://tree" "Photos" "r1" false [] 0 false true,
   .observe autoSource [autoPhoto "first"] 0]

theorem ready_settled_photo : ∃ p q : AutoPhone,
    p.observe autoSource [autoPhoto "first"] 10000 = some (q, [autoPhoto "first"]) ∧
      SettledSince (p.listings "folder") "first" (autoPhoto "first").fingerprint 0 := by
  obtain ⟨p, h, hp⟩ := Steps.exists_of_replay AutoPhone.perform
    (fun p call => decide (p.Timely call) && !call matches .fileError ..) .initial photoListed
    (fun p => (p.observe autoSource [autoPhoto "first"] 10000).any fun r =>
      r.2 = [autoPhoto "first"]) (by decide)
  obtain ⟨⟨q, ready⟩, hq, hready⟩ := Option.any_eq_true _ _ |>.mp hp
  cases of_decide_eq_true hready
  have hrun : Steps AutoPhone.perform AutoPhone.Careful .initial photoListed p := by
    refine h.mono fun p call hcall => ?_
    rw [Bool.and_eq_true, decide_eq_true_eq] at hcall
    refine ⟨hcall.1, ?_⟩
    cases call <;> simp at hcall ⊢
  exact ⟨p, q, hq, ((ready_settled hrun hq) _ (List.mem_singleton_self _)).2⟩

/-- A scan finds the photo ready, another one finds it missing, and the first then reports that it
could not be read. -/
def photoMissed : List AutoCall :=
  photoListed ++
    [.observe autoSource [autoPhoto "first"] 10000,
     .observe autoSource [] 10001,
     .fileError autoSource (autoPhoto "first") ("File changed, could not be read, or could not be " ++
       "queued. Auto will try again later; manual sending is available.") 10002]

/-- The photo is ready the first time it is listed again. -/
theorem ready_unsettled : ∃ (p q : AutoPhone) (ready : List SourceFile),
    Steps AutoPhone.perform AutoPhone.Timely .initial photoMissed p ∧ p.history.clock ≤ 20002 ∧
      p.observe autoSource [autoPhoto "first"] 20002 = some (q, ready) ∧
      autoPhoto "first" ∈ ready ∧
      ¬SettledSince (p.listings "folder") "first" (autoPhoto "first").fingerprint
        (20002 - stableMillis) := by
  obtain ⟨p, h, hp⟩ := Steps.exists_of_replay AutoPhone.perform
    (fun p call => decide (p.Timely call)) .initial photoMissed
    (fun p => p.history.clock ≤ 20002 ∧ (p.listings "folder").head? = some ⟨10001, []⟩ ∧
      (p.observe autoSource [autoPhoto "first"] 20002).any fun r => autoPhoto "first" ∈ r.2)
    (by decide)
  simp only [decide_eq_true_eq, Option.any_eq_true] at hp
  obtain ⟨hclock, hlast, ⟨q, ready⟩, hq, hready⟩ := hp
  refine ⟨p, q, ready, h.mono fun _ _ => of_decide_eq_true, hclock, hq, hready, fun hsettled => ?_⟩
  obtain ⟨listings, hlistings⟩ := List.head?_eq_some_iff.mp hlast
  rw [hlistings] at hsettled
  obtain ⟨f, hf, -⟩ := hsettled.shows_last
  contradiction

end MiRelay.Android
