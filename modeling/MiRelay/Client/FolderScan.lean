import MiRelay.Client.InboxRules

/-!
# The scan of an inbox

A scan reads the manifests one after the other while other processes go on. Every
manifest that stood when it began is listed, or was acknowledged when it was read,
or there is an issue with it; and what is listed had no marker when the scan began.
-/

namespace MiRelay

open Proc

namespace FilesystemSource

open Inbox

variable {format : InboxFormat} {sha256 : Bytes → String} {inboxDir : String} {me : Nat} {s t : Inbox}

/-! ### Scans -/

/-- There is a marker that says that a delivery with this digest was acknowledged. -/
def Acknowledged (format : InboxFormat) (s : Inbox) (id digest : String) : Prop :=
  ∃ writer content m, s.entry .acks (manifestName id) = some (.regular writer content) ∧
    format.parseMarker content = .ok m ∧ m.id = id ∧ m.sha256 = digest

theorem Acknowledged.kept {id digest : String} (h : Acknowledged format s id digest)
    (hkept : Kept s t) : Acknowledged format t id digest := by
  obtain ⟨writer, content, m, hentry, hrest⟩ := h
  exact ⟨writer, content, m, hkept.file _ _ _ _ hentry, hrest⟩

theorem Acknowledged.marked {id digest : String} (h : Acknowledged format s id digest) :
    s.Marked id := by
  obtain ⟨writer, content, -, hentry, -⟩ := h
  exact ⟨writer, content, hentry⟩

/-- A marker is for one digest. -/
theorem Acknowledged.unique {id digest digest' : String} (h : Acknowledged format s id digest)
    (h' : Acknowledged format s id digest') : digest = digest' := by
  obtain ⟨writer, content, m, hentry, hparse, -, rfl⟩ := h
  obtain ⟨writer', content', m', hentry', hparse', -, rfl⟩ := h'
  rw [hentry] at hentry'
  cases Option.some.inj hentry'
  rw [hparse] at hparse'
  rw [Except.ok.inj hparse']

/-- There is an issue with a manifest, or with the listing of the directory. -/
def Reported (inboxDir : String) (issues : List SourceIssue) (name : String) : Prop :=
  ∃ issue ∈ issues, issue.item = joinPath inboxDir name ∨ issue.item = inboxDir

theorem Reported.append {issues more : List SourceIssue} {name : String}
    (h : Reported inboxDir issues name) : Reported inboxDir (issues ++ more) name := by
  obtain ⟨issue, hin, hitem⟩ := h
  exact ⟨issue, List.mem_append_left _ hin, hitem⟩

/-- What has become of the manifests that a scan has come to; it began in the first state, with the
issues of the listing. -/
structure Gathered (format : InboxFormat) (inboxDir : String) (maxFileSize : Nat)
    (issues : List SourceIssue) (s t : Inbox) (names : List String) (st : FolderScan) : Prop where
  found : ∀ entry ∈ st.byId, entry.1 ∈ names ∧ ManifestRead format t maxFileSize entry.1 entry.2 ∧
    ¬s.Marked entry.2.id
  once : (st.byId.map (·.2.id)).Nodup
  accounted : ∀ name ∈ names, Reported inboxDir st.issues name ∨ (∃ d, (name, d) ∈ st.byId) ∨
    ∃ d, ManifestRead format t maxFileSize name d ∧ Acknowledged format t d.id d.sha256
  conflicts : ∀ id ∈ st.conflicts, ∃ name ∈ names, ∃ name' ∈ names, name ≠ name' ∧ ∃ d d',
    ManifestRead format t maxFileSize name d ∧ ManifestRead format t maxFileSize name' d' ∧
      d.id = id ∧ d'.id = id
  listing : ∀ issue ∈ issues, issue ∈ st.issues

namespace Gathered

variable {maxFileSize : Nat} {u : Inbox} {names : List String} {name item message : String}
  {issues : List SourceIssue} {st : FolderScan} {d : Delivery}

theorem start : Gathered format inboxDir maxFileSize issues s t []
    { FolderScan.empty with issues := issues } where
  found := nofun
  once := List.nodup_nil
  accounted := nofun
  conflicts := nofun
  listing := fun _ hissue => hissue

theorem kept (h : Gathered format inboxDir maxFileSize issues s t names st) (hkept : Kept t u) :
    Gathered format inboxDir maxFileSize issues s u names st where
  found := fun entry hentry => by
    obtain ⟨hname, hread, hunmarked⟩ := h.found entry hentry
    exact ⟨hname, hread.kept hkept, hunmarked⟩
  once := h.once
  accounted := fun name hname => by
    rcases h.accounted name hname with hissue | hfound | ⟨d, hread, hack⟩
    · exact .inl hissue
    · exact .inr (.inl hfound)
    · exact .inr (.inr ⟨d, hread.kept hkept, hack.kept hkept⟩)
  conflicts := fun id hid => by
    obtain ⟨name, hname, name', hname', hne, d, d', hread, hread', hids⟩ := h.conflicts id hid
    exact ⟨name, hname, name', hname', hne, d, d', hread.kept hkept, hread'.kept hkept, hids⟩
  listing := h.listing

/-- One more manifest that adds no delivery. -/
theorem skip (h : Gathered format inboxDir maxFileSize issues s t names st) (name : String)
    (more : List SourceIssue) (hname : Reported inboxDir more name ∨
      ∃ d, ManifestRead format t maxFileSize name d ∧ Acknowledged format t d.id d.sha256) :
    Gathered format inboxDir maxFileSize issues s t (names ++ [name])
      { st with issues := st.issues ++ more } where
  found := fun entry hentry => by
    obtain ⟨hin, hrest⟩ := h.found entry hentry
    exact ⟨List.mem_append_left _ hin, hrest⟩
  once := h.once
  accounted := fun name' hin => by
    rcases List.mem_append.mp hin with hin | hin
    · rcases h.accounted name' hin with hissue | hrest
      · exact .inl hissue.append
      · exact .inr hrest
    · rw [List.mem_singleton] at hin
      subst hin
      rcases hname with ⟨issue, hissue, hitem⟩ | hack
      · exact .inl ⟨issue, List.mem_append_right _ hissue, hitem⟩
      · exact .inr (.inr hack)
  conflicts := fun id hid => by
    obtain ⟨name₁, hname₁, name₂, hname₂, hrest⟩ := h.conflicts id hid
    exact ⟨name₁, List.mem_append_left _ hname₁, name₂, List.mem_append_left _ hname₂, hrest⟩
  listing := fun issue hissue => List.mem_append_left _ (h.listing issue hissue)

/-- One more manifest whose delivery has no marker. -/
theorem add (h : Gathered format inboxDir maxFileSize issues s t names st) (hname : name ∉ names)
    (hread : ManifestRead format t maxFileSize name d) (hunmarked : ¬s.Marked d.id) :
    Gathered format inboxDir maxFileSize issues s t (names ++ [name]) (st.add inboxDir name d) := by
  -- Of two manifests with one identity both are known, whichever comes first.
  unfold FolderScan.add
  split
  · rename_i previousName previous hprevious
    have hid : previous.id = d.id := by simpa using List.find?_some hprevious
    obtain ⟨hin, hread', -⟩ := h.found _ (List.mem_of_find?_eq_some hprevious)
    have hskip := h.skip name
      [⟨joinPath inboxDir name, "duplicate delivery id " ++ d.id ++ " also appears in " ++
        joinPath inboxDir previousName ++ " (digests " ++ previous.sha256 ++ " and " ++ d.sha256 ++ ")"⟩]
      (.inl ⟨_, List.mem_singleton.mpr rfl, .inl rfl⟩)
    refine ⟨hskip.found, hskip.once, hskip.accounted, fun id hconflict => ?_, hskip.listing⟩
    rcases List.mem_insert_iff.mp hconflict with rfl | hconflict
    · exact ⟨previousName, List.mem_append_left _ hin, name,
        List.mem_append_right _ (List.mem_singleton.mpr rfl), fun heq => hname (heq ▸ hin),
        previous, d, hread', hread, hid, rfl⟩
    · exact hskip.conflicts id hconflict
  · rename_i hnone
    refine ⟨fun entry hentry => ?_, ?_, fun name' hin => ?_, fun id hid => ?_, h.listing⟩
    · rcases List.mem_append.mp hentry with hentry | hentry
      · obtain ⟨hin, hrest⟩ := h.found entry hentry
        exact ⟨List.mem_append_left _ hin, hrest⟩
      · rw [List.mem_singleton] at hentry
        subst hentry
        exact ⟨List.mem_append_right _ (List.mem_singleton.mpr rfl), hread, hunmarked⟩
    · rw [List.map_append, List.nodup_append]
      refine ⟨h.once, List.nodup_singleton _, ?_⟩
      rintro a ha b hb rfl
      obtain ⟨entry, hentry, rfl⟩ := List.mem_map.mp ha
      rw [List.map_singleton, List.mem_singleton] at hb
      exact List.find?_eq_none.mp hnone entry hentry (beq_iff_eq.mpr hb)
    · rcases List.mem_append.mp hin with hin | hin
      · rcases h.accounted name' hin with hissue | ⟨d', hfound⟩ | hack
        · exact .inl hissue
        · exact .inr (.inl ⟨d', List.mem_append_left _ hfound⟩)
        · exact .inr (.inr hack)
      · rw [List.mem_singleton] at hin
        subst hin
        exact .inr (.inl ⟨d, List.mem_append_right _ (List.mem_singleton.mpr rfl)⟩)
    · obtain ⟨name₁, hname₁, name₂, hname₂, hrest⟩ := h.conflicts id hid
      exact ⟨name₁, List.mem_append_left _ hname₁, name₂, List.mem_append_left _ hname₂, hrest⟩

end Gathered

section Scan

variable {maxFileSize : Nat} {issues : List SourceIssue} {names : List String} {st : FolderScan}

theorem scanManifest_meets (ht : Later format sha256 s t)
    (h : Gathered format inboxDir maxFileSize issues s t names st) {name : String} (hname : name ∉ names) :
    Meets (scanManifest format sha256 inboxDir me maxFileSize st name) t (Lawful sha256)
      (OnSuccess fun st' u => Later format sha256 s u ∧
        Gathered format inboxDir maxFileSize issues s u (names ++ [name]) st') := by
  unfold scanManifest
  refine Meets.tried (Meets.later (readManifest_meets ht.sound maxFileSize name) ht.sound) ?_
  rintro r u ⟨hr, hu⟩
  cases r with
  | error e =>
    rw [meets_pure, onSuccess_ok]
    exact ⟨ht.trans hu, (h.kept hu.kept).skip _ _ (.inl ⟨_, List.mem_singleton.mpr rfl, .inl rfl⟩)⟩
  | ok d =>
    obtain ⟨-, hread⟩ := hr d rfl
    refine Meets.tried (Meets.later (readAck_meets hu.sound d.id) hu.sound) ?_
    rintro r v ⟨hr, hv⟩
    have hlater := (ht.trans hu).trans hv
    have hgathered := (h.kept hu.kept).kept hv.kept
    cases r with
    | error e =>
      rw [meets_pure, onSuccess_ok]
      exact ⟨hlater, hgathered.skip _ _ (.inl ⟨_, List.mem_singleton.mpr rfl, .inl rfl⟩)⟩
    | ok found =>
      obtain ⟨-, hack⟩ := hr found rfl
      cases found with
      | none =>
        rw [meets_pure, onSuccess_ok]
        refine ⟨hlater, hgathered.add hname (hread.kept hv.kept) fun hmarked => ?_⟩
        exact hack ((ht.trans hu).kept.marked hmarked)
      | some marker =>
        dsimp only
        split
        · rename_i hsame
          obtain ⟨writer, content, hentry, hparse⟩ := hack
          rw [meets_pure, onSuccess_ok]
          have hskip := hgathered.skip name [] (.inr ⟨d, hread.kept hv.kept, writer, content,
            marker, hentry, hparse, hsame⟩)
          rw [List.append_nil] at hskip
          exact ⟨hlater, hskip⟩
        · rw [meets_pure, onSuccess_ok]
          exact ⟨hlater, hgathered.skip _ _ (.inl ⟨_, List.mem_singleton.mpr rfl, .inl rfl⟩)⟩

theorem scanManifests_meets (ht : Later format sha256 s t) (rest : List String)
    (h : Gathered format inboxDir maxFileSize issues s t names st) (hnodup : (names ++ rest).Nodup) :
    Meets (scanManifests format sha256 inboxDir me maxFileSize rest st) t (Lawful sha256)
      (OnSuccess fun st' u => Later format sha256 s u ∧
        Gathered format inboxDir maxFileSize issues s u (names ++ rest) st') := by
  induction rest generalizing t names st with
  | nil =>
    rw [scanManifests, meets_pure, onSuccess_ok, List.append_nil]
    exact ⟨ht, h⟩
  | cons name rest ih =>
    have hname : name ∉ names := fun hin =>
      (List.nodup_append.mp hnodup).2.2 name hin name List.mem_cons_self rfl
    have hassoc : names ++ name :: rest = names ++ [name] ++ rest := by
      rw [List.append_assoc, List.singleton_append]
    rw [hassoc] at hnodup ⊢
    exact Meets.bind (scanManifest_meets ht h hname) fun st' u hu => ih hu.1 hu.2 hnodup

/-- What a listing has made of the entries of the directory. -/
structure Listed (inboxDir : String) (entries : List (String × InboxFile)) (found : Listing) : Prop where
  names : found.1.Sublist (entries.map (·.1))
  manifests : ∀ name ∈ found.1, isManifestName name = true
  accounted : ∀ name writer content, (name, .regular writer content) ∈ entries →
    isManifestName name = true → name ∈ found.1 ∨ Reported inboxDir found.2 name

/-- One more entry that gives no name. -/
theorem Listed.skip {entries : List (String × InboxFile)} {found : Listing}
    (h : Listed inboxDir entries found) (name : String) (file : InboxFile) (more : List SourceIssue)
    (hfile : ∀ writer content, file = .regular writer content → isManifestName name = true →
      Reported inboxDir more name) :
    Listed inboxDir (entries ++ [(name, file)]) (found.1, found.2 ++ more) where
  names := by
    rw [List.map_append]
    exact h.names.trans (List.sublist_append_left _ _)
  manifests := h.manifests
  accounted := fun name' writer content hin hmanifest => by
    rcases List.mem_append.mp hin with hin | hin
    · exact (h.accounted name' writer content hin hmanifest).imp id Reported.append
    · rw [List.mem_singleton, Prod.mk.injEq] at hin
      obtain ⟨rfl, hregular⟩ := hin
      obtain ⟨issue, hissue, hitem⟩ := hfile writer content hregular.symm hmanifest
      exact .inr ⟨issue, List.mem_append_right _ hissue, hitem⟩

theorem listEntry_meets (ht : Later format sha256 s t) {entries : List (String × InboxFile)}
    {found : Listing} (h : Listed inboxDir entries found) (name : String) (file : InboxFile) :
    Meets (listEntry format sha256 inboxDir me found name file) t (Lawful sha256)
      (OnSuccess fun found' u => Later format sha256 s u ∧
        Listed inboxDir (entries ++ [(name, file)]) found') := by
  unfold listEntry
  refine Meets.tried (Meets.later (call_meets t) ht.sound) ?_
  rintro r u ⟨-, hu⟩
  cases r with
  | error e =>
    rw [meets_pure, onSuccess_ok]
    exact ⟨ht.trans hu, h.skip _ _ _ fun _ _ _ _ => ⟨_, List.mem_singleton.mpr rfl, .inr rfl⟩⟩
  | ok _ =>
    refine Meets.tried (Meets.later (call_meets u) hu.sound) ?_
    rintro r v ⟨-, hv⟩
    have hlater := (ht.trans hu).trans hv
    cases r with
    | error e =>
      rw [meets_pure, onSuccess_ok]
      exact ⟨hlater, h.skip _ _ _ fun _ _ _ _ => ⟨_, List.mem_singleton.mpr rfl, .inl rfl⟩⟩
    | ok _ =>
      have hadd : isManifestName name = true →
          Listed inboxDir (entries ++ [(name, file)]) (found.1 ++ [name], found.2) := by
        intro hmanifest
        refine ⟨?_, fun name' hin => ?_, fun name' writer content hin hmanifest' => ?_⟩
        · rw [List.map_append]
          exact h.names.append (List.Sublist.refl _)
        · rcases List.mem_append.mp hin with hin | hin
          · exact h.manifests name' hin
          · rw [List.mem_singleton] at hin
            exact hin ▸ hmanifest
        · rcases List.mem_append.mp hin with hin | hin
          · exact (h.accounted name' writer content hin hmanifest').imp (List.mem_append_left _) id
          · rw [List.mem_singleton, Prod.mk.injEq] at hin
            exact .inl (List.mem_append_right _ (List.mem_singleton.mpr hin.1))
      have hskip : (∀ writer content, file = .regular writer content → isManifestName name = false) →
          Listed inboxDir (entries ++ [(name, file)]) found := by
        intro hno
        have hskip := h.skip name file [] fun writer content hfile hmanifest =>
          absurd ((hno writer content hfile).symm.trans hmanifest) Bool.false_ne_true
        rwa [List.append_nil] at hskip
      cases hmanifest : isManifestName name with
      | false =>
        cases file <;> exact meets_pure.mpr (onSuccess_ok.mpr ⟨hlater, hskip fun _ _ _ => hmanifest⟩)
      | true =>
        cases file with
        | regular | temporary => exact meets_pure.mpr (onSuccess_ok.mpr ⟨hlater, hadd hmanifest⟩)
        | link => exact meets_pure.mpr (onSuccess_ok.mpr ⟨hlater, h.skip _ _ _ nofun⟩)
        | other => exact meets_pure.mpr (onSuccess_ok.mpr ⟨hlater, hskip nofun⟩)

theorem listEntries_meets (ht : Later format sha256 s t) {entries : List (String × InboxFile)}
    {found : Listing} (h : Listed inboxDir entries found) (rest : List (String × InboxFile)) :
    Meets (listEntries format sha256 inboxDir me rest found) t (Lawful sha256)
      (OnSuccess fun found' u => Later format sha256 s u ∧
        Listed inboxDir (entries ++ rest) found') := by
  induction rest generalizing t entries found with
  | nil =>
    rw [listEntries, meets_pure, onSuccess_ok, List.append_nil]
    exact ⟨ht, h⟩
  | cons entry rest ih =>
    have hassoc : entries ++ entry :: rest = entries ++ [entry] ++ rest := by
      rw [List.append_assoc, List.singleton_append]
    rw [hassoc]
    exact Meets.bind (listEntry_meets ht h entry.1 entry.2) fun found' u hu => ih hu.1 hu.2

/-- The entries of the inbox directory as they are listed. -/
theorem mem_listing {name : String} {file : InboxFile} :
    (name, file) ∈ s.files.entries.map (fun entry => (entry.1, entry.2)) ↔
      s.entry .inbox name = some file := by
  rw [show s.entry .inbox name = s.files.lookup name from rfl, ← Option.mem_def, AList.mem_lookup_iff,
    List.mem_map]
  constructor
  · rintro ⟨⟨name', file'⟩, hin, heq⟩
    cases heq
    exact hin
  · intro hin
    exact ⟨⟨name, file⟩, hin, rfl⟩

theorem scanOrder_iff {a b : Delivery} : HttpSource.scanOrder a b = true ↔
    toLex (a.createdAtUnix.getD 0, a.id) ≤ toLex (b.createdAtUnix.getD 0, b.id) := by
  rw [Prod.Lex.toLex_le_toLex, HttpSource.scanOrder, Bool.or_eq_true, Bool.and_eq_true, beq_iff_eq,
    decide_eq_true_eq, decide_eq_true_eq]

instance : Std.Total fun a b : Delivery => HttpSource.scanOrder a b = true :=
  ⟨fun a b => by
    rw [scanOrder_iff, scanOrder_iff]
    exact le_total _ _⟩

instance : IsTrans Delivery fun a b => HttpSource.scanOrder a b = true :=
  ⟨fun a b c => by
    rw [scanOrder_iff, scanOrder_iff, scanOrder_iff]
    exact le_trans⟩

/-- What a scan that began in the first state has answered. -/
structure Scanned (format : InboxFormat) (inboxDir : String) (maxFileSize : Nat) (s t : Inbox)
    (scan : SourceScan) : Prop where
  ordered : scan.deliveries.Pairwise fun a b => HttpSource.scanOrder a b = true
  once : (scan.deliveries.map (·.id)).Nodup
  listed : ∀ d ∈ scan.deliveries, ∃ name, isManifestName name = true ∧
    ManifestRead format t maxFileSize name d ∧ ¬s.Marked d.id
  complete : ∀ name writer content, s.entry .inbox name = some (.regular writer content) →
    isManifestName name = true → Reported inboxDir scan.issues name ∨
      ∃ d, ManifestRead format t maxFileSize name d ∧ (Acknowledged format t d.id d.sha256 ∨
        d ∈ scan.deliveries ∨ ∃ name' d', isManifestName name' = true ∧ name' ≠ name ∧
          ManifestRead format t maxFileSize name' d' ∧ d'.id = d.id)

theorem Gathered.scanned (h : Gathered format inboxDir maxFileSize issues s t names st)
    (hnames : ∀ name ∈ names, isManifestName name = true)
    (hall : ∀ name writer content, s.entry .inbox name = some (.regular writer content) →
      isManifestName name = true → name ∈ names ∨ Reported inboxDir st.issues name) :
    Scanned format inboxDir maxFileSize s t st.scan where
  ordered := List.pairwise_insertionSort _ _
  once := by
    refine ((List.perm_insertionSort _ _).map _).nodup_iff.mpr ?_
    refine List.Nodup.sublist (List.filter_sublist.map _) ?_
    rw [List.map_map]
    exact h.once
  listed := fun d hd => by
    have hin := List.mem_filter.mp ((List.mem_insertionSort _).mp hd)
    obtain ⟨entry, hentry, rfl⟩ := List.mem_map.mp hin.1
    obtain ⟨hname, hread, hunmarked⟩ := h.found entry hentry
    exact ⟨entry.1, hnames _ hname, hread, hunmarked⟩
  complete := fun name writer content hentry hmanifest => by
    rcases hall name writer content hentry hmanifest with hname | hissue
    · rcases h.accounted name hname with hissue | ⟨d, hd⟩ | ⟨d, hread, hack⟩
      · exact .inl hissue
      · refine .inr ⟨d, (h.found _ hd).2.1, .inr ?_⟩
        by_cases hconflict : d.id ∈ st.conflicts
        · right
          obtain ⟨name₁, hname₁, name₂, hname₂, hne, d₁, d₂, hread₁, hread₂, hid₁, hid₂⟩ :=
            h.conflicts _ hconflict
          by_cases hsame : name₁ = name
          · exact ⟨name₂, d₂, hnames _ hname₂, fun heq => hne (hsame.trans heq.symm), hread₂, hid₂⟩
          · exact ⟨name₁, d₁, hnames _ hname₁, hsame, hread₁, hid₁⟩
        · left
          refine (List.mem_insertionSort _).mpr (List.mem_filter.mpr ⟨?_, by simpa using hconflict⟩)
          exact List.mem_map.mpr ⟨_, hd, rfl⟩
      · exact .inr ⟨d, hread, .inl hack⟩
    · exact .inl hissue

theorem scanPending_meets (hs : Sound format sha256 s) (maxFileSize : Nat) :
    Meets (scanPending format sha256 inboxDir me maxFileSize) s (Lawful sha256)
      (OnSuccess fun scan t => Later format sha256 s t ∧
        Scanned format inboxDir maxFileSize s t scan) := by
  unfold scanPending
  refine Meets.afterCall hs fun u hu => Meets.afterCallIn hu.sound fun v hv => Meets.read ?_
  have hlater := hu.trans hv
  have hstart : Listed inboxDir [] ([], []) := ⟨List.Sublist.refl _, nofun, nofun⟩
  refine Meets.bind (listEntries_meets hlater hstart _) fun found w hw => ?_
  obtain ⟨hw, hfound⟩ := hw
  rw [List.nil_append] at hfound
  have hperm := List.perm_insertionSort (fun a b : String => a ≤ b) found.1
  have hkeys : ((v.files.entries.map fun entry => (entry.1, entry.2)).map (·.1)).Nodup := by
    rw [List.map_map]
    exact v.files.nodupKeys
  have hnodup : (found.1.insertionSort fun a b : String => a ≤ b).Nodup :=
    hperm.nodup_iff.mpr (hkeys.sublist hfound.names)
  refine Meets.bind (scanManifests_meets hw _ Gathered.start hnodup) fun st x hx => ?_
  rw [List.nil_append] at hx
  rw [meets_pure, onSuccess_ok]
  refine ⟨hx.1, hx.2.scanned (fun name hname => ?_) fun name writer content hentry hmanifest => ?_⟩
  · exact hfound.manifests name (hperm.mem_iff.mp hname)
  · have hin := mem_listing.mpr (hlater.kept.file _ _ _ _ hentry)
    rcases hfound.accounted name writer content hin hmanifest with hname | ⟨issue, hissue, hitem⟩
    · exact .inl (hperm.mem_iff.mpr hname)
    · exact .inr ⟨issue, hx.2.listing issue hissue, hitem⟩

end Scan

end FilesystemSource

end MiRelay
