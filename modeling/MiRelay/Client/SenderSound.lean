import MiRelay.Client.Sender

/-!
# What the steps of a sender keep

The version of a job in memory is one that the ledger on disk does not count
yet, or the job is on disk itself. Hence the versions on disk rise from job to
job, whatever was lost in between. The payload of a job stays until no ledger
holds the job.
-/

namespace MiRelay

namespace SenderState

variable {sha256 : Bytes → String} {c c' : SenderState}

/-- A ledger of the state directory or of the open sender. -/
def Holds (c : SenderState) (l : SenderLedger) : Prop := c.disk = some l ∨ c.memory = some l

/-- A job that may still be uploaded. -/
def Live (c : SenderState) (job : SenderJob) : Prop := ∃ l, c.Holds l ∧ job ∈ l.pending

/-- Every version of the newest state lies below a version. -/
def NewestBelow (reports : List DirectoryState) (version : Nat) : Prop :=
  ∃ newest rest, reports = newest :: rest ∧ newest.topVersion < version

/-- What a ledger says by itself. -/
structure LedgerSound (c : SenderState) (l : SenderLedger) : Prop where
  below : ∀ job ∈ l.pending, job.version < l.nextVersion
  ordered : l.pending.Pairwise fun a b => a.version < b.version
  untouched : l.initialized = false → c.assigned = [] ∧ l.nextVersion = 1 ∧ l.pending = []
  files : ∀ p d, l.files.lookup p = some d →
    (p, d) ∈ c.baseline ∨ ∃ job ∈ c.delivered, job.entry.path = p ∧ job.entry.sha256 = d

/-- What the ledger in memory says beside the one on disk. -/
structure AheadOf (c : SenderState) (m : SenderLedger) : Prop where
  ahead : ∀ l, c.disk = some l → l.nextVersion ≤ m.nextVersion
  aligned : ∀ l, c.disk = some l → m.initialized = false → l.initialized = false
  fresh : ∀ job ∈ m.pending, job ∈ c.assigned ∨ ∀ l, c.disk = some l → l.nextVersion ≤ job.version

structure Sound (sha256 : Bytes → String) (c : SenderState) : Prop where
  ledgers : ∀ l, c.Holds l → c.LedgerSound l
  memory : ∀ m, c.memory = some m → c.AheadOf m
  recorded : ∀ l, c.disk = some l → ∀ job ∈ l.pending, job ∈ c.assigned
  assigned : ∀ job ∈ c.assigned, ∃ l, c.disk = some l ∧ job.version < l.nextVersion
  increasing : c.assigned.Pairwise fun later earlier => earlier.version < later.version
  exceeds : ∀ d ∈ c.drawn, NewestBelow d.2 d.1.version
  payload : ∀ job, c.Live job → (c.payloads.lookup job.id).isSome = true
  ids : ∀ j k, c.Live j → c.Live k → j.id = k.id → j = k
  delivered : ∀ job ∈ c.delivered, ∃ bytes, (job, bytes) ∈ c.uploads
  digests : ∀ u ∈ c.uploads, sha256 u.2 = u.1.entry.sha256

/-- What the procedures never do. -/
def Permitted (sha256 : Bytes → String) (c : SenderState) : SenderStep → Prop
  | .loaded l => c.disk = some l ∨ c.disk = none ∧ ∃ binding, l = .new binding
  | .floor _ => ∃ m, c.memory = some m ∧ m.initialized = true
  | .initialized next _ => 0 < next ∧ ∃ m, c.memory = some m ∧ m.initialized = false
  | .assign job => (∃ m, c.memory = some m ∧ m.initialized = true ∧ job.version = m.nextVersion) ∧
      NewestBelow c.reports job.version ∧ (c.payloads.lookup job.id).isSome = true ∧
      ∀ k, c.Live k → k.id ≠ job.id
  | .staged id _ => c.payloads.lookup id = none
  | .unstaged id => ∀ k, c.Live k → k.id ≠ id
  | .upload job bytes => (∃ m, c.memory = some m ∧ job ∈ m.pending) ∧
      c.payloads.lookup job.id = some bytes ∧ sha256 bytes = job.entry.sha256
  | .delivered job => ∃ m rest, c.memory = some m ∧ m.pending = job :: rest ∧
      ∃ bytes, (job, bytes) ∈ c.uploads
  | _ => True

theorem sound_initial (answers : Nat → SenderAnswer) :
    Sound sha256 (SenderSession.initial answers).core where
  ledgers l h := by rcases h with h | h <;> cases h
  memory m h := by cases h
  recorded l h := by cases h
  assigned job h := absurd h List.not_mem_nil
  increasing := List.Pairwise.nil
  exceeds d h := absurd h List.not_mem_nil
  payload job h := by obtain ⟨l, h | h, -⟩ := h <;> cases h
  ids j k h := by obtain ⟨l, h | h, -⟩ := h <;> cases h
  delivered job h := absurd h List.not_mem_nil
  digests u h := absurd h List.not_mem_nil

/-- The ledgers and the recorded jobs of two states are the same. -/
structure SameLedgers (c c' : SenderState) : Prop where
  disk : c'.disk = c.disk
  memory : c'.memory = c.memory
  assigned : c'.assigned = c.assigned
  drawn : c'.drawn = c.drawn
  baseline : c'.baseline = c.baseline
  delivered : c'.delivered = c.delivered

theorem SameLedgers.live (h : SameLedgers c c') {job : SenderJob} (hlive : c'.Live job) :
    c.Live job := by
  obtain ⟨l, hl, hjob⟩ := hlive
  rw [Holds, h.disk, h.memory] at hl
  exact ⟨l, hl, hjob⟩

/-- A step that leaves the ledgers. -/
theorem Sound.of_same (h : Sound sha256 c) (hsame : SameLedgers c c')
    (hpayload : ∀ k, c.Live k → (c'.payloads.lookup k.id).isSome = true)
    (huploads : ∀ u ∈ c.uploads, u ∈ c'.uploads)
    (hdigests : ∀ u ∈ c'.uploads, u ∈ c.uploads ∨ sha256 u.2 = u.1.entry.sha256) :
    Sound sha256 c' where
  ledgers l hl := by
    rw [Holds, hsame.disk, hsame.memory] at hl
    obtain ⟨hbelow, hordered, huntouched, hfiles⟩ := h.ledgers l hl
    refine ⟨hbelow, hordered, ?_, ?_⟩
    · rw [hsame.assigned]
      exact huntouched
    · rw [hsame.baseline, hsame.delivered]
      exact hfiles
  memory m hm := by
    rw [hsame.memory] at hm
    obtain ⟨hahead, haligned, hfresh⟩ := h.memory m hm
    refine ⟨?_, ?_, ?_⟩
    · rw [hsame.disk]
      exact hahead
    · rw [hsame.disk]
      exact haligned
    · rw [hsame.assigned, hsame.disk]
      exact hfresh
  recorded := by
    rw [hsame.disk, hsame.assigned]
    exact h.recorded
  assigned := by
    rw [hsame.disk, hsame.assigned]
    exact h.assigned
  increasing := by
    rw [hsame.assigned]
    exact h.increasing
  exceeds := by
    rw [hsame.drawn]
    exact h.exceeds
  payload job hjob := hpayload job (hsame.live hjob)
  ids j k hj hk := h.ids j k (hsame.live hj) (hsame.live hk)
  delivered job hjob := by
    rw [hsame.delivered] at hjob
    obtain ⟨bytes, hbytes⟩ := h.delivered job hjob
    exact ⟨bytes, huploads _ hbytes⟩
  digests u hu := (hdigests u hu).elim (h.digests u) id

/-- What one step may change when it changes only the ledger in memory. -/
structure MemoryChange (c c' : SenderState) (m : SenderLedger) : Prop where
  disk : c'.disk = c.disk
  memory : c'.memory = some m
  assigned : c'.assigned = c.assigned
  payloads : c'.payloads = c.payloads
  uploads : c'.uploads = c.uploads
  baseline : ∀ b ∈ c.baseline, b ∈ c'.baseline
  delivered : ∀ job ∈ c.delivered, job ∈ c'.delivered

theorem MemoryChange.ledger_disk {m l : SenderLedger} (h : MemoryChange c c' m)
    (hl : c.LedgerSound l) : c'.LedgerSound l where
  below := hl.below
  ordered := hl.ordered
  untouched := by
    rw [h.assigned]
    exact hl.untouched
  files p d hd := (hl.files p d hd).imp (h.baseline _) fun ⟨job, hjob, hentry⟩ =>
    ⟨job, h.delivered job hjob, hentry⟩

/-- A step that replaces the ledger in memory. -/
theorem Sound.of_memory {m : SenderLedger} (h : Sound sha256 c) (hchange : MemoryChange c c' m)
    (hledger : c'.LedgerSound m) (hahead : c.AheadOf m)
    (hexceeds : ∀ d ∈ c'.drawn, NewestBelow d.2 d.1.version)
    (hpayload : ∀ j ∈ m.pending, (c.payloads.lookup j.id).isSome = true)
    (hids : ∀ j ∈ m.pending, ∀ k, c.Live k ∨ k ∈ m.pending → j.id = k.id → j = k)
    (hdelivered : ∀ job ∈ c'.delivered, ∃ bytes, (job, bytes) ∈ c.uploads) :
    Sound sha256 c' := by
  have hlive : ∀ j, c'.Live j → c.Live j ∨ j ∈ m.pending := by
    rintro j ⟨l, hl, hj⟩
    rw [Holds, hchange.disk, hchange.memory] at hl
    rcases hl with hdisk | hmem
    · exact .inl ⟨l, .inl hdisk, hj⟩
    · cases Option.some.inj hmem
      exact .inr hj
  refine ⟨fun l hl => ?_, fun m' hm' => ?_, ?_, ?_, ?_, hexceeds, fun j hj => ?_,
    fun j k hj hk hid => ?_, fun job hjob => ?_, ?_⟩
  · rw [Holds, hchange.disk, hchange.memory] at hl
    rcases hl with hdisk | hmem
    · exact hchange.ledger_disk (h.ledgers l (.inl hdisk))
    · cases Option.some.inj hmem
      exact hledger
  · rw [hchange.memory] at hm'
    cases Option.some.inj hm'
    refine ⟨?_, ?_, ?_⟩
    · rw [hchange.disk]
      exact hahead.ahead
    · rw [hchange.disk]
      exact hahead.aligned
    · rw [hchange.disk, hchange.assigned]
      exact hahead.fresh
  · rw [hchange.disk, hchange.assigned]
    exact h.recorded
  · rw [hchange.disk, hchange.assigned]
    exact h.assigned
  · rw [hchange.assigned]
    exact h.increasing
  · rw [hchange.payloads]
    exact (hlive j hj).elim (h.payload j) (hpayload j)
  · rcases hlive j hj with hj' | hj'
    · rcases hlive k hk with hk' | hk'
      · exact h.ids j k hj' hk' hid
      · exact (hids k hk' j (.inl hj') hid.symm).symm
    · exact hids j hj' k (hlive k hk) hid
  · rw [hchange.uploads]
    exact hdelivered job hjob
  · rw [hchange.uploads]
    exact h.digests

/-- The jobs of a ledger that is held are apart and have their payloads. -/
theorem Sound.ids_of_subset {m : SenderLedger} (h : Sound sha256 c)
    (hlive : ∀ j ∈ m.pending, c.Live j) :
    ∀ j ∈ m.pending, ∀ k, c.Live k ∨ k ∈ m.pending → j.id = k.id → j = k :=
  fun j hj k hk hid => h.ids j k (hlive j hj) (hk.elim id (hlive k)) hid

theorem Sound.live_payload {m : SenderLedger} (h : Sound sha256 c)
    (hlive : ∀ j ∈ m.pending, c.Live j) : ∀ j ∈ m.pending, (c.payloads.lookup j.id).isSome = true :=
  fun j hj => h.payload j (hlive j hj)

/-! ### The steps -/

/-- The sender is dropped. -/
theorem Sound.closed (h : Sound sha256 c) : Sound sha256 (c.apply .closed) := by
  have hlive : ∀ j, (c.apply .closed).Live j → c.Live j := by
    rintro j ⟨l, hl | hl, hj⟩
    · exact ⟨l, .inl hl, hj⟩
    · cases hl
  refine ⟨fun l hl => ?_, fun m hm => (by cases hm), h.recorded, h.assigned, h.increasing, h.exceeds,
    fun j hj => h.payload j (hlive j hj), fun j k hj hk => h.ids j k (hlive j hj) (hlive k hk),
    h.delivered, h.digests⟩
  rcases hl with hl | hl
  · obtain ⟨hbelow, hordered, huntouched, hfiles⟩ := h.ledgers l (.inl hl)
    exact ⟨hbelow, hordered, huntouched, hfiles⟩
  · cases hl

/-- Without a ledger on disk nothing was recorded. -/
theorem Sound.assigned_of_none (h : Sound sha256 c) (hdisk : c.disk = none) : c.assigned = [] := by
  refine List.eq_nil_iff_forall_not_mem.mpr fun job hjob => ?_
  obtain ⟨l, hl, -⟩ := h.assigned job hjob
  rw [hdisk] at hl
  contradiction

/-- A ledger is loaded, or begun. -/
theorem Sound.loaded {l : SenderLedger} (h : Sound sha256 c)
    (hl : c.disk = some l ∨ c.disk = none ∧ ∃ binding, l = .new binding) :
    Sound sha256 (c.apply (.loaded l)) := by
  have hchange : MemoryChange c (c.apply (.loaded l)) l :=
    ⟨rfl, rfl, rfl, rfl, rfl, fun _ hb => hb, fun _ hj => hj⟩
  rcases hl with hdisk | ⟨hdisk, binding, rfl⟩
  · have hlive : ∀ j ∈ l.pending, c.Live j := fun j hj => ⟨l, .inl hdisk, hj⟩
    refine h.of_memory hchange (hchange.ledger_disk (h.ledgers l (.inl hdisk)))
      ⟨fun l' hl' => ?_, fun l' hl' hfalse => ?_, fun j hj => .inl (h.recorded l hdisk j hj)⟩ h.exceeds
      (h.live_payload hlive) (h.ids_of_subset hlive) h.delivered
    · cases Option.some.inj (hdisk.symm.trans hl')
      exact le_rfl
    · cases Option.some.inj (hdisk.symm.trans hl')
      exact hfalse
  · have hnone : ∀ l', c.disk ≠ some l' := fun l' hl' => by
      rw [hdisk] at hl'
      contradiction
    refine h.of_memory hchange ⟨fun j hj => ?_, List.Pairwise.nil, fun _ => ?_, fun p d hd => ?_⟩
      ⟨fun l' hl' => absurd hl' (hnone l'), fun l' hl' => absurd hl' (hnone l'), fun j hj => ?_⟩
      h.exceeds (fun j hj => ?_) (fun j hj => ?_) h.delivered
    · exact absurd hj List.not_mem_nil
    · exact ⟨h.assigned_of_none hdisk, rfl, rfl⟩
    · cases hd
    · exact absurd hj List.not_mem_nil
    · exact absurd hj List.not_mem_nil
    · exact absurd hj List.not_mem_nil

/-- The names and values of a map built from a list are those of the list. -/
theorem mem_of_lookup_insertAll {α : Type} {key value : α → String} {l : List α} {m : Files String String}
    {k b : String} (h : (m.insertAll key value l).lookup k = some b) :
    (∃ a ∈ l, key a = k ∧ value a = b) ∨ m.lookup k = some b := by
  induction l generalizing m with
  | nil => exact .inr h
  | cons a l ih =>
    rcases ih h with ⟨a', ha', hk, hb⟩ | hm
    · exact .inl ⟨a', List.mem_cons_of_mem _ ha', hk, hb⟩
    · rw [Files.lookup_insert] at hm
      split at hm
      · rename_i hkey
        exact .inl ⟨a, List.mem_cons_self, hkey.symm, Option.some.inj hm⟩
      · exact .inr hm

/-- The baseline is confirmed. -/
theorem Sound.initialized {next : Nat} {identical : List InventoryEntry} (h : Sound sha256 c)
    (hnext : 0 < next) {m : SenderLedger} (hm : c.memory = some m) (hfalse : m.initialized = false) :
    Sound sha256 (c.apply (.initialized next identical)) := by
  obtain ⟨hassigned, hone, hnil⟩ := (h.ledgers m (.inr hm)).untouched hfalse
  have hold := h.memory m hm
  have hchange : MemoryChange c (c.apply (.initialized next identical)) { m with
      initialized := true
      nextVersion := next
      files := Files.insertAll ∅ (·.path) (·.sha256) identical } :=
    ⟨rfl, by simp only [SenderState.apply, hm, Option.map_some], rfl, rfl, rfl,
      fun _ hb => List.mem_append_right _ hb, fun _ hj => hj⟩
  have hempty : ∀ j, j ∉ m.pending := fun j hj => by
    rw [hnil] at hj
    exact absurd hj List.not_mem_nil
  refine h.of_memory hchange ⟨fun j hj => absurd hj (hempty j), ?_, fun htrue => ?_, fun p d hd => ?_⟩
    ⟨fun l hl => ?_, fun l hl htrue => ?_, fun j hj => absurd hj (hempty j)⟩ h.exceeds
    (fun j hj => absurd hj (hempty j)) (fun j hj => absurd hj (hempty j)) h.delivered
  · show m.pending.Pairwise _
    rw [hnil]
    exact List.Pairwise.nil
  · exact absurd htrue Bool.noConfusion
  · rcases mem_of_lookup_insertAll hd with ⟨e, he, rfl, rfl⟩ | hnone
    · exact .inl (List.mem_append_left _ (List.mem_map_of_mem he))
    · cases hnone
  · have hl1 := ((h.ledgers l (.inl hl)).untouched (hold.aligned l hl hfalse)).2.1
    rw [hl1]
    exact hnext
  · exact absurd htrue Bool.noConfusion

/-- A higher remote floor is adopted. -/
theorem Sound.floor {next : Nat} (h : Sound sha256 c) {m : SenderLedger} (hm : c.memory = some m)
    (htrue : m.initialized = true) : Sound sha256 (c.apply (.floor next)) := by
  have hold := h.memory m hm
  have hledger := h.ledgers m (.inr hm)
  have hchange : MemoryChange c (c.apply (.floor next)) { m with
      nextVersion := max m.nextVersion next } :=
    ⟨rfl, by simp only [SenderState.apply, hm, Option.map_some], rfl, rfl, rfl, fun _ hb => hb,
      fun _ hj => hj⟩
  have hlive : ∀ j ∈ m.pending, c.Live j := fun j hj => ⟨m, .inr hm, hj⟩
  refine h.of_memory hchange ⟨fun j hj => ?_, hledger.ordered, fun hfalse => ?_, hledger.files⟩
    ⟨fun l hl => ?_, fun l hl hfalse => ?_, hold.fresh⟩ h.exceeds (h.live_payload hlive)
    (h.ids_of_subset hlive) h.delivered
  · exact (hledger.below j hj).trans_le (le_max_left _ _)
  · exact absurd (htrue.symm.trans hfalse) Bool.noConfusion
  · exact (hold.ahead l hl).trans (le_max_left _ _)
  · exact absurd (htrue.symm.trans hfalse) Bool.noConfusion

/-- A job gets the next version. -/
theorem Sound.assign {job : SenderJob} (h : Sound sha256 c) {m : SenderLedger}
    (hm : c.memory = some m) (htrue : m.initialized = true) (hversion : job.version = m.nextVersion)
    (hbelow : NewestBelow c.reports job.version)
    (hpayload : (c.payloads.lookup job.id).isSome = true) (hid : ∀ k, c.Live k → k.id ≠ job.id) :
    Sound sha256 (c.apply (.assign job)) := by
  have hold := h.memory m hm
  have hledger := h.ledgers m (.inr hm)
  have hchange : MemoryChange c (c.apply (.assign job)) { m with
      nextVersion := m.nextVersion + 1, pending := m.pending ++ [job] } :=
    ⟨rfl, by simp only [SenderState.apply, hm, Option.map_some], rfl, rfl, rfl, fun _ hb => hb,
      fun _ hj => hj⟩
  have hcases : ∀ j ∈ m.pending ++ [job], c.Live j ∨ j = job := fun j hj => by
    rcases List.mem_append.mp hj with hin | hnew
    · exact .inl ⟨m, .inr hm, hin⟩
    · exact .inr (List.mem_singleton.mp hnew)
  refine h.of_memory hchange ⟨fun j hj => ?_, ?_, fun hfalse => ?_, hledger.files⟩
    ⟨fun l hl => ?_, fun l hl hfalse => ?_, fun j hj => ?_⟩ (fun d hd => ?_) (fun j hj => ?_)
    (fun j hj k hk hsame => ?_) h.delivered
  · show j.version < m.nextVersion + 1
    rcases List.mem_append.mp hj with hin | hnew
    · exact (hledger.below j hin).trans (Nat.lt_succ_self _)
    · rw [List.mem_singleton.mp hnew, hversion]
      exact Nat.lt_succ_self _
  · refine List.pairwise_append.mpr ⟨hledger.ordered, List.pairwise_singleton _ _, ?_⟩
    intro j hj k hk
    rw [List.mem_singleton.mp hk, hversion]
    exact hledger.below j hj
  · exact absurd (htrue.symm.trans hfalse) Bool.noConfusion
  · exact (hold.ahead l hl).trans (Nat.le_succ _)
  · exact absurd (htrue.symm.trans hfalse) Bool.noConfusion
  · rcases List.mem_append.mp hj with hin | hnew
    · exact hold.fresh j hin
    · rw [List.mem_singleton.mp hnew, hversion]
      exact .inr fun l hl => hold.ahead l hl
  · rcases List.mem_cons.mp hd with rfl | hin
    · exact hbelow
    · exact h.exceeds d hin
  · rcases hcases j hj with hlive | rfl
    · exact h.payload j hlive
    · exact hpayload
  · have hk' : c.Live k ∨ k = job := hk.elim .inl (hcases k)
    rcases hcases j hj with hj' | rfl
    · rcases hk' with hk' | rfl
      · exact h.ids j k hj' hk' hsame
      · exact absurd hsame (hid j hj')
    · rcases hk' with hk' | rfl
      · exact absurd hsame.symm (hid k hk')
      · rfl

/-- A job was uploaded to its end. -/
theorem Sound.deliver {job : SenderJob} {rest : List SenderJob} (h : Sound sha256 c)
    {m : SenderLedger} (hm : c.memory = some m) (hpending : m.pending = job :: rest)
    (hupload : ∃ bytes, (job, bytes) ∈ c.uploads) : Sound sha256 (c.apply (.delivered job)) := by
  have hold := h.memory m hm
  have hledger := h.ledgers m (.inr hm)
  have hchange : MemoryChange c (c.apply (.delivered job)) { m with
      files := m.files.insert job.entry.path job.entry.sha256, pending := m.pending.tail } :=
    ⟨rfl, by simp only [SenderState.apply, hm, Option.map_some], rfl, rfl, rfl, fun _ hb => hb,
      fun _ hj => List.mem_cons_of_mem _ hj⟩
  have hsub : ∀ j ∈ m.pending.tail, j ∈ m.pending := fun j hj => List.mem_of_mem_tail hj
  have hlive : ∀ j ∈ m.pending.tail, c.Live j := fun j hj => ⟨m, .inr hm, hsub j hj⟩
  refine h.of_memory hchange ⟨fun j hj => hledger.below j (hsub j hj), hledger.ordered.tail,
    fun hfalse => ?_, fun p d hd => ?_⟩
    ⟨hold.ahead, hold.aligned, fun j hj => hold.fresh j (hsub j hj)⟩ h.exceeds
    (fun j hj => h.payload j (hlive j hj))
    (fun j hj k hk hid => h.ids j k (hlive j hj) (hk.elim id (hlive k)) hid) (fun j hj => ?_)
  · have hnil := (hledger.untouched hfalse).2.2
    rw [hpending] at hnil
    contradiction
  · change (m.files.insert job.entry.path job.entry.sha256).lookup p = some d at hd
    rw [Files.lookup_insert] at hd
    split at hd
    · rename_i hp
      exact .inr ⟨job, List.mem_cons_self, hp.symm, Option.some.inj hd⟩
    · exact (hledger.files p d hd).imp id fun ⟨j, hj, hentry⟩ =>
        ⟨j, List.mem_cons_of_mem _ hj, hentry⟩
  · rcases List.mem_cons.mp hj with rfl | hin
    · exact hupload
    · exact h.delivered j hin

/-- The ledger in memory is saved. -/
theorem Sound.persist (h : Sound sha256 c) : Sound sha256 (c.apply .persist) := by
  cases hm : c.memory with
  | none =>
    simp only [SenderState.apply, hm]
    exact h
  | some m =>
    have hold := h.memory m hm
    have hledger := h.ledgers m (.inr hm)
    have happly : c.apply .persist = { c with
        disk := some m
        assigned := (m.pending.filter (· ∉ c.assigned)).reverse ++ c.assigned } := by
      simp only [SenderState.apply, hm]
    have hrecorded : ∀ j ∈ m.pending,
        j ∈ (m.pending.filter (· ∉ c.assigned)).reverse ++ c.assigned := fun j hj => by
      by_cases hin : j ∈ c.assigned
      · exact List.mem_append_right _ hin
      · exact List.mem_append_left _ (List.mem_reverse.mpr
          (List.mem_filter.mpr ⟨hj, decide_eq_true hin⟩))
    have hheld : ∀ l, (c.apply .persist).Holds l → l = m := fun l hl => by
      rw [happly] at hl
      rcases hl with hl | hl
      · exact (Option.some.inj hl).symm
      · exact Option.some.inj (hl.symm.trans hm)
    have hlive : ∀ j, (c.apply .persist).Live j → c.Live j := by
      rintro j ⟨l, hl, hj⟩
      exact ⟨m, .inr hm, hheld l hl ▸ hj⟩
    rw [happly] at hheld hlive ⊢
    refine ⟨fun l hl => ?_, fun m' hm' => ?_, fun l hl j hj => ?_, fun j hj => ?_, ?_, h.exceeds,
      fun j hj => h.payload j (hlive j hj), fun j k hj hk => h.ids j k (hlive j hj) (hlive k hk),
      h.delivered, h.digests⟩
    · cases hheld l hl
      refine ⟨hledger.below, hledger.ordered, fun hfalse => ?_, hledger.files⟩
      obtain ⟨hassigned, hone, hnil⟩ := hledger.untouched hfalse
      exact ⟨by simp only [hassigned, hnil, List.filter_nil, List.reverse_nil, List.append_nil], hone,
        hnil⟩
    · cases hheld m' (.inr hm')
      refine ⟨fun l hl => ?_, fun l hl hfalse => ?_, fun j hj => .inl (hrecorded j hj)⟩
      · cases hheld l (.inl hl)
        exact le_rfl
      · cases hheld l (.inl hl)
        exact hfalse
    · cases hheld l (.inl hl)
      exact hrecorded j hj
    · refine ⟨m, rfl, ?_⟩
      rcases List.mem_append.mp hj with hnew | hin
      · exact hledger.below j (List.mem_filter.mp (List.mem_reverse.mp hnew)).1
      · obtain ⟨l, hl, hlt⟩ := h.assigned j hin
        exact hlt.trans_le (hold.ahead l hl)
    · refine List.pairwise_append.mpr ⟨List.pairwise_reverse.mpr (hledger.ordered.filter _),
        h.increasing, ?_⟩
      intro later hlater earlier hearlier
      obtain ⟨hin, hnew⟩ := List.mem_filter.mp (List.mem_reverse.mp hlater)
      obtain ⟨l, hl, hlt⟩ := h.assigned earlier hearlier
      exact hlt.trans_le (((hold.fresh later hin).resolve_left (of_decide_eq_true hnew)) l hl)

/-- One permitted step. -/
theorem Sound.apply {e : SenderStep} (h : Sound sha256 c) (he : c.Permitted sha256 e) :
    Sound sha256 (c.apply e) := by
  cases e with
  | answered => exact h
  | closed => exact h.closed
  | loaded l => exact h.loaded he
  | scanned entries =>
    exact h.of_same ⟨rfl, rfl, rfl, rfl, rfl, rfl⟩ h.payload (fun _ hu => hu) fun _ hu => .inl hu
  | reported state =>
    exact h.of_same ⟨rfl, rfl, rfl, rfl, rfl, rfl⟩ h.payload (fun _ hu => hu) fun _ hu => .inl hu
  | initialized next identical =>
    obtain ⟨hnext, m, hm, hfalse⟩ := he
    exact h.initialized hnext hm hfalse
  | floor next =>
    obtain ⟨m, hm, htrue⟩ := he
    exact h.floor hm htrue
  | staged id bytes =>
    refine h.of_same ⟨rfl, rfl, rfl, rfl, rfl, rfl⟩ (fun k hk => ?_) (fun _ hu => hu)
      fun _ hu => .inl hu
    show ((c.payloads.insert id bytes).lookup k.id).isSome = true
    rw [Files.lookup_insert]
    split
    · rfl
    · exact h.payload k hk
  | assign job =>
    obtain ⟨⟨m, hm, htrue, hversion⟩, hbelow, hpayload, hid⟩ := he
    exact h.assign hm htrue hversion hbelow hpayload hid
  | persist => exact h.persist
  | upload job bytes =>
    refine h.of_same ⟨rfl, rfl, rfl, rfl, rfl, rfl⟩ h.payload
      (fun _ hu => List.mem_cons_of_mem _ hu) fun u hu => ?_
    rcases List.mem_cons.mp hu with rfl | hin
    · exact .inr he.2.2
    · exact .inl hin
  | delivered job =>
    obtain ⟨m, rest, hm, hpending, hupload⟩ := he
    exact h.deliver hm hpending hupload
  | unstaged id =>
    refine h.of_same ⟨rfl, rfl, rfl, rfl, rfl, rfl⟩ (fun k hk => ?_) (fun _ hu => hu)
      fun _ hu => .inl hu
    show ((c.payloads.erase id).lookup k.id).isSome = true
    rw [Files.lookup_erase, if_neg (he k hk)]
    exact h.payload k hk

/-! ### The uploads -/

/-- An upload begins only for a job that the ledger on disk counts. -/
def Counted (c : SenderState) : SenderStep → Prop
  | .upload job _ => ∃ l, c.disk = some l ∧ job.version < l.nextVersion
  | _ => True

/-- What is uploaded is recorded and stays the same. -/
structure UploadsSound (c : SenderState) : Prop where
  recorded : ∀ u ∈ c.uploads, u.1 ∈ c.assigned
  kept : ∀ u ∈ c.uploads, c.Live u.1 → c.payloads.lookup u.1.id = some u.2
  same : ∀ u ∈ c.uploads, ∀ v ∈ c.uploads, u.1 = v.1 → u.2 = v.2

/-- Only a new job becomes live. -/
theorem live_apply {e : SenderStep} (he : c.Permitted sha256 e) {j : SenderJob}
    (hj : (c.apply e).Live j) : c.Live j ∨ e = .assign j := by
  cases e with
  | answered | scanned | reported | staged | upload | unstaged => exact .inl hj
  | closed =>
    obtain ⟨l, hl | hl, hj⟩ := hj
    · exact .inl ⟨l, .inl hl, hj⟩
    · cases hl
  | loaded ledger =>
    obtain ⟨l, hl | hl, hj⟩ := hj
    · exact .inl ⟨l, .inl hl, hj⟩
    · cases Option.some.inj hl
      rcases he with hdisk | ⟨-, binding, rfl⟩
      · exact .inl ⟨_, .inl hdisk, hj⟩
      · exact absurd hj List.not_mem_nil
  | initialized next identical =>
    obtain ⟨l, hl | hl, hj⟩ := hj
    · exact .inl ⟨l, .inl hl, hj⟩
    · obtain ⟨m, hm, rfl⟩ := Option.map_eq_some_iff.mp hl
      exact .inl ⟨m, .inr hm, hj⟩
  | floor next =>
    obtain ⟨l, hl | hl, hj⟩ := hj
    · exact .inl ⟨l, .inl hl, hj⟩
    · obtain ⟨m, hm, rfl⟩ := Option.map_eq_some_iff.mp hl
      exact .inl ⟨m, .inr hm, hj⟩
  | assign job =>
    obtain ⟨l, hl | hl, hj⟩ := hj
    · exact .inl ⟨l, .inl hl, hj⟩
    · obtain ⟨m, hm, rfl⟩ := Option.map_eq_some_iff.mp hl
      rcases List.mem_append.mp hj with hin | hnew
      · exact .inl ⟨m, .inr hm, hin⟩
      · rw [List.mem_singleton.mp hnew]
        exact .inr rfl
  | persist =>
    cases hm : c.memory with
    | none =>
      simp only [SenderState.apply, hm] at hj
      exact .inl hj
    | some m =>
      simp only [SenderState.apply, hm] at hj
      obtain ⟨l, hl | hl, hj⟩ := hj
      · exact .inl ⟨m, .inr hm, Option.some.inj hl ▸ hj⟩
      · exact .inl ⟨m, .inr hm, Option.some.inj hl ▸ hj⟩
  | delivered job =>
    obtain ⟨l, hl | hl, hj⟩ := hj
    · exact .inl ⟨l, .inl hl, hj⟩
    · obtain ⟨m, hm, rfl⟩ := Option.map_eq_some_iff.mp hl
      exact .inl ⟨m, .inr hm, List.mem_of_mem_tail hj⟩

/-- What is on disk stays recorded, and only a live job is recorded anew. -/
theorem assigned_apply (c : SenderState) (e : SenderStep) :
    (∀ j ∈ c.assigned, j ∈ (c.apply e).assigned) ∧
      ∀ j ∈ (c.apply e).assigned, j ∈ c.assigned ∨ c.Live j := by
  cases e with
  | persist =>
    cases hm : c.memory with
    | none =>
      simp only [SenderState.apply, hm]
      exact ⟨fun _ hj => hj, fun _ hj => .inl hj⟩
    | some m =>
      simp only [SenderState.apply, hm]
      refine ⟨fun _ hj => List.mem_append_right _ hj, fun j hj => ?_⟩
      rcases List.mem_append.mp hj with hnew | hin
      · exact .inr ⟨m, .inr hm, (List.mem_filter.mp (List.mem_reverse.mp hnew)).1⟩
      · exact .inl hin
  | _ => exact ⟨fun _ hj => hj, fun _ hj => .inl hj⟩

/-- A recorded job does not become live again. -/
theorem Sound.live_of_assigned {e : SenderStep} (h : Sound sha256 c) (he : c.Permitted sha256 e)
    {j : SenderJob} (hassigned : j ∈ c.assigned) (hj : (c.apply e).Live j) : c.Live j := by
  rcases live_apply he hj with hlive | rfl
  · exact hlive
  · -- A recorded job has a version that is counted already.
    obtain ⟨⟨m, hm, -, hversion⟩, -⟩ := he
    obtain ⟨l, hl, hlt⟩ := h.assigned j hassigned
    have hle := (h.memory m hm).ahead l hl
    omega

/-- The payload of a live job stays. -/
theorem Sound.payload_apply {e : SenderStep} (h : Sound sha256 c) (he : c.Permitted sha256 e)
    {j : SenderJob} (hj : c.Live j) :
    (c.apply e).payloads.lookup j.id = c.payloads.lookup j.id := by
  cases e with
  | staged id bytes =>
    have hne : j.id ≠ id := fun heq => by
      have hsome := h.payload j hj
      rw [heq, he] at hsome
      contradiction
    exact (Files.lookup_insert ..).trans (if_neg hne)
  | unstaged id => exact (Files.lookup_erase ..).trans (if_neg (he j hj))
  | persist =>
    simp only [SenderState.apply]
    split
    · rfl
    · rfl
  | _ => rfl

/-- A step other than an upload. -/
theorem UploadsSound.of_kept {e : SenderStep} (h : c.UploadsSound) (hsound : Sound sha256 c)
    (he : c.Permitted sha256 e) (huploads : (c.apply e).uploads = c.uploads) :
    (c.apply e).UploadsSound where
  recorded u hu := (assigned_apply c e).1 _ (h.recorded u (huploads ▸ hu))
  kept u hu hlive := by
    rw [huploads] at hu
    have hold := hsound.live_of_assigned he (h.recorded u hu) hlive
    rw [hsound.payload_apply he hold]
    exact h.kept u hu hold
  same := by
    rw [huploads]
    exact h.same

theorem UploadsSound.apply {e : SenderStep} (h : c.UploadsSound) (hsound : Sound sha256 c)
    (he : c.Permitted sha256 e) (hcounted : c.Counted e) : (c.apply e).UploadsSound := by
  cases e with
  | upload job bytes =>
    obtain ⟨⟨m, hm, hjob⟩, hpayload, -⟩ := he
    obtain ⟨l, hl, hlt⟩ := hcounted
    have hlive : c.Live job := ⟨m, .inr hm, hjob⟩
    have hassigned : job ∈ c.assigned :=
      ((hsound.memory m hm).fresh job hjob).resolve_right fun hfresh => by
        have hle := hfresh l hl
        omega
    have hagain : ∀ u ∈ c.uploads, u.1 = job → u.2 = bytes := fun u hu hsame => by
      have hkept := h.kept u hu (hsame ▸ hlive)
      rw [hsame, hpayload] at hkept
      exact (Option.some.inj hkept).symm
    refine ⟨fun u hu => ?_, fun u hu hu' => ?_, fun u hu v hv hsame => ?_⟩
    · rcases List.mem_cons.mp hu with rfl | hin
      · exact hassigned
      · exact h.recorded u hin
    · rcases List.mem_cons.mp hu with rfl | hin
      · exact hpayload
      · exact h.kept u hin hu'
    · rcases List.mem_cons.mp hu with rfl | hu
      · rcases List.mem_cons.mp hv with rfl | hv
        · rfl
        · exact (hagain v hv hsame.symm).symm
      · rcases List.mem_cons.mp hv with rfl | hv
        · exact hagain u hu hsame
        · exact h.same u hu v hv hsame
  | persist =>
    refine h.of_kept hsound he ?_
    simp only [SenderState.apply]
    split
    · rfl
    · rfl
  | _ => exact h.of_kept hsound he rfl

/-- Every job had its version drawn. -/
def DrawnSound (c : SenderState) : Prop :=
  ∀ j, c.Live j ∨ j ∈ c.assigned → ∃ reports, (j, reports) ∈ c.drawn

theorem DrawnSound.apply {e : SenderStep} (h : c.DrawnSound) (he : c.Permitted sha256 e) :
    (c.apply e).DrawnSound := by
  have hkept : ∀ d ∈ c.drawn, d ∈ (c.apply e).drawn := by
    cases e with
    | assign job => exact fun _ hd => List.mem_cons_of_mem _ hd
    | persist =>
      simp only [SenderState.apply]
      split
      · exact fun _ hd => hd
      · exact fun _ hd => hd
    | _ => exact fun _ hd => hd
  have hold : ∀ j, c.Live j ∨ j ∈ c.assigned → ∃ reports, (j, reports) ∈ (c.apply e).drawn :=
    fun j hj => by
      obtain ⟨reports, hd⟩ := h j hj
      exact ⟨reports, hkept _ hd⟩
  rintro j (hj | hj)
  · rcases live_apply he hj with hlive | rfl
    · exact hold j (.inl hlive)
    · exact ⟨c.reports, List.mem_cons_self⟩
  · exact hold j ((assigned_apply c e).2 j hj).symm

end SenderState

end MiRelay
