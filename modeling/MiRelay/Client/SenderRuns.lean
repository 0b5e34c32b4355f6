import MiRelay.Client.SenderSound

/-!
# The runs of a sender

Every procedure of the sender takes permitted steps only, so the invariant holds
whenever the process dies. A send that succeeds has an empty queue and knows
the digest of every file it scanned.
-/

namespace MiRelay

open Proc

/-- The condition on the steps of the procedures. -/
def SenderSession.Permitted (sha256 : Bytes → String) (s : SenderSession) (e : SenderStep) : Prop :=
  s.core.Permitted sha256 e

/-- The states after a step. -/
theorem core_apply {t : SenderSession} {c : SenderState} (h : t.core = c) (e : SenderStep) :
    (t.apply e).core = c.apply e :=
  congrArg (SenderState.apply · e) h

/-- A save replaces the ledger on disk and nothing else. -/
theorem SenderState.persist_kept {c : SenderState} {m : SenderLedger} (hm : c.memory = some m) :
    (c.apply .persist).memory = some m ∧ (c.apply .persist).disk = some m ∧
      (c.apply .persist).reports = c.reports ∧ (c.apply .persist).scanned = c.scanned := by
  simp only [SenderState.apply, hm, and_self]

namespace SenderProc

variable {sha256 : Bytes → String} {s : SenderSession} {α : Type}

section Parts

variable {G : SenderSession → SenderStep → Prop}

/-- Using up an answer leaves the states. -/
theorem ask_then {f : SenderAnswer → SenderProc α} {Q : Except Error α → SenderSession → Prop}
    (hG : G s .answered) (hf : ∀ a t, t.core = s.core → Meets (f a) t G Q) :
    Meets (ask >>= f) s G Q := by
  unfold ask
  rw [meets_bind]
  refine Meets.read ?_
  refine Meets.step hG ?_
  rw [meets_pure]
  exact hf _ _ rfl

theorem ledger_then {f : SenderLedger → SenderProc α} {post : α → SenderSession → Prop}
    (hf : ∀ m, s.core.memory = some m → Meets (f m) s G (OnSuccess post)) :
    Meets (ledger >>= f) s G (OnSuccess post) := by
  unfold ledger
  rw [meets_bind]
  refine Meets.read ?_
  cases hm : s.core.memory with
  | none =>
    dsimp only
    rw [meets_fail]
    exact fun _ h => by cases h
  | some m =>
    dsimp only
    rw [meets_pure]
    exact hf m hm

/-- A save that succeeds has replaced the ledger on disk. -/
theorem save_meets (hG : G s .answered) (hpersist : ∀ t, t.core = s.core → G t .persist) :
    Meets save s G (OnSuccess fun _ t => t.core = s.core.apply .persist) := by
  unfold save
  refine ask_then hG fun a t ht => ?_
  cases a.saved with
  | saved =>
    rw [meets_emit]
    exact ⟨hpersist t ht, fun _ _ => core_apply ht _⟩
  | failed e =>
    rw [meets_fail]
    exact fun _ h => by cases h
  | unsynced e =>
    refine Meets.step (hpersist t ht) ?_
    rw [meets_fail]
    exact fun _ h => by cases h

/-- A fetched state is valid and the newest one that was reported. -/
theorem fetchState_meets (hG : G s .answered) (hreported : ∀ t state, G t (.reported state)) :
    Meets fetchState s G (OnSuccess fun remote t =>
      remote.validate = .ok () ∧ t.core = s.core.apply (.reported remote)) := by
  unfold fetchState
  refine ask_then hG fun a t ht => Meets.check fun remote _ => Meets.check fun _ hvalid => ?_
  refine Meets.step (hreported t remote) ?_
  rw [meets_pure]
  exact fun _ h => by
    cases h
    exact ⟨hvalid, core_apply ht _⟩

/-- A staged payload is in a new directory. -/
theorem stage_meets {entry : InventoryEntry} (hG : G s .answered)
    (hstaged : ∀ t id bytes, t.core = s.core → s.core.payloads.lookup id = none →
      G t (.staged id bytes)) :
    Meets (stage sha256 entry) s G (OnSuccess fun id t => s.core.payloads.lookup id = none ∧
      ∃ bytes, t.core = s.core.apply (.staged id bytes)) := by
  unfold stage
  refine ask_then hG fun a t ht => Meets.read (Meets.check fun _ hfree => ?_)
  rw [ensure_eq_ok, Option.isNone_iff_eq_none, ht] at hfree
  refine Meets.step (hstaged t a.id a.staged ht hfree) ?_
  refine Meets.check fun _ _ => Meets.check fun _ _ => Meets.check fun _ _ => ?_
  rw [meets_pure]
  exact fun _ h => by
    cases h
    exact ⟨hfree, a.staged, core_apply ht _⟩

end Parts

theorem load_meets : Meets load s (SenderSession.Permitted sha256) (OnSuccess fun _ _ => True) := by
  unfold load
  refine ask_then trivial fun a t ht => Meets.check fun binding _ => Meets.read ?_
  cases hdisk : t.core.disk with
  | some l =>
    refine Meets.check fun _ _ => ?_
    rw [meets_emit]
    exact ⟨.inl hdisk, fun _ _ => trivial⟩
  | none =>
    rw [meets_emit]
    exact ⟨.inr ⟨hdisk, binding, rfl⟩, fun _ _ => trivial⟩

theorem openSender_meets :
    Meets openSender s (SenderSession.Permitted sha256) (OnSuccess fun _ _ => True) := by
  unfold openSender
  refine Meets.step trivial ?_
  refine Meets.bind load_meets fun _ t _ => ?_
  rw [meets_bind, meets_attempt]
  refine (save_meets trivial fun _ _ => trivial).mono (fun _ _ h => h) fun r u _ => ?_
  cases r with
  | ok _ =>
    change Meets (pure ()) u (SenderSession.Permitted sha256) (OnSuccess fun _ _ => True)
    rw [meets_pure]
    exact fun _ _ => trivial
  | error e =>
    change Meets (emit .closed >>= fun _ => fail e) u (SenderSession.Permitted sha256)
      (OnSuccess fun _ _ => True)
    refine Meets.step trivial ?_
    rw [meets_fail]
    exact fun _ _ => trivial

theorem initializeSender_meets :
    Meets initializeSender s (SenderSession.Permitted sha256) (OnSuccess fun _ _ => True) := by
  unfold initializeSender
  refine ledger_then fun m hm => Meets.check fun _ hfresh => ?_
  refine ask_then trivial fun _ t₁ ht₁ => Meets.check fun preview _ => ?_
  refine ask_then trivial fun _ t₂ ht₂ => Meets.check fun source _ => ?_
  refine Meets.bind (fetchState_meets trivial fun _ _ => trivial) fun remote t₃ ht₃ => ?_
  refine Meets.check fun _ _ => Meets.check fun comparison _ => Meets.check fun _ _ =>
    Meets.check fun _ _ => ?_
  have hmemory : t₃.core.memory = some m := by
    rw [ht₃.2, ht₂, ht₁]
    exact hm
  refine Meets.step ⟨Nat.succ_pos _, m, hmemory, ?_⟩
    ((save_meets trivial fun _ _ => trivial).imp fun _ _ _ => trivial)
  rw [ensure_eq_ok, Bool.not_eq_true'] at hfresh
  exact hfresh

section Send

variable {m : SenderLedger}

/-- A job that leads the queue is uploaded and leaves it. -/
theorem flushJob_meets {job : SenderJob} {rest : List SenderJob}
    (hsound : s.core.Sound sha256) (hm : s.core.memory = some m) (hpending : m.pending = job :: rest) :
    Meets (flushJob sha256 job) s (SenderSession.Permitted sha256) (OnSuccess fun _ t =>
      t.core.memory = some { m with
        files := m.files.insert job.entry.path job.entry.sha256, pending := rest } ∧
      t.core.reports = s.core.reports ∧ t.core.scanned = s.core.scanned) := by
  have hjob : job ∈ m.pending := by
    rw [hpending]
    exact List.mem_cons_self
  unfold flushJob
  refine ask_then trivial fun _ t₁ ht₁ => Meets.check fun _ _ => Meets.read ?_
  rw [ht₁]
  cases hbytes : s.core.payloads.lookup job.id with
  | none =>
    dsimp only
    rw [meets_fail]
    exact fun _ h => by cases h
  | some bytes =>
    refine Meets.check fun inspected hinspected => Meets.check fun _ hsame => ?_
    have hdigest : sha256 bytes = job.entry.sha256 := by
      obtain ⟨-, -, rfl⟩ := (inspectFile_ok sha256).mp hinspected
      rw [ensure_eq_ok, Bool.and_eq_true, beq_iff_eq] at hsame
      exact hsame.1
    have hupload : s.core.Permitted sha256 (.upload job bytes) := ⟨⟨m, hm, hjob⟩, hbytes, hdigest⟩
    refine Meets.step (by rw [SenderSession.Permitted, ht₁]; exact hupload) ?_
    refine ask_then trivial fun _ t₂ ht₂ => Meets.check fun delivered _ => Meets.check fun _ _ => ?_
    have hcore₂ : t₂.core = s.core.apply (.upload job bytes) := by
      rw [ht₂]
      exact core_apply ht₁ _
    have hdeliver : (s.core.apply (.upload job bytes)).Permitted sha256 (.delivered job) :=
      ⟨m, rest, hm, hpending, bytes, List.mem_cons_self⟩
    refine Meets.step (by rw [SenderSession.Permitted, hcore₂]; exact hdeliver) ?_
    refine Meets.bind (save_meets trivial fun _ _ => trivial) fun _ t₃ ht₃ => ?_
    have hcore₃ : t₃.core =
        ((s.core.apply (.upload job bytes)).apply (.delivered job)).apply .persist := by
      rw [ht₃, core_apply hcore₂]
    have hmemory : ((s.core.apply (.upload job bytes)).apply (.delivered job)).memory = some { m with
        files := m.files.insert job.entry.path job.entry.sha256, pending := rest } := by
      simp only [SenderState.apply, hm, Option.map_some, hpending, List.tail_cons]
    have hkept : t₃.core.memory = some { m with
          files := m.files.insert job.entry.path job.entry.sha256, pending := rest } ∧
        t₃.core.disk = some { m with
          files := m.files.insert job.entry.path job.entry.sha256, pending := rest } ∧
        t₃.core.reports = s.core.reports ∧ t₃.core.scanned = s.core.scanned := by
      rw [hcore₃]
      exact SenderState.persist_kept hmemory
    refine ask_then trivial fun _ t₄ ht₄ => Meets.check fun _ _ => ?_
    refine Meets.step ?_ ?_
    · -- No other job has the payload of this one.
      rintro k ⟨l, hl, hk⟩ hid
      rw [ht₄] at hl
      have hrest : k ∈ rest := by
        rcases hl with hl | hl
        · cases Option.some.inj (hl.symm.trans hkept.2.1)
          exact hk
        · cases Option.some.inj (hl.symm.trans hkept.1)
          exact hk
      have hin : k ∈ m.pending := by
        rw [hpending]
        exact List.mem_cons_of_mem _ hrest
      have heq := hsound.ids k job ⟨m, .inr hm, hin⟩ ⟨m, .inr hm, hjob⟩ hid
      have hordered := (hsound.ledgers m (.inr hm)).ordered
      rw [hpending] at hordered
      have hlt := (List.pairwise_cons.mp hordered).1 k hrest
      rw [heq] at hlt
      exact lt_irrefl _ hlt
    · refine ask_then trivial fun a t₅ ht₅ => ?_
      rw [meets_ofExcept]
      intro _ _
      have hcore₅ : t₅.core = t₃.core.apply (.unstaged job.id) := by
        rw [ht₅]
        exact core_apply ht₄ _
      rw [hcore₅]
      exact ⟨hkept.1, hkept.2.2⟩

/-- A permitted procedure keeps the invariant. -/
theorem keep_sound {p : SenderProc α} {post : α → SenderSession → Prop}
    (hsound : s.core.Sound sha256)
    (h : Meets p s (SenderSession.Permitted sha256) (OnSuccess post)) :
    Meets p s (SenderSession.Permitted sha256)
      (OnSuccess fun a t => post a t ∧ t.core.Sound sha256) :=
  h.keep hsound fun _ _ hs he => hs.apply he

/-- The jobs of the queue leave it one after the other. -/
theorem flushJobs_meets {jobs : List SenderJob} (hsound : s.core.Sound sha256)
    (hm : s.core.memory = some m) (hpending : m.pending = jobs) :
    Meets (flushJobs sha256 jobs) s (SenderSession.Permitted sha256) (OnSuccess fun _ t =>
      t.core.memory = some { m with
        files := m.files.insertAll (·.entry.path) (·.entry.sha256) jobs, pending := [] } ∧
      t.core.reports = s.core.reports ∧ t.core.scanned = s.core.scanned) := by
  induction jobs generalizing s m with
  | nil =>
    rw [flushJobs, meets_pure]
    refine fun _ _ => ⟨?_, rfl, rfl⟩
    cases m
    cases hpending
    exact hm
  | cons job rest ih =>
    rw [flushJobs]
    refine Meets.bind (keep_sound hsound (flushJob_meets hsound hm hpending)) fun _ t ht => ?_
    obtain ⟨⟨hmemory, hreports, hscanned⟩, hsound'⟩ := ht
    refine Meets.bind (ih hsound' hmemory rfl) fun _ u hu => ?_
    rw [meets_pure]
    exact fun _ _ => ⟨hu.1, hu.2.1.trans hreports, hu.2.2.trans hscanned⟩

theorem flush_meets (hsound : s.core.Sound sha256) :
    Meets (flush sha256) s (SenderSession.Permitted sha256) (OnSuccess fun _ t =>
      ∀ m, s.core.memory = some m → t.core.memory = some { m with
        files := m.files.insertAll (·.entry.path) (·.entry.sha256) m.pending, pending := [] } ∧
      t.core.reports = s.core.reports ∧ t.core.scanned = s.core.scanned) := by
  unfold flush
  refine ledger_then fun m hm => (flushJobs_meets hsound hm rfl).imp fun _ t ht m' hm' => ?_
  cases Option.some.inj (hm.symm.trans hm')
  exact ht

/-- What holds between two entries of a send. -/
structure Sending (sha256 : Bytes → String) (c : SenderState) (m : SenderLedger) : Prop where
  sound : c.Sound sha256
  memory : c.memory = some m
  initialized : m.initialized = true
  idle : m.pending = []
  below : SenderState.NewestBelow c.reports m.nextVersion

/-- After an entry the ledger has its digest. -/
theorem sendEntry_meets {entry : InventoryEntry} (h : Sending sha256 s.core m) :
    Meets (sendEntry sha256 entry) s (SenderSession.Permitted sha256) (OnSuccess fun _ t =>
      ∃ m', Sending sha256 t.core m' ∧ t.core.scanned = s.core.scanned ∧
        ∀ p, m'.files.lookup p = if p = entry.path then some entry.sha256 else m.files.lookup p) := by
  unfold sendEntry
  refine ledger_then fun m' hm' => ?_
  cases Option.some.inj (h.memory.symm.trans hm')
  rw [meets_ite]
  refine ⟨fun hsame => ?_, fun _ => ?_⟩
  · rw [meets_pure]
    refine fun _ _ => ⟨m, h, rfl, fun p => ?_⟩
    split
    · rename_i hp
      rw [hp, hsame]
    · rfl
  · refine Meets.check fun _ _ => Meets.check fun _ _ => ?_
    have hstage : Meets (stage sha256 entry) s (SenderSession.Permitted sha256) (OnSuccess fun id t =>
        s.core.payloads.lookup id = none ∧ ∃ bytes, t.core = s.core.apply (.staged id bytes)) :=
      stage_meets trivial fun t id bytes ht hfree => by
        rw [SenderSession.Permitted, ht]
        exact hfree
    refine Meets.bind (keep_sound h.sound hstage) fun id t₁ ht₁ => ?_
    obtain ⟨⟨hfree, bytes, hcore₁⟩, hsound₁⟩ := ht₁
    have hmemory₁ : t₁.core.memory = some m := by
      rw [hcore₁]
      exact h.memory
    have hassign : t₁.core.Permitted sha256 (.assign ⟨id, entry, m.nextVersion⟩) := by
      refine ⟨⟨m, hmemory₁, h.initialized, rfl⟩, ?_, ?_, ?_⟩
      · rw [hcore₁]
        exact h.below
      · rw [hcore₁]
        show ((s.core.payloads.insert id bytes).lookup id).isSome = true
        rw [Files.lookup_insert, if_pos rfl]
        rfl
      · rintro k ⟨l, hl, hk⟩ rfl
        rw [hcore₁] at hl
        have hsome := h.sound.payload k ⟨l, hl, hk⟩
        rw [hfree] at hsome
        contradiction
    refine Meets.step hassign ?_
    have hsound₂ := hsound₁.apply hassign
    refine Meets.bind (keep_sound hsound₂ (save_meets trivial fun _ _ => trivial)) fun _ t₃ ht₃ => ?_
    obtain ⟨hcore₃, hsound₃⟩ := ht₃
    have hmemory₂ : (t₁.core.apply (.assign ⟨id, entry, m.nextVersion⟩)).memory = some { m with
        nextVersion := m.nextVersion + 1, pending := [⟨id, entry, m.nextVersion⟩] } := by
      simp only [SenderState.apply, hmemory₁, Option.map_some, h.idle, List.nil_append]
    have hkept : t₃.core.memory = some { m with
          nextVersion := m.nextVersion + 1, pending := [⟨id, entry, m.nextVersion⟩] } ∧
        t₃.core.reports = s.core.reports ∧ t₃.core.scanned = s.core.scanned := by
      have hpersist : t₃.core =
          (t₁.core.apply (.assign ⟨id, entry, m.nextVersion⟩)).apply .persist := hcore₃
      obtain ⟨hmemory, -, hreports, hscanned⟩ := SenderState.persist_kept hmemory₂
      rw [hpersist]
      refine ⟨hmemory, hreports.trans ?_, hscanned.trans ?_⟩
      · show t₁.core.reports = s.core.reports
        rw [hcore₁]
        rfl
      · show t₁.core.scanned = s.core.scanned
        rw [hcore₁]
        rfl
    refine (keep_sound hsound₃ (flush_meets hsound₃)).imp fun _ u hu => ?_
    obtain ⟨hflushed, hsound₄⟩ := hu
    obtain ⟨hmemory₄, hreports, hscanned⟩ := hflushed _ hkept.1
    refine ⟨_, ⟨hsound₄, hmemory₄, h.initialized, rfl, ?_⟩, hscanned.trans hkept.2.2, fun p => ?_⟩
    · rw [hreports, hkept.2.1]
      obtain ⟨newest, rest, heq, hlt⟩ := h.below
      exact ⟨newest, rest, heq, hlt.trans (Nat.lt_succ_self _)⟩
    · exact Files.lookup_insert ..

theorem sendEntries_meets {entries : List InventoryEntry} {count : Nat}
    (h : Sending sha256 s.core m) (hnodup : (entries.map (·.path)).Nodup) :
    Meets (sendEntries sha256 entries count) s (SenderSession.Permitted sha256)
      (OnSuccess fun _ t => ∃ m', Sending sha256 t.core m' ∧ t.core.scanned = s.core.scanned ∧
        (∀ e ∈ entries, m'.files.lookup e.path = some e.sha256) ∧
        ∀ p ∉ entries.map (·.path), m'.files.lookup p = m.files.lookup p) := by
  induction entries generalizing s m count with
  | nil =>
    rw [sendEntries, meets_pure]
    exact fun _ _ => ⟨m, h, rfl, fun _ he => absurd he List.not_mem_nil, fun _ _ => rfl⟩
  | cons entry rest ih =>
    rw [List.map_cons, List.nodup_cons] at hnodup
    rw [sendEntries]
    refine Meets.bind (sendEntry_meets h) fun _ t ht => ?_
    obtain ⟨m₁, h₁, hscanned, hfiles⟩ := ht
    refine (ih h₁ hnodup.2).imp fun _ u hu => ?_
    obtain ⟨m₂, h₂, hscanned', hin, hout⟩ := hu
    refine ⟨m₂, h₂, hscanned'.trans hscanned, fun e he => ?_, fun p hp => ?_⟩
    · rcases List.mem_cons.mp he with rfl | hrest
      · rw [hout _ hnodup.1, hfiles, if_pos rfl]
      · exact hin e hrest
    · rw [List.map_cons, List.mem_cons, not_or] at hp
      rw [hout p hp.2, hfiles, if_neg hp.1]

theorem topVersion_lt {state : DirectoryState} {b : Nat} (hb : 0 < b)
    (h : ∀ e ∈ state.entries, e.version < b) : state.topVersion < b := by
  have hmax : ∀ (l : List Nat) (n : Nat), n < b → (∀ k ∈ l, k < b) → l.foldl max n < b := by
    intro l
    induction l with
    | nil => exact fun n hn _ => hn
    | cons k l ih =>
      exact fun n hn hl => ih (max n k) (max_lt hn (hl k List.mem_cons_self)) fun j hj =>
        hl j (List.mem_cons_of_mem _ hj)
  refine hmax _ 0 hb fun k hk => ?_
  obtain ⟨e, he, rfl⟩ := List.mem_map.mp hk
  exact h e he

/-- The versions of a valid state are numbers of the database. -/
theorem topVersion_of_validate {state : DirectoryState} (h : state.validate = .ok ()) :
    state.topVersion < u64Max := by
  have hvalid := (DirectoryState.validate_ok h).2.1
  refine topVersion_lt (by decide) fun e he => ?_
  have hversion := (DirectoryVersion.validate_ok (hvalid e he).1).2
  exact hversion.2.trans (by decide)

/-- After a successful send the queue is empty and every scanned file is in the ledger. -/
theorem send_meets (hsound : s.core.Sound sha256) :
    Meets (send sha256) s (SenderSession.Permitted sha256) (OnSuccess fun _ t =>
      ∃ m, Sending sha256 t.core m ∧
        ∀ e ∈ t.core.scanned, m.files.lookup e.path = some e.sha256) := by
  unfold send
  refine ledger_then fun m hm => Meets.check fun _ hinit => ?_
  rw [ensure_eq_ok] at hinit
  refine Meets.bind (keep_sound hsound (flush_meets hsound)) fun count t₁ ht₁ => ?_
  obtain ⟨hflushed, hsound₁⟩ := ht₁
  obtain ⟨hmemory₁, -, -⟩ := hflushed m hm
  refine ask_then trivial fun a t₂ ht₂ => Meets.check fun source _ => ?_
  refine Meets.step trivial ?_
  refine Meets.check fun _ _ => ?_
  have hsound₂ : ((t₂.apply (.scanned source.entries)).core).Sound sha256 := by
    refine SenderState.Sound.apply (e := .scanned source.entries) ?_ trivial
    rw [ht₂]
    exact hsound₁
  refine Meets.bind (keep_sound hsound₂ (fetchState_meets trivial fun _ _ => trivial)) fun remote t₃ ht₃ => ?_
  obtain ⟨⟨hvalid, hcore₃⟩, hsound₃⟩ := ht₃
  refine Meets.check fun comparison hcompared => ?_
  have hmemory₃ : t₃.core.memory = some { m with
      files := m.files.insertAll (·.entry.path) (·.entry.sha256) m.pending, pending := [] } := by
    rw [hcore₃]
    show t₂.core.memory = _
    rw [ht₂]
    exact hmemory₁
  have hfloor : t₃.core.Permitted sha256 (.floor (min (remote.topVersion + 1) u64Max)) :=
    ⟨_, hmemory₃, hinit⟩
  refine Meets.step hfloor ?_
  have htop := topVersion_of_validate hvalid
  have hsending : Sending sha256
      (t₃.core.apply (.floor (min (remote.topVersion + 1) u64Max))) { m with
        files := m.files.insertAll (·.entry.path) (·.entry.sha256) m.pending
        pending := []
        nextVersion := max m.nextVersion (min (remote.topVersion + 1) u64Max) } := by
    refine ⟨hsound₃.apply hfloor, ?_, hinit, rfl, remote, t₂.core.reports, ?_, ?_⟩
    · simp only [SenderState.apply, hmemory₃, Option.map_some]
    · show t₃.core.reports = _
      rw [hcore₃]
      rfl
    · show remote.topVersion < max _ (min _ _)
      omega
  have hscanned : (t₃.core.apply (.floor (min (remote.topVersion + 1) u64Max))).scanned =
      source.entries := by
    show t₃.core.scanned = _
    rw [hcore₃]
    rfl
  refine (sendEntries_meets hsending ?_).imp fun _ u hu => ?_
  · obtain ⟨-, receiver, -, hcompare⟩ := compareRemote_ok hcompared
    exact hcompare.sourceValid.nodup
  · obtain ⟨m', h', hkept, hfiles, -⟩ := hu
    refine ⟨m', h', fun e he => hfiles e ?_⟩
    rw [hkept] at he
    exact hscanned ▸ he

end Send

end SenderProc

/-! ### Whole sessions -/

variable {sha256 : Bytes → String} {s : SenderSession}

/-- Every call takes permitted steps only. -/
theorem SenderCall.steps_permitted (call : SenderCall) (hsound : s.core.Sound sha256) :
    Guarded SenderSession.apply (SenderSession.Permitted sha256) s (call.steps sha256 s) := by
  cases call with
  | opened => exact SenderProc.openSender_meets.1
  | initialized => exact SenderProc.initializeSender_meets.1
  | flush => exact (SenderProc.flush_meets hsound).1
  | send => exact (SenderProc.send_meets hsound).1

theorem SenderCall.cutSteps_permitted (call : SenderCall) (cut : Option Nat)
    (hsound : s.core.Sound sha256) :
    Guarded SenderSession.apply (SenderSession.Permitted sha256) s (call.cutSteps sha256 cut s) := by
  cases cut with
  | none => exact call.steps_permitted hsound
  | some k => exact guarded_append.mpr ⟨(call.steps_permitted hsound).take k, trivial, trivial⟩

theorem SenderSession.trace_permitted (calls : List (SenderCall × Option Nat))
    (hsound : s.core.Sound sha256) :
    Guarded SenderSession.apply (SenderSession.Permitted sha256) s (s.trace sha256 calls) := by
  induction calls generalizing s with
  | nil => trivial
  | cons first rest ih =>
    have hcall := first.1.cutSteps_permitted first.2 hsound
    have hend := hcall.invariant (I := fun s => s.core.Sound sha256) hsound
      fun _ _ hs he => hs.apply he
    exact guarded_append.mpr ⟨hcall, ih hend⟩

/-- A session is continued from where it stands. -/
theorem SenderSession.trace_append (calls later : List (SenderCall × Option Nat)) :
    s.trace sha256 (calls ++ later) = s.trace sha256 calls ++
      (after SenderSession.apply s (s.trace sha256 calls)).trace sha256 later := by
  induction calls generalizing s with
  | nil => rfl
  | cons first rest ih =>
    rw [List.cons_append, trace, trace, ih, List.append_assoc, after_append]

/-- A digest that tells two files apart. -/
def twoDigests (bytes : Bytes) : String :=
  String.ofList (List.replicate 64 (if bytes.head? = some 1 then 'a' else 'b'))

/-- A directory with one file of one byte. -/
def oneFile (byte : UInt8) : Inventory :=
  ⟨"11111111-1111-1111-1111-111111111111", [⟨"a.txt", twoDigests [byte], 1⟩]⟩

/-- The receiver published an empty directory and nothing was sent. -/
def emptyRemote : DirectoryState :=
  ⟨directorySchemaVersion, some ⟨"22222222-2222-2222-2222-222222222222", []⟩, []⟩

/-- An answer under which everything succeeds, while the file has one byte. -/
def goodAnswer (id : String) (byte : UInt8) : SenderAnswer where
  opened := .ok ⟨"/photos", 1, 2, "http://relay"⟩
  preview := .ok ⟨oneFile byte, emptyRemote⟩
  inventory := .ok (oneFile byte)
  remote := .ok emptyRemote
  id
  staged := [byte]
  copied := .ok ()
  readable := .ok ()
  uploaded := .ok true
  saved := .saved
  removed := .ok ()
  cleaned := .ok ()

def firstJob : String := "33333333-3333-3333-3333-333333333333"

def secondJob : String := "44444444-4444-4444-4444-444444444444"

end MiRelay
