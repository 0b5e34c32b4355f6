import MiRelay.Client.SyncGuards

/-!
# Runs of the receiver

Runs of `sync_once` and explicit retries follow each other, each with its own
configuration and cut off anywhere. All steps of all runs meet the guards.
-/

namespace MiRelay

open Proc SyncProc

/-- One run: its configuration, whether it is an explicit retry (and of uncertain attempts), and
the number of steps after which it is cut off. -/
structure SyncRun where
  config : SyncConfig
  retry : Option Bool
  cut : Option Nat
  deriving DecidableEq, Repr

namespace SyncRun

/-- The mode of the run's queue. -/
def mode (r : SyncRun) : WallpaperRunMode :=
  match r.retry with
  | none => .automatic
  | some includeUncertain => .explicitRetry includeUncertain

variable (sha256 : Bytes → String)

/-- What the run executes. -/
def proc (r : SyncRun) : SyncProc Unit :=
  match r.retry with
  | none => syncOnce sha256 r.config
  | some includeUncertain => retryWallpapers sha256 r.config includeUncertain

/-- The steps of the run. -/
def steps (r : SyncRun) (s : Session) : List SyncStep := ((r.proc sha256).upTo r.cut s).events

end SyncRun

namespace Session

variable (sha256 : Bytes → String)

/-- The steps of runs that follow each other. -/
def trace (s : Session) : List SyncRun → List SyncStep
  | [] => []
  | r :: runs => r.steps sha256 s ++ trace (after apply s (r.steps sha256 s)) runs

/-- The session after the runs. -/
def run (s : Session) (runs : List SyncRun) : Session := after apply s (s.trace sha256 runs)

/-- A folder without a state file. -/
def initial (answers : Nat → Answer) : Session := ⟨⟨∅, ∅, ∅, [], []⟩, answers⟩

/-- No list the source answers with repeats an identity. -/
def Listed (s : Session) : Prop :=
  ∀ n scan, (s.answers n).scanned = .ok scan → (scan.deliveries.map (·.id)).Nodup

theorem Listed.apply {s : Session} (h : s.Listed) (e : SyncStep) : (s.apply e).Listed := by
  intro n scan hscan
  cases e with
  | answered => exact h (n + 1) scan hscan
  | _ => exact h n scan hscan

theorem initial_sound (answers : Nat → Answer) : (initial answers).core.Sound := by
  refine ⟨fun id r hr => ?_, fun id r hr => ?_, fun id hid => ?_, fun id hid => ?_⟩
  · simp [initial] at hr
  · simp [initial] at hr
  · simp [initial] at hid
  · simp [initial] at hid

end Session

/-- The condition on the opening of the state. -/
def Session.Opening (s : Session) (e : SyncStep) : Prop :=
  e = .answered ∨ (e = .load ∧ s.core.Permitted False .load)

/-- The condition on the steps of a run that starts with a state file: a start is one of the run's
mode, and the run has loaded that file. -/
def Session.Lawful (distinct : Prop) (config : SyncConfig) (mode : WallpaperRunMode)
    (file : Records) (s : Session) (e : SyncStep) : Prop :=
  s.core.Permitted distinct e ∧ (∀ id m, e = .start id m → m = mode ∧ s.core.loaded = file) ∧
    ∀ id m r, e = .unconfigured m id r → m = mode ∧ config.command = []

section Runs

variable {sha256 : Bytes → String} {config : SyncConfig} {s : Session} {distinct : Prop}
  {mode : WallpaperRunMode} {file : Records}

theorem openState_meets (h : s.core.Sound) :
    Meets (openState config) s Session.Opening fun x t => x = .ok () →
      Ready distinct [] t.core ∧ t.core.loaded = s.core.disk ∧ t.core.memory = s.core.disk := by
  unfold openState
  refine Meets.decide (fun _ _ => ?_) fun e _ hfalse => by contradiction
  refine Meets.ask (.inl rfl) fun a t ht => ?_
  refine Meets.decide (fun _ _ => ?_) fun e _ hfalse => by contradiction
  refine Meets.decide (fun _ _ => ?_) fun e _ hfalse => by contradiction
  refine Meets.read ?_
  refine Meets.decide (fun _ hkeys => ?_) fun e _ hfalse => by contradiction
  rw [ensure_eq_ok, List.all_eq_true] at hkeys
  have hpermitted : t.core.Permitted False .load := by
    intro id r hr
    have hentry := hkeys ⟨id, r⟩ (AList.mem_lookup_iff.mp hr)
    exact (beq_iff_eq.mp hentry).symm
  rw [meets_emit]
  have hsound : t.core.Sound := by
    rw [ht]
    exact h
  refine ⟨.inr ⟨rfl, hpermitted⟩, fun _ => ⟨⟨hsound.apply hpermitted, ?_, fun _ _ _ => rfl⟩,
    by rw [← ht]; rfl, by rw [← ht]; rfl⟩⟩
  refine ⟨fun _ hsome => hsome, fun id r hr => ?_⟩
  have hloaded : ((t.apply .load).core).loaded.lookup id = some r := hr
  rw [hloaded]
  exact .inl rfl

/-- Every step before the queue is allowed. -/
theorem Proc.Meets.allowed {α : Type} {p : SyncProc α} {Q : Except Error α → Session → Prop}
    (h : Meets p s (Session.Early distinct) Q) : Meets p s (Session.Allowed distinct config mode) Q :=
  h.mono (fun _ _ hG => hG.allowed) fun _ _ hQ => hQ

/-- After the state was loaded every allowed step is lawful. -/
theorem Proc.Meets.lawful {α : Type} {p : SyncProc α}
    (h : Meets p s (Session.Allowed distinct config mode) fun _ _ => True) (hfile : s.core.loaded = file) :
    Meets p s (Session.Lawful distinct config mode file) fun _ _ => True := by
  have hkeep : ∀ s e, s.core.loaded = file → s.Allowed distinct config mode e →
      (Session.apply s e).core.loaded = file := fun s e hs he => by
    cases e with
    | load => exact he.2.elim
    | _ => exact hs
  refine ⟨(h.1.strengthen (I := fun s => s.core.loaded = file) hfile hkeep).mono fun s e he => ?_,
    trivial⟩
  refine ⟨he.1.1, ?_, ?_⟩
  · rintro id m rfl
    exact ⟨he.1.2, he.2⟩
  · rintro id m r rfl
    exact he.1.2

/-- Opening the state is lawful. -/
theorem Session.Opening.lawful {e : SyncStep} (h : s.Opening e) :
    s.Lawful distinct config mode file e := by
  rcases h with rfl | ⟨rfl, hload⟩
  · exact ⟨trivial, fun _ _ hfalse => by contradiction, fun _ _ _ hfalse => by contradiction⟩
  · exact ⟨hload, fun _ _ hfalse => by contradiction, fun _ _ _ hfalse => by contradiction⟩

/-- What a run does after it has loaded the state. -/
theorem syncLoaded_meets (hready : Ready distinct [] s.core) (hlisted : distinct → s.Listed) :
    Meets (do
      ofExcept (← ask).cleaned
      reconcileInterruptedWallpapers
      let (handled, _) ← reconcilePendingAcks sha256 config
      let scan ← ofExcept (← ask).scanned
      scan.deliveries.forM fun delivery =>
        if delivery.id ∈ handled then pure ()
        else do
          let _ ← attempt (processDelivery sha256 config delivery)
      processWallpaperQueue sha256 config .automatic) s (Session.Allowed distinct config .automatic)
      fun _ _ => True := by
  have hkeeps : ∀ (s : Session) (e : SyncStep), (distinct → s.Listed) → s.Early distinct e →
      (distinct → (s.apply e).Listed) := fun s e hs _ hd => (hs hd).apply e
  have hask : Meets ask s (Session.Early distinct) fun _ u => u.core = s.core := by
    refine Meets.read (Meets.step (early_answered s) ?_)
    rw [meets_pure]
    rfl
  refine (hask.keeps hlisted hkeeps).allowed.seq (fun a u hu => ?_) fun _ _ _ => trivial
  obtain ⟨hu, hlisted⟩ := hu
  rw [← hu] at hready
  refine Meets.decide (fun _ _ => ?_) fun _ _ => trivial
  refine ((reconcileInterruptedWallpapers_meets hready).keeps hlisted hkeeps).allowed.seq
    (fun _ v hv => ?_) fun _ _ _ => trivial
  obtain ⟨hready, hlisted⟩ := hv
  refine ((reconcilePendingAcks_meets (hready rfl).1).keeps hlisted hkeeps).allowed.seq
    (fun found w hw => ?_) fun _ _ _ => trivial
  obtain ⟨hready, hlisted⟩ := hw
  have hready := hready ⟨found, rfl⟩
  refine Meets.askNext ⟨trivial, trivial⟩ fun z hz => ?_
  refine Meets.decide (fun scan hscan => ?_) fun _ _ => trivial
  rw [← hz] at hready
  refine (processAll_meets hready fun hd => hlisted hd 0 scan hscan).allowed.seq (fun _ z hz => ?_)
    fun _ _ _ => trivial
  exact processWallpaperQueue_meets hz.1 hz.2

theorem syncOnce_meets (h : s.core.Sound) (hlisted : distinct → s.Listed) :
    Meets (syncOnce sha256 config) s (Session.Lawful distinct config .automatic s.core.disk)
      fun _ _ => True := by
  have hkeeps : ∀ (s : Session) (e : SyncStep), (distinct → s.Listed) → s.Opening e →
      (distinct → (s.apply e).Listed) := fun s e hs _ hd => (hs hd).apply e
  have hopen : Meets (openState config) s Session.Opening fun x t => x = .ok () →
      Ready distinct [] t.core ∧ t.core.loaded = s.core.disk ∧ t.core.memory = s.core.disk :=
    openState_meets h
  unfold syncOnce
  refine ((hopen.keeps hlisted hkeeps).mono (fun _ _ hG => hG.lawful) fun _ _ ht => ht).seq
    (fun _ t ht => ?_) fun _ _ _ => trivial
  exact (syncLoaded_meets (ht.1 rfl).1 ht.2).lawful (ht.1 rfl).2.1

theorem retryWallpapers_meets (h : s.core.Sound) (includeUncertain : Bool) :
    Meets (retryWallpapers sha256 config includeUncertain) s
      (Session.Lawful distinct config (.explicitRetry includeUncertain) s.core.disk) fun _ _ => True := by
  have hopen : Meets (openState config) s Session.Opening fun x t => x = .ok () →
      Ready distinct [] t.core ∧ t.core.loaded = s.core.disk ∧ t.core.memory = s.core.disk :=
    openState_meets h
  unfold retryWallpapers
  refine (hopen.mono (fun _ _ hG => hG.lawful) fun _ _ ht => ht).seq (fun _ t ht => ?_)
    fun _ _ _ => trivial
  have hrest : Meets (do
      reconcileInterruptedWallpapers
      processWallpaperQueue sha256 config (.explicitRetry includeUncertain)) t
      (Session.Allowed distinct config (.explicitRetry includeUncertain)) fun _ _ => True := by
    refine (reconcileInterruptedWallpapers_meets (ht rfl).1).allowed.seq (fun _ u hu => ?_)
      fun _ _ _ => trivial
    exact processWallpaperQueue_meets (hu rfl).1.sound (hu rfl).1.settled
  exact hrest.lawful (ht rfl).2.1

/-- All steps of a run are lawful, wherever it is cut off. -/
theorem SyncRun.steps_lawful (r : SyncRun) (h : s.core.Sound) (hlisted : distinct → s.Listed) :
    Guarded Session.apply (Session.Lawful distinct r.config r.mode s.core.disk) s (r.steps sha256 s) := by
  have hproc : Meets (r.proc sha256) s (Session.Lawful distinct r.config r.mode s.core.disk)
      fun _ _ => True := by
    unfold SyncRun.proc SyncRun.mode
    cases r.retry with
    | none => exact syncOnce_meets h hlisted
    | some includeUncertain => exact retryWallpapers_meets h includeUncertain
  exact (hproc.upTo r.cut).1

/-- All steps of all runs are permitted. -/
theorem Session.trace_permitted (runs : List SyncRun) (h : s.core.Sound)
    (hlisted : distinct → s.Listed) :
    Guarded Session.apply (fun s e => s.core.Permitted distinct e) s (s.trace sha256 runs) := by
  induction runs generalizing s with
  | nil => trivial
  | cons r runs ih =>
    rw [Session.trace, guarded_append]
    have hrun : Guarded Session.apply (fun s e => s.core.Permitted distinct e) s
        (r.steps sha256 s) := (r.steps_lawful h hlisted).mono fun _ _ he => he.1
    refine ⟨hrun, ih ?_ ?_⟩
    · exact hrun.invariant (I := fun s => s.core.Sound) h fun _ _ hs he => hs.apply he
    · exact fun hd => hrun.invariant (I := Session.Listed) (hlisted hd) fun _ e hs _ => hs.apply e

/-- The invariant holds after any runs. -/
theorem Session.run_sound (runs : List SyncRun) (h : s.core.Sound) :
    (s.run sha256 runs).core.Sound := by
  have hpermitted : Guarded Session.apply (fun s e => s.core.Permitted False e) s
      (s.trace sha256 runs) := Session.trace_permitted runs h fun hfalse => hfalse.elim
  exact hpermitted.invariant (I := fun s => s.core.Sound) h fun _ _ hs he => hs.apply he

/-- What a permitted list of steps says about one of them. -/
theorem Session.permitted_at {pre post : List SyncStep} {e : SyncStep}
    (h : Guarded Session.apply (fun s e => s.core.Permitted distinct e) s (pre ++ e :: post)) :
    (after Session.apply s pre).core.Permitted distinct e := by
  rw [guarded_append] at h
  exact h.2.1

end Runs

section Samples

/-- The start of an image. -/
def sampleImage : Bytes := [0x89, 0x50, 0x4e, 0x47, 0x0d, 0x0a, 0x1a, 0x0a]

/-- The digest of the image; no other payload occurs in the examples. -/
def imageDigest (_ : Bytes) : String :=
  "1111111111111111111111111111111111111111111111111111111111111111"

def imageDelivery : Delivery where
  schemaVersion := manifestSchemaVersion
  id := "first"
  originalName := "wall.png"
  payload := ""
  size := 8
  sha256 := "1111111111111111111111111111111111111111111111111111111111111111"
  mediaType := "image/png"
  createdAtUnix := some 10

/-- Everything succeeds, and the source lists the given deliveries. -/
def successful (deliveries : List Delivery) : Answer where
  opened := .ok ()
  loaded := .ok ()
  cleaned := .ok ()
  quarantined := .ok ()
  saved := .saved
  content := .ok sampleImage
  payload := .ok sampleImage
  placed := .created
  retryable := false
  acknowledged := .ok ()
  scanned := .ok ⟨deliveries, []⟩
  command := .ran (.ok ())
  now := 20

/-- A configuration with or without a wallpaper command. -/
def sampleConfig (command : List String) : SyncConfig where
  directorySync := false
  libraryDir := "/library"
  maxFileSizeBytes := 1024
  command := command
  maxAttempts := 3

end Samples

end MiRelay
