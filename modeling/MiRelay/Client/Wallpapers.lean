import MiRelay.Client.SyncRuns

/-!
# The wallpaper command runs at most once automatically

The running mark is saved before the command is started, an interrupted attempt
is found uncertain by the next run, and only explicit retries take failed or
uncertain deliveries. A second automatic start of a delivery needs an explicit
retry in between that found no command and made the delivery a candidate again.
-/

namespace MiRelay

open Proc SyncProc

section Starts

variable {distinct : Prop} {s : Session} {steps : List SyncStep}

/-- A delivery counts as started until a retry finds no command for it. -/
theorem spent_or_unconfigured {id : String} (hspent : id ∈ s.core.spent)
    (h : Guarded Session.apply (fun s e => s.core.Permitted distinct e) s steps) :
    id ∈ (after Session.apply s steps).core.spent ∨
      ∃ includeUncertain r, .unconfigured (.explicitRetry includeUncertain) id r ∈ steps := by
  induction steps generalizing s with
  | nil => exact .inl hspent
  | cons e steps ih =>
    by_cases hkept : id ∈ (s.apply e).core.spent
    · rcases ih hkept h.2 with hspent | ⟨includeUncertain, r, hin⟩
      · exact .inl hspent
      · exact .inr ⟨includeUncertain, r, List.mem_cons_of_mem _ hin⟩
    · -- Only a candidate without a command is taken out, and not by an automatic run.
      cases e with
      | unconfigured mode j r =>
        have hsame : id = j := by
          by_contra hne
          exact hkept (List.mem_filter.mpr ⟨hspent, by simpa using hne⟩)
        subst hsame
        cases mode with
        | automatic => exact absurd hspent (h.1.2.2 rfl)
        | explicitRetry includeUncertain => exact .inr ⟨includeUncertain, r, List.mem_cons_self ..⟩
      | start j mode => exact absurd (List.mem_cons_of_mem j hspent) hkept
      | _ => exact absurd hspent hkept

/-- A start counts the delivery as started. -/
theorem started_or_unconfigured {id : String} {mode : WallpaperRunMode}
    (hin : SyncStep.start id mode ∈ steps)
    (h : Guarded Session.apply (fun s e => s.core.Permitted distinct e) s steps) :
    id ∈ (after Session.apply s steps).core.spent ∨
      ∃ includeUncertain r, .unconfigured (.explicitRetry includeUncertain) id r ∈ steps := by
  obtain ⟨pre, post, rfl⟩ := List.append_of_mem hin
  rw [guarded_append, guarded_cons] at h
  have hspent : id ∈ ((after Session.apply s pre).apply (.start id mode)).core.spent :=
    List.mem_cons_self ..
  rw [after_append, after_cons]
  rcases spent_or_unconfigured hspent h.2.2 with hend | ⟨includeUncertain, r, hin⟩
  · exact .inl hend
  · exact .inr ⟨includeUncertain, r, List.mem_append_right _ (List.mem_cons_of_mem _ hin)⟩

/-- A run starts the command in its own mode and as the state file admits. -/
theorem start_admitted {config : SyncConfig} {file : Records} {mode : WallpaperRunMode}
    (h : Guarded Session.apply (Session.Lawful distinct config mode file) s steps) {id : String}
    {m : WallpaperRunMode} (hin : SyncStep.start id m ∈ steps) :
    m = mode ∧ mode.Admits ((file.lookup id).map (·.wallpaperStatus)) := by
  obtain ⟨pre, post, rfl⟩ := List.append_of_mem hin
  rw [guarded_append] at h
  obtain ⟨hpermitted, hstart, -⟩ := h.2.1
  obtain ⟨rfl, rfl⟩ := hstart id m rfl
  exact ⟨rfl, hpermitted.2.1⟩

/-- Only a run without a command finds none. -/
theorem unconfigured_command {config : SyncConfig} {file : Records} {mode : WallpaperRunMode}
    (h : Guarded Session.apply (Session.Lawful distinct config mode file) s steps) {id : String}
    {m : WallpaperRunMode} {r : DeliveryRecord} (hin : SyncStep.unconfigured m id r ∈ steps) :
    m = mode ∧ config.command = [] := by
  obtain ⟨pre, post, rfl⟩ := List.append_of_mem hin
  rw [guarded_append] at h
  exact h.2.1.2.2 id m r rfl

end Starts

/-- The first part of every run: the state is loaded and interrupted attempts are settled. -/
def SyncRun.openReconciled (r : SyncRun) : SyncProc Unit := do
  openState r.config
  match r.retry with
  | none => do
    ofExcept (← ask).cleaned
    reconcileInterruptedWallpapers
  | some _ => reconcileInterruptedWallpapers

/-- An attempt that is found running is made uncertain, on disk as well. -/
theorem reconciled_uncertain {s : Session} (h : Ready True [] s.core) {id : String}
    {r : DeliveryRecord} (hloaded : s.core.loaded.lookup id = some r)
    (hmemory : s.core.memory.lookup id = some r) (hrunning : r.wallpaperStatus = .running) :
    Meets reconcileInterruptedWallpapers s (fun _ _ => True) fun x t => x = .ok () →
      ∃ r', t.core.disk.lookup id = some r' ∧ r'.wallpaperStatus = .uncertain := by
  have hkeep : ∀ (t : Session) (e : SyncStep), t.core.loaded = s.core.loaded → t.Early True e →
      (t.apply e).core.loaded = s.core.loaded := fun t e ht he => by
    cases e with
    | load => exact he.2.elim
    | _ => exact ht
  refine ((reconcileInterruptedWallpapers_meets h).keeps (I := fun t => t.core.loaded =
    s.core.loaded) rfl hkeep).mono (fun _ _ _ => trivial) fun x u hu hok => ?_
  obtain ⟨hready, hwoken⟩ := hu.1 hok
  -- No record is lost.
  obtain ⟨r', hr'⟩ : ∃ r', u.core.memory.lookup id = some r' :=
    Option.isSome_iff_exists.mp (hready.settled.present id (by rw [hu.2, hloaded]; rfl))
  obtain ⟨r₀, hr₀, hstatus⟩ := hwoken id r' hr'
  rw [hmemory] at hr₀
  cases Option.some.inj hr₀
  rw [if_pos hrunning] at hstatus
  exact ⟨r', by rw [← hready.agree trivial id List.not_mem_nil, hr'], hstatus⟩

/-- After the first part of a run an attempt that was interrupted is uncertain. -/
theorem openReconciled_uncertain {run : SyncRun} {s : Session} (h : s.core.Sound)
    (hok : (run.openReconciled s).result = .ok ()) {id : String} {r : DeliveryRecord}
    (hr : s.core.disk.lookup id = some r) (hrunning : r.wallpaperStatus = .running) :
    ∃ r', (run.openReconciled.final s).core.disk.lookup id = some r' ∧
      r'.wallpaperStatus = .uncertain := by
  have hmeets : Meets run.openReconciled s (fun _ _ => True) fun x t => x = .ok () →
      ∃ r', t.core.disk.lookup id = some r' ∧ r'.wallpaperStatus = .uncertain := by
    unfold SyncRun.openReconciled
    have hopen : Meets (openState run.config) s Session.Opening fun x t => x = .ok () →
        Ready True [] t.core ∧ t.core.loaded = s.core.disk ∧ t.core.memory = s.core.disk :=
      openState_meets h
    refine (hopen.mono (fun _ _ _ => trivial) fun _ _ ht => ht).seq (fun _ t ht => ?_) fun e t _ hfalse => by contradiction
    obtain ⟨hready, hloaded, hmemory⟩ := ht rfl
    have hrecord : t.core.loaded.lookup id = some r ∧ t.core.memory.lookup id = some r := by
      rw [hloaded, hmemory]
      exact ⟨hr, hr⟩
    cases run.retry with
    | none =>
      refine Meets.ask trivial fun a u hu => ?_
      rw [← hu] at hready hrecord
      refine Meets.decide (fun _ _ => ?_) fun e _ hfalse => by contradiction
      exact reconciled_uncertain hready hrecord.1 hrecord.2 hrunning
    | some includeUncertain => exact reconciled_uncertain hready hrecord.1 hrecord.2 hrunning
  exact hmeets.2 hok

/-- Whatever fails and wherever runs are cut off: two starts of one delivery, the second automatic,
have an explicit retry without a command between them; a run starts the command as its mode and the
state file admit, which excludes applied deliveries and takes failed and uncertain ones in explicit
retries only; an interrupted attempt is found uncertain; and a started delivery is no candidate of
an automatic run. -/
theorem wallpaper_runs_once (sha256 : Bytes → String) (answers : Nat → Answer)
    (runs : List SyncRun) :
    (∀ pre between post id mode, (Session.initial answers).trace sha256 runs =
        pre ++ .start id mode :: (between ++ .start id .automatic :: post) →
      ∃ includeUncertain r, .unconfigured (.explicitRetry includeUncertain) id r ∈ between) ∧
    (∀ run : SyncRun, ∀ s, s = (Session.initial answers).run sha256 runs →
      (∀ id mode, .start id mode ∈ run.steps sha256 s → mode = run.mode ∧
        run.mode.Admits ((s.core.disk.lookup id).map (·.wallpaperStatus))) ∧
      (∀ mode id r, .unconfigured mode id r ∈ run.steps sha256 s →
        mode = run.mode ∧ run.config.command = []) ∧
      ((run.openReconciled s).result = .ok () → ∀ id r, s.core.disk.lookup id = some r →
        r.wallpaperStatus = .running → ∃ r',
          (run.openReconciled.final s).core.disk.lookup id = some r' ∧
            r'.wallpaperStatus = .uncertain)) ∧
    ∀ id mode, .start id mode ∈ (Session.initial answers).trace sha256 runs →
      (∃ includeUncertain r, .unconfigured (.explicitRetry includeUncertain) id r ∈
        (Session.initial answers).trace sha256 runs) ∨
      ∃ r, ((Session.initial answers).run sha256 runs).core.disk.lookup id = some r ∧
        r.wallpaperStatus.closed := by
  have hsound := Session.initial_sound answers
  have htrace : Guarded Session.apply (fun s e => s.core.Permitted False e)
      (Session.initial answers) ((Session.initial answers).trace sha256 runs) :=
    Session.trace_permitted runs hsound fun hfalse => hfalse.elim
  have hend : ((Session.initial answers).run sha256 runs).core.Sound :=
    Session.run_sound runs hsound
  refine ⟨?_, ?_, ?_⟩
  · intro pre between post id mode hsplit
    rw [hsplit, guarded_append, guarded_cons, guarded_append] at htrace
    obtain ⟨-, -, hbetween, hstart, -⟩ := htrace
    have hspent : id ∈ ((after Session.apply (Session.initial answers) pre).apply
        (.start id mode)).core.spent := List.mem_cons_self ..
    rcases spent_or_unconfigured hspent hbetween with hagain | hretry
    · exact absurd hagain (hstart.1 rfl)
    · exact hretry
  · rintro run s rfl
    have hlawful : Guarded Session.apply (Session.Lawful False run.config run.mode _) _
        (run.steps sha256 _) := run.steps_lawful hend fun hfalse => hfalse.elim
    exact ⟨fun id mode hin => start_admitted hlawful hin,
      fun mode id r hin => unconfigured_command hlawful hin,
      fun hok id r hr hrunning => openReconciled_uncertain hend hok hr hrunning⟩
  · intro id mode hin
    rcases started_or_unconfigured hin htrace with hspent | hretry
    · exact .inr (hend.disk id hspent)
    · exact .inl hretry

/-- An automatic run whose command fails, a retry without a command, and an automatic run. -/
def retriedUnconfigured : List SyncRun :=
  [⟨sampleConfig ["swww"], none, none⟩, ⟨sampleConfig [], some false, none⟩,
    ⟨sampleConfig ["swww"], none, none⟩]

/-- The command exits with an error. -/
def failingCommand (_ : Nat) : Answer :=
  { successful [imageDelivery] with
    command := .ran (.error ⟨"wallpaper command exited with status 1", false⟩) }

/-- The command is started twice by automatic runs. -/
theorem retriedUnconfigured_starts_twice :
    ((Session.initial failingCommand).trace imageDigest retriedUnconfigured).count
      (.start "first" .automatic) = 2 := by
  decide +kernel

end MiRelay
