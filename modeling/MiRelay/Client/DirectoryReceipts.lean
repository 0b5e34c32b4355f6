import MiRelay.Client.ReceiverSteps

/-!
# Receipts of directory versions

Every receipt comes from one place: the version that the ledger in memory has
is compared with the file, then the ledger is saved, then the receipt is sent.
Whatever led there, a receipt is for a version that was recorded, whose file was
read afterwards, and that the ledger on disk has.
-/

namespace MiRelay

open Proc

/-- A ledger has this version of a path with this digest. -/
def RecordedIn (ledger : Option ReceiverLedger) (path : String) (version : Nat) (digest : String) :
    Prop :=
  ∃ l applied, ledger = some l ∧ l.files.lookup path = some applied ∧ applied.version = version ∧
    applied.sha256 = digest

/-- The file at a path has this digest. -/
def FileHas (sha256 : Bytes → String) (tree : DestinationTree) (path digest : String) : Prop :=
  ∃ node bytes, tree.lookup (placeOf path) = some node ∧ node.kind = .file bytes ∧
    sha256 bytes = digest

/-- What is true when a file is checked and when a receipt is sent. -/
def ReceiverSession.Permitted (sha256 : Bytes → String) (s : ReceiverSession) : ReceiverStep → Prop
  | .checked path version digest =>
    RecordedIn s.core.memory path version digest ∧ FileHas sha256 s.core.tree path digest
  | .acknowledged ack => RecordedIn s.core.disk ack.path ack.version ack.sha256 ∧
      (ack.path, ack.version, ack.sha256) ∈ s.core.checked
  | _ => True

/-- A step that neither checks a file nor sends a receipt. -/
def ReceiverStep.Quiet : ReceiverStep → Prop
  | .checked _ _ _ => False
  | .acknowledged _ => False
  | _ => True

theorem ReceiverStep.Quiet.permitted {sha256 : Bytes → String} {s : ReceiverSession}
    {e : ReceiverStep} (h : e.Quiet) : s.Permitted sha256 e := by
  cases e with
  | checked | acknowledged => exact h.elim
  | _ => trivial

theorem ReceiverStep.Waiting.quiet {e : ReceiverStep} (h : e.Waiting) : e.Quiet := by
  cases e with
  | answered | edited => trivial
  | _ => exact h.elim

namespace ReceiverProc

variable {sha256 : Bytes → String} {s : ReceiverSession} {α : Type}

/-- A procedure that neither checks a file nor sends a receipt. -/
abbrev Calm (p : ReceiverProc α) : Prop := Only ReceiverStep.Quiet p

theorem ask_calm : Calm ask := ask_only fun _ he => he.quiet

theorem saveFile_calm {e : ReceiverStep} (he : e.Quiet) : Calm (saveFile e) :=
  saveFile_only (fun _ he => he.quiet) he

theorem recover_calm : Calm (recover sha256) :=
  recover_only (fun _ he => he.quiet) fun _ _ =>
    ⟨fun _ _ => commit_only (fun _ he => he.quiet) trivial trivial,
      fun _ _ => archive_only (fun _ he => he.quiet) trivial,
      conclude_only (fun _ he => he.quiet) (fun _ => trivial) (fun _ => trivial) trivial trivial _ _⟩

theorem apply_calm (entry : DirectoryEntry) : Calm (apply sha256 entry) :=
  apply_only recover_calm fun _ =>
    install_only (fun _ he => he.quiet) (fun _ _ _ => trivial) (fun _ _ => trivial)
      (fun _ _ => trivial) (fun _ => trivial) trivial recover_calm

theorem applyWithRetry_calm (entry : DirectoryEntry) (left : Nat) :
    Calm (applyWithRetry sha256 entry left) := by
  induction left with
  | zero => exact apply_calm entry
  | succ left ih =>
    unfold applyWithRetry
    refine .bind (.attempt (apply_calm _)) fun r => ?_
    cases r with
    | ok applied => exact .pure _
    | error e => exact .bind ask_calm fun _ => .ite ih (.fail _)

theorem load_calm : Calm load := by
  unfold load
  refine .bind ask_calm fun _ => .bind (.ofExcept _) fun _ => .bind .get fun s => ?_
  cases s.core.disk with
  | none => exact .emit trivial
  | some l => exact .bind (.ofExcept _) fun _ => .emit trivial

theorem openReceiver_calm : Calm (openReceiver sha256) := by
  unfold openReceiver
  refine .bind (.emit trivial) fun _ => .bind load_calm fun _ =>
    .bind (.attempt (.bind (saveFile_calm trivial) fun _ => recover_calm)) fun r => ?_
  cases r with
  | ok _ => exact .pure _
  | error e => exact .bind (.emit trivial) fun _ => .fail _

/-! ### The receipt -/

/-- What waiting leaves alone. -/
def Waited (c c' : ReceiverState) : Prop := c' = { c with tree := c'.tree }

/-- A procedure that only waits leaves everything but the tree. -/
theorem waited {p : ReceiverProc α} {Q : Except Error α → ReceiverSession → Prop}
    (h : Meets p s (fun _ e => e.Waiting) Q) :
    Meets p s (ReceiverSession.Permitted sha256) fun r t => Q r t ∧ Waited s.core t.core := by
  refine (h.rel (R := fun s t => Waited s.core t.core) (fun s => show Waited s.core s.core from rfl) (fun s t u hst htu => ?_)
    fun s e he => ?_).mono (fun _ _ he => he.quiet.permitted) fun _ _ hQ => hQ
  · rw [Waited] at hst htu ⊢
    rw [htu, hst]
  · cases e with
    | answered | edited => rfl
    | _ => exact he.elim

/-- An answer changes nothing but the tree. -/
theorem ask_meets : Meets ask s (ReceiverSession.Permitted sha256)
    fun _ t => Waited s.core t.core :=
  (waited (ask_only (fun _ he => he) s)).mono (fun _ _ h => h) fun _ _ h => h.2

theorem ask_then {f : ReceiverAnswer → ReceiverProc α} {post : α → ReceiverSession → Prop}
    (hf : ∀ a t, Waited s.core t.core →
      Meets (f a) t (ReceiverSession.Permitted sha256) (OnSuccess post)) :
    Meets (ask >>= f) s (ReceiverSession.Permitted sha256) (OnSuccess post) := by
  rw [meets_bind]
  refine ask_meets.mono (fun _ _ h => h) fun r t ht => ?_
  cases r with
  | error e => exact fun _ h => by cases h
  | ok a => exact hf a t ht

theorem stat_then {place : String × String} {f : Option DestinationNode → ReceiverProc α}
    {G : ReceiverSession → ReceiverStep → Prop} {Q : Except Error α → ReceiverSession → Prop}
    (hf : Meets (f (s.core.tree.lookup place)) s G Q) : Meets (stat place >>= f) s G Q := by
  unfold stat
  rw [meets_bind]
  refine Meets.read ?_
  rw [meets_pure]
  exact hf

/-- Opening what is there changes nothing but the tree. -/
theorem openParent_meets (path : String) : Meets (openParent path false) s
    (ReceiverSession.Permitted sha256) fun _ t => Waited s.core t.core :=
  (waited (openThere_only (fun _ he => he) path s)).mono (fun _ _ h => h) fun _ _ h => h.2

/-- A file that was read has the digest found. -/
theorem readDigest_meets (path : String) : Meets (readDigest sha256 (placeOf path)) s
    (ReceiverSession.Permitted sha256) (OnSuccess fun found t =>
      Waited s.core t.core ∧ FileHas sha256 t.core.tree path found.1) := by
  unfold readDigest
  refine ask_then fun a t ht => Meets.check fun _ _ => stat_then ?_
  cases hnode : t.core.tree.lookup (placeOf path) with
  | none =>
    rw [meets_fail]
    exact fun _ h => by cases h
  | some node =>
    rw [meets_ofExcept]
    intro found hfound
    refine ⟨ht, node, ?_⟩
    unfold digestNode at hfound
    split at hfound
    · rename_i bytes hkind
      simp only [bind_eq_ok, pure_eq_ok] at hfound
      obtain ⟨_, -, rfl⟩ := hfound
      exact ⟨bytes, hnode, hkind, rfl⟩
    · contradiction

/-- A save that succeeds has replaced the ledger on disk. -/
theorem save_meets : Meets save s (ReceiverSession.Permitted sha256) (OnSuccess fun _ t =>
    t.core.memory = s.core.memory ∧ t.core.checked = s.core.checked ∧
      t.core.disk = (s.core.memory <|> s.core.disk)) := by
  unfold save saveFile
  refine ask_then fun a t ht => ?_
  cases a.saved with
  | saved =>
    rw [meets_emit]
    refine ⟨trivial, fun _ _ => ?_⟩
    show t.core.memory = _ ∧ t.core.checked = _ ∧ (t.core.memory <|> t.core.disk) = _
    rw [ht]
    exact ⟨rfl, rfl, rfl⟩
  | failed e =>
    rw [meets_fail]
    exact fun _ h => by cases h
  | unsynced e =>
    refine Meets.step trivial ?_
    rw [meets_fail]
    exact fun _ h => by cases h

/-- A procedure without receipts takes permitted steps. -/
theorem Calm.meets {p : ReceiverProc α} (hp : Calm p) :
    Meets p s (ReceiverSession.Permitted sha256) (OnSuccess fun _ _ => True) :=
  (hp s).mono (fun _ _ he => he.permitted) fun _ _ _ _ _ => trivial

theorem appliedAt_meets (path : String) : Meets (appliedAt path) s
    (ReceiverSession.Permitted sha256) (OnSuccess fun applied t => t = s ∧
      RecordedIn s.core.memory path applied.version applied.sha256) := by
  unfold appliedAt ledger
  rw [meets_bind]
  refine Meets.read ?_
  cases hm : s.core.memory with
  | none =>
    dsimp only
    rw [meets_fail]
    exact fun _ h => by cases h
  | some l =>
    dsimp only
    rw [meets_pure]
    dsimp only
    cases hfile : l.files.lookup path with
    | none =>
      dsimp only
      rw [meets_fail]
      exact fun _ h => by cases h
    | some applied =>
      dsimp only
      rw [meets_pure]
      intro _ h
      cases h
      exact ⟨rfl, l, applied, rfl, hfile, rfl, rfl⟩

/-- A receipt follows the check of the file and the save of the ledger. -/
theorem confirmEntry_meets (entry : DirectoryEntry) : Meets (confirmEntry sha256 entry) s
    (ReceiverSession.Permitted sha256) (OnSuccess fun _ _ => True) := by
  unfold confirmEntry
  refine Meets.bind (appliedAt_meets entry.path) fun applied t₀ h₀ => ?_
  obtain ⟨rfl, hrecorded⟩ := h₀
  have hopen : Meets (openParent entry.path false) t₀ (ReceiverSession.Permitted sha256)
      (OnSuccess fun _ t => Waited t₀.core t.core) :=
    (openParent_meets entry.path).mono (fun _ _ h => h) fun _ _ h _ _ => h
  refine Meets.bind hopen fun _ t₁ h₁ => ?_
  refine Meets.bind (readDigest_meets entry.path) fun found t₂ h₂ => ?_
  obtain ⟨hwaited, hfile⟩ := h₂
  refine Meets.check fun _ hsame => ?_
  rw [ensure_eq_ok, beq_iff_eq] at hsame
  have hmemory : t₂.core.memory = t₀.core.memory := by
    rw [hwaited, h₁]
  refine Meets.step ⟨?_, hfile⟩ ?_
  · rw [hmemory, hsame]
    exact hrecorded
  refine Meets.bind save_meets fun _ t₃ h₃ => ?_
  obtain ⟨hmemory₃, hchecked₃, hdisk₃⟩ := h₃
  refine Meets.step ⟨?_, ?_⟩ ?_
  · obtain ⟨l, applied', hl, hfound, hversion, hdigest⟩ := hrecorded
    refine ⟨l, applied', ?_, hfound, hversion, hdigest⟩
    rw [hdisk₃]
    show (t₂.core.memory <|> t₂.core.disk) = some l
    rw [hmemory, hl]
    rfl
  · rw [hchecked₃]
    show _ ∈ (entry.path, applied.version, found.1) :: t₂.core.checked
    rw [hsame]
    exact List.mem_cons_self
  refine ask_then fun a t _ => Meets.check fun _ _ => ?_
  exact Meets.step trivial (saveFile_calm (e := .persist) trivial).meets

/-! ### Whole sessions -/

theorem syncEntry_meets (attempts : Nat) (entry : DirectoryEntry) :
    Meets (syncEntry sha256 attempts entry) s (ReceiverSession.Permitted sha256)
      (OnSuccess fun _ _ => True) := by
  unfold syncEntry
  refine Meets.bind (Calm.meets ledger_only) fun l t _ => ?_
  rw [meets_ite]
  refine ⟨fun _ => ?_, fun _ => ?_⟩
  · rw [meets_ite]
    refine ⟨fun _ => ?_, fun _ => Calm.meets (Only.pure 0)⟩
    have hmark : Calm (do emit (.marked entry.path); save; return 0) :=
      .bind (.emit trivial) fun _ => .bind (saveFile_calm trivial) fun _ => .pure 0
    exact hmark.meets
  · rw [meets_ite]
    refine ⟨fun _ => ?_, fun _ => ?_⟩
    · exact Meets.bind (confirmEntry_meets entry) fun _ _ _ => Calm.meets (Only.pure 0)
    · refine Meets.bind (applyWithRetry_calm entry _).meets fun _ _ _ => ?_
      exact Meets.bind (confirmEntry_meets entry) fun _ _ _ => Calm.meets (Only.pure 1)

theorem syncEntries_meets (attempts : Nat) (entries : List DirectoryEntry) (count : Nat) :
    Meets (syncEntries sha256 attempts entries count) s (ReceiverSession.Permitted sha256)
      (OnSuccess fun _ _ => True) := by
  induction entries generalizing s count with
  | nil => exact Calm.meets (Only.pure count)
  | cons entry rest ih =>
    rw [syncEntries]
    exact Meets.bind (syncEntry_meets attempts entry) fun _ _ _ => ih _

theorem sync_meets (attempts : Nat) : Meets (sync sha256 attempts) s
    (ReceiverSession.Permitted sha256) (OnSuccess fun _ _ => True) := by
  unfold sync
  refine Meets.bind recover_calm.meets fun _ _ _ => ?_
  refine Meets.bind ask_calm.meets fun _ _ _ => Meets.check fun remote _ => Meets.check fun _ _ => ?_
  refine Meets.bind (syncEntries_meets attempts remote.entries 0) fun count _ _ => ?_
  refine Meets.bind ask_calm.meets fun a _ _ => Meets.check fun _ _ => Meets.step trivial ?_
  exact Meets.check fun _ _ => Calm.meets (Only.pure count)

end ReceiverProc

variable {sha256 : Bytes → String} {s : ReceiverSession}

/-- Every call takes permitted steps only. -/
theorem ReceiverCall.steps_permitted (call : ReceiverCall) :
    Guarded ReceiverSession.apply (ReceiverSession.Permitted sha256) s (call.steps sha256 s) := by
  cases call with
  | opened => exact ReceiverProc.openReceiver_calm.meets.1
  | recovered => exact ReceiverProc.recover_calm.meets.1
  | applied entry => exact (ReceiverProc.apply_calm entry).meets.1
  | synced attempts => exact (ReceiverProc.sync_meets attempts).1

theorem ReceiverSession.trace_permitted (calls : List (ReceiverCall × Option Nat)) :
    Guarded ReceiverSession.apply (ReceiverSession.Permitted sha256) s (s.trace sha256 calls) := by
  induction calls generalizing s with
  | nil => trivial
  | cons first rest ih =>
    refine guarded_append.mpr ⟨?_, ih⟩
    obtain ⟨call, cut⟩ := first
    cases cut with
    | none => exact call.steps_permitted
    | some k => exact guarded_append.mpr ⟨call.steps_permitted.take k, trivial, trivial⟩

/-- A file that was checked was checked by a step. -/
theorem mem_checked_iff {steps : List ReceiverStep} {path digest : String} {version : Nat}
    (h : (path, version, digest) ∈ (after ReceiverSession.apply s steps).core.checked) :
    (path, version, digest) ∈ s.core.checked ∨
      ∃ earlier between, steps = earlier ++ .checked path version digest :: between := by
  induction steps generalizing s with
  | nil => exact .inl h
  | cons e steps ih =>
    rw [after_cons] at h
    rcases ih h with hseen | ⟨earlier, between, rfl⟩
    · have hcase : (path, version, digest) ∈ s.core.checked ∨ e = .checked path version digest := by
        cases e with
        | checked path' version' digest' =>
          rcases List.mem_cons.mp hseen with heq | hold
          · cases heq
            exact .inr rfl
          · exact .inl hold
        | _ => exact .inl hseen
      rcases hcase with hold | rfl
      · exact .inl hold
      · exact .inr ⟨[], steps, rfl⟩
    · exact .inr ⟨e :: earlier, between, rfl⟩

/-- Whatever fails and wherever calls are cut off, a receipt is sent only for a version that the
ledger on disk has, whose file was read with that digest after the version was recorded. -/
theorem receipt_after_file (sha256 : Bytes → String) (tree : DestinationTree)
    (answers : Nat → ReceiverAnswer) (calls : List (ReceiverCall × Option Nat)) :
    ∀ pre post ack, (ReceiverSession.initial tree answers).trace sha256 calls =
        pre ++ .acknowledged ack :: post →
      RecordedIn (after ReceiverSession.apply (ReceiverSession.initial tree answers) pre).core.disk
          ack.path ack.version ack.sha256 ∧
        ∃ earlier between, pre = earlier ++ .checked ack.path ack.version ack.sha256 :: between ∧
          RecordedIn (after ReceiverSession.apply (ReceiverSession.initial tree answers)
            earlier).core.memory ack.path ack.version ack.sha256 ∧
          FileHas sha256 (after ReceiverSession.apply (ReceiverSession.initial tree answers)
            earlier).core.tree ack.path ack.sha256 := by
  intro pre post ack hsplit
  have htrace := @ReceiverSession.trace_permitted sha256 (.initial tree answers) calls
  rw [hsplit, guarded_append, guarded_cons] at htrace
  obtain ⟨hpre, ⟨hdisk, hchecked⟩, -⟩ := htrace
  refine ⟨hdisk, ?_⟩
  rcases mem_checked_iff hchecked with hnone | ⟨earlier, between, rfl⟩
  · exact absurd hnone List.not_mem_nil
  · rw [guarded_append, guarded_cons] at hpre
    obtain ⟨-, ⟨hrecorded, hfile⟩, -⟩ := hpre
    exact ⟨earlier, between, rfl, hrecorded, hfile⟩

/-- A digest for the sample. -/
def constantDigest (_ : Bytes) : String := String.ofList (List.replicate 64 'a')

/-- One reported version of one byte. -/
def reportedNote : DirectoryEntry where
  path := "note.bin"
  version := 1
  deliveryId := "55555555-5555-5555-5555-555555555555"
  sha256 := constantDigest []
  size := 1
  mediaType := "application/octet-stream"
  acknowledged := false
  conflict := false

/-- An answer under which everything succeeds. -/
def willingAnswer : ReceiverAnswer where
  edited := none
  opened := .ok ⟨"/photos", 1, 2, "http://relay"⟩
  io := .ok ()
  saved := .saved
  remote := .ok ⟨directorySchemaVersion, none, [reportedNote]⟩
  payload := .ok [1]
  placed := .ok ()
  retried := false
  id := "66666666-6666-6666-6666-666666666666"
  inode := 7
  copied := none
  now := 0
  acknowledged := .ok ()
  inventory := .ok ⟨"77777777-7777-7777-7777-777777777777", []⟩
  published := .ok ()

/-- A receiver is opened and takes over the version. -/
theorem receipt_after_file_note : ∃ pre post ack,
    (ReceiverSession.initial ∅ fun _ => willingAnswer).trace constantDigest
        [(.opened, none), (.synced 1, none)] = pre ++ .acknowledged ack :: post ∧
      RecordedIn (after ReceiverSession.apply (ReceiverSession.initial ∅ fun _ => willingAnswer)
        pre).core.disk ack.path ack.version ack.sha256 := by
  have hsent : ((ReceiverSession.initial ∅ fun _ => willingAnswer).trace constantDigest
      [(.opened, none), (.synced 1, none)]).any (fun e => match e with
        | .acknowledged _ => true
        | _ => false) = true := by decide +kernel
  obtain ⟨e, he, hack⟩ := List.any_eq_true.mp hsent
  cases e with
  | acknowledged ack =>
    obtain ⟨pre, post, hsplit⟩ := List.append_of_mem he
    exact ⟨pre, post, ack, hsplit, (receipt_after_file constantDigest ∅ _ _ pre post ack hsplit).1⟩
  | _ => exact absurd hack Bool.false_ne_true

end MiRelay
