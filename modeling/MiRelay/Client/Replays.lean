import MiRelay.Client.DirectoryReceipts
import MiRelay.Client.Artifacts

/-!
# Replayed versions and the ledger of the receiver

The versions that the ledger records only rise: a version is journaled or
recorded when it is above the recorded one, and recovery records the version
that the journal has. An application first finishes what the journal has; what
it does afterwards touches the target, the retained copies and the ledger on
disk only for a newer version.
-/

namespace MiRelay

open Proc

/-- What a ledger records of a path. -/
def recordOf (ledger : Option ReceiverLedger) (path : String) : Option Applied :=
  ledger.bind fun l => l.files.lookup path

/-- Each record of the first ledger has one in the second that is not older. -/
def Upward (older newer : Option ReceiverLedger) : Prop :=
  ∀ path applied, recordOf older path = some applied →
    ∃ applied', recordOf newer path = some applied' ∧ applied.version ≤ applied'.version

/-- A ledger records no version of the path above the given one. -/
def UpTo (ledger : Option ReceiverLedger) (path : String) (version : Nat) : Prop :=
  ∀ applied, recordOf ledger path = some applied → applied.version ≤ version

namespace Upward

variable {a b c : Option ReceiverLedger}

theorem refl (a : Option ReceiverLedger) : Upward a a := fun _ applied h => ⟨applied, h, le_rfl⟩

theorem trans (h : Upward a b) (h' : Upward b c) : Upward a c := by
  intro path applied hr
  obtain ⟨applied', hr', hle⟩ := h path applied hr
  obtain ⟨applied'', hr'', hle'⟩ := h' path applied' hr'
  exact ⟨applied'', hr'', hle.trans hle'⟩

/-- A bound on the later ledger is one on the earlier. -/
theorem upTo (h : Upward a b) {path : String} {version : Nat} (hb : UpTo b path version) :
    UpTo a path version := by
  intro applied hr
  obtain ⟨applied', hr', hle⟩ := h path applied hr
  exact hle.trans (hb applied' hr')

end Upward

/-- What a ledger records after a path was recorded. -/
theorem recordOf_insert (ledger : Option ReceiverLedger) (path : String) (applied : Applied)
    (q : String) :
    recordOf (ledger.map fun l => { l with files := l.files.insert path applied }) q =
      if q = path then ledger.map fun _ => applied else recordOf ledger q := by
  cases ledger with
  | none => exact (ite_self none).symm
  | some l => exact Files.lookup_insert l.files path q applied

/-- A path is recorded with a version that is not below the one before. -/
theorem upward_insert {ledger : Option ReceiverLedger} {path : String} {applied : Applied}
    (h : UpTo ledger path applied.version) :
    Upward ledger (ledger.map fun l => { l with files := l.files.insert path applied }) := by
  intro q a hr
  rw [recordOf_insert]
  split
  · rename_i hq
    subst hq
    obtain ⟨l, rfl, -⟩ := Option.bind_eq_some_iff.mp hr
    exact ⟨applied, rfl, h a hr⟩
  · exact ⟨a, hr, le_rfl⟩

/-- The ledger after a receipt was marked. -/
theorem recordOf_marked (c : ReceiverState) (path q : String) :
    recordOf (c.apply (.marked path)).memory q =
      (recordOf c.memory q).map fun a =>
        if q = path then { a with acknowledged := true } else a := by
  unfold recordOf ReceiverState.apply
  cases hm : c.memory with
  | none => rfl
  | some l =>
    cases hl : l.files.lookup path with
    | none =>
      simp only [Option.map_some, Option.bind_some, hl]
      by_cases hq : q = path
      · rw [hq, hl]
        rfl
      · simp only [if_neg hq, Option.map_id']
    | some applied =>
      simp only [Option.map_some, Option.bind_some, hl, Files.lookup_insert]
      by_cases hq : q = path
      · rw [if_pos hq, hq, hl, Option.map_some, if_pos rfl]
      · simp only [if_neg hq, Option.map_id']

/-- The ledger on disk is not ahead of the one in memory, and neither is ahead of the journal. -/
structure ReceiverState.Grounded (c : ReceiverState) : Prop where
  durable : ∀ l, c.memory = some l → Upward c.disk c.memory
  memory : ∀ j, c.journal = some j → UpTo c.memory j.entry.path j.entry.version
  disk : ∀ j, c.journal = some j → UpTo c.disk j.entry.path j.entry.version

/-- What is true when a ledger is loaded, a version journaled or one recorded. -/
def ReceiverState.Rising (c : ReceiverState) : ReceiverStep → Prop
  | .loaded l => c.memory = none ∧ (c.disk = some l ∨ c.disk = none ∧ l.files = ∅)
  | .journaled j => (∃ l, c.memory = some l) ∧ UpTo c.memory j.entry.path j.entry.version
  | .recorded path applied =>
    (∃ j, c.journal = some j ∧ j.entry.path = path ∧ j.entry.version = applied.version) ∨
      c.journal = none ∧ UpTo c.memory path applied.version
  | _ => True

namespace ReceiverState

variable {c : ReceiverState} {e : ReceiverStep}

/-- An open receiver replaces the ledger on disk by the one in memory. -/
theorem disk_persist {l : ReceiverLedger} (hm : c.memory = some l) :
    (c.apply .persist).disk = c.memory := by
  show (c.memory <|> c.disk) = c.memory
  rw [hm]
  rfl

/-- Without an open receiver there is nothing to replace it by. -/
theorem disk_persist_none (hm : c.memory = none) : (c.apply .persist).disk = c.disk := by
  show (c.memory <|> c.disk) = c.disk
  rw [hm]
  rfl

theorem Grounded.recorded (h : c.Grounded) {path : String} {applied : Applied}
    (hg : c.Rising (.recorded path applied)) : UpTo c.memory path applied.version := by
  rcases hg with ⟨j, hj, rfl, hversion⟩ | ⟨-, hupTo⟩
  · rw [← hversion]
    exact h.memory j hj
  · exact hupTo

/-- No step but the closing of the receiver lowers a version in memory. -/
theorem Grounded.memory_rises (h : c.Grounded) (hg : c.Rising e) (he : e ≠ .closed) :
    Upward c.memory (c.apply e).memory := by
  cases e with
  | closed => exact absurd rfl he
  | loaded l =>
    rw [hg.1]
    exact fun _ _ hr => absurd hr (by simp [recordOf])
  | recorded path applied => exact upward_insert (h.recorded hg)
  | marked path =>
    intro q a hr
    rw [recordOf_marked, hr]
    refine ⟨_, rfl, ?_⟩
    split <;> exact le_rfl
  | _ => exact Upward.refl _

/-- No step lowers a version on disk. -/
theorem Grounded.disk_rises (h : c.Grounded) : Upward c.disk (c.apply e).disk := by
  cases e with
  | persist =>
    cases hm : c.memory with
    | none => exact (disk_persist_none hm).symm ▸ Upward.refl _
    | some l => exact (disk_persist hm).symm ▸ h.durable l hm
  | _ => exact Upward.refl _

theorem UpTo_marked {path q : String} {version : Nat} (h : UpTo c.memory q version) :
    UpTo (c.apply (.marked path)).memory q version := by
  intro applied hr
  rw [recordOf_marked, Option.map_eq_some_iff] at hr
  obtain ⟨a, ha, rfl⟩ := hr
  have hle := h a ha
  split <;> exact hle

/-- The ledgers and the journal keep their order. -/
theorem Grounded.step (h : c.Grounded) (hg : c.Rising e) : (c.apply e).Grounded := by
  cases e with
  | closed => exact ⟨nofun, fun _ _ _ hr => by simp [recordOf, apply] at hr, h.disk⟩
  | loaded l =>
    rcases hg.2 with hdisk | ⟨hdisk, hfiles⟩
    · have hsame : (c.apply (.loaded l)).memory = c.disk := hdisk.symm
      exact ⟨fun _ _ => hsame ▸ Upward.refl _, fun j hj => hsame ▸ h.disk j hj, h.disk⟩
    · refine ⟨fun _ _ _ _ hr => ?_, fun j _ applied hr => ?_, h.disk⟩
      · rw [show (c.apply (.loaded l)).disk = none from hdisk] at hr
        contradiction
      · have hnone : recordOf (some l) j.entry.path = none := by
          rw [recordOf, Option.bind_some, hfiles]
          rfl
        rw [show (c.apply (.loaded l)).memory = some l from rfl, hnone] at hr
        contradiction
  | persist =>
    cases hm : c.memory with
    | none =>
      have hdisk := disk_persist_none hm
      exact ⟨fun l hl => absurd (hm.symm.trans hl) nofun, h.memory, fun j hj => hdisk ▸ h.disk j hj⟩
    | some l =>
      have hdisk := disk_persist hm
      exact ⟨fun _ _ => hdisk ▸ Upward.refl _, h.memory, fun j hj => hdisk ▸ h.memory j hj⟩
  | journaled j =>
    obtain ⟨⟨l, hl⟩, hupTo⟩ := hg
    refine ⟨h.durable, fun k hk => ?_, fun k hk => ?_⟩
    · cases Option.some.inj hk
      exact hupTo
    · cases Option.some.inj hk
      exact (h.durable l hl).upTo hupTo
  | recorded path applied =>
    have hupTo := h.recorded hg
    have hrises : Upward c.memory (c.apply (.recorded path applied)).memory := upward_insert hupTo
    refine ⟨fun l' hl' => ?_, fun j hj => ?_, h.disk⟩
    · obtain ⟨l, hl, -⟩ := Option.map_eq_some_iff.mp hl'
      exact (h.durable l hl).trans hrises
    · intro a hr
      have hj' : c.journal = some j := hj
      have hinsert := recordOf_insert c.memory path applied j.entry.path
      rw [show recordOf (c.apply (.recorded path applied)).memory j.entry.path = _ from hinsert] at hr
      split at hr
      · rename_i hpath
        obtain ⟨l, -, rfl⟩ := Option.map_eq_some_iff.mp hr
        rcases hg with ⟨k, hk, hkpath, hversion⟩ | ⟨hnone, -⟩
        · cases Option.some.inj (hj'.symm.trans hk)
          exact hversion.ge
        · rw [hnone] at hj'
          contradiction
      · exact h.memory j hj' a hr
  | cleared => exact ⟨h.durable, nofun, nofun⟩
  | marked path =>
    refine ⟨fun l' hl' => ?_, fun j hj => UpTo_marked (h.memory j hj), h.disk⟩
    obtain ⟨l, hl, -⟩ := Option.map_eq_some_iff.mp hl'
    exact (h.durable l hl).trans (h.memory_rises (e := .marked path) trivial nofun)
  | _ => exact ⟨h.durable, h.memory, h.disk⟩

end ReceiverState

/-- A step that leaves the ledgers and the journal alone. -/
def ReceiverStep.Steady : ReceiverStep → Prop
  | .closed | .loaded _ | .persist | .journaled _ | .recorded _ _ | .cleared | .marked _ => False
  | _ => True

theorem ReceiverStep.Waiting.steady {e : ReceiverStep} (h : e.Waiting) : e.Steady := by
  cases e with
  | answered | edited => trivial
  | _ => exact h.elim

/-- Later, with the ledgers and the journal as they were. -/
structure ReceiverSession.Settled (s t : ReceiverSession) : Prop where
  memory : t.core.memory = s.core.memory
  disk : t.core.disk = s.core.disk
  journal : t.core.journal = s.core.journal
  answers : ∃ k, ∀ n, t.answers n = s.answers (n + k)

namespace ReceiverSession.Settled

variable {s t u : ReceiverSession}

theorem refl (s : ReceiverSession) : s.Settled s := ⟨rfl, rfl, rfl, 0, fun _ => rfl⟩

theorem trans (h : s.Settled t) (h' : t.Settled u) : s.Settled u := by
  refine ⟨h'.memory.trans h.memory, h'.disk.trans h.disk, h'.journal.trans h.journal, ?_⟩
  obtain ⟨k, hk⟩ := h.answers
  obtain ⟨m, hm⟩ := h'.answers
  exact ⟨m + k, fun n => by rw [hm, hk, Nat.add_assoc]⟩

theorem step {e : ReceiverStep} (he : e.Steady) : s.Settled (s.apply e) := by
  cases e with
  | answered => exact ⟨rfl, rfl, rfl, 1, fun _ => rfl⟩
  | edited | madeDirectory | staged | moved | exchanged | retained | checked | acknowledged
    | published => exact ⟨rfl, rfl, rfl, 0, fun _ => rfl⟩
  | _ => exact he.elim

end ReceiverSession.Settled

/-- A step of recovery: it waits, or it goes on with the journal. -/
def ReceiverState.Recovering (c : ReceiverState) (e : ReceiverStep) : Prop :=
  e.Waiting ∨ ∃ j, c.journal = some j ∧ (e.Steady ∨ e = .persist ∨ e = .cleared ∨
    ∃ applied, e = .recorded j.entry.path applied ∧ applied.version = j.entry.version)

namespace ReceiverProc

variable {sha256 : Bytes → String} {s : ReceiverSession} {α β : Type}
  {G : ReceiverSession → ReceiverStep → Prop} {P : ReceiverStep → Prop}

/-- A procedure of steady steps leaves the ledgers and the journal alone. -/
theorem Only.settles {p : ReceiverProc α} (hp : Only P p) (hsteady : ∀ e, P e → e.Steady)
    (hG : ∀ u e, s.Settled u → P e → G u e) :
    Meets p s G (OnSuccess fun _ t => s.Settled t) := by
  have hkeep : ∀ u e, s.Settled u → P e → s.Settled (u.apply e) := fun u e hu he =>
    hu.trans (.step (hsteady e he))
  refine (((hp s).strengthen (.refl s) hkeep).keeps (.refl s) fun u e hu he => hkeep u e hu he.1).mono
    (fun u e he => hG u e he.2 he.1) fun _ _ h _ _ => h.2

/-- The answer that is used up is the next one. -/
theorem ask_settles (hG : ∀ u e, e.Waiting → G u e) :
    Meets ask s G fun r t => r = .ok (s.answers 0) ∧ s.Settled t := by
  unfold ask
  refine Meets.read (Meets.step (hG _ _ trivial) ?_)
  cases (s.answers 0).edited with
  | none =>
    dsimp only
    rw [meets_pure]
    exact ⟨rfl, .step (e := .answered) trivial⟩
  | some tree =>
    refine Meets.step (hG _ _ trivial) ?_
    rw [meets_pure]
    exact ⟨rfl, .trans (.step (e := .answered) trivial) (.step (e := .edited tree) trivial)⟩

theorem askNext_then {f : ReceiverAnswer → ReceiverProc α}
    {Q : Except Error α → ReceiverSession → Prop} (hG : ∀ u e, e.Waiting → G u e)
    (hf : ∀ t, s.Settled t → Meets (f (s.answers 0)) t G Q) : Meets (ask >>= f) s G Q := by
  rw [meets_bind]
  refine (ask_settles hG).mono (fun _ _ h => h) fun r t ht => ?_
  rw [ht.1]
  exact hf t ht.2

/-- What replaces a file of the state directory leaves it, and how it fails. -/
theorem saveFile_settles {e : ReceiverStep} (hG : ∀ u e, e.Waiting → G u e)
    (hstep : ∀ t, s.Settled t → (∀ err, (s.answers 0).saved ≠ .failed err) → G t e) :
    Meets (saveFile e) s G fun r u =>
      (∀ err, r = .error err → (s.answers 0).saved = .failed err ∨ (s.answers 0).saved = .unsynced err) ∧
        (r = .ok () → ∃ t, s.Settled t ∧ u = t.apply e) := by
  unfold saveFile
  refine askNext_then hG fun t ht => ?_
  cases ha : (s.answers 0).saved with
  | saved =>
    rw [meets_emit]
    exact ⟨hstep t ht (by simp [ha]), nofun, fun _ => ⟨t, ht, rfl⟩⟩
  | failed e =>
    rw [meets_fail]
    exact ⟨fun _ h => .inl (by cases h; rfl), nofun⟩
  | unsynced e =>
    refine Meets.step (hstep t ht (by simp [ha])) ?_
    rw [meets_fail]
    exact ⟨fun _ h => .inr (by cases h; rfl), nofun⟩

/-- As long as the journal is there, steady steps go on with it. -/
theorem Only.goesOn {p : ReceiverProc α} {j : Journal} (hp : Only ReceiverStep.Steady p)
    (hj : s.core.journal = some j) : Meets p s (fun u e => u.core.Recovering e)
      (OnSuccess fun _ t => t.core.journal = some j) :=
  (hp.settles (fun _ he => he) fun _ _ hu he => .inr ⟨j, hu.journal.trans hj, .inl he⟩).imp
    fun _ _ ht => ht.journal.trans hj

theorem save_goesOn {j : Journal} (hj : s.core.journal = some j) :
    Meets save s (fun u e => u.core.Recovering e)
      (OnSuccess fun _ t => t.core.journal = some j) := by
  have hsave : Meets save s (fun u e => u.core.Recovering e) _ :=
    saveFile_settles (fun _ _ he => .inl he) fun t ht _ =>
      .inr ⟨j, ht.journal.trans hj, .inr (.inl rfl)⟩
  refine hsave.mono (fun _ _ h => h) fun r u hu _ hr => ?_
  obtain ⟨t, ht, rfl⟩ := hu.2 hr
  exact ht.journal.trans hj

/-- The version of the journal is recorded, then the journal goes. -/
theorem conclude_goesOn {j : Journal} (hj : s.core.journal = some j) (parent name : String) :
    Meets (conclude sha256 j parent name) s (fun u e => u.core.Recovering e)
      (OnSuccess fun _ t => t.core.journal = none) := by
  have hwait : ∀ (u : ReceiverSession) (e : ReceiverStep), e.Waiting → u.core.Recovering e :=
    fun _ _ he => .inl he
  unfold conclude
  refine Meets.bind ((stat_only _).goesOn hj) fun history t₁ h₁ => ?_
  refine Meets.bind ((stat_only _).goesOn h₁) fun found t₂ h₂ => Meets.check fun _ _ => ?_
  refine Meets.bind ((findConflict_only (fun _ he => he.steady) (fun _ => trivial) _ _ _).goesOn h₂)
    fun conflict t₃ h₃ => ?_
  refine askNext_then hwait fun t₄ h₄ => ?_
  have hj₄ : t₄.core.journal = some j := h₄.journal.trans h₃
  refine Meets.step (.inr ⟨j, hj₄, .inr (.inr (.inr ⟨_, rfl, rfl⟩))⟩) ?_
  refine Meets.bind (save_goesOn hj₄) fun _ t₅ h₅ => ?_
  refine askNext_then hwait fun t₆ h₆ => Meets.check fun _ _ => ?_
  refine Meets.step (.inr ⟨j, h₆.journal.trans h₅, .inr (.inr (.inl rfl))⟩) ?_
  refine askNext_then hwait fun t₇ h₇ => ?_
  rw [meets_ofExcept]
  exact fun _ _ => h₇.journal

/-- Recovery waits, then goes on with the journal until that is gone. -/
theorem recover_goesOn : Meets (recover sha256) s (fun u e => u.core.Recovering e)
    (OnSuccess fun _ t => t.core.journal = none) := by
  have hsteady : ∀ e : ReceiverStep, e.Waiting → e.Steady := fun _ he => he.steady
  unfold recover
  refine askNext_then (fun _ _ he => .inl he) fun t ht => Meets.check fun _ _ => Meets.read ?_
  cases hj : t.core.journal with
  | none =>
    dsimp only
    rw [meets_pure]
    exact fun _ _ => hj
  | some j =>
    refine Meets.check fun _ _ => Meets.check fun _ _ => Meets.check fun _ _ => ?_
    refine Meets.bind ((openThere_only hsteady _).goesOn hj) fun _ t₁ h₁ => ?_
    refine Meets.bind (ledger_only.goesOn h₁) fun l t₂ h₂ => Meets.read (Meets.check fun _ _ => ?_)
    refine Meets.bind ((commit_only hsteady trivial trivial).goesOn h₂) fun _ t₃ h₃ => ?_
    refine Meets.bind ((archive_only hsteady trivial).goesOn h₃) fun _ t₄ h₄ => ?_
    exact conclude_goesOn h₄ _ _

/-- Without a journal recovery only waits. -/
theorem recover_waits (hj : s.core.journal = none) :
    ∀ e ∈ (recover sha256 s).events, e.Waiting := by
  have hwaits : Meets (recover sha256) s (fun _ e => e.Waiting) (OnSuccess fun _ _ => True) := by
    unfold recover
    refine askNext_then (fun _ _ he => he) fun t ht => Meets.check fun _ _ => Meets.read ?_
    rw [ht.journal, hj]
    dsimp only
    rw [meets_pure]
    exact fun _ _ => trivial
  exact hwaits.1.mem

/-- What a recorded path is applied with. -/
theorem appliedAt_ok {path : String} {applied : Applied}
    (h : recordOf s.core.memory path = some applied) : (appliedAt path s).result = .ok applied := by
  obtain ⟨l, hm, hl⟩ := Option.bind_eq_some_iff.mp h
  have hreads : Meets (appliedAt path) s (fun _ _ => True) fun r _ => r = .ok applied := by
    unfold appliedAt ledger
    rw [meets_bind]
    refine Meets.read ?_
    rw [hm]
    dsimp only
    rw [meets_pure]
    dsimp only
    rw [hl]
    dsimp only
    rw [meets_pure]
  exact hreads.2

/-- The ledger that is read is the one in memory. -/
theorem ledger_meets : Meets ledger s G
    (OnSuccess fun l t => t = s ∧ s.core.memory = some l) := by
  unfold ledger
  refine Meets.read ?_
  cases hm : s.core.memory with
  | none =>
    dsimp only
    rw [meets_fail]
    exact nofun
  | some l =>
    dsimp only
    rw [meets_pure]
    intro _ h
    cases h
    exact ⟨rfl, rfl⟩

section Install

variable {entry : DirectoryEntry} {r : Except Error Applied}

/-- A step of an application of a newer version that returns `r`: it prepares the version, records
it, or goes on with its journal. -/
def Replacing (s : ReceiverSession) (entry : DirectoryEntry) (r : Except Error Applied)
    (u : ReceiverSession) (e : ReceiverStep) : Prop :=
  u.core.Recovering e ∨ u.core.journal = none ∧
    match e with
    | .madeDirectory place _ => place ∈ directoryPlaces entry.path
    | .staged place _ => ∃ id, place = (parentPath entry.path, ".mirelay-incoming-" ++ id)
    | .recorded path applied => path = entry.path ∧ UpTo u.core.memory path applied.version
    | .journaled j => j.entry = entry ∧ (∃ l, u.core.memory = some l) ∧
        UpTo u.core.memory entry.path entry.version
    | .persist => ∀ e, r = .error e → ∃ n, (s.answers n).saved = .unsynced e
    | _ => False

theorem replacing_of_waiting (u : ReceiverSession) {e : ReceiverStep} (he : e.Waiting) :
    Replacing s entry r u e := .inl (.inl he)

/-- Steady steps that prepare the version. -/
theorem Only.prepares {p : ReceiverProc α} {t : ReceiverSession} (hp : Only P p)
    (ht : t.core.journal = none)
    (hP : ∀ u e, u.core.journal = none → P e → e.Steady ∧ Replacing s entry r u e) :
    Meets p t (Replacing s entry r) (OnSuccess fun _ u => t.Settled u) :=
  hp.settles (fun e he => (hP t e ht he).1) fun u e hu he => (hP u e (hu.journal.trans ht) he).2

/-- A save fails with what its answer says, and is then no more than a replacement. -/
theorem save_replaces {t : ReceiverSession} (hpersist : ∀ u, t.Settled u → (∀ err, (t.answers 0).saved ≠ .failed err) →
      Replacing s entry r u .persist) :
    Meets save t (Replacing s entry r) (OnSuccess fun _ u => u.core.memory = t.core.memory) := by
  have hsave : Meets save t (Replacing s entry r) _ :=
    saveFile_settles (fun u _ he => replacing_of_waiting u he) hpersist
  refine hsave.mono (fun _ _ h => h) fun v u hu _ hv => ?_
  obtain ⟨w, hw, rfl⟩ := hu.2 hv
  exact hw.memory

/-- The version is recorded at once when the target has its content already. -/
theorem recordSame_replaces {t : ReceiverSession} {applied : Applied} {l : ReceiverLedger}
    (ht : s.Settled t) (hj : t.core.journal = none) (hm : t.core.memory = some l)
    (hnew : UpTo t.core.memory entry.path applied.version)
    (hr : ((do emit (.recorded entry.path applied); save; appliedAt entry.path :
      ReceiverProc Applied) t).result = r) :
    Meets (do emit (.recorded entry.path applied); save; appliedAt entry.path :
      ReceiverProc Applied) t (Replacing s entry r) fun _ _ => True := by
  obtain ⟨k, hk⟩ := ht.answers
  refine Meets.known hr ((meets_emit (Q := OnSuccess fun _ u => u = t.apply _)).mpr
    ⟨.inr ⟨hj, rfl, hnew⟩, fun _ _ => rfl⟩) fun _ u hu hr₁ => ?_
  subst hu
  -- The record can be read again, so an error is one of the save.
  have hrecorded (u : ReceiverSession)
      (hu : u.core.memory = (t.apply (.recorded entry.path applied)).core.memory) :
      recordOf u.core.memory entry.path = some applied := by
    rw [hu]
    refine (recordOf_insert t.core.memory entry.path applied entry.path).trans ?_
    rw [if_pos rfl, hm, Option.map_some]
  have hsaves : ∀ e, r = .error e → (∀ err, (t.answers 0).saved ≠ .failed err) →
      (t.answers 0).saved = .unsynced e := by
    intro e he hsaved
    have hsave : Meets save (t.apply (.recorded entry.path applied)) (fun _ _ => True) _ :=
      saveFile_settles (fun _ _ _ => trivial) fun _ _ _ => trivial
    cases hres : (save (t.apply (.recorded entry.path applied))).result with
    | error err =>
      have herr : Except.error err = Except.error e :=
        ((result_bind_error hres).symm.trans hr₁).trans he
      cases herr
      exact (hsave.2.1 e hres).resolve_left (hsaved e)
    | ok u =>
      obtain ⟨w, hw, hfinal⟩ := hsave.2.2 hres
      have hok : (appliedAt entry.path (w.apply .persist)).result = .ok applied :=
        appliedAt_ok (hrecorded (w.apply .persist) hw.memory)
      rw [result_bind_ok hres, hfinal] at hr₁
      exact absurd (hok.symm.trans (hr₁.trans he)) nofun
  refine Meets.known hr₁ (save_replaces fun u hu hsaved => ?_) fun _ u hu _ => ?_
  · refine .inr ⟨hu.journal.trans hj, fun e he => ⟨k, ?_⟩⟩
    have hzero := hk 0
    rw [Nat.zero_add] at hzero
    rw [← hzero]
    exact hsaves e he hsaved
  · exact ((appliedAt_only (P := ReceiverStep.Waiting) _).settles (fun _ he => he.steady)
      fun v _ _ he => replacing_of_waiting v he).mono (fun _ _ h => h) fun _ _ _ => trivial

/-- A staged version is journaled, then recovery goes on with it. -/
theorem replaceFile_replaces {t : ReceiverSession} (hj : t.core.journal = none)
    (hnew : UpTo t.core.memory entry.path entry.version) (bytes : Bytes) :
    Meets (do
      let staged ← stageCopy entry bytes
      saveJournal entry staged.1 staged.2
      recover sha256
      appliedAt entry.path : ReceiverProc Applied) t (Replacing s entry r)
        (OnSuccess fun _ _ => True) := by
  refine Meets.bind ((stageCopy_only (P := fun e => e.Waiting ∨ ∃ id node,
    e = .staged (parentPath entry.path, ".mirelay-incoming-" ++ id) node) (fun _ he => .inl he)
      (fun id node => .inr ⟨id, node, rfl⟩) _).prepares hj ?_) fun staged t₁ h₁ => ?_
  · rintro u e hu (he | ⟨id, node, rfl⟩)
    · exact ⟨he.steady, replacing_of_waiting u he⟩
    · exact ⟨trivial, .inr ⟨hu, id, rfl⟩⟩
  have hjournaled : Meets (saveJournal entry staged.1 staged.2) t₁ (Replacing s entry r)
      (OnSuccess fun _ _ => True) := by
    unfold saveJournal
    refine askNext_then (fun u _ he => replacing_of_waiting u he) fun t₂ h₂ => Meets.check fun _ _ => ?_
    refine Meets.bind ledger_meets fun l t₃ h₃ => Meets.read ?_
    obtain ⟨rfl, hl⟩ := h₃
    have h := h₁.trans h₂
    cases t₃.core.identityOf l (parentPath entry.path) with
    | none =>
      dsimp only
      rw [meets_fail]
      exact nofun
    | some identity =>
      refine (saveFile_settles (G := Replacing s entry r) (fun u _ he => replacing_of_waiting u he)
        fun u hu _ => ?_).mono (fun _ _ h => h) fun _ _ _ _ _ => trivial
      refine .inr ⟨(h.trans hu).journal.trans hj, rfl, ⟨l, hu.memory.trans hl⟩, ?_⟩
      rw [(h.trans hu).memory]
      exact hnew
  refine Meets.bind hjournaled fun _ t₂ _ => ?_
  refine Meets.bind (recover_goesOn.mono (fun _ _ h => .inl h) fun _ _ h => h) fun _ t₃ h₃ => ?_
  exact ((appliedAt_only (P := ReceiverStep.Waiting) _).prepares h₃ fun u e _ he =>
    ⟨he.steady, replacing_of_waiting u he⟩).imp fun _ _ _ => trivial

/-- An application of a newer version takes only such steps. -/
theorem install_replaces (hj : s.core.journal = none)
    (hnew : UpTo s.core.memory entry.path entry.version)
    (hr : (install sha256 entry s).result = r) :
    Meets (install sha256 entry) s (Replacing s entry r) fun _ _ => True := by
  have hwaits : ∀ (u : ReceiverSession) (e : ReceiverStep), u.core.journal = none → e.Waiting →
      e.Steady ∧ Replacing s entry r u e := fun u _ _ he => ⟨he.steady, replacing_of_waiting u he⟩
  have hmakes : ∀ (u : ReceiverSession) (e : ReceiverStep), u.core.journal = none →
      (e.Waiting ∨ ∃ place ∈ directoryPlaces entry.path, ∃ node, e = .madeDirectory place node) →
      e.Steady ∧ Replacing s entry r u e := by
    rintro u e hu (he | ⟨place, hplace, node, rfl⟩)
    · exact hwaits u e hu he
    · exact ⟨trivial, .inr ⟨hu, hplace⟩⟩
  unfold install at hr ⊢
  refine Meets.known hr ledger_meets fun l t₀ h₀ hr₀ => ?_
  obtain ⟨rfl, hl⟩ := h₀
  refine Meets.knownCheck hr₀ fun _ _ hr₁ => ?_
  refine Meets.known hr₁ ((receiveObject_only (fun _ he => he) _).prepares hj hwaits)
    fun bytes t₁ h₁ hr₂ => ?_
  have hj₁ := h₁.journal.trans hj
  refine Meets.known hr₂ ((openParent_only (fun _ he => .inl he) fun _ place hplace node =>
    .inr ⟨place, hplace, node, rfl⟩).prepares hj₁ hmakes) fun _ t₂ h₂ hr₃ => ?_
  have hj₂ := h₂.journal.trans hj₁
  refine Meets.known hr₃ (Only.prepares (P := ReceiverStep.Waiting) ?_ hj₂ hwaits)
    fun found t₃ h₃ hr₄ => ?_
  · refine .bind (stat_only _) fun found => ?_
    cases found with
    | none => exact .pure _
    | some node =>
      exact .bind (.ofExcept _) fun _ => .bind (readDigest_only (fun _ he => he) _) fun _ => .pure _
  have h := (h₁.trans h₂).trans h₃
  by_cases hsame : found = some (entry.sha256, entry.size)
  · rw [if_pos hsame] at hr₄ ⊢
    refine Meets.known hr₄ (ask_only (fun _ he => he) |>.prepares (h₃.journal.trans hj₂) hwaits)
      fun a t₄ h₄ hr₅ => Meets.knownCheck hr₅ fun _ _ hr₆ => ?_
    have h' := h.trans h₄
    refine recordSame_replaces h' (h'.journal.trans hj) (h'.memory.trans hl) ?_ hr₆
    rw [h'.memory]
    exact hnew
  · rw [if_neg hsame]
    refine (replaceFile_replaces (h.journal.trans hj) ?_ bytes).mono (fun _ _ h => h) fun _ _ _ => trivial
    rw [h.memory]
    exact hnew

end Install

variable (sha256) in
/-- What an application does once recovery is through. -/
def applyRecovered (entry : DirectoryEntry) : ReceiverProc Applied := do
  match (← ledger).files.lookup entry.path with
  | none => install sha256 entry
  | some previous => do
    ofExcept (ensure (previous.version != entry.version || previous.sha256 == entry.sha256)
      "Same directory version has different content.")
    if entry.version ≤ previous.version then return previous
    else install sha256 entry

theorem apply_eq (entry : DirectoryEntry) : apply sha256 entry = (do
    ofExcept (reportOf entry).validate
    recover sha256
    applyRecovered sha256 entry) := rfl

/-- What is returned for a version that is not above the recorded one. -/
def replayAnswer (entry : DirectoryEntry) (previous : Applied) : Except Error Applied :=
  if entry.version = previous.version ∧ entry.sha256 ≠ previous.sha256 then
    .error (.message "Same directory version has different content.")
  else .ok previous

/-- A version that is not above the recorded one is left alone. -/
theorem applyRecovered_recorded {entry : DirectoryEntry} {previous : Applied}
    (hprevious : recordOf s.core.memory entry.path = some previous)
    (hle : entry.version ≤ previous.version) :
    (applyRecovered sha256 entry s).events = [] ∧
      (applyRecovered sha256 entry s).result = replayAnswer entry previous := by
  obtain ⟨l, hm, hl⟩ := Option.bind_eq_some_iff.mp hprevious
  have hmeets : Meets (applyRecovered sha256 entry) s (fun _ _ => False) fun r _ =>
      r = replayAnswer entry previous := by
    unfold applyRecovered ledger
    rw [meets_bind]
    refine Meets.read ?_
    rw [hm]
    dsimp only
    rw [meets_pure]
    dsimp only
    rw [hl]
    dsimp only
    refine Meets.decide (fun u hu => ?_) fun e he => ?_
    · rw [if_pos hle, meets_pure, replayAnswer]
      rw [ensure_eq_ok] at hu
      rw [if_neg fun h => by simp [h.1, Ne.symm h.2] at hu]
    · unfold ensure at he
      split at he
      · contradiction
      · rename_i hfalse
        simp only [Bool.or_eq_true, bne_iff_ne, beq_iff_eq, not_or, not_not] at hfalse
        rw [replayAnswer, if_pos ⟨hfalse.1.symm, Ne.symm hfalse.2⟩]
        exact congrArg _ (Except.error.inj he).symm
  exact ⟨List.eq_nil_iff_forall_not_mem.mpr fun e he => hmeets.1.mem e he, hmeets.2⟩

/-- A newer version goes on with what it returns. -/
theorem applyRecovered_replaces {entry : DirectoryEntry} (hj : s.core.journal = none) :
    Meets (applyRecovered sha256 entry) s
      (Replacing s entry (applyRecovered sha256 entry s).result) fun _ _ => True := by
  generalize hr : (applyRecovered sha256 entry s).result = r
  unfold applyRecovered at hr ⊢
  refine Meets.known hr ledger_meets fun l t₀ h₀ hr₀ => ?_
  obtain ⟨rfl, hl⟩ := h₀
  have hrecord : recordOf t₀.core.memory entry.path = l.files.lookup entry.path := by
    rw [hl]
    rfl
  cases hlookup : l.files.lookup entry.path with
  | none =>
    refine install_replaces hj (fun applied h => ?_) ?_
    · rw [hrecord, hlookup] at h
      contradiction
    · rw [← hr₀]
      simp only [hlookup]
  | some previous =>
    simp only [hlookup] at hr₀ ⊢
    refine Meets.knownCheck hr₀ fun _ _ hr₁ => ?_
    by_cases hle : entry.version ≤ previous.version
    · rw [if_pos hle, meets_pure]
      trivial
    · rw [if_neg hle] at hr₁ ⊢
      refine install_replaces hj (fun applied h => ?_) hr₁
      rw [hrecord, hlookup] at h
      cases h
      exact (not_le.mp hle).le

/-- An application that recovers goes on with what is left to do. -/
theorem apply_of_recovered {entry : DirectoryEntry} {u v : Unit}
    (hvalid : (reportOf entry).validate = .ok u) (hrecovered : (recover sha256 s).result = .ok v) :
    (apply sha256 entry s).events = (recover sha256 s).events ++
        (applyRecovered sha256 entry ((recover sha256).final s)).events ∧
      (apply sha256 entry s).result =
        (applyRecovered sha256 entry ((recover sha256).final s)).result := by
  rw [apply_eq, hvalid]
  refine ⟨(events_bind_ok rfl).trans ?_, (result_bind_ok rfl).trans ?_⟩
  · exact events_bind_ok hrecovered
  · exact result_bind_ok hrecovered

/-- One that does not ends there. -/
theorem apply_of_unrecovered {entry : DirectoryEntry} {u : Unit} {e : Error}
    (hvalid : (reportOf entry).validate = .ok u) (herror : (recover sha256 s).result = .error e) :
    (apply sha256 entry s).events = (recover sha256 s).events ∧
      (apply sha256 entry s).result = .error e := by
  rw [apply_eq, hvalid]
  refine ⟨(events_bind_ok rfl).trans ?_, (result_bind_ok rfl).trans ?_⟩
  · exact events_bind_error herror
  · exact result_bind_error herror

/-! ### Whole sessions -/

/-- A step that neither loads a ledger nor journals or records a version. -/
def Plainly (e : ReceiverStep) : Prop :=
  match e with
  | .loaded _ | .journaled _ | .recorded _ _ => False
  | _ => True

theorem rising_of_plainly {c : ReceiverState} {e : ReceiverStep} (he : Plainly e) : c.Rising e := by
  cases e with
  | loaded | journaled | recorded => exact he.elim
  | _ => trivial

theorem plainly_of_waiting {e : ReceiverStep} (he : e.Waiting) : Plainly e := by
  cases e with
  | answered | edited => trivial
  | _ => exact he.elim

/-- Recovery records what the journal has. -/
theorem rising_of_recovering {c : ReceiverState} {e : ReceiverStep} (he : c.Recovering e) :
    c.Rising e := by
  rcases he with he | ⟨j, hj, he | rfl | rfl | ⟨applied, rfl, hversion⟩⟩
  · exact rising_of_plainly (plainly_of_waiting he)
  · cases e with
    | loaded | journaled | recorded => exact he.elim
    | _ => trivial
  · trivial
  · trivial
  · exact .inl ⟨j, hj, rfl, hversion.symm⟩

theorem rising_of_replacing {entry : DirectoryEntry} {r : Except Error Applied}
    {u : ReceiverSession} {e : ReceiverStep} (he : Replacing s entry r u e) : u.core.Rising e := by
  rcases he with he | ⟨hj, he⟩
  · exact rising_of_recovering he
  · cases e with
    | loaded => exact he.elim
    | journaled j =>
      obtain ⟨rfl, hm, hupTo⟩ := he
      exact ⟨hm, hupTo⟩
    | recorded path applied => exact .inr ⟨hj, he.2⟩
    | _ => trivial

/-- A procedure that only rises. -/
abbrev Rises (p : ReceiverProc α) : Prop :=
  ∀ s, Meets p s (fun u e => u.core.Rising e) (OnSuccess fun _ _ => True)

theorem Only.rises {p : ReceiverProc α} (hp : Only Plainly p) : Rises p := fun s =>
  (hp s).mono (fun _ _ => rising_of_plainly) fun _ _ _ _ _ => trivial

theorem Rises.bind {p : ReceiverProc α} {f : α → ReceiverProc β} (hp : Rises p)
    (hf : ∀ a, Rises (f a)) : Rises (p >>= f) := fun s =>
  Meets.bind (hp s) fun a t _ => hf a t

theorem Rises.attempt {p : ReceiverProc α} (hp : Rises p) : Rises (Proc.attempt p) := fun s => by
  rw [meets_attempt]
  exact (hp s).mono (fun _ _ h => h) fun _ _ _ _ _ => trivial

theorem Rises.ite {c : Prop} [Decidable c] {p q : ReceiverProc α} (hp : Rises p) (hq : Rises q) :
    Rises (if c then p else q) := fun s => by
  rw [meets_ite]
  exact ⟨fun _ => hp s, fun _ => hq s⟩

theorem recover_rises : Rises (recover sha256) := fun _ =>
  recover_goesOn.mono (fun _ _ => rising_of_recovering) fun _ _ _ _ _ => trivial

theorem apply_rises (entry : DirectoryEntry) : Rises (apply sha256 entry) := fun s => by
  rw [apply_eq]
  refine Meets.check fun _ _ => ?_
  refine Meets.bind (recover_goesOn.mono (fun _ _ => rising_of_recovering) fun _ _ h => h)
    fun _ t ht => ?_
  exact (applyRecovered_replaces ht).mono (fun _ _ => rising_of_replacing) fun _ _ _ _ _ => trivial

theorem applyWithRetry_rises (entry : DirectoryEntry) (left : Nat) :
    Rises (applyWithRetry sha256 entry left) := by
  induction left with
  | zero => exact apply_rises entry
  | succ left ih =>
    unfold applyWithRetry
    refine .bind (.attempt (apply_rises _)) fun r => ?_
    cases r with
    | ok applied => exact (Only.pure _).rises
    | error e =>
      exact .bind (ask_only fun _ => plainly_of_waiting).rises fun _ => .ite ih (Only.fail _).rises

theorem confirmEntry_rises (entry : DirectoryEntry) : Rises (confirmEntry sha256 entry) := by
  have hwait : ∀ e : ReceiverStep, e.Waiting → Plainly e := fun _ => plainly_of_waiting
  unfold confirmEntry
  exact Only.rises (.bind (appliedAt_only _) fun _ => .bind (openThere_only hwait _) fun _ =>
    .bind (readDigest_only hwait _) fun _ => .bind (.ofExcept _) fun _ => .bind (.emit trivial)
      fun _ => .bind (saveFile_only hwait trivial) fun _ => .bind (.emit trivial) fun _ =>
        .bind (ask_only hwait) fun _ => .bind (.ofExcept _) fun _ => .bind (.emit trivial) fun _ =>
          saveFile_only hwait trivial)

theorem syncEntry_rises (attempts : Nat) (entry : DirectoryEntry) :
    Rises (syncEntry sha256 attempts entry) := by
  unfold syncEntry
  refine .bind ledger_only.rises fun l => .ite (.ite ?_ (Only.pure 0).rises) (.ite ?_ ?_)
  · exact Only.rises (.bind (.emit trivial) fun _ =>
      .bind (saveFile_only (fun _ => plainly_of_waiting) trivial) fun _ => .pure 0)
  · exact .bind (confirmEntry_rises entry) fun _ => (Only.pure 0).rises
  · exact .bind (applyWithRetry_rises entry _) fun _ => .bind (confirmEntry_rises entry) fun _ =>
      (Only.pure 1).rises

theorem syncEntries_rises (attempts : Nat) (entries : List DirectoryEntry) (count : Nat) :
    Rises (syncEntries sha256 attempts entries count) := by
  induction entries generalizing count with
  | nil => exact (Only.pure count).rises
  | cons entry rest ih =>
    rw [syncEntries]
    exact .bind (syncEntry_rises attempts entry) fun _ => ih _

theorem sync_rises (attempts : Nat) : Rises (sync sha256 attempts) := by
  have hwait : ∀ e : ReceiverStep, e.Waiting → Plainly e := fun _ => plainly_of_waiting
  unfold sync
  exact .bind recover_rises fun _ => .bind (ask_only hwait).rises fun _ =>
    .bind (Only.ofExcept _).rises fun _ => .bind (Only.ofExcept _).rises fun _ =>
      .bind (syncEntries_rises attempts _ 0) fun _ => .bind (ask_only hwait).rises fun _ =>
        .bind (Only.ofExcept _).rises fun _ => .bind (Only.emit trivial).rises fun _ =>
          .bind (Only.ofExcept _).rises fun _ => (Only.pure _).rises

theorem openReceiver_rises : Rises (openReceiver sha256) := fun s => by
  have hwait : ∀ e : ReceiverStep, e.Waiting → Plainly e := fun _ => plainly_of_waiting
  unfold openReceiver
  refine Meets.step trivial ?_
  have hload : Meets load (s.apply .closed) (fun u e => u.core.Rising e)
      (OnSuccess fun _ _ => True) := by
    unfold load
    refine askNext_then (fun _ _ he => rising_of_plainly (hwait _ he)) fun t ht =>
      Meets.check fun binding _ => Meets.read ?_
    have hnone : t.core.memory = none := ht.memory
    cases hdisk : t.core.disk with
    | none =>
      dsimp only
      rw [meets_emit]
      exact ⟨⟨hnone, .inr ⟨hdisk, rfl⟩⟩, fun _ _ => trivial⟩
    | some l =>
      refine Meets.check fun _ _ => ?_
      rw [meets_emit]
      exact ⟨⟨hnone, .inl hdisk⟩, fun _ _ => trivial⟩
  refine Meets.bind hload fun _ t _ => ?_
  have hrest : Rises (do save; recover sha256 : ReceiverProc Unit) :=
    .bind (saveFile_only (e := .persist) hwait trivial).rises fun _ => recover_rises
  refine Meets.bind (hrest.attempt t) fun r u _ => ?_
  cases r with
  | ok _ => exact (Only.pure ()).rises u
  | error e => exact (Only.bind (.emit trivial) fun _ => .fail e).rises u

end ReceiverProc

variable {sha256 : Bytes → String} {s : ReceiverSession}

theorem ReceiverCall.steps_rise (call : ReceiverCall) :
    Guarded ReceiverSession.apply (fun u e => u.core.Rising e) s (call.steps sha256 s) := by
  cases call with
  | opened => exact (ReceiverProc.openReceiver_rises s).1
  | recovered => exact (ReceiverProc.recover_rises s).1
  | applied entry => exact (ReceiverProc.apply_rises entry s).1
  | synced attempts => exact (ReceiverProc.sync_rises attempts s).1

theorem ReceiverSession.trace_rises (calls : List (ReceiverCall × Option Nat)) :
    Guarded ReceiverSession.apply (fun u e => u.core.Rising e) s (s.trace sha256 calls) := by
  induction calls generalizing s with
  | nil => trivial
  | cons first rest ih =>
    refine guarded_append.mpr ⟨?_, ih⟩
    obtain ⟨call, cut⟩ := first
    cases cut with
    | none => exact call.steps_rise
    | some k => exact guarded_append.mpr ⟨call.steps_rise.take k, trivial, trivial⟩

theorem grounded_initial (tree : DestinationTree) (answers : Nat → ReceiverAnswer) :
    (ReceiverSession.initial tree answers).core.Grounded := ⟨nofun, nofun, nofun⟩

/-- Between any two points of a run no version on disk falls, and none in memory unless the
receiver was closed between them. -/
theorem versions_rise {pre mid post : List ReceiverStep} (h : s.core.Grounded)
    (htrace : Guarded ReceiverSession.apply (fun u e => u.core.Rising e) s (pre ++ mid ++ post)) :
    Upward (after ReceiverSession.apply s pre).core.disk
        (after ReceiverSession.apply s (pre ++ mid)).core.disk ∧
      (.closed ∉ mid → Upward (after ReceiverSession.apply s pre).core.memory
        (after ReceiverSession.apply s (pre ++ mid)).core.memory) := by
  rw [guarded_append, guarded_append] at htrace
  obtain ⟨⟨hpre, hmid⟩, -⟩ := htrace
  have hground : (after ReceiverSession.apply s pre).core.Grounded :=
    hpre.invariant (I := fun u => u.core.Grounded) h fun _ _ hu he => hu.step he
  rw [after_append]
  generalize after ReceiverSession.apply s pre = t at hmid hground
  have hhistory := hmid.history (m := []) (I := fun l u => u.core.Grounded ∧
    Upward t.core.disk u.core.disk ∧ (.closed ∉ l → Upward t.core.memory u.core.memory))
    ⟨hground, .refl _, fun _ => .refl _⟩ fun l u e ⟨hu, hdisk, hmemory⟩ he => by
      refine ⟨hu.step he, hdisk.trans hu.disk_rises, fun hclosed => ?_⟩
      rw [List.mem_append, not_or, List.mem_singleton] at hclosed
      exact (hmemory hclosed.1).trans (hu.memory_rises he (Ne.symm hclosed.2))
  exact hhistory.2

/-! ### Names -/

/-- A name under which the receiver retains a file. -/
def retainedName (name : String) : Bool := (stripLead ".mirelay-history-" name).isSome

theorem reserved_of_retainedName {name : String} (h : retainedName name = true) :
    reserved name.toList = true := by
  obtain ⟨id, hid⟩ := Option.isSome_iff_exists.mp h
  exact reserved_of_stripLead hid (by decide)

theorem retainedName_incoming (id : String) : retainedName (".mirelay-incoming-" ++ id) = false := by
  have hlead : ".mirelay-history-".toList.isPrefixOf (".mirelay-incoming-" ++ id).toList = false := by
    rw [String.toList_append]
    rfl
  rw [retainedName, stripLead, hlead]
  rfl

/-- The names of a valid path are not reserved. -/
theorem not_reserved_of_validatePath {path : String} {u : Unit} (h : validatePath path = .ok u) :
    ∀ part ∈ components path, reserved part = false := by
  intro part hpart
  have hvalid := (validComponent_of_validatePath h hpart).1
  simp only [validComponent, Bool.and_eq_true, Bool.not_eq_true'] at hvalid
  rw [reserved]
  exact hvalid.1.2

theorem components_of_isAncestor {a p : String} (h : IsAncestor a p) :
    ∃ rest, rest ≠ [] ∧ components p = components a ++ rest := by
  obtain ⟨r, hr⟩ := h
  refine ⟨r.splitOn '/', List.splitOn_ne_nil _ _, ?_⟩
  rw [components, hr, List.splitOn_append_cons_self]
  rfl

theorem fileName_mem (path : String) : (fileName path).toList ∈ components path := by
  cases hlast : (components path).getLast? with
  | none => exact absurd (List.getLast?_eq_none_iff.mp hlast) (List.splitOn_ne_nil _ _)
  | some part =>
    rw [fileName, hlast, Option.getD_some, String.toList_ofList]
    exact List.mem_of_getLast? hlast

/-- The directories above a valid path have names of that path. -/
theorem notReserved_of_directoryPlaces {path : String} {u : Unit} (h : validatePath path = .ok u)
    {place : String × String} (hplace : place ∈ directoryPlaces path) :
    reserved place.2.toList = false := by
  obtain ⟨directory, hd, rfl⟩ := List.mem_map.mp hplace
  obtain ⟨rest, -, hrest⟩ := components_of_isAncestor (mem_pathAncestors.mp hd)
  refine not_reserved_of_validatePath h _ ?_
  rw [hrest]
  exact List.mem_append_left _ (fileName_mem directory)

/-- The components but the last can be told from the parent of a path. -/
theorem dropLast_eq_of_parentPath {p q : String} (hp : (components p).dropLast ≠ [])
    (hne : [] ∉ components p) (h : parentPath p = parentPath q) :
    (components p).dropLast = (components q).dropLast := by
  rw [parentPath, parentPath, String.ofList_inj] at h
  have hslash (path : String) : ∀ part ∈ (components path).dropLast, '/' ∉ part := fun part hpart =>
    notMem_of_mem_splitOn (List.mem_of_mem_dropLast hpart)
  have hq : (components q).dropLast ≠ [] := by
    intro hq
    rw [hq, List.intercalate_nil] at h
    have hsplit := List.splitOn_intercalate '/' (hslash p) hp
    rw [h] at hsplit
    refine hne (List.mem_of_mem_dropLast (l := components p) ?_)
    rw [← hsplit]
    simp
  rw [← List.splitOn_intercalate '/' (hslash p) hp, h, List.splitOn_intercalate '/' (hslash q) hq]

/-- No directory above a valid path has the place of the path. -/
theorem ne_placeOf_of_directoryPlaces {path : String} {u : Unit} (h : validatePath path = .ok u)
    {place : String × String} (hplace : place ∈ directoryPlaces path) : place ≠ placeOf path := by
  obtain ⟨directory, hd, rfl⟩ := List.mem_map.mp hplace
  obtain ⟨rest, hrest, hsplit⟩ := components_of_isAncestor (mem_pathAncestors.mp hd)
  intro heq
  have hnil : [] ∉ components path := fun hnil => by
    have hvalid := (validComponent_of_validatePath h hnil).1
    simp [validComponent] at hvalid
  have hlength : (components path).length = (components directory).length + rest.length := by
    rw [hsplit, List.length_append]
  have hpos : 0 < rest.length := List.length_pos_iff.mpr hrest
  have hsome : 0 < (components directory).length := List.length_pos_iff.mpr (List.splitOn_ne_nil _ _)
  have hdrop : (components path).dropLast ≠ [] := by
    rw [← List.length_pos_iff, List.length_dropLast]
    omega
  have hsame := dropLast_eq_of_parentPath hdrop hnil (Prod.ext_iff.mp heq).1.symm
  have hsame' := congrArg List.length hsame
  rw [List.length_dropLast, List.length_dropLast] at hsame'
  omega

/-! ### Failing applications -/

/-- The target of a path, or the place of a retained copy. -/
def Guards (path : String) (place : String × String) : Prop :=
  place = placeOf path ∨ retainedName place.2 = true

/-- As long as no version is journaled, what follows recovery leaves the target, the retained copies
and the ledger on disk alone, unless the call fails because the replaced ledger was not synced. -/
theorem ReceiverProc.Replacing.leaves {entry : DirectoryEntry} {r : Except Error Applied}
    {u : ReceiverSession} {step : ReceiverStep} {e : Error} {v : Unit}
    (hvalid : validatePath entry.path = .ok v) (hr : r = .error e)
    (h : ReceiverProc.Replacing s entry r u step) (hj : u.core.journal = none)
    (hown : ∀ tree, step ≠ .edited tree) :
    (∀ place, Guards entry.path place →
        (u.apply step).core.tree.lookup place = u.core.tree.lookup place) ∧
      ((u.apply step).core.disk = u.core.disk ∨ ∃ n, (s.answers n).saved = .unsynced e) := by
  have hinsert (q : String × String) (node : DestinationNode)
      (hq : ∀ place, Guards entry.path place → place ≠ q) : ∀ place, Guards entry.path place →
        (u.core.tree.insert q node).lookup place = u.core.tree.lookup place := fun place hplace => by
    rw [Files.lookup_insert, if_neg (hq place hplace)]
  rcases h with (hwait | ⟨j, hsome, -⟩) | ⟨-, hstep⟩
  · cases step with
    | answered => exact ⟨fun _ _ => rfl, .inl rfl⟩
    | edited tree => exact absurd rfl (hown tree)
    | _ => exact hwait.elim
  · rw [hj] at hsome
    contradiction
  · cases step with
    | madeDirectory q node =>
      refine ⟨hinsert q node fun place hplace heq => ?_, .inl rfl⟩
      subst heq
      rcases hplace with htarget | hretained
      · exact ne_placeOf_of_directoryPlaces hvalid hstep htarget
      · have hreserved := reserved_of_retainedName hretained
        rw [notReserved_of_directoryPlaces hvalid hstep] at hreserved
        contradiction
    | staged q node =>
      obtain ⟨id, rfl⟩ := hstep
      have hreserved : reserved (parentPath entry.path, ".mirelay-incoming-" ++ id).2.toList = true :=
        reserved_append (by decide)
      refine ⟨hinsert _ node fun place hplace heq => ?_, .inl rfl⟩
      subst heq
      rcases hplace with htarget | hretained
      · exact placeOf_ne_of_reserved (not_reserved_of_validatePath hvalid) hreserved htarget.symm
      · rw [retainedName_incoming] at hretained
        contradiction
    | persist => exact ⟨fun _ _ => rfl, .inr (hstep e hr)⟩
    | recorded | journaled => exact ⟨fun _ _ => rfl, .inl rfl⟩
    | _ => exact hstep.elim

/-- Wherever an answer comes from, it is one of those at the beginning. -/
theorem ReceiverSession.answers_after (s : ReceiverSession) (l : List ReceiverStep) :
    ∃ k, ∀ n, (after ReceiverSession.apply s l).answers n = s.answers (n + k) := by
  induction l generalizing s with
  | nil => exact ⟨0, fun _ => rfl⟩
  | cons e l ih =>
    obtain ⟨k, hk⟩ := ih (s.apply e)
    cases e with
    | answered => exact ⟨k + 1, fun n => by rw [after_cons, hk, ← Nat.add_assoc]; rfl⟩
    | _ => exact ⟨k, hk⟩

/-- What a failing application does after recovery. -/
theorem ReceiverProc.failed_leaves {entry : DirectoryEntry} {e : Error}
    (hvalid : (reportOf entry).validate = .ok ())
    (hr : (ReceiverProc.apply sha256 entry s).result = .error e) :
    ∃ rest, (ReceiverProc.apply sha256 entry s).events =
        (ReceiverProc.recover sha256 s).events ++ rest ∧
      ((∀ j, .journaled j ∉ rest) → ∀ before step later, rest = before ++ step :: later →
        (∀ tree, step ≠ .edited tree) →
        let u := after ReceiverSession.apply s ((ReceiverProc.recover sha256 s).events ++ before)
        (∀ place, Guards entry.path place →
            (u.apply step).core.tree.lookup place = u.core.tree.lookup place) ∧
          ((u.apply step).core.disk = u.core.disk ∨ ∃ n, (s.answers n).saved = .unsynced e)) := by
  cases hrecovered : (ReceiverProc.recover sha256 s).result with
  | error err =>
    refine ⟨[], ?_, fun _ before step later h => ?_⟩
    · rw [List.append_nil]
      exact (ReceiverProc.apply_of_unrecovered hvalid hrecovered).1
    · exact absurd h (by simp)
  | ok v =>
    obtain ⟨hevents, hresult⟩ := ReceiverProc.apply_of_recovered hvalid hrecovered
    refine ⟨_, hevents, fun hnone before step later hsplit hown => ?_⟩
    have hj : ((ReceiverProc.recover sha256).final s).core.journal = none :=
      ReceiverProc.recover_goesOn.2 v hrecovered
    -- Without a journaled version no journal comes up, hence every step is one of preparation.
    have hown' : ∀ u step, ReceiverProc.Replacing ((ReceiverProc.recover sha256).final s) entry
        (ReceiverProc.applyRecovered sha256 entry ((ReceiverProc.recover sha256).final s)).result u
        step ∧ (∀ j, step ≠ .journaled j) → u.core.journal = none →
          (u.apply step).core.journal = none := by
      intro u step h hu
      cases step with
      | journaled j => exact absurd rfl (h.2 j)
      | cleared => rfl
      | _ => exact hu
    have hguard := ((ReceiverProc.applyRecovered_replaces hj).1.and
      (Guarded.of_mem (P := fun step => ∀ j, step ≠ .journaled j) fun step hstep j h =>
        hnone j (h ▸ hstep))).strengthen hj fun u step hu h =>
        hown' u step h hu
    rw [hsplit, guarded_append, guarded_cons] at hguard
    obtain ⟨-, ⟨⟨hstep, -⟩, hu⟩, -⟩ := hguard
    rw [after_append]
    obtain ⟨hlookup, hdisk⟩ := hstep.leaves (DirectoryVersion.validate_ok
      ((DirectoryState.validate_ok hvalid).2.1 entry List.mem_cons_self).1).1 (hresult.symm.trans hr) hu hown
    refine ⟨hlookup, hdisk.imp_right fun ⟨n, hn⟩ => ?_⟩
    obtain ⟨k, hk⟩ := s.answers_after (ReceiverProc.recover sha256 s).events
    exact ⟨n + k, (congrArg ReceiverAnswer.saved (hk n)).symm.trans hn⟩

/-- Whatever happens, no version on disk ever falls, and none in memory while the receiver is open.
A call for a valid version first finishes what the journal has, which without a journal is to wait.
After that a version that is not above the recorded one changes nothing, and is an error if it is
the same version with other content; and a call that fails without having journaled the version
leaves the target, the retained copies and the ledger on disk as they were, unless it fails because
the ledger was replaced but not synced. -/
theorem replays_leave_newer (sha256 : Bytes → String) (tree : DestinationTree)
    (answers : Nat → ReceiverAnswer) (calls : List (ReceiverCall × Option Nat)) :
    (∀ pre mid post, (ReceiverSession.initial tree answers).trace sha256 calls = pre ++ mid ++ post →
      Upward (after ReceiverSession.apply (.initial tree answers) pre).core.disk
          (after ReceiverSession.apply (.initial tree answers) (pre ++ mid)).core.disk ∧
        (.closed ∉ mid → Upward (after ReceiverSession.apply (.initial tree answers) pre).core.memory
          (after ReceiverSession.apply (.initial tree answers) (pre ++ mid)).core.memory)) ∧
    ∀ (s : ReceiverSession) (entry : DirectoryEntry), (reportOf entry).validate = .ok () →
      (s.core.journal = none → ∀ e ∈ (ReceiverProc.recover sha256 s).events, e.Waiting) ∧
      (∀ previous,
        recordOf ((ReceiverProc.recover sha256).final s).core.memory entry.path = some previous →
          entry.version ≤ previous.version →
            (ReceiverProc.apply sha256 entry s).events = (ReceiverProc.recover sha256 s).events ∧
            (ReceiverProc.apply sha256 entry s).result =
              (ReceiverProc.recover sha256 s).result >>= fun _ =>
                ReceiverProc.replayAnswer entry previous) ∧
      ∀ e, (ReceiverProc.apply sha256 entry s).result = .error e →
        ∃ rest, (ReceiverProc.apply sha256 entry s).events =
            (ReceiverProc.recover sha256 s).events ++ rest ∧
          ((∀ j, .journaled j ∉ rest) → ∀ before step later, rest = before ++ step :: later →
            (∀ tree, step ≠ .edited tree) →
            let u := after ReceiverSession.apply s ((ReceiverProc.recover sha256 s).events ++ before)
            (∀ place, Guards entry.path place →
                (u.apply step).core.tree.lookup place = u.core.tree.lookup place) ∧
              ((u.apply step).core.disk = u.core.disk ∨
                ∃ n, (s.answers n).saved = .unsynced e)) := by
  constructor
  · intro pre mid post hsplit
    have htrace := @ReceiverSession.trace_rises sha256 (.initial tree answers) calls
    rw [hsplit] at htrace
    exact versions_rise (grounded_initial tree answers) htrace
  · intro s entry hvalid
    refine ⟨ReceiverProc.recover_waits, fun previous hprevious hle => ?_,
      fun e => ReceiverProc.failed_leaves hvalid⟩
    cases hrecovered : (ReceiverProc.recover sha256 s).result with
    | error err => exact ReceiverProc.apply_of_unrecovered hvalid hrecovered
    | ok v =>
      obtain ⟨hrest, hanswer⟩ := @ReceiverProc.applyRecovered_recorded sha256 _ _ _ hprevious hle
      obtain ⟨hevents, hresult⟩ := ReceiverProc.apply_of_recovered hvalid hrecovered
      refine ⟨?_, hresult.trans hanswer⟩
      rw [hevents, hrest, List.append_nil]

/-- A receiver that took over the sample version. -/
def afterNote : ReceiverSession :=
  after ReceiverSession.apply (.initial ∅ fun _ => willingAnswer)
    ((ReceiverSession.initial ∅ fun _ => willingAnswer).trace constantDigest
      [(.opened, none), (.applied reportedNote, none)])

theorem replays_leave_newer_note :
    (recordOf afterNote.core.disk reportedNote.path).isSome ∧
      ∀ e ∈ (ReceiverProc.apply constantDigest reportedNote afterNote).events, e.Waiting := by
  have hcheck : (afterNote.core.journal.isNone &&
      (recordOf afterNote.core.disk reportedNote.path).isSome &&
        ((recordOf ((ReceiverProc.recover constantDigest).final afterNote).core.memory
          reportedNote.path).any fun previous => decide (reportedNote.version ≤ previous.version))) =
            true := by decide +kernel
  simp only [Bool.and_eq_true, Option.isNone_iff_eq_none, Option.any_eq_true,
    decide_eq_true_eq] at hcheck
  obtain ⟨⟨hj, hdisk⟩, previous, hprevious, hle⟩ := hcheck
  obtain ⟨hwaits, hreplayed, -⟩ := (replays_leave_newer constantDigest ∅ (fun _ => willingAnswer)
    []).2 afterNote reportedNote (by decide +kernel)
  rw [(hreplayed previous hprevious hle).1]
  exact ⟨hdisk, hwaits hj⟩

/-- Another version, reported besides. -/
def reportedOther : DirectoryEntry where
  path := "other.bin"
  version := 1
  deliveryId := "88888888-8888-8888-8888-888888888888"
  sha256 := constantDigest []
  size := 1
  mediaType := "application/octet-stream"
  acknowledged := false
  conflict := false

/-- Answers of which one is that the replaced file was not synced. -/
def unsyncedAt (k n : Nat) : ReceiverAnswer :=
  if n = k then { willingAnswer with saved := .unsynced (.message "The sync failed.") }
  else willingAnswer

/-- A receiver with one version recorded and the journal of another one pending. -/
def pendingOther : ReceiverSession :=
  after ReceiverSession.apply (.initial ∅ (unsyncedAt 20))
    ((ReceiverSession.initial ∅ (unsyncedAt 20)).trace constantDigest
      [(.opened, none), (.applied reportedNote, none), (.applied reportedOther, none)])

/-- A receiver of a directory that has the content of the version already. -/
def unsyncedNote : ReceiverSession :=
  let tree := (∅ : DestinationTree).insert ("", "note.bin") ⟨1, 5, .file [1]⟩
  after ReceiverSession.apply (.initial tree (unsyncedAt 7))
    ((ReceiverSession.initial tree (unsyncedAt 7)).trace constantDigest [(.opened, none)])

/-- A replay finishes another version whose journal is pending, and so changes the directory and the
ledger; and a call that fails although the replaced ledger is in place has changed that. -/
theorem replay_finishes_pending :
    ((∃ previous, recordOf pendingOther.core.memory reportedNote.path = some previous ∧
        reportedNote.version ≤ previous.version) ∧
      (pendingOther.core.tree.lookup (placeOf reportedOther.path)).isNone ∧
      (((ReceiverProc.apply constantDigest reportedNote).final pendingOther).core.tree.lookup
        (placeOf reportedOther.path)).isSome ∧
      (recordOf pendingOther.core.disk reportedOther.path).isNone ∧
      (recordOf ((ReceiverProc.apply constantDigest reportedNote).final pendingOther).core.disk
        reportedOther.path).isSome) ∧
    (∃ e, (ReceiverProc.apply constantDigest reportedNote unsyncedNote).result = .error e) ∧
      (∀ j, .journaled j ∉ (ReceiverProc.apply constantDigest reportedNote unsyncedNote).events) ∧
      (recordOf unsyncedNote.core.disk reportedNote.path).isNone ∧
      (recordOf ((ReceiverProc.apply constantDigest reportedNote).final unsyncedNote).core.disk
        reportedNote.path).isSome := by
  have herror : ∀ x : Except Error Applied, x.isOk = false → ∃ e, x = .error e := by
    rintro (e | applied) h
    · exact ⟨e, rfl⟩
    · contradiction
  have hpending : ((recordOf pendingOther.core.memory reportedNote.path).any (fun previous =>
        decide (reportedNote.version ≤ previous.version)) &&
      (pendingOther.core.tree.lookup (placeOf reportedOther.path)).isNone &&
      (((ReceiverProc.apply constantDigest reportedNote).final pendingOther).core.tree.lookup
        (placeOf reportedOther.path)).isSome &&
      (recordOf pendingOther.core.disk reportedOther.path).isNone &&
      (recordOf ((ReceiverProc.apply constantDigest reportedNote).final pendingOther).core.disk
        reportedOther.path).isSome) = true := by decide +kernel
  have hunsynced : (!(ReceiverProc.apply constantDigest reportedNote unsyncedNote).result.isOk &&
      !(ReceiverProc.apply constantDigest reportedNote unsyncedNote).events.any (fun e =>
        match e with
        | .journaled _ => true
        | _ => false) &&
      (recordOf unsyncedNote.core.disk reportedNote.path).isNone &&
      (recordOf ((ReceiverProc.apply constantDigest reportedNote).final unsyncedNote).core.disk
        reportedNote.path).isSome) = true := by decide +kernel
  simp only [Bool.and_eq_true, Bool.not_eq_true', Option.any_eq_true, decide_eq_true_eq] at hpending hunsynced
  obtain ⟨⟨⟨⟨hrecorded, hfree⟩, hinstalled⟩, hunrecorded⟩, hadded⟩ := hpending
  obtain ⟨⟨⟨hfailed, hquiet⟩, hfresh⟩, hreplaced⟩ := hunsynced
  refine ⟨⟨hrecorded, hfree, hinstalled, hunrecorded, hadded⟩, herror _ hfailed, fun j hj => ?_,
    hfresh, hreplaced⟩
  exact List.any_eq_false.mp hquiet _ hj rfl

end MiRelay
