import MiRelay.Client.Receiver

/-!
# Which steps the procedures of a receiver take

A procedure takes only steps of one kind when every step that stands in it is of
that kind. One rule for each procedure names the steps that it can take itself.
-/

namespace MiRelay

open Proc

/-- A step that only waits for the outside. -/
def ReceiverStep.Waiting : ReceiverStep → Prop
  | .answered => True
  | .edited _ => True
  | _ => False

namespace ReceiverProc

variable {sha256 : Bytes → String} {s : ReceiverSession} {α β : Type}

/-- A procedure that takes only steps of one kind. -/
def Only (P : ReceiverStep → Prop) (p : ReceiverProc α) : Prop :=
  ∀ s, Meets p s (fun _ e => P e) fun _ _ => True

section Rules

variable {P Q : ReceiverStep → Prop}

theorem Only.pure (a : α) : Only P (Pure.pure a : ReceiverProc α) := fun s => by
  rw [meets_pure]
  trivial

theorem Only.fail (e : Error) : Only P (Proc.fail e : ReceiverProc α) := fun s => by
  rw [meets_fail]
  trivial

theorem Only.get : Only P (Proc.get : ReceiverProc ReceiverSession) := fun s => by
  rw [meets_get]
  trivial

theorem Only.ofExcept (x : Except Error α) : Only P (Proc.ofExcept x : ReceiverProc α) := fun s => by
  rw [meets_ofExcept]
  trivial

theorem Only.emit {e : ReceiverStep} (he : P e) : Only P (Proc.emit e : ReceiverProc Unit) :=
  fun s => by
    rw [meets_emit]
    exact ⟨he, trivial⟩

theorem Only.bind {p : ReceiverProc α} {f : α → ReceiverProc β} (hp : Only P p)
    (hf : ∀ a, Only P (f a)) : Only P (p >>= f) := fun s => by
  rw [meets_bind]
  refine ⟨(hp s).1, ?_⟩
  cases (p s).result with
  | ok a => exact hf a _
  | error e => trivial

/-- A check that may fail first. -/
theorem Only.check {x : Except Error α} {f : α → ReceiverProc β}
    (hf : ∀ a, x = .ok a → Only P (f a)) : Only P (Proc.ofExcept x >>= f) := fun s => by
  refine Meets.decide (fun a ha => hf a ha s) fun _ _ => trivial

theorem Only.attempt {p : ReceiverProc α} (hp : Only P p) : Only P (Proc.attempt p) := fun s => by
  rw [meets_attempt]
  exact hp s

theorem Only.ite {c : Prop} [Decidable c] {p q : ReceiverProc α} (hp : Only P p) (hq : Only P q) :
    Only P (if c then p else q) := fun s => by
  rw [meets_ite]
  exact ⟨fun _ => hp s, fun _ => hq s⟩

theorem Only.mono {p : ReceiverProc α} (hp : Only P p) (h : ∀ e, P e → Q e) : Only Q p :=
  fun s => (hp s).mono (fun _ e => h e) fun _ _ h => h

/-- Every step of such a procedure is of the kind. -/
theorem Only.mem {p : ReceiverProc α} (hp : Only P p) {s : ReceiverSession} {e : ReceiverStep}
    (he : e ∈ (p s).events) : P e :=
  (hp s).1.mem e he

end Rules

section Procedures

variable {P : ReceiverStep → Prop}

theorem ledger_only : Only P ledger := by
  unfold ledger
  refine .bind .get fun s => ?_
  cases s.core.memory with
  | none => exact .fail _
  | some l => exact .pure _

theorem stat_only (place : String × String) : Only P (stat place) := by
  unfold stat
  exact .bind .get fun _ => .pure _

theorem appliedAt_only (path : String) : Only P (appliedAt path) := by
  unfold appliedAt
  refine .bind ledger_only fun l => ?_
  cases l.files.lookup path with
  | none => exact .fail _
  | some applied => exact .pure _

variable (hwait : ∀ e, ReceiverStep.Waiting e → P e)

include hwait

theorem ask_only : Only P ask := by
  unfold ask
  refine .bind .get fun s => .bind (.emit (hwait _ trivial)) fun _ => ?_
  cases (s.answers 0).edited with
  | none => exact .pure _
  | some tree => exact .bind (.emit (hwait _ trivial)) fun _ => .pure _

theorem saveFile_only {e : ReceiverStep} (he : P e) : Only P (saveFile e) := by
  unfold saveFile
  refine .bind (ask_only hwait) fun a => ?_
  cases a.saved with
  | saved => exact .emit he
  | failed e => exact .fail _
  | unsynced e => exact .bind (.emit he) fun _ => .fail _

/-- Directories are created only where asked to. -/
theorem openDirectories_only {create : Bool} {places : List (String × String)}
    (hmade : create = true → ∀ place ∈ places, ∀ node, P (.madeDirectory place node)) :
    Only P (openDirectories create places) := by
  induction places with
  | nil => exact .pure _
  | cons place rest ih =>
    have hrest := ih fun hcreate place hplace => hmade hcreate place (List.mem_cons_of_mem _ hplace)
    unfold openDirectories
    refine .bind (ask_only hwait) fun a => .bind (.ofExcept _) fun _ =>
      .bind (stat_only _) fun found => ?_
    cases found with
    | some node => exact .bind (.ofExcept _) fun _ => hrest
    | none =>
      cases create with
      | true =>
        exact .bind ledger_only fun _ => .bind .get fun _ =>
          .bind (.emit (hmade rfl place List.mem_cons_self _)) fun _ => hrest
      | false => exact .bind (.fail _) fun _ => hrest

theorem openParent_only {path : String} {create : Bool}
    (hmade : create = true → ∀ place ∈ directoryPlaces path, ∀ node,
      P (.madeDirectory place node)) : Only P (openParent path create) := by
  unfold openParent
  exact .bind (.ofExcept _) fun _ => openDirectories_only hwait hmade

/-- Opening what is there only waits. -/
theorem openThere_only (path : String) : Only P (openParent path false) :=
  openParent_only hwait fun hcreate => absurd hcreate Bool.false_ne_true

theorem readDigest_only (place : String × String) : Only P (readDigest sha256 place) := by
  unfold readDigest
  refine .bind (ask_only hwait) fun a => .bind (.ofExcept _) fun _ =>
    .bind (stat_only _) fun found => ?_
  cases found with
  | none => exact .fail _
  | some node => exact .ofExcept _

theorem commit_only {j : Journal} {parent name : String}
    (hmoved : P (.moved (parent, j.stage) (parent, name)))
    (hexchanged : P (.exchanged (parent, j.stage) (parent, name))) :
    Only P (commit sha256 j parent name) := by
  unfold commit
  refine .bind (stat_only _) fun found => ?_
  cases found with
  | none => exact .pure _
  | some stage =>
    refine .ite ?_ (.pure _)
    refine .bind (readDigest_only hwait _) fun found => .bind (.ofExcept _) fun _ =>
      .bind (ask_only hwait) fun a => .bind (.ofExcept _) fun _ => .bind (stat_only _) fun target => ?_
    cases target with
    | none => exact .bind (.emit hmoved) fun _ => .bind (ask_only hwait) fun _ => .ofExcept _
    | some target =>
      exact .bind (.ofExcept _) fun _ => .bind (.emit hexchanged) fun _ =>
        .bind (ask_only hwait) fun _ => .ofExcept _

theorem archive_only {j : Journal} {parent : String}
    (hmoved : P (.moved (parent, j.stage) (parent, j.history))) : Only P (archive j parent) := by
  unfold archive
  refine .bind (stat_only _) fun found => ?_
  cases found with
  | none => exact .pure _
  | some _ =>
    exact .bind (ask_only hwait) fun _ => .bind (.ofExcept _) fun _ => .bind (stat_only _) fun _ =>
      .bind (.ofExcept _) fun _ => .bind (.emit hmoved) fun _ =>
        .bind (ask_only hwait) fun _ => .ofExcept _

theorem findConflict_only (hretained : ∀ digest, P (.retained digest)) (j : Journal)
    (parent : String) (history : Option DestinationNode) :
    Only P (findConflict sha256 j parent history) := by
  unfold findConflict
  cases history with
  | none => exact .pure _
  | some _ =>
    exact .bind (.attempt (readDigest_only hwait _)) fun _ => .bind (.emit (hretained _)) fun _ =>
      .pure _

theorem conclude_only (hretained : ∀ digest, P (.retained digest)) {j : Journal}
    (hrecorded : ∀ applied, P (.recorded j.entry.path applied)) (hpersist : P .persist)
    (hcleared : P .cleared) (parent name : String) : Only P (conclude sha256 j parent name) := by
  unfold conclude
  exact .bind (stat_only _) fun _ => .bind (stat_only _) fun _ => .bind (.ofExcept _) fun _ =>
    .bind (findConflict_only hwait hretained _ _ _) fun _ => .bind (ask_only hwait) fun _ =>
      .bind (.emit (hrecorded _)) fun _ => .bind (saveFile_only hwait hpersist) fun _ =>
        .bind (ask_only hwait) fun _ => .bind (.ofExcept _) fun _ => .bind (.emit hcleared) fun _ =>
          .bind (ask_only hwait) fun _ => .ofExcept _

/-- Recovery takes only steps of one kind when it does so for every journal that it accepts. -/
theorem recover_only (hjournal : ∀ j : Journal, (reportOf j.entry).validate = .ok () →
      (∀ u, checkArtifact j.stage ".mirelay-incoming-" = .ok u →
        Only P (commit sha256 j (parentPath j.entry.path) (fileName j.entry.path))) ∧
      (∀ u, checkArtifact j.history ".mirelay-history-" = .ok u →
        Only P (archive j (parentPath j.entry.path))) ∧
      Only P (conclude sha256 j (parentPath j.entry.path) (fileName j.entry.path))) :
    Only P (recover sha256) := by
  unfold recover
  refine .bind (ask_only hwait) fun _ => .bind (.ofExcept _) fun _ => .bind .get fun s => ?_
  cases s.core.journal with
  | none => exact .pure _
  | some j =>
    refine .check fun _ hvalid => .check fun _ hstage => .check fun _ hhistory => ?_
    obtain ⟨hcommit, harchive, hconclude⟩ := hjournal j hvalid
    exact .bind (openThere_only hwait _) fun _ => .bind ledger_only fun _ => .bind .get fun _ =>
      .bind (.ofExcept _) fun _ => .bind (hcommit _ hstage) fun _ =>
        .bind (harchive _ hhistory) fun _ => hconclude

theorem receiveObject_only (entry : DirectoryEntry) : Only P (receiveObject sha256 entry) := by
  unfold receiveObject
  exact .bind (ask_only hwait) fun _ => .bind (.ofExcept _) fun _ => .bind (.ofExcept _) fun _ =>
    .bind (.ofExcept _) fun _ => .bind (.ofExcept _) fun _ => .bind (.ofExcept _) fun _ =>
      .bind (.ofExcept _) fun _ => .pure _

theorem stageCopy_only {entry : DirectoryEntry}
    (hstaged : ∀ id node, P (.staged (parentPath entry.path, ".mirelay-incoming-" ++ id) node))
    (bytes : Bytes) : Only P (stageCopy entry bytes) := by
  unfold stageCopy
  refine .bind (ask_only hwait) fun a => .bind (.ofExcept _) fun _ => .bind (stat_only _) fun _ =>
    .bind (.ofExcept _) fun _ => .bind ledger_only fun l => .bind .get fun _ => ?_
  dsimp only
  cases a.copied with
  | some n => exact .bind (.emit (hstaged a.id _)) fun _ => .fail _
  | none => exact .bind (.emit (hstaged a.id _)) fun _ => .pure _

theorem saveJournal_only {entry : DirectoryEntry}
    (hjournaled : ∀ j : Journal, j.entry = entry → P (.journaled j)) (stage : String) (inode : Nat) :
    Only P (saveJournal entry stage inode) := by
  unfold saveJournal
  refine .bind (ask_only hwait) fun _ => .bind (.ofExcept _) fun _ => .bind ledger_only fun l =>
    .bind .get fun s => ?_
  cases s.core.identityOf l (parentPath entry.path) with
  | none => exact .fail _
  | some identity => exact saveFile_only hwait (hjournaled _ rfl)

theorem install_only {entry : DirectoryEntry}
    (hmade : ∀ place ∈ directoryPlaces entry.path, ∀ node, P (.madeDirectory place node))
    (hstaged : ∀ id node, P (.staged (parentPath entry.path, ".mirelay-incoming-" ++ id) node))
    (hjournaled : ∀ j : Journal, j.entry = entry → P (.journaled j))
    (hrecorded : ∀ applied, P (.recorded entry.path applied)) (hpersist : P .persist)
    (hrecover : Only P (recover sha256)) : Only P (install sha256 entry) := by
  unfold install
  refine .bind ledger_only fun l => .bind (.ofExcept _) fun _ =>
    .bind (receiveObject_only hwait _) fun bytes => .bind (openParent_only hwait fun _ => hmade) fun _ =>
      .bind ?_ fun found => .ite ?_ ?_
  · refine .bind (stat_only _) fun found => ?_
    cases found with
    | none => exact .pure _
    | some node =>
      exact .bind (.ofExcept _) fun _ => .bind (readDigest_only hwait _) fun _ => .pure _
  · exact .bind (ask_only hwait) fun _ => .bind (.ofExcept _) fun _ => .bind (.emit (hrecorded _))
      fun _ => .bind (saveFile_only hwait hpersist) fun _ => appliedAt_only _
  · exact .bind (stageCopy_only hwait hstaged _) fun _ =>
      .bind (saveJournal_only hwait hjournaled _ _) fun _ => .bind hrecover fun _ => appliedAt_only _

omit hwait in
theorem apply_only {entry : DirectoryEntry} (hrecover : Only P (recover sha256))
    (hinstall : (reportOf entry).validate = .ok () → Only P (install sha256 entry)) :
    Only P (apply sha256 entry) := by
  unfold apply
  refine .check fun _ hvalid => .bind hrecover fun _ => .bind ledger_only fun l => ?_
  cases l.files.lookup entry.path with
  | none => exact hinstall hvalid
  | some previous => exact .bind (.ofExcept _) fun _ => .ite (.pure _) (hinstall hvalid)

end Procedures

end ReceiverProc

end MiRelay
