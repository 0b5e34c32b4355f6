import MiRelay.Client.Replays

/-!
# How far an installation is

A version takes its target's place in several durable steps: the staged copy, the
journal, the rename or exchange, the retained copy, the ledger and the removal of
the journal. Recovery sees inodes and names only. This is what it can find between
two steps, relative to what the application began with.
-/

namespace MiRelay

open Proc

/-! ### A directory that nobody else changes -/

/-- From now on no other program changes the directory. -/
def ReceiverSession.Still (s : ReceiverSession) : Prop := ∀ n, (s.answers n).edited = none

/-- The same states, some answers later. -/
structure ReceiverSession.Later (s t : ReceiverSession) : Prop where
  core : t.core = s.core
  answers : ∃ k, ∀ n, t.answers n = s.answers (n + k)

namespace ReceiverSession.Later

variable {s t u : ReceiverSession}

theorem refl (s : ReceiverSession) : s.Later s := ⟨rfl, 0, fun _ => rfl⟩

theorem trans (h : s.Later t) (h' : t.Later u) : s.Later u := by
  obtain ⟨k, hk⟩ := h.answers
  obtain ⟨m, hm⟩ := h'.answers
  exact ⟨h'.core.trans h.core, m + k, fun n => by rw [hm, hk, Nat.add_assoc]⟩

theorem answered (s : ReceiverSession) : s.Later (s.apply .answered) := ⟨rfl, 1, fun _ => rfl⟩

theorem still (h : s.Later t) (hs : s.Still) : t.Still := fun n => by
  obtain ⟨k, hk⟩ := h.answers
  rw [hk]
  exact hs _

end ReceiverSession.Later

namespace ReceiverProc

variable {sha256 : Bytes → String} {s : ReceiverSession} {α β : Type}

/-- As long as nobody else changes the directory, such a procedure only uses up answers. -/
def Idle (p : ReceiverProc α) : Prop :=
  ∀ s : ReceiverSession, s.Still → Meets p s (fun _ e => e = .answered) fun _ _ => True

section Idle

theorem Idle.pure (a : α) : Idle (Pure.pure a : ReceiverProc α) := fun s _ => by
  rw [meets_pure]
  trivial

theorem Idle.fail (e : Error) : Idle (Proc.fail e : ReceiverProc α) := fun s _ => by
  rw [meets_fail]
  trivial

theorem Idle.get : Idle (Proc.get : ReceiverProc ReceiverSession) := fun s _ => by
  rw [meets_get]
  trivial

theorem Idle.ofExcept (x : Except Error α) : Idle (Proc.ofExcept x : ReceiverProc α) :=
  fun s _ => by
    rw [meets_ofExcept]
    trivial

theorem later_of_answered {p : ReceiverProc α} {Q : Except Error α → ReceiverSession → Prop}
    (h : Meets p s (fun _ e => e = .answered) Q) :
    Meets p s (fun u e => e = .answered ∧ s.Later u) fun _ t => s.Later t := by
  have hstep : ∀ u e, s.Later u → e = ReceiverStep.answered → s.Later (u.apply e) := by
    rintro u e hu rfl
    exact hu.trans (.answered u)
  exact (h.strengthen (.refl s) hstep).mono (fun _ _ h => h) fun _ _ h => h.2

/-- Its end is later than its beginning. -/
theorem Idle.later {p : ReceiverProc α} (hp : Idle p) (hs : s.Still) :
    Meets p s (fun u e => e = .answered ∧ s.Later u) fun _ t => s.Later t :=
  later_of_answered (hp s hs)

theorem Idle.bind {p : ReceiverProc α} {f : α → ReceiverProc β} (hp : Idle p)
    (hf : ∀ a, Idle (f a)) : Idle (p >>= f) := fun s hs => by
  rw [meets_bind]
  refine ⟨(hp s hs).1, ?_⟩
  have hlater := (hp.later hs).2
  cases (p s).result with
  | ok a => exact hf a _ (hlater.still hs)
  | error e => trivial

theorem ledger_idle : Idle ledger := by
  unfold ledger
  refine .bind .get fun s => ?_
  cases s.core.memory with
  | none => exact .fail _
  | some l => exact .pure _

theorem appliedAt_idle (path : String) : Idle (appliedAt path) := by
  unfold appliedAt
  refine .bind ledger_idle fun l => ?_
  cases l.files.lookup path with
  | none => exact .fail _
  | some applied => exact .pure _

end Idle

section Leads

variable {I : ReceiverState → Prop} {G : ReceiverSession → ReceiverStep → Prop}

/-- What follows a procedure that only uses up answers. -/
theorem Idle.then {p : ReceiverProc α} {f : α → ReceiverProc β} {post : β → ReceiverSession → Prop}
    (hp : Idle p) (hs : s.Still) (hG : ∀ u, s.Later u → G u .answered)
    (hf : ∀ a t, s.Later t → (p s).result = .ok a → Meets (f a) t G (OnSuccess post)) :
    Meets (p >>= f) s G (OnSuccess post) := by
  have hlater := hp.later hs
  rw [meets_bind]
  refine ⟨hlater.1.mono fun u e he => he.1 ▸ hG u he.2, ?_⟩
  cases hr : (p s).result with
  | ok a => exact hf a _ hlater.2 hr
  | error e => exact fun _ h => by cases h

/-- Such a procedure at the end. -/
theorem Idle.last {p : ReceiverProc α} {post : α → ReceiverSession → Prop}
    (hp : Idle p) (hs : s.Still) (hG : ∀ u, s.Later u → G u .answered)
    (hpost : ∀ a t, s.Later t → post a t) : Meets p s G (OnSuccess post) :=
  (hp.later hs).mono (fun u _ he => he.1 ▸ hG u he.2) fun _ t ht a _ => hpost a t ht

end Leads

end ReceiverProc

/-! ### Names and places -/

theorem retainedName_history (id : String) : retainedName (".mirelay-history-" ++ id) = true := by
  rw [retainedName, stripLead, String.toList_append, if_pos]
  · rfl
  · exact List.isPrefixOf_iff_prefix.mpr (List.prefix_append _ _)

theorem placeOf_ne_retained {path : String} {u : Unit} (h : validatePath path = .ok u)
    {place : String × String} (hplace : retainedName place.2 = true) : placeOf path ≠ place :=
  placeOf_ne_of_reserved (not_reserved_of_validatePath h) (reserved_of_retainedName hplace)

namespace DestinationTree

variable {tree : DestinationTree} {source target : String × String} {a b : DestinationNode}

end DestinationTree

/-! ### How far an installation is -/

/-- What an application begins with: the version, the directory, the ledger on disk, and the digest
that the open ledger has for the path. -/
structure Outset where
  entry : DirectoryEntry
  tree : DestinationTree
  disk : ReceiverLedger
  previous : Option String

namespace Outset

variable (o : Outset)

/-- The place of a name beside the target. -/
def beside (name : String) : String × String := (parentPath o.entry.path, name)

/-- The place of the version. -/
def target : String × String := placeOf o.entry.path

/-- What the version replaces. -/
def replaced : Option DestinationNode := o.tree.lookup o.target

/-- Nothing is changed: there is no journal, and the ledger on disk, the target and the retained
copies are as they were. -/
structure Unchanged (c : ReceiverState) : Prop where
  journal : c.journal = none
  disk : c.disk = some o.disk
  guards : ∀ place, Guards o.entry.path place → c.tree.lookup place = o.tree.lookup place

variable (sha256 : Bytes → String)

/-- The target has the content of the version. -/
def Brought (tree : DestinationTree) : Prop :=
  ∃ node bytes, tree.lookup o.target = some node ∧ node.kind = .file bytes ∧
    sha256 bytes = o.entry.sha256 ∧ bytes.length = o.entry.size

/-- The staged copy waits for its commit. -/
structure Staged (j : Journal) (tree : DestinationTree) : Prop where
  copy : ∃ node, tree.lookup (o.beside j.stage) = some node ∧ node.inode = j.inode
  target : tree.lookup o.target = o.replaced
  history : tree.lookup (o.beside j.history) = none

/-- The version has taken its target's place; what it replaced is under the staged name, or
retained. -/
structure Placed (j : Journal) (tree : DestinationTree) : Prop where
  brought : o.Brought sha256 tree
  whole : ∀ old, o.replaced = some old → ∃ bytes, old.kind = .file bytes
  moved : tree.lookup (o.beside j.stage) = o.replaced ∧ tree.lookup (o.beside j.history) = none ∨
    tree.lookup (o.beside j.stage) = none ∧ tree.lookup (o.beside j.history) = o.replaced

/-- The journal of the version is there. -/
structure Underway (c : ReceiverState) (j : Journal) : Prop where
  journal : c.journal = some j
  entry : j.entry = o.entry
  previous : j.previousSha = o.previous
  stage : ∃ id, j.stage = ".mirelay-incoming-" ++ id
  history : ∃ id, j.history = ".mirelay-history-" ++ id
  free : o.tree.lookup (o.beside j.history) = none
  inode : ∀ old, o.replaced = some old → old.inode ≠ j.inode
  disk : c.disk.isSome
  others : ∀ place, retainedName place.2 = true → place ≠ o.beside j.history →
    c.tree.lookup place = o.tree.lookup place
  progress : o.Staged j c.tree ∨ o.Placed sha256 j c.tree

/-- Nothing had to be retained: there was no target, or it had the content already. -/
structure Undisplaced (tree : DestinationTree) (applied : Applied) : Prop where
  replaced : o.replaced = none ∨ tree.lookup o.target = o.replaced
  history : applied.history = none
  conflict : applied.conflict = false
  retained : ∀ place, retainedName place.2 = true → tree.lookup place = o.tree.lookup place

/-- The replaced file is retained byte for byte where the record says, under a name that was free;
and the record has a conflict exactly if the retained copy could not be read, or its digest is not
what the ledger had. -/
structure Displaced (tree : DestinationTree) (found : Option String) (applied : Applied) : Prop where
  retained : ∃ path old bytes, applied.history = some path ∧
    parentPath path = parentPath o.entry.path ∧ retainedName (fileName path) = true ∧
    o.tree.lookup (placeOf path) = none ∧ o.replaced = some old ∧ old.kind = .file bytes ∧
    tree.lookup (placeOf path) = some old ∧ (found = none ∨ found = some (sha256 bytes)) ∧
    ∀ place, retainedName place.2 = true → place ≠ placeOf path →
      tree.lookup place = o.tree.lookup place
  conflict : applied.conflict = true ↔ found = none ∨ found ≠ o.previous

/-- The version is installed and recorded on disk, and its journal is gone. -/
structure Installed (c : ReceiverState) : Prop where
  journal : c.journal = none
  brought : o.Brought sha256 c.tree
  recorded : ∃ applied, recordOf c.disk o.entry.path = some applied ∧
    applied.version = o.entry.version ∧ applied.sha256 = o.entry.sha256 ∧
    (o.Undisplaced c.tree applied ∨ o.Displaced sha256 c.tree c.retained applied)

/-- The version is journaled or installed. -/
def Begun (c : ReceiverState) : Prop := (∃ j, o.Underway sha256 c j) ∨ o.Installed sha256 c

/-- Every state between the beginning of the application and a completed recovery. -/
def Between (c : ReceiverState) : Prop := o.Unchanged c ∨ o.Begun sha256 c

variable {o sha256} {c c' : ReceiverState} {j : Journal}

/-- Where the replaced file is in the meantime. -/
theorem Between.keeps (h : o.Between sha256 c) {old : DestinationNode} (hold : o.replaced = some old) :
    ∃ name, c.tree.lookup (o.beside name) = some old := by
  rcases h with h | ⟨j, h⟩ | h
  · exact ⟨fileName o.entry.path, (h.guards _ (.inl rfl)).trans hold⟩
  · rcases h.progress with hstaged | hplaced
    · exact ⟨fileName o.entry.path, hstaged.target.trans hold⟩
    · rcases hplaced.moved with ⟨hstage, -⟩ | ⟨-, hhistory⟩
      · exact ⟨j.stage, hstage.trans hold⟩
      · exact ⟨j.history, hhistory.trans hold⟩
  · obtain ⟨applied, -, -, -, hundisplaced | hdisplaced⟩ := h.recorded
    · rcases hundisplaced.replaced with hnone | hsame
      · rw [hold] at hnone
        contradiction
      · exact ⟨fileName o.entry.path, hsame.trans hold⟩
    · obtain ⟨path, old', bytes, -, hparent, -, -, hold', -, hretained, -, -⟩ := hdisplaced.retained
      cases hold.symm.trans hold'
      refine ⟨fileName path, ?_⟩
      rw [beside, ← hparent]
      exact hretained

theorem Underway.congr (h : o.Underway sha256 c j) (hjournal : c'.journal = c.journal)
    (hdisk : c'.disk.isSome) (htree : c'.tree = c.tree) : o.Underway sha256 c' j where
  journal := hjournal.trans h.journal
  entry := h.entry
  previous := h.previous
  stage := h.stage
  history := h.history
  free := h.free
  inode := h.inode
  disk := hdisk
  others := htree ▸ h.others
  progress := htree ▸ h.progress

theorem Underway.history_retained (h : o.Underway sha256 c j) :
    retainedName (o.beside j.history).2 = true := by
  obtain ⟨id, hid⟩ := h.history
  rw [hid]
  exact retainedName_history id

theorem Underway.stage_not_retained (h : o.Underway sha256 c j) :
    retainedName (o.beside j.stage).2 = false := by
  obtain ⟨id, hid⟩ := h.stage
  rw [hid]
  exact retainedName_incoming id

theorem Underway.stage_ne_history (h : o.Underway sha256 c j) :
    o.beside j.stage ≠ o.beside j.history := fun heq => by
  have hincoming := h.stage_not_retained
  rw [heq, h.history_retained] at hincoming
  contradiction

theorem Underway.target_ne_stage (h : o.Underway sha256 c j) {u : Unit}
    (hvalid : validatePath o.entry.path = .ok u) : o.target ≠ o.beside j.stage := by
  obtain ⟨id, hid⟩ := h.stage
  refine placeOf_ne_of_reserved (not_reserved_of_validatePath hvalid) ?_
  rw [hid]
  exact reserved_append (by decide)

theorem Underway.target_ne_history (h : o.Underway sha256 c j) {u : Unit}
    (hvalid : validatePath o.entry.path = .ok u) : o.target ≠ o.beside j.history :=
  placeOf_ne_retained hvalid h.history_retained

/-- The staged copy gets the target's name, and the target, if there is one, that of the copy. -/
theorem Underway.placed (h : o.Underway sha256 c j) {u : Unit}
    (hvalid : validatePath o.entry.path = .ok u) (hstaged : o.Staged j c.tree)
    {copy : DestinationNode} {bytes : Bytes} (hkind : copy.kind = .file bytes)
    (hsame : sha256 bytes = o.entry.sha256 ∧ bytes.length = o.entry.size)
    (hwhole : ∀ old, o.replaced = some old → ∃ bytes, old.kind = .file bytes)
    (tree : DestinationTree) (htree : ∀ place, tree.lookup place =
      if place = o.target then some copy
      else if place = o.beside j.stage then o.replaced else c.tree.lookup place) :
    o.Underway sha256 { c with tree } j ∧ o.Placed sha256 j tree := by
  have hplaced : o.Placed sha256 j tree := by
    refine ⟨⟨copy, bytes, ?_, hkind, hsame⟩, hwhole, .inl ⟨?_, ?_⟩⟩
    · rw [htree, if_pos rfl]
    · rw [htree, if_neg (h.target_ne_stage hvalid).symm, if_pos rfl]
    · rw [htree, if_neg (h.target_ne_history hvalid).symm, if_neg h.stage_ne_history.symm]
      exact hstaged.history
  refine ⟨⟨h.journal, h.entry, h.previous, h.stage, h.history, h.free, h.inode, h.disk,
    fun place hplace hne => ?_, .inr hplaced⟩, hplaced⟩
  rw [htree, if_neg fun heq => placeOf_ne_retained hvalid hplace heq.symm, if_neg]
  · exact h.others place hplace hne
  · rintro rfl
    rw [h.stage_not_retained] at hplace
    contradiction

/-- The target and the retained copies decide whether the version is installed. -/
theorem Installed.congr (h : o.Installed sha256 c) (hjournal : c'.journal = c.journal)
    (hdisk : c'.disk = c.disk) (hretained : c'.retained = c.retained)
    (hguards : ∀ place, Guards o.entry.path place → c'.tree.lookup place = c.tree.lookup place) :
    o.Installed sha256 c' := by
  have htarget : c'.tree.lookup o.target = c.tree.lookup o.target := hguards _ (.inl rfl)
  refine ⟨hjournal.trans h.journal, ?_, ?_⟩
  · obtain ⟨node, bytes, hnode, hbytes⟩ := h.brought
    exact ⟨node, bytes, htarget.trans hnode, hbytes⟩
  · obtain ⟨applied, hrecord, hversion, hsha, hkept⟩ := h.recorded
    refine ⟨applied, by rw [hdisk]; exact hrecord, hversion, hsha, ?_⟩
    rcases hkept with hkept | hkept
    · refine .inl ⟨?_, hkept.history, hkept.conflict, fun place hplace => ?_⟩
      · rw [htarget]
        exact hkept.replaced
      · exact (hguards place (.inr hplace)).trans (hkept.retained place hplace)
    · obtain ⟨path, old, bytes, hhistory, hparent, hname, hfree, hold, hbytes, hlookup, hfound,
        hothers⟩ := hkept.retained
      rw [hretained]
      refine .inr ⟨⟨path, old, bytes, hhistory, hparent, hname, hfree, hold, hbytes, ?_, hfound,
        fun place hplace hne => ?_⟩, hkept.conflict⟩
      · exact (hguards (placeOf path) (.inr hname)).trans hlookup
      · exact (hguards place (.inr hplace)).trans (hothers place hplace hne)

/-- The ledger in memory plays no part. -/
theorem Begun.congr (h : o.Begun sha256 c) (hjournal : c'.journal = c.journal)
    (hdisk : c'.disk = c.disk) (hretained : c'.retained = c.retained) (htree : c'.tree = c.tree) :
    o.Begun sha256 c' := by
  rcases h with ⟨j, h⟩ | h
  · exact .inl ⟨j, h.congr hjournal (hdisk ▸ h.disk) htree⟩
  · exact .inr (h.congr hjournal hdisk hretained fun _ _ => by rw [htree])

theorem Begun.disk (h : o.Begun sha256 c) : c.disk.isSome := by
  rcases h with ⟨j, h⟩ | h
  · exact h.disk
  · obtain ⟨applied, hrecord, -⟩ := h.recorded
    obtain ⟨l, hl, -⟩ := Option.bind_eq_some_iff.mp hrecord
    rw [hl]
    rfl

theorem Unchanged.congr (h : o.Unchanged c) (hjournal : c'.journal = c.journal)
    (hdisk : c'.disk = c.disk)
    (hguards : ∀ place, Guards o.entry.path place → c'.tree.lookup place = c.tree.lookup place) :
    o.Unchanged c' :=
  ⟨hjournal.trans h.journal, hdisk.trans h.disk, fun place hplace =>
    (hguards place hplace).trans (h.guards place hplace)⟩

end Outset

end MiRelay
