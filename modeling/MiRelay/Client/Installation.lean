import MiRelay.Client.Outset

/-!
# Crashes while a version is installed

Wherever the process dies in an application, and as often as it dies again in
recovery, a completed recovery leaves the directory and the ledger as they were,
or the version installed and the replaced file retained; in between the replaced
file is never gone.
-/

namespace MiRelay

open Proc

/-! ### Recovery -/

namespace ReceiverProc

variable {o : Outset} {sha256 : Bytes → String} {s : ReceiverSession} {j : Journal} {u : Unit}

end ReceiverProc
namespace ReceiverProc

variable {o : Outset} {sha256 : Bytes → String} {s : ReceiverSession} {j : Journal} {u : Unit}

end ReceiverProc

/-! ### The application -/

/-- The application goes on: nothing is changed yet, or the version is journaled or installed, and
that is never taken back. -/
def Outset.Onward (o : Outset) (sha256 : Bytes → String) (u : ReceiverSession) (e : ReceiverStep) :
    Prop :=
  o.Between sha256 (u.apply e).core ∧ (o.Begun sha256 u.core → o.Begun sha256 (u.apply e).core)

/-- An open receiver before the version is journaled. -/
structure Outset.Ready (o : Outset) (l : ReceiverLedger) (s : ReceiverSession) : Prop where
  still : s.Still
  unchanged : o.Unchanged s.core
  memory : s.core.memory = some l
  fresh : ∀ n, o.tree.lookup (o.beside (".mirelay-history-" ++ (s.answers n).id)) = none

namespace Outset

variable {o : Outset} {sha256 : Bytes → String} {s t u : ReceiverSession} {l : ReceiverLedger}
  {e : ReceiverStep}

/-- A step that leaves alone what decides whether the version is installed. -/
theorem onward_of_guards (h : o.Unchanged u.core) (hjournal : (u.apply e).core.journal = u.core.journal)
    (hdisk : (u.apply e).core.disk = u.core.disk)
    (hretained : (u.apply e).core.retained = u.core.retained)
    (hguards : ∀ place, Guards o.entry.path place →
      (u.apply e).core.tree.lookup place = u.core.tree.lookup place) : o.Onward sha256 u e := by
  refine ⟨.inl (h.congr hjournal hdisk hguards), fun hbegun => ?_⟩
  rcases hbegun with ⟨j, hunderway⟩ | hinstalled
  · have hnone := h.journal
    rw [hunderway.journal] at hnone
    contradiction
  · exact .inr (hinstalled.congr hjournal hdisk hretained hguards)

theorem Ready.later (h : o.Ready l s) (ht : s.Later t) : o.Ready l t := by
  refine ⟨ht.still h.still, ht.core ▸ h.unchanged, ht.core ▸ h.memory, fun n => ?_⟩
  obtain ⟨k, hk⟩ := ht.answers
  rw [hk]
  exact h.fresh _

/-- A node is added at a place that is neither the target nor one of a retained copy. -/
theorem Ready.insert (h : o.Ready l s) {place : String × String} {node : DestinationNode}
    (hplace : ¬Guards o.entry.path place)
    (hcore : (s.apply e).core = { s.core with tree := s.core.tree.insert place node })
    (hanswers : (s.apply e).answers = s.answers) :
    o.Onward sha256 s e ∧ o.Ready l (s.apply e) := by
  have hguards : ∀ q, Guards o.entry.path q →
      (s.apply e).core.tree.lookup q = s.core.tree.lookup q := by
    intro q hq
    rw [hcore, Files.lookup_insert, if_neg]
    rintro rfl
    exact hplace hq
  refine ⟨onward_of_guards h.unchanged ?_ ?_ ?_ hguards, ?_, h.unchanged.congr ?_ ?_ hguards, ?_, ?_⟩
  any_goals rw [hcore]
  · exact fun n => hanswers ▸ h.still n
  · exact h.memory
  · exact fun n => hanswers ▸ h.fresh n

/-- The journal of a staged copy is written. -/
theorem Ready.journaled (h : o.Ready l s) {j : Journal} (hentry : j.entry = o.entry)
    (hstage : ∃ id, j.stage = ".mirelay-incoming-" ++ id)
    (hhistory : ∃ id, j.history = ".mirelay-history-" ++ id) (hprevious : j.previousSha = o.previous)
    (hfree : o.tree.lookup (o.beside j.history) = none)
    (hinode : ∀ old, o.replaced = some old → old.inode ≠ j.inode)
    (hcopy : ∃ node, s.core.tree.lookup (o.beside j.stage) = some node ∧ node.inode = j.inode) :
    o.Begun sha256 (s.apply (.journaled j)).core := by
  have hretained : retainedName (o.beside j.history).2 = true := by
    obtain ⟨id, hid⟩ := hhistory
    rw [hid]
    exact retainedName_history id
  have hstaged : o.Staged j s.core.tree :=
    ⟨hcopy, h.unchanged.guards o.target (.inl rfl),
      (h.unchanged.guards (o.beside j.history) (.inr hretained)).trans hfree⟩
  refine .inl ⟨j, ?_⟩
  exact
    { journal := rfl
      entry := hentry
      previous := hprevious
      stage := hstage
      history := hhistory
      free := hfree
      inode := hinode
      disk := by
        show s.core.disk.isSome
        rw [h.unchanged.disk]
        rfl
      others := fun place hplace _ => h.unchanged.guards place (.inr hplace)
      progress := .inl hstaged }

end Outset

namespace ReceiverProc

variable {o : Outset} {sha256 : Bytes → String} {s : ReceiverSession} {l : ReceiverLedger} {u : Unit}

end ReceiverProc
namespace ReceiverProc

variable {o : Outset} {sha256 : Bytes → String} {s : ReceiverSession} {l : ReceiverLedger} {u : Unit}

end ReceiverProc

/-! ### Crashes -/

/-- A call that only recovers. -/
def ReceiverCall.Recovers : ReceiverCall → Prop
  | .opened | .recovered => True
  | _ => False

section Crashes

variable {sha256 : Bytes → String} {s : ReceiverSession}

theorem ReceiverSession.Still.after (h : s.Still) (steps : List ReceiverStep) :
    (after ReceiverSession.apply s steps).Still := fun n => by
  obtain ⟨k, hk⟩ := s.answers_after steps
  rw [hk]
  exact h _

end Crashes
section Crashes

variable {o : Outset} {sha256 : Bytes → String} {s : ReceiverSession} {l : ReceiverLedger}

end Crashes

end MiRelay
