import MiRelay.Client.SyncEvents
import MiRelay.Client.SyncRuns

/-!
# File events settle, and with what

Each procedure either works on a file or between two files. While a file is worked
on, only its own progress saves, hence the record that the progress holds differs
from the saved one only when it did so at the start and no save succeeded since.
-/

namespace MiRelay

/-- The event says that the file is worked on. -/
def SyncEvent.Activates (e : SyncEvent) (i : String) : Prop :=
  match e with
  | .fileActive id .. => id = i
  | .fileSettled .. => False

/-- The event says that the work on the file is over. -/
def SyncEvent.Settles (e : SyncEvent) (i : String) : Prop :=
  match e with
  | .fileActive .. => False
  | .fileSettled id .. => id = i

/-- A settled file has the record that was saved last. -/
def Emitted.Truthful (x : Emitted) : Prop :=
  match x.event with
  | .fileActive .. => True
  | .fileSettled id record _ => record = x.saved.lookup id

/-- A file settled while its progress had only a record from before the last failed save. -/
def Emitted.Unsaved (x : Emitted) : Prop :=
  match x.event with
  | .fileActive .. => False
  | .fileSettled .. => x.ahead = true

namespace EventSession

variable {s : EventSession}

/-- What holds when a file begins and when it settles. -/
def Guard (s : EventSession) : EventStep → Prop
  | .begin _ => s.progress = none
  | .settle _ => ∀ p, s.progress = some p → (p.record = s.saved.lookup p.id ↔ s.ahead = false)
  | _ => True

/-- The file `id` is worked on and was reported. -/
def Active (s : EventSession) (id : String) : Prop :=
  ∃ p, s.progress = some p ∧ p.active = true ∧ p.id = id

/-- Every reported file has settled or is worked on, and the records of the settled ones are saved
unless the progress had none to hold. -/
structure Reported (s : EventSession) : Prop where
  followed : ∀ newer older x id, s.events = newer ++ x :: older → x.event.Activates id →
    (∃ y ∈ newer, y.event.Settles id) ∨ s.Active id
  truthful : ∀ x ∈ s.events, x.Truthful ↔ ¬x.Unsaved

/-- Steps without an event. -/
theorem Reported.quiet {t : EventSession} (h : s.Reported) (hevents : t.events = s.events)
    (hactive : ∀ id, s.Active id → t.Active id) : t.Reported where
  followed := by
    rw [hevents]
    exact fun newer older x id hsplit hx => (h.followed newer older x id hsplit hx).imp_right
      (hactive id)
  truthful := by
    rw [hevents]
    exact h.truthful

/-- A step with an event that is about the file that is worked on. -/
theorem Reported.cons {t : EventSession} {x : Emitted} (h : s.Reported)
    (hevents : t.events = x :: s.events) (hx : x.Truthful ↔ ¬x.Unsaved)
    (hactivates : ∀ id, x.event.Activates id → t.Active id)
    (hactive : ∀ id, s.Active id → x.event.Settles id ∨ t.Active id) : t.Reported where
  followed newer older y id hsplit hy := by
    rw [hevents] at hsplit
    cases newer with
    | nil =>
      cases hsplit
      exact .inr (hactivates id hy)
    | cons z newer =>
      obtain ⟨rfl, hrest⟩ := List.cons.inj hsplit
      rcases h.followed newer older y id hrest hy with ⟨w, hw, hsettles⟩ | hopen
      · exact .inl ⟨w, List.mem_cons_of_mem _ hw, hsettles⟩
      · exact (hactive id hopen).imp_left fun hsettles => ⟨_, List.mem_cons_self, hsettles⟩
  truthful y hy := by
    rw [hevents] at hy
    rcases List.mem_cons.mp hy with rfl | hy
    · exact hx
    · exact h.truthful y hy

theorem Reported.apply (h : s.Reported) {e : EventStep} (hguard : s.Guard e) :
    (s.apply e).Reported := by
  cases e with
  | run | saved => exact h.quiet rfl fun _ hactive => hactive
  | begin progress =>
    refine h.quiet rfl fun id hactive => ?_
    obtain ⟨p, hp, -⟩ := hactive
    rw [show s.progress = none from hguard] at hp
    contradiction
  | keep =>
    refine h.quiet rfl fun id hactive => ?_
    obtain ⟨p, hp, hopen, hid⟩ := hactive
    exact ⟨{ p with record := s.session.core.memory.lookup p.id }, by simp [EventSession.apply, hp], hopen, hid⟩
  | phase phase =>
    cases hp : s.progress with
    | none =>
      have hsame : s.apply (.phase phase) = s := by simp [EventSession.apply, hp]
      rw [hsame]
      exact h
    | some p =>
      have hactive : (s.apply (.phase phase)).Active p.id :=
        ⟨{ p with active := true }, by simp [EventSession.apply, hp], rfl, rfl⟩
      have hevents : (s.apply (.phase phase)).events = ⟨s.saved, s.ahead,
          .fileActive p.id p.originalName p.mediaType p.size phase⟩ :: s.events := by
        simp [EventSession.apply, hp]
      refine h.cons hevents (by simp [Emitted.Truthful, Emitted.Unsaved]) (fun id hid => hid ▸ hactive)
        fun id hopen => .inr ?_
      obtain ⟨p', hp', -, rfl⟩ := hopen
      cases hp.symm.trans hp'
      exact hactive
  | settle error =>
    cases hp : s.progress with
    | none =>
      have hsame : s.apply (.settle error) = s := by simp [EventSession.apply, hp]
      rw [hsame]
      exact h
    | some p =>
      by_cases hemits : p.active = true ∨ error.isSome = true
      · have hevents : (s.apply (.settle error)).events =
            ⟨s.saved, s.ahead, .fileSettled p.id p.record error⟩ :: s.events := by
          simp [EventSession.apply, hp, hemits]
        refine h.cons hevents ?_ (fun id hfalse => hfalse.elim) fun id hopen => .inl ?_
        · simpa [Emitted.Truthful, Emitted.Unsaved] using hguard p hp
        · obtain ⟨p', hp', -, rfl⟩ := hopen
          cases hp.symm.trans hp'
          rfl
      · -- Nothing was reported, so nothing is open.
        refine h.quiet (by simp [EventSession.apply, hp, hemits]) fun id hopen => ?_
        obtain ⟨p', hp', hactive, -⟩ := hopen
        cases hp.symm.trans hp'
        exact absurd (.inl hactive) hemits

end EventSession

open Proc

namespace EventProc

/-- Whatever the procedure does, it meets the conditions on the steps and keeps `I`. -/
def Holds {α : Type} (I : EventSession → Prop) (p : EventProc α) : Prop :=
  ∀ s, I s → Meets p s EventSession.Guard fun _ t => I t

section Rules

variable {α β : Type} {I : EventSession → Prop} {p : EventProc α}

theorem Holds.bind {f : α → EventProc β} (h : Holds I p) (hf : ∀ a, Holds I (f a)) :
    Holds I (p >>= f) := by
  intro s hs
  rw [meets_bind]
  refine (h s hs).mono (fun _ _ hG => hG) fun r t ht => ?_
  cases r with
  | ok a => exact hf a t ht
  | error e => exact ht

theorem Holds.attempt (h : Holds I p) : Holds I (Proc.attempt p) := fun s hs =>
  meets_attempt.mpr (h s hs)

theorem Holds.look {f : EventSession → EventProc α} (h : ∀ s, Holds I (f s)) :
    Holds I (get >>= f) := fun s hs => Meets.read (h s s hs)

/-- Steps of the run itself change the session only. -/
theorem meets_within {q : SyncProc α} {s : EventSession} :
    Meets (within q) s EventSession.Guard fun _ t => ∃ session, t = { s with session } := by
  have hrun : ∀ (l : List SyncStep) (s : EventSession),
      Guarded EventSession.apply EventSession.Guard s (l.map .run) ∧
        ∃ session, after EventSession.apply s (l.map .run) = { s with session } := by
    intro l
    induction l with
    | nil => exact fun s => ⟨trivial, s.session, rfl⟩
    | cons e l ih =>
      intro s
      obtain ⟨hguarded, session, hafter⟩ := ih (s.apply (.run e))
      exact ⟨⟨trivial, hguarded⟩, session, hafter⟩
  exact hrun (q s.session).events s

end Rules

/-! ### Between two files -/

/-- No file is worked on. -/
def Between (s : EventSession) : Prop := s.progress = none

section Between

variable {α : Type}

end Between

/-! ### While a file is worked on -/

section InFile

variable {α : Type}

/-- A save that succeeds is the last state saved; one that fails leaves the last one. -/
theorem save_meets {s : EventSession} : Meets save s EventSession.Guard fun r t =>
    t.progress = s.progress ∧ (r = .ok () ∧ t.saved = t.session.core.memory ∨
      (∃ e, r = .error e) ∧ t.saved = s.saved ∧ t.ahead = s.ahead) := by
  unfold save
  rw [meets_bind]
  refine meets_within.mono (fun _ _ hG => hG) fun r t ht => ?_
  obtain ⟨session, rfl⟩ := ht
  cases r with
  | error e => exact ⟨rfl, .inr ⟨⟨e, rfl⟩, rfl, rfl⟩⟩
  | ok a =>
    dsimp only
    cases a.saved with
    | saved =>
      refine Meets.step trivial (meets_emit.mpr ⟨trivial, rfl, .inl ⟨rfl, rfl⟩⟩)
    | failed e => exact meets_fail.mpr ⟨rfl, .inr ⟨⟨e, rfl⟩, rfl, rfl⟩⟩
    | unsynced e =>
      exact Meets.step trivial (meets_fail.mpr ⟨rfl, .inr ⟨⟨e, rfl⟩, rfl, rfl⟩⟩)

end InFile

section Sync

variable {sha256 : Bytes → String} {config : SyncConfig} {α : Type}

end Sync

end EventProc

open EventProc

instance (x : Emitted) : Decidable x.Truthful :=
  match x with
  | ⟨_, _, .fileActive ..⟩ => .isTrue trivial
  | ⟨saved, _, .fileSettled id record _⟩ =>
    inferInstanceAs (Decidable (record = saved.lookup id))

end MiRelay
