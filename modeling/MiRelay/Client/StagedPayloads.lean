import MiRelay.Client.SenderRuns
import MiRelay.Core.Run

/-!
# The staged payloads of a sender

A payload is copied before the ledger on disk holds its job, and removed after
the ledger has forgotten the job. In between the running call has it in hand. A
call that breaks off there leaves it behind; after every other call each payload
belongs to a recorded job.
-/

namespace MiRelay

open Proc

namespace SenderState

variable {sha256 : Bytes → String} {c c' : SenderState}

/-- The queue of the ledger on disk. -/
def queue (c : SenderState) : List SenderJob := (c.disk.map (·.pending)).getD []

/-- The queue that the open sender works on. -/
def working (c : SenderState) : Option (List SenderJob) := c.memory.map (·.pending)

/-- The ledger on disk holds the job of a payload. -/
def Recorded (c : SenderState) (id : String) : Prop := ∃ job ∈ c.queue, job.id = id

/-- Every payload is that of a recorded job, but for one. -/
def OwnedBut (c : SenderState) (hand : Option String) : Prop :=
  ∀ id, (c.payloads.lookup id).isSome = true → hand = some id ∨ c.Recorded id

/-- An open sender works on the queue that is on disk. -/
def Aligned (c : SenderState) : Prop := ∀ jobs, c.working = some jobs → jobs = c.queue

instance (c : SenderState) : Decidable c.Aligned :=
  inferInstanceAs (Decidable (∀ jobs ∈ c.working, jobs = c.queue))

/-- How the payloads stand while one of them may be in hand. -/
structure Tidy (c : SenderState) (hand : Option String) : Prop where
  owned : c.OwnedBut hand
  aligned : c.Aligned

/-- A payload whose job no ledger on disk holds. -/
structure Adrift (c : SenderState) (id : String) : Prop where
  present : (c.payloads.lookup id).isSome = true
  unrecorded : ¬c.Recorded id
  others : c.OwnedBut (some id)

/-- When the calls copy, record, deliver and remove payloads. -/
def InOrder (c : SenderState) : SenderStep → Prop
  | .loaded _ | .staged _ _ | .delivered _ => c.Tidy none
  | .assign job => c.Tidy (some job.id)
  | .unstaged id => c.Tidy (some id)
  | _ => True

end SenderState

/-- What a call has in hand. -/
inductive SenderHand
  | empty
  /-- A payload whose job is in no queue. -/
  | stray (id : String)
  /-- A payload whose job is in the queue in memory only. -/
  | assigned (job : SenderJob)
  /-- A payload whose job is in the queue on disk only. -/
  | delivered (job : SenderJob)

/-- What a step leaves in hand. -/
def SenderHand.next (hand : SenderHand) : SenderStep → SenderHand
  | .staged id _ => .stray id
  | .assign job => .assigned job
  | .delivered job => .delivered job
  | .unstaged _ => .empty
  | .persist =>
    match hand with
    | .assigned _ => .empty
    | .delivered job => .stray job.id
    | _ => hand
  | .closed =>
    match hand with
    | .assigned job => .stray job.id
    | .delivered _ => .empty
    | _ => hand
  | _ => hand

/-- What the steps of a call leave in hand. -/
def SenderHand.afterSteps (l : List SenderStep) : SenderHand := l.foldl SenderHand.next .empty

/-- No payload is left behind. -/
def SenderHand.Clear : SenderHand → Prop
  | .empty | .delivered _ => True
  | .stray _ | .assigned _ => False

namespace SenderHand

instance : DecidablePred Clear
  | .empty | .delivered _ => isTrue trivial
  | .stray _ | .assigned _ => isFalse id

/-- How the payloads stand with something in hand. -/
def Holds (c : SenderState) : SenderHand → Prop
  | .empty => c.Tidy none
  | .stray id => c.Adrift id ∧ c.Aligned
  | .assigned job => c.Adrift job.id ∧ c.working = some (c.queue ++ [job])
  | .delivered job => c.OwnedBut none ∧ ∃ rest, c.working = some rest ∧ c.queue = job :: rest

end SenderHand

namespace SenderState

variable {sha256 : Bytes → String} {c c' : SenderState}

/-- The queues and the payloads of two states are the same. -/
structure SameQueues (c c' : SenderState) : Prop where
  queue : c'.queue = c.queue
  working : c'.working = c.working
  payloads : c'.payloads = c.payloads

theorem SameQueues.ownedBut {hand : Option String} (h : SameQueues c c') (ho : c.OwnedBut hand) :
    c'.OwnedBut hand := by
  unfold OwnedBut Recorded at *
  rw [h.queue, h.payloads]
  exact ho

theorem SameQueues.aligned (h : SameQueues c c') (ha : c.Aligned) : c'.Aligned := by
  unfold Aligned at *
  rw [h.queue, h.working]
  exact ha

theorem SameQueues.tidy {hand : Option String} (h : SameQueues c c') (ht : c.Tidy hand) :
    c'.Tidy hand :=
  ⟨h.ownedBut ht.owned, h.aligned ht.aligned⟩

theorem SameQueues.adrift {id : String} (h : SameQueues c c') (ha : c.Adrift id) : c'.Adrift id where
  present := by
    rw [h.payloads]
    exact ha.present
  unrecorded := by
    unfold Recorded
    rw [h.queue]
    exact ha.unrecorded
  others := h.ownedBut ha.others

theorem SameQueues.holds {hand : SenderHand} (h : SameQueues c c') (hh : hand.Holds c) :
    hand.Holds c' := by
  cases hand with
  | empty => exact h.tidy hh
  | stray id => exact ⟨h.adrift hh.1, h.aligned hh.2⟩
  | assigned job =>
    refine ⟨h.adrift hh.1, ?_⟩
    rw [h.working, h.queue]
    exact hh.2
  | delivered job =>
    refine ⟨h.ownedBut hh.1, ?_⟩
    rw [h.working, h.queue]
    exact hh.2

/-- The steps that leave the queues and the payloads. -/
theorem sameQueues_apply {e : SenderStep} (h : match e with
      | .answered | .scanned _ | .reported _ | .initialized _ _ | .floor _ | .upload _ _ => True
      | _ => False) :
    SameQueues c (c.apply e) := by
  cases e with
  | initialized next identical =>
    refine ⟨rfl, ?_, rfl⟩
    simp only [working, SenderState.apply, Option.map_map]
    rfl
  | floor next =>
    refine ⟨rfl, ?_, rfl⟩
    simp only [working, SenderState.apply, Option.map_map]
    rfl
  | answered | scanned | reported | upload => exact ⟨rfl, rfl, rfl⟩
  | _ => exact h.elim

theorem working_of_memory {m : SenderLedger} (hm : c.memory = some m) :
    c.working = some m.pending :=
  congrArg (Option.map _) hm

theorem working_assign {jobs : List SenderJob} {job : SenderJob} (h : c.working = some jobs) :
    (c.apply (.assign job)).working = some (jobs ++ [job]) := by
  obtain ⟨m, hm, rfl⟩ := Option.map_eq_some_iff.mp h
  simp only [SenderState.apply, working, hm, Option.map_some]

theorem working_delivered {jobs : List SenderJob} {job : SenderJob} (h : c.working = some jobs) :
    (c.apply (.delivered job)).working = some jobs.tail := by
  obtain ⟨m, hm, rfl⟩ := Option.map_eq_some_iff.mp h
  simp only [SenderState.apply, working, hm, Option.map_some]

/-- What is in a hand is the payload that is adrift. -/
theorem Adrift.eq_of_tidy {id id' : String} (h : c.Adrift id) (ht : c.Tidy (some id')) : id' = id :=
  Option.some.inj ((ht.owned id h.present).resolve_right h.unrecorded)

theorem Adrift.not_tidy {id : String} (h : c.Adrift id) : ¬c.Tidy none := fun ht =>
  h.unrecorded ((ht.owned id h.present).resolve_left nofun)

/-- A recorded job is live. -/
theorem live_of_queue {job : SenderJob} (h : job ∈ c.queue) : c.Live job := by
  unfold queue at h
  cases hdisk : c.disk with
  | none =>
    rw [hdisk] at h
    exact absurd h List.not_mem_nil
  | some l =>
    rw [hdisk] at h
    exact ⟨l, .inl hdisk, h⟩

/-- The head of the recorded queue has an identity of its own. -/
theorem Sound.head_unrecorded {job : SenderJob} {rest : List SenderJob} (h : Sound sha256 c)
    (hqueue : c.queue = job :: rest) : ∀ k ∈ rest, k.id ≠ job.id := by
  intro k hk hid
  unfold queue at hqueue
  cases hdisk : c.disk with
  | none =>
    rw [hdisk] at hqueue
    contradiction
  | some l =>
    rw [hdisk] at hqueue
    change l.pending = job :: rest at hqueue
    have hordered := (h.ledgers l (.inl hdisk)).ordered
    rw [hqueue] at hordered
    have hlt := (List.pairwise_cons.mp hordered).1 k hk
    have hjobs : ∀ j ∈ job :: rest, c.Live j := fun j hj => ⟨l, .inl hdisk, hqueue ▸ hj⟩
    have heq := h.ids k job (hjobs k (List.mem_cons_of_mem _ hk)) (hjobs job List.mem_cons_self) hid
    rw [heq] at hlt
    exact lt_irrefl _ hlt

end SenderState

namespace SenderHand

variable {sha256 : Bytes → String} {c : SenderState} {hand : SenderHand}

open SenderState

/-- Whatever is in hand, all other payloads are those of recorded jobs. -/
theorem Holds.ownedBut (h : hand.Holds c) : ∃ id, c.OwnedBut id := by
  cases hand with
  | empty => exact ⟨none, h.owned⟩
  | stray id => exact ⟨some id, h.1.others⟩
  | assigned job => exact ⟨some job.id, h.1.others⟩
  | delivered job => exact ⟨none, h.1⟩

/-- Every payload is that of a recorded job exactly when none is left behind. -/
theorem Holds.owned_iff (h : hand.Holds c) : c.OwnedBut none ↔ hand.Clear := by
  have hadrift : ∀ id, c.Adrift id → ¬c.OwnedBut none := fun id hid hall =>
    hid.unrecorded ((hall id hid.present).resolve_left nofun)
  cases hand with
  | empty => exact iff_of_true h.owned trivial
  | stray id => exact iff_of_false (hadrift id h.1) not_false
  | assigned job => exact iff_of_false (hadrift job.id h.1) not_false
  | delivered job => exact iff_of_true h.1 trivial

theorem holds_closed (h : hand.Holds c) : (hand.next .closed).Holds (c.apply .closed) := by
  have haligned : (c.apply .closed).Aligned := nofun
  cases hand with
  | empty => exact ⟨h.owned, haligned⟩
  | stray id => exact ⟨⟨h.1.present, h.1.unrecorded, h.1.others⟩, haligned⟩
  | assigned job => exact ⟨⟨h.1.present, h.1.unrecorded, h.1.others⟩, haligned⟩
  | delivered job => exact ⟨h.1, haligned⟩

/-- The ledger on disk takes over the queue that the sender works on. -/
theorem queue_persist {jobs : List SenderJob} (hw : c.working = some jobs) :
    (c.apply .persist).queue = jobs ∧ (c.apply .persist).working = some jobs ∧
      (c.apply .persist).payloads = c.payloads := by
  obtain ⟨m, hm, rfl⟩ := Option.map_eq_some_iff.mp hw
  simp only [SenderState.apply, queue, working, hm, Option.map_some, Option.getD_some, and_self]

/-- The job of a payload is saved. -/
theorem tidy_persist {job : SenderJob} (h : c.OwnedBut (some job.id))
    (hworking : c.working = some (c.queue ++ [job])) : (c.apply .persist).Tidy none := by
  obtain ⟨hqueue, hworking, hpayloads⟩ := queue_persist hworking
  refine ⟨fun id hid => .inr ?_, fun jobs hjobs => ?_⟩
  · rw [hpayloads] at hid
    rw [SenderState.Recorded, hqueue]
    rcases h id hid with hjob | ⟨k, hk, hkid⟩
    · exact ⟨job, List.mem_append_right _ (List.mem_singleton_self job), Option.some.inj hjob⟩
    · exact ⟨k, List.mem_append_left _ hk, hkid⟩
  · rw [hqueue]
    exact (Option.some.inj (hworking.symm.trans hjobs)).symm

/-- A delivered job is forgotten. -/
theorem tidy_forgotten {job : SenderJob} {rest : List SenderJob} (h : c.OwnedBut none)
    (hworking : c.working = some rest) (hold : c.queue = job :: rest) :
    (c.apply .persist).Tidy (some job.id) := by
  obtain ⟨hqueue, hworking, hpayloads⟩ := queue_persist hworking
  refine ⟨fun id hid => ?_, fun jobs hjobs => ?_⟩
  · rw [hpayloads] at hid
    rw [SenderState.Recorded, hqueue]
    obtain ⟨k, hk, hkid⟩ := (h id hid).resolve_left nofun
    rw [hold] at hk
    rcases List.mem_cons.mp hk with rfl | hin
    · exact .inl (congrArg some hkid)
    · exact .inr ⟨k, hin, hkid⟩
  · rw [hqueue]
    exact (Option.some.inj (hworking.symm.trans hjobs)).symm

theorem holds_persist (h : hand.Holds c) (hsound : Sound sha256 c) :
    (hand.next .persist).Holds (c.apply .persist) := by
  -- Without an open sender, or with one that works on the queue on disk, nothing changes.
  have hsame : c.Aligned → SameQueues c (c.apply .persist) := fun haligned => by
    cases hw : c.working with
    | none =>
      have hm : c.memory = none := Option.map_eq_none_iff.mp hw
      have happly : c.apply .persist = c := by simp only [SenderState.apply, hm]
      rw [happly]
      exact ⟨rfl, rfl, rfl⟩
    | some jobs =>
      obtain ⟨hqueue, hworking, hpayloads⟩ := queue_persist hw
      exact ⟨hqueue.trans (haligned jobs hw), hworking.trans hw.symm, hpayloads⟩
  cases hand with
  | empty => exact (hsame h.aligned).tidy h
  | stray id => exact (hsame h.2).holds (show (SenderHand.stray id).Holds c from h)
  | assigned job => exact tidy_persist h.1.others h.2
  | delivered job =>
    obtain ⟨howned, rest, hworking, hold⟩ := h
    have htidy := tidy_forgotten howned hworking hold
    obtain ⟨hqueue, -, hpayloads⟩ := queue_persist hworking
    refine ⟨⟨?_, ?_, htidy.owned⟩, htidy.aligned⟩
    · rw [hpayloads]
      exact hsound.payload job (live_of_queue (hold ▸ List.mem_cons_self))
    · rw [SenderState.Recorded, hqueue]
      rintro ⟨k, hk, hid⟩
      exact hsound.head_unrecorded hold k hk hid

/-- A payload is copied. -/
theorem tidy_staged {id : String} {bytes : Bytes} (h : c.Tidy none) :
    (c.apply (.staged id bytes)).Tidy (some id) := by
  refine ⟨fun k hk => ?_, h.aligned⟩
  change ((c.payloads.insert id bytes).lookup k).isSome = true at hk
  rw [Files.lookup_insert] at hk
  split at hk
  · rename_i hkid
    exact .inl (congrArg some hkid.symm)
  · exact .inr ((h.owned k hk).resolve_left nofun)

/-- A payload is removed. -/
theorem tidy_unstaged {id : String} (h : c.Tidy (some id)) : (c.apply (.unstaged id)).Tidy none := by
  refine ⟨fun k hk => .inr ?_, h.aligned⟩
  change ((c.payloads.erase id).lookup k).isSome = true at hk
  rw [Files.lookup_erase] at hk
  split at hk
  · contradiction
  · rename_i hne
    exact (h.owned k hk).resolve_left fun heq => hne (Option.some.inj heq).symm

/-- One step of a call. -/
theorem Holds.next {e : SenderStep} (h : hand.Holds c) (hsound : Sound sha256 c)
    (hpermitted : c.Permitted sha256 e) (horder : c.InOrder e) :
    (hand.next e).Holds (c.apply e) := by
  cases e with
  | answered | scanned | reported | initialized | floor | upload =>
    exact (sameQueues_apply trivial).holds h
  | closed => exact holds_closed h
  | persist => exact holds_persist h hsound
  | loaded l =>
    have htidy : c.Tidy none := horder
    have hloaded : (c.apply (.loaded l)).Tidy none := by
      refine ⟨htidy.owned, fun jobs hjobs => ?_⟩
      cases Option.some.inj hjobs
      rcases hpermitted with hdisk | ⟨hdisk, binding, rfl⟩
      · show l.pending = (c.disk.map (·.pending)).getD []
        rw [hdisk]
        rfl
      · show _ = (c.disk.map (·.pending)).getD []
        rw [hdisk]
        rfl
    cases hand with
    | empty => exact hloaded
    | stray id => exact absurd htidy h.1.not_tidy
    | assigned job => exact absurd htidy h.1.not_tidy
    | delivered job =>
      obtain ⟨-, rest, hworking, hqueue⟩ := h
      have hsame := htidy.aligned rest hworking
      rw [hqueue] at hsame
      exact absurd hsame.symm (List.cons_ne_self job rest)
  | staged id bytes =>
    have htidy : c.Tidy none := horder
    have hfree : c.payloads.lookup id = none := hpermitted
    refine ⟨⟨?_, ?_, (tidy_staged htidy).owned⟩, htidy.aligned⟩
    · show ((c.payloads.insert id bytes).lookup id).isSome = true
      rw [Files.lookup_insert, if_pos rfl]
      rfl
    · rintro ⟨job, hjob, rfl⟩
      have hsome := hsound.payload job (live_of_queue hjob)
      rw [hfree] at hsome
      contradiction
  | assign job =>
    have htidy : c.Tidy (some job.id) := horder
    obtain ⟨⟨m, hm, -⟩, -, hpayload, hid⟩ := hpermitted
    refine ⟨⟨hpayload, ?_, htidy.owned⟩, ?_⟩
    · rintro ⟨k, hk, hkid⟩
      exact hid k (live_of_queue hk) hkid
    · have hworking := working_of_memory hm
      rw [working_assign hworking, htidy.aligned _ hworking]
      rfl
  | delivered job =>
    have htidy : c.Tidy none := horder
    obtain ⟨m, rest, hm, hpending, -⟩ := hpermitted
    have hworking := working_of_memory hm
    rw [hpending] at hworking
    exact ⟨htidy.owned, rest, working_delivered hworking, (htidy.aligned _ hworking).symm⟩
  | unstaged id => exact tidy_unstaged horder

end SenderHand

/-! ### The procedures -/

/-- The condition on the payloads at the steps of the procedures. -/
def SenderSession.InOrder (s : SenderSession) (e : SenderStep) : Prop := s.core.InOrder e

namespace SenderProc

open SenderState

variable {sha256 : Bytes → String} {s : SenderSession}

/-- A step that leaves the queues and the payloads. -/
theorem tidy_apply {hand : Option String} {e : SenderStep} (h : s.core.Tidy hand) (he : match e with
      | .answered | .scanned _ | .reported _ | .initialized _ _ | .floor _ | .upload _ _ => True
      | _ => False) : (s.core.apply e).Tidy hand :=
  (sameQueues_apply he).tidy h

theorem load_inOrder (h : s.core.Tidy none) :
    Meets load s SenderSession.InOrder (OnSuccess fun _ _ => True) := by
  unfold load
  refine ask_then trivial fun a t ht => Meets.check fun binding _ => Meets.read ?_
  have htidy : t.core.Tidy none := ht ▸ h
  cases t.core.disk with
  | some l =>
    refine Meets.check fun _ _ => ?_
    rw [meets_emit]
    exact ⟨htidy, fun _ _ => trivial⟩
  | none =>
    rw [meets_emit]
    exact ⟨htidy, fun _ _ => trivial⟩

theorem openSender_inOrder (h : s.core.OwnedBut none) :
    Meets openSender s SenderSession.InOrder (OnSuccess fun _ _ => True) := by
  unfold openSender
  refine Meets.step trivial ?_
  have hclosed : (s.core.apply .closed).Tidy none := ⟨h, nofun⟩
  refine Meets.bind (load_inOrder hclosed) fun _ t _ => ?_
  rw [meets_bind, meets_attempt]
  refine (save_meets trivial fun _ _ => trivial).mono (fun _ _ h => h) fun r u _ => ?_
  cases r with
  | ok _ =>
    change Meets (pure ()) u SenderSession.InOrder (OnSuccess fun _ _ => True)
    rw [meets_pure]
    exact fun _ _ => trivial
  | error e =>
    change Meets (emit .closed >>= fun _ => fail e) u SenderSession.InOrder (OnSuccess fun _ _ => True)
    refine Meets.step trivial ?_
    rw [meets_fail]
    exact fun _ _ => trivial

/-- The confirmation of a baseline touches no payload. -/
theorem initializeSender_inOrder :
    Meets initializeSender s SenderSession.InOrder (OnSuccess fun _ _ => True) := by
  unfold initializeSender
  refine ledger_then fun m _ => Meets.check fun _ _ => ?_
  refine ask_then trivial fun _ t₁ _ => Meets.check fun preview _ => ?_
  refine ask_then trivial fun _ t₂ _ => Meets.check fun source _ => ?_
  refine Meets.bind (fetchState_meets trivial fun _ _ => trivial) fun remote t₃ _ => ?_
  refine Meets.check fun _ _ => Meets.check fun comparison _ => Meets.check fun _ _ =>
    Meets.check fun _ _ => ?_
  exact Meets.step trivial ((save_meets trivial fun _ _ => trivial).imp fun _ _ _ => trivial)

section Send

/-- The payload of a job is removed after the save that forgets the job. -/
theorem flushJob_inOrder {job : SenderJob} {rest : List SenderJob} (h : s.core.Tidy none)
    (hworking : s.core.working = some (job :: rest)) :
    Meets (flushJob sha256 job) s SenderSession.InOrder (OnSuccess fun _ t =>
      t.core.Tidy none ∧ t.core.working = some rest) := by
  unfold flushJob
  refine ask_then trivial fun _ t₁ ht₁ => Meets.check fun _ _ => Meets.read ?_
  cases t₁.core.payloads.lookup job.id with
  | none =>
    dsimp only
    rw [meets_fail]
    exact fun _ h => by cases h
  | some bytes =>
    refine Meets.check fun inspected _ => Meets.check fun _ _ => ?_
    refine Meets.step trivial ?_
    refine ask_then trivial fun _ t₂ ht₂ => Meets.check fun delivered _ => Meets.check fun _ _ => ?_
    have hcore₂ : t₂.core = s.core.apply (.upload job bytes) := by
      rw [ht₂]
      exact core_apply ht₁ _
    have htidy₂ : t₂.core.Tidy none := hcore₂ ▸ tidy_apply h trivial
    refine Meets.step htidy₂ ?_
    refine Meets.bind (save_meets trivial fun _ _ => trivial) fun _ t₃ ht₃ => ?_
    have hold : t₂.core.working = some (job :: rest) := by
      rw [hcore₂]
      exact hworking
    have hworking₂ : (t₂.core.apply (.delivered job)).working = some rest := working_delivered hold
    have hcore₃ : t₃.core = (t₂.core.apply (.delivered job)).apply .persist := ht₃
    have hqueue₂ : t₂.core.queue = job :: rest := (htidy₂.aligned _ hold).symm
    have htidy₃ : t₃.core.Tidy (some job.id) := by
      rw [hcore₃]
      exact SenderHand.tidy_forgotten htidy₂.owned hworking₂ hqueue₂
    refine ask_then trivial fun _ t₄ ht₄ => Meets.check fun _ _ => ?_
    have htidy₄ : t₄.core.Tidy (some job.id) := ht₄ ▸ htidy₃
    refine Meets.step htidy₄ ?_
    refine ask_then trivial fun a t₅ ht₅ => ?_
    rw [meets_ofExcept]
    intro _ _
    rw [ht₅]
    refine ⟨SenderHand.tidy_unstaged htidy₄, ?_⟩
    show t₄.core.working = _
    rw [ht₄, hcore₃]
    exact (SenderHand.queue_persist hworking₂).2.1

theorem flushJobs_inOrder {jobs : List SenderJob} (h : s.core.Tidy none)
    (hworking : s.core.working = some jobs) :
    Meets (flushJobs sha256 jobs) s SenderSession.InOrder (OnSuccess fun _ t =>
      t.core.Tidy none) := by
  induction jobs generalizing s with
  | nil =>
    rw [flushJobs, meets_pure]
    exact fun _ _ => h
  | cons job rest ih =>
    rw [flushJobs]
    refine Meets.bind (flushJob_inOrder h hworking) fun _ t ht => ?_
    refine Meets.bind (ih ht.1 ht.2) fun _ u hu => ?_
    rw [meets_pure]
    exact fun _ _ => hu

theorem flush_inOrder (h : s.core.Tidy none) : Meets (flush sha256) s SenderSession.InOrder
    (OnSuccess fun _ t => t.core.Tidy none) := by
  unfold flush
  exact ledger_then fun m hm => flushJobs_inOrder h (working_of_memory hm)

/-- A payload is recorded by the save after its copy. -/
theorem sendEntry_inOrder {entry : InventoryEntry} (h : s.core.Tidy none) :
    Meets (sendEntry sha256 entry) s SenderSession.InOrder (OnSuccess fun _ t =>
      t.core.Tidy none) := by
  unfold sendEntry
  refine ledger_then fun m hm => ?_
  rw [meets_ite]
  refine ⟨fun _ => ?_, fun _ => ?_⟩
  · rw [meets_pure]
    exact fun _ _ => h
  · refine Meets.check fun _ _ => Meets.check fun _ _ => ?_
    have hstage : Meets (stage sha256 entry) s SenderSession.InOrder (OnSuccess fun id t =>
        s.core.payloads.lookup id = none ∧ ∃ bytes, t.core = s.core.apply (.staged id bytes)) :=
      stage_meets trivial fun t id bytes ht _ => by
        rw [SenderSession.InOrder, ht]
        exact h
    refine Meets.bind hstage fun id t₁ ht₁ => ?_
    obtain ⟨-, bytes, hcore₁⟩ := ht₁
    have htidy₁ : t₁.core.Tidy (some id) := hcore₁ ▸ SenderHand.tidy_staged h
    refine Meets.step htidy₁ ?_
    refine Meets.bind (save_meets trivial fun _ _ => trivial) fun _ t₃ ht₃ => ?_
    have hcore₃ : t₃.core =
        (t₁.core.apply (.assign ⟨id, entry, m.nextVersion⟩)).apply .persist := ht₃
    have hworking₁ : t₁.core.working = some m.pending := by
      rw [hcore₁]
      exact working_of_memory hm
    refine flush_inOrder ?_
    rw [hcore₃]
    refine @SenderHand.tidy_persist _ ⟨id, entry, m.nextVersion⟩ htidy₁.owned ?_
    rw [working_assign hworking₁, htidy₁.aligned _ hworking₁]
    rfl

theorem sendEntries_inOrder {entries : List InventoryEntry} {count : Nat} (h : s.core.Tidy none) :
    Meets (sendEntries sha256 entries count) s SenderSession.InOrder (OnSuccess fun _ t =>
      t.core.Tidy none) := by
  induction entries generalizing s count with
  | nil =>
    rw [sendEntries, meets_pure]
    exact fun _ _ => h
  | cons entry rest ih =>
    rw [sendEntries]
    exact Meets.bind (sendEntry_inOrder h) fun _ t ht => ih ht

theorem send_inOrder (h : s.core.Tidy none) : Meets (send sha256) s SenderSession.InOrder
    (OnSuccess fun _ t => t.core.Tidy none) := by
  unfold send
  refine ledger_then fun m hm => Meets.check fun _ _ => ?_
  refine Meets.bind (flush_inOrder h) fun count t₁ ht₁ => ?_
  refine ask_then trivial fun a t₂ ht₂ => Meets.check fun source _ => ?_
  have htidy₂ : t₂.core.Tidy none := ht₂ ▸ ht₁
  refine Meets.step trivial ?_
  refine Meets.check fun _ _ => ?_
  refine Meets.bind (fetchState_meets trivial fun _ _ => trivial) fun remote t₃ ht₃ => ?_
  have htidy₃ : t₃.core.Tidy none := by
    rw [ht₃.2]
    exact (sameQueues_apply (e := .reported remote) trivial).tidy
      ((sameQueues_apply (e := .scanned source.entries) trivial).tidy htidy₂)
  refine Meets.check fun _ _ => ?_
  refine Meets.step trivial ?_
  exact sendEntries_inOrder (tidy_apply (e := .floor _) htidy₃ trivial)

end Send

end SenderProc

/-! ### Whole sessions -/

variable {sha256 : Bytes → String} {s : SenderSession}

/-- A call, possibly cut off by the death of the process. -/
def SenderSession.perform (sha256 : Bytes → String) (s : SenderSession)
    (call : SenderCall × Option Nat) : Option SenderSession :=
  some (after SenderSession.apply s (call.1.cutSteps sha256 call.2 s))

/-- A sender that stayed open works on the queue that is on disk. -/
def SenderSession.MayBegin (s : SenderSession) (call : SenderCall) : Prop :=
  call = .opened ∨ s.core.Aligned

/-- A call that may begin and does not break off with a payload in hand. -/
def SenderSession.Orderly (sha256 : Bytes → String) (s : SenderSession)
    (call : SenderCall × Option Nat) : Prop :=
  s.MayBegin call.1 ∧ (SenderHand.afterSteps (call.1.cutSteps sha256 call.2 s)).Clear

instance (call : SenderCall) : Decidable (s.MayBegin call) :=
  inferInstanceAs (Decidable (_ ∨ _))

instance (call : SenderCall × Option Nat) : Decidable (s.Orderly sha256 call) :=
  inferInstanceAs (Decidable (_ ∧ _))

/-- What is asked of the payloads where a call begins, at each of its steps, and after a send. -/
structure PayloadsOwned (sha256 : Bytes → String) (s : SenderSession)
    (call : SenderCall × Option Nat) : Prop where
  before : s.core.OwnedBut none
  during : ∀ k, ∃ hand, (after SenderSession.apply s
    ((call.1.cutSteps sha256 call.2 s).take k)).core.OwnedBut hand
  sent : call = (.send, none) → ∀ n, (SenderProc.send sha256 s).result = .ok n →
    ∀ id, ((SenderProc.send sha256).final s).core.payloads.lookup id = none

/-- Guarded steps from a state where something is in hand. -/
theorem SenderHand.holds_after {hand : SenderHand} {l : List SenderStep} (h : hand.Holds s.core)
    (hsound : s.core.Sound sha256) (hpermitted : Guarded SenderSession.apply
      (SenderSession.Permitted sha256) s l) (horder : Guarded SenderSession.apply
      SenderSession.InOrder s l) :
    (l.foldl SenderHand.next hand).Holds (after SenderSession.apply s l).core := by
  induction l generalizing s hand with
  | nil => exact h
  | cons e l ih =>
    exact ih (h.next hsound hpermitted.1 horder.1) (hsound.apply hpermitted.1) hpermitted.2 horder.2

/-- Every call keeps the order. -/
theorem SenderCall.cutSteps_inOrder (call : SenderCall) (cut : Option Nat)
    (hbegin : s.MayBegin call) (howned : s.core.OwnedBut none) :
    Guarded SenderSession.apply SenderSession.InOrder s (call.cutSteps sha256 cut s) := by
  have hsteps : Guarded SenderSession.apply SenderSession.InOrder s (call.steps sha256 s) := by
    cases call with
    | opened => exact (SenderProc.openSender_inOrder howned).1
    | initialized => exact SenderProc.initializeSender_inOrder.1
    | flush => exact (SenderProc.flush_inOrder ⟨howned, hbegin.resolve_left nofun⟩).1
    | send => exact (SenderProc.send_inOrder ⟨howned, hbegin.resolve_left nofun⟩).1
  cases cut with
  | none => exact hsteps
  | some k => exact guarded_append.mpr ⟨hsteps.take k, trivial, trivial⟩

/-- A sender is opened after the one before it is dropped. -/
theorem SenderCall.opened_cutSteps (cut : Option Nat) (s : SenderSession) :
    ∃ rest, SenderCall.opened.cutSteps sha256 cut s = .closed :: rest := by
  cases cut with
  | none => exact ⟨_, rfl⟩
  | some k =>
    cases k with
    | zero => exact ⟨[], rfl⟩
    | succ k => exact ⟨_, rfl⟩

/-- What the steps of a call have in hand so far. -/
theorem SenderCall.holds_of_append {call : SenderCall} {cut : Option Nat} {l m : List SenderStep}
    (hsplit : call.cutSteps sha256 cut s = l ++ m) (hsound : s.core.Sound sha256)
    (hbegin : s.MayBegin call) (howned : s.core.OwnedBut none) :
    l = [] ∨ (SenderHand.afterSteps l).Holds (after SenderSession.apply s l).core := by
  have hpermitted := call.cutSteps_permitted cut hsound
  have horder := @SenderCall.cutSteps_inOrder sha256 s call cut hbegin howned
  rw [hsplit, guarded_append] at hpermitted horder
  rcases hbegin with rfl | haligned
  · -- The sender before this one need not have worked on the queue on disk.
    obtain ⟨rest, hrest⟩ := @SenderCall.opened_cutSteps sha256 cut s
    cases l with
    | nil => exact .inl rfl
    | cons e l =>
      obtain rfl : .closed = e := (List.cons.inj (hrest.symm.trans hsplit)).1
      have hclosed : SenderHand.empty.Holds (s.apply .closed).core := ⟨howned, nofun⟩
      have hholds := SenderHand.holds_after hclosed (hsound.apply hpermitted.1.1) hpermitted.1.2
        horder.1.2
      exact .inr hholds
  · have htidy : SenderHand.empty.Holds s.core := ⟨howned, haligned⟩
    exact .inr (SenderHand.holds_after htidy hsound hpermitted.1 horder.1)

/-- A call leaves every payload to a recorded job exactly when it does not break off with one in
hand. -/
theorem SenderCall.owned_iff_clear {call : SenderCall} {cut : Option Nat}
    (hsound : s.core.Sound sha256) (hbegin : s.MayBegin call) (howned : s.core.OwnedBut none) :
    (after SenderSession.apply s (call.cutSteps sha256 cut s)).core.OwnedBut none ↔
      (SenderHand.afterSteps (call.cutSteps sha256 cut s)).Clear := by
  rcases SenderCall.holds_of_append (List.append_nil _).symm hsound hbegin howned with hnil | hholds
  · rw [hnil]
    exact iff_of_true howned trivial
  · exact hholds.owned_iff

/-- Whatever a call has done so far, it has at most one payload in hand. -/
theorem SenderCall.owned_during {call : SenderCall} {cut : Option Nat}
    (hsound : s.core.Sound sha256) (hbegin : s.MayBegin call) (howned : s.core.OwnedBut none)
    (k : Nat) : ∃ hand, (after SenderSession.apply s
      ((call.cutSteps sha256 cut s).take k)).core.OwnedBut hand := by
  have hsplit := (List.take_append_drop k (call.cutSteps sha256 cut s)).symm
  rcases SenderCall.holds_of_append hsplit hsound hbegin howned with hnil | hholds
  · rw [hnil]
    exact ⟨none, howned⟩
  · exact hholds.ownedBut

/-- A send that succeeds leaves no payload. -/
theorem SenderProc.send_empties (hsound : s.core.Sound sha256) (htidy : s.core.Tidy none) {n : Nat}
    (hn : (SenderProc.send sha256 s).result = .ok n) (id : String) :
    ((SenderProc.send sha256).final s).core.payloads.lookup id = none := by
  obtain ⟨m, hsending, -⟩ := (SenderProc.send_meets hsound).2 n hn
  have hend := (SenderProc.send_inOrder htidy).2 n hn
  have hqueue := hend.aligned _ (SenderState.working_of_memory hsending.memory)
  rw [hsending.idle] at hqueue
  rw [← Option.not_isSome_iff_eq_none]
  intro hid
  obtain ⟨job, hjob, -⟩ := (hend.owned id hid).resolve_left nofun
  rw [← hqueue] at hjob
  exact absurd hjob List.not_mem_nil

/-- What holds between the calls of an orderly session. -/
theorem SenderSession.orderly_run {answers : Nat → SenderAnswer}
    {calls : List (SenderCall × Option Nat)}
    (h : Steps (SenderSession.perform sha256) (SenderSession.Orderly sha256)
      (SenderSession.initial answers) calls s) :
    s.core.Sound sha256 ∧ s.core.OwnedBut none := by
  refine h.invariant (I := fun _ t => t.core.Sound sha256 ∧ t.core.OwnedBut none)
    ⟨SenderState.sound_initial answers, fun id hid => absurd hid Bool.noConfusion⟩ ?_
  rintro _ t call u ⟨hsound, howned⟩ ⟨hbegin, hclear⟩ hu
  cases Option.some.inj hu
  exact ⟨(call.1.cutSteps_permitted call.2 hsound).invariant (I := fun t => t.core.Sound sha256) hsound
    fun _ _ hs he => hs.apply he, (SenderCall.owned_iff_clear hsound hbegin howned).mpr hclear⟩

/-- After calls on queues that are on disk, of which none broke off with a payload in hand, every
payload belongs to a recorded job. During the next call all but one do, after a send that succeeds
there is none, and the call leaves none behind exactly when it does not break off with one in hand. -/
theorem staged_payloads_owned {answers : Nat → SenderAnswer}
    {calls : List (SenderCall × Option Nat)} {call : SenderCall × Option Nat}
    (h : Steps (SenderSession.perform sha256) (SenderSession.Orderly sha256)
      (SenderSession.initial answers) calls s) (hbegin : s.MayBegin call.1) :
    PayloadsOwned sha256 s call ∧
      ((after SenderSession.apply s (call.1.cutSteps sha256 call.2 s)).core.OwnedBut none ↔
        (SenderHand.afterSteps (call.1.cutSteps sha256 call.2 s)).Clear) := by
  obtain ⟨hsound, howned⟩ := SenderSession.orderly_run h
  refine ⟨⟨howned, SenderCall.owned_during hsound hbegin howned, ?_⟩,
    SenderCall.owned_iff_clear hsound hbegin howned⟩
  rintro rfl n hn id
  exact SenderProc.send_empties hsound ⟨howned, hbegin.resolve_left nofun⟩ hn id

/-- A file is sent, and the sender is about to send again. -/
theorem staged_payloads_owned_again : ∃ s,
    s.MayBegin .send ∧ PayloadsOwned twoDigests s (.send, none) := by
  obtain ⟨s, hrun, hbegin⟩ := Steps.exists_of_replay (SenderSession.perform twoDigests)
    (fun s call => decide (s.Orderly twoDigests call))
    (SenderSession.initial fun _ => goodAnswer firstJob 1)
    [(.opened, none), (.initialized, none), (.send, none)]
    (fun s => decide (s.MayBegin .send)) (by decide +kernel)
  exact ⟨s, of_decide_eq_true hbegin, (staged_payloads_owned
    (hrun.mono fun _ _ hall => of_decide_eq_true hall) (of_decide_eq_true hbegin)).1⟩

/-- The answers of a session in which the file changes between the inventory and its first copy. -/
def changedSource (n : Nat) : SenderAnswer :=
  if n = 8 then { goodAnswer firstJob 1 with staged := [2] }
  else if n < 8 then goodAnswer firstJob 1
  else goodAnswer secondJob 1

/-- The copy of a file that changed stays, also after the next send succeeds. -/
theorem changed_source_leaves_payload : ¬∀ (sha256 : Bytes → String) (answers : Nat → SenderAnswer)
    (calls : List (SenderCall × Option Nat)) (s : SenderSession) (call : SenderCall × Option Nat),
    Steps (SenderSession.perform sha256) (fun _ _ => True) (SenderSession.initial answers) calls s →
      PayloadsOwned sha256 s call := by
  intro hall
  obtain ⟨s, hrun, hend⟩ := Steps.exists_of_replay (SenderSession.perform twoDigests)
    (fun _ _ => true) (SenderSession.initial changedSource)
    [(.opened, none), (.initialized, none), (.send, none)]
    (fun s => (SenderProc.send twoDigests s).result.toOption == some 1 &&
      (((SenderProc.send twoDigests).final s).core.payloads.lookup firstJob).isSome) (by decide +kernel)
  obtain ⟨hresult, hkept⟩ := Bool.and_eq_true_iff.mp hend
  have hn : (SenderProc.send twoDigests s).result = .ok 1 := toOption_eq_some.mp (beq_iff_eq.mp hresult)
  have hnone := (hall twoDigests changedSource _ s (.send, none) (hrun.mono fun _ _ _ => trivial)).sent
    rfl 1 hn firstJob
  rw [hnone] at hkept
  contradiction

end MiRelay
