import MiRelay.Client.FolderScan

/-!
# Deliveries through a folder

A delivery that was put into an inbox is listed by every scan until it is
acknowledged, and by none that begins after that, whatever the processes that use
the inbox do at the same time, and wherever one of them is cut off.
-/

namespace MiRelay

open Proc

namespace FilesystemSource

open Inbox

variable {format : InboxFormat} {sha256 : Bytes → String} {inboxDir : String} {me : Nat} {s t : Inbox}

/-! ### Acknowledgements -/

/-- There is a marker for a delivery with this digest: one that is read so, or one that was written
so. -/
def MarkedAs (format : InboxFormat) (s : Inbox) (id digest : String) : Prop :=
  Acknowledged format s id digest ∨ ∃ writer now,
    s.entry .acks (manifestName id) = some (.regular writer (format.markerBytes ⟨id, digest, now⟩))

theorem MarkedAs.kept {id digest : String} (h : MarkedAs format s id digest) (hkept : Kept s t) :
    MarkedAs format t id digest := by
  rcases h with hack | ⟨writer, now, hentry⟩
  · exact .inl (hack.kept hkept)
  · exact .inr ⟨writer, now, hkept.file _ _ _ _ hentry⟩

/-- A call at the end. -/
theorem Meets.lastCall {post : Unit → Inbox → Prop} (hs : Sound format sha256 s)
    (hpost : ∀ t, Later format sha256 s t → post () t) :
    Meets (call format sha256 me) s (Lawful sha256) (OnSuccess post) :=
  (Meets.later (call_meets s) hs).mono (fun _ _ h => h) fun _ t h _ _ => hpost t h.2

theorem present_of_acks {files : Files String InboxFile} (h : s.acks = some (.directory files)) :
    s.present .acks = true := by
  rw [present, h]

theorem confirmAckDir_meets (hs : Sound format sha256 s) :
    Meets (confirmAckDir format sha256 inboxDir me) s (Lawful sha256)
      (OnSuccess fun _ t => Later format sha256 s t ∧ t.present .acks = true) := by
  unfold confirmAckDir
  refine Meets.afterCallIn hs fun u hu => Meets.read ?_
  split
  · rename_i hacks
    exact Meets.lastCall hu.sound fun v hv => ⟨hu.trans hv, hv.kept.present (present_of_acks hacks)⟩
  · rw [meets_fail, onSuccess_error]
    trivial

theorem ensureAckDir_meets (hs : Sound format sha256 s) :
    Meets (ensureAckDir format sha256 inboxDir me) s (Lawful sha256)
      (OnSuccess fun _ t => Later format sha256 s t ∧ t.present .acks = true) := by
  unfold ensureAckDir
  refine Meets.afterCallIn hs fun u hu => Meets.read ?_
  split
  · rename_i hacks
    rw [meets_pure, onSuccess_ok]
    exact ⟨hu, present_of_acks hacks⟩
  · rw [meets_fail, onSuccess_error]
    trivial
  · refine Meets.afterCallIn hu.sound fun v hv => Meets.read ?_
    have hlater := hu.trans hv
    split
    · rename_i hacks
      have hmade : lawful sha256 v ⟨me, .madeAcks⟩ = true := by
        simp only [lawful, hacks, Option.isNone_none]
      have hstep : Later format sha256 v (apply format v ⟨me, .madeAcks⟩) :=
        ⟨hv.sound.step hmade, hv.sound.kept hmade⟩
      exact Meets.step hmade ((confirmAckDir_meets hstep.sound).imp fun _ _ hw =>
        ⟨(hlater.trans hstep).trans hw.1, hw.2⟩)
    · exact (confirmAckDir_meets hv.sound).imp fun _ _ hw => ⟨hlater.trans hw.1, hw.2⟩

theorem publishMarker_meets (hs : Sound format sha256 s) (hpresent : s.present .acks = true)
    (marker : AckMarker) (hid : validateDeliveryId marker.id = .ok ()) :
    Meets (publishMarker format sha256 inboxDir me marker) s (Lawful sha256)
      (OnSuccess fun _ t => MarkedAs format t marker.id marker.sha256) := by
  unfold publishMarker
  refine withTemporary_meets (I := fun u => u.present .acks = true) hs hpresent
    (fun u e hu hp he => (hu.kept he.1).present hp) (fun u temporary hu hp htemporary => ?_)
    fun _ u e hu hmarked he => hmarked.kept (hu.kept he.1)
  refine Meets.afterCallIn hu fun v hv => Meets.afterCallIn hv.sound fun w hw => ?_
  refine Meets.afterAsk hw.sound fun answer x hx => Meets.read ?_
  split
  · -- Nobody has put a marker there between the look and the renaming.
    rename_i hfree
    refine Meets.checkIn fun _ _ => ?_
    have hstep : lawful sha256 x ⟨me, .marker temporary marker⟩ = true := by
      simp only [lawful, htemporary, hid, hfree, ((hv.trans hw).trans hx).kept.present hp,
        Except.isOk, Except.toBool, Option.isNone_none, Bool.and_true]
    refine Meets.step hstep (Meets.lastCall (hx.sound.step hstep) fun y hy => ?_)
    refine .inr ⟨me, marker.acknowledgedAtUnix, hy.kept.file _ _ _ _ ?_⟩
    rw [apply, entry_publish, if_pos rfl, if_pos rfl]
  · refine Meets.bind (readAck_meets hx.sound marker.id) fun found y hy => ?_
    split
    · rw [meets_fail, onSuccess_error]
      trivial
    · rename_i m
      obtain ⟨hy, writer, content, hentry, hparse⟩ := hy
      split
      · rename_i hsame
        refine Meets.lastCall hy.sound fun z hz => MarkedAs.kept (.inl ?_) hz.kept
        exact ⟨writer, content, m, hentry, hparse, hsame⟩
      · rw [meets_fail, onSuccess_error]
        trivial

theorem acknowledge_meets (hs : Sound format sha256 s) (id digest : String) :
    Meets (acknowledge format sha256 inboxDir me id digest) s (Lawful sha256)
      (OnSuccess fun _ t => MarkedAs format t id digest) := by
  unfold acknowledge
  refine Meets.check fun _ hid => Meets.check fun _ _ => ?_
  refine Meets.bind (readAck_meets hs id) fun found u hu => ?_
  obtain ⟨hu, hread⟩ := hu
  split
  · rename_i m
    obtain ⟨writer, content, hentry, hparse⟩ := hread
    split
    · rename_i hsame
      refine Meets.lastCall hu.sound fun v hv => MarkedAs.kept (.inl ?_) hv.kept
      exact ⟨writer, content, m, hentry, hparse, hsame⟩
    · rw [meets_fail, onSuccess_error]
      trivial
  · refine Meets.afterAsk hu.sound fun answer v hv => Meets.afterCall hv.sound fun w hw => ?_
    exact Meets.bind (ensureAckDir_meets hw.sound) fun _ x hx =>
      publishMarker_meets hx.1.sound hx.2 _ hid

/-! ### Deliveries -/

/-- Where there is no payload, there is no manifest. -/
theorem manifest_of_payload (hs : Sound format sha256 s) {id : String}
    (hid : validateDeliveryId id = .ok ()) (h : s.entry .inbox (payloadName id) = none) :
    s.entry .inbox (manifestName id) = none := by
  cases hentry : s.entry .inbox (manifestName id) with
  | none => rfl
  | some file =>
    rcases hs.inbox _ _ hentry with ⟨-, htemporary⟩ | ⟨id', _, _, -, hname, -⟩ | ⟨d, _, _, hd, hname, -⟩
    · have hno : isTemporaryName (manifestName id) = false := not_isTemporaryName hid
      rw [hno] at htemporary
      contradiction
    · exact absurd hname.symm (payloadName_ne_manifestName _ _)
    · rw [manifestName_injective hname, hd.payload] at h
      contradiction

/-- What is in hand between the payload and the manifest of a delivery. -/
structure Staged (sha256 : Bytes → String) (s t : Inbox) (me : Nat) (d : Delivery) (content : Bytes) :
    Prop where
  unclaimed : t.Unclaimed me d.id content
  describes : d.describes sha256 content = true
  fresh : ∀ writer content', s.entry .inbox (payloadName d.id) ≠ some (.regular writer content')

theorem Staged.step {d : Delivery} {content : Bytes} {e : InboxEvent}
    (h : Staged sha256 s t me d content) (ht : Sound format sha256 t)
    (hid : validateDeliveryId d.id = .ok ()) (he : Quiet sha256 me t e) :
    Staged sha256 s (apply format t e) me d content :=
  ⟨h.unclaimed.step ht hid he, h.describes, h.fresh⟩

theorem publishPayload_meets (hs : Sound format sha256 s) {d : Delivery}
    (hid : validateDeliveryId d.id = .ok ()) (hname : d.payload = payloadName d.id) (copied : Bytes)
    (maxFileSize : Nat) {found : FileInspection} (hsize : found.size = d.size)
    (hsha : found.sha256 = d.sha256) (htype : found.mediaType = d.mediaType) :
    Meets (publishPayload format sha256 inboxDir me d copied maxFileSize found) s (Lawful sha256)
      (OnSuccess fun _ t => ∃ content, Staged sha256 s t me d content) := by
  unfold publishPayload
  refine withTemporary_meets (I := Later format sha256 s) hs (Later.refl hs)
    (fun u e hu hl he => hl.trans ⟨hu.step he.1, hu.kept he.1⟩) (fun u temporary hu hl htemporary => ?_)
    fun _ u e hu ⟨content, hstaged⟩ he => ⟨content, hstaged.step hu hid he⟩
  refine Meets.afterCall hu fun v hv => Meets.afterCall hv.sound fun w hw => ?_
  refine Meets.check fun inspection' hinspect => Meets.check fun _ hsame => withContext_meets ?_
  refine Meets.afterCall hw.sound fun x hx => Meets.read ?_
  have hlater := ((hl.trans hv).trans hw).trans hx
  split
  · rw [meets_fail, onSuccess_error]
    trivial
  · rename_i hfree
    rw [hname] at hfree
    have hstep : lawful sha256 x ⟨me, .payload temporary d.id (copied.take (maxFileSize + 1))⟩ = true := by
      simp only [lawful, hid, htemporary, hfree, Except.isOk, Except.toBool, Option.isNone_none,
        Bool.and_true]
    rw [meets_emit, onSuccess_ok]
    refine ⟨hstep, copied.take (maxFileSize + 1), ⟨?_, ?_⟩, ?_, fun writer content' hbefore => ?_⟩
    · rw [apply, entry_publish, if_pos rfl, if_pos rfl]
    · rw [apply, entry_publish, if_pos rfl, if_neg fun heq => payloadName_ne_manifestName _ _ heq.symm,
        manifest_of_payload hx.sound hid hfree, ite_self]
    · rw [ensure_eq_ok, beq_iff_eq] at hsame
      obtain ⟨-, -, hfound⟩ := (inspectFile_ok _).mp hinspect
      rw [hsame] at hfound
      rw [Delivery.describes, ← hsize, ← hsha, ← htype, hfound]
      simp only [inspection, beq_self_eq_true, Bool.and_self]
    · rw [hlater.kept.file _ _ _ _ hbefore] at hfree
      contradiction

theorem writeManifest_meets (hs : Sound format sha256 s) {d : Delivery} {content : Bytes}
    (hvalid : validateDeliveryMetadata d d.size = .ok ()) (hname : d.payload = payloadName d.id)
    (hdescribes : d.describes sha256 content = true) (h : s.Unclaimed me d.id content) :
    Meets (writeManifest format sha256 me d) s (Lawful sha256)
      (OnSuccess fun _ t => t.Holds format sha256 d content) := by
  have hid := valid_id hvalid
  have hunclaimed : ∀ u e, Sound format sha256 u → u.Unclaimed me d.id content →
      Quiet sha256 me u e → (apply format u e).Unclaimed me d.id content :=
    fun _ _ hu hU he => hU.step hu hid he
  have hcall : ∀ {u : Inbox} {f : Unit → InboxProc format Unit} {post : Unit → Inbox → Prop},
      Sound format sha256 u → u.Unclaimed me d.id content →
      (∀ v, Sound format sha256 v → v.Unclaimed me d.id content →
        Meets (f ()) v (Lawful sha256) (OnSuccess post)) →
      Meets (call format sha256 me >>= f) u (Lawful sha256) (OnSuccess post) := by
    intro u f post hu hU hf
    refine (Meets.quietly (call_quiet u) hu hU hunclaimed).seq (fun _ v hv => hf v hv.2.1 hv.2.2) ?_
    intro _ _ _
    rw [onSuccess_error]
    trivial
  -- The payload stays in the hand of this process through all calls before the manifest is put there.
  unfold writeManifest
  refine hcall hs h fun u hu hU => ?_
  refine Meets.bind (M := fun _ t => Sound format sha256 t ∧ t.Holds format sha256 d content) ?_
    fun _ v hv => Meets.lastCall hv.1 fun w hw => hw.kept.holds hv.2
  refine withTemporary_meets (I := fun v => v.Unclaimed me d.id content) hu hU hunclaimed
    (fun v temporary hv hV htemporary => ?_)
    fun _ v e _ hv he => ⟨hv.1.step he.1, (hv.1.kept he.1).holds hv.2⟩
  refine hcall hv hV fun w hw hW => hcall hw hW fun x hx hX => hcall hx hX fun y hy hY => ?_
  have hstep : lawful sha256 y ⟨me, .manifest temporary d⟩ = true := by
    simp only [lawful, htemporary, hvalid, hname, hY.manifest, hY.payload, hdescribes, Except.isOk,
      Except.toBool, Option.isNone_none, Bool.and_true, beq_self_eq_true]
  rw [meets_emit, onSuccess_ok]
  refine ⟨hstep, hy.step hstep, me, (hy.kept hstep).file _ _ _ _ hY.payload, ?_, hname, hdescribes,
    hvalid⟩
  rw [apply, entry_publish, if_pos rfl, if_pos rfl]

/-- A valid delivery is valid with its own size as the limit. -/
theorem valid_of_valid {d : Delivery} {m : Nat} (h : validateDeliveryMetadata d m = .ok ()) :
    validateDeliveryMetadata d d.size = .ok () := by
  simp only [validateDeliveryMetadata, bind_eq_ok, ensure_eq_ok] at h ⊢
  obtain ⟨_, hschema, _, hid, _, hpayload, _, hname, _, hsize, _, -, _, hsha, htype⟩ := h
  exact ⟨(), hschema, (), hid, (), hpayload, (), hname, (), hsize, (), decide_eq_true le_rfl, (), hsha,
    htype⟩

theorem enqueue_meets (hs : Sound format sha256 s) (fileName : Option String) (input copied : Bytes)
    (maxFileSize : Nat) :
    Meets (enqueue format sha256 inboxDir me fileName input copied maxFileSize) s (Lawful sha256)
      (OnSuccess fun d t => (∃ content, t.Holds format sha256 d content) ∧
        ∀ d' content, s.Holds format sha256 d' content → d'.id ≠ d.id) := by
  unfold enqueue
  refine Meets.afterCall hs fun u hu => Meets.check fun found _ => Meets.check fun originalName _ => ?_
  refine Meets.afterAsk hu.sound fun answer v hv => Meets.check fun _ hvalid => ?_
  generalize hd : Delivery.mk _ _ _ _ _ _ _ _ = d at hvalid ⊢
  have hname : d.payload = payloadName d.id := by rw [← hd]
  have hfound : found.size = d.size ∧ found.sha256 = d.sha256 ∧ found.mediaType = d.mediaType := by
    rw [← hd]
    exact ⟨rfl, rfl, rfl⟩
  have hid := valid_id hvalid
  refine Meets.bind (M := fun _ w => Sound format sha256 w ∧ ∃ content, Staged sha256 v w me d content)
    ?_ fun _ w hw => ?_
  · have hmeets : Meets (publishPayload format sha256 inboxDir me d copied maxFileSize found) v
        (Lawful sha256) (OnSuccess fun _ t => ∃ content, Staged sha256 v t me d content) :=
      publishPayload_meets hv.sound hid hname copied maxFileSize hfound.1 hfound.2.1 hfound.2.2
    exact (Meets.later hmeets hv.sound).mono (fun _ _ he => he) fun r w hr a ha =>
      ⟨hr.2.sound, hr.1 a ha⟩
  · obtain ⟨hw, content, hstaged⟩ := hw
    refine (Meets.quietly (I := fun x => Staged sha256 v x me d content) (call_quiet w) hw hstaged
      fun _ _ hx hst he => hst.step hx hid he).seq (fun _ x hx => ?_) fun _ _ _ => by
        rw [onSuccess_error]
        trivial
    obtain ⟨-, hx, hstaged⟩ := hx
    refine Meets.bind (writeManifest_meets hx (valid_of_valid hvalid) hname hstaged.describes
      hstaged.unclaimed) fun _ y hy => ?_
    rw [meets_pure, onSuccess_ok]
    refine ⟨⟨content, hy⟩, fun d' content' hd' hsame => ?_⟩
    obtain ⟨writer, hholds⟩ := (hu.trans hv).kept.holds hd'
    exact hstaged.fresh writer content' (hsame ▸ hholds.payload)

theorem openPayload_meets (hs : Sound format sha256 s) (d : Delivery) :
    Meets (openPayload format sha256 inboxDir me d) s (Lawful sha256)
      (OnSuccess fun bytes _ => ∀ content, s.Holds format sha256 d content → bytes = content) := by
  unfold openPayload
  refine Meets.check fun _ _ => Meets.afterCallIn hs fun u hu => Meets.afterCallIn hu.sound fun v hv => ?_
  refine Meets.read ?_
  split
  · rw [meets_fail, onSuccess_error]
    trivial
  · rw [meets_fail, onSuccess_error]
    trivial
  · refine withContext_meets (Meets.afterCall hv.sound fun w hw => Meets.read ?_)
    have hfound : ∀ content, s.Holds format sha256 d content →
        ∃ writer, w.entry .inbox d.payload = some (.regular writer content) := by
      rintro content ⟨writer, hd⟩
      refine ⟨writer, ?_⟩
      rw [hd.name]
      exact ((hu.trans hv).trans hw).kept.file _ _ _ _ hd.payload
    split
    · rename_i writer' bytes hentry
      rw [meets_pure, onSuccess_ok]
      intro content hd
      obtain ⟨writer, hbytes⟩ := hfound content hd
      rw [hentry] at hbytes
      cases Option.some.inj hbytes
      rfl
    · rename_i content' hentry
      rw [meets_ofExcept]
      intro bytes _ content hd
      obtain ⟨writer, hbytes⟩ := hfound content hd
      rw [hentry] at hbytes
      cases Option.some.inj hbytes
    · rw [meets_fail, onSuccess_error]
      trivial

end FilesystemSource

/-! ### Runs -/

/-- What a process asks of the source. -/
inductive InboxCall
  | enqueue (fileName : Option String) (input copied : Bytes) (maxFileSize : Nat)
  | scanPending (maxFileSize : Nat)
  | openPayload (delivery : Delivery)
  | acknowledge (id digest : String)

/-- A call of a process, cut off after a number of events or not at all. -/
structure InboxRun where
  process : Nat
  call : InboxCall
  cutOff : Option Nat

namespace InboxRun

open FilesystemSource

variable (format : InboxFormat) (sha256 : Bytes → String) (inboxDir : String)

/-- The call as a procedure. -/
def procedure (r : InboxRun) : InboxProc format Unit :=
  match r.call with
  | .enqueue fileName input copied maxFileSize => do
    let _ ← FilesystemSource.enqueue format sha256 inboxDir r.process fileName input copied maxFileSize
  | .scanPending maxFileSize => do
    let _ ← FilesystemSource.scanPending format sha256 inboxDir r.process maxFileSize
  | .openPayload delivery => do
    let _ ← FilesystemSource.openPayload format sha256 inboxDir r.process delivery
  | .acknowledge id digest => FilesystemSource.acknowledge format sha256 inboxDir r.process id digest

/-- The events of a call. -/
def events (r : InboxRun) (s : Inbox) : List InboxEvent :=
  ((r.procedure format sha256 inboxDir).upTo r.cutOff s).events

end InboxRun

namespace Inbox

open FilesystemSource

variable (format : InboxFormat) (sha256 : Bytes → String) (inboxDir : String)

/-- The inbox after calls one after the other. Others that go on at the same time are in the answers
that each call receives. -/
def run : Inbox → List InboxRun → Inbox
  | s, [] => s
  | s, r :: rest => run (after (apply format) s (r.events format sha256 inboxDir s)) rest

variable {format sha256 inboxDir}

theorem run_append (s : Inbox) (l m : List InboxRun) :
    run format sha256 inboxDir s (l ++ m) =
      run format sha256 inboxDir (run format sha256 inboxDir s l) m := by
  induction l generalizing s with
  | nil => rfl
  | cons r rest ih => exact ih _

variable {s : Inbox}

theorem events_lawful (hs : Sound format sha256 s) (r : InboxRun) :
    Guarded (apply format) (Lawful sha256) s (r.events format sha256 inboxDir s) := by
  have hmeets : Meets (r.procedure format sha256 inboxDir) s (Lawful sha256) fun _ _ => True := by
    unfold InboxRun.procedure
    split
    · exact ((enqueue_meets hs _ _ _ _).bind fun _ _ _ => meets_pure.mpr (onSuccess_ok.mpr trivial)).mono
        (fun _ _ he => he) fun _ _ (_ : OnSuccess (fun _ _ => True) _ _) => trivial
    · exact ((scanPending_meets hs _).bind fun _ _ _ => meets_pure.mpr (onSuccess_ok.mpr trivial)).mono
        (fun _ _ he => he) fun _ _ (_ : OnSuccess (fun _ _ => True) _ _) => trivial
    · exact ((openPayload_meets hs _).bind fun _ _ _ => meets_pure.mpr (onSuccess_ok.mpr trivial)).mono
        (fun _ _ he => he) fun _ _ (_ : OnSuccess (fun _ _ => True) _ _) => trivial
    · exact (FilesystemSource.acknowledge_meets hs _ _).mono (fun _ _ he => he) fun _ _ _ => trivial
  exact (hmeets.upTo r.cutOff).1

theorem run_later (hs : Sound format sha256 s) (l : List InboxRun) :
    FilesystemSource.Later format sha256 s (run format sha256 inboxDir s l) := by
  induction l generalizing s with
  | nil => exact FilesystemSource.Later.refl hs
  | cons r rest ih =>
    have hstep : FilesystemSource.Later format sha256 s
        (after (apply format) s (r.events format sha256 inboxDir s)) :=
      later_of_guarded hs (events_lawful hs r)
    exact hstep.trans (ih hstep.sound)

end Inbox

namespace InboxRun

open FilesystemSource Inbox

section Returns

variable (format : InboxFormat) (sha256 : Bytes → String) (inboxDir : String) (r : InboxRun) (s : Inbox)

/-- The call was not cut off and has put a delivery into the inbox. -/
def Enqueued (d : Delivery) : Prop :=
  r.cutOff = none ∧ ∃ fileName input copied maxFileSize,
    r.call = .enqueue fileName input copied maxFileSize ∧
      (FilesystemSource.enqueue format sha256 inboxDir r.process fileName input copied maxFileSize
        s).result = .ok d

/-- The call was not cut off and has returned a scan. -/
def Scanned (scan : SourceScan) : Prop :=
  r.cutOff = none ∧ ∃ maxFileSize, r.call = .scanPending maxFileSize ∧
    (FilesystemSource.scanPending format sha256 inboxDir r.process maxFileSize s).result = .ok scan

/-- The call was not cut off and has returned a payload. -/
def Opened (d : Delivery) (bytes : Bytes) : Prop :=
  r.cutOff = none ∧ r.call = .openPayload d ∧
    (FilesystemSource.openPayload format sha256 inboxDir r.process d s).result = .ok bytes

/-- The call was not cut off and has acknowledged a delivery. -/
def Acknowledged (id digest : String) : Prop :=
  r.cutOff = none ∧ r.call = .acknowledge id digest ∧
    (FilesystemSource.acknowledge format sha256 inboxDir r.process id digest s).result = .ok ()

end Returns

variable {format : InboxFormat} {sha256 : Bytes → String} {inboxDir : String} {r : InboxRun} {s : Inbox}

/-- Throwing the value away changes nothing. -/
theorem final_bind_pure {α : Type} {p : InboxProc format α} {s : Inbox} :
    final (p >>= fun _ => pure () : InboxProc format Unit) s = final p s := by
  simp only [final, bind, andThen]
  split
  · rfl
  · simp [pure]

/-- A call that was not cut off. -/
theorem run_single (h : r.cutOff = none) :
    run format sha256 inboxDir s [r] = final (r.procedure format sha256 inboxDir) s := by
  rw [run, run, events, h]
  rfl

theorem Enqueued.post {d : Delivery} (hs : Sound format sha256 s)
    (h : r.Enqueued format sha256 inboxDir s d) :
    (∃ content, (run format sha256 inboxDir s [r]).Holds format sha256 d content) ∧
      ∀ d' content, s.Holds format sha256 d' content → d'.id ≠ d.id := by
  obtain ⟨hcut, fileName, input, copied, maxFileSize, hcall, hok⟩ := h
  rw [run_single hcut, procedure, hcall]
  dsimp only
  rw [final_bind_pure]
  exact (enqueue_meets hs fileName input copied maxFileSize).2 d hok

theorem Scanned.post {scan : SourceScan} (hs : Sound format sha256 s)
    (h : r.Scanned format sha256 inboxDir s scan) : ∃ maxFileSize,
      FilesystemSource.Scanned format inboxDir maxFileSize s (run format sha256 inboxDir s [r]) scan := by
  obtain ⟨hcut, maxFileSize, hcall, hok⟩ := h
  refine ⟨maxFileSize, ?_⟩
  rw [run_single hcut, procedure, hcall]
  dsimp only
  rw [final_bind_pure]
  exact ((scanPending_meets hs maxFileSize).2 scan hok).2

theorem Acknowledged.post {id digest : String} (hs : Sound format sha256 s)
    (h : r.Acknowledged format sha256 inboxDir s id digest) :
    MarkedAs format (run format sha256 inboxDir s [r]) id digest := by
  obtain ⟨hcut, hcall, hok⟩ := h
  rw [run_single hcut, procedure, hcall]
  exact (FilesystemSource.acknowledge_meets hs id digest).2 () hok

end InboxRun

namespace FilesystemSource

open Inbox

variable {format : InboxFormat} {sha256 : Bytes → String} {inboxDir : String} {s t : Inbox}

/-- What was written into the inbox is read back. -/
structure ReadsBack (format : InboxFormat) (sha256 : Bytes → String) (s : Inbox) : Prop where
  manifests : ∀ d content, s.Holds format sha256 d content →
    format.parseManifest (format.manifestBytes d) = .ok d
  markers : ∀ m writer,
    s.entry .acks (manifestName m.id) = some (.regular writer (format.markerBytes m)) →
      format.parseMarker (format.markerBytes m) = .ok m

theorem ReadsBack.before (h : ReadsBack format sha256 t) (hkept : Kept s t) :
    ReadsBack format sha256 s :=
  ⟨fun d content hd => h.manifests d content (hkept.holds hd),
    fun m writer hentry => h.markers m writer (hkept.file _ _ _ _ hentry)⟩

theorem MarkedAs.acknowledged {id digest : String} (hreads : ReadsBack format sha256 s)
    (h : MarkedAs format s id digest) : Acknowledged format s id digest := by
  rcases h with hack | ⟨writer, now, hentry⟩
  · exact hack
  · exact ⟨writer, _, _, hentry, hreads.markers _ writer hentry, rfl, rfl⟩

/-- What is read of a manifest is the delivery whose manifest stands. -/
theorem ManifestRead.holds {maxFileSize : Nat} {name : String} {d : Delivery}
    (hs : Sound format sha256 s) (hreads : ReadsBack format sha256 s)
    (hname : isManifestName name = true) (h : ManifestRead format s maxFileSize name d) :
    name = manifestName d.id ∧ ∃ content, s.Holds format sha256 d content := by
  obtain ⟨writer, content, hentry, -, hparse⟩ := h.entry
  rcases hs.inbox _ _ hentry with ⟨hfile, -⟩ | ⟨id, _, _, -, hpayload, -⟩ | ⟨d', payload, _, hd', hname', hfile⟩
  · contradiction
  · rw [hpayload, not_isManifestName_payloadName] at hname
    contradiction
  · cases hfile
    rw [hreads.manifests d' payload ⟨_, hd'⟩] at hparse
    cases Except.ok.inj hparse
    exact ⟨hname', payload, _, hd'⟩

/-- What a scan says of a delivery that the inbox has. -/
theorem Scanned.finds {maxFileSize : Nat} {scan : SourceScan} {d : Delivery} {content : Bytes}
    (ht : Later format sha256 s t) (hreads : ReadsBack format sha256 t)
    (h : Scanned format inboxDir maxFileSize s t scan) (hd : s.Holds format sha256 d content) :
    d ∈ scan.deliveries ∨ Reported inboxDir scan.issues (manifestName d.id) ∨
      Acknowledged format t d.id d.sha256 := by
  obtain ⟨writer, hholds⟩ := hd
  have hname := isManifestName_manifestName (valid_id hholds.valid)
  rcases h.complete _ _ _ hholds.manifest hname with hissue | ⟨d', hread, hrest⟩
  · exact .inr (.inl hissue)
  · obtain ⟨writer', content', hentry, -, hparse⟩ := hread.entry
    rw [ht.kept.file _ _ _ _ hholds.manifest] at hentry
    cases Option.some.inj hentry
    rw [hreads.manifests d content ⟨_, ht.kept.holdsBy hholds⟩] at hparse
    cases Except.ok.inj hparse
    rcases hrest with hack | hlisted | ⟨name', d', hname', hne, hread', hid⟩
    · exact .inr (.inr hack)
    · exact .inl hlisted
    · exact absurd ((hread'.holds ht.sound hreads hname').1.trans (congrArg manifestName hid)) hne

end FilesystemSource

namespace Inbox

open FilesystemSource InboxRun

/-- Whatever processes do with an inbox that was empty, each going on while others do and cut off
anywhere: a delivery that one of them has put there has an identity of its own, its payload is read
as the delivery describes it, and every later scan lists it, unless there is an issue with it or it
was acknowledged with its digest; and after an acknowledgement no scan lists the identity, and no
other digest is acknowledged. Scans list each delivery once, in order, and only such deliveries. -/
theorem folder_delivers (format : InboxFormat) (sha256 : Bytes → String) (inboxDir : String)
    (answers : Nat → InboxAnswer) (runs : List InboxRun)
    (hreads : ReadsBack format sha256 (run format sha256 inboxDir (initial answers) runs)) :
    (∀ (first : List InboxRun) (a : InboxRun) (between : List InboxRun) (b : InboxRun)
        (last : List InboxRun) (d : Delivery), runs = first ++ a :: (between ++ b :: last) →
      a.Enqueued format sha256 inboxDir (run format sha256 inboxDir (initial answers) first) d →
        let s := run format sha256 inboxDir (initial answers) (first ++ a :: between)
        (∀ scan : SourceScan, b.Scanned format sha256 inboxDir s scan →
          d ∈ scan.deliveries ∨ Reported inboxDir scan.issues (manifestName d.id) ∨
            FilesystemSource.Acknowledged format (run format sha256 inboxDir s [b]) d.id d.sha256) ∧
        (∀ bytes, b.Opened format sha256 inboxDir s d bytes → d.describes sha256 bytes = true) ∧
        ∀ d', b.Enqueued format sha256 inboxDir s d' → d'.id ≠ d.id) ∧
    (∀ (first : List InboxRun) (a : InboxRun) (between : List InboxRun) (b : InboxRun)
        (last : List InboxRun) (id digest : String), runs = first ++ a :: (between ++ b :: last) →
      a.Acknowledged format sha256 inboxDir (run format sha256 inboxDir (initial answers) first)
          id digest →
        let s := run format sha256 inboxDir (initial answers) (first ++ a :: between)
        (∀ scan : SourceScan, b.Scanned format sha256 inboxDir s scan → ∀ d ∈ scan.deliveries, d.id ≠ id) ∧
        ∀ digest', b.Acknowledged format sha256 inboxDir s id digest' → digest' = digest) ∧
    ∀ (first : List InboxRun) (a : InboxRun) (last : List InboxRun) (scan : SourceScan),
      runs = first ++ a :: last →
      a.Scanned format sha256 inboxDir (run format sha256 inboxDir (initial answers) first) scan →
        scan.deliveries.Pairwise (fun d d' => HttpSource.scanOrder d d' = true) ∧
          (scan.deliveries.map (·.id)).Nodup ∧
            ∀ d ∈ scan.deliveries, ∃ content,
              (run format sha256 inboxDir (initial answers) (first ++ [a])).Holds format sha256 d
                content := by
  have hrun : ∀ l, FilesystemSource.Later format sha256 (initial answers)
      (run format sha256 inboxDir (initial answers) l) :=
    fun l => run_later (sound_initial answers) l
  have hback : ∀ l m, runs = l ++ m →
      ReadsBack format sha256 (run format sha256 inboxDir (initial answers) l) := by
    rintro l m rfl
    rw [run_append] at hreads
    exact hreads.before (run_later (hrun l).sound m).kept
  have hsplit : ∀ (first : List InboxRun) (a : InboxRun) (between : List InboxRun),
      run format sha256 inboxDir (initial answers) (first ++ a :: between) =
        run format sha256 inboxDir (run format sha256 inboxDir
          (run format sha256 inboxDir (initial answers) first) [a]) between := fun first a between => by
    rw [run_append, ← List.singleton_append, run_append]
  have hlast : ∀ (first : List InboxRun) (b : InboxRun),
      run format sha256 inboxDir (run format sha256 inboxDir (initial answers) first) [b] =
        run format sha256 inboxDir (initial answers) (first ++ [b]) := fun first b =>
    (run_append _ _ _).symm
  refine ⟨fun first a between b last d hruns henqueued => ?_,
    fun first a between b last id digest hruns hack => ?_, fun first a last scan hruns hscan => ?_⟩
  · intro s
    have hs : Sound format sha256 s := (hrun _).sound
    obtain ⟨⟨content, hd⟩, -⟩ := henqueued.post (hrun first).sound
    have hkept : s.Holds format sha256 d content := by
      rw [show s = _ from hsplit first a between]
      exact (run_later ((hlast first a).symm ▸ (hrun _).sound) between).kept.holds hd
    refine ⟨fun scan hscan => ?_, fun bytes hopened => ?_, fun d' hother => ?_⟩
    · obtain ⟨maxFileSize, hscanned⟩ := hscan.post hs
      refine hscanned.finds (run_later hs [b]) ?_ hkept
      rw [hlast]
      exact hback _ last (by rw [hruns]; simp)
    · obtain ⟨-, -, hok⟩ := hopened
      rw [(openPayload_meets hs d).2 bytes hok content hkept]
      obtain ⟨writer, hholds⟩ := hkept
      exact hholds.describes
    · exact ((hother.post hs).2 d content hkept).symm
  · intro s
    have hs : Sound format sha256 s := (hrun _).sound
    have hmarked : MarkedAs format s id digest := by
      rw [show s = _ from hsplit first a between]
      exact (hack.post (hrun first).sound).kept
        (run_later ((hlast first a).symm ▸ (hrun _).sound) between).kept
    have hacked := hmarked.acknowledged (hback (first ++ a :: between) (b :: last) (by rw [hruns]; simp))
    refine ⟨fun scan hscan d hd hid => ?_, fun digest' hother => ?_⟩
    · obtain ⟨maxFileSize, hscanned⟩ := hscan.post hs
      obtain ⟨name, -, -, hunmarked⟩ := hscanned.listed d hd
      exact hunmarked (hid ▸ hacked.marked)
    · have hother' := (hother.post hs).acknowledged (by
        rw [hlast]
        exact hback _ last (by rw [hruns]; simp))
      exact hother'.unique (hacked.kept (run_later hs [b]).kept)
  · obtain ⟨maxFileSize, hscanned⟩ := hscan.post (hrun first).sound
    refine ⟨hscanned.ordered, hscanned.once, fun d hd => ?_⟩
    obtain ⟨name, hname, hread, -⟩ := hscanned.listed d hd
    rw [hlast] at hread
    exact (hread.holds (hrun _).sound (hback _ last (by rw [hruns]; simp)) hname).2

/-- The digest of the note `hi`; no other payload occurs. -/
def folderDigest (_ : Bytes) : String :=
  "8f434346648f6b96df89dda901c5176b10a6d83961dd3c1ac88b59b2dc327aa4"

/-- The delivery of a note. -/
def folderNote : Delivery :=
  ⟨1, "a1", "n.txt", "a1.payload", 2, folderDigest [104, 105], "text/plain", some 10⟩

/-- The marker for it. -/
def folderMarker : AckMarker := ⟨"a1", folderDigest [104, 105], 10⟩

/-- Its manifest. -/
def folderManifest : Bytes :=
  ["\x7b\n  \"schema_version\": 1,\n", "  \"id\": \"a1\",\n", "  \"original_name\": \"n.txt\",\n",
    "  \"payload\": \"a1.payload\",\n", "  \"size\": 2,\n", "  \"sha256\": \"8f434346648f6b96",
    "df89dda901c5176b", "10a6d83961dd3c1a", "c88b59b2dc327aa4\",\n", "  \"media_type\": ",
    "\"text/plain\",\n", "  \"created_at_unix\": 10\n\x7d"].flatMap ascii

/-- The content of the marker. -/
def folderAck : Bytes :=
  ["\x7b\n  \"id\": \"a1\",\n", "  \"sha256\": \"8f434346648f6b96", "df89dda901c5176b",
    "10a6d83961dd3c1a", "c88b59b2dc327aa4\",\n", "  \"acknowledged_at_unix\": 10\n\x7d"].flatMap ascii

/-- `serde_json` on the manifest and the marker of the note; no other occurs. -/
def folderFormat : InboxFormat where
  manifest d := if d = folderNote then folderManifest else []
  parseManifest bytes :=
    if bytes = folderManifest ++ [10] then .ok folderNote else .error (.message "expected value")
  marker m := if m = folderMarker then folderAck else []
  parseMarker bytes :=
    if bytes = folderAck ++ [10] then .ok folderMarker else .error (.message "expected value")

/-- Every call succeeds; the only new name and the only time are those of the note. -/
def folderStart : Inbox := .initial fun _ => ⟨.ok (), "a1", 10, []⟩

/-- One process puts the note into the inbox, another one scans it, acknowledges it and scans again. -/
def folderRuns : List InboxRun :=
  [⟨1, .enqueue (some "n.txt") [104, 105] [104, 105] 1024, none⟩, ⟨2, .scanPending 1024, none⟩,
    ⟨2, .acknowledge "a1" (folderDigest [104, 105]), none⟩, ⟨2, .scanPending 1024, none⟩]

/-- What the inbox holds after the first calls. -/
def folderAfter (n : Nat) : Inbox := run folderFormat folderDigest "inbox" folderStart (folderRuns.take n)

/-- The content of a regular file. -/
def content : InboxFile → Option Bytes
  | .regular _ content => some content
  | _ => none

/-- What the calls answer, what is read back, and what is written in the end. -/
theorem folder_facts :
    (scanPending folderFormat folderDigest "inbox" 2 1024 (folderAfter 1)).result =
        .ok ⟨[folderNote], []⟩ ∧
      (acknowledge folderFormat folderDigest "inbox" 2 "a1" (folderDigest [104, 105])
          (folderAfter 2)).result = .ok () ∧
        folderFormat.parseManifest (folderFormat.manifestBytes folderNote) = .ok folderNote ∧
          folderFormat.parseMarker (folderFormat.markerBytes folderMarker) = .ok folderMarker ∧
            ((folderAfter 4).entries .inbox).values.all (content · != some [10]) = true ∧
              ((folderAfter 4).entries .acks).values.all (content · != some [10]) = true := by
  decide +kernel

/-- Nothing but the note is written. -/
theorem readsBack_folderRuns : ReadsBack folderFormat folderDigest (folderAfter 4) := by
  obtain ⟨-, -, hmanifest, hmarker, hinbox, hacks⟩ := folder_facts
  rw [List.all_eq_true] at hinbox hacks
  constructor
  · rintro d payload ⟨writer, hd⟩
    by_cases hnote : d = folderNote
    · exact hnote ▸ hmanifest
    · have hbytes : folderFormat.manifestBytes d = [10] := by
        simp [InboxFormat.manifestBytes, folderFormat, hnote]
      have hentry := hd.manifest
      rw [hbytes] at hentry
      exact absurd rfl (bne_iff_ne.mp (hinbox _ ((Files.mem_values_iff _ _).mpr ⟨_, hentry⟩)))
  · intro m writer hentry
    by_cases hnote : m = folderMarker
    · exact hnote ▸ hmarker
    · have hbytes : folderFormat.markerBytes m = [10] := by
        simp [InboxFormat.markerBytes, folderFormat, hnote]
      rw [hbytes] at hentry
      exact absurd rfl (bne_iff_ne.mp (hacks _ ((Files.mem_values_iff _ _).mpr ⟨_, hentry⟩)))

/-- The first scan lists the note, which is there; the second one does not list it any more. -/
theorem folder_delivers_note :
    (∃ content, (folderAfter 2).Holds folderFormat folderDigest folderNote content) ∧
      ∀ scan, InboxRun.Scanned folderFormat folderDigest "inbox" ⟨2, .scanPending 1024, none⟩
        (folderAfter 3) scan → ∀ d ∈ scan.deliveries, d.id ≠ "a1" := by
  obtain ⟨hscan, hack, -⟩ := folder_facts
  have hdelivers := folder_delivers folderFormat folderDigest "inbox" _ folderRuns readsBack_folderRuns
  constructor
  · exact (hdelivers.2.2 (folderRuns.take 1) ⟨2, .scanPending 1024, none⟩ (folderRuns.drop 2) _ rfl
      ⟨rfl, 1024, rfl, hscan⟩).2.2 folderNote (List.mem_singleton.mpr rfl)
  · exact (hdelivers.2.1 (folderRuns.take 2) ⟨2, .acknowledge "a1" (folderDigest [104, 105]), none⟩ []
      ⟨2, .scanPending 1024, none⟩ [] "a1" (folderDigest [104, 105]) rfl ⟨rfl, rfl, hack⟩).1

end Inbox

end MiRelay
