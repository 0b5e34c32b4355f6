import MiRelay.Server.Guards

/-!
# Storing and collecting keep to the conditions

Every operation under the content lock causes only permitted events, whatever
transactions of others come in between. What an operation has read before it
waits is still true afterwards as far as the lock protects it; the rest it does
not use again.
-/

namespace MiRelay

open Proc Relay

namespace ServerStore

variable {store : ServerStore} {sha256 : Bytes → String} {s : Relay}

/-- What holds after a wait under the content lock holds after the others' transactions. -/
theorem pause_meets {between : List (List Transaction)} {k : Nat} :
    Meets (store.pause sha256 between k) s (PermittedOutside store sha256)
      (OnSuccess fun _ t => SameContent s t) := by
  have hall : ∀ l : List Transaction, (∀ t ∈ l, t.lockFree = true) → ∀ s : Relay,
      Guarded (apply store sha256) (fun s e => PermittedOutside store sha256 s e ∧
        ∃ t : Transaction, t.lockFree = true ∧ e = .transaction t) s (l.map Event.transaction) := by
    intro l
    induction l with
    | nil => simp
    | cons t l ih =>
      intro hl s
      have ht := hl t (List.mem_cons_self ..)
      exact ⟨⟨⟨ht, rfl⟩, t, ht, rfl⟩, ih (fun t ht => hl t (List.mem_cons_of_mem _ ht)) _⟩
  have hguard := hall ((between.getD k []).filter (·.lockFree))
    (fun t ht => (List.mem_filter.mp ht).2) s
  rw [pause, meets_await]
  refine ⟨hguard.mono fun _ _ h => h.1, ?_⟩
  rw [onSuccess_ok]
  refine hguard.rel SameContent.refl (fun _ _ _ => SameContent.trans) fun s e h => ?_
  obtain ⟨-, t, ht, rfl⟩ := h
  exact sameContent_transaction store sha256 s ht

/-- The bytes of an inspection that passed. -/
theorem copyAndInspect_ok {m : Nat} {expected : Option Nat} {bytes : Bytes} {i : FileInspection}
    (h : copyAndInspect sha256 m expected bytes = .ok i) : i = inspection sha256 bytes := by
  simp only [copyAndInspect, bind_eq_ok] at h
  obtain ⟨_, -, _, -, _, -, h⟩ := h
  exact (Except.ok.inj h).symm

theorem verifyReceived_ok {delivery : Delivery} {bytes : Bytes} {i : FileInspection}
    (h : store.verifyReceived sha256 delivery bytes = .ok i) : i = inspection sha256 bytes := by
  simp only [verifyReceived, bind_eq_ok] at h
  obtain ⟨found, hfound, _, -, _, -, h⟩ := h
  rw [← Except.ok.inj h]
  exact copyAndInspect_ok hfound

/-- Received bytes are a content object afterwards, of their own or with the same inspection. -/
theorem receive_meets {device : String} {delivery : Delivery} {bytes : Bytes}
    (hopen : s.db.retired device = false) :
    Meets (store.receive sha256 device delivery bytes) s (PermittedOutside store sha256)
      (OnSuccess fun found t => found = inspection sha256 bytes ∧ t.desk = s.desk ∧
        t.records = s.records ∧ t.parts = s.parts ∧
        ∃ stored, t.library.objects.lookup (nameOf sha256 stored) = some stored ∧
          inspection sha256 stored = inspection sha256 bytes) := by
  unfold receive
  refine Meets.check fun _ _ => Meets.step ⟨trivial, rfl⟩ ?_
  cases hv : store.verifyReceived sha256 delivery bytes with
  | error e =>
    refine Meets.step ⟨trivial, rfl⟩ ?_
    simp
  | ok found =>
    obtain rfl := verifyReceived_ok hv
    refine Meets.read ?_
    cases hl : (apply store sha256 s (.stage bytes)).library.objects.lookup
        ⟨(inspection sha256 bytes).sha256, (inspection sha256 bytes).extension⟩ with
    | none =>
      refine Meets.step ⟨⟨hl, hopen⟩, rfl⟩ ?_
      rw [meets_pure, onSuccess_ok]
      refine ⟨rfl, rfl, rfl, rfl, bytes, ?_, rfl⟩
      exact AList.lookup_insert _
    | some existing =>
      refine Meets.step ⟨trivial, rfl⟩ (Meets.check fun present hpresent =>
        Meets.check fun _ heq => ?_)
      rw [ensure_eq_ok, beq_iff_eq] at heq
      obtain ⟨-, -, hex⟩ := (inspectFile_ok sha256).mp hpresent
      rw [meets_pure, onSuccess_ok]
      refine ⟨rfl, rfl, rfl, rfl, existing, ?_, hex.symm.trans heq⟩
      have hname : nameOf sha256 existing =
          ⟨(inspection sha256 bytes).sha256, (inspection sha256 bytes).extension⟩ := by
        rw [← heq, hex]
        rfl
      rw [hname]
      exact hl

/-- What the description of an input says. -/
theorem describe_ok {device : String} {input : Bytes} {originalName id : String}
    {createdAt : Nat} {directory : Option DirectoryVersion} {delivery : Delivery}
    (h : store.describe sha256 device input originalName id createdAt directory = .ok delivery) :
    delivery = deliveryFor originalName id createdAt (inspection sha256 input) ∧
      validateEnqueue device delivery directory store.maxFileSize = .ok () := by
  simp only [describe, bind_eq_ok] at h
  obtain ⟨_, hdevice, _, hdirectory, found, hfound, _, hmeta, h⟩ := h
  obtain ⟨-, -, rfl⟩ := (inspectFile_ok sha256).mp hfound
  obtain rfl := Except.ok.inj h
  refine ⟨rfl, ?_⟩
  simp only [validateEnqueue, bind_eq_ok]
  exact ⟨_, hdevice, _, hdirectory, hmeta⟩

/-- Enqueueing keeps to the conditions; afterwards the delivery has its row. -/
theorem enqueueDirectoryWithId_meets {origin : Origin} {device : String} {input again : Bytes}
    {originalName id : String} {createdAt : Nat} {directory : Option DirectoryVersion} {now : Nat}
    {between : List (List Transaction)}
    (horigin : origin = .upload → s.OfUpload sha256 device
      (deliveryFor originalName id createdAt (inspection sha256 input)) createdAt directory) :
    Meets (store.enqueueDirectoryWithId sha256 origin device input again originalName id createdAt
        directory now between) s (PermittedOutside store sha256)
      (OnSuccess fun row t => row.deliveryId = id ∧
        ∃ d ∈ t.db.deliveries.rows, d.deviceId = device ∧ d.deliveryId = id) := by
  unfold enqueueDirectoryWithId
  refine Meets.check fun delivery hdelivery => ?_
  obtain ⟨rfl, hvalid⟩ := describe_ok hdelivery
  refine Meets.bind pause_meets fun _ s₁ h₁ => Meets.read (Meets.check fun _ hopen => ?_)
  refine Meets.bind pause_meets fun _ s₂ h₂ => Meets.read (Meets.check fun replayed hreplayed => ?_)
  cases replayed with
  | some existing =>
    obtain ⟨hrow, hholds, -⟩ := Database.replayedDelivery_ok hreplayed
    rw [meets_pure, onSuccess_ok]
    exact ⟨hholds.2.1, existing, hrow, hholds.1, hholds.2.1⟩
  | none =>
    have hunretired : s₂.db.retired device = false :=
      (h₂.uploads.retired device).trans (Database.retired_of_open hopen)
    refine Meets.bind (receive_meets hunretired) fun found s₃ h₃ => ?_
    obtain ⟨rfl, hdesk, hrecords, hparts, stored, hlookup, hstored⟩ := h₃
    refine Meets.check fun _ hsame => ?_
    rw [ensure_eq_ok, Bool.and_eq_true, Bool.and_eq_true, beq_iff_eq, beq_iff_eq, beq_iff_eq]
      at hsame
    refine Meets.bind pause_meets fun _ s₄ h₄ => Meets.read (Meets.check fun db hdb => ?_)
    have huploads : SameUploads s s₄ := by
      have h₂₃ : SameUploads s₂ s₃ := by
        refine ⟨hrecords, hparts, fun _ h => ?_, fun _ => ?_⟩
        · rw [Relay.db, hdesk]
          exact h
        · rw [Relay.db, hdesk]
      exact ((h₁.trans h₂).uploads.trans h₂₃).trans h₄.uploads
    have hinsertable : Insertable store sha256 s₄ origin device
        (deliveryFor originalName id createdAt (inspection sha256 input)) createdAt directory now := by
      refine ⟨?_, hvalid, ⟨db, hdb⟩, ⟨stored, ?_, ?_⟩, fun ho =>
        huploads.ofUpload sha256 (horigin ho)⟩
      · rw [h₄.uploads.retired, Relay.db, hdesk]
        exact hunretired
      · rw [h₄.library]
        exact hlookup
      · obtain ⟨⟨hsize, hsha⟩, hmedia⟩ := hsame
        rw [← hstored] at hsize hsha hmedia
        exact ⟨hsize.symm, hsha.symm, hmedia.symm⟩
    refine Meets.step ⟨hinsertable, rfl⟩ ?_
    rw [meets_pure, onSuccess_ok]
    refine ⟨rfl, ?_⟩
    obtain ⟨acknowledged, -, hrows⟩ := (Database.enqueue_ok hdb).deliveries
    refine ⟨{ (deliveryFor originalName id createdAt (inspection sha256 input)).row device
      (s₄.db.lastSequence + 1) createdAt with acknowledgedAtUnix := acknowledged }, ?_, rfl, rfl⟩
    rw [apply_insertDelivery store sha256 hdb, db_withDb, hrows]
    simp

/-- Only the object of a digest nobody waits for is collected. -/
theorem garbageCollectDigest_meets {digest : String} {between : List (List Transaction)} :
    Meets (store.garbageCollectDigest sha256 digest between) s (PermittedOutside store sha256)
      (OnSuccess fun _ _ => True) := by
  unfold garbageCollectDigest
  refine Meets.check fun _ _ => Meets.bind pause_meets fun _ s₁ h₁ => Meets.read ?_
  rw [meets_ite]
  refine ⟨fun _ => by simp, fun hnone => ?_⟩
  refine Meets.bind pause_meets fun _ s₂ h₂ => Meets.read ?_
  cases s₂.db.deliveries.rows.find? (·.sha256 == digest) with
  | none => simp
  | some row =>
    dsimp only
    cases hname : objectOf digest row.mediaType with
    | none => simp
    | some name =>
      dsimp only
      rw [meets_ite]
      refine ⟨fun _ => Meets.step ⟨fun d hd hpending hobject => hnone ?_, rfl⟩ (by simp),
        fun _ => by simp⟩
      have hdigest : d.sha256 = digest :=
        (objectOf_eq_some.mp hobject).1.symm.trans (objectOf_eq_some.mp hname).1
      rw [List.any_eq_true]
      exact ⟨d, h₂.db.pending hd hpending, by simp [hdigest, hpending]⟩

/-- The map of referenced objects holds the object of every pending row. -/
theorem referencedObjects_ok {db : Database} {referenced : List (ObjectName × DeliveryRow)}
    (h : store.referencedObjects db = .ok referenced) {d : DeliveryRow}
    (hd : d ∈ db.deliveries.rows) (hnone : d.acknowledgedAtUnix = none) {name : ObjectName}
    (hname : d.object = some name) : name ∈ referenced.map (·.1) := by
  have hall : ∀ (rows : List DeliveryRow) (acc : List (ObjectName × DeliveryRow)),
      rows.foldlM store.addReference acc = .ok referenced →
      (∀ n ∈ acc.map (·.1), n ∈ referenced.map (·.1)) ∧
        ∀ d ∈ rows, ∀ n, d.object = some n → n ∈ referenced.map (·.1) := by
    intro rows
    induction rows with
    | nil =>
      intro acc h
      obtain rfl := Except.ok.inj h
      simp
    | cons row rows ih =>
      intro acc h
      rw [List.foldlM_cons, bind_eq_ok] at h
      obtain ⟨acc', hstep, h⟩ := h
      obtain ⟨hacc, hrows⟩ := ih acc' h
      have hgrow : (∀ n ∈ acc.map (·.1), n ∈ acc'.map (·.1)) ∧
          ∀ n, row.object = some n → n ∈ acc'.map (·.1) := by
        simp only [addReference, bind_eq_ok] at hstep
        obtain ⟨_, -, hstep⟩ := hstep
        split at hstep
        · contradiction
        rename_i m hm
        split at hstep
        · obtain rfl := Except.ok.inj hstep
          refine ⟨fun n hn => ?_, fun n hn => ?_⟩
          · rw [List.map_append]
            exact List.mem_append_left _ hn
          · rw [hm] at hn
            simp [Option.some.inj hn]
        · rename_i previous hprevious
          simp only [bind_eq_ok] at hstep
          obtain ⟨_, -, hstep⟩ := hstep
          obtain rfl := Except.ok.inj hstep
          refine ⟨fun n hn => hn, fun n hn => ?_⟩
          rw [hm] at hn
          have hkey := List.find?_some hprevious
          rw [beq_iff_eq] at hkey
          rw [← Option.some.inj hn, ← hkey]
          exact List.mem_map_of_mem (List.mem_of_find?_eq_some hprevious)
      refine ⟨fun n hn => hacc n (hgrow.1 n hn), fun d hd n hn => ?_⟩
      rcases List.mem_cons.mp hd with rfl | hd
      · exact hacc n (hgrow.2 n hn)
      · exact hrows d hd n hn
  exact (hall _ _ h).2 d (List.mem_filter.mpr ⟨hd, by simp [hnone]⟩) name hname

/-- The scan removes nothing a pending row references. -/
theorem removeUnreferenced_meets {referenced : List ObjectName}
    {between : List (List Transaction)} {names : List ObjectName} {report : ReconcileReport}
    (href : ∀ d ∈ s.db.deliveries.rows, d.acknowledgedAtUnix = none → ∀ name,
      d.object = some name → name ∈ referenced) :
    Meets (store.removeUnreferenced sha256 referenced between names report) s
      (PermittedOutside store sha256) (OnSuccess fun _ _ => True) := by
  induction names generalizing s report with
  | nil => simp [removeUnreferenced]
  | cons name rest ih =>
    unfold removeUnreferenced
    refine Meets.bind pause_meets fun _ s₁ h₁ => ?_
    have href₁ : ∀ d ∈ s₁.db.deliveries.rows, d.acknowledgedAtUnix = none → ∀ name,
        d.object = some name → name ∈ referenced :=
      fun d hd hnone => href d (h₁.db.pending hd hnone) hnone
    rw [meets_ite, meets_ite]
    refine ⟨fun _ => ih href₁, fun _ => ⟨fun _ => ih href₁, fun hout => ?_⟩⟩
    exact Meets.step ⟨fun d hd hnone hname => hout (href₁ d hd hnone name hname), rfl⟩ (ih href₁)

theorem reconcileContent_meets {order : List ObjectName} {between : List (List Transaction)} :
    Meets (store.reconcileContent sha256 order between) s (PermittedOutside store sha256)
      (OnSuccess fun _ _ => True) := by
  unfold reconcileContent
  refine Meets.read (Meets.step ⟨trivial, rfl⟩ ?_)
  refine Meets.bind pause_meets fun _ s₁ _ => Meets.read (Meets.check fun referenced href => ?_)
  exact removeUnreferenced_meets fun d hd hnone name hname => referencedObjects_ok href hd hnone hname

/-- Every operation under the content lock keeps to the conditions. -/
theorem performSection_meets {between : List (List Transaction)} {request : ContentSection} :
    Meets (store.performSection sha256 between request) s (PermittedOutside store sha256)
      (OnSuccess fun _ _ => True) := by
  cases request with
  | enqueue device input again originalName id createdAt now =>
    exact Meets.bind (enqueueDirectoryWithId_meets (by simp)) fun _ _ _ => by simp
  | garbageCollect digest => exact Meets.bind garbageCollectDigest_meets fun _ _ _ => by simp
  | reconcile order => exact Meets.bind reconcileContent_meets fun _ _ _ => by simp

theorem interfereOnce_meets {i : Interference} :
    Meets (store.interfereOnce sha256 i) s (PermittedOutside store sha256)
      (OnSuccess fun _ _ => True) := by
  cases i with
  | transaction t =>
    rw [interfereOnce, meets_await]
    cases ht : t.lockFree with
    | false => simp [ht]
    | true => simpa [ht] using ⟨ht, rfl⟩
  | content request between cut =>
    exact (performSection_meets.upTo cut).mono (fun _ _ h => h) fun _ _ _ => by simp [OnSuccess]

/-- The others leave what the upload lock protects. -/
theorem interfere_meets {l : List Interference} :
    Meets (store.interfere sha256 l) s (PermittedOutside store sha256)
      (OnSuccess fun _ t => SameUploads s t) := by
  have hall : Meets (store.interfere sha256 l) s (PermittedOutside store sha256)
      (OnSuccess fun _ _ => True) := by
    induction l generalizing s with
    | nil => simp [interfere]
    | cons i l ih => exact Meets.bind interfereOnce_meets fun _ _ _ => ih
  refine (hall.rel SameUploads.refl (fun _ _ _ => SameUploads.trans) fun s e h =>
    sameUploads_outside store sha256 s h).mono (fun _ _ h => h) fun r t h => ?_
  exact fun _ _ => h.2

end ServerStore

end MiRelay
