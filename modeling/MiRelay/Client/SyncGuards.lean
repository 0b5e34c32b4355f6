import MiRelay.Client.Receipts

/-!
# The procedures of a synchronization meet the guards

One lemma for each procedure says which steps it takes and how it leaves the
states. A save that fails leaves the state file as it was or replaced.
-/

namespace MiRelay

open Proc SyncProc

/-- The condition on the steps between the loading of the state and the queue. -/
def Session.Early (distinct : Prop) (s : Session) (e : SyncStep) : Prop :=
  s.core.Permitted distinct e ∧ s.core.Quiet e

/-- The condition on the steps after the state was loaded. -/
def Session.Allowed (distinct : Prop) (config : SyncConfig) (mode : WallpaperRunMode) (s : Session)
    (e : SyncStep) : Prop :=
  s.core.Permitted distinct e ∧ e.Of config mode

section Rules

variable {α β : Type} {s : Session} {G : Session → SyncStep → Prop}

/-- Using up an answer leaves the states. -/
theorem Proc.Meets.ask {f : Answer → SyncProc β} {Q : Except Error β → Session → Prop}
    (hG : G s .answered) (hf : ∀ a t, t.core = s.core → Meets (f a) t G Q) :
    Meets (SyncProc.ask >>= f) s G Q := by
  have hask : Meets SyncProc.ask s G fun r t => t.core = s.core ∧ ∃ a, r = .ok a := by
    refine Meets.read ?_
    refine Meets.step hG ?_
    rw [meets_pure]
    exact ⟨rfl, _, rfl⟩
  refine hask.seq (fun a t h => hf a t h.1) fun e t h => ?_
  obtain ⟨a, ha⟩ := h.2
  contradiction

/-- The answer that is used up is the next one. -/
theorem Proc.Meets.askNext {f : Answer → SyncProc β} {Q : Except Error β → Session → Prop}
    (hG : G s .answered) (hf : ∀ t, t.core = s.core → Meets (f (s.answers 0)) t G Q) :
    Meets (SyncProc.ask >>= f) s G Q := by
  have hask : Meets SyncProc.ask s G fun r t => t.core = s.core ∧ r = .ok (s.answers 0) := by
    refine Meets.read ?_
    refine Meets.step hG ?_
    rw [meets_pure]
    exact ⟨rfl, rfl⟩
  refine hask.seq (fun a t h => ?_) fun e t h => by cases h.2
  cases Except.ok.inj h.2
  exact hf t h.1

/-- A loop keeps what every round keeps. -/
theorem Proc.Meets.forM {l : List α} {f : α → SyncProc Unit} {I : List α → Session → Prop}
    {Q : Except Error Unit → Session → Prop} (hs : I l s)
    (hround : ∀ a rest t, a :: rest <:+ l → I (a :: rest) t →
      Meets (f a) t G fun r u => (r = .ok () → I rest u) ∧ (∀ e, r = .error e → Q (.error e) u))
    (hend : ∀ t, I [] t → Q (.ok ()) t) : Meets (l.forM f) s G Q := by
  induction l generalizing s with
  | nil =>
    change Meets (pure ()) s G Q
    rw [meets_pure]
    exact hend s hs
  | cons a l ih =>
    change Meets (f a >>= fun _ => l.forM f) s G Q
    refine (hround a l s (List.suffix_refl _) hs).seq (fun u t ht => ?_) fun e t ht => ht.2 e rfl
    exact ih (ht.1 rfl) fun b rest v hsuffix => hround b rest v (hsuffix.trans (List.suffix_cons a l))

end Rules

/-- A state that was to be saved: it was, or an error is returned. -/
def Saved (c : RunState) (r : Except Error Unit) (c' : RunState) : Prop :=
  c' = c.apply .persist ∨ (c' = c ∧ ∃ e, r = .error e)

section Basics

variable {s : Session} {G : Session → SyncStep → Prop}

theorem save_meets (hanswer : ∀ t : Session, G t .answered)
    (hpersist : ∀ t : Session, t.core = s.core → G t .persist) :
    Meets save s G fun r t => Saved s.core r t.core := by
  unfold save
  refine Meets.ask (hanswer s) fun a t ht => ?_
  cases a.saved with
  | saved =>
    rw [meets_emit]
    exact ⟨hpersist t ht, .inl (by rw [← ht]; rfl)⟩
  | failed e =>
    rw [meets_fail]
    exact .inr ⟨ht, e, rfl⟩
  | unsynced e =>
    refine Meets.step (hpersist t ht) ?_
    rw [meets_fail]
    exact .inl (by rw [← ht]; rfl)

theorem record_meets {id : String} :
    Meets (record id) s G fun x t => t = s ∧
      ((∃ r, s.core.memory.lookup id = some r ∧ x = .ok r) ∨ ∃ e, x = .error e) := by
  unfold record
  refine Meets.read ?_
  cases hr : s.core.memory.lookup id with
  | some r =>
    rw [meets_pure]
    exact ⟨rfl, .inl ⟨r, rfl, rfl⟩⟩
  | none =>
    rw [meets_fail]
    exact ⟨rfl, .inr ⟨_, rfl⟩⟩

/-- A record was to be changed in memory and the state to be saved. -/
def Changed (id : String) (c : RunState) (x : Except Error Unit) (c' : RunState) : Prop :=
  (c' = c ∧ ∃ e, x = .error e) ∨
    ∃ r, Saved (c.apply (.update id r)) x c'

theorem change_meets {id : String} {f : DeliveryRecord → DeliveryRecord}
    (hanswer : ∀ t : Session, G t .answered)
    (hupdate : ∀ r, s.core.memory.lookup id = some r → G s (.update id (f r)))
    (hpersist : ∀ r, s.core.memory.lookup id = some r →
      ∀ t : Session, t.core = s.core.apply (.update id (f r)) → G t .persist) :
    Meets (change id f) s G fun x t => (t.core = s.core ∧ ∃ e, x = .error e) ∨
      ∃ r, s.core.memory.lookup id = some r ∧
        Saved (s.core.apply (.update id (f r))) x t.core := by
  unfold change
  refine record_meets.seq (fun r t ht => ?_) fun e t ht => .inl ⟨by rw [ht.1], e, rfl⟩
  obtain ⟨rfl, ⟨r', hr, hsame⟩ | ⟨e, hfalse⟩⟩ := ht
  · cases Except.ok.inj hsame
    refine Meets.step (hupdate r hr) ?_
    refine (save_meets hanswer fun u hu => hpersist r hr u hu).mono (fun _ _ h => h) ?_
    exact fun x u hu => .inr ⟨r, hr, hu⟩
  · contradiction

theorem acknowledge_meets {id sha256 : String} (hanswer : ∀ t : Session, G t .answered)
    (hack : G s (.acknowledge id sha256)) :
    Meets (acknowledge id sha256) s G fun _ t => t.core = s.core := by
  unfold acknowledge
  refine Meets.step hack ?_
  refine Meets.ask (hanswer _) fun a t ht => ?_
  rw [meets_ofExcept]
  exact ht

end Basics

section Files

variable {sha256 : Bytes → String} {config : SyncConfig} {s : Session}
  {G : Session → SyncStep → Prop}

/-- A record whose file was found good describes a file the run has read. -/
theorem verifyRecord_meets {r : DeliveryRecord} (hanswer : ∀ t : Session, G t .answered)
    (hread : ∀ t found, G t (.verified r.storedPath found)) :
    Meets (verifyRecord sha256 config r) s G fun x t =>
      (t.core = s.core ∧ ∃ e, x = .error e) ∨
        (∃ found, t.core = s.core.apply (.verified r.storedPath found)) ∧
          r.Describes t.core.checked := by
  unfold verifyRecord
  refine Meets.ask (hanswer s) fun a t ht => ?_
  refine Meets.decide (fun bytes _ => ?_) fun e _ => .inl ⟨ht, e, rfl⟩
  refine Meets.decide (fun _ hok => ?_) fun e _ => .inl ⟨ht, e, rfl⟩
  obtain ⟨-, -, hsize, hsha, hmedia⟩ := (verifyRecordedFile_ok sha256).mp hok
  rw [meets_emit]
  refine ⟨hread t _, .inr ⟨⟨inspection sha256 bytes, by rw [← ht]; rfl⟩, inspection sha256 bytes, ?_⟩⟩
  exact ⟨List.mem_cons_self .., hsize, hsha, hmedia⟩

/-- What a received file is. -/
structure StoredAsset.Fits (stored : StoredAsset) (delivery : Delivery) : Prop where
  sha256 : stored.sha256 = delivery.sha256
  size : stored.size = delivery.size
  mediaType : stored.mediaType = delivery.mediaType

/-- A received file was read and is what the delivery says. -/
def Received (delivery : Delivery) (c : RunState) (x : Except Error StoredAsset) (c' : RunState) :
    Prop :=
  (c' = c ∧ ∃ e, x = .error e) ∨ ∃ stored found, x = .ok stored ∧ stored.Fits delivery ∧
    c' = c.apply (.received stored.path found) ∧ found.size = stored.size ∧
      found.sha256 = stored.sha256 ∧ found.mediaType = stored.mediaType

theorem copyAndInspect_size {m n : Nat} {bytes : Bytes} {found : FileInspection}
    (h : copyAndInspect sha256 m (some n) bytes = .ok found) : found.size = n := by
  simp only [copyAndInspect, bind_eq_ok, ensure_eq_ok, beq_iff_eq, pure_eq_ok] at h
  obtain ⟨_, -, _, ⟨_, -, hsize⟩, _, -, rfl⟩ := h
  exact hsize

theorem place_meets {answer : PlaceAnswer} {found : FileInspection}
    (hstore : ∀ t path found, G t (.received path found)) :
    Meets (place sha256 config answer found) s G fun x t => (t.core = s.core ∧ ∃ e, x = .error e) ∨
      (x = .ok () ∧ t.core = s.core.apply (.received (contentPath config found) found)) := by
  unfold place
  cases answer with
  | created =>
    rw [meets_emit]
    exact ⟨hstore s _ _, .inr ⟨rfl, rfl⟩⟩
  | present content =>
    refine Meets.decide (fun existing _ => ?_) fun e _ => .inl ⟨rfl, e, rfl⟩
    refine Meets.decide (fun _ _ => ?_) fun e _ => .inl ⟨rfl, e, rfl⟩
    rw [meets_emit]
    exact ⟨hstore s _ _, .inr ⟨rfl, rfl⟩⟩
  | failed e =>
    rw [meets_fail]
    exact .inl ⟨rfl, e, rfl⟩

theorem receive_meets {delivery : Delivery} (hanswer : ∀ t : Session, G t .answered)
    (hstore : ∀ t path found, G t (.received path found)) :
    Meets (receive sha256 config delivery) s G fun x t => Received delivery s.core x t.core := by
  unfold receive
  refine Meets.ask (hanswer s) fun a t ht => ?_
  refine Meets.decide (fun _ hvalid => ?_) fun e _ => .inl ⟨ht, e, rfl⟩
  refine Meets.decide (fun bytes _ => ?_) fun e _ => .inl ⟨ht, e, rfl⟩
  refine Meets.decide (fun found hfound => ?_) fun e _ => .inl ⟨ht, e, rfl⟩
  refine Meets.decide (fun _ hdigest => ?_) fun e _ => .inl ⟨ht, e, rfl⟩
  refine Meets.decide (fun _ hmedia => ?_) fun e _ => .inl ⟨ht, e, rfl⟩
  refine (place_meets hstore).seq (fun _ u hu => ?_) fun e u hu => ?_
  · rw [meets_pure]
    rcases hu with ⟨-, e, hfalse⟩ | ⟨-, hu⟩
    · contradiction
    rw [ensure_eq_ok, beq_iff_eq] at hdigest hmedia
    simp only [validateDeliveryMetadata, bind_eq_ok] at hvalid
    obtain ⟨_, -, _, -, _, -, _, -, _, -, _, -, _, hsha, -⟩ := hvalid
    rw [toAsciiLowercase_of_validateSha256 hsha] at hdigest
    refine .inr ⟨_, found, rfl, ⟨hdigest, copyAndInspect_size hfound, hmedia⟩, ?_, rfl, rfl, rfl⟩
    rw [hu, ht]
  · rcases hu with ⟨hu, -⟩ | ⟨hfalse, -⟩
    · exact .inl ⟨hu.trans ht, e, rfl⟩
    · contradiction

theorem receiveDeliveryWithRetry_meets {delivery : Delivery}
    (hanswer : ∀ t : Session, G t .answered) (hstore : ∀ t path found, G t (.received path found))
    (left : Nat) :
    Meets (receiveDeliveryWithRetry sha256 config delivery left) s G fun x t =>
      Received delivery s.core x t.core := by
  induction left generalizing s with
  | zero => exact receive_meets hanswer hstore
  | succ left ih =>
    rw [receiveDeliveryWithRetry]
    refine (receive_meets hanswer hstore).tried fun r t ht => ?_
    cases r with
    | ok stored =>
      dsimp only
      rw [meets_pure]
      exact ht
    | error e =>
      rcases ht with ⟨ht, -⟩ | ⟨stored, found, hfalse, -⟩
      · refine Meets.ask (hanswer t) fun a u hu => ?_
        have hcore : u.core = s.core := hu.trans ht
        rw [meets_ite]
        refine ⟨fun _ => ?_, fun _ => ?_⟩
        · rw [← hcore]
          exact ih
        · rw [meets_fail]
          exact .inl ⟨hcore, e, rfl⟩
      · contradiction

end Files

section Early

variable {sha256 : Bytes → String} {config : SyncConfig} {s : Session} {done : List String}
  {distinct : Prop}

/-- The states agree on all deliveries that were not processed yet. -/
def Agree (done : List String) (c : RunState) : Prop :=
  ∀ j, j ∉ done → c.memory.lookup j = c.disk.lookup j

/-- What holds before the queue. -/
structure Ready (distinct : Prop) (done : List String) (c : RunState) : Prop where
  sound : c.Sound
  settled : c.Settled
  agree : distinct → Agree done c

theorem early_answered (t : Session) : t.Early distinct .answered := ⟨trivial, trivial⟩

theorem early_verified (t : Session) (path : String) (found : FileInspection) :
    t.Early distinct (.verified path found) := ⟨trivial, trivial⟩

theorem early_received (t : Session) (path : String) (found : FileInspection) :
    t.Early distinct (.received path found) := ⟨trivial, trivial⟩

theorem Ready.read (h : Ready distinct done s.core) {path : String} {found : FileInspection} :
    Ready distinct done (s.core.apply (.verified path found)) :=
  ⟨h.sound.apply (d := distinct) (e := .verified path found) trivial,
    h.settled.apply (e := .verified path found) trivial, h.agree⟩

theorem Ready.receive (h : Ready distinct done s.core) {path : String} {found : FileInspection} :
    Ready distinct done (s.core.apply (.received path found)) :=
  ⟨h.sound.apply (d := distinct) (e := .received path found) trivial,
    h.settled.apply (e := .received path found) trivial, h.agree⟩

theorem Ready.weaken (h : Ready distinct done s.core) (id : String) : Ready distinct (id :: done) s.core :=
  ⟨h.sound, h.settled, fun hd j hj => h.agree hd j fun hmem => hj (List.mem_cons_of_mem _ hmem)⟩

/-- A record may be changed early. -/
structure EarlyChange (c : RunState) (id : String) (r : DeliveryRecord) : Prop where
  permitted : c.Permitted False (.update id r)
  quiet : c.Quiet (.update id r)

/-- After a change the states agree except on the changed record, and fully when it succeeded. -/
theorem Ready.saved (h : Ready distinct done s.core) {id : String} {r : DeliveryRecord}
    (hr : EarlyChange s.core id r) {x : Except Error Unit} {c : RunState}
    (hsaved : Saved (s.core.apply (.update id r)) x c) :
    Ready distinct (id :: done) c ∧ (x = .ok () → Agree [] c) := by
  have hsound := h.sound.apply hr.permitted
  have hsettled := h.settled.apply hr.quiet
  rcases hsaved with rfl | ⟨rfl, e, rfl⟩
  · exact ⟨⟨hsound.apply (d := False) (e := .persist) hsound.covers,
      hsettled.apply (e := .persist) trivial, fun _ _ _ => rfl⟩, fun _ _ _ => rfl⟩
  · refine ⟨⟨hsound, hsettled, fun hd j hj => ?_⟩, fun hfalse => by contradiction⟩
    rw [List.mem_cons, not_or] at hj
    show (s.core.memory.insert id r).lookup j = s.core.disk.lookup j
    rw [Files.lookup_insert, if_neg hj.1]
    exact h.agree hd j hj.2

/-- A change of a record that keeps what the file is and the wallpaper status. -/
theorem earlyChange_of_lookup (h : s.core.Sound) {id : String} {r r' : DeliveryRecord}
    (hr : s.core.memory.lookup id = some r) (hid : r'.id = r.id) (hextends : r.Extends r')
    (hstatus : r'.wallpaperStatus = r.wallpaperStatus) : EarlyChange s.core id r' := by
  refine ⟨⟨hid.trans (h.ids id r hr), fun r'' hr'' => ?_, fun hspent => ?_⟩, ?_⟩
  · rw [hr] at hr''
    cases Option.some.inj hr''
    exact hextends
  · obtain ⟨r'', hr'', hclosed⟩ := h.memory id hspent
    rw [hr] at hr''
    cases Option.some.inj hr''
    rw [hstatus]
    exact hclosed
  · show RunState.Quiet _ _
    rw [RunState.Quiet, hr]
    exact .inl hstatus

/-- What a procedure leaves that works on one record. -/
def Worked (distinct : Prop) (id : String) (done : List String) (x : Except Error Unit) (c : RunState) : Prop :=
  Ready distinct (id :: done) c ∧ (x = .ok () → Agree [] c)

/-- A change of a record that keeps what the file is and the wallpaper status. -/
theorem changeEarly_meets (h : Ready distinct done s.core) {id : String}
    {f : DeliveryRecord → DeliveryRecord}
    (hf : ∀ r, s.core.memory.lookup id = some r → (f r).id = r.id ∧ r.Extends (f r) ∧
      (f r).wallpaperStatus = r.wallpaperStatus) :
    Meets (change id f) s (Session.Early distinct) fun x t => Worked distinct id done x t.core ∧
      (x = .ok () → ∃ r, s.core.memory.lookup id = some r ∧
        t.core = (s.core.apply (.update id (f r))).apply .persist) := by
  have hchange : ∀ r, s.core.memory.lookup id = some r → EarlyChange s.core id (f r) :=
    fun r hr => earlyChange_of_lookup h.sound hr (hf r hr).1 (hf r hr).2.1 (hf r hr).2.2
  have hpersist : ∀ r, s.core.memory.lookup id = some r → ∀ t : Session,
      t.core = s.core.apply (.update id (f r)) → t.Early distinct .persist := fun r hr t ht => by
    refine ⟨?_, trivial⟩
    show Records.Covers t.core.disk t.core.memory
    rw [ht]
    exact (h.sound.apply (hchange r hr).permitted).covers
  have hupdate : ∀ r, s.core.memory.lookup id = some r → s.Early distinct (.update id (f r)) :=
    fun r hr => ⟨(hchange r hr).permitted, (hchange r hr).quiet⟩
  refine (change_meets early_answered hupdate hpersist).mono (fun _ _ hG => hG) fun x t ht => ?_
  rcases ht with ⟨hsame, e, rfl⟩ | ⟨r, hr, hsaved⟩
  · rw [hsame]
    exact ⟨⟨h.weaken id, fun hfalse => by contradiction⟩, fun hfalse => by contradiction⟩
  · refine ⟨h.saved (hchange r hr) hsaved, fun hok => ⟨r, hr, ?_⟩⟩
    rcases hsaved with hsaved | ⟨-, e, rfl⟩
    · exact hsaved
    · contradiction

theorem recordAcknowledged_meets (h : Ready distinct done s.core) (id : String) (now : Option Nat) :
    Meets (recordAcknowledged id now) s (Session.Early distinct) fun x t => Worked distinct id done x t.core := by
  unfold recordAcknowledged
  refine (changeEarly_meets h ?_).mono (fun _ _ hG => hG) fun _ _ ht => ht.1
  exact fun _ _ => ⟨rfl, ⟨rfl, rfl, rfl, fun _ => rfl⟩, rfl⟩

theorem recordDeliveryError_meets (h : Ready distinct done s.core) (id : String) (e : Error) :
    Meets (recordDeliveryError id e) s (Session.Early distinct) fun x t => Worked distinct id done x t.core := by
  unfold recordDeliveryError
  refine (changeEarly_meets h ?_).mono (fun _ _ hG => hG) fun _ _ ht => ht.1
  exact fun _ _ => ⟨rfl, ⟨rfl, rfl, rfl, fun ha => ha⟩, rfl⟩

/-- An acknowledgement for a persisted record whose file was read is confirmed. -/
theorem confirm_meets (h : Ready distinct done s.core) {id deliveryId digest : String}
    (hack : s.core.Permitted distinct (.acknowledge deliveryId digest)) :
    Meets (confirm id deliveryId digest) s (Session.Early distinct) fun x t => Worked distinct id done x t.core := by
  unfold confirm
  refine (acknowledge_meets early_answered ⟨hack, trivial⟩).tried fun r t ht => ?_
  rw [← ht] at h
  cases r with
  | ok =>
    refine Meets.ask (early_answered t) fun a u hu => ?_
    rw [← hu] at h
    exact recordAcknowledged_meets h _ _
  | error e => exact recordDeliveryError_meets h _ _

/-- The file of a record was made sure of: the record is persisted and the file was read. -/
def Secured (distinct : Prop) (id : String) (c : RunState) : Prop :=
  ∃ r, c.memory.lookup id = some r ∧ r.Describes c.checked ∧
    (distinct → c.disk.lookup id = some r)

/-- After the file was made sure of, the persisted record describes a file of this run. -/
theorem ensureStored_meets (h : Ready distinct done s.core) {delivery : Delivery} (hnew : distinct → delivery.id ∉ done)
    {existing : DeliveryRecord} (hexisting : s.core.memory.lookup delivery.id = some existing)
    (hmatch : existing.sha256 = delivery.sha256 ∧ existing.size = delivery.size ∧
      existing.mediaType = delivery.mediaType) :
    Meets (ensureStored sha256 config delivery existing) s (Session.Early distinct) fun x t =>
      Ready distinct (delivery.id :: done) t.core ∧
        (x = .ok () → (distinct → Agree done t.core) ∧ Secured distinct delivery.id t.core) := by
  have hdisk : distinct → s.core.disk.lookup delivery.id = some existing := fun hd => by
    rw [← h.agree hd _ (hnew hd), hexisting]
  unfold ensureStored
  refine (verifyRecord_meets early_answered fun t => early_verified t _).tried fun r t ht => ?_
  cases r with
  | ok =>
    rcases ht with ⟨-, e, hfalse⟩ | ⟨⟨found, ht⟩, hdescribes⟩
    · contradiction
    · dsimp only
      rw [meets_pure]
      rw [ht] at hdescribes ⊢
      exact ⟨(h.read).weaken (s := { s with core := _ }) _, fun _ =>
        ⟨h.agree, existing, hexisting, hdescribes, hdisk⟩⟩
  | error e =>
    have ht : Ready distinct done t.core ∧ t.core.memory = s.core.memory := by
      rcases ht with ⟨ht, -⟩ | ⟨⟨found, ht⟩, -⟩
      · rw [ht]
        exact ⟨h, rfl⟩
      · rw [ht]
        exact ⟨h.read, rfl⟩
    obtain ⟨hready, hmemory⟩ := ht
    refine Meets.ask (early_answered t) fun a u hu => ?_
    rw [← hu] at hready hmemory
    refine Meets.decide (fun _ _ => ?_) fun e _ => ⟨hready.weaken _, fun hfalse => by contradiction⟩
    refine (receiveDeliveryWithRetry_meets early_answered early_received _).tried fun r v hv => ?_
    cases r with
    | error e =>
      rcases hv with ⟨hv, -⟩ | ⟨stored, found, hfalse, -⟩
      · rw [← hv] at hready
        refine (recordDeliveryError_meets hready delivery.id e).seq (fun _ w hw => ?_)
          fun e w hw => ⟨hw.1, fun hfalse => by contradiction⟩
        rw [meets_fail]
        exact ⟨hw.1, fun hfalse => by contradiction⟩
      · contradiction
    | ok stored =>
      rcases hv with ⟨-, e, hfalse⟩ | ⟨stored', found, hsame, hfits, hv, hsize, hsha, hmedia⟩
      · contradiction
      cases Except.ok.inj hsame
      have hready : Ready distinct done v.core := by
        rw [hv]
        exact hready.receive
      have hexisting : v.core.memory.lookup delivery.id = some existing := by
        rw [hv]
        exact (congrArg (AList.lookup delivery.id) hmemory).trans hexisting
      have hseen : (stored.path, found) ∈ v.core.checked := by
        rw [hv]
        exact List.mem_cons_self ..
      refine Meets.ask (early_answered v) fun a w hw => ?_
      rw [← hw] at hready hexisting hseen
      refine Meets.decide (fun _ _ => ?_) fun e _ => ⟨hready.weaken _, fun hfalse => by contradiction⟩
      refine (changeEarly_meets hready fun r hr => ?_).mono (fun _ _ hG => hG) fun x z hz =>
        ⟨hz.1.1, fun hok => ⟨fun _ j _ => hz.1.2 hok j List.not_mem_nil, ?_⟩⟩
      · rw [hexisting] at hr
        cases Option.some.inj hr
        exact ⟨rfl, ⟨hfits.sha256.trans hmatch.1.symm, hfits.size.trans hmatch.2.1.symm,
          hfits.mediaType.trans hmatch.2.2.symm, fun ha => ha⟩, rfl⟩
      · obtain ⟨r, hr, hcore⟩ := hz.2 hok
        have hlookup : z.core.memory.lookup delivery.id = some { r with
            storedPath := stored.path, size := stored.size, sha256 := stored.sha256
            mediaType := stored.mediaType, deliveryError := none } := by
          rw [hcore]
          exact AList.lookup_insert _
        refine ⟨_, hlookup, ⟨found, ?_, hsize, hsha, hmedia⟩, fun _ => ?_⟩
        · rw [hcore]
          exact hseen
        · rw [← hz.1.2 hok _ List.not_mem_nil]
          exact hlookup

/-- A persisted record whose file was read may be acknowledged. -/
theorem Secured.acknowledge {c : RunState} {id : String} (h : Secured distinct id c)
    (hsound : c.Sound) {r : DeliveryRecord} (hr : c.memory.lookup id = some r) :
    c.Permitted distinct (.acknowledge r.id r.sha256) := by
  obtain ⟨r', hr', hdescribes, hdisk⟩ := h
  rw [hr] at hr'
  cases Option.some.inj hr'
  rw [hsound.ids id r hr]
  exact fun hd => ⟨r, hdisk hd, rfl, hdescribes⟩

theorem processExisting_meets (h : Ready distinct done s.core) {delivery : Delivery}
    (hnew : distinct → delivery.id ∉ done) {existing : DeliveryRecord}
    (hexisting : s.core.memory.lookup delivery.id = some existing) :
    Meets (processExisting sha256 config delivery existing) s (Session.Early distinct) fun _ t =>
      Ready distinct (delivery.id :: done) t.core := by
  unfold processExisting
  refine Meets.decide (fun _ hmatch => ?_) fun e _ => h.weaken _
  rw [ensure_eq_ok, Bool.and_eq_true, Bool.and_eq_true, beq_iff_eq, beq_iff_eq, beq_iff_eq] at hmatch
  refine (ensureStored_meets h hnew hexisting ⟨hmatch.1.1, hmatch.1.2, hmatch.2⟩).seq
    (fun _ t ht => ?_) fun e t ht => ht.1
  have hsecured := (ht.2 rfl).2
  have hready : Ready distinct done t.core := ⟨ht.1.sound, ht.1.settled, (ht.2 rfl).1⟩
  refine record_meets.seq (fun r u hu => ?_) fun e u hu => by
    rw [hu.1]
    exact ht.1
  obtain ⟨rfl, ⟨r', hr, hsame⟩ | ⟨e, hfalse⟩⟩ := hu
  · cases Except.ok.inj hsame
    refine (acknowledge_meets early_answered
      ⟨hsecured.acknowledge hready.sound hr, trivial⟩).tried fun x v hv => ?_
    rw [← hv] at hready
    cases x with
    | error e =>
      refine (recordDeliveryError_meets hready delivery.id e).seq (fun _ w hw => ?_)
        fun e w hw => hw.1
      rw [meets_fail]
      exact hw.1
    | ok =>
      dsimp only
      rw [meets_ite, meets_ite]
      refine ⟨fun _ => ?_, fun _ => ⟨fun _ => ?_, fun _ => ?_⟩⟩
      · refine Meets.ask (early_answered v) fun a w hw => ?_
        rw [← hw] at hready
        exact (recordAcknowledged_meets hready _ _).mono (fun _ _ hG => hG) fun _ _ hz => hz.1
      · exact (recordAcknowledged_meets hready _ _).mono (fun _ _ hG => hG) fun _ _ hz => hz.1
      · rw [meets_pure]
        exact hready.weaken _
  · contradiction

theorem processNew_meets (h : Ready distinct done s.core) {delivery : Delivery}
    (hnone : s.core.memory.lookup delivery.id = none) :
    Meets (processNew sha256 config delivery) s (Session.Early distinct) fun _ t =>
      Ready distinct (delivery.id :: done) t.core := by
  unfold processNew
  refine (receiveDeliveryWithRetry_meets early_answered early_received _).seq (fun stored t ht => ?_)
    fun e t ht => ?_
  · rcases ht with ⟨-, e, hfalse⟩ | ⟨stored', found, hsame, hfits, ht, hsize, hsha, hmedia⟩
    · contradiction
    cases Except.ok.inj hsame
    have hready : Ready distinct done t.core := by
      rw [ht]
      exact h.receive
    have hnone : t.core.memory.lookup delivery.id = none := by
      rw [ht]
      exact hnone
    have hseen : (stored.path, found) ∈ t.core.checked := by
      rw [ht]
      exact List.mem_cons_self ..
    refine Meets.ask (early_answered t) fun a u hu => ?_
    rw [← hu] at hready hnone hseen
    have hchange : EarlyChange u.core delivery.id (newRecord delivery stored a.now) := by
      refine ⟨⟨rfl, fun r hr => ?_, fun hspent => ?_⟩, ?_⟩
      · rw [hnone] at hr
        contradiction
      · obtain ⟨r, hr, -⟩ := hready.sound.memory delivery.id hspent
        rw [hnone] at hr
        contradiction
      · show RunState.Quiet _ _
        rw [RunState.Quiet, hnone]
        by_cases himage : isImageMediaType stored.mediaType = true
        · exact .inl (by rw [newRecord, if_pos himage])
        · exact .inr (by rw [newRecord, if_neg himage])
    refine Meets.step ⟨hchange.permitted, hchange.quiet⟩ ?_
    have hcovers := (hready.sound.apply hchange.permitted).covers
    refine (save_meets early_answered fun v hv => ⟨by
      show Records.Covers v.core.disk v.core.memory
      rw [hv]
      exact hcovers, trivial⟩).seq (fun _ v hv => ?_) fun e v hv => (hready.saved hchange hv).1
    have hsaved := hready.saved hchange hv
    have hcore : v.core = (u.core.apply (.update delivery.id
        (newRecord delivery stored a.now))).apply .persist := by
      rcases hv with hv | ⟨-, e, hfalse⟩
      · exact hv
      · contradiction
    have hlookup : v.core.disk.lookup delivery.id = some (newRecord delivery stored a.now) := by
      rw [hcore]
      exact AList.lookup_insert _
    have hack : v.core.Permitted distinct (.acknowledge delivery.id delivery.sha256) := by
      refine fun _ => ⟨_, hlookup, hfits.sha256, found, ?_, hsize, hsha, hmedia⟩
      rw [hcore]
      exact hseen
    have hagree : Ready distinct done v.core :=
      ⟨hsaved.1.sound, hsaved.1.settled, fun _ j _ => hsaved.2 rfl j List.not_mem_nil⟩
    exact (confirm_meets hagree hack).mono (fun _ _ hG => hG) fun _ _ hw => hw.1
  · rcases ht with ⟨ht, -⟩ | ⟨stored, found, hfalse, -⟩
    · rw [ht]
      exact h.weaken _
    · contradiction

/-- Processing a delivery changes its own record only. -/
theorem processDelivery_meets (h : Ready distinct done s.core) {delivery : Delivery}
    (hnew : distinct → delivery.id ∉ done) :
    Meets (processDelivery sha256 config delivery) s (Session.Early distinct) fun _ t =>
      Ready distinct (delivery.id :: done) t.core := by
  unfold processDelivery
  refine Meets.read ?_
  cases hr : s.core.memory.lookup delivery.id with
  | some existing => exact processExisting_meets h hnew hr
  | none => exact processNew_meets h hr

/-- A loop over the records of a list of identities that changes each in memory. -/
theorem updateAll_meets {l : List String} (hl : l.Nodup) {f : DeliveryRecord → DeliveryRecord}
    {P : DeliveryRecord → Prop} (hsound : s.core.Sound) (hsettled : s.core.Settled)
    (hP : ∀ id ∈ l, ∀ r, s.core.memory.lookup id = some r → P r)
    (hf : ∀ r, P r → (f r).id = r.id ∧ r.Extends (f r) ∧ (f r).wallpaperStatus.closed ∧
      RunState.Settles r.wallpaperStatus (f r).wallpaperStatus) :
    Meets (l.forM fun id => do emit (.update id (f (← record id)))) s (Session.Early distinct)
      fun x t => x = .ok () → t.core.Sound ∧ t.core.Settled ∧
        ∀ id r, t.core.memory.lookup id = some r →
          (id ∈ l ∧ ∃ r', s.core.memory.lookup id = some r' ∧ r = f r') ∨
            (id ∉ l ∧ s.core.memory.lookup id = some r) := by
  have hloop : ∀ (rest : List String) (t : Session), rest.Nodup → t.core.Sound → t.core.Settled →
      (∀ id ∈ rest, ∀ r, t.core.memory.lookup id = some r → P r) →
      Meets (rest.forM fun id => do emit (.update id (f (← record id)))) t (Session.Early distinct)
        fun x u => x = .ok () → u.core.Sound ∧ u.core.Settled ∧
          ∀ id r, u.core.memory.lookup id = some r →
            (id ∈ rest ∧ ∃ r', t.core.memory.lookup id = some r' ∧ r = f r') ∨
              (id ∉ rest ∧ t.core.memory.lookup id = some r) := by
    intro rest
    induction rest with
    | nil =>
      intro t _ hsound hsettled _
      change Meets (pure ()) t _ _
      rw [meets_pure]
      exact fun _ => ⟨hsound, hsettled, fun id r hr => .inr ⟨List.not_mem_nil, hr⟩⟩
    | cons id rest ih =>
      intro t hnodup hsound hsettled hP
      obtain ⟨hfresh, hrest⟩ := List.nodup_cons.mp hnodup
      change Meets ((do emit (.update id (f (← record id)))) >>= fun _ => rest.forM _) t _ _
      have hone : Meets (do emit (.update id (f (← record id)))) t (Session.Early distinct)
          fun x u => x = .ok () → u.core.Sound ∧ u.core.Settled ∧
            ∃ r, t.core.memory.lookup id = some r ∧ u.core.memory = t.core.memory.insert id (f r) := by
        refine record_meets.seq (fun r u hu => ?_) fun e u _ hfalse => by contradiction
        obtain ⟨rfl, ⟨r', hr, hsame⟩ | ⟨e, hfalse⟩⟩ := hu
        · cases Except.ok.inj hsame
          obtain ⟨hid, hextends, hclosed, hsettles⟩ := hf r (hP id (by simp) r hr)
          have hpermitted : u.core.Permitted distinct (.update id (f r)) := by
            refine ⟨hid.trans (hsound.ids id r hr), fun r' hr' => ?_, fun _ => hclosed⟩
            rw [hr] at hr'
            cases Option.some.inj hr'
            exact hextends
          have hquiet : u.core.Quiet (.update id (f r)) := by
            rw [RunState.Quiet, hr]
            exact hsettles
          rw [meets_emit]
          exact ⟨⟨hpermitted, hquiet⟩, fun _ => ⟨hsound.apply hpermitted, hsettled.apply hquiet, r,
            hr, rfl⟩⟩
        · contradiction
      refine hone.seq (fun _ u hu => ?_) fun e u _ hfalse => by contradiction
      obtain ⟨hsound', hsettled', r₀, hr₀, hmemory⟩ := hu rfl
      have hother : ∀ j, j ≠ id → u.core.memory.lookup j = t.core.memory.lookup j := fun j hj => by
        rw [hmemory, Files.lookup_insert, if_neg hj]
      have hsame : u.core.memory.lookup id = some (f r₀) := by
        rw [hmemory, Files.lookup_insert, if_pos rfl]
      refine (ih u hrest hsound' hsettled' fun j hj r hr => ?_).mono (fun _ _ hG => hG)
        fun x v hv hok => ?_
      · have hne : j ≠ id := fun heq => hfresh (heq ▸ hj)
        rw [hother j hne] at hr
        exact hP j (List.mem_cons_of_mem _ hj) r hr
      · obtain ⟨hsound'', hsettled'', hall⟩ := hv hok
        refine ⟨hsound'', hsettled'', fun j r hr => ?_⟩
        rcases hall j r hr with ⟨hj, r', hr', heq⟩ | ⟨hj, hr'⟩
        · have hne : j ≠ id := fun heq => hfresh (heq ▸ hj)
          rw [hother j hne] at hr'
          exact .inl ⟨List.mem_cons_of_mem _ hj, r', hr', heq⟩
        · by_cases hne : j = id
          · subst hne
            rw [hsame] at hr'
            exact .inl ⟨List.mem_cons_self .., r₀, hr₀, (Option.some.inj hr').symm⟩
          · rw [hother j hne] at hr'
            exact .inr ⟨by simp [hne, hj], hr'⟩
  exact hloop l s hl hsound hsettled hP

/-- Saving the state early. -/
theorem saveEarly_meets (hsound : s.core.Sound) (hsettled : s.core.Settled) :
    Meets save s (Session.Early distinct) fun x t => x = .ok () →
      t.core = s.core.apply .persist ∧ Ready distinct [] t.core := by
  have hpersist : ∀ t : Session, t.core = s.core → t.Early distinct .persist := fun t ht => by
    refine ⟨?_, trivial⟩
    show Records.Covers t.core.disk t.core.memory
    rw [ht]
    exact hsound.covers
  refine (save_meets early_answered hpersist).mono (fun _ _ hG => hG) fun x t ht hok => ?_
  rcases ht with ht | ⟨-, e, rfl⟩
  · rw [ht]
    exact ⟨rfl, hsound.apply (d := distinct) (e := .persist) hsound.covers,
      hsettled.apply (e := .persist) trivial, fun _ _ _ => rfl⟩
  · contradiction

/-- An interrupted attempt is found uncertain. -/
def Woken (c c' : RunState) : Prop :=
  ∀ id r, c'.memory.lookup id = some r → ∃ r', c.memory.lookup id = some r' ∧
    r.wallpaperStatus = if r'.wallpaperStatus = .running then .uncertain else r'.wallpaperStatus

theorem reconcileInterruptedWallpapers_meets (h : Ready distinct [] s.core) :
    Meets reconcileInterruptedWallpapers s (Session.Early distinct) fun x t => x = .ok () →
      Ready distinct [] t.core ∧ Woken s.core t.core := by
  unfold reconcileInterruptedWallpapers
  refine Meets.read ?_
  have hmem : ∀ id, id ∈ (Records.ids s.core.memory).filter (fun id =>
      (s.core.memory.lookup id).any (·.wallpaperStatus == .running)) ↔
        ∃ r, s.core.memory.lookup id = some r ∧ r.wallpaperStatus = .running := by
    intro id
    rw [List.mem_filter, Records.mem_ids, Option.any_eq_true]
    constructor
    · rintro ⟨-, r, hr, hrunning⟩
      exact ⟨r, hr, beq_iff_eq.mp hrunning⟩
    · rintro ⟨r, hr, hrunning⟩
      exact ⟨⟨r, hr⟩, r, hr, beq_iff_eq.mpr hrunning⟩
  have hnodup := (Records.nodup_ids s.core.memory).filter fun id =>
    (s.core.memory.lookup id).any (·.wallpaperStatus == .running)
  dsimp only
  generalize (Records.ids s.core.memory).filter (fun id =>
    (s.core.memory.lookup id).any (·.wallpaperStatus == .running)) = interrupted at *
  rw [meets_ite]
  refine ⟨fun hnone => ?_, fun _ => ?_⟩
  · rw [meets_pure]
    refine fun _ => ⟨h, fun id r hr => ⟨r, hr, ?_⟩⟩
    rw [if_neg]
    intro hrunning
    have hin := (hmem id).mpr ⟨r, hr, hrunning⟩
    rw [hnone] at hin
    exact List.not_mem_nil hin
  · refine (updateAll_meets (P := fun r => r.wallpaperStatus = .running) hnodup h.sound h.settled
      (fun id hid r hr => ?_) fun r hr => ?_).seq (fun _ t ht => ?_)
      fun e t _ hfalse => by contradiction
    · obtain ⟨r', hr', hrunning⟩ := (hmem id).mp hid
      rw [hr] at hr'
      cases Option.some.inj hr'
      exact hrunning
    · exact ⟨rfl, ⟨rfl, rfl, rfl, fun ha => ha⟩, ⟨by simp, by simp⟩, .inr (.inl ⟨hr, rfl⟩)⟩
    · obtain ⟨hsound, hsettled, hall⟩ := ht rfl
      refine (saveEarly_meets hsound hsettled).mono (fun _ _ hG => hG) fun x u hu hok => ?_
      obtain ⟨hcore, hready⟩ := hu hok
      refine ⟨hready, fun id r hr => ?_⟩
      rw [hcore] at hr
      rcases hall id r hr with ⟨hin, r', hr', rfl⟩ | ⟨hout, hr'⟩
      · obtain ⟨r'', hr'', hrunning⟩ := (hmem id).mp hin
        rw [hr'] at hr''
        cases Option.some.inj hr''
        exact ⟨r', hr', by rw [if_pos hrunning]⟩
      · refine ⟨r, hr', ?_⟩
        rw [if_neg]
        exact fun hrunning => hout ((hmem id).mpr ⟨r, hr', hrunning⟩)

theorem reconcilePendingAck_meets (h : Ready distinct [] s.core) (found : List String × List String)
    (id : String) :
    Meets (reconcilePendingAck sha256 config found id) s (Session.Early distinct) fun x t =>
      (∃ a, x = .ok a) → Ready distinct [] t.core := by
  -- After a successful save the states agree again.
  have hagain : ∀ {x : Except Error Unit} {t : Session}, Worked distinct id [] x t.core →
      x = .ok () → Ready distinct [] t.core := fun hworked hok =>
    ⟨hworked.1.sound, hworked.1.settled, fun _ => hworked.2 hok⟩
  unfold reconcilePendingAck
  refine record_meets.seq (fun r u hu => ?_) fun e u _ hfalse => by
    obtain ⟨a, hfalse⟩ := hfalse
    contradiction
  obtain ⟨rfl, ⟨r', hr, hsame⟩ | ⟨e, hfalse⟩⟩ := hu
  · cases Except.ok.inj hsame
    refine (verifyRecord_meets early_answered fun t => early_verified t _).tried fun x t ht => ?_
    have hready : Ready distinct [] t.core ∧ t.core.memory = u.core.memory ∧
        t.core.disk = u.core.disk := by
      rcases ht with ⟨ht, -⟩ | ⟨⟨found, ht⟩, -⟩
      · rw [ht]
        exact ⟨h, rfl, rfl⟩
      · rw [ht]
        exact ⟨h.read, rfl, rfl⟩
    cases x with
    | ok =>
      rcases ht with ⟨-, e, hfalse⟩ | ⟨-, hdescribes⟩
      · contradiction
      have hack : t.core.Permitted distinct (.acknowledge r.id r.sha256) := by
        refine fun hd => ⟨r, ?_, rfl, hdescribes⟩
        rw [hready.2.2, h.sound.ids id r hr, ← h.agree hd id List.not_mem_nil, hr]
      refine (confirm_meets hready.1 hack).seq (fun _ v hv => ?_) fun e v _ hfalse => by
        obtain ⟨a, hfalse⟩ := hfalse
        contradiction
      rw [meets_pure]
      exact fun _ => hagain hv rfl
    | error e =>
      refine (recordDeliveryError_meets hready.1 id e).seq (fun _ v hv => ?_) fun e v _ hfalse => by
        obtain ⟨a, hfalse⟩ := hfalse
        contradiction
      rw [meets_pure]
      exact fun _ => hagain hv rfl
  · contradiction

theorem reconcilePendingAcks_meets (h : Ready distinct [] s.core) :
    Meets (reconcilePendingAcks sha256 config) s (Session.Early distinct) fun x t =>
      (∃ a, x = .ok a) → Ready distinct [] t.core := by
  unfold reconcilePendingAcks
  refine Meets.read ?_
  dsimp only
  generalize (Records.ids s.core.memory).filter _ = pending
  generalize (([], []) : List String × List String) = found
  induction pending generalizing s found with
  | nil =>
    rw [List.foldlM_nil, meets_pure]
    exact fun _ => h
  | cons id pending ih =>
    rw [List.foldlM_cons]
    refine (reconcilePendingAck_meets h found id).seq (fun a t ht => ?_) fun e t _ hfalse => by
      obtain ⟨a, hfalse⟩ := hfalse
      contradiction
    exact ih (ht ⟨a, rfl⟩) a

/-- The listed deliveries are processed one after the other. -/
theorem processAll_meets (h : Ready distinct [] s.core) {handled : List String}
    {deliveries : List Delivery} (hdistinct : distinct → (deliveries.map (·.id)).Nodup) :
    Meets (deliveries.forM fun delivery =>
        if delivery.id ∈ handled then pure ()
        else do
          let _ ← attempt (processDelivery sha256 config delivery)) s (Session.Early distinct)
      fun _ t => t.core.Sound ∧ t.core.Settled := by
  have hloop : ∀ (deliveries : List Delivery) (t : Session) (done : List String),
      (distinct → (deliveries.map (·.id)).Nodup) → (distinct → ∀ d ∈ deliveries, d.id ∉ done) →
      Ready distinct done t.core →
      Meets (deliveries.forM fun delivery =>
        if delivery.id ∈ handled then pure ()
        else do
          let _ ← attempt (processDelivery sha256 config delivery)) t (Session.Early distinct)
      fun _ u => u.core.Sound ∧ u.core.Settled := by
    intro deliveries
    induction deliveries with
    | nil =>
      intro t done _ _ hready
      change Meets (pure ()) t _ _
      rw [meets_pure]
      exact ⟨hready.sound, hready.settled⟩
    | cons delivery deliveries ih =>
      intro t done hnodup hnew hready
      change Meets ((if delivery.id ∈ handled then pure ()
        else do
          let _ ← attempt (processDelivery sha256 config delivery)) >>= fun _ =>
            deliveries.forM _) t _ _
      have hone : Meets (if delivery.id ∈ handled then pure ()
        else do
          let _ ← attempt (processDelivery sha256 config delivery)) t (Session.Early distinct)
          fun x u => Ready distinct (delivery.id :: done) u.core ∧ x = .ok () := by
        rw [meets_ite]
        refine ⟨fun _ => ?_, fun _ => ?_⟩
        · rw [meets_pure]
          exact ⟨hready.weaken _, rfl⟩
        · refine (processDelivery_meets hready fun hd => hnew hd delivery (by simp)).tried
            fun x u hu => ?_
          rw [meets_pure]
          exact ⟨hu, rfl⟩
      refine hone.seq (fun _ u hu => ?_) fun e u hu => ⟨hu.1.sound, hu.1.settled⟩
      refine ih u _ (fun hd => (List.nodup_cons.mp (hnodup hd)).2) (fun hd d hin => ?_) hu.1
      rw [List.mem_cons, not_or]
      refine ⟨fun heq => (List.nodup_cons.mp (hnodup hd)).1 ?_, hnew hd d (by simp [hin])⟩
      exact List.mem_map.mpr ⟨d, hin, heq⟩
  exact hloop deliveries s [] hdistinct (fun _ _ _ => List.not_mem_nil) h

theorem settleNonImages_meets (hsound : s.core.Sound) (hsettled : s.core.Settled) :
    Meets settleNonImages s (Session.Early distinct) fun x t => x = .ok () →
      t.core.Sound ∧ t.core.Settled := by
  unfold settleNonImages
  refine Meets.read ?_
  have hnodup := (Records.nodup_ids s.core.memory).filter fun id =>
    (s.core.memory.lookup id).any fun r =>
      !isImageMediaType r.mediaType && r.wallpaperStatus != .notApplicable
  dsimp only
  generalize (Records.ids s.core.memory).filter _ = legacy at *
  rw [meets_ite]
  refine ⟨fun _ => ?_, fun _ => ?_⟩
  · rw [meets_pure]
    exact fun _ => ⟨hsound, hsettled⟩
  · refine (updateAll_meets (P := fun _ => True) hnodup hsound hsettled (fun _ _ _ _ => trivial)
      fun r _ => ?_).seq (fun _ t ht => ?_) fun e t _ hfalse => by contradiction
    · exact ⟨rfl, ⟨rfl, rfl, rfl, fun ha => ha⟩, ⟨by simp, by simp⟩, .inr (.inr rfl)⟩
    · obtain ⟨hsound', hsettled', -⟩ := ht rfl
      refine (saveEarly_meets hsound' hsettled').mono (fun _ _ hG => hG) fun x u hu hok => ?_
      exact ⟨(hu hok).2.sound, (hu hok).2.settled⟩

end Early

section Queue

variable {sha256 : Bytes → String} {config : SyncConfig} {s : Session} {distinct : Prop}
  {mode : WallpaperRunMode}

theorem allowed_answered (t : Session) : t.Allowed distinct config mode .answered :=
  ⟨trivial, trivial⟩

/-- Every step before the queue is allowed. -/
theorem Session.Early.allowed {e : SyncStep} (h : s.Early distinct e) :
    s.Allowed distinct config mode e := by
  refine ⟨h.1, ?_⟩
  cases e with
  | load | start | unconfigured => exact h.2.elim
  | _ => trivial

/-- A record may be changed while the queue is processed. -/
theorem permitted_of_lookup (h : s.core.Sound) {id : String} {r r' : DeliveryRecord}
    (hr : s.core.memory.lookup id = some r) (hid : r'.id = r.id) (hextends : r.Extends r')
    (hclosed : id ∈ s.core.spent → r'.wallpaperStatus.closed) :
    s.core.Permitted distinct (.update id r') := by
  refine ⟨hid.trans (h.ids id r hr), fun r'' hr'' => ?_, hclosed⟩
  rw [hr] at hr''
  cases Option.some.inj hr''
  exact hextends

/-- What is left alone while one candidate is processed: the other records, what the run loaded
and the other deliveries whose command was started. -/
structure Apart (id : String) (c c' : RunState) : Prop where
  memory : ∀ j, j ≠ id → c'.memory.lookup j = c.memory.lookup j
  loaded : c'.loaded = c.loaded
  spent : ∀ j, j ≠ id → (j ∈ c'.spent ↔ j ∈ c.spent)

theorem Apart.refl (id : String) (c : RunState) : Apart id c c :=
  ⟨fun _ _ => rfl, rfl, fun _ _ => Iff.rfl⟩

theorem Apart.trans {id : String} {c c' c'' : RunState} (h : Apart id c c') (h' : Apart id c' c'') :
    Apart id c c'' :=
  ⟨fun j hj => (h'.memory j hj).trans (h.memory j hj), h'.loaded.trans h.loaded,
    fun j hj => (h'.spent j hj).trans (h.spent j hj)⟩

theorem Apart.update {id : String} {c : RunState} (r : DeliveryRecord) :
    Apart id c (c.apply (.update id r)) :=
  ⟨fun j hj => by
    show (c.memory.insert id r).lookup j = _
    rw [Files.lookup_insert, if_neg hj], rfl, fun _ _ => Iff.rfl⟩

/-- Changing the candidate's record while the queue is processed. -/
theorem changeQueued_meets (h : s.core.Sound) {id : String} {f : DeliveryRecord → DeliveryRecord}
    (hf : ∀ r, s.core.memory.lookup id = some r → (f r).id = r.id ∧ r.Extends (f r) ∧
      (id ∈ s.core.spent → (f r).wallpaperStatus.closed)) :
    Meets (change id f) s (Session.Allowed distinct config mode) fun x t => t.core.Sound ∧
      Apart id s.core t.core ∧ (x = .ok () → ∃ r, s.core.memory.lookup id = some r ∧
        t.core = (s.core.apply (.update id (f r))).apply .persist) := by
  have hupdate : ∀ r, s.core.memory.lookup id = some r →
      s.core.Permitted distinct (.update id (f r)) := fun r hr =>
    permitted_of_lookup h hr (hf r hr).1 (hf r hr).2.1 (hf r hr).2.2
  have hpersist : ∀ r, s.core.memory.lookup id = some r → ∀ t : Session,
      t.core = s.core.apply (.update id (f r)) → t.Allowed distinct config mode .persist := fun r hr t ht => by
    refine ⟨?_, trivial⟩
    show Records.Covers t.core.disk t.core.memory
    rw [ht]
    exact (h.apply (hupdate r hr)).covers
  refine (change_meets allowed_answered (fun r hr => ⟨hupdate r hr, trivial⟩) hpersist).mono
    (fun _ _ hG => hG) fun x t ht => ?_
  rcases ht with ⟨hsame, e, rfl⟩ | ⟨r, hr, hsaved⟩
  · rw [hsame]
    exact ⟨h, .refl _ _, fun hfalse => by contradiction⟩
  · have hsound := h.apply (hupdate r hr)
    rcases hsaved with hcore | ⟨hcore, e, rfl⟩
    · rw [hcore]
      exact ⟨hsound.apply (d := distinct) (e := .persist) hsound.covers,
        Apart.trans (.update (f r)) ⟨fun _ _ => rfl, rfl, fun _ _ => Iff.rfl⟩, fun _ => ⟨r, hr, rfl⟩⟩
    · rw [hcore]
      exact ⟨hsound, .update (f r), fun hfalse => by contradiction⟩

/-- A candidate may be started: by the mode, by the status on disk and, in an automatic run,
because it was not started before. -/
structure Startable (mode : WallpaperRunMode) (id : String) (c : RunState) : Prop where
  admits : mode.Admits ((c.loaded.lookup id).map (·.wallpaperStatus))
  fresh : mode = .automatic → id ∉ c.spent

theorem applyWallpaper_meets (h : s.core.Sound) {id : String} {r : DeliveryRecord} (hid : r.id = id)
    (hstart : Startable mode id s.core)
    (hrunning : ∃ r, s.core.memory.lookup id = some r ∧ r.wallpaperStatus = .running)
    (hagree : s.core.memory = s.core.disk) (hcommand : config.command ≠ []) :
    Meets (applyWallpaper config mode r) s (Session.Allowed distinct config mode) fun x t =>
      t.core.Sound ∧ Apart id s.core t.core ∧ t.core.memory = s.core.memory ∧
        ∀ o, x = .ok o → o ≠ .ok .notConfigured := by
  unfold applyWallpaper
  rw [if_neg hcommand]
  refine Meets.ask (allowed_answered s) fun a t ht => ?_
  cases a.command with
  | notStarted message =>
    dsimp only
    rw [meets_pure, ht]
    refine ⟨h, .refl _ _, rfl, fun o ho => ?_⟩
    rw [← Except.ok.inj ho]
    exact fun hfalse => by contradiction
  | ran result =>
    dsimp only
    rw [hid]
    have hpermitted : t.core.Permitted distinct (.start id mode) := by
      rw [ht]
      exact ⟨hstart.fresh, hstart.admits, hrunning, hagree ▸ hrunning⟩
    refine Meets.step ⟨hpermitted, rfl⟩ ?_
    rw [meets_pure]
    have hsound : t.core.Sound := by
      rw [ht]
      exact h
    refine ⟨hsound.apply hpermitted, ⟨fun j _ => ?_, ?_, fun j hj => ?_⟩, ?_, fun o ho => ?_⟩
    · show t.core.memory.lookup j = _
      rw [ht]
    · show t.core.loaded = _
      rw [ht]
    · show j ∈ id :: t.core.spent ↔ _
      rw [ht, List.mem_cons]
      exact ⟨fun hin => hin.resolve_left hj, .inr⟩
    · show t.core.memory = _
      rw [ht]
    · rw [← Except.ok.inj ho]
      cases result <;> simp [Except.map]

/-- One candidate with a configured command is started at most once and ends closed or failed. -/
theorem runWallpaper_meets (h : s.core.Sound) {id : String} {r : DeliveryRecord}
    (hr : s.core.memory.lookup id = some r) (hstart : Startable mode id s.core)
    (hcommand : config.command ≠ []) :
    Meets (runWallpaper sha256 config mode id r) s (Session.Allowed distinct config mode) fun _ t =>
      t.core.Sound ∧ Apart id s.core t.core := by
  unfold runWallpaper
  refine (verifyRecord_meets allowed_answered fun t _ => ⟨trivial, trivial⟩).tried fun x t ht => ?_
  have hread : t.core.Sound ∧ Apart id s.core t.core ∧ t.core.memory = s.core.memory ∧
      t.core.spent = s.core.spent := by
    rcases ht with ⟨ht, -⟩ | ⟨⟨found, ht⟩, -⟩
    · rw [ht]
      exact ⟨h, .refl _ _, rfl, rfl⟩
    · rw [ht]
      exact ⟨h.apply (d := distinct) (e := .verified r.storedPath found) trivial,
        ⟨fun _ _ => rfl, rfl, fun _ _ => Iff.rfl⟩, rfl, rfl⟩
  obtain ⟨hsound, hapart, hmemory, hspent⟩ := hread
  cases x with
  | error e =>
    refine (changeQueued_meets hsound fun r _ => ?_).mono (fun _ _ hG => hG) fun _ u hu =>
      ⟨hu.1, hapart.trans hu.2.1⟩
    exact ⟨rfl, ⟨rfl, rfl, rfl, fun ha => ha⟩, fun _ => ⟨by simp, by simp⟩⟩
  | ok =>
    refine (changeQueued_meets hsound fun r _ => ?_).seq (fun _ u hu => ?_) fun e u hu =>
      ⟨hu.1, hapart.trans hu.2.1⟩
    · exact ⟨rfl, ⟨rfl, rfl, rfl, fun ha => ha⟩, fun _ => ⟨by simp, by simp⟩⟩
    obtain ⟨r', hr', hcore⟩ := hu.2.2 rfl
    have hapart' := hapart.trans hu.2.1
    have hsame : u.core.memory.lookup id = some { r' with
        deliveryError := none, wallpaperStatus := .running
        wallpaperAttempts := min (r'.wallpaperAttempts + 1) (2 ^ 32 - 1), wallpaperError := none } := by
      rw [hcore]
      exact AList.lookup_insert _
    have hstart' : Startable mode id u.core := by
      have hloaded : u.core.loaded = s.core.loaded := hapart'.loaded
      have hunspent : u.core.spent = s.core.spent := by
        rw [hcore]
        exact hspent
      exact ⟨by rw [hloaded]; exact hstart.admits, by rw [hunspent]; exact hstart.fresh⟩
    refine (applyWallpaper_meets hu.1 (h.ids id r hr) hstart' ⟨_, hsame, rfl⟩ (by rw [hcore]; rfl)
      hcommand).seq (fun o v hv => ?_) fun e v hv => ⟨hv.1, hapart'.trans hv.2.1⟩
    have hconfigured := hv.2.2.2 o rfl
    have hapart'' := hapart'.trans hv.2.1
    cases o with
    | ok outcome =>
      cases outcome with
      | applied =>
        refine Meets.ask (allowed_answered v) fun a w hw => ?_
        refine (changeQueued_meets (by rw [hw]; exact hv.1) fun r _ => ?_).mono (fun _ _ hG => hG)
          fun _ z hz => ⟨hz.1, hapart''.trans (by rw [← hw]; exact hz.2.1)⟩
        exact ⟨rfl, ⟨rfl, rfl, rfl, fun ha => ha⟩, fun _ => ⟨by simp, by simp⟩⟩
      | notConfigured => exact absurd rfl hconfigured
    | error e =>
      refine (changeQueued_meets hv.1 fun r _ => ?_).mono (fun _ _ hG => hG)
        fun _ z hz => ⟨hz.1, hapart''.trans hz.2.1⟩
      refine ⟨rfl, ⟨rfl, rfl, rfl, fun ha => ha⟩, fun _ => ?_⟩
      dsimp only
      split <;> exact ⟨by simp, by simp⟩

theorem processCandidate_meets (h : s.core.Sound) {id : String}
    (hstart : Startable mode id s.core) :
    Meets (processCandidate sha256 config mode id) s (Session.Allowed distinct config mode) fun _ t =>
      t.core.Sound ∧ Apart id s.core t.core := by
  unfold processCandidate
  refine record_meets.seq (fun r t ht => ?_) fun e t ht => by
    rw [ht.1]
    exact ⟨h, .refl _ _⟩
  obtain ⟨rfl, ⟨r', hr, hsame⟩ | ⟨e, hfalse⟩⟩ := ht
  · cases Except.ok.inj hsame
    rw [meets_ite]
    refine ⟨fun hnone => ?_, fun hcommand => runWallpaper_meets h hr hstart hcommand⟩
    have hpermitted : t.core.Permitted distinct (.unconfigured mode id { r with
        wallpaperStatus := .notConfigured, wallpaperError := none }) := by
      refine ⟨h.ids id r hr, fun r' hr' => ?_, hstart.fresh⟩
      rw [hr] at hr'
      cases Option.some.inj hr'
      exact ⟨rfl, rfl, rfl, fun ha => ha⟩
    have hsound := h.apply hpermitted
    have hapart : Apart id t.core (t.core.apply (.unconfigured mode id { r with
        wallpaperStatus := .notConfigured, wallpaperError := none })) := by
      refine ⟨fun j hj => ?_, rfl, fun j hj => ?_⟩
      · show (t.core.memory.insert id _).lookup j = _
        rw [Files.lookup_insert, if_neg hj]
      · show j ∈ t.core.spent.filter (· ≠ id) ↔ _
        simp [hj]
    refine Meets.step ⟨hpermitted, rfl, hnone⟩ ?_
    refine (save_meets allowed_answered fun u hu => ⟨?_, trivial⟩).mono (fun _ _ hG => hG)
      fun x u hu => ?_
    · show Records.Covers u.core.disk u.core.memory
      rw [hu]
      exact hsound.covers
    · rcases hu with hu | ⟨hu, -⟩
      · rw [hu]
        exact ⟨hsound.apply (d := distinct) (e := .persist) hsound.covers,
          hapart.trans ⟨fun _ _ => rfl, rfl, fun _ _ => Iff.rfl⟩⟩
      · rw [hu]
        exact ⟨hsound, hapart⟩
  · contradiction

theorem mem_candidates {memory : Records} {id : String} (h : id ∈ candidates mode memory) :
    ∃ r, memory.lookup id = some r ∧ mode.eligible r.wallpaperStatus = true := by
  rw [candidates, List.mem_map] at h
  obtain ⟨⟨time, id'⟩, hmem, rfl⟩ := h
  rw [(List.perm_insertionSort _ _).mem_iff, List.mem_filterMap] at hmem
  obtain ⟨id, -, hfound⟩ := hmem
  obtain ⟨r, hr, hpair⟩ := Option.bind_eq_some_iff.mp hfound
  split at hpair
  · rename_i hcondition
    rw [← (Prod.mk.inj (Option.some.inj hpair)).2]
    exact ⟨r, hr, hcondition.2⟩
  · contradiction

theorem nodup_candidates (mode : WallpaperRunMode) (memory : Records) :
    (candidates mode memory).Nodup := by
  have hids : ∀ l : List String, ((l.filterMap fun id => (memory.lookup id).bind fun r =>
      if r.deliveryStatus = .acknowledged ∧ mode.eligible r.wallpaperStatus then
        some (r.sourceCreatedAtUnix.getD r.receivedAtUnix, id)
      else none).map (·.2)).Sublist l := by
    intro l
    induction l with
    | nil => exact .slnil
    | cons id l ih =>
      rw [List.filterMap_cons]
      split
      · exact ih.cons id
      · rename_i pair hpair
        obtain ⟨r, -, hpair⟩ := Option.bind_eq_some_iff.mp hpair
        split at hpair
        · cases Option.some.inj hpair
          exact ih.cons_cons id
        · contradiction
  rw [candidates]
  exact ((List.perm_insertionSort _ _).map _).nodup_iff.mpr
    ((hids _).nodup (Records.nodup_ids memory))

/-- The queue takes each candidate once. -/
theorem processWallpaperQueue_meets (hsound : s.core.Sound) (hsettled : s.core.Settled) :
    Meets (processWallpaperQueue sha256 config mode) s (Session.Allowed distinct config mode) fun _ _ => True := by
  unfold processWallpaperQueue
  have hsettle : Meets settleNonImages s (Session.Early distinct) fun x t => x = .ok () →
      t.core.Sound ∧ t.core.Settled := settleNonImages_meets hsound hsettled
  refine (hsettle.mono (fun _ _ hG => hG.allowed) fun _ _ ht => ht).seq (fun _ t ht => ?_)
    fun _ _ _ => trivial
  obtain ⟨hsound, hsettled⟩ := ht rfl
  refine Meets.read ?_
  have hstart : ∀ id ∈ candidates mode t.core.memory, Startable mode id t.core := fun id hid => by
    obtain ⟨r, hr, heligible⟩ := mem_candidates hid
    refine ⟨hsettled.admits hr heligible, fun hmode hspent => ?_⟩
    obtain ⟨r', hr', hclosed⟩ := hsound.memory id hspent
    rw [hr] at hr'
    cases Option.some.inj hr'
    subst hmode
    simp only [WallpaperRunMode.eligible, Bool.or_eq_true, beq_iff_eq] at heligible
    rcases heligible with heq | heq
    · exact hclosed.1 heq
    · exact hclosed.2 heq
  have hnodup := nodup_candidates mode t.core.memory
  generalize candidates mode t.core.memory = l at *
  refine Meets.forM (I := fun rest u => u.core.Sound ∧ rest.Nodup ∧
    ∀ id ∈ rest, Startable mode id u.core) ⟨hsound, hnodup, hstart⟩ (fun id rest u _ hu => ?_)
    fun _ _ => trivial
  obtain ⟨hsound, hnodup, hstart⟩ := hu
  refine (processCandidate_meets hsound (hstart id (by simp))).mono (fun _ _ hG => hG)
    fun x v hv => ⟨fun _ => ⟨hv.1, (List.nodup_cons.mp hnodup).2, fun j hj => ?_⟩, fun _ _ => trivial⟩
  have hne : j ≠ id := fun heq => (List.nodup_cons.mp hnodup).1 (heq ▸ hj)
  have hbefore := hstart j (by simp [hj])
  refine ⟨by rw [hv.2.loaded]; exact hbefore.admits, fun hmode => ?_⟩
  rw [hv.2.spent j hne]
  exact hbefore.fresh hmode

end Queue

end MiRelay
