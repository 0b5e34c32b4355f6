import MiRelay.Server.Service
import MiRelay.Server.UploadGuards

/-!
# Exits and whole runs keep to the conditions

The second part of a clean exit removes the metadata only after the uploads of
the folder and the objects nobody else waits for are gone. With that every
event of every run is permitted in the state it meets.
-/

namespace MiRelay

open Proc Relay

namespace ServerStore

variable {store : ServerStore} {sha256 : Bytes → String} {s : Relay}

/-- The parts whose records are found are owned. -/
theorem ensureOwned_ok {names : List String} {u : Unit} (h : store.ensureOwned s names = .ok u) :
    ∀ id ∈ names, ∃ r, s.records.lookup id = some r := by
  induction names with
  | nil => simp
  | cons id rest ih =>
    simp only [ensureOwned, bind_eq_ok] at h
    obtain ⟨found, hfound, h⟩ := h
    cases found with
    | none => contradiction
    | some r =>
      intro k hk
      rcases List.mem_cons.mp hk with rfl | hk
      · exact ⟨r, (readUploadRecord_ok hfound).1⟩
      · exact ih h k hk

/-- The upload of this identity is one of the listed uploads of the device. -/
def isPurged (s : Relay) (device : String) (names : List String) (k : String) : Bool :=
  k ∈ names && (s.records.lookup k).any (·.deviceId == device)

/-- The listed uploads of the device are gone, and nothing else. -/
structure Purged (s t : Relay) (device : String) (names : List String) : Prop where
  desk : t.desk = s.desk
  library : t.library = s.library
  records : ∀ k, t.records.lookup k =
    if isPurged s device names k then none else s.records.lookup k
  parts : ∀ k, t.parts.lookup k = if isPurged s device names k then none else s.parts.lookup k

/-- An upload that is not the device's is passed over. -/
theorem Purged.skip {t : Relay} {device id : String} {names : List String}
    (h : Purged s t device names) (hid : (s.records.lookup id).any (·.deviceId == device) = false) :
    Purged s t device (id :: names) := by
  have hsame : ∀ k, isPurged s device (id :: names) k = isPurged s device names k := by
    intro k
    by_cases hk : k = id
    · subst hk
      simp [isPurged, hid]
    · simp [isPurged, hk]
  exact ⟨h.desk, h.library, fun k => by rw [hsame, h.records], fun k => by rw [hsame, h.parts]⟩

/-- After the two removals of an upload the rest goes on as before. -/
theorem Purged.remove {t : Relay} {device id : String} {names : List String}
    (h : Purged (s.withoutUpload id) t device names)
    (hid : (s.records.lookup id).any (·.deviceId == device) = true) :
    Purged s t device (id :: names) := by
  have hpurged : ∀ k, k ≠ id → isPurged (s.withoutUpload id) device names k =
      isPurged s device (id :: names) k := by
    intro k hk
    simp [isPurged, withoutUpload, hk]
  have hgone : isPurged s device (id :: names) id = true := by simp [isPurged, hid]
  refine ⟨h.desk, h.library, fun k => ?_, fun k => ?_⟩
  · rw [h.records]
    by_cases hk : k = id
    · subst hk
      simp [hgone, withoutUpload]
    · rw [hpurged k hk, withoutUpload, Files.lookup_erase, if_neg hk]
  · rw [h.parts]
    by_cases hk : k = id
    · subst hk
      simp [hgone, withoutUpload]
    · rw [hpurged k hk, withoutUpload, Files.lookup_erase, if_neg hk]

/-- A purge that succeeds has removed the listed uploads of the device, each under the
condition its two removals have. -/
theorem purgeUploads_meets {G : Relay → Event → Prop} {device : String} {names : List String}
    (hG : ∀ t k r, t.desk = s.desk → t.records.lookup k = some r → r.deviceId = device →
      G t (.purgePart k) ∧ G (apply store sha256 t (.purgePart k)) (.purgeRecord k)) :
    Meets (store.purgeUploads sha256 device names) s G
      (OnSuccess fun _ t => Purged s t device names) := by
  induction names generalizing s with
  | nil =>
    rw [purgeUploads, meets_pure, onSuccess_ok]
    exact ⟨rfl, rfl, fun k => by simp [isPurged], fun k => by simp [isPurged]⟩
  | cons id rest ih =>
    unfold purgeUploads
    refine Meets.read (Meets.check fun found hfound => ?_)
    cases hown : found.filter (·.deviceId == device) with
    | none =>
      refine (ih hG).imp fun _ t ht => ht.skip ?_
      cases found with
      | none =>
        have hnone : s.records.lookup id = none := by
          simp only [readUploadRecord, bind_eq_ok] at hfound
          obtain ⟨_, -, hfound⟩ := hfound
          split at hfound
          · assumption
          · simp only [bind_eq_ok] at hfound
            obtain ⟨_, -, _, -, hfound⟩ := hfound
            cases Except.ok.inj hfound
        rw [hnone, Option.any_none]
      | some r =>
        rw [(readUploadRecord_ok hfound).1]
        simpa [Option.filter_eq_none_iff] using hown
    | some r =>
      obtain ⟨rfl, hdevice⟩ := Option.filter_eq_some_iff.mp hown
      rw [beq_iff_eq] at hdevice
      obtain ⟨hlookup, -⟩ := readUploadRecord_ok hfound
      obtain ⟨hpart, hrecord⟩ := hG s id r rfl hlookup hdevice
      refine Meets.step hpart (Meets.step hrecord ?_)
      have hrest : Meets (store.purgeUploads sha256 device rest) (s.withoutUpload id) G
          (OnSuccess fun _ t => Purged (s.withoutUpload id) t device rest) :=
        ih fun t k r ht => hG t k r ht
      refine hrest.imp fun _ t ht => ht.remove ?_
      rw [hlookup]
      simpa using hdevice

/-- The uploads of the folder are gone, and every part that is left has its record. -/
theorem purgeFolderUploadsLocked_meets {f : String} {parts records : List String}
    (hexit : s.db.exiting f = true) :
    Meets (store.purgeFolderUploadsLocked sha256 (folderDevice f) parts records) s
      (Permitted store sha256) (OnSuccess fun _ t => t.desk = s.desk ∧
        (∀ r ∈ t.records.values, r.deviceId ≠ folderDevice f) ∧
        ∀ p ∈ t.parts.keys, p ∈ t.records.keys) := by
  unfold purgeFolderUploadsLocked
  refine Meets.read (Meets.check fun _ howned => ?_)
  have hG : ∀ t k r, t.desk = s.desk → t.records.lookup k = some r → r.deviceId = folderDevice f →
      Permitted store sha256 t (.purgePart k) ∧
        Permitted store sha256 (apply store sha256 t (.purgePart k)) (.purgeRecord k) := by
    intro t k r hdesk hr hdevice
    have hexit' : t.db.exiting f = true := by
      rw [Relay.db, hdesk]
      exact hexit
    exact ⟨⟨r, f, hr, hdevice, hexit'⟩, AList.lookup_erase _ _, r, f, hr, hdevice, hexit'⟩
  refine (purgeUploads_meets hG).imp fun _ t hpurged => ?_
  refine ⟨hpurged.desk, fun r hr hdevice => ?_, fun p hp => ?_⟩
  · obtain ⟨k, hk⟩ := (Files.mem_values_iff _ _).mp hr
    rw [hpurged.records] at hk
    split at hk
    · contradiction
    · rename_i hnot
      refine hnot ?_
      have hkey : k ∈ readDir s.records.keys records :=
        mem_readDir.mpr ((Files.mem_keys_iff _ _).mpr ⟨r, hk⟩)
      simp [isPurged, hkey, hk, hdevice]
  · obtain ⟨bytes, hbytes⟩ := (Files.mem_keys_iff _ _).mp hp
    rw [hpurged.parts] at hbytes
    split at hbytes
    · contradiction
    · rename_i hnot
      have hkey : p ∈ readDir s.parts.keys parts :=
        mem_readDir.mpr ((Files.mem_keys_iff _ _).mpr ⟨bytes, hbytes⟩)
      obtain ⟨r, hr⟩ := ensureOwned_ok howned p hkey
      refine (Files.mem_keys_iff _ _).mpr ⟨r, ?_⟩
      rw [hpurged.records, if_neg hnot, hr]

/-- An object that is not shared is only waited for by the folder itself. -/
theorem isShared_eq_false {db : Database} {device digest : String}
    (h : isShared db device digest = false) {d : DeliveryRow} (hd : d ∈ db.deliveries.rows)
    (hnone : d.acknowledgedAtUnix = none) (hdigest : d.sha256 = digest) : d.deviceId = device := by
  by_contra hne
  rw [isShared, List.any_eq_false] at h
  exact h d hd (by simp [hdigest, hne, hnone])

/-- The listed objects are gone unless another device waits for them. -/
theorem eraseObjects_meets {id : String} {objects : List (String × String)}
    (hexit : s.db.exiting id = true) :
    Meets (store.eraseObjects sha256 id objects) s (Permitted store sha256)
      (OnSuccess fun _ t => t.desk = s.desk ∧ t.records = s.records ∧ t.parts = s.parts ∧
        (∀ name, s.library.objects.lookup name = none → t.library.objects.lookup name = none) ∧
        ∀ o ∈ objects, ∀ name, objectOf o.1 o.2 = some name →
          t.library.objects.lookup name = none ∨ isShared s.db (folderDevice id) o.1 = true) := by
  induction objects generalizing s with
  | nil => simp [eraseObjects]
  | cons o rest ih =>
    obtain ⟨digest, mediaType⟩ := o
    unfold eraseObjects
    refine Meets.check fun _ _ => Meets.read ?_
    rw [meets_ite]
    refine ⟨fun hshared => ?_, fun hshared => ?_⟩
    · refine (ih hexit).imp fun _ t ⟨hdesk, hrecords, hparts, hgone, hrest⟩ => ?_
      refine ⟨hdesk, hrecords, hparts, hgone, fun o ho name hname => ?_⟩
      rcases List.mem_cons.mp ho with rfl | ho
      · exact .inr hshared
      · exact hrest o ho name hname
    · rw [Bool.not_eq_true] at hshared
      cases hobject : objectOf digest mediaType with
      | none => simp
      | some name =>
        dsimp only
        have hrest : ∀ u : Relay, u.desk = s.desk → u.records = s.records → u.parts = s.parts →
            (∀ n, s.library.objects.lookup n = none → u.library.objects.lookup n = none) →
            u.library.objects.lookup name = none →
            Meets (store.eraseObjects sha256 id rest) u (Permitted store sha256)
              (OnSuccess fun _ t => t.desk = s.desk ∧ t.records = s.records ∧ t.parts = s.parts ∧
                (∀ n, s.library.objects.lookup n = none → t.library.objects.lookup n = none) ∧
                ∀ o ∈ (digest, mediaType) :: rest, ∀ n, objectOf o.1 o.2 = some n →
                  t.library.objects.lookup n = none ∨
                    isShared s.db (folderDevice id) o.1 = true) := by
          intro u hdesk hrecords hparts hgone hname
          have hdb : u.db = s.db := by rw [Relay.db, hdesk]
          refine (ih (by rw [hdb]; exact hexit)).imp
            fun _ t ⟨hdesk', hrecords', hparts', hgone', hrest'⟩ => ?_
          refine ⟨hdesk'.trans hdesk, hrecords'.trans hrecords, hparts'.trans hparts,
            fun n hn => hgone' n (hgone n hn), fun o ho n hn => ?_⟩
          rcases List.mem_cons.mp ho with rfl | ho
          · rw [hobject] at hn
            rw [← Option.some.inj hn]
            exact .inl (hgone' _ hname)
          · rw [← hdb]
            exact hrest' o ho n hn
        rw [meets_ite]
        refine ⟨fun _ => Meets.step ?_ ?_, fun habsent => ?_⟩
        · refine ⟨hexit, fun d hd hnone hdigest => isShared_eq_false hshared hd hnone ?_⟩
          rw [hdigest, (objectOf_eq_some.mp hobject).1]
        · refine hrest _ rfl rfl rfl (fun n hn => ?_) (AList.lookup_erase _ _)
          rw [apply, Files.lookup_erase, hn, ite_self]
        · rw [Option.not_isSome_iff_eq_none] at habsent
          exact hrest s rfl rfl rfl (fun _ h => h) habsent

/-- The second part of a clean exit keeps to the conditions. -/
theorem finishExit_meets {id : String} {parts records : List String}
    {objects : List (String × String)} {between : List (List Transaction)}
    (hexit : s.db.exiting id = true) :
    Meets (store.finishExit sha256 id parts records objects between) s (Permitted store sha256)
      (OnSuccess fun _ _ => True) := by
  have hpause : ∀ {t : Relay} {k : Nat}, Meets (store.pause sha256 between k) t
      (Permitted store sha256) (OnSuccess fun _ u => SameContent t u) :=
    pause_meets.mono (fun _ _ h => h.1) fun _ _ h => h
  unfold finishExit
  refine Meets.bind hpause fun _ s₁ h₁ => ?_
  have hexit₁ := h₁.db.exiting id hexit
  refine Meets.bind (purgeFolderUploadsLocked_meets hexit₁) fun _ s₂ hpurged => ?_
  obtain ⟨hdesk, hrecords, hparts⟩ := hpurged
  refine Meets.bind hpause fun _ s₃ h₃ => Meets.read ?_
  have hexit₃ : s₃.db.exiting id = true := by
    refine h₃.db.exiting id ?_
    rw [Relay.db, hdesk]
    exact hexit₁
  refine Meets.bind (eraseObjects_meets hexit₃) fun _ s₄ herased => ?_
  obtain ⟨hdesk₄, hrecords₄, hparts₄, -, hgone⟩ := herased
  have hdb : s₄.db = s₃.db := by rw [Relay.db, hdesk₄]
  refine Meets.step ⟨by rw [hdb]; exact hexit₃, ?_, ?_, fun d hd hdevice name hname => ?_⟩ (by simp)
  · rw [hrecords₄, h₃.records]
    exact hrecords
  · rw [hrecords₄, h₃.records, hparts₄, h₃.parts]
    exact hparts
  · rw [hdb] at hd ⊢
    refine hgone (d.sha256, d.mediaType) (mem_readDir.mpr ?_) name hname
    rw [contentOf, List.mem_dedup]
    exact List.mem_map.mpr ⟨d, List.mem_filter.mpr ⟨hd, by simp [hdevice]⟩, rfl⟩

/-- Every operation keeps to the conditions. -/
theorem perform_permitted (a : Action) (s : Relay) :
    Guarded (apply store sha256) (Permitted store sha256) s (store.perform sha256 a s).events := by
  have hmeets : Meets (store.perform sha256 a) s (Permitted store sha256) fun _ _ => True := by
    cases a with
    | outside i => exact interfereOnce_meets.mono (fun _ _ h => h.1) fun _ _ _ => trivial
    | upload request between cut =>
      have hupload : Meets (store.performUpload sha256 between request) s (Permitted store sha256)
          (OnSuccess fun _ _ => True) := by
        cases request with
        | create device upload candidates now =>
          exact Meets.bind createUpload_meets fun _ _ _ => by simp
        | head device uploadId c => exact Meets.bind (permitted getUpload_meets) fun _ _ _ => by simp
        | patch device uploadId expectedOffset chunk chunkLength torn first second =>
          exact Meets.bind appendUpload_meets fun _ _ _ => by simp
      exact hupload.upTo cut
    | finishExit id parts records objects between cut =>
      refine Meets.read ?_
      rw [meets_ite]
      exact ⟨fun hexit => (finishExit_meets hexit).upTo cut, fun _ => by simp⟩
  exact hmeets.1

/-- Every event of every run is permitted in the state it meets. -/
theorem trace_permitted (s : Relay) (l : List Action) :
    Guarded (apply store sha256) (Permitted store sha256) s (store.trace sha256 s l) := by
  induction l generalizing s with
  | nil => trivial
  | cons a l ih => exact guarded_append.mpr ⟨perform_permitted a s, ih _⟩

/-- What every permitted event preserves holds in every state of every run. -/
theorem run_invariant {I : Relay → Prop} {s : Relay} (hs : I s)
    (hstep : ∀ s e, I s → Permitted store sha256 s e → I (apply store sha256 s e))
    (l : List Action) : I (store.run sha256 s l) :=
  (trace_permitted s l).invariant hs hstep

end ServerStore

end MiRelay
