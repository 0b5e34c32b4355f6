import MiRelay.Client.FilesystemSource

/-!
# What stands in an inbox

Whatever the processes that use an inbox do at the same time: no name is given
twice, a manifest is there only with the payload it describes, and a marker stays
as it is.
-/

namespace MiRelay

open Proc

/-! ### Names -/

theorem manifestName_injective {id id' : String} (h : manifestName id = manifestName id') :
    id = id' := by
  have hlist := congrArg String.toList h
  rw [manifestName, manifestName, String.toList_append, String.toList_append] at hlist
  exact String.toList_inj.mp (List.append_cancel_right hlist)

theorem payloadName_injective {id id' : String} (h : payloadName id = payloadName id') :
    id = id' := by
  have hlist := congrArg String.toList h
  rw [payloadName, payloadName, String.toList_append, String.toList_append] at hlist
  exact String.toList_inj.mp (List.append_cancel_right hlist)

theorem payloadName_ne_manifestName (id id' : String) : payloadName id ≠ manifestName id' := by
  intro h
  have hlast := congrArg (fun name : String => name.toList.getLast?) h
  simp [payloadName, manifestName, String.toList_append] at hlast

/-- An identity begins with a character of identities. -/
theorem head_of_validateDeliveryId {id : String} (h : validateDeliveryId id = .ok ()) :
    ∃ c rest, id.toList = c :: rest ∧ isIdentityChar c = true := by
  rw [validateDeliveryId, ensure_eq_ok, Bool.and_eq_true, Bool.and_eq_true, List.all_eq_true] at h
  cases hlist : id.toList with
  | nil =>
    rw [hlist] at h
    simp at h
  | cons c rest => exact ⟨c, rest, rfl, h.2 c (hlist ▸ List.mem_cons_self)⟩

/-- What begins as an identity is no temporary file. -/
theorem not_isTemporaryName {id suffix : String} (h : validateDeliveryId id = .ok ()) :
    isTemporaryName (id ++ suffix) = false := by
  obtain ⟨c, rest, hlist, hc⟩ := head_of_validateDeliveryId h
  have hne : '.' ≠ c := by
    rintro rfl
    exact absurd hc (by decide)
  simp [isTemporaryName, String.toList_append, hlist, hne]

theorem isTemporaryName_temporaryName (random : String) :
    isTemporaryName (temporaryName random) = true := by
  simp [isTemporaryName, temporaryName, String.toList_append, String.toList_ofList]

theorem isManifestName_manifestName {id : String} (h : validateDeliveryId id = .ok ()) :
    isManifestName (manifestName id) = true := by
  obtain ⟨c, rest, hlist, -⟩ := head_of_validateDeliveryId h
  simp [isManifestName, manifestName, String.toList_append, hlist, List.isSuffixOf_iff_suffix]

theorem not_isManifestName_payloadName (id : String) : isManifestName (payloadName id) = false := by
  rw [isManifestName, Bool.and_eq_false_iff]
  left
  rw [← Bool.not_eq_true, List.isSuffixOf_iff_suffix]
  rintro ⟨front, h⟩
  have hlast := congrArg List.getLast? h
  simp [payloadName, String.toList_append] at hlast

/-- The name of a temporary file has no dot but the first character. -/
theorem not_isManifestName_of_isTemporaryName {name : String} (h : isTemporaryName name = true) :
    isManifestName name = false := by
  rw [isTemporaryName, Bool.and_eq_true, List.isPrefixOf_iff_prefix, List.all_eq_true] at h
  obtain ⟨⟨rest, hname⟩, hall⟩ := h
  rw [← hname] at hall
  rw [← Bool.not_eq_true, isManifestName, Bool.and_eq_true, List.isSuffixOf_iff_suffix]
  rintro ⟨⟨front, hsuffix⟩, hlength⟩
  cases front with
  | nil =>
    rw [← hsuffix] at hlength
    exact absurd hlength (by decide)
  | cons c front =>
    have hdot : '.' ∈ ['t', 'm', 'p'] ++ rest := by
      have heq : c :: (front ++ ".json".toList) = '.' :: (['t', 'm', 'p'] ++ rest) := hsuffix.trans hname.symm
      rw [← (List.cons.inj heq).2]
      exact List.mem_append_right _ (by decide)
    rcases List.mem_append.mp hdot with hmem | hmem
    · exact absurd hmem (by decide)
    · exact absurd (hall '.' (by simpa using hmem)) (by decide)

namespace Inbox

variable {format : InboxFormat} {sha256 : Bytes → String} {me : Nat} {s t : Inbox} {e : InboxEvent}

/-! ### Entries -/

theorem entry_setEntries (s : Inbox) (place place' : InboxPlace) (files : Files String InboxFile)
    (name : String) : (s.setEntries place files).entry place' name =
      if place = place' then files.lookup name else s.entry place' name := by
  cases place <;> cases place' <;> rfl

theorem entry_publish (s : Inbox) (place place' : InboxPlace) (temporary name name' : String)
    (file : InboxFile) : (s.publish place temporary name file).entry place' name' =
      if place = place' then
        if name' = name then some file else if name' = temporary then none else s.entry place' name'
      else s.entry place' name' := by
  rw [publish, entry_setEntries]
  split
  · rename_i hplace
    subst hplace
    rw [Files.lookup_insert, Files.lookup_erase]
    rfl
  · rfl

theorem present_setEntries (s : Inbox) (place : InboxPlace) (files : Files String InboxFile)
    (h : s.present .acks = true) : (s.setEntries place files).present .acks = true := by
  cases place with
  | inbox => exact h
  | acks => rfl

/-- Without a folder of markers there are none. -/
theorem entry_of_not_present {name : String} (h : s.present .acks = false) :
    s.entry .acks name = none := by
  unfold present at h
  unfold entry entries
  cases hacks : s.acks with
  | none => rfl
  | some folder =>
    cases folder with
    | directory files =>
      rw [hacks] at h
      contradiction
    | other => rfl

/-! ### What stands in an inbox -/

/-- The payload and the manifest of a delivery, written by one process. -/
structure HoldsBy (format : InboxFormat) (sha256 : Bytes → String) (s : Inbox) (d : Delivery)
    (content : Bytes) (writer : Nat) : Prop where
  payload : s.entry .inbox (payloadName d.id) = some (.regular writer content)
  manifest : s.entry .inbox (manifestName d.id) = some (.regular writer (format.manifestBytes d))
  name : d.payload = payloadName d.id
  describes : d.describes sha256 content = true
  valid : validateDeliveryMetadata d d.size = .ok ()

/-- The inbox has the payload and the manifest of a delivery. -/
def Holds (format : InboxFormat) (sha256 : Bytes → String) (s : Inbox) (d : Delivery)
    (content : Bytes) : Prop :=
  ∃ writer, s.HoldsBy format sha256 d content writer

/-- The inbox has a marker for an identity. -/
def Marked (s : Inbox) (id : String) : Prop :=
  ∃ writer content, s.entry .acks (manifestName id) = some (.regular writer content)

/-- The entries of an inbox are payloads, manifests, markers and temporary files. -/
structure Sound (format : InboxFormat) (sha256 : Bytes → String) (s : Inbox) : Prop where
  inbox : ∀ name file, s.entry .inbox name = some file →
    (file = .temporary ∧ isTemporaryName name = true) ∨
      (∃ id writer content, validateDeliveryId id = .ok () ∧ name = payloadName id ∧
        file = .regular writer content) ∨
        ∃ d content writer, s.HoldsBy format sha256 d content writer ∧ name = manifestName d.id ∧
          file = .regular writer (format.manifestBytes d)
  acks : ∀ name file, s.entry .acks name = some file →
    (file = .temporary ∧ isTemporaryName name = true) ∨
      ∃ m writer, validateDeliveryId m.id = .ok () ∧ name = manifestName m.id ∧
        file = .regular writer (format.markerBytes m)
  folder : s.acks ≠ some .other

/-- What has been published stays. -/
structure Kept (s t : Inbox) : Prop where
  file : ∀ place name writer content, s.entry place name = some (.regular writer content) →
    t.entry place name = some (.regular writer content)
  present : s.present .acks = true → t.present .acks = true

theorem Kept.refl (s : Inbox) : Kept s s := ⟨fun _ _ _ _ h => h, id⟩

theorem Kept.trans {u : Inbox} (h : Kept s t) (h' : Kept t u) : Kept s u :=
  ⟨fun _ _ _ _ hf => h'.file _ _ _ _ (h.file _ _ _ _ hf), fun hp => h'.present (h.present hp)⟩

theorem Kept.holdsBy {d : Delivery} {content : Bytes} {writer : Nat} (h : Kept s t)
    (hd : s.HoldsBy format sha256 d content writer) : t.HoldsBy format sha256 d content writer :=
  ⟨h.file _ _ _ _ hd.payload, h.file _ _ _ _ hd.manifest, hd.name, hd.describes, hd.valid⟩

theorem Kept.holds {d : Delivery} {content : Bytes} (h : Kept s t)
    (hd : s.Holds format sha256 d content) : t.Holds format sha256 d content :=
  hd.imp fun _ => h.holdsBy

theorem Kept.marked {id : String} (h : Kept s t) (hid : s.Marked id) : t.Marked id := by
  obtain ⟨writer, content, hentry⟩ := hid
  exact ⟨writer, content, h.file _ _ _ _ hentry⟩

theorem sound_initial (answers : Nat → InboxAnswer) : Sound format sha256 (initial answers) where
  inbox := nofun
  acks := nofun
  folder := nofun

/-- The identity of a valid delivery. -/
theorem valid_id {d : Delivery} {m : Nat} (h : validateDeliveryMetadata d m = .ok ()) :
    validateDeliveryId d.id = .ok () := by
  simp only [validateDeliveryMetadata, bind_eq_ok] at h
  obtain ⟨_, -, _, hid, -⟩ := h
  exact hid

/-- What has been published has no name of a temporary file. -/
theorem Sound.not_temporary (h : Sound format sha256 s) {place : InboxPlace} {name : String}
    {writer : Nat} {content : Bytes} (hf : s.entry place name = some (.regular writer content)) :
    isTemporaryName name = false := by
  cases place with
  | inbox =>
    rcases h.inbox _ _ hf with ⟨hfile, -⟩ | ⟨id, _, _, hid, rfl, -⟩ | ⟨d, _, _, hd, rfl, -⟩
    · contradiction
    · exact not_isTemporaryName hid
    · exact not_isTemporaryName (valid_id hd.valid)
  | acks =>
    rcases h.acks _ _ hf with ⟨hfile, -⟩ | ⟨m, _, hid, rfl, -⟩
    · contradiction
    · exact not_isTemporaryName hid

/-! ### Steps -/

/-- What a lawful step puts under a name. -/
inductive Puts (format : InboxFormat) (sha256 : Bytes → String) (s : Inbox) (process : Nat) :
    InboxPlace → String → String → InboxFile → InboxStep → Prop
  | payload {temporary id : String} {content : Bytes} (hid : validateDeliveryId id = .ok ()) :
    Puts format sha256 s process .inbox temporary (payloadName id) (.regular process content)
      (.payload temporary id content)
  | manifest {temporary : String} {d : Delivery} {content : Bytes}
    (hvalid : validateDeliveryMetadata d d.size = .ok ()) (hname : d.payload = payloadName d.id)
    (hpayload : s.entry .inbox (payloadName d.id) = some (.regular process content))
    (hdescribes : d.describes sha256 content = true) :
    Puts format sha256 s process .inbox temporary (manifestName d.id)
      (.regular process (format.manifestBytes d)) (.manifest temporary d)
  | marker {temporary : String} {m : AckMarker} (hid : validateDeliveryId m.id = .ok ())
    (hpresent : s.present .acks = true) :
    Puts format sha256 s process .acks temporary (manifestName m.id)
      (.regular process (format.markerBytes m)) (.marker temporary m)

/-- What a lawful step does. -/
theorem lawful_cases (format : InboxFormat) (h : lawful sha256 s e = true) :
    (e.step = .answered) ∨
    (∃ place name, e.step = .began place name ∧ s.present place = true ∧
      s.entry place name = none ∧ isTemporaryName name = true) ∨
    (∃ place name, e.step = .dropped place name ∧ s.entry place name = some .temporary) ∨
    (e.step = .madeAcks ∧ s.acks = none) ∨
    ∃ place temporary name file, Puts format sha256 s e.process place temporary name file e.step ∧
      isTemporaryName temporary = true ∧ s.entry place name = none ∧
        apply format s e = s.publish place temporary name file := by
  have hok : ∀ {x : Result Unit}, x.isOk = true → x = .ok () := fun {x} hx => by
    cases x with
    | ok u => rfl
    | error e => contradiction
  obtain ⟨process, step⟩ := e
  cases step with
  | answered => exact .inl rfl
  | began place name =>
    simp only [lawful, Bool.and_eq_true, Option.isNone_iff_eq_none] at h
    exact .inr (.inl ⟨place, name, rfl, h.1.1, h.1.2, h.2⟩)
  | dropped place name =>
    refine .inr (.inr (.inl ⟨place, name, rfl, ?_⟩))
    simp only [lawful] at h
    split at h
    · assumption
    · contradiction
  | payload temporary id content =>
    simp only [lawful, Bool.and_eq_true, Option.isNone_iff_eq_none] at h
    exact .inr (.inr (.inr (.inr
      ⟨.inbox, temporary, payloadName id, _, .payload (hok h.1.1), h.1.2, h.2, rfl⟩)))
  | manifest temporary delivery =>
    simp only [lawful, Bool.and_eq_true, Option.isNone_iff_eq_none, beq_iff_eq] at h
    obtain ⟨⟨⟨⟨htemporary, hfree⟩, hvalid⟩, hname⟩, hpayload⟩ := h
    rw [hname] at hpayload
    split at hpayload
    · rename_i writer content hentry
      simp only [Bool.and_eq_true, beq_iff_eq] at hpayload
      rw [hpayload.1] at hentry
      exact .inr (.inr (.inr (.inr ⟨.inbox, temporary, manifestName delivery.id, _,
        .manifest (hok hvalid) hname hentry hpayload.2, htemporary, hfree, rfl⟩)))
    · contradiction
  | madeAcks => exact .inr (.inr (.inr (.inl ⟨rfl, Option.isNone_iff_eq_none.mp h⟩)))
  | marker temporary marker =>
    simp only [lawful, Bool.and_eq_true, Option.isNone_iff_eq_none] at h
    exact .inr (.inr (.inr (.inr ⟨.acks, temporary, manifestName marker.id, _,
      .marker (hok h.1.2) h.1.1.2, h.1.1.1, h.2, rfl⟩)))

/-- A lawful step keeps what has been published. -/
theorem Sound.kept (hs : Sound format sha256 s) (h : lawful sha256 s e = true) :
    Kept s (apply format s e) := by
  rcases lawful_cases format h with hstep | ⟨place, name, hstep, -, hfree, -⟩ |
      ⟨place, name, hstep, htemporary⟩ | ⟨hstep, hacks⟩ | ⟨place, temporary, name, file, -, ht, hfree, happly⟩
  · rw [apply, hstep]
    exact ⟨fun _ _ _ _ hf => hf, id⟩
  · rw [apply, hstep]
    refine ⟨fun place' name' writer content hf => ?_, present_setEntries _ _ _⟩
    rw [entry_setEntries]
    split
    · rename_i hplace
      subst hplace
      rw [Files.lookup_insert, if_neg ?_]
      · exact hf
      · rintro rfl
        rw [hfree] at hf
        contradiction
    · exact hf
  · rw [apply, hstep]
    refine ⟨fun place' name' writer content hf => ?_, present_setEntries _ _ _⟩
    rw [entry_setEntries]
    split
    · rename_i hplace
      subst hplace
      rw [Files.lookup_erase, if_neg ?_]
      · exact hf
      · rintro rfl
        cases Option.some.inj (htemporary.symm.trans hf)
    · exact hf
  · rw [apply, hstep]
    refine ⟨fun place' name' writer content hf => ?_, fun _ => rfl⟩
    rw [entry_setEntries]
    split
    · rename_i hplace
      subst hplace
      rw [entry_of_not_present (by rw [present, hacks])] at hf
      contradiction
    · exact hf
  · -- A name is given only while it is free, and what is renamed is a temporary file.
    rw [happly]
    refine ⟨fun place' name' writer content hf => ?_, present_setEntries _ _ _⟩
    rw [entry_publish]
    split
    · rename_i hplace
      subst hplace
      rw [if_neg ?_, if_neg ?_]
      · exact hf
      · rintro rfl
        rw [hs.not_temporary hf] at ht
        contradiction
      · rintro rfl
        rw [hfree] at hf
        contradiction
    · exact hf

/-- An entry after a lawful step was there before, or the step has made it. -/
theorem entry_apply (h : lawful sha256 s e = true) {place : InboxPlace} {name : String}
    {file : InboxFile} (hf : (apply format s e).entry place name = some file) :
    s.entry place name = some file ∨ (file = .temporary ∧ isTemporaryName name = true) ∨
      ∃ temporary, Puts format sha256 s e.process place temporary name file e.step := by
  rcases lawful_cases format h with hstep | ⟨place', name', hstep, -, -, ht⟩ |
      ⟨place', name', hstep, -⟩ | ⟨hstep, -⟩ | ⟨place', temporary, name', file', hputs, -, -, happly⟩
  · rw [apply, hstep] at hf
    exact .inl hf
  · rw [apply, hstep, entry_setEntries] at hf
    split at hf
    · rename_i hplace
      subst hplace
      rw [Files.lookup_insert] at hf
      split at hf
      · rename_i hname
        subst hname
        exact .inr (.inl ⟨(Option.some.inj hf).symm, ht⟩)
      · exact .inl hf
    · exact .inl hf
  · rw [apply, hstep, entry_setEntries] at hf
    split at hf
    · rename_i hplace
      subst hplace
      rw [Files.lookup_erase] at hf
      split at hf
      · contradiction
      · exact .inl hf
    · exact .inl hf
  · rw [apply, hstep, entry_setEntries] at hf
    split at hf
    · contradiction
    · exact .inl hf
  · rw [happly, entry_publish] at hf
    split at hf
    · rename_i hplace
      subst hplace
      split at hf
      · rename_i hname
        subst hname
        cases Option.some.inj hf
        exact .inr (.inr ⟨temporary, hputs⟩)
      · split at hf
        · contradiction
        · exact .inl hf
    · exact .inl hf

theorem folder_apply (h : lawful sha256 s e = true) (hs : s.acks ≠ some .other) :
    (apply format s e).acks ≠ some .other := by
  have hset : ∀ place files, (s.setEntries place files).acks ≠ some .other := fun place files => by
    cases place with
    | inbox => exact hs
    | acks => nofun
  rcases lawful_cases format h with hstep | ⟨_, _, hstep, -⟩ | ⟨_, _, hstep, -⟩ |
      ⟨hstep, -⟩ | ⟨_, _, _, _, -, -, -, happly⟩
  · rw [apply, hstep]
    exact hs
  · rw [apply, hstep]
    exact hset _ _
  · rw [apply, hstep]
    exact hset _ _
  · rw [apply, hstep]
    exact hset _ _
  · rw [happly]
    exact hset _ _

/-- A lawful step leaves an inbox of the same kind. -/
theorem Sound.step (hs : Sound format sha256 s) (h : lawful sha256 s e = true) :
    Sound format sha256 (apply format s e) where
  inbox := fun name file hf => by
    have hkept := hs.kept h
    rcases entry_apply h hf with hbefore | htemporary | ⟨temporary, hputs⟩
    · rcases hs.inbox _ _ hbefore with htemporary | hpayload | ⟨d, content, writer, hd, hname, hfile⟩
      · exact .inl htemporary
      · exact .inr (.inl hpayload)
      · exact .inr (.inr ⟨d, content, writer, hkept.holdsBy hd, hname, hfile⟩)
    · exact .inl htemporary
    · -- What a step publishes is described by what stood before it.
      generalize e.step = step at hputs
      cases hputs with
      | payload hid => exact .inr (.inl ⟨_, _, _, hid, rfl, rfl⟩)
      | manifest hvalid hname hpayload hdescribes =>
        exact .inr (.inr ⟨_, _, _, ⟨hkept.file _ _ _ _ hpayload, hf, hname, hdescribes, hvalid⟩,
          rfl, rfl⟩)
  acks := fun name file hf => by
    rcases entry_apply h hf with hbefore | htemporary | ⟨temporary, hputs⟩
    · exact hs.acks _ _ hbefore
    · exact .inl htemporary
    · generalize e.step = step at hputs
      cases hputs with
      | marker hid => exact .inr ⟨_, _, hid, rfl, rfl⟩
  folder := folder_apply h hs.folder

/-- The payload of an identity is that of a process, and its manifest is missing. -/
structure Unclaimed (s : Inbox) (me : Nat) (id : String) (content : Bytes) : Prop where
  payload : s.entry .inbox (payloadName id) = some (.regular me content)
  manifest : s.entry .inbox (manifestName id) = none

/-- The step publishes nothing. -/
def publishesNothing : InboxStep → Bool
  | .answered | .began .. | .dropped .. => true
  | _ => false

/-- What is lawful, and publishes nothing for the process. -/
def Quiet (sha256 : Bytes → String) (me : Nat) (s : Inbox) (e : InboxEvent) : Prop :=
  lawful sha256 s e = true ∧ (e.process = me → publishesNothing e.step = true)

/-- No other process publishes the manifest. -/
theorem Unclaimed.step {id : String} {content : Bytes} (h : s.Unclaimed me id content)
    (hs : Sound format sha256 s) (hid : validateDeliveryId id = .ok ()) (he : Quiet sha256 me s e) :
    (apply format s e).Unclaimed me id content := by
  refine ⟨(hs.kept he.1).file _ _ _ _ h.payload, ?_⟩
  cases hentry : (apply format s e).entry .inbox (manifestName id) with
  | none => rfl
  | some file =>
    rcases entry_apply he.1 hentry with hbefore | ⟨-, htemporary⟩ | ⟨temporary, hputs⟩
    · rw [h.manifest] at hbefore
      contradiction
    · have hno : isTemporaryName (manifestName id) = false := not_isTemporaryName hid
      rw [hno] at htemporary
      contradiction
    · -- A manifest goes to the process that has the payload, and that one publishes nothing here.
      have hquiet := he.2
      generalize e.step = step at hputs hquiet
      generalize hname : manifestName id = name at hputs
      cases hputs with
      | payload => exact absurd hname.symm (payloadName_ne_manifestName _ _)
      | manifest _ _ hpayload =>
        rw [← manifestName_injective hname, h.payload] at hpayload
        cases Option.some.inj hpayload
        exact absurd (hquiet rfl) Bool.false_ne_true

/-- What others do is lawful and theirs. -/
theorem others_meets (s : Inbox) (l : List InboxEvent) :
    Guarded (apply format) (fun u e => lawful sha256 u e = true ∧ e.process ≠ me) s
      (others format sha256 me s l) := by
  induction l generalizing s with
  | nil => trivial
  | cons e rest ih =>
    rw [others]
    split
    · rename_i h
      exact ⟨⟨h.2, h.1⟩, ih _⟩
    · exact ih _

end Inbox

/-! ### Procedures -/

namespace FilesystemSource

open Inbox

variable {format : InboxFormat} {sha256 : Bytes → String} {inboxDir : String} {me : Nat} {s t : Inbox}

/-- The processes of an inbox do what is lawful. -/
def Lawful (sha256 : Bytes → String) (s : Inbox) (e : InboxEvent) : Prop :=
  lawful sha256 s e = true

/-- What has been published stays, and nothing else is. -/
structure Later (format : InboxFormat) (sha256 : Bytes → String) (s t : Inbox) : Prop where
  sound : Sound format sha256 t
  kept : Kept s t

theorem Later.refl (hs : Sound format sha256 s) : Later format sha256 s s := ⟨hs, Kept.refl s⟩

theorem Later.trans {u : Inbox} (h : Later format sha256 s t) (h' : Later format sha256 t u) :
    Later format sha256 s u :=
  ⟨h'.sound, h.kept.trans h'.kept⟩

/-- So it is after lawful events. -/
theorem later_of_guarded {l : List InboxEvent} (hs : Sound format sha256 s)
    (h : Guarded (apply format) (Lawful sha256) s l) :
    Later format sha256 s (after (apply format) s l) := by
  refine ⟨h.invariant hs fun _ _ hu he => hu.step he, ?_⟩
  exact (h.strengthen hs fun _ _ hu he => hu.step he).rel Kept.refl (fun _ _ _ => Kept.trans)
    fun _ _ he => he.2.kept he.1

/-- So it is after a lawful procedure. -/
theorem Meets.later {α : Type} {p : InboxProc format α} {Q : Except Error α → Inbox → Prop}
    (h : Meets p s (Lawful sha256) Q) (hs : Sound format sha256 s) :
    Meets p s (Lawful sha256) fun r t => Q r t ∧ Later format sha256 s t :=
  ⟨h.1, h.2, later_of_guarded hs h.1⟩

/-- The other processes go on. -/
theorem ask_quiet (s : Inbox) :
    Meets (ask format sha256 me) s (Quiet sha256 me) fun r _ => ∃ answer, r = .ok answer := by
  have hothers : Guarded (apply format) (Quiet sha256 me) s
      (others format sha256 me s (s.answers 0).meanwhile) :=
    (others_meets s _).mono fun _ _ he => ⟨he.1, fun hme => absurd hme he.2⟩
  unfold ask
  simp only [meets_bind, meets_get, meets_await, meets_emit, meets_pure]
  exact ⟨hothers, ⟨rfl, fun _ => rfl⟩, _, rfl⟩

theorem call_quiet (s : Inbox) :
    Meets (call format sha256 me) s (Quiet sha256 me) fun _ _ => True := by
  refine (ask_quiet s).seq (fun answer t _ => ?_) fun _ _ _ => trivial
  rw [meets_ofExcept]
  trivial

theorem call_meets (s : Inbox) :
    Meets (call format sha256 me) s (Lawful sha256) fun _ _ => True :=
  (call_quiet s).mono (fun _ _ he => he.1) fun _ _ h => h

theorem withContext_meets {α : Type} {p : InboxProc format α} {text : String}
    {G : Inbox → InboxEvent → Prop} {post : α → Inbox → Prop} (h : Meets p s G (OnSuccess post)) :
    Meets (withContext format text p) s G (OnSuccess post) := by
  refine Meets.tried h fun r t hr => ?_
  cases r with
  | ok a =>
    rw [meets_pure]
    exact hr
  | error e =>
    rw [meets_fail, onSuccess_error]
    trivial

/-- A call first. -/
theorem Meets.afterCall {β : Type} {f : Unit → InboxProc format β} {post : β → Inbox → Prop}
    (hs : Sound format sha256 s)
    (hf : ∀ t, Later format sha256 s t → Meets (f ()) t (Lawful sha256) (OnSuccess post)) :
    Meets (call format sha256 me >>= f) s (Lawful sha256) (OnSuccess post) :=
  Meets.bind (M := fun _ t => Later format sha256 s t)
    ((Meets.later (call_meets s) hs).mono (fun _ _ h => h) fun _ _ h _ _ => h.2) fun _ t ht => hf t ht

/-- An answer first. -/
theorem Meets.afterAsk {β : Type} {f : InboxAnswer → InboxProc format β} {post : β → Inbox → Prop}
    (hs : Sound format sha256 s)
    (hf : ∀ answer t, Later format sha256 s t → Meets (f answer) t (Lawful sha256) (OnSuccess post)) :
    Meets (ask format sha256 me >>= f) s (Lawful sha256) (OnSuccess post) :=
  Meets.bind (M := fun _ t => Later format sha256 s t)
    ((Meets.later ((ask_quiet s).mono (fun _ _ he => he.1) fun _ _ h => h) hs).mono
      (fun _ _ h => h) fun _ _ h _ _ => h.2) fun answer t ht => hf answer t ht

/-- A call whose error gets a context first. -/
theorem Meets.afterCallIn {β : Type} {text : String} {f : Unit → InboxProc format β}
    {post : β → Inbox → Prop} (hs : Sound format sha256 s)
    (hf : ∀ t, Later format sha256 s t → Meets (f ()) t (Lawful sha256) (OnSuccess post)) :
    Meets (withContext format text (call format sha256 me) >>= f) s (Lawful sha256)
      (OnSuccess post) :=
  Meets.bind (M := fun _ t => Later format sha256 s t)
    (withContext_meets ((Meets.later (call_meets s) hs).mono (fun _ _ h => h) fun _ _ h _ _ => h.2))
    fun _ t ht => hf t ht

/-- A check whose error gets a context first. -/
theorem Meets.checkIn {α β : Type} {text : String} {x : Except Error α} {f : α → InboxProc format β}
    {G : Inbox → InboxEvent → Prop} {post : β → Inbox → Prop}
    (hf : ∀ a, x = .ok a → Meets (f a) s G (OnSuccess post)) :
    Meets (withContext format text (ofExcept x) >>= f) s G (OnSuccess post) := by
  refine Meets.bind (M := fun a t => x = .ok a ∧ t = s) (withContext_meets ?_) ?_
  · rw [meets_ofExcept]
    exact fun a ha => ⟨ha, rfl⟩
  · rintro a t ⟨hx, rfl⟩
    exact hf a hx

theorem readable_ok {path : String} {limit : Nat} {file : InboxFile} {raw : Bytes}
    (h : readable path limit file = .ok raw) : raw.length ≤ limit ∧
      ((∃ writer, file = .regular writer raw) ∨ ∃ inside content, file = .link inside content) := by
  unfold readable at h
  split at h
  · simp only [bind_eq_ok, ensure_eq_ok, decide_eq_true_eq, pure_eq_ok] at h
    obtain ⟨_, hlength, rfl⟩ := h
    exact ⟨hlength, .inl ⟨_, rfl⟩⟩
  · simp only [bind_eq_ok, ensure_eq_ok, decide_eq_true_eq, pure_eq_ok] at h
    obtain ⟨_, hlength, rfl⟩ := h
    exact ⟨hlength, .inr ⟨_, _, rfl⟩⟩
  · contradiction
  · contradiction
  · contradiction

/-- What a reading of the marker of an identity says. -/
def AckRead (format : InboxFormat) (s t : Inbox) (id : String) : Option AckMarker → Prop
  | none => ¬s.Marked id
  | some m => ∃ writer content, t.entry .acks (manifestName id) = some (.regular writer content) ∧
      format.parseMarker content = .ok m

theorem not_marked_of_entry {id : String} (h : s.entry .acks (manifestName id) = none) :
    ¬s.Marked id := by
  rintro ⟨writer, content, hentry⟩
  rw [h] at hentry
  contradiction

theorem readAck_meets (hs : Sound format sha256 s) (id : String) :
    Meets (readAck format sha256 inboxDir me id) s (Lawful sha256) (OnSuccess fun r t =>
      Later format sha256 s t ∧ AckRead format s t id r) := by
  have hmissing : ∀ u, Later format sha256 s u → u.entry .acks (manifestName id) = none →
      Meets (return none : InboxProc format (Option AckMarker)) u (Lawful sha256)
        (OnSuccess fun r t => Later format sha256 s t ∧ AckRead format s t id r) := by
    intro u hu hnone
    rw [meets_pure, onSuccess_ok]
    exact ⟨hu, fun hmarked => not_marked_of_entry hnone (hu.kept.marked hmarked)⟩
  unfold readAck
  refine Meets.afterCallIn hs fun u hu => Meets.read ?_
  split
  · rename_i hacks
    exact hmissing u hu (entry_of_not_present (by rw [present, hacks]))
  · rw [meets_fail, onSuccess_error]
    trivial
  · refine Meets.afterCallIn hu.sound fun v hv => Meets.read ?_
    split
    · rename_i hnone
      exact hmissing v (hu.trans hv) hnone
    · rw [meets_fail, onSuccess_error]
      trivial
    · rw [meets_fail, onSuccess_error]
      trivial
    all_goals
      refine Meets.afterCallIn hv.sound fun w hw => Meets.read ?_
      split
      · rename_i hnone
        exact hmissing w ((hu.trans hv).trans hw) hnone
      · rename_i file hentry
        refine Meets.checkIn fun raw hraw => Meets.checkIn fun marker hmarker => ?_
        rw [meets_pure, onSuccess_ok]
        obtain ⟨-, ⟨writer, rfl⟩ | ⟨inside, content, rfl⟩⟩ := readable_ok hraw
        · exact ⟨(hu.trans hv).trans hw, writer, raw, hentry, hmarker⟩
        · rcases hw.sound.acks _ _ hentry with ⟨hfile, -⟩ | ⟨_, _, -, -, hfile⟩
          · contradiction
          · contradiction

/-- What a reading of a manifest says. -/
structure ManifestRead (format : InboxFormat) (s : Inbox) (maxFileSize : Nat) (name : String)
    (d : Delivery) : Prop where
  entry : ∃ writer content, s.entry .inbox name = some (.regular writer content) ∧
    content.length ≤ maxManifestSizeBytes ∧ format.parseManifest content = .ok d
  valid : validateDeliveryMetadata d maxFileSize = .ok ()
  payload : d.payload ≠ ""

theorem ManifestRead.kept {maxFileSize : Nat} {name : String} {d : Delivery}
    (h : ManifestRead format s maxFileSize name d) (hkept : Kept s t) :
    ManifestRead format t maxFileSize name d where
  entry := by
    obtain ⟨writer, content, hentry, hrest⟩ := h.entry
    exact ⟨writer, content, hkept.file _ _ _ _ hentry, hrest⟩
  valid := h.valid
  payload := h.payload

/-- A manifest describes one delivery. -/
theorem ManifestRead.unique {maxFileSize maxFileSize' : Nat} {name : String} {d d' : Delivery}
    (h : ManifestRead format s maxFileSize name d)
    (h' : ManifestRead format s maxFileSize' name d') : d = d' := by
  obtain ⟨writer, content, hentry, -, hparse⟩ := h.entry
  obtain ⟨writer', content', hentry', -, hparse'⟩ := h'.entry
  rw [hentry] at hentry'
  cases Option.some.inj hentry'
  rw [hparse] at hparse'
  exact Except.ok.inj hparse'

theorem readManifest_meets (hs : Sound format sha256 s) (maxFileSize : Nat) (name : String) :
    Meets (readManifest format sha256 inboxDir me maxFileSize name) s (Lawful sha256)
      (OnSuccess fun d t => Later format sha256 s t ∧ ManifestRead format t maxFileSize name d) := by
  unfold readManifest
  refine Meets.bind (M := fun raw t => Later format sha256 s t ∧ raw.length ≤ maxManifestSizeBytes ∧
    ∃ writer, t.entry .inbox name = some (.regular writer raw)) (withContext_meets ?_) ?_
  · refine Meets.afterCall hs fun u hu => Meets.read ?_
    split
    · rename_i file hentry
      rw [meets_ofExcept]
      intro raw hraw
      obtain ⟨hlength, ⟨writer, rfl⟩ | ⟨inside, content, rfl⟩⟩ := readable_ok hraw
      · exact ⟨hu, hlength, writer, hentry⟩
      · rcases hu.sound.inbox _ _ hentry with ⟨hfile, -⟩ | ⟨_, _, _, -, -, hfile⟩ | ⟨_, _, _, -, -, hfile⟩
        · contradiction
        · contradiction
        · contradiction
    · rw [meets_fail, onSuccess_error]
      trivial
  · rintro raw u ⟨hu, hlength, writer, hentry⟩
    refine Meets.checkIn fun d hparse => Meets.check fun _ hvalid => Meets.check fun _ hpayload => ?_
    rw [meets_pure, onSuccess_ok]
    rw [ensure_eq_ok, decide_eq_true_eq] at hpayload
    exact ⟨hu, ⟨writer, raw, hentry, hlength, hparse⟩, hvalid, hpayload⟩

/-- What a procedure that publishes nothing leaves as it is. -/
theorem Meets.quietly {α : Type} {p : InboxProc format α} {Q : Except Error α → Inbox → Prop}
    {I : Inbox → Prop} (h : Meets p s (Quiet sha256 me) Q) (hs : Sound format sha256 s) (hI : I s)
    (hstep : ∀ u e, Sound format sha256 u → I u → Quiet sha256 me u e → I (apply format u e)) :
    Meets p s (Lawful sha256) fun r t => Q r t ∧ Sound format sha256 t ∧ I t :=
  (h.keeps (I := fun t => Sound format sha256 t ∧ I t) ⟨hs, hI⟩ fun u e hu he =>
    ⟨hu.1.step he.1, hstep u e hu.1 hu.2 he⟩).mono (fun _ _ he => he.1) fun _ _ hr => hr

theorem dropTemporary_quiet (s : Inbox) (place : InboxPlace) (name : String) :
    Meets (dropTemporary format sha256 me place name) s (Quiet sha256 me) fun r _ => r = .ok () := by
  refine Meets.tried (call_quiet s) fun dropped t _ => Meets.read ?_
  split
  · rename_i htemporary
    rw [meets_emit]
    refine ⟨⟨?_, fun _ => rfl⟩, rfl⟩
    simp only [lawful, htemporary]
  · rw [meets_pure]

/-- A temporary file before and after the work: what holds before the work and after it is not
changed by what others do nor by the temporary file. -/
theorem withTemporary_meets {α : Type} {place : InboxPlace} {work : String → InboxProc format α}
    {I : Inbox → Prop} {post : α → Inbox → Prop} (hs : Sound format sha256 s) (h : I s)
    (hI : ∀ u e, Sound format sha256 u → I u → Quiet sha256 me u e → I (apply format u e))
    (hwork : ∀ u name, Sound format sha256 u → I u → isTemporaryName name = true →
      Meets (work name) u (Lawful sha256) (OnSuccess post))
    (hpost : ∀ a u e, Sound format sha256 u → post a u → Quiet sha256 me u e →
      post a (apply format u e)) :
    Meets (withTemporary format sha256 me place work) s (Lawful sha256) (OnSuccess post) := by
  unfold withTemporary
  refine (Meets.quietly (ask_quiet s) hs h hI).seq (fun answer u hu => ?_) fun _ _ _ => by
    rw [onSuccess_error]
    trivial
  obtain ⟨-, hu, hIu⟩ := hu
  refine Meets.check fun _ _ => Meets.read (Meets.check fun _ hfree => ?_)
  rw [ensure_eq_ok, Bool.and_eq_true] at hfree
  have hname := isTemporaryName_temporaryName answer.name
  have hbegan : lawful sha256 u ⟨me, .began place (temporaryName answer.name)⟩ = true := by
    rw [lawful, Bool.and_eq_true, Bool.and_eq_true]
    exact ⟨hfree, hname⟩
  refine Meets.step hbegan ?_
  have hv := hu.step hbegan
  refine Meets.tried (Meets.later (hwork _ _ hv (hI _ _ hu hIu ⟨hbegan, fun _ => rfl⟩) hname) hv) ?_
  rintro r w ⟨hr, hw⟩
  refine (Meets.quietly (I := fun v => OnSuccess (ε := Error) post r v)
    (dropTemporary_quiet w place _) hw.sound hr fun v e hv hpostv he a ha =>
      hpost a v e hv (hpostv a ha) he).seq (fun _ v hv' => ?_) fun _ _ _ => by
    rw [onSuccess_error]
    trivial
  rw [meets_ofExcept]
  exact hv'.2.2

end FilesystemSource

end MiRelay
