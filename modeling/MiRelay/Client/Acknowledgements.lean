import MiRelay.Client.SyncRuns

/-!
# Acknowledgements follow the record and the file

Whatever fails and wherever runs are cut off, the source is told of a delivery
only when the state file has its record and the file was read or stored in the
same run, and an acknowledged record stays acknowledged with its digest.
-/

namespace MiRelay

/-- The run that took the last of these steps has read or stored the file of a record: no state was
loaded after it. -/
def ReadInRun (steps : List SyncStep) (r : DeliveryRecord) : Prop :=
  ∃ earlier run found, steps = earlier ++ run ∧ SyncStep.load ∉ run ∧
    (SyncStep.verified r.storedPath found ∈ run ∨ SyncStep.received r.storedPath found ∈ run) ∧
    found.size = r.size ∧ found.sha256 = r.sha256 ∧ found.mediaType = r.mediaType

/-- The files a run has seen are those of the steps since the state was loaded. -/
theorem mem_checked {s : Session} {steps : List SyncStep} {path : String} {found : FileInspection}
    (h : (path, found) ∈ (after Session.apply s steps).core.checked) :
    ((path, found) ∈ s.core.checked ∧ SyncStep.load ∉ steps) ∨
      ∃ earlier run, steps = earlier ++ run ∧ SyncStep.load ∉ run ∧
        (SyncStep.verified path found ∈ run ∨ SyncStep.received path found ∈ run) := by
  induction steps generalizing s with
  | nil => exact .inl ⟨h, List.not_mem_nil⟩
  | cons e steps ih =>
    rw [after_cons] at h
    rcases ih h with ⟨hseen, hload⟩ | ⟨earlier, run, rfl, hload, hin⟩
    · by_cases he : e = .load
      · subst he
        have hnone : (path, found) ∈ ([] : List (String × FileInspection)) := hseen
        contradiction
      have hnoload : SyncStep.load ∉ e :: steps := fun hin => by
        rcases List.mem_cons.mp hin with heq | hin
        · exact he heq.symm
        · exact hload hin
      -- Any other step keeps what was seen, and may add a file.
      have hcase : (path, found) ∈ s.core.checked ∨ e = .verified path found ∨
          e = .received path found := by
        cases e with
        | load => exact absurd rfl he
        | verified path' found' =>
          rcases List.mem_cons.mp hseen with heq | hold
          · cases heq
            exact .inr (.inl rfl)
          · exact .inl hold
        | received path' found' =>
          rcases List.mem_cons.mp hseen with heq | hold
          · cases heq
            exact .inr (.inr rfl)
          · exact .inl hold
        | _ => exact .inl hseen
      rcases hcase with hold | rfl | rfl
      · exact .inl ⟨hold, hnoload⟩
      · exact .inr ⟨[], _, rfl, hnoload, .inl (List.mem_cons_self ..)⟩
      · exact .inr ⟨[], _, rfl, hnoload, .inr (List.mem_cons_self ..)⟩
    · exact .inr ⟨e :: earlier, run, rfl, hload, hin⟩

theorem readInRun_of_describes {answers : Nat → Answer} {steps : List SyncStep} {r : DeliveryRecord}
    (h : r.Describes (after Session.apply (Session.initial answers) steps).core.checked) :
    ReadInRun steps r := by
  obtain ⟨found, hmem, hsize, hsha, hmedia⟩ := h
  rcases mem_checked hmem with ⟨hnone, -⟩ | ⟨earlier, run, hsteps, hload, hin⟩
  · have hnone : (r.storedPath, found) ∈ ([] : List (String × FileInspection)) := hnone
    contradiction
  · exact ⟨earlier, run, found, hsteps, hload, hin, hsize, hsha, hmedia⟩

section Persisted

variable {distinct : Prop} {s : Session} {steps : List SyncStep}

/-- The state file only ever gets later records of the deliveries it has. -/
theorem disk_covers (h : Guarded Session.apply (fun s e => s.core.Permitted distinct e) s steps) :
    Records.Covers s.core.disk (after Session.apply s steps).core.disk := by
  refine h.rel (R := fun s s' => Records.Covers s.core.disk s'.core.disk)
    (fun s => .refl _) (fun s t u hst htu id r hr => ?_) fun s e he => ?_
  · obtain ⟨r', hr', hextends⟩ := hst id r hr
    obtain ⟨r'', hr'', hextends'⟩ := htu id r' hr'
    exact ⟨r'', hr'', hextends.trans hextends'⟩
  · cases e with
    | persist => exact he
    | _ => exact .refl _

/-- Later acknowledgements name the digest of the record. -/
theorem acknowledge_digest (hdistinct : distinct)
    (h : Guarded Session.apply (fun s e => s.core.Permitted distinct e) s steps) {id digest : String}
    {r : DeliveryRecord} (hr : s.core.disk.lookup id = some r)
    (hin : SyncStep.acknowledge id digest ∈ steps) : digest = r.sha256 := by
  obtain ⟨pre, post, rfl⟩ := List.append_of_mem hin
  have hpermitted := Session.permitted_at h
  rw [guarded_append] at h
  obtain ⟨r', hr', hsha, -⟩ := hpermitted hdistinct
  obtain ⟨r'', hr'', hextends⟩ := disk_covers h.1 id r hr
  rw [hr'] at hr''
  cases Option.some.inj hr''
  rw [← hsha, hextends.sha256]

end Persisted

/-- Runs that never list a delivery twice acknowledge only what is recorded and was read, and an
acknowledged record stays as it is. -/
theorem acknowledge_after_record {answers : Nat → Answer} (hlisted : (Session.initial answers).Listed)
    (sha256 : Bytes → String) (runs : List SyncRun) :
    (∀ pre post id digest,
      (Session.initial answers).trace sha256 runs = pre ++ .acknowledge id digest :: post →
        ∃ r, (after Session.apply (Session.initial answers) pre).core.disk.lookup id = some r ∧
          r.sha256 = digest ∧ ReadInRun pre r) ∧
    ∀ pre post, (Session.initial answers).trace sha256 runs = pre ++ post → ∀ id r,
      (after Session.apply (Session.initial answers) pre).core.disk.lookup id = some r →
        r.deliveryStatus = .acknowledged →
          (∃ r', ((Session.initial answers).run sha256 runs).core.disk.lookup id = some r' ∧
            r'.deliveryStatus = .acknowledged ∧ r'.sha256 = r.sha256) ∧
          ∀ digest, SyncStep.acknowledge id digest ∈ post → digest = r.sha256 := by
  have htrace : Guarded Session.apply (fun s e => s.core.Permitted True e) (Session.initial answers)
      ((Session.initial answers).trace sha256 runs) :=
    Session.trace_permitted runs (Session.initial_sound answers) fun _ => hlisted
  constructor
  · intro pre post id digest hsplit
    rw [hsplit] at htrace
    obtain ⟨r, hr, hsha, hdescribes⟩ := Session.permitted_at htrace trivial
    exact ⟨r, hr, hsha, readInRun_of_describes hdescribes⟩
  · intro pre post hsplit id r hr hacknowledged
    rw [hsplit, guarded_append] at htrace
    refine ⟨?_, fun digest hin => acknowledge_digest trivial htrace.2 hr hin⟩
    obtain ⟨r', hr', hextends⟩ := disk_covers htrace.2 id r hr
    refine ⟨r', ?_, hextends.acknowledged hacknowledged, hextends.sha256⟩
    rw [Session.run, hsplit, after_append]
    exact hr'

/-- Two runs list the image; the second finds it damaged and receives it again. -/
def damagedAnswers (n : Nat) : Answer :=
  { successful [imageDelivery] with content := if n = 13 then .ok [] else .ok sampleImage }

/-- Two runs without a wallpaper command. -/
def twoRuns : List SyncRun := [⟨sampleConfig [], none, none⟩, ⟨sampleConfig [], none, none⟩]

theorem listed_damagedAnswers : (Session.initial damagedAnswers).Listed := by
  intro n scan hscan
  cases Except.ok.inj hscan
  exact List.nodup_singleton _

/-- The repaired delivery is acknowledged again. -/
theorem acknowledge_after_record_damagedFile :
    ((Session.initial damagedAnswers).trace imageDigest twoRuns).count
        (.acknowledge "first" (imageDigest sampleImage)) = 2 ∧
      ∀ pre post id digest, (Session.initial damagedAnswers).trace imageDigest twoRuns =
          pre ++ .acknowledge id digest :: post →
        ∃ r, (after Session.apply (Session.initial damagedAnswers) pre).core.disk.lookup id = some r ∧
          r.sha256 = digest ∧ ReadInRun pre r :=
  ⟨by decide +kernel, (acknowledge_after_record listed_damagedAnswers imageDigest twoRuns).1⟩

/-- A run that lists one delivery twice, whose first save fails. -/
def failedSave (n : Nat) : Answer :=
  { successful [imageDelivery, imageDelivery] with
    saved := if n = 5 then .failed (.message "disk full") else .saved }

/-- The second listing is acknowledged although no record was persisted. -/
theorem repeatedListing_acknowledges :
    let steps := (Session.initial failedSave).trace imageDigest [⟨sampleConfig [], none, none⟩]
    steps[11]? = some (.acknowledge "first" (imageDigest sampleImage)) ∧
      (after Session.apply (Session.initial failedSave) (steps.take 11)).core.disk.lookup "first" =
        none := by
  decide +kernel

end MiRelay
