import MiRelay.Storage.CalmRuns

/-!
# Receiving is all or nothing

Wherever a run of `receive` ends, the objects that were there are as they were and at
most the whole declared object has come. An unobstructed run succeeds exactly on the
declared content, and repeating it changes nothing. What a run leaves in the staging
directory is what the next cleanup removes.
-/

namespace MiRelay

namespace Storage

open Proc

section Whole

variable {sha256 : Bytes → String} {hasher : Hasher sha256} {maxFileSize : Nat}
  {delivery : Delivery} {reads : List ReadStep} {libraryDir : String} {s t : LibraryState}
  {asset : StoredAsset}

/-- The objects of a library wherever a run of `receive` is cut off. -/
theorem receive_grown (hmax : maxFileSize < 2 ^ 64) (k : Nat) :
    Grown s.answers (shardOf delivery.sha256) (declaredName delivery)
      (Declared sha256 delivery maxFileSize reads) s
        ((receive hasher delivery reads libraryDir maxFileSize).cut s k) :=
  (receive_meets hmax).cut Grown.refl (fun _ _ h hstep => h.receives hstep) k

/-- What a run of `receive` has come to in the end. -/
theorem receive_grown_final (hmax : maxFileSize < 2 ^ 64) :
    Grown s.answers (shardOf delivery.sha256) (declaredName delivery)
      (Declared sha256 delivery maxFileSize reads) s
        ((receive hasher delivery reads libraryDir maxFileSize).final s) :=
  ((receive_meets hmax).keeps Grown.refl fun _ _ h hstep => h.receives hstep).2.2

/-- The files of its staging directory. -/
theorem receive_staged (hmax : maxFileSize < 2 ^ 64) (k : Nat) :
    Staged isLeftover s ((receive hasher delivery reads libraryDir maxFileSize).cut s k) := by
  cases hvalid : validateDeliveryMetadata delivery maxFileSize with
  | error e =>
    have hnone : (receive hasher delivery reads libraryDir maxFileSize s).events = [] := by
      rw [receive, hvalid]
      exact events_bind_error (e := e) rfl
    rw [cut, hnone, List.take_nil, after_nil]
    exact Staged.refl
  | ok u =>
    have hshard := shardOf_ne_stagingDirName (validateDeliveryMetadata_ok hvalid).2.2.1
    have hrun : Meets (receive hasher delivery reads libraryDir maxFileSize) s _ _ :=
      receive_meets hmax
    exact hrun.cut Staged.refl (fun _ _ h hstep => h.next (hstep.handled hshard)) k

/-- A cleanup wherever it is cut off. -/
theorem cleanupStaging_cut (k : Nat) :
    (∀ d n, d ≠ stagingDirName → (cleanupStaging.cut s k).entry d n = s.entry d n) ∧
      Staged (sweeps s) s (cleanupStaging.cut s k) := by
  have hrun : Meets cleanupStaging s (Prepares s.answers (sweeps s)) _ := cleanupStaging_meets
  exact ⟨hrun.cut (I := fun t => ∀ d n, d ≠ stagingDirName → t.entry d n = s.entry d n)
    (fun _ _ _ => rfl) (fun t step ht hstep d n hd => (hstep.entry_of_ne hd).trans (ht d n hd)) k,
    hrun.cut Staged.refl (fun _ _ h hstep => h.next hstep.handled) k⟩

/-- A cleanup in the end. -/
theorem cleanupStaging_final : Staged (sweeps s) s (cleanupStaging.final s) :=
  (cleanupStaging_meets.keeps Staged.refl fun _ _ h hstep => h.next hstep.handled).2.2

/-- The entries are those of the directories. -/
theorem LibraryState.entry_congr (h : t.nodes = s.nodes) (d n : String) :
    t.entry d n = s.entry d n := by
  unfold LibraryState.entry LibraryState.entries
  rw [h]

/-- After a cleanup nothing is left of a run but a marker, unless a temporary marker was in its
way. -/
theorem left_after_cleanup (hstaged : Staged isLeftover s t) {removed : Nat}
    (h : (cleanupStaging t).result = .ok removed) {n : String} {e : Entry}
    (he : (cleanupStaging.final t).entry stagingDirName n = some e) :
    s.entry stagingDirName n = some e ∨ n = stagingOwnerFile ∨ isOwnerTemp n = true := by
  have hkept : isOwnedTemporary n = true → e.removable = false :=
    cleanupStaging_meets.2 removed h n e he
  have htemp (hleft : isOwnedTemporary n = true ∨ isOwnerTemp n = true)
      (hremovable : e.removable = true) : isOwnerTemp n = true :=
    hleft.resolve_left fun howned => by
      rw [hkept howned] at hremovable
      contradiction
  rcases cleanupStaging_final.1 n e he with ht | howner | ⟨hname, hremovable⟩
  · rcases hstaged.1 n e ht with hs | howner | ⟨hname, hremovable⟩
    · exact Or.inl hs
    · exact Or.inr (Or.inl howner)
    · rw [isLeftover, Bool.or_eq_true] at hname
      exact Or.inr (Or.inr (htemp hname hremovable))
  · exact Or.inr (Or.inl howner)
  · rw [sweeps, Bool.or_eq_true, Bool.and_eq_true] at hname
    exact Or.inr (Or.inr (htemp (hname.imp_right And.left) hremovable))

/-- Where the declared object is, nothing comes outside the staging directory. -/
theorem receive_frame {e : Entry}
    (he : t.entry (shardOf delivery.sha256) (declaredName delivery) = some e) {u : LibraryState}
    (hgrown : Grown t.answers (shardOf delivery.sha256) (declaredName delivery)
      (Declared sha256 delivery maxFileSize reads) t u) (d n : String) (hd : d ≠ stagingDirName) :
    u.entry d n = t.entry d n := by
  rcases hgrown d n hd with hsame | ⟨rfl, rfl, hnone, -⟩
  · exact hsame
  · exact absurd (hnone.symm.trans he) (by simp)

end Whole

/-- Receiving is all or nothing, and idempotent. A success means that the descriptor is valid and
the stream the declared content within the limit, and the object is at its place; on these, an
unobstructed run succeeds. Wherever a run ends, the objects that were there are as they were, at
most the whole declared object has come, and after an error it has only if the error is that of a
call. Repeating a success changes no object, and nothing at all if nothing is in the way. What a run
leaves in the staging directory has a name that the next cleanup removes, and a cleanup removes
nothing else. -/
theorem receive_all_or_nothing {sha256 : Bytes → String} (hasher : Hasher sha256)
    (maxFileSize : Fin (2 ^ 64)) (delivery : Delivery) (reads : List ReadStep) (libraryDir : String)
    (s : LibraryState) :
    (∀ asset, (receive hasher delivery reads libraryDir maxFileSize s).result = .ok asset →
      validateDeliveryMetadata delivery maxFileSize = .ok () ∧
      asset = declaredAsset libraryDir delivery ∧
      ∃ bytes content, Declared sha256 delivery maxFileSize reads bytes ∧
        ((receive hasher delivery reads libraryDir maxFileSize).final s).contents
          (shardOf delivery.sha256) (declaredName delivery) = some content ∧
        inspection sha256 content = inspection sha256 bytes ∧
        (s.entry (shardOf delivery.sha256) (declaredName delivery) = none →
          (∀ n, (s.answers n).appears = none) → content = bytes)) ∧
    (∀ bytes, validateDeliveryMetadata delivery maxFileSize = .ok () →
      Declared sha256 delivery maxFileSize reads bytes →
      Unobstructed (Reads sha256 bytes) delivery s →
      (∀ e, s.entry (shardOf delivery.sha256) (declaredName delivery) = some e →
        Reads sha256 bytes e) →
      (receive hasher delivery reads libraryDir maxFileSize s).result =
          .ok (declaredAsset libraryDir delivery) ∧
        ((receive hasher delivery reads libraryDir maxFileSize).final s).entry stagingDirName
          stagingOwnerFile = some marker) ∧
    (∀ k, Grown s.answers (shardOf delivery.sha256) (declaredName delivery)
      (Declared sha256 delivery maxFileSize reads) s
        ((receive hasher delivery reads libraryDir maxFileSize).cut s k)) ∧
    (∀ e, (receive hasher delivery reads libraryDir maxFileSize s).result = .error e →
      ((receive hasher delivery reads libraryDir maxFileSize).final s).entry
          (shardOf delivery.sha256) (declaredName delivery) =
        s.entry (shardOf delivery.sha256) (declaredName delivery) ∨
      (∃ n, (s.answers n).appears =
        ((receive hasher delivery reads libraryDir maxFileSize).final s).entry
          (shardOf delivery.sha256) (declaredName delivery)) ∨
      ∃ n, (s.answers n).done = .error e) ∧
    (∀ asset, (receive hasher delivery reads libraryDir maxFileSize s).result = .ok asset →
      ∀ t : LibraryState,
        t.nodes = ((receive hasher delivery reads libraryDir maxFileSize).final s).nodes →
        (∀ k d n, d ≠ stagingDirName →
          ((receive hasher delivery reads libraryDir maxFileSize).cut t k).entry d n =
            t.entry d n) ∧
        (Unobstructed (fun _ => False) delivery t →
          (receive hasher delivery reads libraryDir maxFileSize t).result = .ok asset ∧
          (t.entry stagingDirName stagingOwnerFile = some marker →
            ∀ d n, ((receive hasher delivery reads libraryDir maxFileSize).final t).entry d n =
              t.entry d n))) ∧
    (∀ k, Staged isLeftover s ((receive hasher delivery reads libraryDir maxFileSize).cut s k) ∧
      ∀ t : LibraryState,
        t.nodes = ((receive hasher delivery reads libraryDir maxFileSize).cut s k).nodes →
        ∀ removed, (cleanupStaging t).result = .ok removed →
        ∀ n e, (cleanupStaging.final t).entry stagingDirName n = some e →
          s.entry stagingDirName n = some e ∨ n = stagingOwnerFile ∨ isOwnerTemp n = true) ∧
    ∀ t : LibraryState,
      (∀ k, (∀ d n, d ≠ stagingDirName → (cleanupStaging.cut t k).entry d n = t.entry d n) ∧
        Staged (sweeps t) t (cleanupStaging.cut t k)) ∧
      (∀ removed, (cleanupStaging t).result = .ok removed →
        ∀ n e, (cleanupStaging.final t).entry stagingDirName n = some e →
          isOwnedTemporary n = true → e.removable = false) ∧
      (Calm (fun _ => False) [stagingDirName] t → StagingReady t →
        (∃ removed, (cleanupStaging t).result = .ok removed) ∧
        ∀ n e, (cleanupStaging.final t).entry stagingDirName n = some e →
          n = stagingOwnerFile ∨ (t.entry stagingDirName stagingOwnerFile = some marker ∧
            t.entry stagingDirName n = some e)) := by
  have hmax : maxFileSize.val < 2 ^ 64 := maxFileSize.isLt
  have hrun (t : LibraryState) :
      Meets (receive hasher delivery reads libraryDir maxFileSize) t _ _ := receive_meets hmax
  have hstored {asset : StoredAsset}
      (h : (receive hasher delivery reads libraryDir maxFileSize s).result = .ok asset) :
      ∃ bytes content e, Declared sha256 delivery maxFileSize reads bytes ∧
        ((receive hasher delivery reads libraryDir maxFileSize).final s).entry
          (shardOf delivery.sha256) (declaredName delivery) = some e ∧
        e.contents = some content ∧ inspection sha256 content = inspection sha256 bytes := by
    obtain ⟨-, bytes, content, hdeclared, hcontent, hread⟩ := (hrun s).2.1 asset h
    obtain ⟨e, he, hcontent⟩ := Option.bind_eq_some_iff.mp hcontent
    exact ⟨bytes, content, e, hdeclared, he, hcontent, hread⟩
  refine ⟨fun asset h => ?_, fun bytes hvalid hdeclared hs hplace => ?_, receive_grown hmax,
    fun e h => (hrun s).2.2 e h, fun asset h t ht => ⟨fun k d n hd => ?_, fun hclear => ?_⟩,
    fun k => ⟨receive_staged hmax k, fun t ht removed h n e he => ?_⟩,
    fun t => ⟨cleanupStaging_cut, fun removed h => ?_, fun hcalm hready => ?_⟩⟩
  · have hvalid := valid_of_receive h
    obtain ⟨hasset, -⟩ := (hrun s).2.1 asset h
    obtain ⟨bytes, content, e, hdeclared, he, hcontent, hread⟩ := hstored h
    refine ⟨hvalid, hasset, bytes, content, hdeclared, ?_, hread, fun hnone hquiet => ?_⟩
    · rw [LibraryState.contents, he]
      exact hcontent
    · have hne := shardOf_ne_stagingDirName (validateDeliveryMetadata_ok hvalid).2.2.1
      rcases receive_grown_final hmax _ _ hne with hsame | ⟨-, -, -, e', he', hnew⟩
      · rw [he, hnone] at hsame
        contradiction
      · rw [he, Option.some.injEq] at he'
        subst he'
        rcases hnew with ⟨bytes', hdeclared', rfl⟩ | ⟨m, hm⟩
        · rw [Entry.contents, Option.some.injEq] at hcontent
          rw [← hcontent]
          exact Option.some.inj (hdeclared'.stream.symm.trans hdeclared.stream)
        · exact absurd ((hquiet m).symm.trans hm) (by simp)
  · have hsucceeds : Succeeds (receive hasher delivery reads libraryDir maxFileSize) s _ :=
      receive_succeeds_of_unobstructed hmax hvalid hdeclared hs hplace fun _ h => h
    obtain ⟨-, asset, hresult, rfl, hmarker, -⟩ := hsucceeds
    exact ⟨hresult, hmarker⟩
  · obtain ⟨_, _, e, -, he, -⟩ := hstored h
    exact receive_frame ((LibraryState.entry_congr ht _ _).trans he) (receive_grown hmax k) d n hd
  · obtain ⟨bytes, content, e, hdeclared, he, hcontent, hread⟩ := hstored h
    have hthere := (LibraryState.entry_congr ht _ _).trans he
    have hplace (e' : Entry) (he' : t.entry (shardOf delivery.sha256) (declaredName delivery) =
        some e') : Reads sha256 bytes e' := by
      rw [hthere, Option.some.injEq] at he'
      exact ⟨content, he' ▸ hcontent, hread⟩
    have hsucceeds : Succeeds (receive hasher delivery reads libraryDir maxFileSize) t _ :=
      receive_succeeds_of_unobstructed hmax (valid_of_receive h) hdeclared hclear hplace
        fun _ h => h.elim
    obtain ⟨-, asset', hresult, rfl, -, hstaging⟩ := hsucceeds
    refine ⟨hresult.trans (congrArg _ ((hrun s).2.1 asset h).1.symm), fun hmarker d n => ?_⟩
    by_cases hd : d = stagingDirName
    · rw [hd]
      exact hstaging hmarker n
    · exact receive_frame hthere (receive_grown_final hmax) d n hd
  · have hstaged : Staged isLeftover s
        ((receive hasher delivery reads libraryDir maxFileSize).cut s k) := receive_staged hmax k
    exact left_after_cleanup ⟨fun n e he => hstaged.1 n e
      ((LibraryState.entry_congr ht _ _).symm.trans he), fun n e he =>
        (LibraryState.entry_congr ht _ _).symm ▸ hstaged.2 n e he⟩ h he
  · exact cleanupStaging_meets.2 removed h
  · obtain ⟨-, removed, hresult, hleft⟩ :=
      cleanupStaging_succeeds hcalm (by simp) hready (Or.inr fun _ h => h)
    exact ⟨⟨removed, hresult⟩, fun n e he => (hleft n e he).imp_right fun h => ⟨h.1, h.2.1⟩⟩

/-- A digest of zeros. -/
def zeros : String := "0000000000000000000000000000000000000000000000000000000000000000"

/-- The delivery of one byte of text. -/
def noteDelivery (originalName : String) : Delivery where
  schemaVersion := 1
  id := "3f2504e0-4f89-41d3-9a0c-0305e82c3301"
  originalName := originalName
  payload := ""
  size := 1
  sha256 := zeros
  mediaType := "text/plain"
  createdAtUnix := none

/-- A library in which at most one call fails. -/
def libraryOf (nodes : Files String Node) (failing : Option Nat) : LibraryState where
  nodes := nodes
  answers n :=
    ⟨if some n = failing then .error (.message "input/output error") else .ok (), "x", none⟩

/-- A staging directory with these entries. -/
def stagingOf (entries : List (String × Entry)) : Files String Node :=
  (∅ : Files String Node).insert stagingDirName
    (.directory (Files.insertAll ∅ (·.1) (·.2) entries))

/-- A run of `receive` on one byte of text. -/
def receiveNote (originalName : String) : LibraryProc StoredAsset :=
  receive (Hasher.whole fun _ => zeros) (noteDelivery originalName) [.good [104]] "" 10

/-- The declared content is not always stored: not for a descriptor without a name, although nothing
is in the way, and not in a library with a foreign staging directory. A failure may leave the new
object there, when only the last synchronization of its shard failed. And a cleanup removes what
a quarantine has put into staging. -/
theorem receive_refuses_declared :
    (Declared (fun _ => zeros) (noteDelivery "") 10 [.good [104]] [104] ∧
      Unobstructed (fun _ => False) (noteDelivery "") (libraryOf ∅ none) ∧
      (receiveNote "" (libraryOf ∅ none)).result.isOk = false) ∧
    (Declared (fun _ => zeros) (noteDelivery "note.txt") 10 [.good [104]] [104] ∧
      (receiveNote "note.txt" (libraryOf (stagingOf [("photo.png", .file [1])]) none)).result.isOk =
        false) ∧
    ((receiveNote "note.txt" (libraryOf ∅ (some 25))).result.isOk = false ∧
      ((libraryOf ∅ (some 25)).entry (shardOf zeros) (declaredName (noteDelivery "note.txt"))).isSome =
        false ∧
      (((receiveNote "note.txt").final (libraryOf ∅ (some 25))).entry (shardOf zeros)
        (declaredName (noteDelivery "note.txt"))).isSome = true) ∧
    ((libraryOf (stagingOf [(".owner", marker), ("mirelay-repair-1.part", .file [1])]) none).entry
        stagingDirName "mirelay-repair-1.part").isSome = true ∧
      ((cleanupStaging.final (libraryOf (stagingOf [(".owner", marker),
        ("mirelay-repair-1.part", .file [1])]) none)).entry stagingDirName
          "mirelay-repair-1.part").isSome = false := by
  have hdeclared (originalName : String) :
      Declared (fun _ => zeros) (noteDelivery originalName) 10 [.good [104]] [104] :=
    ⟨rfl, rfl, rfl, (by decide : (mediaOf [104]).1 = "text/plain"), by decide⟩
  refine ⟨⟨hdeclared "", ⟨⟨fun _ => rfl, fun _ _ h => (nomatch h), fun _ _ => by simp [libraryOf]⟩,
    Or.inr fun _ _ h => (nomatch h), Or.inr fun _ => rfl, fun _ => rfl⟩, by decide⟩,
    ⟨hdeclared "note.txt", by decide⟩, ⟨by decide +kernel, by decide +kernel,
      by decide⟩, by decide +kernel, by decide +kernel⟩

end Storage

end MiRelay
