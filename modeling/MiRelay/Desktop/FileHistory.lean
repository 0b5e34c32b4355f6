import MiRelay.Desktop.Files

/-!
# The file view shows its reference

The reference overlays the records with the live files, the last of an identity
winning, filters and sorts all of it, and takes the front. The order tells files
of different identities apart, so the page has no choice; the index of a history
stays the one of its records whatever is done with it.
-/

namespace MiRelay

open Std

/-! ### The order -/

namespace Candidate

instance : TransCmp names :=
  inferInstanceAs (TransCmp (compareLex (compareOn nameKey) (compareOn fun c : Candidate => c.entry.name)))

instance (sort : FileSort) : TransCmp (byKey sort) := by
  cases sort with
  | newest => exact @TransCmp.opposite _ (compareOn fun c : Candidate => c.entry.receivedAt) _
  | oldest => exact inferInstanceAs (TransCmp (compareOn fun c : Candidate => c.entry.receivedAt))
  | nameAsc => exact inferInstanceAs (TransCmp names)
  | nameDesc =>
    have hswap : byKey .nameDesc = fun left right => names right left := by
      funext left right
      exact (@OrientedCmp.eq_swap _ names _ right left).symm
    rw [hswap]
    exact TransCmp.opposite
  | largest => exact @TransCmp.opposite _ (compareOn fun c : Candidate => c.entry.size) _
  | smallest => exact inferInstanceAs (TransCmp (compareOn fun c : Candidate => c.entry.size))

instance (sort : FileSort) : TransCmp (order sort) := by
  have hactive : TransCmp fun left right : Candidate =>
      Ord.compare right.entry.isActive left.entry.isActive :=
    @TransCmp.opposite _ (compareOn fun c : Candidate => c.entry.isActive) _
  have hid : TransCmp fun left right : Candidate => Ord.compare left.entry.id right.entry.id :=
    inferInstanceAs (TransCmp (compareOn fun c : Candidate => c.entry.id))
  exact inferInstanceAs (TransCmp (compareLex
    (fun left right : Candidate => Ord.compare right.entry.isActive left.entry.isActive)
    (compareLex (compareLex (byKey sort) names)
      fun left right : Candidate => Ord.compare left.entry.id right.entry.id)))

/-- Files that the order does not tell apart have one identity. -/
theorem id_eq_of_order {sort : FileSort} {left right : Candidate} (h : order sort left right = .eq) :
    left.entry.id = right.entry.id := by
  simp only [order, Ordering.then_eq_eq] at h
  exact LawfulEqOrd.eq_of_compare h.2.2

end Candidate

/-! ### The index -/

/-- The last position of an identity. -/
def lastIndex (ids : List String) (id : String) : Option Nat :=
  (ids.zipIdx.reverse.find? fun p => p.1 = id).map (·.2)

theorem lastIndex_some {ids : List String} {id : String} {i : Nat} (h : lastIndex ids id = some i) :
    ids[i]? = some id := by
  obtain ⟨⟨found, j⟩, hfind, rfl⟩ := Option.map_eq_some_iff.mp h
  have hmem := List.mem_reverse.mp (List.mem_of_find?_eq_some hfind)
  have hid : found = id := by simpa using List.find?_some hfind
  rw [← hid]
  exact List.mk_mem_zipIdx_iff_getElem?.mp hmem

theorem lastIndex_append (ids : List String) (new id : String) :
    lastIndex (ids ++ [new]) id = if new = id then some ids.length else lastIndex ids id := by
  unfold lastIndex
  rw [List.zipIdx_append, List.reverse_append, List.zipIdx_singleton, List.reverse_singleton,
    List.singleton_append, Nat.zero_add]
  by_cases h : new = id
  · rw [if_pos h, List.find?_cons_of_pos (by simpa using h)]
    rfl
  · rw [if_neg h, List.find?_cons_of_neg (by simpa using h)]

section History

variable (lib : TextLibrary)

/-- The index of these records, up to the order of the positions. -/
structure Prepared.Indexes (prepared : Prepared) (records : List DeliveryRecord) : Prop where
  names : prepared.names = records.map fun r => lib.toLowercase r.originalName
  kinds : prepared.kinds = records.map fun r => Desktop.FileKind.of r.mediaType
  positions : ∀ id, prepared.positions.lookup id = lastIndex (records.map (·.id)) id
  nodup : prepared.unique.Nodup
  unique : ∀ i, i ∈ prepared.unique ↔ ∃ id, lastIndex (records.map (·.id)) id = some i

theorem Prepared.indexes_new (records : List DeliveryRecord) :
    (Prepared.new lib records).Indexes lib records := by
  have hpositions (wanted : String) : (Prepared.new lib records).positions.lookup wanted =
      lastIndex (records.map (·.id)) wanted := by
    have hfind : (records.zipIdx.map (Prod.map (·.id) id)).reverse.find?
        (fun p : String × Nat => p.1 = wanted) =
        (records.zipIdx.reverse.find? fun r => r.1.id = wanted).map (Prod.map (·.id) id) := by
      rw [← List.map_reverse, List.find?_map]
      rfl
    rw [Prepared.new, Files.lookup_insertAll, lastIndex, List.zipIdx_map, hfind, AList.lookup_empty,
      Option.or_none, Option.map_map]
    rfl
  have hperm : (Prepared.new lib records).unique.Perm (Prepared.new lib records).positions.values :=
    (lib.sort_perm _ _).trans (lib.intoValues_perm _)
  refine ⟨rfl, rfl, hpositions, hperm.nodup_iff.mpr (Files.nodup_values _ ?_), fun i => ?_⟩
  · intro k k' i hk hk'
    rw [hpositions] at hk hk'
    exact Option.some.inj ((lastIndex_some hk).symm.trans (lastIndex_some hk'))
  · rw [hperm.mem_iff, Files.mem_values_iff]
    simp only [hpositions]

/-- An upsert keeps the index with the records. -/
theorem FileHistory.indexes_upsert {history : FileHistory} (record : DeliveryRecord)
    (h : (history.index lib).Indexes lib history.records) :
    ((history.upsert lib record).2.index lib).Indexes lib (history.upsert lib record).2.records := by
  unfold FileHistory.upsert
  dsimp only
  rw [h.positions]
  cases hfound : lastIndex (history.records.map (·.id)) record.id with
  | some i =>
    dsimp only [FileHistory.index, Option.getD_some]
    have hids : (history.records.set i record).map (·.id) = history.records.map (·.id) := by
      have hsame := lastIndex_some hfound
      obtain ⟨hi, hget⟩ := List.getElem?_eq_some_iff.mp hsame
      rw [List.map_set, ← hget, List.set_getElem_self]
    refine ⟨?_, ?_, fun id => ?_, h.nodup, fun j => ?_⟩
    · rw [List.map_set, ← h.names]
      rfl
    · rw [List.map_set, ← h.kinds]
      rfl
    · rw [hids]
      exact h.positions id
    · rw [hids]
      exact h.unique j
  | none =>
    dsimp only [FileHistory.index, Option.getD_some]
    have hids (id : String) : lastIndex ((history.records ++ [record]).map (·.id)) id =
        if record.id = id then some history.records.length
        else lastIndex (history.records.map (·.id)) id := by
      rw [List.map_append, List.map_singleton, lastIndex_append, List.length_map]
    have hless {id : String} {j : Nat} (hj : lastIndex (history.records.map (·.id)) id = some j) :
        j < history.records.length := by
      obtain ⟨hlt, -⟩ := List.getElem?_eq_some_iff.mp (lastIndex_some hj)
      rwa [List.length_map] at hlt
    refine ⟨?_, ?_, fun id => ?_, ?_, fun j => ?_⟩
    · rw [List.map_append, ← h.names]
      rfl
    · rw [List.map_append, ← h.kinds]
      rfl
    · rw [hids, Files.lookup_insert]
      by_cases hid : id = record.id
      · rw [if_pos hid, if_pos hid.symm]
      · rw [if_neg hid, if_neg (Ne.symm hid)]
        exact h.positions id
    · refine List.nodup_append.mpr ⟨h.nodup, List.nodup_singleton _, fun i hi j hj => ?_⟩
      obtain ⟨id, hid⟩ := (h.unique i).mp hi
      rw [List.mem_singleton.mp hj]
      exact (hless hid).ne
    · rw [List.mem_append, List.mem_singleton]
      refine (or_congr_left (h.unique j)).trans ?_
      constructor
      · rintro (⟨id, hid⟩ | rfl)
        · refine ⟨id, ?_⟩
          rw [hids, if_neg, hid]
          rintro rfl
          rw [hfound] at hid
          contradiction
        · exact ⟨record.id, by rw [hids, if_pos rfl]⟩
      · rintro ⟨id, hid⟩
        rw [hids] at hid
        split at hid
        · exact .inr (Option.some.inj hid).symm
        · exact .inl ⟨id, hid⟩

/-- The index of a history, if there is one, is that of its records. -/
def FileHistory.Sound (history : FileHistory) : Prop :=
  ∀ prepared, history.prepared = some prepared → prepared.Indexes lib history.records

theorem FileHistory.Sound.index {history : FileHistory} (h : history.Sound lib) :
    (history.index lib).Indexes lib history.records := by
  unfold FileHistory.index
  cases hprepared : history.prepared with
  | none => exact Prepared.indexes_new lib _
  | some prepared => exact h prepared hprepared

/-- Whatever is done with a history, its index stays right. -/
theorem FileHistory.Sound.apply {history : FileHistory} (h : history.Sound lib)
    (action : FileHistory.Action) : (history.apply lib action).Sound lib := by
  cases action with
  | upsert record =>
    intro prepared hprepared
    have hindexes := FileHistory.indexes_upsert lib record (h.index lib)
    rwa [FileHistory.index, show (history.upsert lib record).2.prepared = some prepared from hprepared,
      Option.getD_some] at hindexes
  | edit change =>
    intro prepared hprepared
    contradiction
  | page activity query =>
    intro prepared hprepared
    rw [← Option.some.inj hprepared]
    exact h.index lib

theorem FileHistory.Sound.foldl {history : FileHistory} (h : history.Sound lib)
    (actions : List FileHistory.Action) : (actions.foldl (FileHistory.apply lib) history).Sound lib := by
  induction actions generalizing history with
  | nil => exact h
  | cons action actions ih => exact ih (h.apply lib action)

end History

/-! ### The reference -/

section Reference

variable (lib : TextLibrary)

/-- The records under the live files, the last of an identity winning. -/
def overlay (records : List DeliveryRecord) (activity : List FileActivity) :
    Files String FileEntry :=
  (Files.insertAll ∅ (·.id) FileEntry.saved records).insertAll (·.id) FileEntry.live activity

/-- What a query asks of an entry. -/
def Query.matches (query : Query) (entry : FileEntry) : Bool :=
  query.accepts lib entry (lib.toLowercase entry.name) (Desktop.FileKind.of entry.mediaType)

/-- An entry with its lowercase name. -/
def candidateOf (entry : FileEntry) : Candidate :=
  { entry, nameKey := lib.toLowercase entry.name }

/-- All that a query asks for, in order. -/
def reference (records : List DeliveryRecord) (activity : List FileActivity) (query : Query) :
    List FileEntry :=
  sortBy (fun a b => Candidate.order query.sort (candidateOf lib a) (candidateOf lib b))
    ((overlay records activity).values.filter (query.matches lib))

theorem lookup_overlay {records : List DeliveryRecord} {activity : List FileActivity} (id : String) :
    (overlay records activity).lookup id =
      ((activity.reverse.find? fun a => a.id = id).map FileEntry.live).or
        ((records.reverse.find? fun r => r.id = id).map FileEntry.saved) := by
  rw [overlay, Files.lookup_insertAll, Files.lookup_insertAll, AList.lookup_empty, Option.or_none]

/-- An entry stands under its identity. -/
theorem id_of_lookup_overlay {records : List DeliveryRecord} {activity : List FileActivity}
    {id : String} {entry : FileEntry} (h : (overlay records activity).lookup id = some entry) :
    entry.id = id := by
  rw [lookup_overlay, Option.or_eq_some_iff, Option.map_eq_some_iff, Option.map_eq_some_iff] at h
  rcases h with ⟨a, ha, rfl⟩ | ⟨-, r, hr, rfl⟩
  · have hid : a.id = id := by simpa using List.find?_some ha
    exact hid
  · have hid : r.id = id := by simpa using List.find?_some hr
    exact hid

/-- The last record of an identity is the one at its last position. -/
theorem find_reverse_eq_some {records : List DeliveryRecord} {id : String} {r : DeliveryRecord} :
    records.reverse.find? (fun r => r.id = id) = some r ↔
      ∃ i, lastIndex (records.map (·.id)) id = some i ∧ records[i]? = some r := by
  have hrecords : records.reverse.find? (fun r => r.id = id) =
      (records.zipIdx.reverse.find? fun p => p.1.id = id).map (·.1) := by
    conv_lhs => rw [← List.zipIdx_map_fst 0 records]
    rw [← List.map_reverse, List.find?_map]
    rfl
  have hindex : lastIndex (records.map (·.id)) id =
      (records.zipIdx.reverse.find? fun p => p.1.id = id).map (·.2) := by
    rw [lastIndex, List.zipIdx_map, ← List.map_reverse, List.find?_map, Option.map_map]
    rfl
  rw [hrecords, hindex]
  cases hfind : records.zipIdx.reverse.find? fun p => p.1.id = id with
  | none => simp
  | some p =>
    have hmem := List.mem_reverse.mp (List.mem_of_find?_eq_some hfind)
    have hget := List.mem_zipIdx_iff_getElem?.mp hmem
    simp only [Option.map_some, Option.some.injEq, exists_eq_left', hget]

section Visible

variable {records : List DeliveryRecord} {prepared : Prepared} {activity : List FileActivity}
  {query : Query}

/-- The live files by identity. -/
def liveEntries (activity : List FileActivity) : Files String FileActivity :=
  Files.insertAll ∅ (·.id) id activity

/-- The positions that live files cover. -/
def overridden (prepared : Prepared) (activity : List FileActivity) : List Nat :=
  activity.filterMap fun live => prepared.positions.lookup live.id

theorem lookup_liveEntries (id : String) :
    (liveEntries activity).lookup id = activity.reverse.find? fun a => a.id = id := by
  rw [liveEntries, Files.lookup_insertAll, AList.lookup_empty, Option.or_none]
  exact Option.map_id_apply

theorem id_of_liveEntries {id : String} {a : FileActivity}
    (h : (liveEntries activity).lookup id = some a) : a.id = id := by
  rw [lookup_liveEntries] at h
  simpa using List.find?_some h

/-- The candidates before any sorting. -/
def visible (records : List DeliveryRecord) (prepared : Prepared) (activity : List FileActivity)
    (query : Query) : List Candidate :=
  prepared.unique.filterMap (savedCandidate lib records prepared (overridden prepared activity) query) ++
    (lib.intoValues (liveEntries activity).values).filterMap (liveCandidate lib query)

theorem savedCandidate_eq_some (h : prepared.Indexes lib records) {covered : List Nat} {i : Nat}
    {c : Candidate} : savedCandidate lib records prepared covered query i = some c ↔
      ∃ r, records[i]? = some r ∧ i ∉ covered ∧ query.matches lib (.saved r) = true ∧
        c = candidateOf lib (.saved r) := by
  unfold savedCandidate
  rw [h.names, h.kinds, List.getElem?_map, List.getElem?_map]
  cases records[i]? with
  | none => simp
  | some r =>
    simp only [Option.map_some, Option.bind_eq_bind, Option.bind_some, Option.some.injEq,
      exists_eq_left']
    split
    · rename_i hcond
      simp only [Bool.and_eq_true, Bool.not_eq_true', List.contains_eq_mem, decide_eq_false_iff_not] at hcond
      rw [Option.some.injEq]
      exact ⟨fun hc => ⟨hcond.1, hcond.2, hc.symm⟩, fun hc => hc.2.2.symm⟩
    · rename_i hcond
      refine ⟨fun hc => by contradiction, fun hc => absurd ?_ hcond⟩
      simp only [Bool.and_eq_true, Bool.not_eq_true', List.contains_eq_mem, decide_eq_false_iff_not]
      exact ⟨hc.1, hc.2.1⟩

theorem liveCandidate_eq_some {a : FileActivity} {c : Candidate} :
    liveCandidate lib query a = some c ↔
      query.matches lib (.live a) = true ∧ c = candidateOf lib (.live a) := by
  unfold liveCandidate
  dsimp only
  split
  · rename_i hcond
    rw [Option.some.injEq]
    exact ⟨fun hc => ⟨hcond, hc.symm⟩, fun hc => hc.2.symm⟩
  · rename_i hcond
    exact ⟨fun hc => by contradiction, fun hc => absurd hc.1 hcond⟩

/-- The candidates are the entries of the overlay that the query asks for. -/
theorem mem_visible (h : prepared.Indexes lib records) {c : Candidate} :
    c ∈ visible lib records prepared activity query ↔
      ∃ entry ∈ (overlay records activity).values.filter (query.matches lib),
        candidateOf lib entry = c := by
  simp only [visible, List.mem_append, List.mem_filterMap, savedCandidate_eq_some lib h,
    liveCandidate_eq_some, (lib.intoValues_perm _).mem_iff, List.mem_filter, Files.mem_values_iff,
    lookup_overlay, lookup_liveEntries, Option.or_eq_some_iff, Option.map_eq_some_iff]
  constructor
  · rintro (⟨i, hi, r, hr, hfree, hmatches, rfl⟩ | ⟨a, ⟨id, ha⟩, hmatches, rfl⟩)
    · obtain ⟨id, hid⟩ := (h.unique i).mp hi
      refine ⟨.saved r, ⟨⟨id, .inr ⟨?_, r, find_reverse_eq_some.mpr ⟨i, hid, hr⟩, rfl⟩⟩, hmatches⟩,
        rfl⟩
      rw [Option.map_eq_none_iff, List.find?_eq_none]
      intro a ha hsame
      refine hfree (List.mem_filterMap.mpr ⟨a, List.mem_reverse.mp ha, ?_⟩)
      rw [of_decide_eq_true hsame, h.positions, hid]
    · exact ⟨.live a, ⟨⟨id, .inl ⟨a, ha, rfl⟩⟩, hmatches⟩, rfl⟩
  · rintro ⟨entry, ⟨⟨id, ⟨a, ha, rfl⟩ | ⟨hnone, r, hr, rfl⟩⟩, hmatches⟩, rfl⟩
    · exact .inr ⟨a, ⟨id, ha⟩, hmatches, rfl⟩
    · obtain ⟨i, hi, hget⟩ := find_reverse_eq_some.mp hr
      refine .inl ⟨i, (h.unique i).mpr ⟨id, hi⟩, r, hget, fun hcovered => ?_, hmatches, rfl⟩
      obtain ⟨a, ha, hposition⟩ := List.mem_filterMap.mp hcovered
      rw [h.positions] at hposition
      have hid : a.id = id :=
        Option.some.inj ((lastIndex_some hposition).symm.trans (lastIndex_some hi))
      rw [Option.map_eq_none_iff, List.find?_eq_none] at hnone
      exact hnone a (List.mem_reverse.mpr ha) (decide_eq_true hid)

/-- No identity is shown twice. -/
theorem nodup_visible (h : prepared.Indexes lib records) :
    (visible lib records prepared activity query).Pairwise fun c d => c.entry.id ≠ d.entry.id := by
  refine List.pairwise_append.mpr ⟨?_, ?_, ?_⟩
  · refine List.pairwise_filterMap.mpr (h.nodup.imp_of_mem fun {i j} hi hj hne c hc d hd heq => hne ?_)
    obtain ⟨r, hr, -, -, rfl⟩ := (savedCandidate_eq_some lib h).mp hc
    obtain ⟨r', hr', -, -, rfl⟩ := (savedCandidate_eq_some lib h).mp hd
    obtain ⟨id, hid⟩ := (h.unique i).mp hi
    obtain ⟨id', hid'⟩ := (h.unique j).mp hj
    have hget := lastIndex_some hid
    have hget' := lastIndex_some hid'
    rw [List.getElem?_map, hr, Option.map_some, Option.some.injEq] at hget
    rw [List.getElem?_map, hr', Option.map_some, Option.some.injEq] at hget'
    have hsame : id = id' := hget.symm.trans (heq.trans hget')
    rw [hsame, hid'] at hid
    exact (Option.some.inj hid).symm
  · have hvalues : (liveEntries activity).values.Nodup :=
      Files.nodup_values _ fun k k' a hk hk' =>
        (id_of_liveEntries hk).symm.trans (id_of_liveEntries hk')
    have hnodup := ((lib.intoValues_perm _).nodup_iff).mpr hvalues
    refine List.pairwise_filterMap.mpr (hnodup.imp_of_mem fun {a b} ha hb hne c hc d hd heq => hne ?_)
    obtain ⟨-, rfl⟩ := (liveCandidate_eq_some lib).mp hc
    obtain ⟨-, rfl⟩ := (liveCandidate_eq_some lib).mp hd
    obtain ⟨k, hk⟩ := (Files.mem_values_iff _ _).mp ((lib.intoValues_perm _).mem_iff.mp ha)
    obtain ⟨k', hk'⟩ := (Files.mem_values_iff _ _).mp ((lib.intoValues_perm _).mem_iff.mp hb)
    have hsame : k = k' := (id_of_liveEntries hk).symm.trans (heq.trans (id_of_liveEntries hk'))
    rw [hsame, hk'] at hk
    exact (Option.some.inj hk).symm
  · intro c hc d hd heq
    obtain ⟨i, hi, hc⟩ := List.mem_filterMap.mp hc
    obtain ⟨a, ha, hd⟩ := List.mem_filterMap.mp hd
    obtain ⟨r, hr, hfree, -, rfl⟩ := (savedCandidate_eq_some lib h).mp hc
    obtain ⟨-, rfl⟩ := (liveCandidate_eq_some lib).mp hd
    obtain ⟨k, hk⟩ := (Files.mem_values_iff _ _).mp ((lib.intoValues_perm _).mem_iff.mp ha)
    rw [lookup_liveEntries] at hk
    obtain ⟨id, hid⟩ := (h.unique i).mp hi
    have hget := lastIndex_some hid
    rw [List.getElem?_map, hr, Option.map_some, Option.some.injEq] at hget
    refine hfree (List.mem_filterMap.mpr ⟨a, List.mem_reverse.mp (List.mem_of_find?_eq_some hk), ?_⟩)
    rw [h.positions, show a.id = id from heq.symm.trans hget, hid]

/-- The order separates candidates of different identities. -/
theorem separates_visible (h : prepared.Indexes lib records) :
    Separates (Candidate.order query.sort) (visible lib records prepared activity query) := by
  intro c hc d hd heq
  by_contra hne
  have hsymm : Std.Symm fun c d : Candidate => c.entry.id ≠ d.entry.id := ⟨fun _ _ h => h.symm⟩
  exact (nodup_visible lib h).forall hc hd hne (Candidate.id_eq_of_order heq)

/-- The reference, in the form in which candidates are sorted. -/
theorem map_reference (h : prepared.Indexes lib records) :
    (reference lib records activity query).map (candidateOf lib) =
      sortBy (Candidate.order query.sort) (visible lib records prepared activity query) := by
  have hvalues : (overlay records activity).values.Nodup :=
    Files.nodup_values _ fun k k' e hk hk' =>
      (id_of_lookup_overlay hk).symm.trans (id_of_lookup_overlay hk')
  have hinjective : Function.Injective (candidateOf lib) := fun a b hab =>
    congrArg Candidate.entry hab
  have hvisible : (visible lib records prepared activity query).Nodup :=
    (nodup_visible lib h).imp fun hne heq => hne (congrArg (fun c : Candidate => c.entry.id) heq)
  have hperm : ((overlay records activity).values.filter (query.matches lib)).map (candidateOf lib)
      |>.Perm (visible lib records prepared activity query) := by
    refine (List.perm_ext_iff_of_nodup ((hvalues.filter _).map hinjective) hvisible).mpr fun c => ?_
    rw [mem_visible lib h, List.mem_map]
  have hcompare : TransCmp fun a b =>
      Candidate.order query.sort (candidateOf lib a) (candidateOf lib b) :=
    { eq_swap := OrientedCmp.eq_swap
      isLE_trans := TransCmp.isLE_trans }
  refine eq_sortBy ((sortBy_perm.map _).trans hperm) ?_ (separates_visible lib h)
  exact List.pairwise_map.mpr sortedBy_sortBy

/-- A page under the right index is the front of the reference. -/
theorem selectPage_eq (h : prepared.Indexes lib records) :
    selectPage lib records prepared activity query =
      { entries := (reference lib records activity query).take query.limit
        total := (reference lib records activity query).length } := by
  have hreference : (reference lib records activity query).map (candidateOf lib) =
      sortBy (Candidate.order query.sort) (visible lib records prepared activity query) :=
    map_reference lib h
  have hseparates : Separates (Candidate.order query.sort)
      (visible lib records prepared activity query) := separates_visible lib h
  have hlength : (visible lib records prepared activity query).length =
      (reference lib records activity query).length := by
    rw [← List.length_map (candidateOf lib), hreference, sortBy_perm.length_eq]
  have hentries : ((reference lib records activity query).map (candidateOf lib)).map (·.entry) =
      reference lib records activity query := by
    rw [List.map_map]
    exact List.map_id _
  have hselect : selectPage lib records prepared activity query =
      { entries := (lib.sortUnstableBy (Candidate.order query.sort)
          (if min query.limit (visible lib records prepared activity query).length = 0 then []
          else if min query.limit (visible lib records prepared activity query).length <
              (visible lib records prepared activity query).length then
            (lib.selectNthUnstableBy (Candidate.order query.sort)
              (min query.limit (visible lib records prepared activity query).length)
              (visible lib records prepared activity query)).take
                (min query.limit (visible lib records prepared activity query).length)
          else visible lib records prepared activity query)).map (·.entry)
        total := (visible lib records prepared activity query).length } := rfl
  have htake : (reference lib records activity query).take query.limit =
      (reference lib records activity query).take
        (min query.limit (reference lib records activity query).length) := by
    rw [List.take_eq_take_iff]
    omega
  rw [hselect, hlength, htake]
  refine congrArg (FilePage.mk · _) ?_
  generalize hlimit : min query.limit (reference lib records activity query).length = limit
  split
  · rename_i hzero
    rw [hzero, List.take_zero, List.perm_nil.mp (lib.sort_perm _ [])]
    rfl
  · split
    · rename_i hless
      rw [lib.sort_take_select hseparates (hlength ▸ hless), ← hreference, List.map_take, hentries]
    · rename_i hall
      rw [lib.sort_eq hseparates, ← hreference, hentries, List.take_of_length_le (by omega)]

end Visible

/-- A page is the front of the filtered and sorted overlay, with the number of all entries that
match; and after any edits it is what a fresh history of the same records shows. -/
theorem page_eq_reference (records : List DeliveryRecord) (activity : List FileActivity)
    (query : Query) :
    ((FileHistory.ofRecords lib records).page lib activity query).1 =
        { entries := (reference lib records activity query).take query.limit
          total := (reference lib records activity query).length } ∧
      ∀ actions : List FileHistory.Action,
        let history := actions.foldl (FileHistory.apply lib) (FileHistory.ofRecords lib records)
        (history.page lib activity query).1 =
          ((FileHistory.ofRecords lib history.records).page lib activity query).1 := by
  have hfresh (records : List DeliveryRecord) : (FileHistory.ofRecords lib records).Sound lib := by
    intro prepared hprepared
    rw [← Option.some.inj hprepared]
    exact Prepared.indexes_new lib records
  refine ⟨selectPage_eq lib (hfresh records).index, fun actions => ?_⟩
  intro history
  have hsound : history.Sound lib := (hfresh records).foldl lib actions
  exact (selectPage_eq lib hsound.index).trans (selectPage_eq lib (hfresh _).index).symm

end Reference

end MiRelay
