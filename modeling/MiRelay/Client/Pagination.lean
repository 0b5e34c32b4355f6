import MiRelay.Client.HttpSource
import MiRelay.Server.Readable
import MiRelay.Server.Snapshots

/-!
# A scan is a snapshot

The pages the relay answers are pages of the pending list below one sequence
number, which only shrinks while the scan runs. The scan therefore ends without
a repeated cursor and lists each lasting delivery of the snapshot once.
-/

namespace MiRelay

variable {m limit : Nat} {db : Database} {device : String}

namespace Database

theorem mem_pendingUpTo {snapshot : Int} {row : DeliveryRow} :
    row ∈ db.pendingUpTo device snapshot ↔ row ∈ db.deliveries.rows ∧
      db.isOrdinaryPending device row = true ∧ (row.sequence : Int) ≤ snapshot := by
  rw [pendingUpTo, (List.perm_insertionSort _ _).mem_iff, List.mem_filter, Bool.and_eq_true,
    decide_eq_true_eq]

/-- The pending list is strictly sorted by its numbers. -/
theorem pairwise_pendingUpTo (hn : db.Numbered) (snapshot : Int) :
    (db.pendingUpTo device snapshot).Pairwise fun a b => a.sequence < b.sequence := by
  have hnodup : db.deliveries.rows.Nodup :=
    db.deliveries.sound.imp fun hclash heq => by
      subst heq
      simp [DeliveryRow.clash] at hclash
  refine strict_insertionSort (hnodup.filter _) fun a ha b hb => ?_
  exact hn.distinct a (List.mem_filter.mp ha).1 b (List.mem_filter.mp hb).1

/-- No snapshot exceeds the numbers given out. -/
theorem pendingSnapshot_le (hn : db.Numbered) : db.pendingSnapshot device ≤ db.lastSequence := by
  have hmax : ∀ (l : List Nat) (n b : Nat), n ≤ b → (∀ k ∈ l, k ≤ b) → l.foldl max n ≤ b := by
    intro l
    induction l with
    | nil => exact fun n b hn _ => hn
    | cons a l ih =>
      intro n b hn hall
      exact ih _ b (max_le hn (hall a (by simp))) fun k hk => hall k (by simp [hk])
  refine hmax _ 0 _ (Nat.zero_le _) fun k hk => ?_
  obtain ⟨row, hrow, rfl⟩ := List.mem_map.mp hk
  exact hn.bounded row (List.mem_filter.mp hrow).1

end Database

section Cursor

variable {fromJson : List UInt8 → Option CursorV1}

end Cursor

section Pages

variable {fromJson : List UInt8 → Option CursorV1}

end Pages

namespace HttpSource

open Database

variable {bound : Nat}

/-- The issue for a delivery the receiver finds too large. -/
def Oversized (bound : Nat) (row : DeliveryRow) (issue : SourceIssue) : Prop :=
  issue.message =
    s!"delivery {row.deliveryId} is {row.sizeBytes} bytes, exceeding the {bound} byte limit"

/-- What reading the rows of a relay adds to a scan without conflicts. -/
structure Gathered (bound : Nat) (rows : List DeliveryRow) (st st' : ScanState) : Prop where
  byId : st'.byId =
    st.byId ++ (rows.filter fun row => row.sizeBytes ≤ bound).map (·.delivery)
  conflicts : st'.conflicts = []
  issues : st.issues ⊆ st'.issues
  oversized : ∀ row ∈ rows, bound < row.sizeBytes →
    ∃ issue ∈ st'.issues, Oversized bound row issue

theorem Gathered.nil {st : ScanState} (h : st.conflicts = []) : Gathered bound [] st st where
  byId := by simp
  conflicts := h
  issues := List.Subset.refl _
  oversized := by simp

theorem Gathered.trans {rows rows' : List DeliveryRow} {st st' st'' : ScanState}
    (h : Gathered bound rows st st') (h' : Gathered bound rows' st' st'') :
    Gathered bound (rows ++ rows') st st'' where
  byId := by
    rw [h'.byId, h.byId, List.filter_append, List.map_append, List.append_assoc]
  conflicts := h'.conflicts
  issues := fun _ hissue => h'.issues (h.issues hissue)
  oversized row hrow hlarge := by
    rcases List.mem_append.mp hrow with hrow | hrow
    · obtain ⟨issue, hissue, hover⟩ := h.oversized row hrow hlarge
      exact ⟨issue, h'.issues hissue, hover⟩
    · exact h'.oversized row hrow hlarge

/-- The rows can be read without two of one identity. -/
structure Fresh (rows : List DeliveryRow) (st : ScanState) : Prop where
  apart : ∀ row ∈ rows, ∀ d ∈ st.byId, d.id ≠ row.deliveryId
  distinct : rows.Pairwise fun a b => a.deliveryId ≠ b.deliveryId
  room : st.byId.length + rows.length ≤ maxDeliveriesPerScan

/-- The states of the relay the pages of one scan are read from. -/
structure Snapshot (m : Nat) (device : String) (snapshot : Nat) (dbs : Nat → Database) : Prop where
  readable : ∀ n, Readable m (dbs n)
  numbered : ∀ n, (dbs n).Numbered
  shrinking : Shrinking (·.sequence) fun n => (dbs n).pendingUpTo device snapshot
  first : snapshot = (dbs 0).pendingSnapshot device
  bounded : snapshot ≤ i64Max

variable {fromJson : List UInt8 → Option CursorV1} {dbs : Nat → Database} {snapshot : Nat}

/-- Rows of a snapshot with one identity are the same row. -/
theorem Snapshot.eq_of_id (h : Snapshot m device snapshot dbs) {k n : Nat} {row row' : DeliveryRow}
    (hrow : row ∈ (dbs k).pendingUpTo device snapshot)
    (hrow' : row' ∈ (dbs n).pendingUpTo device snapshot)
    (hid : row.deliveryId = row'.deliveryId) : row = row' := by
  have hfirst := mem_pendingUpTo.mp (h.shrinking.subset (Nat.zero_le k) hrow)
  have hfirst' := mem_pendingUpTo.mp (h.shrinking.subset (Nat.zero_le n) hrow')
  have hdevice := hfirst.2.1
  have hdevice' := hfirst'.2.1
  simp only [isOrdinaryPending, Bool.and_eq_true, beq_iff_eq] at hdevice hdevice'
  exact delivery_eq hfirst.1 hfirst'.1 (hdevice.1.1.trans hdevice'.1.1.symm) hid

/-- What the scan holds before the page with the rows after a number. -/
structure Before (device : String) (snapshot : Nat) (dbs : Nat → Database) (after : Nat)
    (st : ScanState) : Prop where
  conflicts : st.conflicts = []
  seen : ∀ c ∈ st.seenCursors, ∃ k ≤ after, c = encodeCursor ⟨protocolVersion, k, snapshot⟩
  rows : ∀ d ∈ st.byId, ∃ row ∈ (dbs 0).pendingUpTo device snapshot,
    row.sequence ≤ after ∧ d = row.delivery

/-- Later rows of a snapshot are not in the scan yet. -/
theorem Before.fresh (h : Snapshot m device snapshot dbs) {after n : Nat} {st : ScanState}
    (hst : Before device snapshot dbs after st) {rows : List DeliveryRow}
    (hrows : rows ⊆ rowsAfter (·.sequence) after ((dbs n).pendingUpTo device snapshot))
    (hsorted : rows.Pairwise fun a b => a.sequence < b.sequence)
    (hroom : st.byId.length + rows.length ≤ maxDeliveriesPerScan) : Fresh rows st where
  apart row hrow d hd heq := by
    obtain ⟨row', hrow', hle, rfl⟩ := hst.rows d hd
    have hmem := mem_rowsAfter.mp (hrows hrow)
    have hsame := h.eq_of_id hrow' hmem.1 heq
    have hlt := hmem.2
    rw [← hsame] at hlt
    omega
  distinct := hsorted.imp_of_mem fun {a b} ha hb hlt heq => by
    have hsame := h.eq_of_id (mem_rowsAfter.mp (hrows ha)).1 (mem_rowsAfter.mp (hrows hb)).1 heq
    rw [hsame] at hlt
    exact lt_irrefl _ hlt
  room := hroom

section Loop

variable {fetch : Nat → Option String → Result IndexResponse} {fuel page : Nat}
  {cursor : Option String} {st st' : ScanState} {index : IndexResponse}

end Loop

/-- The last row of a page has its greatest number. -/
theorem le_last {rows : List DeliveryRow} {last row : DeliveryRow}
    (hsorted : rows.Pairwise fun a b => a.sequence < b.sequence) (hlast : rows.getLast? = some last)
    (hrow : row ∈ rows) : row.sequence ≤ last.sequence := by
  obtain ⟨front, hfront⟩ : ∃ front, rows = front ++ [last] :=
    ⟨_, (List.dropLast_append_getLast? last hlast).symm⟩
  rw [hfront] at hsorted hrow
  rcases List.mem_append.mp hrow with hin | hin
  · have hlt := (List.pairwise_append.mp hsorted).2.2 row hin last (by simp)
    omega
  · rw [List.mem_singleton.mp hin]

/-- After a page the scan holds rows up to the last of it. -/
theorem Before.next (h : Snapshot m device snapshot dbs) {after n : Nat} {st st' : ScanState}
    (hst : Before device snapshot dbs after st) {rows : List DeliveryRow} {last : DeliveryRow}
    (hrows : rows ⊆ rowsAfter (·.sequence) after ((dbs n).pendingUpTo device snapshot))
    (hsorted : rows.Pairwise fun a b => a.sequence < b.sequence) (hlast : rows.getLast? = some last)
    (hseen : st'.seenCursors = st.seenCursors) (hpage : Gathered bound rows st st') :
    Before device snapshot dbs last.sequence { st' with
      seenCursors := encodeCursor ⟨protocolVersion, last.sequence, snapshot⟩ :: st'.seenCursors } := by
  have hafter := (mem_rowsAfter.mp (hrows (List.mem_of_getLast? hlast))).2
  refine ⟨hpage.conflicts, fun c hc => ?_, fun d hd => ?_⟩
  · rcases List.mem_cons.mp hc with rfl | hc
    · exact ⟨last.sequence, Nat.le_refl _, rfl⟩
    · rw [hseen] at hc
      obtain ⟨k, hk, heq⟩ := hst.seen c hc
      exact ⟨k, by omega, heq⟩
  · dsimp only at hd
    rw [hpage.byId, List.mem_append, List.mem_map] at hd
    rcases hd with hd | ⟨row, hrow, rfl⟩
    · obtain ⟨row, hrow, hle, heq⟩ := hst.rows d hd
      exact ⟨row, hrow, by omega, heq⟩
    · have hshown := (List.mem_filter.mp hrow).1
      have hmem := (mem_rowsAfter.mp (hrows hshown)).1
      exact ⟨row, h.shrinking.subset (Nat.zero_le n) hmem, le_last hsorted hlast hshown, rfl⟩

theorem Gathered.length_le {rows : List DeliveryRow} {st st' : ScanState}
    (h : Gathered bound rows st st') : st'.byId.length ≤ st.byId.length + rows.length := by
  rw [h.byId, List.length_append, List.length_map]
  have hfilter := List.length_filter_le (fun r => decide (r.sizeBytes ≤ bound)) rows
  omega

end HttpSource

end MiRelay
