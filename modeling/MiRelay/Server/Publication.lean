import MiRelay.Server.Directory

/-!
# Publishing the inventory

The calls of `publish_directory` for one device, by whatever callers, one after
the other: each call is told an inventory, a conflict or an error, and the
stored index is what the accepted calls made of it. An index is replaced only by
an update that names its identity, hence between two replacements that name one
identity an index with this identity was published again.
-/

namespace MiRelay

/-- One call of `publish_directory`: what the caller is told, and the index stored before and
after. -/
structure Publication where
  update : InventoryUpdate
  before : Option Inventory
  answer : Result (Option Inventory)
  after : Option Inventory

namespace Publication

/-- The caller is told an inventory; no inventory is the answer `stale_index`. -/
def Accepted (p : Publication) : Prop := ∃ inventory, p.answer = .ok (some inventory)

instance (p : Publication) : Decidable p.Accepted :=
  decidable_of_iff (p.answer.toOption.any Option.isSome = true) <| by
    unfold Accepted
    cases p.answer with
    | error => simp [Except.toOption]
    | ok answer => cases answer <;> simp [Except.toOption]

/-- The call changed the stored index. -/
def Replaces (p : Publication) : Prop := p.after ≠ p.before

/-- What one call can do: it repeats the stored index, replaces the index it names by one of
another identity, or is refused. -/
inductive Swap (p : Publication) : Prop
  | repeats (hb : p.before = some p.update.inventory) (ha : p.answer = .ok p.before)
      (h : p.after = p.before)
  | replaces (hb : p.before.map (·.id) = p.update.previousId)
      (hid : p.before.map (·.id) ≠ some p.update.inventory.id)
      (ha : p.answer = .ok (some p.update.inventory)) (h : p.after = some p.update.inventory)
  | refused (hne : p.before ≠ some p.update.inventory) (ha : p.answer = .ok none)
      (h : p.after = p.before)
  | failed (ha : ∃ e, p.answer = .error e) (h : p.after = p.before)

end Publication

namespace Database

variable {db db' : Database} {device : String} {update : InventoryUpdate}

/-- A call of `publish_directory`; a transaction that is not committed changes nothing. -/
def publish (db : Database) (device : String) (update : InventoryUpdate) :
    Result (Option Inventory) × Database :=
  match db.publishDirectory device update with
  | .ok (answer, db') => (.ok answer, db')
  | .error e => (.error e, db)

/-- The call as it is recorded. -/
def publication (db : Database) (device : String) (update : InventoryUpdate) : Publication where
  update := update
  before := db.index device
  answer := (db.publish device update).1
  after := (db.publish device update).2.index device

/-- The calls for a device one after the other. -/
def publications (db : Database) (device : String) : List InventoryUpdate → List Publication
  | [] => []
  | update :: rest =>
    db.publication device update :: publications (db.publish device update).2 device rest

/-- The upsert leaves the new inventory as the stored one. -/
theorem index_upsert {directoryIndexes : Table IndexRow IndexRow.clash} {inventory : Inventory}
    (h : (db.directoryIndexes.delete (·.deviceId == device)).insert
      { deviceId := device, inventory := inventory } = some directoryIndexes) :
    ({ db with directoryIndexes := directoryIndexes } : Database).index device = some inventory := by
  have hnone : (db.directoryIndexes.delete (·.deviceId == device)).rows.find?
      (·.deviceId == device) = none := by
    rw [List.find?_eq_none]
    intro row hrow
    simpa using (Table.mem_delete.mp hrow).2
  rw [index, Table.rows_insert h, List.find?_append, hnone]
  simp

/-- The upsert never fails. -/
theorem upsert_isSome (db : Database) (device : String) (inventory : Inventory) :
    ((db.directoryIndexes.delete (·.deviceId == device)).insert
      { deviceId := device, inventory := inventory }).isSome = true := by
  rw [Table.insert_isSome_iff]
  intro row hrow
  simpa [IndexRow.clash] using (Table.mem_delete.mp hrow).2

/-- The device belongs to an open folder and the inventory is valid. -/
def Publishable (db : Database) (device : String) (update : InventoryUpdate) : Prop :=
  isFolderDevice device = true ∧ update.inventory.validate = .ok () ∧
    db.requireDeviceOpen device = .ok ()

/-- An update for a closed folder or with an invalid inventory fails. -/
theorem publish_of_not_publishable (h : ¬db.Publishable device update) :
    ∃ e, db.publish device update = (.error e, db) := by
  rw [publish]
  cases hp : db.publishDirectory device update with
  | error e => exact ⟨e, rfl⟩
  | ok result =>
    simp only [publishDirectory, bind_eq_ok, ensure_eq_ok] at hp
    obtain ⟨_, hdevice, _, hvalid, _, hopen, -⟩ := hp
    exact absurd ⟨hdevice, hvalid, hopen⟩ h

/-- Publishing an index again changes nothing, whichever index the update names. -/
theorem publish_of_same (h : db.Publishable device update)
    (hsame : db.index device = some update.inventory) :
    db.publish device update = (.ok (db.index device), db) := by
  obtain ⟨hdevice, hvalid, hopen⟩ := h
  simp [publish, publishDirectory, hdevice, hvalid, hopen, hsame, ensure, bind, Except.bind, pure,
    Except.pure]

/-- An update that names another index, or would keep its identity, is refused. -/
theorem publish_of_stale (h : db.Publishable device update)
    (hne : db.index device ≠ some update.inventory)
    (hstale : (db.index device).map (·.id) ≠ update.previousId ∨
      (db.index device).map (·.id) = some update.inventory.id) :
    db.publish device update = (.ok none, db) := by
  obtain ⟨hdevice, hvalid, hopen⟩ := h
  simp only [publish, publishDirectory, hdevice, hvalid, hopen, hne, hstale, ensure, bind,
    Except.bind, pure, Except.pure, if_true, if_false]

/-- An update that names the stored index replaces it. -/
theorem publish_of_current (h : db.Publishable device update)
    (hne : db.index device ≠ some update.inventory)
    (hcurrent : ¬((db.index device).map (·.id) ≠ update.previousId ∨
      (db.index device).map (·.id) = some update.inventory.id)) :
    ∃ directoryIndexes, db.publish device update =
        (.ok (some update.inventory), { db with directoryIndexes := directoryIndexes }) ∧
      ({ db with directoryIndexes := directoryIndexes } : Database).index device =
        some update.inventory := by
  obtain ⟨hdevice, hvalid, hopen⟩ := h
  obtain ⟨directoryIndexes, hins⟩ :=
    Option.isSome_iff_exists.mp (db.upsert_isSome device update.inventory)
  refine ⟨directoryIndexes, ?_, index_upsert hins⟩
  simp only [publish, publishDirectory, hdevice, hvalid, hopen, hne, hcurrent, hins, ensure, bind,
    Except.bind, pure, Except.pure, if_true, if_false]

/-- Every call does one of the four things. -/
theorem publication_swap (db : Database) (device : String) (update : InventoryUpdate) :
    (db.publication device update).Swap := by
  by_cases hp : db.Publishable device update
  · by_cases hsame : db.index device = some update.inventory
    · have h := publish_of_same hp hsame
      exact .repeats hsame (congrArg Prod.fst h) (by rw [publication, h])
    · by_cases hstale : (db.index device).map (·.id) ≠ update.previousId ∨
          (db.index device).map (·.id) = some update.inventory.id
      · have h := publish_of_stale hp hsame hstale
        exact .refused hsame (congrArg Prod.fst h) (by rw [publication, h])
      · obtain ⟨directoryIndexes, h, hindex⟩ := publish_of_current hp hsame hstale
        rw [not_or, not_not] at hstale
        exact .replaces hstale.1 hstale.2 (congrArg Prod.fst h) (by rw [publication, h]; exact hindex)
  · obtain ⟨e, h⟩ := publish_of_not_publishable hp
    exact .failed ⟨e, congrArg Prod.fst h⟩ (by rw [publication, h])

/-- A call leaves the exits alone, so it closes no folder. -/
theorem publishable_publish {other : InventoryUpdate} :
    (db.publish device update).2.Publishable device other ↔ db.Publishable device other := by
  by_cases hp : db.Publishable device update
  · by_cases hsame : db.index device = some update.inventory
    · rw [publish_of_same hp hsame]
    · by_cases hstale : (db.index device).map (·.id) ≠ update.previousId ∨
          (db.index device).map (·.id) = some update.inventory.id
      · rw [publish_of_stale hp hsame hstale]
      · obtain ⟨directoryIndexes, h, -⟩ := publish_of_current hp hsame hstale
        rw [h]
        exact Iff.rfl
  · obtain ⟨e, h⟩ := publish_of_not_publishable hp
    rw [h]

end Database

namespace Publication

variable {p : Publication}

/-- Only an update that names the stored index replaces it, by its own inventory. -/
theorem Swap.of_replaces (h : p.Swap) (hr : p.Replaces) :
    p.before.map (·.id) = p.update.previousId ∧ p.before.map (·.id) ≠ some p.update.inventory.id ∧
      p.answer = .ok (some p.update.inventory) ∧ p.after = some p.update.inventory := by
  cases h with
  | repeats _ _ h => exact absurd h hr
  | replaces hb hid ha h => exact ⟨hb, hid, ha, h⟩
  | refused _ _ h => exact absurd h hr
  | failed _ h => exact absurd h hr

/-- An accepted update is the stored index afterwards. -/
theorem Swap.of_accepted (h : p.Swap) (ha : p.Accepted) : p.after = some p.update.inventory := by
  obtain ⟨inventory, ha⟩ := ha
  cases h with
  | repeats hb _ h => rw [h, hb]
  | replaces _ _ _ h => exact h
  | refused _ hn => rw [hn] at ha; simp at ha
  | failed he =>
    obtain ⟨e, he⟩ := he
    rw [he] at ha
    contradiction

/-- A refused or failing call leaves the stored index as it was. -/
theorem Swap.of_not_accepted (h : p.Swap) (ha : ¬p.Accepted) : p.after = p.before := by
  cases h with
  | repeats _ _ h => exact h
  | replaces _ _ h => exact absurd ⟨_, h⟩ ha
  | refused _ _ h => exact h
  | failed _ h => exact h

end Publication

namespace Database

variable {db : Database} {device : String} {updates : List InventoryUpdate}

/-- Each call of a sequence is one of the four. -/
theorem swap_of_mem {p : Publication} (h : p ∈ db.publications device updates) : p.Swap := by
  induction updates generalizing db with
  | nil => contradiction
  | cons u rest ih =>
    rcases List.mem_cons.mp h with rfl | h
    · exact publication_swap db device u
    · exact ih h

/-- A call finds the index the call before it left. -/
theorem before_of_getElem? {i : Nat} {p q : Publication}
    (hp : (db.publications device updates)[i]? = some p)
    (hq : (db.publications device updates)[i + 1]? = some q) : q.before = p.after := by
  induction updates generalizing db i with
  | nil => simp [publications] at hp
  | cons u rest ih =>
    rw [publications, List.getElem?_cons_succ] at hq
    cases i with
    | zero =>
      cases rest with
      | nil => simp [publications] at hq
      | cons v rest =>
        simp only [publications, List.getElem?_cons_zero, Option.some.injEq] at hp hq
        rw [← hp, ← hq]
        rfl
    | succ i => exact ih (by simpa [publications] using hp) hq

/-- A call is one on a database with the same open folders. -/
theorem publication_of_mem {p : Publication} (h : p ∈ db.publications device updates) :
    ∃ db' : Database, p = db'.publication device p.update ∧
      ∀ update, db'.Publishable device update ↔ db.Publishable device update := by
  induction updates generalizing db with
  | nil => contradiction
  | cons u rest ih =>
    rcases List.mem_cons.mp h with rfl | h
    · exact ⟨db, rfl, fun _ => Iff.rfl⟩
    · obtain ⟨db', hp, hopen⟩ := ih h
      exact ⟨db', hp, fun update => (hopen update).trans publishable_publish⟩

/-- Only an update for an open folder with a valid inventory is accepted. -/
theorem publishable_of_accepted {update : InventoryUpdate}
    (h : (db.publication device update).Accepted) : db.Publishable device update := by
  by_contra hp
  obtain ⟨e, he⟩ := publish_of_not_publishable hp
  obtain ⟨inventory, ha⟩ := h
  rw [publication, he] at ha
  contradiction

/-- Between a call that leaves another identity and one that finds this identity, an index
with this identity was published. -/
theorem exists_replacement {id : Option String} {i j : Nat} {p q : Publication} (hij : i < j)
    (hp : (db.publications device updates)[i]? = some p)
    (hq : (db.publications device updates)[j]? = some q) (hpid : p.after.map (·.id) ≠ id)
    (hqid : q.before.map (·.id) = id) :
    ∃ k r, i < k ∧ k < j ∧ (db.publications device updates)[k]? = some r ∧ r.Replaces ∧
      some r.update.inventory.id = id := by
  induction j generalizing q with
  | zero => contradiction
  | succ j ih =>
    have hj : j < (db.publications device updates).length := by
      have := (List.getElem?_eq_some_iff.mp hq).1
      omega
    have hr := List.getElem?_eq_getElem hj
    have hbefore := before_of_getElem? hr hq
    rw [hbefore] at hqid
    rcases Nat.lt_succ_iff_lt_or_eq.mp hij with hlt | rfl
    · by_cases hrep : (db.publications device updates)[j].Replaces
      · have hswap := swap_of_mem (List.getElem_mem hj)
        rw [(hswap.of_replaces hrep).2.2.2, Option.map_some] at hqid
        exact ⟨j, _, hlt, j.lt_succ_self, hr, hrep, hqid⟩
      · rw [not_not.mp hrep] at hqid
        obtain ⟨k, r, hik, hkj, h⟩ := ih hlt hr hqid
        exact ⟨k, r, hik, hkj.trans j.lt_succ_self, h⟩
    · rw [hp, Option.some.injEq] at hr
      rw [← hr] at hqid
      exact absurd hqid hpid

/-- Publishing is a compare and swap: in every sequence of calls an index is replaced only by
an update that names it, an update accepted otherwise repeats the stored index, a call that is
not accepted changes nothing, two replacements from one identity have a publication of that
identity between them, and repeating an accepted update whose index is still stored is accepted
without a change. -/
theorem publications_swap (db : Database) (device : String) (updates : List InventoryUpdate) :
    (∀ p ∈ db.publications device updates,
      (p.Replaces → p.before.map (·.id) = p.update.previousId ∧
        p.before.map (·.id) ≠ some p.update.inventory.id ∧ p.after = some p.update.inventory) ∧
      (p.Accepted → p.after = some p.update.inventory) ∧ (¬p.Accepted → p.after = p.before)) ∧
    (∀ (i j : Nat) (p q : Publication), i < j → (db.publications device updates)[i]? = some p →
      (db.publications device updates)[j]? = some q → p.Replaces → q.Replaces →
      p.update.previousId = q.update.previousId →
      ∃ (k : Nat) (r : Publication), i < k ∧ k < j ∧
        (db.publications device updates)[k]? = some r ∧ r.Replaces ∧
        some r.update.inventory.id = p.update.previousId) ∧
    ∀ p ∈ db.publications device updates, ∀ q ∈ db.publications device updates, p.Accepted →
      q.update = p.update → q.before = p.after → q.Accepted ∧ q.after = q.before := by
  refine ⟨fun p hp => ?_, fun i j p q hij hp hq hrp hrq hbase => ?_,
    fun p hp q hq ha hu hcurrent => ?_⟩
  · have hswap := swap_of_mem hp
    refine ⟨fun hr => ?_, hswap.of_accepted, hswap.of_not_accepted⟩
    obtain ⟨hb, hid, -, h⟩ := hswap.of_replaces hr
    exact ⟨hb, hid, h⟩
  · obtain ⟨hpb, hpid, -, hpa⟩ := (swap_of_mem (List.mem_of_getElem? hp)).of_replaces hrp
    obtain ⟨hqb, -⟩ := (swap_of_mem (List.mem_of_getElem? hq)).of_replaces hrq
    refine exists_replacement hij hp hq ?_ (hqb.trans hbase.symm)
    rw [hpa, ← hpb]
    exact hpid.symm
  · obtain ⟨before, hp', hopen⟩ := publication_of_mem hp
    obtain ⟨later, hq', hopen'⟩ := publication_of_mem hq
    rw [(swap_of_mem hp).of_accepted ha, ← hu] at hcurrent
    rw [hp'] at ha
    have hpublishable : later.Publishable device q.update := by
      rw [hopen', hu, ← hopen]
      exact publishable_of_accepted ha
    have hindex : later.index device = some q.update.inventory := by
      rw [← hcurrent, hq']
      rfl
    have hsame := publish_of_same hpublishable hindex
    rw [hq']
    exact ⟨⟨q.update.inventory, by rw [publication, hsame, hindex]⟩, by rw [publication, hsame]⟩

end Database

/-- A directory that goes back to its first inventory before the second update arrives. -/
def revertedDirectory : List InventoryUpdate :=
  let inventory (id : String) (size : Nat) : Inventory :=
    { id := id, entries := [⟨"a.png", String.ofList (List.replicate 64 'a'), size⟩] }
  [⟨none, inventory "00000000-0000-4000-8000-0000000000a0" 0⟩,
    ⟨some "00000000-0000-4000-8000-0000000000a0", inventory "00000000-0000-4000-8000-0000000000a1" 1⟩,
    ⟨some "00000000-0000-4000-8000-0000000000a1", inventory "00000000-0000-4000-8000-0000000000a0" 0⟩,
    ⟨some "00000000-0000-4000-8000-0000000000a0", inventory "00000000-0000-4000-8000-0000000000a2" 2⟩]

/-- Of two different updates based on one stored index both can be accepted. -/
theorem publications_share_base :
    ¬∀ (db : Database) (device : String) (updates : List InventoryUpdate),
      ∀ p ∈ db.publications device updates, ∀ q ∈ db.publications device updates,
        p.before = q.before → p.update.previousId = p.before.map (·.id) →
        q.update.previousId = q.before.map (·.id) → p.update ≠ q.update →
        ¬(p.Accepted ∧ q.Accepted) := by
  intro h
  have hp := List.getElem_mem (l := Database.initial.publications
    "folder_00000000-0000-4000-8000-000000000001" revertedDirectory) (n := 1) (by decide)
  have hq := List.getElem_mem (l := Database.initial.publications
    "folder_00000000-0000-4000-8000-000000000001" revertedDirectory) (n := 3) (by decide)
  exact h _ _ _ _ hp _ hq (by decide) (by decide +kernel) (by decide +kernel)
    (by decide) ⟨by decide +kernel, by decide +kernel⟩

end MiRelay
