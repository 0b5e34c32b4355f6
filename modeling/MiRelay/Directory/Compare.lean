import MiRelay.Directory.Inventory

/-!
# What a successful comparison says

A comparison that returns a result found both sides valid and without
collisions. Its lists are the source paths that the receiver lacks and those it
holds differently, in source order; every other source entry is identical. The
comparison with the reported state uses, for each path, the pending version if
there is one and otherwise the published entry.
-/

namespace MiRelay

/-- Looking up a path of a valid inventory finds its entry. -/
theorem lookup_entriesByPath {entries : List InventoryEntry} (h : (entries.map (·.path)).Nodup)
    {p : String} {e : InventoryEntry} :
    (entriesByPath entries).lookup p = some e ↔ e ∈ entries ∧ e.path = p := by
  rw [entriesByPath, Files.lookup_insertAll_eq_some h]
  constructor
  · rintro (⟨a, ha, hp, rfl⟩ | ⟨-, h⟩)
    · exact ⟨ha, hp⟩
    · simp at h
  · rintro ⟨he, hp⟩
    exact Or.inl ⟨e, he, hp, rfl⟩

/-- The names of the map are the paths of the inventory. -/
theorem mem_keys_entriesByPath {entries : List InventoryEntry}
    (h : (entries.map (·.path)).Nodup) {p : String} :
    p ∈ (entriesByPath entries).keys ↔ p ∈ entries.map (·.path) := by
  rw [Files.mem_keys_iff, List.mem_map]
  exact exists_congr fun e => lookup_entriesByPath h

/-- The three-way classification of the source entries by what the receiver has. -/
theorem foldl_classify (targets : Files String InventoryEntry) (entries : List InventoryEntry)
    (c : Comparison) :
    (entries.foldl (classify targets) c).missing = c.missing ++
        (entries.filter fun e => (targets.lookup e.path).isNone).map (·.path) ∧
      (entries.foldl (classify targets) c).different = c.different ++
        (entries.filter fun e => match targets.lookup e.path with
          | none => false
          | some other => !(other.sha256 = e.sha256 ∧ other.size = e.size : Bool)).map (·.path) := by
  induction entries generalizing c with
  | nil => simp
  | cons e rest ih =>
    rw [List.foldl_cons, (ih _).1, (ih _).2, List.filter_cons, List.filter_cons]
    cases h : targets.lookup e.path with
    | none => simp [classify, h]
    | some other =>
      by_cases hsame : other.sha256 = e.sha256 ∧ other.size = e.size
      · simp [classify, h, hsame]
      · simp [classify, h, hsame]

/-- A successful comparison found valid inventories whose paths do not collide. -/
structure Compared (source : Inventory) (receiver : Inventory) (c : Comparison) : Prop where
  /-- The source was validated. -/
  sourceValid : source.Valid
  /-- The receiver was validated. -/
  receiverValid : receiver.Valid
  /-- No path of either side lies below a path of either side. -/
  separate : ∀ p ∈ source.entries.map (·.path) ++ receiver.entries.map (·.path),
    ∀ a ∈ source.entries.map (·.path) ++ receiver.entries.map (·.path), ¬IsAncestor a p
  /-- The missing paths are those the receiver does not list. -/
  missing : c.missing = (source.entries.filter fun e =>
    ((entriesByPath receiver.entries).lookup e.path).isNone).map (·.path)
  /-- The different paths are those the receiver lists otherwise. -/
  different : c.different = (source.entries.filter fun e =>
    match (entriesByPath receiver.entries).lookup e.path with
    | none => false
    | some other => !(other.sha256 = e.sha256 ∧ other.size = e.size : Bool)).map (·.path)

theorem compare_ok {source receiver : Inventory} {c : Comparison}
    (h : compare source receiver = .ok c) : Compared source receiver c := by
  simp only [compare, bind_eq_ok, ensure_eq_ok, pure_eq_ok, Inventory.validate_ok] at h
  obtain ⟨_, hsource, _, hreceiver, _, hsep, rfl⟩ := h
  obtain ⟨hmissing, hdifferent⟩ :=
    foldl_classify (entriesByPath receiver.entries) source.entries ⟨0, [], [], 0⟩
  refine ⟨hsource, hreceiver, ?_, hmissing, hdifferent⟩
  rw [noCollision_iff] at hsep
  have hkeys : ∀ p, p ∈ source.entries.map (·.path) ++ receiver.entries.map (·.path) →
      p ∈ source.entries.map (·.path) ++ (entriesByPath receiver.entries).keys := by
    intro p hp
    rw [List.mem_append, mem_keys_entriesByPath hreceiver.nodup, ← List.mem_append]
    exact hp
  exact fun p hp a ha => hsep p (hkeys p hp) a (hkeys a ha)

/-- A source entry neither missing nor different is what the receiver has. -/
theorem Compared.identical {source receiver : Inventory} {c : Comparison}
    (h : Compared source receiver c) {e : InventoryEntry} (he : e ∈ source.entries)
    (hm : e.path ∉ c.missing) (hd : e.path ∉ c.different) :
    ∃ other, (entriesByPath receiver.entries).lookup e.path = some other ∧
      other.sha256 = e.sha256 ∧ other.size = e.size := by
  cases hl : (entriesByPath receiver.entries).lookup e.path with
  | none =>
    rw [h.missing] at hm
    exact absurd (List.mem_map_of_mem (List.mem_filter.mpr ⟨he, by simp [hl]⟩)) hm
  | some other =>
    refine ⟨other, rfl, ?_⟩
    by_contra hne
    rw [h.different] at hd
    exact hd (List.mem_map_of_mem (List.mem_filter.mpr ⟨he, by
      simpa [hl, -not_and, not_and_or] using hne⟩))

/-- The paths a sender still has to send after the comparison. -/
def Comparison.changed (c : Comparison) : List String := c.missing ++ c.different

/-- No path is listed twice among the missing and different ones. -/
theorem Compared.changed_nodup {source receiver : Inventory} {c : Comparison}
    (h : Compared source receiver c) : c.changed.Nodup := by
  rw [Comparison.changed, h.missing, h.different, List.nodup_append]
  refine ⟨h.sourceValid.nodup.sublist (List.filter_sublist.map _),
    h.sourceValid.nodup.sublist (List.filter_sublist.map _), ?_⟩
  intro p hp q hq hpq
  obtain ⟨e, he, rfl⟩ := List.mem_map.mp hp
  obtain ⟨f, hf, rfl⟩ := List.mem_map.mp hq
  rw [List.mem_filter] at he hf
  have := h.sourceValid.eq_of_path he.1 hf.1 hpq
  subst this
  have hnone : (entriesByPath receiver.entries).lookup e.path = none := by simpa using he.2
  simp [hnone] at hf

/-- The checks of one reported entry. -/
def DirectoryEntry.Valid (e : DirectoryEntry) : Prop :=
  DirectoryVersion.validate { path := e.path, version := e.version } = .ok () ∧
    validateDeliveryId e.deliveryId = .ok () ∧
    validateDeliveryMetadata e.delivery maxFile = .ok ()

/-- The checks accept exactly lists of valid entries without repeated paths. -/
theorem validateReported_ok {paths : List String} {entries : List DirectoryEntry} {u : Unit} :
    validateReported paths entries = .ok u ↔
      (∀ e ∈ entries, e.Valid) ∧ (entries.map (·.path)).Nodup ∧ ∀ e ∈ entries, e.path ∉ paths := by
  induction entries generalizing paths with
  | nil => simp [validateReported]
  | cons e rest ih =>
    simp only [validateReported, bind_eq_ok, ensure_eq_ok, ih, Bool.not_eq_true',
      List.contains_eq_mem, decide_eq_false_iff_not, List.mem_cons, forall_eq_or_imp, not_or,
      List.map_cons, List.nodup_cons, List.mem_map, not_exists, not_and, DirectoryEntry.Valid]
    constructor
    · rintro ⟨_, hv, _, hid, _, hmeta, _, hnew, hall, hnodup, hfree⟩
      exact ⟨⟨⟨hv, hid, hmeta⟩, hall⟩, ⟨fun f hf => (hfree f hf).1, hnodup⟩, hnew,
        fun f hf => (hfree f hf).2⟩
    · rintro ⟨⟨⟨hv, hid, hmeta⟩, hall⟩, ⟨hne, hnodup⟩, hnew, hfree⟩
      exact ⟨(), hv, (), hid, (), hmeta, (), hnew, hall, hnodup, fun f hf => ⟨hne f hf, hfree f hf⟩⟩

/-- What a valid directory state says of its parts. -/
theorem DirectoryState.validate_ok {state : DirectoryState} {u : Unit}
    (h : state.validate = .ok u) :
    (∀ inventory, state.receiver = some inventory → inventory.Valid) ∧
      (∀ e ∈ state.entries, e.Valid) ∧ (state.entries.map (·.path)).Nodup := by
  simp only [validate, bind_eq_ok, ensure_eq_ok] at h
  obtain ⟨_, -, _, hreceiver, hentries⟩ := h
  obtain ⟨hall, hnodup, -⟩ := validateReported_ok.mp hentries
  refine ⟨?_, hall, hnodup⟩
  intro inventory hi
  rw [hi] at hreceiver
  exact Inventory.validate_ok.mp hreceiver

/-- What the receiver is expected to hold at a path: the pending version, else the
published entry. -/
theorem lookup_expectedEntries {receiver : Inventory} {entries : List DirectoryEntry}
    (hreceiver : (receiver.entries.map (·.path)).Nodup)
    (hentries : (entries.map (·.path)).Nodup) {p : String} {e : InventoryEntry} :
    (expectedEntries receiver entries).lookup p = some e ↔
      (∃ d ∈ entries, d.acknowledged = false ∧ d.path = p ∧
        ({ path := d.path, sha256 := d.sha256, size := d.size } : InventoryEntry) = e) ∨
      ((∀ d ∈ entries, d.path = p → d.acknowledged = true) ∧
        e ∈ receiver.entries ∧ e.path = p) := by
  have hpending : ((entries.filter (!·.acknowledged)).map (·.path)).Nodup :=
    hentries.sublist (List.filter_sublist.map _)
  rw [expectedEntries, Files.lookup_insertAll_eq_some hpending, lookup_entriesByPath hreceiver]
  simp only [List.mem_filter, Bool.not_eq_true', List.mem_map, not_exists, not_and, and_assoc]
  refine or_congr Iff.rfl (and_congr ?_ Iff.rfl)
  constructor
  · intro h d hd hp
    by_contra hack
    exact h d hd (by simpa using hack) hp
  · intro h d hd hack hp
    rw [h d hd hp] at hack
    contradiction

/-- Every expected entry is stored under its own path. -/
theorem path_of_lookup_expectedEntries {receiver : Inventory} {entries : List DirectoryEntry}
    (hreceiver : (receiver.entries.map (·.path)).Nodup)
    (hentries : (entries.map (·.path)).Nodup) {p : String} {e : InventoryEntry}
    (h : (expectedEntries receiver entries).lookup p = some e) : e.path = p := by
  rcases (lookup_expectedEntries hreceiver hentries).mp h with ⟨d, -, -, rfl, rfl⟩ | ⟨-, -, hp⟩
  · rfl
  · exact hp

/-- A successful comparison with a reported state. -/
theorem compareRemote_ok {source : Inventory} {remote : DirectoryState} {c : Comparison}
    (h : compareRemote source remote = .ok c) :
    remote.validate = .ok () ∧ ∃ receiver, remote.receiver = some receiver ∧
      Compared source
        { id := receiver.id, entries := (expectedEntries receiver remote.entries).values } c := by
  simp only [compareRemote, bind_eq_ok] at h
  obtain ⟨_, hv, receiver, hr, hc⟩ := h
  refine ⟨hv, receiver, ?_, compare_ok hc⟩
  split at hr
  · rename_i r hr'
    rw [hr', Except.ok.inj hr]
  · contradiction

/-- A path that looks identical is expected with the source's digest and size. -/
theorem compareRemote_identical {source : Inventory} {remote : DirectoryState} {c : Comparison}
    (h : compareRemote source remote = .ok c) {e : InventoryEntry} (he : e ∈ source.entries)
    (hc : e.path ∉ c.changed) :
    ∃ receiver, remote.receiver = some receiver ∧
      ∃ other, (expectedEntries receiver remote.entries).lookup e.path = some other ∧
        other.sha256 = e.sha256 ∧ other.size = e.size := by
  obtain ⟨hv, receiver, hr, hcmp⟩ := compareRemote_ok h
  obtain ⟨hreceiver, -, hnodup⟩ := DirectoryState.validate_ok hv
  rw [Comparison.changed, List.mem_append, not_or] at hc
  obtain ⟨other, hl, hsha, hsize⟩ := hcmp.identical he hc.1 hc.2
  obtain ⟨hmem, hp⟩ := (lookup_entriesByPath hcmp.receiverValid.nodup).mp hl
  obtain ⟨k, hk⟩ := (Files.mem_values_iff _ _).mp hmem
  have := path_of_lookup_expectedEntries (hreceiver receiver hr).nodup hnodup hk
  rw [← this, hp] at hk
  exact ⟨receiver, hr, other, hk, hsha, hsize⟩

/-! ### The comparison against its specification -/

/-- The inventory lists the source entry's path with the same digest and size. -/
def Inventory.Holds (receiver : Inventory) (e : InventoryEntry) : Prop :=
  ∃ f ∈ receiver.entries, f.path = e.path ∧ f.sha256 = e.sha256 ∧ f.size = e.size

instance (receiver : Inventory) (e : InventoryEntry) : Decidable (receiver.Holds e) :=
  inferInstanceAs (Decidable (∃ f ∈ receiver.entries, _))

/-- The inventory lists no entry at the path. -/
def Inventory.Lacks (receiver : Inventory) (path : String) : Prop :=
  path ∉ receiver.entries.map (·.path)

instance (receiver : Inventory) (path : String) : Decidable (receiver.Lacks path) :=
  inferInstanceAs (Decidable (path ∉ _))

/-- No path of either inventory lies below a path of either. -/
def Inventory.Apart (source receiver : Inventory) : Prop :=
  ∀ p ∈ source.entries.map (·.path) ++ receiver.entries.map (·.path),
    ∀ a ∈ source.entries.map (·.path) ++ receiver.entries.map (·.path), ¬IsAncestor a p

/-- The comparison in terms of the two inventories alone. -/
def specification (source receiver : Inventory) : Comparison where
  identical := source.entries.countP fun e => receiver.Holds e
  missing := (source.entries.filter fun e => receiver.Lacks e.path).map (·.path)
  different := (source.entries.filter fun e => ¬receiver.Lacks e.path ∧ ¬receiver.Holds e).map
    (·.path)
  destinationOnly := receiver.entries.countP fun f => source.Lacks f.path

/-- A path is absent from the map exactly if the inventory lacks it. -/
theorem lookup_entriesByPath_eq_none {receiver : Inventory}
    (h : (receiver.entries.map (·.path)).Nodup) {p : String} :
    (entriesByPath receiver.entries).lookup p = none ↔ receiver.Lacks p := by
  rw [AList.lookup_eq_none, Inventory.Lacks, ← mem_keys_entriesByPath h, AList.mem_keys]

/-- What is found at an entry's path decides whether the receiver holds it. -/
theorem holds_iff_of_lookup {receiver : Inventory} (h : (receiver.entries.map (·.path)).Nodup)
    {e other : InventoryEntry} (ho : (entriesByPath receiver.entries).lookup e.path = some other) :
    receiver.Holds e ↔ other.sha256 = e.sha256 ∧ other.size = e.size := by
  obtain ⟨hmem, hpath⟩ := (lookup_entriesByPath h).mp ho
  constructor
  · rintro ⟨f, hf, hp, hsame⟩
    rw [List.inj_on_of_nodup_map h hmem hf (hpath.trans hp.symm)]
    exact hsame
  · exact fun hsame => ⟨other, hmem, hpath, hsame⟩

/-- A path that the receiver lacks is not held. -/
theorem Inventory.Lacks.not_holds {receiver : Inventory} {e : InventoryEntry}
    (h : receiver.Lacks e.path) : ¬receiver.Holds e := by
  rintro ⟨f, hf, hp, -⟩
  exact h (List.mem_map.mpr ⟨f, hf, hp⟩)

/-- The loop over the source entries adds up what the specification says of them. -/
theorem foldl_classify_specification {receiver : Inventory}
    (h : (receiver.entries.map (·.path)).Nodup) (entries : List InventoryEntry) (c : Comparison) :
    entries.foldl (classify (entriesByPath receiver.entries)) c =
      { identical := c.identical + entries.countP fun e => receiver.Holds e
        missing := c.missing ++ (entries.filter fun e => receiver.Lacks e.path).map (·.path)
        different := c.different ++
          (entries.filter fun e => ¬receiver.Lacks e.path ∧ ¬receiver.Holds e).map (·.path)
        destinationOnly := c.destinationOnly } := by
  induction entries generalizing c with
  | nil => simp
  | cons e rest ih =>
    rw [List.foldl_cons, ih, List.countP_cons, List.filter_cons, List.filter_cons, classify]
    cases hl : (entriesByPath receiver.entries).lookup e.path with
    | none =>
      have hlacks := (lookup_entriesByPath_eq_none h).mp hl
      simp [hlacks, hlacks.not_holds]
    | some other =>
      have hlists : ¬receiver.Lacks e.path := by
        rw [← lookup_entriesByPath_eq_none h, hl]
        exact Option.some_ne_none other
      by_cases hsame : other.sha256 = e.sha256 ∧ other.size = e.size
      · have hholds := (holds_iff_of_lookup h hl).mpr hsame
        simp [hlists, hholds, hsame]
        omega
      · have hdiffers : ¬receiver.Holds e := by rwa [holds_iff_of_lookup h hl]
        simp [hlists, hdiffers, hsame]

/-- The paths of the map are those of the inventory, in another order. -/
theorem keys_entriesByPath_perm {entries : List InventoryEntry}
    (h : (entries.map (·.path)).Nodup) :
    (entriesByPath entries).keys.Perm (entries.map (·.path)) :=
  (List.perm_ext_iff_of_nodup (AList.keys_nodup _) h).mpr fun _ => mem_keys_entriesByPath h

/-- The collision test of the comparison looks at the paths of both sides. -/
theorem noCollision_keys {source receiver : Inventory}
    (h : (receiver.entries.map (·.path)).Nodup) :
    noCollision (source.entries.map (·.path) ++ (entriesByPath receiver.entries).keys) = true ↔
      source.Apart receiver := by
  have hperm := (keys_entriesByPath_perm h).append_left (source.entries.map (·.path))
  rw [noCollision_iff, Inventory.Apart]
  constructor
  · exact fun hsep p hp a ha => hsep p (hperm.mem_iff.mpr hp) a (hperm.mem_iff.mpr ha)
  · exact fun hsep p hp a ha => hsep p (hperm.mem_iff.mp hp) a (hperm.mem_iff.mp ha)

/-- The count over the map is the count over the receiver's entries. -/
theorem length_destinationOnly {source receiver : Inventory}
    (h : (receiver.entries.map (·.path)).Nodup) :
    ((entriesByPath receiver.entries).keys.filter fun path =>
        !(source.entries.map (·.path)).contains path).length =
      receiver.entries.countP fun f => source.Lacks f.path := by
  rw [((keys_entriesByPath_perm h).filter _).length_eq, ← List.countP_eq_length_filter,
    List.countP_map]
  refine List.countP_congr fun f _ => ?_
  rw [Function.comp_apply, Bool.not_eq_true', List.contains_eq_mem, decide_eq_false_iff_not,
    decide_eq_true_eq, Inventory.Lacks]

/-- The comparison succeeds exactly for valid inventories without collisions, and its
result is the specified one. -/
theorem compare_eq_ok {source receiver : Inventory} {c : Comparison} :
    compare source receiver = .ok c ↔
      source.Valid ∧ receiver.Valid ∧ source.Apart receiver ∧ c = specification source receiver := by
  simp only [compare, bind_eq_ok, ensure_eq_ok, pure_eq_ok, Inventory.validate_ok]
  have hresult (hreceiver : receiver.Valid) := foldl_classify_specification hreceiver.nodup
    source.entries ⟨0, [], [], 0⟩
  simp only [Nat.zero_add, List.nil_append] at hresult
  constructor
  · rintro ⟨_, hsource, _, hreceiver, _, hsep, rfl⟩
    refine ⟨hsource, hreceiver, (noCollision_keys hreceiver.nodup).mp hsep, ?_⟩
    rw [hresult hreceiver, length_destinationOnly hreceiver.nodup, specification]
  · rintro ⟨hsource, hreceiver, hsep, rfl⟩
    refine ⟨(), hsource, (), hreceiver, (), (noCollision_keys hreceiver.nodup).mpr hsep, ?_⟩
    rw [hresult hreceiver, length_destinationOnly hreceiver.nodup, specification]

/-- The three classes cover every source entry once. -/
theorem specification_partition (source receiver : Inventory) :
    (specification source receiver).identical + (specification source receiver).missing.length +
      (specification source receiver).different.length = source.entries.length := by
  simp only [specification, List.length_map, ← List.countP_eq_length_filter]
  induction source.entries with
  | nil => rfl
  | cons e rest ih =>
    simp only [List.countP_cons, List.length_cons]
    by_cases hlacks : receiver.Lacks e.path
    · simp only [hlacks, hlacks.not_holds, not_true_eq_false, false_and, decide_false, decide_true,
        if_true] at ih ⊢
      grind
    · by_cases hholds : receiver.Holds e
      · simp [hlacks, hholds] at ih ⊢
        omega
      · simp [hlacks, hholds] at ih ⊢
        omega

/-- The receiver's validity does not depend on the order of its entries. -/
theorem Inventory.Valid.of_perm {inventory : Inventory} (h : inventory.Valid)
    {entries : List InventoryEntry} (hperm : entries.Perm inventory.entries) :
    ({ inventory with entries := entries } : Inventory).Valid where
  id := h.id
  length := hperm.length_eq ▸ h.length
  entry e he := h.entry e (hperm.mem_iff.mp he)
  nodup := (hperm.map _).nodup_iff.mpr h.nodup
  separate e he f hf := h.separate e (hperm.mem_iff.mp he) f (hperm.mem_iff.mp hf)

/-- The specified result does not depend on the order of the receiver's entries. -/
theorem specification_of_perm (source : Inventory) {receiver : Inventory}
    {entries : List InventoryEntry} (hperm : entries.Perm receiver.entries) :
    specification source { receiver with entries := entries } = specification source receiver := by
  have hholds (e : InventoryEntry) :
      ({ receiver with entries := entries } : Inventory).Holds e ↔ receiver.Holds e :=
    exists_congr fun f => and_congr_left fun _ => hperm.mem_iff
  have hlacks (p : String) :
      ({ receiver with entries := entries } : Inventory).Lacks p ↔ receiver.Lacks p :=
    not_congr (hperm.map _).mem_iff
  simp only [specification, hholds, hlacks, hperm.countP_eq]

/-- Neither does the success of the comparison. -/
theorem compare_of_perm {source receiver : Inventory} {entries : List InventoryEntry}
    (hperm : entries.Perm receiver.entries) {c : Comparison}
    (h : compare source receiver = .ok c) :
    compare source { receiver with entries := entries } = .ok c := by
  obtain ⟨hsource, hreceiver, hsep, rfl⟩ := compare_eq_ok.mp h
  refine compare_eq_ok.mpr ⟨hsource, hreceiver.of_perm hperm, ?_,
    (specification_of_perm source hperm).symm⟩
  have hpaths := (hperm.map (·.path)).append_left (source.entries.map (·.path))
  exact fun p hp a ha => hsep p (hpaths.mem_iff.mp hp) a (hpaths.mem_iff.mp ha)

/-- The comparison implements its specification: it succeeds exactly for valid inventories
none of whose paths lies below another, sorts every source entry into one of three classes
in source order, counts the receiver's other paths and ignores the receiver's order. -/
theorem compare_exact (source receiver : Inventory) :
    ((∃ c, compare source receiver = .ok c) ↔
      source.validate = .ok () ∧ receiver.validate = .ok () ∧ source.Apart receiver) ∧
    (∀ c, compare source receiver = .ok c →
      c = specification source receiver ∧
        c.identical + c.missing.length + c.different.length = source.entries.length ∧
        (c.missing ++ c.different).Nodup) ∧
    ∀ entries : List InventoryEntry, entries.Perm receiver.entries → ∀ c,
      compare source { receiver with entries := entries } = .ok c ↔
        compare source receiver = .ok c := by
  refine ⟨?_, ?_, ?_⟩
  · simp only [compare_eq_ok, Inventory.validate_ok]
    constructor
    · rintro ⟨_, hsource, hreceiver, hsep, -⟩
      exact ⟨hsource, hreceiver, hsep⟩
    · rintro ⟨hsource, hreceiver, hsep⟩
      exact ⟨_, hsource, hreceiver, hsep, rfl⟩
  · intro c h
    obtain ⟨-, -, -, hc⟩ := compare_eq_ok.mp h
    exact ⟨hc, hc ▸ specification_partition source receiver, (compare_ok h).changed_nodup⟩
  · intro entries hperm c
    exact ⟨@compare_of_perm source { receiver with entries := entries } _ hperm.symm _,
      compare_of_perm hperm⟩

/-- One entry of each class, and one only the receiver has. -/
def albumSource : Inventory where
  id := "00000000-0000-4000-8000-000000000001"
  entries := [⟨"a/b.png", String.ofList (List.replicate 64 'a'), 3⟩,
    ⟨"a/bc", String.ofList (List.replicate 64 'b'), 4⟩,
    ⟨"c", String.ofList (List.replicate 64 'c'), 5⟩]

def albumReceiver : Inventory where
  id := "00000000-0000-4000-8000-000000000002"
  entries := [⟨"c", String.ofList (List.replicate 64 'd'), 5⟩,
    ⟨"cd", String.ofList (List.replicate 64 'c'), 5⟩,
    ⟨"a/b.png", String.ofList (List.replicate 64 'a'), 3⟩]

theorem compare_exact_album :
    compare albumSource albumReceiver = .ok ⟨1, ["a/bc"], ["c"], 1⟩ ∧
      compare albumSource { albumReceiver with entries := albumReceiver.entries.reverse } =
        .ok ⟨1, ["a/bc"], ["c"], 1⟩ := by
  have h : compare albumSource albumReceiver = .ok ⟨1, ["a/bc"], ["c"], 1⟩ := by decide
  exact ⟨h, ((compare_exact albumSource albumReceiver).2.2 _ (List.reverse_perm _) _).mpr h⟩

end MiRelay
