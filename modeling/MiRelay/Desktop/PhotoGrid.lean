import Mathlib
import MiRelay.Core.Splice
import MiRelay.Desktop.Photos

/-!
# The photo grid

The grid shows the photos of the current page. A new page is compared with the
shown one from both ends, and only what lies between is replaced in the list
store; the objects on both sides are kept, and with them their thumbnails. The
comparison works on a copy of the photos beside the store, which must hold the
same ones after every call.
-/

namespace MiRelay

namespace Photos

/-- An object of the list store. -/
structure Item where
  identity : Nat
  photo : Photo
  deriving DecidableEq, Repr

/-- The part of an album that changes with its entries, and how many objects it has created. -/
structure AlbumGrid where
  photos : List Photo
  store : List Item
  created : Nat
  deriving DecidableEq, Repr

/-- `as u32`. -/
def asU32 (n : Nat) : Nat := n % 2 ^ 32

/-- `g_list_store_splice`, which does nothing unless the range is within the store. -/
def spliceStore (store : List Item) (position removals : Nat) (added : List Item) : List Item :=
  if position + removals < 2 ^ 32 ∧ position + removals ≤ store.length then
    replaceRange store position removals (added.take (asU32 added.length))
  else store

namespace AlbumGrid

def new : AlbumGrid := ⟨[], [], 0⟩

/-- New objects for some photos, behind so many others. -/
def newItems (created : Nat) : List Photo → List Item
  | [] => []
  | photo :: photos => ⟨created, photo⟩ :: newItems (created + 1) photos

def clear (grid : AlbumGrid) : AlbumGrid := { grid with photos := [], store := [] }

/-- `set_entries`; none is a panic of a slice or of a subtraction. -/
def setEntries (grid : AlbumGrid) (entries : List FileEntry) (root : PathBuf) : Option AlbumGrid :=
  let photos := photosOf entries root
  if grid.photos = photos then some grid
  else do
    let front := commonLength grid.photos photos
    let oldRest ← slice grid.photos front grid.photos.length
    let newRest ← slice photos front photos.length
    let back := commonLength oldRest.reverse newRest.reverse
    let rest ← checkedSub grid.photos.length front
    let remove ← checkedSub rest back
    let stop ← checkedSub photos.length back
    let middle ← slice photos front stop
    let added := newItems grid.created middle
    return {
      photos
      store := spliceStore grid.store (asU32 front) (asU32 remove) added
      created := grid.created + added.length }

end AlbumGrid

/-- A call of the window. -/
inductive GridCall
  | setEntries (entries : List FileEntry) (root : PathBuf)
  | clear

namespace AlbumGrid

def perform (grid : AlbumGrid) : GridCall → Option AlbumGrid
  | .setEntries entries root => grid.setEntries entries root
  | .clear => some grid.clear

/-- The grid after the calls. -/
def run (grid : AlbumGrid) (calls : List GridCall) : Option AlbumGrid := calls.foldlM perform grid

end AlbumGrid

/-- What the grid has to show behind a call. -/
def GridCall.shown : GridCall → List Photo
  | .setEntries entries root => photosOf entries root
  | .clear => []

/-- What the grid has to show behind the calls. -/
def shownBehind (calls : List GridCall) : List Photo := (calls.getLast?.map (·.shown)).getD []

/-- The photos of a call can be counted by the list store, which has 32 bits for it. -/
def GridCall.Countable (call : GridCall) : Prop := call.shown.length < 2 ^ 32

/-- The store holds the photos, in objects of their own that it created. -/
structure AlbumGrid.Shows (grid : AlbumGrid) : Prop where
  photos : grid.store.map (·.photo) = grid.photos
  countable : grid.photos.length < 2 ^ 32
  distinct : (grid.store.map (·.identity)).Nodup
  old : ∀ item ∈ grid.store, item.identity < grid.created

/-- A step of the grid keeps the objects on both sides of what differs, and creates those between
them. -/
structure AlbumGrid.Keeps (grid next : AlbumGrid) (front removed added back : List Item) : Prop where
  before : grid.store = front ++ removed ++ back
  behind : next.store = front ++ added ++ back
  middles : Middles grid.photos next.photos (front.map (·.photo)) (removed.map (·.photo))
    (added.map (·.photo)) (back.map (·.photo))
  created : ∀ item ∈ added, grid.created ≤ item.identity

namespace AlbumGrid

variable {grid : AlbumGrid} {entries : List FileEntry} {root : PathBuf}

@[simp] theorem photos_newItems (created : Nat) (photos : List Photo) :
    (newItems created photos).map (·.photo) = photos := by
  induction photos generalizing created with
  | nil => rfl
  | cons photo photos ih => rw [newItems, List.map_cons, ih]

theorem identities_newItems (created : Nat) (photos : List Photo) :
    (newItems created photos).map (·.identity) = List.range' created photos.length := by
  induction photos generalizing created with
  | nil => rfl
  | cons photo photos ih => rw [newItems, List.map_cons, ih, List.length_cons, List.range'_succ]

@[simp] theorem length_newItems (created : Nat) (photos : List Photo) :
    (newItems created photos).length = photos.length := by
  have h := congrArg List.length (photos_newItems created photos)
  rwa [List.length_map] at h

theorem mem_newItems {created : Nat} {photos : List Photo} {item : Item}
    (h : item ∈ newItems created photos) :
    created ≤ item.identity ∧ item.identity < created + photos.length := by
  have hmem : item.identity ∈ (newItems created photos).map (·.identity) :=
    List.mem_map_of_mem h
  rwa [identities_newItems, List.mem_range'_1] at hmem

/-- A call ends without a panic. The photos on both sides of what differs do not overlap. -/
theorem setEntries_cases (grid : AlbumGrid) (entries : List FileEntry) (root : PathBuf) :
    (grid.setEntries entries root = some grid ∧ grid.photos = photosOf entries root) ∨
    ∃ front xs ys back, Middles grid.photos (photosOf entries root) front xs ys back ∧
      grid.setEntries entries root = some
        { photos := photosOf entries root
          store := spliceStore grid.store (asU32 front.length) (asU32 xs.length)
            (newItems grid.created ys)
          created := grid.created + ys.length } := by
  by_cases heq : grid.photos = photosOf entries root
  · exact .inl ⟨if_pos heq, heq⟩
  · obtain ⟨front, xs, ys, back, hmiddles, hfront, hback⟩ :=
      exists_middles grid.photos (photosOf entries root)
    refine .inr ⟨front, xs, ys, back, hmiddles, ?_⟩
    have hold : grid.photos.length = front.length + xs.length + back.length := by
      rw [hmiddles.left, List.length_append, List.length_append]
    have hnew : (photosOf entries root).length = front.length + ys.length + back.length := by
      rw [hmiddles.right, List.length_append, List.length_append]
    have hmiddle : slice (photosOf entries root) front.length
        ((photosOf entries root).length - back.length) = some ys := by
      have hparts := slice_parts front ys back
      rwa [← hmiddles.right] at hparts
    have hremove : grid.photos.length - front.length - back.length = xs.length := by omega
    simp only [setEntries, if_neg heq, ← hfront]
    rw [slice_eq_some (by omega) (Nat.le_refl _), slice_eq_some (by omega) (Nat.le_refl _),
      checkedSub_eq_some (by omega)]
    simp only [Option.bind_eq_bind, Option.bind_some, List.take_length, ← hback]
    rw [checkedSub_eq_some (by omega), checkedSub_eq_some (by omega)]
    simp only [Option.bind_some, hmiddle, hremove, length_newItems, pure]

/-- Replacing what differs makes a store of the shown photos one of the new ones. -/
theorem spliceStore_of_middles {store : List Item} {photos photos' front xs ys back : List Photo}
    (hmiddles : Middles photos photos' front xs ys back) (hstore : store.map (·.photo) = photos)
    (hold : photos.length < 2 ^ 32) (hnew : photos'.length < 2 ^ 32) {added : List Item}
    (hadded : added.map (·.photo) = ys) : ∃ front' removed back',
      store = front' ++ removed ++ back' ∧ front'.map (·.photo) = front ∧
      removed.map (·.photo) = xs ∧ back'.map (·.photo) = back ∧
      spliceStore store (asU32 front.length) (asU32 xs.length) added = front' ++ added ++ back' := by
  obtain ⟨front', removed, back', hparts, rfl, rfl, rfl⟩ :=
    exists_parts (hstore.trans hmiddles.left)
  refine ⟨front', removed, back', hparts, rfl, rfl, rfl, ?_⟩
  have hlength := congrArg List.length hparts
  have hphotos := congrArg List.length hstore
  have hlength' := congrArg List.length hmiddles.right
  simp only [List.length_append, List.length_map] at hlength hphotos hlength'
  have hys : ys.length = added.length := by rw [← hadded, List.length_map]
  have hu32 (n : Nat) (h : n < 2 ^ 32) : asU32 n = n := Nat.mod_eq_of_lt h
  rw [List.length_map, List.length_map, hu32 _ (by omega), hu32 _ (by omega), spliceStore,
    if_pos (by omega), hu32 _ (by omega), List.take_length, hparts, replaceRange_parts]

/-- Objects that are kept and new ones are different objects. -/
theorem distinct_replaced {front removed back added : List Item} {created : Nat}
    (hdistinct : ((front ++ removed ++ back).map (·.identity)).Nodup)
    (hold : ∀ item ∈ front ++ removed ++ back, item.identity < created)
    (hadded : (added.map (·.identity)).Nodup) (hnew : ∀ item ∈ added, created ≤ item.identity) :
    ((front ++ added ++ back).map (·.identity)).Nodup := by
  have hsub : (front ++ back).Sublist (front ++ removed ++ back) :=
    (List.sublist_append_left front removed).append_right back
  have hperm : (front ++ added ++ back).Perm (added ++ (front ++ back)) := by
    rw [← List.append_assoc]
    exact List.perm_append_comm.append_right back
  rw [(hperm.map _).nodup_iff, List.map_append, List.nodup_append]
  refine ⟨hadded, hdistinct.sublist (hsub.map _), fun id hid id' hid' heq => ?_⟩
  obtain ⟨item, hmem, rfl⟩ := List.mem_map.mp hid
  obtain ⟨item', hmem', rfl⟩ := List.mem_map.mp hid'
  have hlt := hold item' (hsub.mem hmem')
  have hle := hnew item hmem
  omega

/-- A call keeps a grid that shows its photos, and the objects on both sides of what differs. -/
theorem Shows.setEntries (h : grid.Shows) (hcount : (photosOf entries root).length < 2 ^ 32) :
    ∃ next front removed added back, grid.setEntries entries root = some next ∧
      next.photos = photosOf entries root ∧ next.Shows ∧ grid.Keeps next front removed added back := by
  rcases setEntries_cases grid entries root with ⟨hresult, heq⟩ | ⟨front, xs, ys, back, hmiddles,
    hresult⟩
  · refine ⟨grid, grid.store, [], [], [], hresult, heq, h, by simp, by simp, ?_, nofun⟩
    exact ⟨by simp [h.photos], by simp [h.photos], nofun, nofun⟩
  · obtain ⟨front', removed, back', hparts, rfl, rfl, rfl, hsplice⟩ := spliceStore_of_middles
      hmiddles h.photos h.countable hcount (photos_newItems grid.created ys)
    rw [hsplice] at hresult
    have hold := h.old
    have hdistinct := h.distinct
    rw [hparts] at hold hdistinct
    have hnew (item : Item) (hmem : item ∈ newItems grid.created ys) := mem_newItems hmem
    refine ⟨_, front', removed, newItems grid.created ys, back', hresult, rfl, ⟨?_, hcount, ?_,
      fun item hmem => ?_⟩, hparts, rfl, ?_, fun item hmem => (hnew item hmem).1⟩
    · rw [List.map_append, List.map_append, photos_newItems]
      exact hmiddles.right.symm
    · refine distinct_replaced hdistinct hold ?_ fun item hmem => (hnew item hmem).1
      rw [identities_newItems]
      exact List.nodup_range'
    · rw [List.mem_append, List.mem_append] at hmem
      rcases hmem with (hmem | hmem) | hmem
      · exact Nat.lt_add_right _ (hold item (by simp [hmem]))
      · exact (hnew item hmem).2
      · exact Nat.lt_add_right _ (hold item (by simp [hmem]))
    · rwa [photos_newItems]

theorem clear_shows (grid : AlbumGrid) : grid.clear.Shows :=
  ⟨rfl, Nat.two_pow_pos 32, List.nodup_nil, nofun⟩

/-- A call ends without a panic, and the copy beside the store has the photos of that call. -/
theorem perform_photos (grid : AlbumGrid) (call : GridCall) :
    ∃ next, grid.perform call = some next ∧ next.photos = call.shown := by
  cases call with
  | setEntries entries root =>
    rcases setEntries_cases grid entries root with ⟨hresult, heq⟩ | ⟨_, _, _, _, _, hresult⟩
    · exact ⟨grid, hresult, heq⟩
    · exact ⟨_, hresult, rfl⟩
  | clear => exact ⟨grid.clear, rfl, rfl⟩

theorem Shows.perform (h : grid.Shows) {call : GridCall} (hcall : call.Countable) {next : AlbumGrid}
    (hnext : grid.perform call = some next) : next.Shows := by
  cases call with
  | setEntries entries root =>
    obtain ⟨_, _, _, _, _, hresult, -, hshows, -⟩ := h.setEntries hcall
    rwa [← Option.some.inj (hresult.symm.trans hnext)]
  | clear =>
    rw [← Option.some.inj hnext]
    exact grid.clear_shows

/-- Any calls end without a panic in a grid with the photos of the last one, which the store shows
if it can count those of each call. -/
theorem run_shows (calls : List GridCall) : ∃ grid, new.run calls = some grid ∧
    grid.photos = shownBehind calls ∧ ((∀ call ∈ calls, call.Countable) → grid.Shows) := by
  induction calls using List.reverseRecOn with
  | nil => exact ⟨new, rfl, rfl, fun _ => ⟨rfl, Nat.two_pow_pos 32, List.nodup_nil, nofun⟩⟩
  | append_singleton calls call ih =>
    obtain ⟨grid, hrun, -, hshows⟩ := ih
    obtain ⟨next, hnext, hphotos⟩ := perform_photos grid call
    refine ⟨next, ?_, ?_, fun hcount => ?_⟩
    · rw [run, List.foldlM_append, ← run, hrun]
      simpa using hnext
    · rw [hphotos, shownBehind, List.getLast?_concat]
      rfl
    · rw [List.forall_mem_append] at hcount
      exact (hshows hcount.1).perform (hcount.2 call (by simp)) hnext

end AlbumGrid

/-- Behind any calls the grid has the photos of the last one, without a panic on the way. While each
call has as many photos as the list store can count, the store shows exactly these in order, and
the next call keeps the objects on both sides of what it changes. -/
theorem grid_incremental (calls : List GridCall) :
    ∃ grid, AlbumGrid.new.run calls = some grid ∧ grid.photos = shownBehind calls ∧
      (∀ call, ∃ next, grid.perform call = some next ∧ next.photos = call.shown) ∧
      ((∀ call ∈ calls, call.Countable) →
        grid.store.map (·.photo) = shownBehind calls ∧ (grid.store.map (·.identity)).Nodup ∧
        ∀ entries root, (photosOf entries root).length < 2 ^ 32 →
          ∃ next front removed added back, grid.setEntries entries root = some next ∧
            grid.Keeps next front removed added back) := by
  obtain ⟨grid, hrun, hphotos, hshows⟩ := AlbumGrid.run_shows calls
  refine ⟨grid, hrun, hphotos, grid.perform_photos, fun hcount => ?_⟩
  have h := hshows hcount
  refine ⟨h.photos.trans hphotos, h.distinct, fun entries root hsize => ?_⟩
  obtain ⟨next, front, removed, added, back, hresult, -, -, hkeeps⟩ := h.setEntries hsize
  exact ⟨next, front, removed, added, back, hresult, hkeeps⟩

end Photos

end MiRelay
