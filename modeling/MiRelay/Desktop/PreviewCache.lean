import Mathlib
import MiRelay.Core.Splice
import MiRelay.Desktop.ImageHeaders
import MiRelay.Desktop.Photos

/-!
# The preview cache

Decoded previews are kept under the source, the size and a stamp of the file they
were made from, the one used last at the end. A call takes the stamp before
anything else and, behind a decoding, once more; files may change at any moment.
What it adds is counted, and entries are dropped from the front while the count is
above the limit, in a loop that would not end without entries to drop.
-/

namespace MiRelay

namespace Photos

/-- A decoded preview. A vector has less than `2^63` bytes. -/
structure Pixels where
  bytes : Bytes
  width : Int
  height : Int
  stride : Int
  alpha : Bool
  bound : bytes.length < 2 ^ 63
  deriving DecidableEq

def maxBytes : Nat := 32 * 1024 * 1024
def maxPixels : Nat := 16000000
def cacheBytes : Nat := 24 * 1024 * 1024

/-- Device, inode, and the times of modification and of change with their nanoseconds. -/
structure Stamp where
  dev : Int
  ino : Int
  mtime : Int
  mtimeNsec : Int
  ctime : Int
  ctimeNsec : Int
  deriving DecidableEq, Repr

structure Metadata where
  stamp : Stamp
  length : Nat
  deriving DecidableEq, Repr

/-- `stamp`, from what opening the file below its root gives. -/
def stampOf (source : Source) (opened : Except String Metadata) : Except String Stamp :=
  match opened with
  | .error error => .error error
  | .ok metadata =>
    if metadata.length = source.size then .ok metadata.stamp else .error "File changed"

/-- The signature decides on the decoder. -/
def formatOf (bytes : Bytes) : Option String :=
  if [0x89, 0x50, 0x4e, 0x47, 0x0d, 0x0a, 0x1a, 0x0a].isPrefixOf bytes then some "png"
  else if [0xff, 0xd8, 0xff].isPrefixOf bytes then some "jpeg"
  else none

section Decoding

variable (sha256 : Bytes → String) (loader : String → Bytes → Int → Except String Pixels)

/-- `decode`, from what opening and reading the file gives; `loader` is the one of the image library
with the callback that limits the size. -/
def decode (source : Source) (edge : Int) (opened : Except String Nat)
    (content : Except String Bytes) : Except HeaderError Pixels :=
  if ¬ (1 ≤ edge ∧ edge ≤ 1024) then .error (.refused "Invalid preview size")
  else if ¬ (0 < source.size ∧ source.size ≤ maxBytes) then .error (.refused "Preview size limit")
  else do
    let length ← opened.mapError .refused
    if length ≠ source.size then .error (.refused "File changed")
    else do
      let bytes ← content.mapError .refused
      if bytes.length ≠ source.size ∨ sha256 bytes ≠ source.hash then
        .error (.refused "File changed")
      else
        match formatOf bytes with
        | none => .error (.refused "Preview format not supported")
        | some format => do
          let (width, height) ← dimensions bytes format
          if width = 0 ∨ height = 0 ∨ maxPixels < width * height then
            .error (.refused "Preview pixel limit")
          else do
            let pixels ← (loader format bytes edge).mapError .refused
            if edge < pixels.width ∨ edge < pixels.height then
              .error (.refused "Decoder exceeded preview size")
            else return pixels

/-- What decoding a content returns. -/
def decodeContent (source : Source) (edge : Int) (bytes : Bytes) : Except HeaderError Pixels :=
  decode sha256 loader source edge (.ok bytes.length) (.ok (bytes.take (maxBytes + 1)))

end Decoding

structure CacheKey where
  source : Source
  edge : Int
  stamp : Stamp
  deriving DecidableEq, Repr

structure PreviewCache where
  entries : List (CacheKey × Pixels)
  bytes : Nat
  deriving DecidableEq

/-- What a call sees of its file: at the stamp, at the opening, in what it reads, and at the second
stamp. -/
structure Sight where
  before : Except String Metadata
  opened : Except String Nat
  content : Except String Bytes
  behind : Except String Metadata

/-- The loop that drops entries; none if it finds none to drop, and so goes on for ever, or if the
count is below the size of one. -/
def evict : List (CacheKey × Pixels) → Nat → Option (List (CacheKey × Pixels) × Nat)
  | [], bytes => if bytes ≤ cacheBytes then some ([], bytes) else none
  | (key, old) :: rest, bytes =>
    if bytes ≤ cacheBytes then some ((key, old) :: rest, bytes)
    else do
      let left ← checkedSub bytes old.bytes.length
      evict rest left

namespace PreviewCache

def empty : PreviewCache := ⟨[], 0⟩

def keys (cache : PreviewCache) : List CacheKey := cache.entries.map (·.1)

variable (sha256 : Bytes → String) (loader : String → Bytes → Int → Except String Pixels)

/-- `load`; none if it does not return. -/
def load (cache : PreviewCache) (source : Source) (edge : Int) (sight : Sight) :
    Option (Except String Pixels × PreviewCache) :=
  match stampOf source sight.before with
  | .error error => some (.error error, cache)
  | .ok stamp =>
    let key : CacheKey := ⟨source, edge, stamp⟩
    match cache.entries.findFinIdx? (·.1 = key) with
    | some index =>
      let entry := cache.entries[index]
      some (.ok entry.2, { cache with entries := cache.entries.eraseIdx index ++ [entry] })
    | none =>
      match decode sha256 loader source edge sight.opened sight.content with
      | .error .outOfBounds => none
      | .error (.refused error) => some (.error error, cache)
      | .ok pixels =>
        match stampOf source sight.behind with
        | .error error => some (.error error, cache)
        | .ok again =>
          if again ≠ stamp then some (.error "File changed while decoding", cache)
          else if 2 ^ 64 ≤ cache.bytes + pixels.bytes.length then none
          else do
            let (entries, bytes) ← evict (cache.entries ++ [(key, pixels)])
              (cache.bytes + pixels.bytes.length)
            return (.ok pixels, ⟨entries, bytes⟩)

end PreviewCache

/-- The place of a file below its root. -/
def Source.path (source : Source) : List PathPart × String := (source.root, source.relative)

/-- A regular file. -/
structure FileState where
  stamp : Stamp
  bytes : Bytes

/-- What stands at each place at each moment. -/
abbrev FileTimes : Type := Nat → List PathPart × String → Option FileState

/-- A file has the same content from one moment to another. -/
def Steady (files : FileTimes) (path : List PathPart × String) (start finish : Nat)
    (bytes : Bytes) : Prop :=
  ∀ t, start ≤ t → t ≤ finish → ∃ state, files t path = some state ∧ state.bytes = bytes

/-- The stamp identifies the content: a file with one stamp at two moments has not changed. -/
def Identifies (files : FileTimes) : Prop :=
  ∀ path start finish state state', start ≤ finish → files start path = some state →
    files finish path = some state' → state.stamp = state'.stamp →
    Steady files path start finish state.bytes

/-- A call, the moments of its stamps and what it sees between them. -/
structure LoadCall where
  source : Source
  edge : Int
  start : Nat
  finish : Nat
  sight : Sight

/-- A stamp is that of the file at its moment. While the file does not change, its size and its
content are what is read. -/
structure LoadCall.Sees (call : LoadCall) (files : FileTimes) : Prop where
  order : call.start ≤ call.finish
  before : ∀ metadata, call.sight.before = .ok metadata → ∃ state,
    files call.start call.source.path = some state ∧ metadata = ⟨state.stamp, state.bytes.length⟩
  behind : ∀ metadata, call.sight.behind = .ok metadata → ∃ state,
    files call.finish call.source.path = some state ∧ metadata = ⟨state.stamp, state.bytes.length⟩
  opened : ∀ bytes, Steady files call.source.path call.start call.finish bytes →
    ∀ length, call.sight.opened = .ok length → length = bytes.length
  content : ∀ bytes, Steady files call.source.path call.start call.finish bytes →
    ∀ found, call.sight.content = .ok found → found = bytes.take (maxBytes + 1)

/-- Calls one after the other. -/
structure Seen (files : FileTimes) (calls : List LoadCall) : Prop where
  sees : ∀ call ∈ calls, call.Sees files
  ordered : calls.Pairwise fun call later => call.finish ≤ later.start

/-- The keys in the order of their last use. -/
def touch (recency : List CacheKey) (key : CacheKey) : List CacheKey := recency.erase key ++ [key]

section Runs

variable (sha256 : Bytes → String) (loader : String → Bytes → Int → Except String Pixels)

/-- A call, with the keys in the order of their last use beside the cache. -/
def loadStep (state : PreviewCache × List CacheKey) (call : LoadCall) :
    Option (PreviewCache × List CacheKey) := do
  let (result, next) ← state.1.load sha256 loader call.source call.edge call.sight
  match result, stampOf call.source call.sight.before with
  | .ok _, .ok stamp => return (next, touch state.2 ⟨call.source, call.edge, stamp⟩)
  | _, _ => return (next, state.2)

def loads (calls : List LoadCall) : Option (PreviewCache × List CacheKey) :=
  calls.foldlM (loadStep sha256 loader) (.empty, [])

/-- The size of some entries. -/
def weight (entries : List (CacheKey × Pixels)) : Nat :=
  (entries.map fun entry => entry.2.bytes.length).sum

/-- The cache accounts for its entries, which are those used last, and each of which was decoded from
the content its stamp identifies. -/
structure Sound (files : FileTimes) (now : Nat) (cache : PreviewCache) (recency : List CacheKey) :
    Prop where
  count : cache.bytes = weight cache.entries
  bounded : cache.bytes ≤ cacheBytes
  nodup : recency.Nodup
  recent : cache.keys <:+ recency
  valid : ∀ entry ∈ cache.entries, ∃ t ≤ now, ∃ state, files t entry.1.source.path = some state ∧
    state.stamp = entry.1.stamp ∧
    decodeContent sha256 loader entry.1.source entry.1.edge state.bytes = .ok entry.2

/-- An entry used last stands behind the others, of which as few as the limit asks for are dropped
from the front. -/
def Renewed (entries : List (CacheKey × Pixels)) (key : CacheKey) (pixels : Pixels)
    (next : List (CacheKey × Pixels)) : Prop :=
  ∃ k, next = (entries.filter (·.1 ≠ key) ++ [(key, pixels)]).drop k ∧
    ∀ j < k, cacheBytes < weight ((entries.filter (·.1 ≠ key) ++ [(key, pixels)]).drop j)

/-- How a call ends: it fails and leaves the cache as it was, or it returns what decoding the
content at its first stamp returns, with the cache accounted for and its key used last. -/
def Loaded (files : FileTimes) (cache : PreviewCache) (recency : List CacheKey) (call : LoadCall)
    (result : Except String Pixels) (next : PreviewCache) : Prop :=
  match result with
  | .error _ => next = cache
  | .ok pixels => ∃ stamp state, stampOf call.source call.sight.before = .ok stamp ∧
    files call.start call.source.path = some state ∧
    decodeContent sha256 loader call.source call.edge state.bytes = .ok pixels ∧
    Renewed cache.entries ⟨call.source, call.edge, stamp⟩ pixels next.entries ∧
    Sound sha256 loader files call.finish next (touch recency ⟨call.source, call.edge, stamp⟩)

end Runs

section Eviction

/-- The eviction drops as few entries from the front as bring the others below the limit. -/
theorem evict_spec (entries : List (CacheKey × Pixels)) : ∃ k,
    evict entries (weight entries) = some (entries.drop k, weight (entries.drop k)) ∧
      weight (entries.drop k) ≤ cacheBytes ∧ ∀ j < k, cacheBytes < weight (entries.drop j) := by
  induction entries with
  | nil => exact ⟨0, if_pos (Nat.zero_le _), Nat.zero_le _, nofun⟩
  | cons entry rest ih =>
    obtain ⟨key, old⟩ := entry
    have hweight : weight ((key, old) :: rest) = old.bytes.length + weight rest := by
      simp [weight]
    by_cases hfits : weight ((key, old) :: rest) ≤ cacheBytes
    · exact ⟨0, if_pos hfits, hfits, nofun⟩
    · obtain ⟨k, hevict, hbounded, hover⟩ := ih
      refine ⟨k + 1, ?_, hbounded, fun j hj => ?_⟩
      · rw [evict, if_neg hfits, checkedSub_eq_some (by omega), hweight, Nat.add_sub_cancel_left]
        exact hevict
      · cases j with
        | zero => exact Nat.lt_of_not_le hfits
        | succ j => exact hover j (by omega)

end Eviction

section Decodings

variable {sha256 : Bytes → String} {loader : String → Bytes → Int → Except String Pixels}
  {source : Source} {edge : Int} {opened : Except String Nat} {content : Except String Bytes}

/-- A sequence does not end with an error that neither part ends with. -/
theorem bind_ne_error {ε α β : Type} {x : Except ε α} {f : α → Except ε β} {e : ε}
    (hx : x ≠ .error e) (hf : ∀ a, f a ≠ .error e) : (x >>= f) ≠ .error e := by
  cases x with
  | error e' => exact fun h => hx (congrArg Except.error (Except.error.inj h))
  | ok a => exact hf a

theorem mapError_refused_ne {α : Type} (x : Except String α) :
    x.mapError HeaderError.refused ≠ .error .outOfBounds := by
  cases x with
  | error error => exact nofun
  | ok a => exact nofun

/-- A decoding ends without a panic. -/
theorem decode_inside : decode sha256 loader source edge opened content ≠ .error .outOfBounds := by
  rw [decode]
  split_ifs with hedge hsize
  · refine bind_ne_error (mapError_refused_ne _) fun length => ?_
    split_ifs with hlength
    · exact nofun
    refine bind_ne_error (mapError_refused_ne _) fun bytes => ?_
    split_ifs with hbytes
    · exact nofun
    split
    · exact nofun
    refine bind_ne_error (dimensions_inside _ _) fun (width, height) => ?_
    simp only
    split_ifs with hpixels
    · exact nofun
    refine bind_ne_error (mapError_refused_ne _) fun pixels => ?_
    split_ifs <;> exact nofun
  · exact nofun
  · exact nofun

/-- A decoding that succeeds has seen a size and a content. -/
theorem seen_of_decode {pixels : Pixels}
    (h : decode sha256 loader source edge opened content = .ok pixels) :
    ∃ length bytes, opened = .ok length ∧ content = .ok bytes := by
  rw [decode] at h
  split_ifs at h with hedge hsize
  cases opened with
  | error error => contradiction
  | ok length =>
    simp only [Except.mapError, bind, Except.bind] at h
    split_ifs at h with hlength
    cases content with
    | error error => contradiction
    | ok bytes => exact ⟨length, bytes, rfl, rfl⟩

end Decodings

section Loads

variable {sha256 : Bytes → String} {loader : String → Bytes → Int → Except String Pixels}
  {files : FileTimes} {now : Nat} {cache : PreviewCache} {recency : List CacheKey}
  {call : LoadCall}

theorem metadata_of_stampOf {source : Source} {opened : Except String Metadata} {stamp : Stamp}
    (h : stampOf source opened = .ok stamp) :
    ∃ metadata, opened = .ok metadata ∧ metadata.stamp = stamp := by
  cases opened with
  | error error => contradiction
  | ok metadata =>
    rw [stampOf] at h
    split_ifs at h with hsize
    exact ⟨metadata, rfl, Except.ok.inj h⟩

/-- A stamp that is taken first is that of the file. -/
theorem state_of_stampOf (hsees : call.Sees files) {stamp : Stamp}
    (h : stampOf call.source call.sight.before = .ok stamp) :
    ∃ state, files call.start call.source.path = some state ∧ state.stamp = stamp := by
  obtain ⟨metadata, hbefore, rfl⟩ := metadata_of_stampOf h
  obtain ⟨state, hstate, rfl⟩ := hsees.before metadata hbefore
  exact ⟨state, hstate, rfl⟩

/-- A file between two equal stamps has one content, which is what is decoded. -/
theorem decodeContent_of_stamps (hfiles : Identifies files) (hsees : call.Sees files) {stamp : Stamp}
    {pixels : Pixels} (hbefore : stampOf call.source call.sight.before = .ok stamp)
    (hbehind : stampOf call.source call.sight.behind = .ok stamp)
    (hdecode : decode sha256 loader call.source call.edge call.sight.opened call.sight.content =
      .ok pixels) : ∃ state, files call.start call.source.path = some state ∧
      state.stamp = stamp ∧
      decodeContent sha256 loader call.source call.edge state.bytes = .ok pixels := by
  obtain ⟨state, hstate, hstamp⟩ := state_of_stampOf hsees hbefore
  obtain ⟨metadata, hmetadata, hagain⟩ := metadata_of_stampOf hbehind
  obtain ⟨state', hstate', rfl⟩ := hsees.behind metadata hmetadata
  have hsteady := hfiles _ _ _ state state' hsees.order hstate hstate' (hstamp.trans hagain.symm)
  obtain ⟨length, bytes, hopened, hcontent⟩ := seen_of_decode hdecode
  refine ⟨state, hstate, hstamp, ?_⟩
  rw [decodeContent, ← hsees.opened _ hsteady length hopened,
    ← hsees.content _ hsteady bytes hcontent, ← hopened, ← hcontent]
  exact hdecode

theorem nodup_touch (h : recency.Nodup) (key : CacheKey) : (touch recency key).Nodup := by
  rw [touch, List.nodup_append]
  refine ⟨h.erase key, List.nodup_singleton key, fun other hother key' hkey heq => ?_⟩
  rw [heq, List.mem_singleton.mp hkey] at hother
  exact h.not_mem_erase hother

/-- The keys of a cache whose hit goes to the end are still those used last. -/
theorem suffix_touch_of_hit {front back : List CacheKey} {key : CacheKey}
    (h : front ++ key :: back <:+ recency) (hnodup : recency.Nodup) :
    front ++ back ++ [key] <:+ touch recency key := by
  obtain ⟨before, rfl⟩ := h
  rw [← List.append_assoc] at hnodup ⊢
  have hnot : key ∉ before ++ front := fun hmem =>
    (List.nodup_append.mp hnodup).2.2 key hmem key List.mem_cons_self rfl
  rw [touch, List.erase_append_right _ hnot, List.erase_cons_head]
  exact ⟨before, by simp⟩

/-- A new key makes no difference to the order of the others. -/
theorem suffix_touch_of_miss {keys : List CacheKey} {key : CacheKey} (h : keys <:+ recency)
    (hnot : key ∉ keys) : keys ++ [key] <:+ touch recency key := by
  obtain ⟨before, rfl⟩ := h
  rw [touch, List.erase_append]
  split_ifs with hmem
  · exact ⟨before.erase key, by simp⟩
  · rw [List.erase_of_not_mem hnot]
    exact ⟨before, by simp⟩

theorem weight_append (entries more : List (CacheKey × Pixels)) :
    weight (entries ++ more) = weight entries + weight more := by
  simp [weight]

/-- A hit keeps the accounts. -/
theorem Sound.hit (h : Sound sha256 loader files now cache recency)
    {front back : List (CacheKey × Pixels)} {entry : CacheKey × Pixels}
    (hentries : cache.entries = front ++ entry :: back) {finish : Nat} (hnow : now ≤ finish) :
    Sound sha256 loader files finish { cache with entries := front ++ back ++ [entry] }
      (touch recency entry.1) := by
  have hperm : (front ++ back ++ [entry]).Perm cache.entries := by
    rw [hentries, List.append_assoc]
    exact (List.perm_append_comm).append_left front
  refine ⟨?_, h.bounded, nodup_touch h.nodup _, ?_, fun other hmem => ?_⟩
  · rw [h.count]
    exact (hperm.map _).sum_nat.symm
  · have hrecent := h.recent
    rw [PreviewCache.keys, hentries, List.map_append, List.map_cons] at hrecent
    simpa [PreviewCache.keys] using suffix_touch_of_hit hrecent h.nodup
  · obtain ⟨t, ht, hvalid⟩ := h.valid other (hperm.mem_iff.mp hmem)
    exact ⟨t, ht.trans hnow, hvalid⟩

/-- A miss keeps the accounts, whatever is dropped. -/
theorem Sound.miss (h : Sound sha256 loader files now cache recency) {key : CacheKey}
    {pixels : Pixels} (hkey : key ∉ cache.keys) {finish k : Nat} (hnow : now ≤ finish)
    (hvalid : ∃ t ≤ finish, ∃ state, files t key.source.path = some state ∧
      state.stamp = key.stamp ∧
      decodeContent sha256 loader key.source key.edge state.bytes = .ok pixels)
    (hbounded : weight ((cache.entries ++ [(key, pixels)]).drop k) ≤ cacheBytes) :
    Sound sha256 loader files finish ⟨(cache.entries ++ [(key, pixels)]).drop k,
      weight ((cache.entries ++ [(key, pixels)]).drop k)⟩ (touch recency key) := by
  refine ⟨rfl, hbounded, nodup_touch h.nodup _, ?_, fun other hmem => ?_⟩
  · have hsuffix := suffix_touch_of_miss h.recent hkey
    rw [show cache.keys ++ [key] = (cache.entries ++ [(key, pixels)]).map (·.1) by
      simp [PreviewCache.keys]] at hsuffix
    exact ((List.drop_suffix k _).map _).trans hsuffix
  · rcases List.mem_append.mp (List.mem_of_mem_drop hmem) with hold | hnew
    · obtain ⟨t, ht, hold⟩ := h.valid other hold
      exact ⟨t, ht.trans hnow, hold⟩
    · rw [List.mem_singleton.mp hnew]
      exact hvalid

/-- No key is cached twice. -/
theorem Sound.nodup_keys (h : Sound sha256 loader files now cache recency) : cache.keys.Nodup :=
  h.nodup.sublist h.recent.sublist

/-- The entry of a hit is the only one with its key. -/
theorem Sound.renewed_hit (h : Sound sha256 loader files now cache recency)
    {front back : List (CacheKey × Pixels)} {entry : CacheKey × Pixels}
    (hentries : cache.entries = front ++ entry :: back) :
    Renewed cache.entries entry.1 entry.2 (front ++ back ++ [entry]) := by
  have hnodup := h.nodup_keys
  rw [PreviewCache.keys, hentries, List.map_append, List.map_cons, List.nodup_append] at hnodup
  obtain ⟨-, hback, hfront⟩ := hnodup
  have hfilter : cache.entries.filter (·.1 ≠ entry.1) = front ++ back := by
    rw [hentries, List.filter_append, List.filter_cons_of_neg (by simp)]
    congr 1
    · refine List.filter_eq_self.mpr fun other hmem => decide_eq_true fun heq => ?_
      exact hfront _ (List.mem_map_of_mem hmem) _ List.mem_cons_self heq
    · refine List.filter_eq_self.mpr fun other hmem => decide_eq_true fun heq => ?_
      exact (List.nodup_cons.mp hback).1 (heq ▸ List.mem_map_of_mem hmem)
  exact ⟨0, by rw [hfilter, List.drop_zero], nofun⟩

/-- No other entry has the key of a miss. -/
theorem renewed_miss {key : CacheKey} {pixels : Pixels} {k : Nat} (hkey : key ∉ cache.keys)
    (hover : ∀ j < k, cacheBytes < weight ((cache.entries ++ [(key, pixels)]).drop j)) :
    Renewed cache.entries key pixels ((cache.entries ++ [(key, pixels)]).drop k) := by
  have hfilter : cache.entries.filter (·.1 ≠ key) = cache.entries := by
    refine List.filter_eq_self.mpr fun entry hmem => decide_eq_true fun heq => ?_
    exact hkey (heq ▸ List.mem_map_of_mem hmem)
  exact ⟨k, by rw [hfilter], by rwa [hfilter]⟩

/-- A call returns. -/
theorem Sound.load (h : Sound sha256 loader files now cache recency) (hfiles : Identifies files)
    (hsees : call.Sees files) (hnow : now ≤ call.start) : ∃ result next,
      cache.load sha256 loader call.source call.edge call.sight = some (result, next) ∧
      Loaded sha256 loader files cache recency call result next := by
  simp only [PreviewCache.load]
  cases hbefore : stampOf call.source call.sight.before with
  | error error => exact ⟨_, _, rfl, rfl⟩
  | ok stamp =>
    obtain ⟨state, hstate, hstamp⟩ := state_of_stampOf hsees hbefore
    have hfinish := hnow.trans hsees.order
    simp only
    split
    · rename_i index hfind
      have hkey : cache.entries[index].1 = ⟨call.source, call.edge, stamp⟩ := by
        simpa using (List.findFinIdx?_eq_some_iff.mp hfind).1
      obtain ⟨t, ht, found, hfound, hsame, hdecode⟩ :=
        h.valid cache.entries[index] (List.getElem_mem index.isLt)
      rw [hkey] at hfound hsame hdecode
      -- The stamp is that of the entry, hence the content has not changed since.
      have hsteady := hfiles _ t call.start found state (ht.trans hnow) hfound hstate
        (hsame.trans hstamp.symm)
      obtain ⟨current, hcurrent, hbytes⟩ := hsteady call.start (ht.trans hnow) (Nat.le_refl _)
      obtain rfl := Option.some.inj (hstate.symm.trans hcurrent)
      have hsplit : cache.entries = cache.entries.take index ++ cache.entries[index] ::
          cache.entries.drop (index + 1) :=
        (List.take_append_drop index.val cache.entries).symm.trans
          (congrArg _ (List.drop_eq_getElem_cons index.isLt))
      have hhit := h.hit hsplit hfinish
      have hrenewed := h.renewed_hit hsplit
      rw [← List.eraseIdx_eq_take_drop_succ, hkey] at hhit hrenewed
      exact ⟨_, _, rfl, stamp, state, hbefore, hstate, hbytes ▸ hdecode, hrenewed, hhit⟩
    · rename_i hfind
      have hmiss : (⟨call.source, call.edge, stamp⟩ : CacheKey) ∉ cache.keys := by
        intro hmem
        obtain ⟨entry, hentry, heq⟩ := List.mem_map.mp hmem
        exact absurd (decide_eq_true heq) (List.findFinIdx?_eq_none_iff.mp hfind entry hentry)
      split
      · rename_i hpanic
        exact absurd hpanic decode_inside
      · exact ⟨_, _, rfl, rfl⟩
      · rename_i pixels hdecode
        split
        · exact ⟨_, _, rfl, rfl⟩
        · rename_i again hbehind
          split_ifs with hagain hoverflow
          · exact ⟨_, _, rfl, rfl⟩
          · have hcache : cacheBytes < 2 ^ 63 := by decide
            have hbounded := h.bounded
            have hbound := pixels.bound
            omega
          · obtain rfl := not_not.mp hagain
            obtain ⟨current, hcurrent, hsame, hcontent⟩ :=
              decodeContent_of_stamps hfiles hsees hbefore hbehind hdecode
            obtain ⟨k, hevict, hbounded, hover⟩ :=
              evict_spec (cache.entries ++ [(⟨call.source, call.edge, again⟩, pixels)])
            have hweight : cache.bytes + pixels.bytes.length =
                weight (cache.entries ++ [(⟨call.source, call.edge, again⟩, pixels)]) := by
              rw [weight_append, h.count]
              simp [weight]
            rw [hweight, hevict]
            exact ⟨_, _, rfl, again, current, hbefore, hcurrent, hcontent, renewed_miss hmiss hover, h.miss hmiss hfinish
              ⟨call.start, hsees.order, current, hcurrent, hsame, hcontent⟩ hbounded⟩

theorem sound_empty (sha256 : Bytes → String)
    (loader : String → Bytes → Int → Except String Pixels) (files : FileTimes) (now : Nat) :
    Sound sha256 loader files now .empty [] where
  count := rfl
  bounded := Nat.zero_le cacheBytes
  nodup := List.nodup_nil
  recent := List.nil_suffix
  valid := fun _ hmem => absurd hmem List.not_mem_nil

/-- What is accounted for stays so. -/
theorem Sound.later (h : Sound sha256 loader files now cache recency) {later : Nat}
    (hlater : now ≤ later) : Sound sha256 loader files later cache recency := by
  refine ⟨h.count, h.bounded, h.nodup, h.recent, fun entry hmem => ?_⟩
  obtain ⟨t, ht, hvalid⟩ := h.valid entry hmem
  exact ⟨t, ht.trans hlater, hvalid⟩

/-- A call returns, and accounts for what it leaves. -/
theorem Sound.step (h : Sound sha256 loader files now cache recency) (hfiles : Identifies files)
    (hsees : call.Sees files) (hnow : now ≤ call.start) : ∃ result next recency',
      cache.load sha256 loader call.source call.edge call.sight = some (result, next) ∧
      loadStep sha256 loader (cache, recency) call = some (next, recency') ∧
      Loaded sha256 loader files cache recency call result next ∧
      Sound sha256 loader files call.finish next recency' := by
  obtain ⟨result, next, hload, hloaded⟩ := h.load hfiles hsees hnow
  cases result with
  | error error =>
    have hnext : next = cache := hloaded
    refine ⟨_, next, recency, hload, ?_, hloaded, ?_⟩
    · simp [loadStep, hload]
    · rw [hnext]
      exact h.later (hnow.trans hsees.order)
  | ok pixels =>
    obtain ⟨stamp, -, hstamp, -, -, -, hsound⟩ := id hloaded
    refine ⟨_, next, _, hload, ?_, hloaded, hsound⟩
    simp [loadStep, hload, hstamp]

theorem Seen.initial {calls : List LoadCall} (h : Seen files (calls ++ [call])) :
    Seen files calls :=
  ⟨fun other hother => h.sees other (List.mem_append_left _ hother),
    (List.pairwise_append.mp h.ordered).1⟩

/-- The last call begins when the one before it has ended. -/
theorem Seen.before_last {calls : List LoadCall} (h : Seen files (calls ++ [call])) :
    (calls.getLast?.map (·.finish)).getD 0 ≤ call.start := by
  cases hlast : calls.getLast? with
  | none => exact Nat.zero_le _
  | some last =>
    exact (List.pairwise_append.mp h.ordered).2.2 last (List.mem_of_getLast? hlast) call (by simp)

/-- Any calls return, and account for what they leave. -/
theorem loads_sound (sha256 : Bytes → String)
    (loader : String → Bytes → Int → Except String Pixels) (hfiles : Identifies files)
    {calls : List LoadCall} (hseen : Seen files calls) :
    ∃ cache recency, loads sha256 loader calls = some (cache, recency) ∧
      Sound sha256 loader files ((calls.getLast?.map (·.finish)).getD 0) cache recency := by
  induction calls using List.reverseRecOn with
  | nil => exact ⟨.empty, [], rfl, sound_empty _ _ _ _⟩
  | append_singleton calls call ih =>
    obtain ⟨cache, recency, hloads, hsound⟩ := ih hseen.initial
    obtain ⟨result, next, recency', -, hstep, -, hnext⟩ :=
      hsound.step hfiles (hseen.sees call (by simp)) hseen.before_last
    refine ⟨next, recency', ?_, ?_⟩
    · rw [loads, List.foldlM_append, ← loads, hloads]
      simpa using hstep
    · rw [List.getLast?_concat]
      exact hnext

end Loads

/-- Behind any calls on files that change as they like, one more call returns. Its cache counts the
size of its entries, which is not above the limit; it has each key once, and exactly the keys used
last. A call that fails leaves the cache as it was, and one that succeeds returns what decoding the
content of its file returns. -/
theorem preview_cache_transparent (sha256 : Bytes → String)
    (loader : String → Bytes → Int → Except String Pixels) {files : FileTimes}
    (hfiles : Identifies files) {calls : List LoadCall} {call : LoadCall}
    (hseen : Seen files (calls ++ [call])) : ∃ cache recency recency' result next,
      loads sha256 loader calls = some (cache, recency) ∧
      loads sha256 loader (calls ++ [call]) = some (next, recency') ∧
      cache.load sha256 loader call.source call.edge call.sight = some (result, next) ∧
      next.bytes = weight next.entries ∧ next.bytes ≤ cacheBytes ∧ next.keys.Nodup ∧
      next.keys <:+ recency' ∧
      match result with
      | .error _ => next = cache
      | .ok pixels => ∃ state, files call.start call.source.path = some state ∧
        decodeContent sha256 loader call.source call.edge state.bytes = .ok pixels ∧
        Renewed cache.entries ⟨call.source, call.edge, state.stamp⟩ pixels next.entries := by
  obtain ⟨cache, recency, hloads, hsound⟩ :=
    loads_sound sha256 loader hfiles hseen.initial
  obtain ⟨result, next, recency', hload, hstep, hloaded, hnext⟩ :=
    hsound.step hfiles (hseen.sees call (by simp)) hseen.before_last
  refine ⟨cache, recency, recency', result, next, hloads, ?_, hload, hnext.count, hnext.bounded,
    hnext.nodup_keys, hnext.recent, ?_⟩
  · rw [loads, List.foldlM_append, ← loads, hloads]
    simpa using hstep
  · cases result with
    | error error => exact hloaded
    | ok pixels =>
      obtain ⟨stamp, state, hstamp, hstate, hcontent, hrenewed, -⟩ := hloaded
      obtain ⟨current, hcurrent, rfl⟩ := state_of_stampOf (hseen.sees call (by simp)) hstamp
      obtain rfl := Option.some.inj (hstate.symm.trans hcurrent)
      exact ⟨state, hstate, hcontent, hrenewed⟩

/-- An image of one pixel. -/
def dotBytes : Bytes :=
  [0x89, 0x50, 0x4e, 0x47, 0x0d, 0x0a, 0x1a, 0x0a, 0x00, 0x00, 0x00, 0x0d, 0x49, 0x48, 0x44, 0x52,
    0x00, 0x00, 0x00, 0x01, 0x00, 0x00, 0x00, 0x01, 0x08, 0x06, 0x00, 0x00, 0x00, 0x1f, 0x15, 0xc4,
    0x89, 0x00, 0x00, 0x00, 0x0d, 0x49, 0x44, 0x41, 0x54, 0x78, 0xda, 0x63, 0x64, 0xf8, 0xcf, 0x50,
    0x0f, 0x00, 0x03, 0x86, 0x01, 0x80, 0x5a, 0x34, 0x7d, 0x6b, 0x00, 0x00, 0x00, 0x00, 0x49, 0x45,
    0x4e, 0x44, 0xae, 0x42, 0x60, 0x82]

def dotHash : String := "6b7fa434f92a8b80aab02d9bf1a12e49ffcae424e4013a1c4f68b67e3d2bbcd0"

def dotPixels : Pixels := ⟨[0x00, 0xff, 0x00, 0x7f], 1, 1, 4, true, by decide⟩

def dotState : FileState := ⟨⟨1, 2, 3, 4, 5, 6⟩, dotBytes⟩

/-- The image is read twice and does not change. -/
def dotCall (start : Nat) : LoadCall where
  source := ⟨[.rootDir], "dot.png", dotHash, 70⟩
  edge := 256
  start := start
  finish := start
  sight := ⟨.ok ⟨dotState.stamp, 70⟩, .ok 70, .ok dotBytes, .ok ⟨dotState.stamp, 70⟩⟩

def dotFiles : FileTimes := fun _ _ => some dotState

theorem dot_transparent : ∃ cache recency recency' result next,
    loads (fun _ => dotHash) (fun _ _ _ => .ok dotPixels) [dotCall 1] = some (cache, recency) ∧
    loads (fun _ => dotHash) (fun _ _ _ => .ok dotPixels) ([dotCall 1] ++ [dotCall 2]) =
      some (next, recency') ∧
    cache.load (fun _ => dotHash) (fun _ _ _ => .ok dotPixels) (dotCall 2).source (dotCall 2).edge
      (dotCall 2).sight = some (result, next) ∧
    next.bytes = weight next.entries ∧ next.bytes ≤ cacheBytes ∧ next.keys.Nodup ∧
    next.keys <:+ recency' ∧
    match result with
    | .error _ => next = cache
    | .ok pixels => ∃ state, dotFiles (dotCall 2).start (dotCall 2).source.path = some state ∧
      decodeContent (fun _ => dotHash) (fun _ _ _ => .ok dotPixels) (dotCall 2).source
        (dotCall 2).edge state.bytes = .ok pixels ∧
      Renewed cache.entries ⟨(dotCall 2).source, (dotCall 2).edge, state.stamp⟩ pixels
        next.entries := by
  have hsees (start : Nat) : (dotCall start).Sees dotFiles := by
    refine ⟨Nat.le_refl _, ?_, ?_, ?_, ?_⟩
    · rintro _ ⟨⟩
      exact ⟨dotState, rfl, rfl⟩
    · rintro _ ⟨⟩
      exact ⟨dotState, rfl, rfl⟩
    · intro bytes hsteady
      obtain ⟨state, hstate, rfl⟩ := hsteady start (Nat.le_refl _) (Nat.le_refl _)
      cases hstate
      rintro _ ⟨⟩
      rfl
    · intro bytes hsteady
      obtain ⟨state, hstate, rfl⟩ := hsteady start (Nat.le_refl _) (Nat.le_refl _)
      cases hstate
      rintro _ ⟨⟩
      rfl
  have hfiles : Identifies dotFiles := by
    intro _ _ _ state _ _ hstate _ _ t _ _
    exact ⟨state, hstate, rfl⟩
  have hseen : Seen dotFiles ([dotCall 1] ++ [dotCall 2]) := by
    refine ⟨fun call hmem => ?_, List.pairwise_pair.mpr (by decide)⟩
    rcases List.mem_cons.mp hmem with rfl | hmem
    · exact hsees 1
    · rw [List.mem_singleton.mp hmem]
      exact hsees 2
  exact preview_cache_transparent _ _ hfiles hseen

end Photos

end MiRelay
