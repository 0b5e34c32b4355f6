import MiRelay.Core.Durable
import MiRelay.Core.FileSystem
import MiRelay.Desktop.CleanExit

/-!
# The removal of an owned tree

The cleanup of a Folder walks through its state and removes what it may, entry by
entry in the order in which the system lists them. A symbolic link, a special
file, a name that is no text and an entry too deep end it; locks and markers of
retirement stay, and so does each directory above them. Any call of the system
may fail as well. What a run has removed before it ended would have been removed
by a run without the entry it ended at, hence it can be repeated without that
entry.
-/

namespace MiRelay

/-- Several names removed. -/
def Files.eraseAll {κ β : Type} [DecidableEq κ] (m : Files κ β) (keys : List κ) : Files κ β :=
  keys.foldl (fun m key => m.erase key) m

theorem Files.lookup_eraseAll {κ β : Type} [DecidableEq κ] (m : Files κ β) (keys : List κ) (k : κ) :
    (m.eraseAll keys).lookup k = if k ∈ keys then none else m.lookup k := by
  induction keys generalizing m with
  | nil => simp [Files.eraseAll]
  | cons key keys ih =>
    rw [Files.eraseAll, List.foldl_cons, ← Files.eraseAll, ih, Files.lookup_erase]
    by_cases hkeys : k ∈ keys
    · simp [hkeys]
    · by_cases hkey : k = key
      · simp [hkey]
      · simp [hkeys, hkey]

namespace FileSystem

/-- The names in a directory. -/
def names (fs : FileSystem) (place : Position) : List EntryName :=
  fs.nodes.keys.filterMap fun q => if q.dropLast = place then q.getLast? else none

theorem mem_names {fs : FileSystem} {place : Position} {name : EntryName} :
    name ∈ fs.names place ↔ fs.kind (place ++ [name]) ≠ none := by
  rw [names, List.mem_filterMap, kind, ← Option.isSome_iff_ne_none, AList.lookup_isSome,
    AList.mem_keys]
  constructor
  · rintro ⟨q, hq, hname⟩
    split_ifs at hname with hplace
    rwa [← hplace, List.dropLast_append_getLast? name hname]
  · exact fun h => ⟨_, h, by simp⟩

theorem nodup_names (fs : FileSystem) (place : Position) : (fs.names place).Nodup := by
  refine List.Nodup.filterMap (fun q q' name hq hq' => ?_) fs.nodes.keys_nodup
  split_ifs at hq hq' with hplace hplace'
  · rw [← List.dropLast_append_getLast? name hq, ← List.dropLast_append_getLast? name hq', hplace,
      hplace']
  · contradiction
  · contradiction
  · contradiction

/-- The file system without an entry, unless something stands in it. -/
def remove (fs : FileSystem) (place : Position) : FileSystem :=
  if h : fs.names place = [] then
    { nodes := fs.nodes.erase place
      closed := fun above name hkind => by
        rw [Files.lookup_erase] at hkind ⊢
        split_ifs at hkind with hplace
        · exact absurd rfl hkind
        · rw [if_neg, fs.closed above name hkind]
          rintro rfl
          exact absurd (mem_names.mpr hkind) (h ▸ List.not_mem_nil)
      named := fun above name hkind => by
        rw [Files.lookup_erase] at hkind
        split_ifs at hkind with hplace
        · exact absurd rfl hkind
        · exact fs.named above name hkind }
  else fs

/-- The file system without an entry and what stands below it. -/
def without (fs : FileSystem) (place : Position) : FileSystem where
  nodes := fs.nodes.eraseAll (fs.nodes.keys.filter (place.isPrefixOf ·))
  closed above name hkind := by
    rw [Files.lookup_eraseAll] at hkind ⊢
    split_ifs at hkind with hkey
    · exact absurd rfl hkind
    · rw [if_neg, fs.closed above name hkind]
      intro habove
      refine hkey (List.mem_filter.mpr ⟨?_, ?_⟩)
      · exact AList.mem_keys.mp (AList.lookup_isSome.mp (Option.isSome_iff_ne_none.mpr hkind))
      · have hunder := List.isPrefixOf_iff_prefix.mp (List.mem_filter.mp habove).2
        exact List.isPrefixOf_iff_prefix.mpr (hunder.trans (List.prefix_append _ _))
  named above name hkind := by
    rw [Files.lookup_eraseAll] at hkind
    split_ifs at hkind with hkey
    · exact absurd rfl hkind
    · exact fs.named above name hkind

variable {fs : FileSystem} {place q : Position}

theorem kind_remove (h : fs.names place = []) :
    (fs.remove place).kind q = if q = place then none else fs.kind q := by
  rw [remove, dif_pos h]
  exact Files.lookup_erase _ _ _

theorem kind_without : (fs.without place).kind q = if place <+: q then none else fs.kind q := by
  rw [kind, without, Files.lookup_eraseAll]
  by_cases hunder : place <+: q
  · rw [if_pos hunder]
    split_ifs with hkey
    · rfl
    · by_contra hkind
      refine hkey (List.mem_filter.mpr ⟨?_, List.isPrefixOf_iff_prefix.mpr hunder⟩)
      exact AList.mem_keys.mp (AList.lookup_isSome.mp (Option.isSome_iff_ne_none.mpr hkind))
  · rw [if_neg hunder, if_neg fun h =>
      hunder (List.isPrefixOf_iff_prefix.mp (List.mem_filter.mp h).2)]
    rfl

end FileSystem

/-- An order in which the system lists each directory. -/
structure ListingOrder where
  list : Position → List EntryName → List EntryName
  perm : ∀ place names, (list place names).Perm names

namespace OwnedTree

/-- The calls of the system, each of which may fail at each entry. -/
inductive SweepCall
  | inspect
  | list
  | next
  | finish
  | relist
  | reread
  | removeFile
  | removeDir
  | sync
  deriving DecidableEq, Repr

/-- What a run does: it opens a directory to read it, removes an entry or makes the removal of an
entry durable. -/
inductive SweepEvent
  | list (place : Position)
  | removeFile (place : Position)
  | removeDir (place : Position)
  | sync (place : Position)
  deriving DecidableEq, Repr

def apply (fs : FileSystem) : SweepEvent → FileSystem
  | .removeFile place => fs.remove place
  | .removeDir place => fs.remove place
  | _ => fs

inductive SweepReason
  | nesting
  | symlink
  | fileType
  | filename
  | system (call : SweepCall)
  deriving DecidableEq, Repr

/-- The entry at which a run ended, and why. -/
structure SweepError where
  place : Position
  reason : SweepReason
  deriving DecidableEq, Repr

/-- The text of an error; one of the system has its own. -/
def SweepError.text (display : Position → String) (error : SweepError) : String :=
  match error.reason with
  | .nesting => "Unexpected nesting in app-owned state"
  | .symlink => "Refusing symlink in cleanup: " ++ display error.place
  | .fileType => "Unexpected file type in app-owned state"
  | .filename => "Invalid state filename"
  | .system _ => ""

abbrev Sweep : Type → Type := Proc apply SweepError

section Removal

open Proc

variable (order : ListingOrder) (faults : SweepCall → Position → Bool)

/-- A call of the system at an entry. -/
def call (c : SweepCall) (place : Position) : Sweep Unit :=
  if faults c place then fail ⟨place, .system c⟩ else pure ()

/-- `sync_directory` of the parent. -/
def syncParent (place : Position) : Sweep Unit :=
  if place = [] then pure ()
  else do
    call faults .sync place
    emit (.sync place.dropLast)

/-- The loop over the entries of a directory. -/
def forEach (step : Position → Sweep Unit) (place : Position) : List EntryName → Sweep Unit
  | [] => call faults .finish place
  | name :: rest => do
    call faults .next (place ++ [name])
    step (place ++ [name])
    forEach step place rest

/-- `remove_owned_tree` with the levels that are left. -/
def removeOwnedTree : Nat → Position → Sweep Unit
  | 0, place => fail ⟨place, .nesting⟩
  | left + 1, place => do
    call faults .inspect place
    match (← get).kind place with
    | none => pure ()
    | some (.symlink _) => fail ⟨place, .symlink⟩
    | some .directory => do
      call faults .list place
      emit (.list place)
      forEach faults (removeOwnedTree left) place (order.list place ((← get).names place))
      call faults .relist place
      emit (.list place)
      -- An error of the second reading is taken for an entry.
      if (← get).names place = [] ∧ faults .reread place = false then
        call faults .removeDir place
        emit (.removeDir place)
      syncParent faults place
    | some .special => fail ⟨place, .fileType⟩
    | some (.file _) =>
      match place.getLast? with
      | some (.text name) =>
        if keptName name then pure ()
        else do
          call faults .removeFile place
          emit (.removeFile place)
          syncParent faults place
      | _ => fail ⟨place, .filename⟩

end Removal

section Entries

/-- A regular file that the cleanup removes. -/
def PlainFile (fs : FileSystem) (q : Position) : Prop :=
  ∃ bytes name, fs.kind q = some (.file bytes) ∧ q.getLast? = some (.text name) ∧
    keptName name = false

/-- A lock or a marker of retirement. -/
def KeptFile (fs : FileSystem) (q : Position) : Prop :=
  ∃ bytes name, fs.kind q = some (.file bytes) ∧ q.getLast? = some (.text name) ∧
    keptName name = true

/-- An entry that is kept, or a directory above one. A directory that cannot be read again counts
as one that is kept. -/
def Stays (fs : FileSystem) (lost : Position → Bool) (q : Position) : Prop :=
  ∃ w, q <+: w ∧ (KeptFile fs w ∨ fs.kind w = some .directory ∧ lost w = true)

/-- An entry that no cleanup removes or passes. -/
def Refused (fs : FileSystem) (q : Position) : Prop :=
  (∃ target, fs.kind q = some (.symlink target)) ∨ fs.kind q = some .special ∨
    ∃ bytes, fs.kind q = some (.file bytes) ∧ ∀ name, q.getLast? ≠ some (.text name)

/-- An entry at or below a place that ends a run with so many levels: a refused one, or one too
deep. -/
def Offending (fs : FileSystem) (place : Position) (left : Nat) (q : Position) : Prop :=
  place <+: q ∧ fs.kind q ≠ none ∧ (place.length + left ≤ q.length ∨ Refused fs q)

/-- What a run with so many levels may do in a state: read real directories at or below its place,
and remove files and empty directories there. -/
def Permitted (place : Position) (left : Nat) (s : FileSystem) : SweepEvent → Prop
  | .list p => place <+: p ∧ s.kind p = some .directory
  | .removeFile p => place <+: p ∧ p.length < place.length + left ∧ PlainFile s p
  | .removeDir p =>
    place <+: p ∧ p.length < place.length + left ∧ s.kind p = some .directory ∧ s.names p = []
  | .sync _ => True

/-- A region is settled: what does not stay is gone, and all else is as it was. -/
structure Settled (region : Position → Prop) (lost : Position → Bool) (s t : FileSystem) :
    Prop where
  gone : ∀ q, region q → ¬ Stays s lost q → t.kind q = none
  kept : ∀ q, (region q → Stays s lost q) → t.kind q = s.kind q

/-- How a run ends: in a state with the condition, or at an offending entry or one at which a call
of the system failed. -/
def Ends (faults : SweepCall → Position → Bool) (place : Position) (left : Nat) (s : FileSystem)
    (post : FileSystem → Prop) (r : Except SweepError Unit) (t : FileSystem) : Prop :=
  match r with
  | .ok _ => post t
  | .error e => Offending s place left e.place ∨ ∃ c, faults c e.place = true

/-- What a run that succeeds has found and left: no offending entry, and a settled region. -/
def Swept (faults : SweepCall → Position → Bool) (place : Position) (left : Nat)
    (s t : FileSystem) : Prop :=
  Settled (place <+: ·) (faults .reread) s t ∧ ∀ q, ¬ Offending s place left q

/-- The part of a directory below some of its names. -/
def Below (place : Position) (names : List EntryName) (q : Position) : Prop :=
  ∃ name ∈ names, place ++ [name] <+: q

variable {s t u : FileSystem} {place q w : Position} {name other : EntryName} {left : Nat}
  {lost : Position → Bool} {names done : List EntryName}

theorem eq_of_below (h : place ++ [name] <+: q) (hother : place ++ [other] <+: q) : name = other := by
  have heq := (List.prefix_of_prefix_length_le h hother (by simp)).eq_of_length (by simp)
  simpa using heq

/-- Below a place is the place itself or something below one of its names. -/
theorem below_cases (h : place <+: q) : q = place ∨ ∃ name, place ++ [name] <+: q := by
  obtain ⟨rest, rfl⟩ := h
  cases rest with
  | nil => exact .inl (List.append_nil _)
  | cons name rest => exact .inr ⟨name, rest, by simp⟩

/-- Whether an entry stays is decided below it. -/
theorem stays_congr (h : ∀ w, q <+: w → t.kind w = s.kind w) : Stays t lost q ↔ Stays s lost q := by
  refine exists_congr fun w => and_congr_right fun hw => ?_
  simp only [KeptFile, h w hw]

theorem Stays.above (h : Stays s lost w) (hq : q <+: w) : Stays s lost q := by
  obtain ⟨v, hv, hkept⟩ := h
  exact ⟨v, hq.trans hv, hkept⟩

/-- What stays is there. -/
theorem Stays.exists (h : Stays s lost q) : s.kind q ≠ none := by
  obtain ⟨w, hw, hkept⟩ := h
  have hkind : s.kind w ≠ none := by
    rcases hkept with ⟨bytes, name, hfile, -⟩ | ⟨hdir, -⟩
    · simp [hfile]
    · simp [hdir]
  by_cases heq : q = w
  · rwa [heq]
  · simp [s.kind_above hkind hw heq]

theorem offending_congr (h : ∀ w, place <+: w → t.kind w = s.kind w) :
    Offending t place left q ↔ Offending s place left q := by
  refine and_congr_right fun hq => ?_
  simp only [Refused, h q hq]

/-- An offending entry below a name offends the directory. -/
theorem Offending.above (h : Offending s (place ++ [name]) left q) :
    Offending s place (left + 1) q := by
  obtain ⟨hunder, hkind, h⟩ := h
  refine ⟨(List.prefix_append _ _).trans hunder, hkind, h.imp_left fun hle => ?_⟩
  rw [List.length_append, List.length_singleton] at hle
  omega

theorem Permitted.above {e : SweepEvent} (h : Permitted (place ++ [name]) left s e) :
    Permitted place (left + 1) s e := by
  have hunder : place <+: place ++ [name] := List.prefix_append _ _
  have hlength : (place ++ [name]).length + left = place.length + (left + 1) := by
    rw [List.length_append, List.length_singleton]
    omega
  cases e with
  | list p => exact ⟨hunder.trans h.1, h.2⟩
  | removeFile p => exact ⟨hunder.trans h.1, hlength ▸ h.2.1, h.2.2⟩
  | removeDir p => exact ⟨hunder.trans h.1, hlength ▸ h.2.1, h.2.2⟩
  | sync p => trivial

/-- One more name is settled. -/
theorem Settled.extend (h : Settled (Below place done) lost s t) (hname : name ∉ done)
    (hnext : Settled (place ++ [name] <+: ·) lost t u) :
    Settled (Below place (done ++ [name])) lost s u := by
  have hsame (q : Position) (hq : place ++ [name] <+: q) : t.kind q = s.kind q := by
    refine h.kept q fun ⟨other, hother, hbelow⟩ => ?_
    exact absurd (eq_of_below hq hbelow ▸ hother) hname
  have hstays (q : Position) (hq : place ++ [name] <+: q) : Stays t lost q ↔ Stays s lost q :=
    stays_congr fun w hw => hsame w (hq.trans hw)
  constructor
  · rintro q ⟨other, hother, hbelow⟩ hgone
    rcases List.mem_append.mp hother with hdone | hlast
    · rw [hnext.kept q fun hq => absurd (eq_of_below hq hbelow ▸ hdone) hname]
      exact h.gone q ⟨other, hdone, hbelow⟩ hgone
    · obtain rfl := List.mem_singleton.mp hlast
      exact hnext.gone q hbelow fun hstay => hgone ((hstays q hbelow).mp hstay)
  · intro q hq
    rw [hnext.kept q fun hbelow => (hstays q hbelow).mpr (hq ⟨name, by simp, hbelow⟩)]
    exact h.kept q fun ⟨other, hother, hbelow⟩ => hq ⟨other, by simp [hother], hbelow⟩

end Entries

section Runs

open Proc

variable {order : ListingOrder} {faults : SweepCall → Position → Bool} {s t : FileSystem}
  {place : Position} {left : Nat}

theorem meets_call {c : SweepCall} {G : FileSystem → SweepEvent → Prop}
    {Q : Except SweepError Unit → FileSystem → Prop} : Meets (call faults c place) s G Q ↔
      (faults c place = true → Q (.error ⟨place, .system c⟩) s) ∧
        (faults c place = false → Q (.ok ()) s) := by
  rw [call]
  cases faults c place <;> simp

variable {G : FileSystem → SweepEvent → Prop} {start : FileSystem} {above : Position}
  {post : FileSystem → Prop}

/-- A call that fails ends a run at its entry; otherwise the run continues. -/
theorem meets_call_bind {c : SweepCall} {p : Sweep Unit}
    (h : Meets p s G (Ends faults above left start post)) :
    Meets (do call faults c place; p) s G (Ends faults above left start post) := by
  rw [meets_bind, meets_call]
  exact ⟨fun hfault => .inr ⟨c, hfault⟩, fun _ => h⟩

/-- The last step of a removal changes nothing. -/
theorem meets_syncParent (hG : ∀ p, G s (.sync p)) (h : post s) :
    Meets (syncParent faults place) s G (Ends faults above left start post) := by
  rw [syncParent]
  split_ifs with htop
  · rwa [meets_pure]
  · refine meets_call_bind ?_
    rw [meets_emit]
    exact ⟨hG _, h⟩

/-- The loop settles the part of a directory below each name it visits. -/
theorem meets_forEach {step : Position → Sweep Unit} {names : List EntryName}
    (done : List EntryName) (hnodup : names.Nodup) (hdone : ∀ name ∈ names, name ∉ done)
    (hstep : ∀ name ∈ names, ∀ t, (∀ q, place ++ [name] <+: q → t.kind q = s.kind q) →
      Meets (step (place ++ [name])) t (Permitted (place ++ [name]) left)
        (Ends faults (place ++ [name]) left t (Swept faults (place ++ [name]) left t)))
    (ht : Settled (Below place done) (faults .reread) s t) :
    Meets (forEach faults step place names) t (Permitted place (left + 1))
      (Ends faults place (left + 1) s fun u =>
        Settled (Below place (done ++ names)) (faults .reread) s u ∧
          ∀ name ∈ names, ∀ q, ¬ Offending s (place ++ [name]) left q) := by
  induction names generalizing done t with
  | nil =>
    rw [forEach, meets_call]
    refine ⟨fun hfault => .inr ⟨_, hfault⟩, fun _ => ⟨?_, nofun⟩⟩
    rwa [List.append_nil]
  | cons name names ih =>
    obtain ⟨hname, hnodup⟩ := List.nodup_cons.mp hnodup
    have hnew : name ∉ done := hdone name List.mem_cons_self
    have hsame (q : Position) (hq : place ++ [name] <+: q) : t.kind q = s.kind q :=
      ht.kept q fun ⟨other, hother, hbelow⟩ => absurd (eq_of_below hq hbelow ▸ hother) hnew
    rw [forEach]
    refine meets_call_bind ?_
    rw [meets_bind]
    refine (hstep name List.mem_cons_self t hsame).mono (fun _ _ => Permitted.above) ?_
    rintro (e | _) u hu
    · exact hu.imp_left fun hoffending => ((offending_congr hsame).mp hoffending).above
    · refine (ih _ hnodup (fun other hother hmem => ?_) (fun other hother => hstep other
        (List.mem_cons_of_mem _ hother)) (ht.extend hnew hu.1)).mono (fun _ _ h => h) ?_
      · rcases List.mem_append.mp hmem with hmem | hmem
        · exact hdone other (List.mem_cons_of_mem _ hother) hmem
        · exact hname (List.mem_singleton.mp hmem ▸ hother)
      · rintro (e | _) v hv
        · exact hv
        · refine ⟨by simpa using hv.1, List.forall_mem_cons.mpr ⟨fun q hq => ?_, hv.2⟩⟩
          exact hu.2 q ((offending_congr hsame).mpr hq)

/-- Nothing stands below an entry that is no directory. -/
theorem none_below {q : Position} (h : s.kind place ≠ some .directory) (hq : place <+: q)
    (hne : q ≠ place) : s.kind q = none := by
  by_contra hkind
  exact h (s.kind_above hkind hq hne.symm)

/-- What stays is kept, if it is no directory. -/
theorem stays_leaf {lost : Position → Bool} (hkind : s.kind place ≠ some .directory) :
    Stays s lost place ↔ KeptFile s place := by
  constructor
  · rintro ⟨w, hw, hkept⟩
    by_cases heq : w = place
    · obtain rfl := heq
      exact hkept.resolve_right fun h => hkind h.1
    · have hnone := none_below hkind hw heq
      rcases hkept with ⟨bytes, name, hfile, -⟩ | ⟨hdir, -⟩
      · simp [hnone] at hfile
      · simp [hnone] at hdir
  · exact fun h => ⟨place, List.prefix_rfl, .inl h⟩

/-- An entry that is no directory is swept if it is not refused, and is as it was when it is kept
and gone when it is not. -/
theorem swept_leaf (hkind : s.kind place ≠ some .directory) (hrefused : ¬ Refused s place)
    (hplace : t.kind place = s.kind place ∧ KeptFile s place ∨
      t.kind place = none ∧ ¬ KeptFile s place)
    (hother : ∀ q, q ≠ place → t.kind q = s.kind q) : Swept faults place (left + 1) s t := by
  refine ⟨⟨fun q hq hstay => ?_, fun q hq => ?_⟩, fun q ⟨hq, hsome, hoffending⟩ => ?_⟩
  · by_cases heq : q = place
    · obtain rfl := heq
      rw [stays_leaf hkind] at hstay
      exact (hplace.resolve_left fun h => hstay h.2).1
    · rw [hother q heq, none_below hkind hq heq]
  · by_cases heq : q = place
    · obtain rfl := heq
      have hstay := (stays_leaf hkind).mp (hq List.prefix_rfl)
      exact (hplace.resolve_right fun h => h.2 hstay).1
    · exact hother q heq
  · by_cases heq : q = place
    · obtain rfl := heq
      exact hoffending.elim (fun hle => absurd hle (by omega)) hrefused
    · exact hsome (none_below hkind hq heq)

/-- Nothing stands in an entry that is no directory. -/
theorem names_leaf (hkind : s.kind place ≠ some .directory) : s.names place = [] := by
  rw [List.eq_nil_iff_forall_not_mem]
  intro name hname
  exact hkind (s.closed place name (FileSystem.mem_names.mp hname))

/-- What stays in a directory stays below one of its names. -/
theorem stays_directory {lost : Position → Bool} (hkind : s.kind place = some .directory)
    (hlost : lost place = false) :
    Stays s lost place ↔ ∃ name, Stays s lost (place ++ [name]) := by
  constructor
  · rintro ⟨w, hw, hkept⟩
    rcases below_cases hw with rfl | ⟨name, hname⟩
    · rcases hkept with ⟨bytes, name, hfile, -⟩ | ⟨-, hlost'⟩
      · simp [hkind] at hfile
      · simp [hlost] at hlost'
    · exact ⟨name, w, hname, hkept⟩
  · rintro ⟨name, h⟩
    exact h.above (List.prefix_append _ _)

section Directories

variable {u : FileSystem} {lost : Position → Bool} {names : List EntryName}

/-- The part of a directory below any of its names. -/
def Inside (place q : Position) : Prop := ∃ name, place ++ [name] <+: q

theorem not_inside_self : ¬ Inside place place := by
  rintro ⟨name, h⟩
  have hle := h.length_le
  rw [List.length_append, List.length_singleton] at hle
  omega

/-- The loop settles all that stands in the directory. -/
theorem Settled.inside (h : Settled (Below place names) lost s u)
    (hnames : ∀ name, name ∈ s.names place → name ∈ names) : Settled (Inside place) lost s u := by
  constructor
  · rintro q ⟨name, hbelow⟩ hstay
    by_cases hname : name ∈ names
    · exact h.gone q ⟨name, hname, hbelow⟩ hstay
    · have hnone : s.kind (place ++ [name]) = none := by
        by_contra hsome
        exact hname (hnames name (FileSystem.mem_names.mpr hsome))
      rw [h.kept q fun ⟨other, hother, h⟩ => absurd (eq_of_below hbelow h ▸ hother) hname]
      by_cases heq : q = place ++ [name]
      · rw [heq, hnone]
      · exact none_below (by simp [hnone]) hbelow heq
  · exact fun q hq => h.kept q fun ⟨name, _, hbelow⟩ => hq ⟨name, hbelow⟩

/-- A name is left in the directory if it stays. -/
theorem Settled.mem_names (h : Settled (Inside place) lost s u) {name : EntryName} :
    name ∈ u.names place ↔ Stays s lost (place ++ [name]) := by
  rw [FileSystem.mem_names]
  constructor
  · intro hsome
    by_contra hstay
    exact hsome (h.gone _ ⟨name, List.prefix_rfl⟩ hstay)
  · intro hstay
    rw [h.kept _ fun _ => hstay]
    exact hstay.exists

/-- An emptied directory is settled by its removal. -/
theorem Settled.removed (h : Settled (Inside place) lost s u)
    (hkind : s.kind place = some .directory) (hempty : u.names place = [])
    (hlost : lost place = false) : Settled (place <+: ·) lost s (u.remove place) := by
  have hplace : ¬ Stays s lost place := by
    rw [stays_directory hkind hlost]
    rintro ⟨name, hname⟩
    exact absurd (h.mem_names.mpr hname) (hempty ▸ List.not_mem_nil)
  constructor
  · intro q hq hstay
    rw [FileSystem.kind_remove hempty]
    split_ifs with heq
    · rfl
    · exact h.gone q ((below_cases hq).resolve_left heq) hstay
  · intro q hq
    have hne : q ≠ place := fun heq => hplace (heq ▸ hq (heq ▸ List.prefix_rfl))
    rw [FileSystem.kind_remove hempty, if_neg hne]
    exact h.kept q fun ⟨name, hname⟩ => hq ((List.prefix_append _ _).trans hname)

/-- A directory in which something is left, or that cannot be read again, stays. -/
theorem Settled.unremoved (h : Settled (Inside place) lost s u) (hkind : s.kind place = some .directory)
    (hnot : ¬ (u.names place = [] ∧ lost place = false)) : Settled (place <+: ·) lost s u := by
  have hplace : Stays s lost place := by
    cases hlost : lost place with
    | true => exact ⟨place, List.prefix_rfl, .inr ⟨hkind, hlost⟩⟩
    | false =>
      obtain ⟨name, hname⟩ := List.exists_mem_of_ne_nil _ fun hempty => hnot ⟨hempty, hlost⟩
      exact (stays_directory hkind hlost).mpr ⟨name, h.mem_names.mp hname⟩
  constructor
  · intro q hq hstay
    refine h.gone q ((below_cases hq).resolve_left ?_) hstay
    rintro rfl
    exact hstay hplace
  · exact fun q hq => h.kept q fun ⟨name, hname⟩ => hq ((List.prefix_append _ _).trans hname)

end Directories

/-- A run removes what it may and stops at what offends it. -/
theorem meets_removeOwnedTree (hplace : left = 0 → s.kind place ≠ none) :
    Meets (removeOwnedTree order faults left place) s (Permitted place left)
      (Ends faults place left s (Swept faults place left s)) := by
  induction left generalizing place s with
  | zero =>
    rw [removeOwnedTree, meets_fail]
    exact .inl ⟨List.prefix_rfl, hplace rfl, .inl (Nat.le_refl _)⟩
  | succ left ih =>
    rw [removeOwnedTree]
    refine meets_call_bind ?_
    rw [meets_bind, meets_get]
    simp only
    cases hkind : s.kind place with
    | none =>
      have hnot : ¬ KeptFile s place := by
        rintro ⟨bytes, name, hfile, -⟩
        simp [hkind] at hfile
      rw [meets_pure]
      exact swept_leaf (by simp [hkind]) (by simp [Refused, hkind]) (.inr ⟨hkind, hnot⟩)
        fun _ _ => rfl
    | some kind =>
      have hthere : s.kind place ≠ none := by simp [hkind]
      cases kind with
      | symlink target =>
        simp only [meets_fail]
        exact .inl ⟨List.prefix_rfl, hthere, .inr (.inl ⟨target, hkind⟩)⟩
      | special =>
        simp only [meets_fail]
        exact .inl ⟨List.prefix_rfl, hthere, .inr (.inr (.inl hkind))⟩
      | file bytes =>
        have hleaf : s.kind place ≠ some .directory := by simp [hkind]
        simp only
        split
        · rename_i name hlast
          have hrefused : ¬ Refused s place := by simp [Refused, hkind, hlast]
          split_ifs with hkept
          · rw [meets_pure]
            exact swept_leaf hleaf hrefused (.inl ⟨rfl, bytes, name, hkind, hlast, hkept⟩)
              fun _ _ => rfl
          · have hplain : keptName name = false := by simpa using hkept
            have hnot : ¬ KeptFile s place := by simp [KeptFile, hkind, hlast, hplain]
            refine meets_call_bind (Meets.step ?_ (meets_syncParent (fun _ => trivial) ?_))
            · exact ⟨List.prefix_rfl, by omega, bytes, name, hkind, hlast, hplain⟩
            · refine swept_leaf hleaf hrefused (.inr ⟨?_, hnot⟩) fun q hq => ?_
              · rw [apply, FileSystem.kind_remove (names_leaf hleaf), if_pos rfl]
              · rw [apply, FileSystem.kind_remove (names_leaf hleaf), if_neg hq]
        · rename_i hname
          simp only [meets_fail]
          exact .inl ⟨List.prefix_rfl, hthere, .inr (.inr (.inr ⟨bytes, hkind, hname⟩))⟩
      | directory =>
        simp only
        have hmem (name : EntryName) :
            name ∈ order.list place (s.names place) ↔ s.kind (place ++ [name]) ≠ none :=
          (order.perm _ _).mem_iff.trans FileSystem.mem_names
        refine meets_call_bind (Meets.step ⟨List.prefix_rfl, hkind⟩ (Meets.read ?_))
        rw [meets_bind]
        refine (meets_forEach [] ((order.perm _ _).nodup_iff.mpr (s.nodup_names place))
          (fun _ _ => List.not_mem_nil) (fun name hname t ht => ih fun _ => ?_)
          ⟨fun q hq => absurd hq.choose_spec.1 List.not_mem_nil, fun _ _ => rfl⟩).mono
          (fun _ _ h => h) ?_
        · rw [ht _ List.prefix_rfl]
          exact (hmem name).mp hname
        · rintro (e | _) u hu
          · exact hu
          · have hinside : Settled (Inside place) (faults .reread) s u :=
              hu.1.inside fun name hname => (hmem name).mpr (FileSystem.mem_names.mp hname)
            have hdir : u.kind place = some .directory :=
              (hinside.kept place fun h => absurd h not_inside_self).trans hkind
            have hclean (q : Position) : ¬ Offending s place (left + 1) q := by
              rintro ⟨hq, hsome, hoffending⟩
              rcases below_cases hq with rfl | ⟨name, hname⟩
              · rcases hoffending with hle | hrefused
                · omega
                · simp [Refused, hkind] at hrefused
              · have hchild : s.kind (place ++ [name]) ≠ none := by
                  by_cases heq : place ++ [name] = q
                  · rwa [heq]
                  · simp [s.kind_above hsome hname heq]
                refine hu.2 name ((hmem name).mpr hchild) q ⟨hname, hsome, hoffending.imp_left ?_⟩
                rw [List.length_append, List.length_singleton]
                omega
            refine meets_call_bind (Meets.step ⟨List.prefix_rfl, hdir⟩ (Meets.read ?_))
            rw [meets_ite]
            refine ⟨fun hempty => ?_, fun hempty => ?_⟩
            · refine meets_call_bind (Meets.step ⟨List.prefix_rfl, by omega, hdir, hempty.1⟩
                (meets_syncParent (fun _ => trivial) ?_))
              exact ⟨hinside.removed hkind hempty.1 hempty.2, hclean⟩
            · refine meets_syncParent (fun _ => trivial) ?_
              exact ⟨hinside.unremoved hkind hempty, hclean⟩

end Runs

section Repetitions

open Proc

/-- An entry that a run may remove. -/
def Disposable (fs : FileSystem) (path : Position) (levels : Nat) (q : Position) : Prop :=
  path <+: q ∧ q.length < path.length + levels ∧ (fs.kind q = some .directory ∨ PlainFile fs q)

/-- Nothing has changed but that some disposable entries are gone. -/
def Trimmed (path : Position) (levels : Nat) (s t : FileSystem) : Prop :=
  ∀ q, t.kind q = s.kind q ∨ t.kind q = none ∧ Disposable s path levels q

/-- No call of the system fails. -/
def noFaults : SweepCall → Position → Bool := fun _ _ => false

variable {order : ListingOrder} {faults : SweepCall → Position → Bool} {s t : FileSystem}
  {path q : Position} {levels : Nat}

theorem Trimmed.refl (path : Position) (levels : Nat) (s : FileSystem) : Trimmed path levels s s :=
  fun _ => .inl rfl

/-- What is there was there. -/
theorem Trimmed.kind_eq (h : Trimmed path levels s t) (hq : t.kind q ≠ none) :
    t.kind q = s.kind q :=
  (h q).resolve_right fun hgone => hq hgone.1

/-- What no run removes is still there. -/
theorem Trimmed.kept (h : Trimmed path levels s t) (hq : ¬ Disposable s path levels q) :
    t.kind q = s.kind q :=
  (h q).resolve_right fun hgone => hq hgone.2

/-- One more entry is removed. -/
theorem Trimmed.remove (h : Trimmed path levels s t) {place : Position} (hempty : t.names place = [])
    (hthere : t.kind place ≠ none) (hplace : Disposable t path levels place) :
    Trimmed path levels s (t.remove place) := by
  intro q
  rw [FileSystem.kind_remove hempty]
  split_ifs with heq
  · refine .inr ⟨rfl, ?_⟩
    simpa only [heq, Disposable, PlainFile, h.kind_eq hthere] using hplace
  · exact h q

theorem Trimmed.apply (h : Trimmed path levels s t) {e : SweepEvent}
    (he : Permitted path levels t e) : Trimmed path levels s (apply t e) := by
  cases e with
  | list place => exact h
  | removeFile place =>
    obtain ⟨hpath, hlevels, hplain⟩ := he
    have hkind : t.kind place ≠ some .directory ∧ t.kind place ≠ none := by
      obtain ⟨bytes, name, hfile, -⟩ := hplain
      simp [hfile]
    exact h.remove (names_leaf hkind.1) hkind.2 ⟨hpath, hlevels, .inr hplain⟩
  | removeDir place =>
    obtain ⟨hpath, hlevels, hdir, hempty⟩ := he
    exact h.remove hempty (by simp [hdir]) ⟨hpath, hlevels, .inl hdir⟩
  | sync place => exact h

/-- A lock is not disposable. -/
theorem KeptFile.not_disposable (h : KeptFile s q) : ¬ Disposable s path levels q := by
  obtain ⟨bytes, name, hfile, hlast, hkept⟩ := h
  rintro ⟨-, -, hdir | ⟨bytes', name', hfile', hlast', hplain⟩⟩
  · simp [hfile] at hdir
  · rw [hlast, Option.some.injEq, EntryName.text.injEq] at hlast'
    rw [hlast', hplain] at hkept
    contradiction

/-- An offending entry is not disposable. -/
theorem Offending.not_disposable (h : Offending s path levels q) :
    ¬ Disposable s path levels q := by
  rintro ⟨-, hlevels, hkind⟩
  rcases h.2.2 with hdeep | hrefused
  · omega
  · rcases hkind with hdir | ⟨bytes, name, hfile, hlast, -⟩
    · simp [Refused, hdir] at hrefused
    · simp [Refused, hfile, hlast] at hrefused

/-- The same entries stay. -/
theorem Trimmed.stays (h : Trimmed path levels s t) :
    Stays t (noFaults .reread) q ↔ Stays s (noFaults .reread) q := by
  refine exists_congr fun w => and_congr_right fun _ => ?_
  simp only [noFaults, Bool.false_eq_true, and_false, or_false]
  constructor
  · intro hkept
    have hkind : t.kind w ≠ none := by
      obtain ⟨bytes, name, hfile, -⟩ := hkept
      simp [hfile]
    simpa only [KeptFile, h.kind_eq hkind] using hkept
  · intro hkept
    simpa only [KeptFile, h.kept hkept.not_disposable] using hkept

/-- The same entries offend. -/
theorem Trimmed.offending (h : Trimmed path levels s t) :
    Offending t path levels q ↔ Offending s path levels q := by
  constructor
  · intro hoffending
    simpa only [Offending, Refused, h.kind_eq hoffending.2.1] using hoffending
  · intro hoffending
    simpa only [Offending, Refused, h.kept hoffending.not_disposable] using hoffending

/-- So it is without an entry. -/
theorem Trimmed.without (h : Trimmed path levels s t) (place : Position) :
    Trimmed path levels (s.without place) (t.without place) := by
  intro q
  simp only [Disposable, PlainFile, FileSystem.kind_without]
  split_ifs with hbelow
  · exact .inl rfl
  · exact h q

/-- A run from the top, with levels left. -/
theorem meets_run (order : ListingOrder) (faults : SweepCall → Position → Bool)
    (levels : Nat) (path : Position) (s : FileSystem) :
    Meets (removeOwnedTree order faults (levels + 1) path) s (Permitted path (levels + 1))
      (Ends faults path (levels + 1) s (Swept faults path (levels + 1) s)) :=
  meets_removeOwnedTree fun h => absurd h (Nat.succ_ne_zero levels)

/-- A run trims the tree. -/
theorem Trimmed.run {r : FileSystem} (h : Trimmed path (levels + 1) r s) :
    Trimmed path (levels + 1) r ((removeOwnedTree order faults (levels + 1) path).final s) :=
  ((meets_run order faults levels path s).keeps h fun _ _ ht he => ht.apply he).2.2

/-- Without failing calls a run succeeds exactly if nothing offends it. -/
theorem result_ok_iff : ((removeOwnedTree order noFaults (levels + 1) path) s).result = .ok () ↔
    ∀ q, ¬ Offending s path (levels + 1) q := by
  have hends := (meets_run order noFaults levels path s).2
  constructor
  · intro hok
    rw [hok] at hends
    exact hends.2
  · intro hclean
    cases hresult : ((removeOwnedTree order noFaults (levels + 1) path) s).result with
    | ok _ => rfl
    | error e =>
      rw [hresult] at hends
      rcases hends with hoffending | ⟨c, hfault⟩
      · exact absurd hoffending (hclean _)
      · contradiction

/-- A run that succeeds settles the tree. -/
theorem settled_of_ok
    (h : ((removeOwnedTree order faults (levels + 1) path) s).result = .ok ()) :
    Settled (path <+: ·) (faults .reread) s
      ((removeOwnedTree order faults (levels + 1) path).final s) := by
  have hends := (meets_run order faults levels path s).2
  rw [h] at hends
  exact hends.1

/-- Settled trees of which one was trimmed to the other are the same. -/
theorem Trimmed.settled_eq {u v : FileSystem} (h : Trimmed path levels s t)
    (hu : Settled (path <+: ·) (noFaults .reread) s u)
    (hv : Settled (path <+: ·) (noFaults .reread) t v) : v.kind q = u.kind q := by
  by_cases hq : path <+: q ∧ ¬ Stays s (noFaults .reread) q
  · rw [hu.gone q hq.1 hq.2, hv.gone q hq.1 fun hstay => hq.2 (h.stays.mp hstay)]
  · have hstay : path <+: q → Stays s (noFaults .reread) q := fun hpath =>
      by_contra fun hnot => hq ⟨hpath, hnot⟩
    rw [hu.kept q hstay, hv.kept q fun hpath => h.stays.mpr (hstay hpath)]
    by_cases hpath : path <+: q
    · exact h.kind_eq (h.stays.mpr (hstay hpath)).exists
    · exact h.kept fun hdisposable => hpath hdisposable.1

/-- A run that ends at an entry is repeated without that entry, until one succeeds that could read
each directory again. -/
inductive Cleared (path : Position) : FileSystem → List Position → FileSystem → Prop
  | done {order : ListingOrder} {faults : SweepCall → Position → Bool} {s : FileSystem}
      (hread : ∀ q, faults .reread q = false)
      (hok : (removeOwnedTree order faults cleanupLevels path s).result = .ok ()) :
      Cleared path s [] ((removeOwnedTree order faults cleanupLevels path).final s)
  | retry {order : ListingOrder} {faults : SweepCall → Position → Bool} {s t : FileSystem}
      {e : SweepError} {removed : List Position}
      (herror : (removeOwnedTree order faults cleanupLevels path s).result = .error e)
      (hrest : Cleared path
        (((removeOwnedTree order faults cleanupLevels path).final s).without e.place) removed t) :
      Cleared path s (e.place :: removed) t

/-- The file system without several entries. -/
def withoutAll (fs : FileSystem) (places : List Position) : FileSystem :=
  places.foldl FileSystem.without fs

/-- Repeated runs leave what one run leaves where the entries they ended at had never been. -/
theorem Cleared.eq_fresh {removed : List Position} {r : FileSystem} (h : Cleared path s removed t)
    (htrimmed : Trimmed path cleanupLevels r s) (fresh : ListingOrder) :
    (removeOwnedTree fresh noFaults cleanupLevels path (withoutAll r removed)).result = .ok () ∧
    ∀ q, ((removeOwnedTree fresh noFaults cleanupLevels path).final (withoutAll r removed)).kind q =
      t.kind q := by
  induction h generalizing r with
  | @done order faults s hread hok =>
    have hends := (meets_run order faults 8 path s).2
    have hfaults : faults .reread = noFaults .reread := funext hread
    rw [show 8 + 1 = cleanupLevels from rfl, hok] at hends
    have hfresh : (removeOwnedTree fresh noFaults cleanupLevels path r).result = .ok () :=
      result_ok_iff.mpr fun q hq => hends.2 q (htrimmed.offending.mpr hq)
    exact ⟨hfresh, fun q => (htrimmed.settled_eq (settled_of_ok hfresh) (hfaults ▸ hends.1)).symm⟩
  | retry herror hrest ih => exact ih (htrimmed.run.without _)

end Repetitions

/-- A run removes only what it may, wherever it is cut off. One that succeeds leaves exactly the kept
files and the directories above them, and those it could not read again. One that fails ends at an
offending entry or at one at which the system failed; repeated without that entry it succeeds if a
first run does where the entry has never been, and leaves the same, and so do any further
repetitions. -/
theorem owned_tree_removed (order : ListingOrder) (faults : SweepCall → Position → Bool)
    (path : Position) (fs : FileSystem) :
    let run := removeOwnedTree order faults cleanupLevels path
    Guarded apply (Permitted path cleanupLevels) fs (run fs).events ∧
    (∀ k, Trimmed path cleanupLevels fs (run.cut fs k)) ∧
    ((run fs).result = .ok () → Settled (path <+: ·) (faults .reread) fs (run.final fs)) ∧
    (∀ e, (run fs).result = .error e →
      (Offending fs path cleanupLevels e.place ∨ ∃ c, faults c e.place = true) ∧
      ∀ again fresh : ListingOrder,
        let repeated := removeOwnedTree again noFaults cleanupLevels path
        let without := removeOwnedTree fresh noFaults cleanupLevels path
        ((repeated ((run.final fs).without e.place)).result = .ok () ↔
          (without (fs.without e.place)).result = .ok ()) ∧
        ((repeated ((run.final fs).without e.place)).result = .ok () →
          ∀ q, (repeated.final ((run.final fs).without e.place)).kind q =
            (without.final (fs.without e.place)).kind q)) ∧
    ∀ removed t, Cleared path fs removed t → ∀ fresh : ListingOrder,
      let without := removeOwnedTree fresh noFaults cleanupLevels path
      (without (withoutAll fs removed)).result = .ok () ∧
      ∀ q, (without.final (withoutAll fs removed)).kind q = t.kind q := by
  intro run
  have hmeets := meets_run order faults 8 path fs
  refine ⟨hmeets.1, fun k => ?_, fun hok => settled_of_ok hok, fun e herror => ⟨?_, ?_⟩,
    fun removed t ht fresh => ht.eq_fresh (.refl _ _ _) fresh⟩
  · exact hmeets.cut (.refl _ _ _) (fun _ _ ht he => ht.apply he) k
  · have hends := hmeets.2
    rw [show 8 + 1 = cleanupLevels from rfl, herror] at hends
    exact hends
  · intro again fresh repeated without
    have htrimmed : Trimmed path cleanupLevels (fs.without e.place)
        ((run.final fs).without e.place) := (Trimmed.refl _ _ _).run.without _
    have hiff : (repeated ((run.final fs).without e.place)).result = .ok () ↔
        (without (fs.without e.place)).result = .ok () := by
      refine result_ok_iff.trans (Iff.trans ?_ result_ok_iff.symm)
      exact forall_congr' fun q => not_congr htrimmed.offending
    exact ⟨hiff, fun hok q => htrimmed.settled_eq (settled_of_ok (hiff.mp hok)) (settled_of_ok hok)⟩

end OwnedTree

end MiRelay
