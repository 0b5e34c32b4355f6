import MiRelay.Core.Durable
import MiRelay.Core.FileSystem
import MiRelay.Core.Separated
import MiRelay.Protocol

/-!
# The root of a synchronized directory

`Root` reaches the files of a directory one component at a time and follows no
link. The components were checked before, so each is a single name, and what is
opened or created lies where the path says, below the directory that was opened.
Any call may fail, and a walk that fails has touched nothing else.
-/

namespace MiRelay

open Proc

/-- The files, and how the device answers the next calls. -/
structure RootSession where
  fs : FileSystem
  /-- The calls that fail, with their errors. -/
  faults : List (Option Error)

/-- What a call touches. -/
inductive RootStep
  | called
  | opened (place : Position)
  | created (parent : Position) (name : EntryName)
  deriving DecidableEq, Repr

/-- What a step does to the files; a directory is created where none of that name stands. -/
def RootSession.apply (s : RootSession) : RootStep → RootSession
  | .called => { s with faults := s.faults.tail }
  | .opened _ => s
  | .created parent name =>
    if h : s.fs.kind parent = some .directory ∧ name.Proper then
      { s with fs := s.fs.makeDirectory parent name h.1 h.2 }
    else s

abbrev RootProc : Type → Type := Proc RootSession.apply Error

/-- The directory that was opened. -/
structure Root where
  path : String
  place : Position

namespace RootProc

/-- One call, which may fail. -/
def call : RootProc Unit := do
  let s ← get
  emit .called
  match s.faults.head? with
  | some (some e) => fail e
  | _ => return ()

/-- An error number as the text the system gives it. -/
def systemError : Errno → Error
  | .noEntry => .message "ENOENT: No such file or directory"
  | .notDirectory => .message "ENOTDIR: Not a directory"
  | .loop => .message "ELOOP: Too many symbolic links encountered"
  | .exists => .message "EEXIST: File exists"
  | .invalid => .message "EINVAL: Invalid argument"

/-- `openat` without following a link. -/
def openat (start : Position) (name : String) (directory : Bool) : RootProc Position := do
  call
  match (← get).fs.openat start name directory with
  | .ok place => do
    emit (.opened place)
    return place
  | .error e => fail (systemError e)

/-- `mkdirat`, and the parent's `sync_all` after a directory was created. -/
def mkdirat (parent : Position) (name : String) : RootProc Unit := do
  call
  match (← get).fs.mkdirat parent name with
  | .ok (place, name) => do
    emit (.created place name)
    call
  | .error .exists => return ()
  | .error e => fail (systemError e)

/-- The loop of `Root::parent` over the parts of a path. -/
def enter (create : Bool) : Position → List String → RootProc Position
  | parent, [] => return parent
  | parent, part :: rest => do
    if create then mkdirat parent part
    let child ← openat parent part true
    enter create child rest

end RootProc

/-- The names of a path. -/
def partsOf (path : String) : List String := (components path).map String.ofList

namespace Root

open RootProc

/-- `Root::open`: an absolute directory, entered from the topmost one. -/
def «open» (cwd path : String) : RootProc Root := do
  let path := if path.toList.head? = some '/' then path else cwd ++ "/" ++ path
  let top ← openat [] "/" true
  let place ← go top ((partsOf path).filter fun part => part ≠ "" ∧ part ≠ ".")
  return ⟨path, place⟩
where
  go : Position → List String → RootProc Position
    | place, [] => return place
    | place, part :: rest => do
      if part = ".." then fail (.message
        "Use an absolute directory without dot or parent components.")
      let child ← openat place part true
      go child rest

/-- `Root::parent`. -/
def parent (root : Root) (path : String) (create : Bool) : RootProc (Position × String) := do
  ofExcept (validatePath path)
  match (partsOf path).getLast? with
  | none => fail (.message "Missing filename")
  | some name => do
    call
    let place ← enter create root.place (partsOf path).dropLast
    return (place, name)

/-- `regular`. -/
def regular (parent : Position) (name : String) : RootProc Position := do
  let place ← openat parent name false
  call
  match (← get).fs.kind place with
  | some (.file _) => return place
  | _ => fail (.message "Directory contains a non-regular file.")

/-- `Root::read`: the file that was opened. -/
def read (root : Root) (path : String) : RootProc Position := do
  let (parent, name) ← root.parent path false
  regular parent name

end Root

/-! ### What a valid path looks like -/

/-- A component that the receiver keeps for itself. -/
def reserved (part : List Char) : Bool := ".mirelay".toList.isPrefixOf (part.map Char.toLower)

/-- An absolute path, or one with a component that is empty, special, reserved, or has a
backslash, a colon or a control character. -/
def Unsafe (path : String) : Prop :=
  path.toList.head? = some '/' ∨ ∃ part ∈ components path, part = [] ∨ part = ['.'] ∨
    part = ['.', '.'] ∨ '\\' ∈ part ∨ ':' ∈ part ∨ (∃ c ∈ part, isControl c = true) ∨
    reserved part = true

/-- The letters of a component are letters of the path. -/
theorem mem_toList_of_mem_components {path : String} {part : List Char}
    (hpart : part ∈ components path) {c : Char} (hc : c ∈ part) : c ∈ path.toList :=
  mem_of_mem_splitOn hpart hc

/-- What the validation of a path says of each component. -/
theorem validComponent_of_validatePath {path : String} {u : Unit} (h : validatePath path = .ok u)
    {part : List Char} (hpart : part ∈ components path) :
    validComponent part = true ∧ '\\' ∉ part := by
  simp only [validatePath, bind_eq_ok, ensure_eq_ok, Bool.and_eq_true, Bool.not_eq_true',
    List.all_eq_true, List.contains_eq_mem, decide_eq_false_iff_not] at h
  obtain ⟨_, ⟨-, hback⟩, _, -, hall⟩ := h
  exact ⟨hall part hpart, fun hc => hback (mem_toList_of_mem_components hpart hc)⟩

/-- The path starts with the separator exactly if the first component is empty. -/
theorem nil_mem_components_of_absolute {path : String} (h : path.toList.head? = some '/') :
    [] ∈ components path := by
  rw [components]
  cases hl : path.toList with
  | nil => simp [hl] at h
  | cons c rest =>
    rw [hl, List.head?_cons, Option.some.injEq] at h
    subst h
    rw [List.splitOn_cons_eq_if_modifyHead]
    simp

/-- An unsafe path is refused. -/
theorem validatePath_of_unsafe {path : String} (h : Unsafe path) :
    ∃ e, validatePath path = .error e := by
  cases hv : validatePath path with
  | error e => exact ⟨e, rfl⟩
  | ok u =>
    exfalso
    rcases h with h | ⟨part, hpart, h⟩
    · have := (validComponent_of_validatePath hv (nil_mem_components_of_absolute h)).1
      simp [validComponent] at this
    · obtain ⟨hvalid, hback⟩ := validComponent_of_validatePath hv hpart
      simp only [validComponent, Bool.and_eq_true, decide_eq_true_eq, Bool.not_eq_true',
        List.any_eq_false, List.contains_eq_mem, decide_eq_false_iff_not] at hvalid
      obtain ⟨⟨⟨⟨⟨⟨hne, hdot⟩, hdots⟩, -⟩, hcontrol⟩, hreserved⟩, hcolon⟩ := hvalid
      rcases h with h | h | h | h | h | ⟨c, hc, h⟩ | h
      · exact hne h
      · exact hdot h
      · exact hdots h
      · exact hback h
      · exact hcolon h
      · exact hcontrol c hc h
      · rw [reserved, hreserved] at h
        contradiction

/-- The names of a valid path are plain. -/
theorem plain_of_mem_partsOf {path : String} {u : Unit} (h : validatePath path = .ok u)
    {name : String} (hname : name ∈ partsOf path) : FileSystem.Plain name := by
  obtain ⟨part, hpart, rfl⟩ := List.mem_map.mp hname
  have hvalid := (validComponent_of_validatePath h hpart).1
  simp only [validComponent, Bool.and_eq_true, decide_eq_true_eq, Bool.not_eq_true',
    List.any_eq_false] at hvalid
  obtain ⟨⟨⟨⟨⟨⟨hne, hdot⟩, hdots⟩, -⟩, hcontrol⟩, -⟩, -⟩ := hvalid
  have htext (text : String) : String.ofList part = text ↔ part = text.toList := by
    rw [← String.toList_inj, String.toList_ofList]
  refine ⟨⟨?_, ?_, ?_, ?_⟩, ?_⟩
  · exact fun h => hne ((htext _).mp h)
  · exact fun h => hdot ((htext _).mp h)
  · exact fun h => hdots ((htext _).mp h)
  · rw [String.toList_ofList]
    exact notMem_of_mem_splitOn hpart
  · rw [String.toList_ofList]
    exact fun hc => hcontrol _ hc (by decide)

/-! ### Containment -/

namespace Root

open RootProc

/-- A step stays inside: what is opened is no link and lies below the root in real directories,
and a directory is created below the root where nothing stood. -/
def Contained (root : Position) (s : RootSession) : RootStep → Prop
  | .called => True
  | .opened place => root <+: place ∧ (∃ found, s.fs.kind place = some found ∧
      ∀ target, found ≠ .symlink target) ∧
      ∀ above, above <+: place → above ≠ place → s.fs.kind above = some .directory
  | .created parent name => root <+: parent ∧ s.fs.kind parent = some .directory ∧
      name.Proper ∧ s.fs.kind (parent ++ [name]) = none

/-- A step that stays inside, and creates a directory only with creation enabled. -/
def Permitted (root : Position) (create : Bool) (s : RootSession) (e : RootStep) : Prop :=
  Contained root s e ∧ (create = false → ∀ parent name, e ≠ .created parent name)

/-- A step that stays inside and creates nothing. -/
abbrev Quiet (root : Position) : RootSession → RootStep → Prop := Permitted root false

theorem Quiet.permitted {root : Position} {s : RootSession} {e : RootStep} (h : Quiet root s e)
    (create : Bool) : Permitted root create s e := ⟨h.1, fun _ => h.2 rfl⟩

variable {s : RootSession} {top start : Position} {name : String}

theorem quiet_called : Quiet top s .called := ⟨trivial, fun _ _ _ h => by contradiction⟩

/-- A call touches nothing. -/
theorem call_meets : Meets call s (Quiet top) (OnSuccess fun _ t => t.fs = s.fs) := by
  refine Meets.read (Meets.step quiet_called ?_)
  cases s.faults.head? with
  | none => simp [RootSession.apply]
  | some fault =>
    cases fault with
    | none => simp [RootSession.apply]
    | some e => simp

/-- A plain name opens what stands under it in a directory inside the root. -/
theorem openat_meets (hplain : FileSystem.Plain name) (hstart : top <+: start) (directory : Bool) :
    Meets (openat start name directory) s (Quiet top) (OnSuccess fun place t => t.fs = s.fs ∧
      place = start ++ [.text name] ∧ ∃ found, s.fs.kind place = some found ∧
        (∀ target, found ≠ .symlink target) ∧ (directory = true → found = .directory)) := by
  unfold openat
  refine Meets.bind call_meets fun _ t ht => Meets.read ?_
  rw [ht]
  cases hopen : s.fs.openat start name directory with
  | error e => simp
  | ok place =>
    obtain ⟨rfl, hdir, found, hk, hnolink, hd⟩ :=
      (FileSystem.openat_eq_ok_of_plain hplain).mp hopen
    refine Meets.step ⟨⟨hstart.trans (List.prefix_append _ _), ?_, ?_⟩, by simp⟩ ?_
    · rw [ht]
      exact ⟨found, hk, hnolink⟩
    · rw [ht]
      intro above habove hne
      exact s.fs.kind_above (by rw [hk]; exact Option.some_ne_none _) habove hne
    · rw [meets_pure, onSuccess_ok]
      exact ⟨ht, rfl, found, hk, hnolink, hd⟩

/-- What has been created since: directories below the root where nothing stood. -/
def Extends (top : Position) (s t : RootSession) : Prop :=
  ∀ place, t.fs.kind place = s.fs.kind place ∨ (s.fs.kind place = none ∧
    t.fs.kind place = some .directory ∧ top <+: place ∧ place ≠ top)

theorem Extends.refl (s : RootSession) : Extends top s s := fun _ => .inl rfl

theorem Extends.of_fs {t : RootSession} (h : t.fs = s.fs) : Extends top s t :=
  fun place => .inl (by rw [h])

theorem Extends.trans {t u : RootSession} (h : Extends top s t) (h' : Extends top t u) :
    Extends top s u := by
  intro place
  rcases h' place with hu | ⟨hnone, hdir, hin⟩
  · rw [hu]
    exact h place
  · rcases h place with ht | ⟨-, ht, -⟩
    · exact .inr ⟨ht ▸ hnone, hdir, hin⟩
    · rw [ht] at hnone
      contradiction

/-- A directory that was there is still there. -/
theorem Extends.directory {t : RootSession} (h : Extends top s t) {place : Position}
    (hdir : s.fs.kind place = some .directory) : t.fs.kind place = some .directory := by
  rcases h place with ht | ⟨hnone, -⟩
  · rw [ht, hdir]
  · rw [hdir] at hnone
    contradiction

/-- Each contained step creates at most a directory below the root. -/
theorem Contained.extends {e : RootStep} (h : Contained top s e) : Extends top s (s.apply e) := by
  cases e with
  | called => exact .of_fs rfl
  | opened place => exact .refl s
  | created parent name =>
    obtain ⟨hin, hdir, hname, hnone⟩ := h
    intro place
    have happly : (s.apply (.created parent name)).fs =
        s.fs.makeDirectory parent name hdir hname := by
      rw [RootSession.apply, dif_pos ⟨hdir, hname⟩]
    rw [happly, FileSystem.kind_makeDirectory]
    split
    · rename_i heq
      subst heq
      refine .inr ⟨hnone, rfl, hin.trans (List.prefix_append _ _), ?_⟩
      intro htop
      rw [← htop] at hin
      have := hin.length_le
      rw [List.length_append, List.length_singleton] at this
      omega
    · exact .inl rfl

/-- Creating a directory by a plain name stays inside. -/
theorem mkdirat_meets (hplain : FileSystem.Plain name) (hstart : top <+: start) :
    Meets (mkdirat start name) s (Permitted top true) (OnSuccess fun _ t => Extends top s t) := by
  have hmeets : Meets (mkdirat start name) s (Permitted top true) (OnSuccess fun _ _ => True) := by
    unfold mkdirat
    refine Meets.bind (call_meets.mono (fun _ _ h => Quiet.permitted h true) fun _ _ h => h)
      fun _ t ht => Meets.read ?_
    rw [ht, FileSystem.mkdirat_of_plain hplain]
    by_cases hdir : s.fs.kind start = some .directory
    · by_cases hfree : s.fs.kind (start ++ [.text name]) = none
      · simp only [hdir, hfree, ne_eq, not_true_eq_false, if_false]
        refine Meets.step ⟨⟨hstart, by rw [ht]; exact hdir, hplain.1, by rw [ht]; exact hfree⟩,
          by simp⟩ ?_
        exact (@call_meets _ top).mono (fun _ _ h => Quiet.permitted h true)
          fun _ _ _ => fun _ _ => trivial
      · simp [hdir, hfree]
    · simp [hdir]
  exact (hmeets.rel (R := Extends top) .refl (fun _ _ _ => .trans) fun _ _ h => h.1.extends).mono
    (fun _ _ h => h) fun _ _ h _ _ => h.2

/-- The walk over the parts of a path stays inside and ends where the parts lead. -/
theorem enter_meets (create : Bool) {parts : List String}
    (hplain : ∀ part ∈ parts, FileSystem.Plain part) (hstart : top <+: start) :
    Meets (enter create start parts) s (Permitted top create) (OnSuccess fun place t =>
      Extends top s t ∧ place = start ++ parts.map .text ∧
        (s.fs.kind start = some .directory → t.fs.kind place = some .directory)) := by
  induction parts generalizing start s with
  | nil =>
    unfold enter
    simp only [meets_pure, onSuccess_ok, List.map_nil, List.append_nil]
    exact ⟨.refl s, trivial, id⟩
  | cons part rest ih =>
    have hpart := hplain part (List.mem_cons_self ..)
    have hrest (t : RootSession) (hst : Extends top s t) :
        Meets (do let child ← openat start part true; enter create child rest) t
          (Permitted top create) (OnSuccess fun place u => Extends top s u ∧
            place = start ++ (part :: rest).map .text ∧
            (s.fs.kind start = some .directory → u.fs.kind place = some .directory)) := by
      refine Meets.bind ((openat_meets hpart hstart true).mono
        (fun _ _ h => Quiet.permitted h create) fun _ _ h => h) fun child u hu => ?_
      obtain ⟨hfs, rfl, found, hk, -, hd⟩ := hu
      refine (ih (fun p hp => hplain p (List.mem_cons_of_mem _ hp))
        (hstart.trans (List.prefix_append _ _))).imp fun place v hv => ?_
      obtain ⟨hext, rfl, hdir⟩ := hv
      refine ⟨(hst.trans (.of_fs hfs)).trans hext, by simp, fun _ => hdir ?_⟩
      rw [hfs, hk, hd rfl]
    unfold enter
    cases create with
    | false => exact hrest s (.refl s)
    | true => exact Meets.bind (mkdirat_meets hpart hstart) fun _ t ht => hrest t ht

/-- `Root::parent` stays inside and returns the directory that the path says. -/
theorem parent_meets (root : Root) (path : String) (create : Bool) :
    Meets (root.parent path create) s (Permitted root.place create) (OnSuccess fun found t =>
      validatePath path = .ok () ∧
      found.1 = root.place ++ (partsOf path).dropLast.map .text ∧
        (partsOf path).getLast? = some found.2 ∧
        (s.fs.kind root.place = some .directory → t.fs.kind found.1 = some .directory)) := by
  unfold parent
  refine Meets.check fun _ hvalid => ?_
  cases hlast : (partsOf path).getLast? with
  | none => simp
  | some name =>
    refine Meets.bind (call_meets.mono (fun _ _ h => Quiet.permitted h create) fun _ _ h => h)
      fun _ t ht => ?_
    refine Meets.bind (enter_meets create (fun part hpart => plain_of_mem_partsOf hvalid
      (List.mem_of_mem_dropLast hpart)) (List.prefix_refl _)) fun place u hu => ?_
    obtain ⟨-, rfl, hdir⟩ := hu
    rw [meets_pure, onSuccess_ok]
    refine ⟨hvalid, rfl, rfl, fun hroot => hdir ?_⟩
    rw [ht]
    exact hroot

/-- `Root::read` stays inside, creates nothing and returns the regular file at the path. -/
theorem read_meets (root : Root) (path : String) :
    Meets (root.read path) s (Quiet root.place) (OnSuccess fun place t =>
      place = root.place ++ (partsOf path).map .text ∧
        ∃ bytes, t.fs.kind place = some (.file bytes)) := by
  unfold read
  refine Meets.bind (parent_meets root path false) fun found t hfound => ?_
  obtain ⟨hvalid, hparent, hname, -⟩ := hfound
  obtain ⟨parent, name⟩ := found
  dsimp only at hparent hname ⊢
  subst hparent
  unfold regular
  refine Meets.bind (openat_meets (plain_of_mem_partsOf hvalid (List.mem_of_getLast? hname))
    (List.prefix_append _ _) false) fun place u hu => ?_
  obtain ⟨hfs, rfl, -⟩ := hu
  refine Meets.bind call_meets fun _ v hv => Meets.read ?_
  split
  · rename_i bytes hk
    rw [meets_pure, onSuccess_ok]
    refine ⟨?_, bytes, hk⟩
    rw [List.append_assoc, ← List.map_singleton, ← List.map_append,
      List.dropLast_append_getLast? name hname]
  · simp

/-- A path that is not valid is refused before anything is called. -/
theorem parent_of_invalid {root : Root} {path : String} {create : Bool} {e : Error}
    (h : validatePath path = .error e) : root.parent path create s = ⟨[], .error e⟩ := by
  rw [parent, h]
  rfl

theorem read_of_invalid {root : Root} {path : String} {e : Error}
    (h : validatePath path = .error e) : root.read path s = ⟨[], .error e⟩ := by
  have hparent : root.parent path false s = _ := parent_of_invalid h
  simp only [read, bind, andThen, hparent]

/-- Containment: an unsafe path is refused before anything is called; whatever else happens on
the way, everything that is opened lies below the root in real directories and is no link,
directories are created only with creation enabled, below the root where nothing stood; and what is
returned stands where the path says. -/
theorem parent_read_contained (root : Root) (path : String) (create : Bool) (s : RootSession) :
    (Unsafe path → ∃ e, root.parent path create s = ⟨[], .error e⟩ ∧
      root.read path s = ⟨[], .error e⟩) ∧
    (Guarded RootSession.apply (Permitted root.place create) s (root.parent path create s).events ∧
      ∀ k, Extends root.place s ((root.parent path create).cut s k)) ∧
    (Guarded RootSession.apply (Quiet root.place) s (root.read path s).events ∧
      ∀ k, ((root.read path).cut s k).fs = s.fs) ∧
    (∀ place name, (root.parent path create s).result = .ok (place, name) →
      place = root.place ++ (partsOf path).dropLast.map .text ∧
        (partsOf path).getLast? = some name ∧ (s.fs.kind root.place = some .directory →
          ((root.parent path create).final s).fs.kind place = some .directory)) ∧
    ∀ place, (root.read path s).result = .ok place →
      place = root.place ++ (partsOf path).map .text ∧
        ∃ bytes, s.fs.kind place = some (.file bytes) := by
  have hparent := parent_meets (s := s) root path create
  have hread := read_meets (s := s) root path
  have hsame : ∀ k, ((root.read path).cut s k).fs = s.fs := fun k =>
    hread.cut (I := fun t => t.fs = s.fs) rfl (fun t e ht he => by
      cases e with
      | called => exact ht
      | opened => exact ht
      | created parent name => exact absurd rfl (he.2 rfl parent name)) k
  refine ⟨fun hunsafe => ?_, ⟨hparent.1, fun k => ?_⟩, ⟨hread.1, hsame⟩, fun place name h => ?_,
    fun place h => ?_⟩
  · obtain ⟨e, he⟩ := validatePath_of_unsafe hunsafe
    exact ⟨e, parent_of_invalid he, read_of_invalid he⟩
  · exact hparent.cut (I := Extends root.place s) (.refl s)
      (fun t e ht he => ht.trans he.1.extends) k
  · exact (hparent.2 _ h).2
  · obtain ⟨hplace, bytes, hk⟩ := hread.2 _ h
    have hfinal : ((root.read path).final s).fs = s.fs := by
      have := hsame (root.read path s).events.length
      rwa [cut, List.take_length] at this
    exact ⟨hplace, bytes, hfinal ▸ hk⟩

/-- The loop of `Root::open` ends at the directory its parts lead to. -/
theorem open_go_meets {parts : List String}
    (hparts : ∀ part ∈ parts, part ≠ "" ∧ part ≠ "." ∧ '/' ∉ part.toList) :
    Meets (open.go start parts) s (Quiet []) (OnSuccess fun place t => t.fs = s.fs ∧
      place = start ++ parts.map .text ∧
        (s.fs.kind start = some .directory → s.fs.kind place = some .directory)) := by
  induction parts generalizing start s with
  | nil =>
    unfold open.go
    simp only [meets_pure, onSuccess_ok, List.map_nil, List.append_nil]
    exact ⟨trivial, trivial, id⟩
  | cons part rest ih =>
    obtain ⟨hne, hdot, hslash⟩ := hparts part (List.mem_cons_self ..)
    unfold open.go
    by_cases hdots : part = ".."
    · simp [hdots]
    · rw [if_neg hdots]
      by_cases hnul : Char.ofNat 0 ∈ part.toList
      · refine Meets.bind (M := fun _ _ => False) ?_ fun _ _ h => h.elim
        unfold openat
        refine Meets.bind call_meets fun _ t ht => Meets.read ?_
        simp [FileSystem.openat_of_nul hne hnul]
      · refine Meets.bind (openat_meets ⟨⟨hne, hdot, hdots, hslash⟩, hnul⟩ List.nil_prefix true)
          fun child t ht => ?_
        obtain ⟨hfs, rfl, found, hk, -, hd⟩ := ht
        refine (ih fun p hp => hparts p (List.mem_cons_of_mem _ hp)).imp fun place u hu => ?_
        obtain ⟨hfs', rfl, hdir⟩ := hu
        refine ⟨hfs'.trans hfs, by simp, fun _ => ?_⟩
        rw [hfs, hk, hd rfl] at hdir
        exact hdir rfl

/-- `Root::open` returns a directory that its path reaches through real directories. -/
theorem open_meets (cwd path : String) :
    Meets (Root.open cwd path) s (Quiet []) (OnSuccess fun root t => t.fs = s.fs ∧
      root.place = ((partsOf root.path).filter fun part => part ≠ "" ∧ part ≠ ".").map .text ∧
        s.fs.kind root.place = some .directory) := by
  unfold Root.open
  have htop : Meets (openat [] "/" true) s (Quiet []) (OnSuccess fun place t =>
      t.fs = s.fs ∧ place = [] ∧ s.fs.kind [] = some .directory) := by
    unfold openat
    refine Meets.bind call_meets fun _ t ht => Meets.read ?_
    rw [ht, FileSystem.openat_top]
    by_cases hdir : s.fs.kind [] = some .directory
    · rw [if_pos hdir]
      refine Meets.step ⟨⟨List.prefix_refl _, ?_, fun above habove hne => ?_⟩, by simp⟩ ?_
      · rw [ht]
        exact ⟨.directory, hdir, by simp⟩
      · exact absurd (List.prefix_nil.mp habove) hne
      · rw [meets_pure, onSuccess_ok]
        exact ⟨ht, rfl, hdir⟩
    · rw [if_neg hdir]
      simp
  refine Meets.bind htop fun place t ht => ?_
  obtain ⟨hfs, rfl, hdir⟩ := ht
  refine Meets.bind (open_go_meets fun part hpart => ?_) fun place u hu => ?_
  · simp only [List.mem_filter, decide_eq_true_eq] at hpart
    obtain ⟨component, hcomponent, rfl⟩ := List.mem_map.mp hpart.1
    refine ⟨hpart.2.1, hpart.2.2, ?_⟩
    rw [String.toList_ofList]
    exact notMem_of_mem_splitOn hcomponent
  · obtain ⟨hfs', rfl, hplace⟩ := hu
    rw [meets_pure, onSuccess_ok]
    refine ⟨hfs'.trans hfs, by simp, ?_⟩
    rw [hfs] at hplace
    exact hplace hdir

/-! ### A file that is there can be read -/

/-- The procedure returns this value and leaves the state as it was. -/
def Returns {α : Type} (p : RootProc α) (s : RootSession) (a : α) : Prop :=
  (p s).result = .ok a ∧ p.final s = s

theorem Returns.bind {α β : Type} {p : RootProc α} {f : α → RootProc β} {a : α} {b : β}
    (hp : Returns p s a) (hf : Returns (f a) s b) : Returns (p >>= f) s b := by
  have hstate := hp.2
  rw [final] at hstate
  constructor
  · rw [result_bind_ok hp.1, hp.2]
    exact hf.1
  · simp only [final, Bind.bind, andThen, hp.1, after_append, hstate]
    exact hf.2

theorem Returns.pure {α : Type} (a : α) : Returns (Pure.pure a) s a := ⟨rfl, rfl⟩

theorem Returns.get : Returns (Proc.get : RootProc RootSession) s s := ⟨rfl, rfl⟩

theorem Returns.emit {e : RootStep} (h : s.apply e = s) : Returns (Proc.emit e) s () := ⟨rfl, h⟩

end Root

end MiRelay
