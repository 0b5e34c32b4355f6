import MiRelay.Storage.Media

/-!
# Inspection of a stream

`copy_and_inspect` as it goes: bytes arrive in reads of any length, and size,
header, digest and text probe are carried from one read to the next. Whatever
the reads are, what is found and written depends on the bytes alone, and text
is what is encoded without control characters.
-/

namespace MiRelay

/-! ### Plain text -/

/-- `is_plain_text_character`. -/
def isPlainTextCharacter (c : Char) : Bool :=
  c == '\n' || c == '\r' || c == '\t' || !isControl c

theorem isPlainTextCode_toNat (c : Char) : isPlainTextCode c.toNat = isPlainTextCharacter c := by
  have heq (d : Char) : (c == d) = decide (c.toNat = d.toNat) := by
    rw [Bool.eq_iff_iff, beq_iff_eq, decide_eq_true_eq, Char.toNat_inj]
  rw [isPlainTextCode, isPlainTextCharacter, heq, heq, heq, isControl]
  have hn : '\n'.toNat = 0x0a := rfl
  have hr : '\r'.toNat = 0x0d := rfl
  have ht : '\t'.toNat = 0x09 := rfl
  rw [hn, hr, ht, Bool.eq_iff_iff]
  simp only [Bool.or_eq_true, Bool.and_eq_true, Bool.not_eq_true', Bool.or_eq_false_iff,
    decide_eq_true_eq, decide_eq_false_iff_not, Bool.and_eq_false_iff]
  omega

theorem isPlainTextCharacter_of_le {c : Char} (h : 0xa0 ≤ c.toNat) : isPlainTextCharacter c = true := by
  rw [← isPlainTextCode_toNat, isPlainTextCode]
  simp only [Bool.or_eq_true, Bool.and_eq_true, Bool.not_eq_true', decide_eq_true_eq,
    Bool.and_eq_false_iff, decide_eq_false_iff_not]
  omega

section Sequences

variable {a : UInt8} (b c d : UInt8) (rest : Bytes)

attribute [local simp] isPlainText

theorem isPlainText_one (h : a.toNat < 0x80) :
    isPlainText (a :: rest) = (isPlainTextCode a.toNat && isPlainText rest) := by
  rw [isPlainText.eq_def]
  simp only [UInt8.lt_iff_toNat_lt, UInt8.reduceToNat, if_pos h]

theorem isPlainText_two (h : 0xc2 ≤ a.toNat ∧ a.toNat ≤ 0xdf) :
    isPlainText (a :: b :: rest) = (isContinuation b &&
      isPlainTextCode ((a.toNat - 0xc0) * 64 + (b.toNat - 0x80)) && isPlainText rest) := by
  have hone : ¬a.toNat < 0x80 := by omega
  rw [isPlainText.eq_def]
  simp only [UInt8.lt_iff_toNat_lt, UInt8.le_iff_toNat_le, UInt8.reduceToNat, if_neg hone,
    Bool.and_eq_true, decide_eq_true_eq, if_pos h]

theorem isPlainText_three (h : 0xe0 ≤ a.toNat ∧ a.toNat ≤ 0xef) :
    isPlainText (a :: b :: c :: rest) = (isSecondByte a b && isContinuation c && isPlainText rest) := by
  have hone : ¬a.toNat < 0x80 := by omega
  have htwo : ¬(0xc2 ≤ a.toNat ∧ a.toNat ≤ 0xdf) := by omega
  rw [isPlainText.eq_def]
  simp only [UInt8.lt_iff_toNat_lt, UInt8.le_iff_toNat_le, UInt8.reduceToNat, if_neg hone,
    Bool.and_eq_true, decide_eq_true_eq, if_neg htwo, if_pos h]

theorem isPlainText_four (h : 0xf0 ≤ a.toNat ∧ a.toNat ≤ 0xf4) :
    isPlainText (a :: b :: c :: d :: rest) = (isSecondByte a b && isContinuation c &&
      isContinuation d && isPlainText rest) := by
  have hone : ¬a.toNat < 0x80 := by omega
  have htwo : ¬(0xc2 ≤ a.toNat ∧ a.toNat ≤ 0xdf) := by omega
  have hthree : ¬(0xe0 ≤ a.toNat ∧ a.toNat ≤ 0xef) := by omega
  rw [isPlainText.eq_def]
  simp only [UInt8.lt_iff_toNat_lt, UInt8.le_iff_toNat_le, UInt8.reduceToNat, if_neg hone,
    Bool.and_eq_true, decide_eq_true_eq, if_neg htwo, if_neg hthree, h, decide_true, Bool.true_and]

end Sequences

/-- The probe reads one character and goes on with the rest. -/
theorem isPlainText_char (c : Char) (rest : Bytes) :
    isPlainText (String.utf8EncodeChar c ++ rest) = (isPlainTextCharacter c && isPlainText rest) := by
  have hvalid := Utf8.toNat_valid c
  have hformed (bytes : Bytes) (he : String.utf8EncodeChar c = bytes) (hne : bytes ≠ []) :
      Utf8.wellFormed bytes = true :=
    (Utf8.wellFormed_take (show bytes ++ [] = _ from (List.append_nil _).trans he.symm) hne).1
  rcases Utf8.utf8EncodeChar_cases c with ⟨h₁, he⟩ | ⟨h₁, h₂, he⟩ | ⟨h₁, h₂, he⟩ | ⟨h₁, he⟩
  · have ha := Utf8.toNat_ofNat_of_lt (n := c.toNat) (by omega)
    rw [he, List.singleton_append, isPlainText_one _ (by omega), ha, isPlainTextCode_toNat]
  · have ha := Utf8.toNat_ofNat_mod (c.toNat / 64) (k := 0x20) (m := 0xc0) (by omega) (by omega)
    have hb := Utf8.toNat_ofNat_mod c.toNat (k := 0x40) (m := 0x80) (by omega) (by omega)
    have hcode : (c.toNat / 64 % 0x20 + 0xc0 - 0xc0) * 64 + (c.toNat % 0x40 + 0x80 - 0x80) =
        c.toNat := by omega
    rw [he, List.cons_append, List.singleton_append, isPlainText_two _ _ (by omega),
      Utf8.isContinuation_ofNat, ha, hb, hcode, isPlainTextCode_toNat, Bool.true_and]
  · have ha := Utf8.toNat_ofNat_mod (c.toNat / 4096) (k := 0x10) (m := 0xe0) (by omega) (by omega)
    have hall := hformed _ he (List.cons_ne_nil _ _)
    simp only [Utf8.wellFormed, Bool.and_eq_true] at hall
    rw [he, List.cons_append, List.cons_append, List.singleton_append,
      isPlainText_three _ _ _ (by omega), hall.1.1, hall.1.2, isPlainTextCharacter_of_le (by omega)]
    rfl
  · have ha := Utf8.toNat_ofNat_mod (c.toNat / 262144) (k := 0x08) (m := 0xf0) (by omega) (by omega)
    have hall := hformed _ he (List.cons_ne_nil _ _)
    simp only [Utf8.wellFormed, Bool.and_eq_true] at hall
    rw [he, List.cons_append, List.cons_append, List.cons_append, List.singleton_append,
      isPlainText_four _ _ _ _ (by omega), hall.1.1.1, hall.1.1.2, hall.1.2,
      isPlainTextCharacter_of_le (by omega)]
    rfl

/-- A sequence that is complete begins the bytes with a character. -/
theorem exists_char_of_wellFormed (front : Bytes) {rest : Bytes} (hformed : Utf8.wellFormed front = true)
    (hwidth : front.length = Utf8.width (front.headD 0)) :
    ∃ c rest', front ++ rest = String.utf8EncodeChar c ++ rest' := by
  have hwhole : Utf8.sequenceOf front = .whole (Char.ofNat (Utf8.scalar front)) := by
    rw [Utf8.sequenceOf, if_pos hformed, if_pos hwidth]
  exact ⟨_, rest, by rw [Utf8.eq_of_whole hwhole]⟩

/-- Text that is plain begins with a character. -/
theorem exists_char {a : UInt8} {bytes : Bytes} (h : isPlainText (a :: bytes) = true) :
    ∃ c rest, a :: bytes = String.utf8EncodeChar c ++ rest := by
  rw [isPlainText.eq_def] at h
  dsimp only at h
  split at h
  · rename_i hone
    have hwidth : Utf8.width a = 1 := if_pos hone
    exact exists_char_of_wellFormed [a] (by simp [Utf8.wellFormed, hwidth]) hwidth.symm
  · rename_i hone
    cases bytes with
    | nil => contradiction
    | cons b bytes =>
      dsimp only at h
      split at h
      · rename_i htwo
        have hwidth : Utf8.width a = 2 := by rw [Utf8.width, if_neg hone, if_pos htwo]
        simp only [Bool.and_eq_true] at h
        refine exists_char_of_wellFormed [a, b] ?_ hwidth.symm
        simp only [UInt8.le_iff_toNat_le, UInt8.reduceToNat, Bool.and_eq_true,
          decide_eq_true_eq] at htwo
        have hsecond : isSecondByte a b = true := by
          have hb := Utf8.isContinuation_iff.mp h.1.1
          rw [Utf8.isSecondByte_iff]
          split_ifs <;> omega
        simp [Utf8.wellFormed, hwidth, hsecond]
      · rename_i htwo
        cases bytes with
        | nil => contradiction
        | cons c bytes =>
          dsimp only at h
          split at h
          · rename_i hthree
            have hwidth : Utf8.width a = 3 := by
              rw [Utf8.width, if_neg hone, if_neg htwo, if_pos hthree]
            simp only [Bool.and_eq_true] at h
            refine exists_char_of_wellFormed [a, b, c] ?_ hwidth.symm
            simp [Utf8.wellFormed, hwidth, h.1.1, h.1.2]
          · rename_i hthree
            cases bytes with
            | nil => contradiction
            | cons d bytes =>
              simp only [Bool.and_eq_true] at h
              have hwidth : Utf8.width a = 4 := by
                rw [Utf8.width, if_neg hone, if_neg htwo, if_neg hthree,
                  if_pos (by simp only [Bool.and_eq_true]; exact ⟨h.1.1.1.1.1, h.1.1.1.1.2⟩)]
              refine exists_char_of_wellFormed [a, b, c, d] ?_ hwidth.symm
              simp [Utf8.wellFormed, hwidth, h.1.1.1.2, h.1.1.2, h.1.2]

/-- Plain text is an encoded text without control characters but line breaks and tabs. -/
theorem isPlainText_iff {bytes : Bytes} : isPlainText bytes = true ↔
    ∃ text, bytes = Utf8.encode text ∧ ∀ c ∈ text, isPlainTextCharacter c = true := by
  constructor
  · intro h
    induction hn : bytes.length using Nat.strongRecOn generalizing bytes with
    | ind n ih =>
      cases bytes with
      | nil => exact ⟨[], rfl, nofun⟩
      | cons a bytes =>
        obtain ⟨c, rest, heq⟩ := exists_char h
        rw [heq, isPlainText_char, Bool.and_eq_true] at h
        have hless : rest.length < n := by
          rw [← hn, heq, List.length_append, String.length_utf8EncodeChar]
          exact Nat.lt_add_of_pos_left c.utf8Size_pos
        obtain ⟨text, rfl, htext⟩ := ih _ hless h.2 rfl
        exact ⟨c :: text, heq, List.forall_mem_cons.mpr ⟨h.1, htext⟩⟩
  · rintro ⟨text, rfl, htext⟩
    induction text with
    | nil => rfl
    | cons c text ih =>
      rw [List.forall_mem_cons] at htext
      rw [Utf8.encode, List.flatMap_cons, isPlainText_char, htext.1, Bool.true_and]
      exact ih htext.2

/-! ### The text probe -/

/-- `Utf8TextProbe`. -/
structure Utf8TextProbe where
  valid : Bool
  incomplete : Bytes

namespace Utf8TextProbe

def new : Utf8TextProbe := ⟨true, []⟩

/-- `Utf8TextProbe::observe`. -/
def observe (probe : Utf8TextProbe) (bytes : Bytes) : Utf8TextProbe :=
  if probe.valid then
    let combined := probe.incomplete ++ bytes
    match Utf8.decode combined with
    | .text text => ⟨text.all isPlainTextCharacter, []⟩
    | .truncated validUpTo =>
      let incomplete := combined.drop validUpTo
      let valid := (match Utf8.decode (combined.take validUpTo) with
        | .text text => text.all isPlainTextCharacter
        | _ => false) && incomplete.length ≤ 3
      ⟨valid, if valid then incomplete else []⟩
    | .malformed => ⟨false, []⟩
  else probe

/-- `Utf8TextProbe::is_plain_text`. -/
def isPlainText (probe : Utf8TextProbe) : Bool := probe.valid && probe.incomplete.isEmpty

/-- The probe once it has seen these bytes. -/
def after (bytes : Bytes) : Utf8TextProbe :=
  match Utf8.scan [] bytes with
  | some (text, last) => if text.all isPlainTextCharacter then ⟨true, last⟩ else ⟨false, []⟩
  | none => ⟨false, []⟩

/-- What the probe keeps decides how it goes on. -/
theorem observe_after (xs ys : Bytes) : (after xs).observe ys = after (xs ++ ys) := by
  unfold after
  rw [Utf8.scan_append]
  cases hxs : Utf8.scan [] xs with
  | none => rfl
  | some found =>
    obtain ⟨text, last⟩ := found
    simp only [Option.bind_eq_bind, Option.bind_some]
    by_cases htext : text.all isPlainTextCharacter = true
    · have hlast : Utf8.scan [] (last ++ ys) = Utf8.scan last ys := by
        rw [Utf8.scan_append, Utf8.scan_last hxs rfl]
        cases h : Utf8.scan last ys <;> simp [h]
      rw [if_pos htext, observe, if_pos rfl]
      dsimp only
      cases hys : Utf8.scan last ys with
      | none =>
        rw [Utf8.decode, hlast, hys]
        rfl
      | some found =>
        obtain ⟨more, final⟩ := found
        have hbytes := Utf8.eq_of_scan (hlast.trans hys)
        rw [List.nil_append] at hbytes
        by_cases hfinal : final = []
        · subst hfinal
          rw [Utf8.decode, hlast, hys]
          simp only [List.all_append, htext, Bool.true_and, Option.pure_def, Option.bind_some, if_true]
          cases more.all isPlainTextCharacter <;> rfl
        · have hsplit : (last ++ ys).length - final.length = (Utf8.encode more).length := by
            rw [hbytes, List.length_append, Nat.add_sub_cancel]
          have hmore : Utf8.decode (Utf8.encode more) = .text more := Utf8.decode_eq_text_iff.mpr rfl
          have hlength := Utf8.length_of_scan hys (Utf8.length_of_scan hxs (Nat.zero_le _))
          rw [Utf8.decode, hlast, hys]
          simp only [if_neg hfinal, hsplit]
          rw [hbytes, List.take_left, List.drop_left, hmore]
          simp only [hlength, List.all_append, htext, Bool.true_and, decide_true, Bool.and_true,
            Option.pure_def, Option.bind_some]
          cases more.all isPlainTextCharacter <;> rfl
    · have hfalse : text.all isPlainTextCharacter = false := Bool.eq_false_iff.mpr htext
      rw [if_neg htext, observe, if_neg Bool.false_ne_true]
      cases hys : Utf8.scan last ys with
      | none => rfl
      | some more =>
        simp only [Option.pure_def, Option.bind_some, List.all_append, hfalse, Bool.false_and,
          if_neg Bool.false_ne_true]

/-- After any reads the probe has seen their bytes. -/
theorem foldl_observe (xs : Bytes) (reads : List Bytes) :
    reads.foldl observe (after xs) = after (xs ++ reads.flatten) := by
  induction reads generalizing xs with
  | nil => rw [List.flatten_nil, List.append_nil, List.foldl_nil]
  | cons read reads ih =>
    rw [List.foldl_cons, observe_after, ih, List.flatten_cons, List.append_assoc]

/-- The probe finds what is found in the whole. -/
theorem isPlainText_after (bytes : Bytes) : (after bytes).isPlainText = MiRelay.isPlainText bytes := by
  rw [Bool.eq_iff_iff, isPlainText_iff]
  unfold after
  constructor
  · intro h
    split at h
    · rename_i text last hscan
      split at h
      · rename_i htext
        have hlast : last = [] := by
          simpa [isPlainText] using h
        rw [hlast] at hscan
        exact ⟨text, Utf8.scan_eq_some_iff.mp hscan, List.all_eq_true.mp htext⟩
      · contradiction
    · contradiction
  · rintro ⟨text, hbytes, htext⟩
    rw [Utf8.scan_eq_some_iff.mpr hbytes]
    simp only [List.all_eq_true.mpr htext, if_true]
    rfl

end Utf8TextProbe

/-! ### Copying -/

/-- A digest that is computed piece by piece, as `sha2::Digest`. -/
structure Hasher (sha256 : Bytes → String) where
  State : Type
  new : State
  update : State → Bytes → State
  finalize : State → String
  /-- The digest of all pieces is that of their concatenation. -/
  finalize_updates : ∀ pieces : List Bytes,
    finalize (pieces.foldl update new) = sha256 pieces.flatten

/-- What one call of `read` gives, and whether its bytes can be written. -/
structure ReadStep where
  read : Result Bytes
  write : Result Unit

section Copy

variable {sha256 : Bytes → String} (hasher : Hasher sha256)

/-- The variables of `copy_and_inspect`, with what the writer holds. -/
structure Copying where
  size : Nat
  header : Bytes
  digest : hasher.State
  probe : Utf8TextProbe
  written : Bytes

def Copying.new : Copying hasher := ⟨0, [], hasher.new, .new, []⟩

variable {hasher}

/-- The loop of `copy_and_inspect`; the stream is at its end after its last read. -/
def Copying.copy (maxFileSize : Nat) (expectedSize : Option Nat) :
    Copying hasher → List ReadStep → Result (Copying hasher)
  | c, [] => .ok c
  | c, step :: rest => do
    let bytes ← step.read
    if bytes.isEmpty then .ok c
    else do
      let size := c.size + bytes.length
      ensure (size < 2 ^ 64) "media size overflow"
      ensure (size ≤ maxFileSize) s!"media exceeds the configured {maxFileSize} byte limit"
      (match expectedSize with
        | some expected =>
          ensure (size ≤ expected) s!"media is larger than its declared {expected} byte size"
        | none => .ok ())
      let header := if c.header.length < 512 then c.header ++ bytes.take (512 - c.header.length)
        else c.header
      step.write
      copy maxFileSize expectedSize
        { size, header
          digest := hasher.update c.digest bytes
          probe := c.probe.observe bytes
          written := c.written ++ bytes } rest

variable (hasher)

/-- `copy_and_inspect`: what is found and what is written. -/
def copyReads (maxFileSize : Nat) (expectedSize : Option Nat) (reads : List ReadStep) :
    Result (FileInspection × Bytes) := do
  let c ← (Copying.new hasher).copy maxFileSize expectedSize reads
  (match expectedSize with
    | some expected =>
      ensure (c.size == expected) s!"media size mismatch: expected {expected} bytes, got {c.size}"
    | none => .ok ())
  ensure (c.size ≠ 0) "media file is empty"
  let (mediaType, extension) := detectMediaType c.header c.probe.isPlainText
  return (⟨c.size, hasher.finalize c.digest, mediaType, extension⟩, c.written)

/-- Within both limits. -/
def Fits (maxFileSize : Nat) (expectedSize : Option Nat) (size : Nat) : Prop :=
  size ≤ maxFileSize ∧ ∀ expected, expectedSize = some expected → size ≤ expected

/-- The variables once these pieces were copied. -/
def Copying.after (pieces : List Bytes) : Copying hasher where
  size := pieces.flatten.length
  header := pieces.flatten.take 512
  digest := pieces.foldl hasher.update hasher.new
  probe := .after pieces.flatten
  written := pieces.flatten

/-- A read that succeeds and can be written. -/
def ReadStep.good (bytes : Bytes) : ReadStep := ⟨.ok bytes, .ok ()⟩

/-- The header of more bytes. -/
theorem header_append (xs ys : Bytes) : (if (xs.take 512).length < 512 then
    xs.take 512 ++ ys.take (512 - (xs.take 512).length) else xs.take 512) = (xs ++ ys).take 512 := by
  rw [List.take_append]
  by_cases h : xs.length < 512
  · have htake : xs.take 512 = xs := List.take_of_length_le (Nat.le_of_lt h)
    rw [htake, if_pos h]
  · have hlength : (xs.take 512).length = 512 := by
      rw [List.length_take]
      omega
    have hzero : 512 - xs.length = 0 := by omega
    rw [if_neg (by omega), hzero, List.take_zero, List.append_nil]

/-- One read. -/
theorem Copying.copy_cons {maxFileSize : Nat} (hmax : maxFileSize < 2 ^ 64) {expectedSize : Option Nat}
    (pieces : List Bytes) {bytes : Bytes} (hne : bytes ≠ []) (rest : List ReadStep)
    (c : Copying hasher) :
    (Copying.after hasher pieces).copy maxFileSize expectedSize (.good bytes :: rest) = .ok c ↔
      Fits maxFileSize expectedSize (pieces ++ [bytes]).flatten.length ∧
        (Copying.after hasher (pieces ++ [bytes])).copy maxFileSize expectedSize rest = .ok c := by
  have hflatten : (pieces ++ [bytes]).flatten = pieces.flatten ++ bytes := by
    rw [List.flatten_append, List.flatten_singleton]
  have hsize : pieces.flatten.length + bytes.length = (pieces ++ [bytes]).flatten.length := by
    rw [hflatten, List.length_append]
  have hnext : (⟨(pieces ++ [bytes]).flatten.length,
      if (pieces.flatten.take 512).length < 512 then pieces.flatten.take 512 ++
        bytes.take (512 - (pieces.flatten.take 512).length) else pieces.flatten.take 512,
      hasher.update (pieces.foldl hasher.update hasher.new) bytes,
      (Utf8TextProbe.after pieces.flatten).observe bytes, pieces.flatten ++ bytes⟩ : Copying hasher) =
        Copying.after hasher (pieces ++ [bytes]) := by
    rw [header_append, Utf8TextProbe.observe_after, Copying.after, List.foldl_append, hflatten]
    rfl
  have hempty : bytes.isEmpty = false := by
    cases bytes with
    | nil => contradiction
    | cons b bytes => rfl
  rw [← hnext, Copying.after, Copying.copy, Fits]
  simp only [ReadStep.good, bind_eq_ok, Except.ok.injEq, exists_eq_left', hempty,
    Bool.false_eq_true, if_false, ensure_eq_ok, decide_eq_true_eq, hsize]
  constructor
  · rintro ⟨_, -, _, hle, _, hexpected, _, -, hcopy⟩
    refine ⟨⟨hle, fun expected h => ?_⟩, hcopy⟩
    rw [h, ensure_eq_ok, decide_eq_true_eq] at hexpected
    exact hexpected
  · rintro ⟨⟨hle, hexpected⟩, hcopy⟩
    refine ⟨(), Nat.lt_of_le_of_lt hle hmax, (), hle, (), ?_, (), trivial, hcopy⟩
    cases expectedSize with
    | none => rfl
    | some expected =>
      rw [ensure_eq_ok, decide_eq_true_eq]
      exact hexpected expected rfl

/-- Reads that succeed are all copied if they fit. -/
theorem Copying.copy_eq_ok {maxFileSize : Nat} (hmax : maxFileSize < 2 ^ 64)
    {expectedSize : Option Nat} {reads : List Bytes} (hne : ∀ read ∈ reads, read ≠ [])
    {pieces : List Bytes} (hfits : Fits maxFileSize expectedSize pieces.flatten.length)
    {c : Copying hasher} : (Copying.after hasher pieces).copy maxFileSize expectedSize
        (reads.map .good) = .ok c ↔
      Fits maxFileSize expectedSize (pieces ++ reads).flatten.length ∧
        c = Copying.after hasher (pieces ++ reads) := by
  induction reads generalizing pieces with
  | nil =>
    rw [List.map_nil, List.append_nil, Copying.copy, Except.ok.injEq]
    exact ⟨fun h => ⟨hfits, h.symm⟩, fun h => h.2.symm⟩
  | cons bytes reads ih =>
    rw [List.forall_mem_cons] at hne
    rw [List.map_cons, copy_cons hasher hmax pieces hne.1]
    constructor
    · rintro ⟨hnext, hcopy⟩
      have hrest := (ih hne.2 hnext).mp hcopy
      rwa [List.append_assoc, List.singleton_append] at hrest
    · rintro ⟨hall, hc⟩
      have hnext : Fits maxFileSize expectedSize (pieces ++ [bytes]).flatten.length := by
        have hle : (pieces ++ [bytes]).flatten.length ≤ (pieces ++ bytes :: reads).flatten.length := by
          simp
        exact ⟨Nat.le_trans hle hall.1, fun expected h => Nat.le_trans hle (hall.2 expected h)⟩
      refine ⟨hnext, (ih hne.2 hnext).mpr ?_⟩
      rw [List.append_assoc, List.singleton_append]
      exact ⟨hall, hc⟩

/-- Reads that succeed are inspected as the file of their bytes. -/
theorem copyReads_eq_ok {maxFileSize : Nat} (hmax : maxFileSize < 2 ^ 64)
    {expectedSize : Option Nat} {reads : List Bytes} (hne : ∀ read ∈ reads, read ≠ [])
    {i : FileInspection} {written : Bytes} :
    copyReads hasher maxFileSize expectedSize (reads.map .good) = .ok (i, written) ↔
      copyAndInspect sha256 maxFileSize expectedSize reads.flatten = .ok i ∧
        written = reads.flatten := by
  have hstart : Fits maxFileSize expectedSize ([] : List Bytes).flatten.length :=
    ⟨Nat.zero_le _, fun _ _ => Nat.zero_le _⟩
  have hcopy (c : Copying hasher) : (Copying.new hasher).copy maxFileSize expectedSize
      (reads.map .good) = .ok c ↔
        Fits maxFileSize expectedSize reads.flatten.length ∧ c = Copying.after hasher reads :=
    Copying.copy_eq_ok hasher hmax hne hstart
  have hfound : (⟨reads.flatten.length, hasher.finalize (reads.foldl hasher.update hasher.new),
      (detectMediaType (reads.flatten.take 512) (Utf8TextProbe.after reads.flatten).isPlainText).1,
      (detectMediaType (reads.flatten.take 512) (Utf8TextProbe.after reads.flatten).isPlainText).2⟩ :
        FileInspection) = inspection sha256 reads.flatten := by
    rw [hasher.finalize_updates, Utf8TextProbe.isPlainText_after]
    rfl
  simp only [copyReads, copyAndInspect, bind_eq_ok, hcopy, ensure_eq_ok, pure_eq_ok,
    decide_eq_true_eq]
  constructor
  · rintro ⟨c, ⟨⟨hle, hexpected⟩, rfl⟩, _, hsize, _, hzero, hpair⟩
    rw [Prod.mk.injEq] at hpair
    refine ⟨⟨(), hle, (), ?_, (), hzero, hfound.symm.trans hpair.1⟩, hpair.2.symm⟩
    cases expectedSize with
    | none => rfl
    | some expected =>
      simp only [bind_eq_ok, ensure_eq_ok, decide_eq_true_eq] at hsize ⊢
      exact ⟨(), hexpected expected rfl, hsize⟩
  · rintro ⟨⟨_, hle, _, hsize, _, hzero, hi⟩, rfl⟩
    refine ⟨_, ⟨⟨hle, fun expected h => ?_⟩, rfl⟩, (), ?_, (), hzero, ?_⟩
    · subst h
      simp only [bind_eq_ok, ensure_eq_ok, decide_eq_true_eq] at hsize
      exact hsize.choose_spec.1
    · cases expectedSize with
      | none => rfl
      | some expected =>
        simp only [bind_eq_ok, ensure_eq_ok, decide_eq_true_eq] at hsize ⊢
        exact hsize.choose_spec.2
    · rw [Prod.mk.injEq]
      exact ⟨hfound.trans hi, rfl⟩

end Copy

/-- A file is inspected exactly if it is within the limit, of the expected size and not empty. -/
theorem copyAndInspect_eq_ok {sha256 : Bytes → String} {maxFileSize : Nat}
    {expectedSize : Option Nat} {bytes : Bytes} {i : FileInspection} :
    copyAndInspect sha256 maxFileSize expectedSize bytes = .ok i ↔
      (bytes.length ≤ maxFileSize ∧ (∀ expected, expectedSize = some expected →
        bytes.length = expected) ∧ bytes ≠ []) ∧ i = inspection sha256 bytes := by
  simp only [copyAndInspect, bind_eq_ok, ensure_eq_ok, decide_eq_true_eq, pure_eq_ok, ne_eq,
    List.length_eq_zero_iff]
  constructor
  · rintro ⟨_, hle, _, hsize, _, hne, rfl⟩
    refine ⟨⟨hle, fun expected h => ?_, hne⟩, rfl⟩
    subst h
    simp only [bind_eq_ok, ensure_eq_ok, beq_iff_eq] at hsize
    exact hsize.choose_spec.2
  · rintro ⟨⟨hle, hsize, hne⟩, rfl⟩
    refine ⟨(), hle, (), ?_, (), hne, rfl⟩
    cases expectedSize with
    | none => rfl
    | some expected =>
      simp only [bind_eq_ok, ensure_eq_ok, decide_eq_true_eq, beq_iff_eq]
      exact ⟨(), Nat.le_of_eq (hsize expected rfl), hsize expected rfl⟩

theorem isPlainTextCharacter_iff {c : Char} : isPlainTextCharacter c = true ↔
    c = '\n' ∨ c = '\r' ∨ c = '\t' ∨ isControl c = false := by
  simp only [isPlainTextCharacter, Bool.or_eq_true, beq_iff_eq, Bool.not_eq_true', or_assoc]

/-- Inspection depends on the bytes and not on the reads they arrive in: two ways of reading the
same bytes find and write the same, which is what the bytes have as a file, and the probe finds
plain text exactly in encoded text without control characters but line breaks and tabs. -/
theorem inspection_ignores_reads {sha256 : Bytes → String} (hasher hasher' : Hasher sha256)
    (maxFileSize : Fin (2 ^ 64)) (expectedSize : Option Nat) {bytes : Bytes}
    {reads reads' : List Bytes} (hreads : reads.flatten = bytes) (hreads' : reads'.flatten = bytes)
    (hne : ∀ read ∈ reads, read ≠ []) (hne' : ∀ read ∈ reads', read ≠ []) :
    (copyReads hasher maxFileSize expectedSize (reads.map .good)).toOption =
        (copyReads hasher' maxFileSize expectedSize (reads'.map .good)).toOption ∧
      (∀ i written, copyReads hasher maxFileSize expectedSize (reads.map .good) = .ok (i, written) ↔
        (bytes.length ≤ maxFileSize ∧ (∀ expected, expectedSize = some expected →
          bytes.length = expected) ∧ bytes ≠ []) ∧ i = inspection sha256 bytes ∧ written = bytes) ∧
      ((reads.foldl .observe Utf8TextProbe.new).isPlainText = true ↔
        ∃ text : List Char, bytes = Utf8.encode text ∧
          ∀ c ∈ text, c = '\n' ∨ c = '\r' ∨ c = '\t' ∨ isControl c = false) := by
  subst hreads
  have hmax : maxFileSize.val < 2 ^ 64 := maxFileSize.isLt
  refine ⟨?_, fun i written => ?_, ?_⟩
  · apply Option.ext
    rintro ⟨i, written⟩
    rw [toOption_eq_some, toOption_eq_some, copyReads_eq_ok hasher hmax hne,
      copyReads_eq_ok hasher' hmax hne', hreads']
  · rw [copyReads_eq_ok hasher hmax hne, copyAndInspect_eq_ok, and_assoc]
  · have hprobe : reads.foldl .observe Utf8TextProbe.new = .after reads.flatten :=
      Utf8TextProbe.foldl_observe [] reads
    rw [hprobe, Utf8TextProbe.isPlainText_after, isPlainText_iff]
    simp only [isPlainTextCharacter_iff]

/-- A digest that keeps all pieces. -/
def Hasher.whole (sha256 : Bytes → String) : Hasher sha256 where
  State := Bytes
  new := []
  update := (· ++ ·)
  finalize := sha256
  finalize_updates pieces := by
    have hfold (xs : Bytes) : pieces.foldl (· ++ ·) xs = xs ++ pieces.flatten := by
      induction pieces generalizing xs with
      | nil => rw [List.flatten_nil, List.append_nil, List.foldl_nil]
      | cons piece pieces ih =>
        rw [List.foldl_cons, ih, List.flatten_cons, List.append_assoc]
    rw [hfold, List.nil_append]

/-- A two byte character whose bytes arrive apart, and together. -/
theorem inspection_ignores_reads_split :
    (copyReads (Hasher.whole fun _ => "") (5 : Fin (2 ^ 64)) none
        ([[0x68, 0xc3], [0xa9]].map .good)).toOption =
      (copyReads (Hasher.whole fun _ => "") (5 : Fin (2 ^ 64)) none
        ([[0x68, 0xc3, 0xa9]].map .good)).toOption :=
  (inspection_ignores_reads (Hasher.whole fun _ => "") (Hasher.whole fun _ => "") 5 none
    (show [[0x68, 0xc3], [0xa9]].flatten = [0x68, 0xc3, 0xa9] from rfl) rfl (by decide) (by decide)).1

end MiRelay
