import Mathlib
import MiRelay.Protocol

/-!
# Sizes in image headers

The sizes a received image declares are read before any decoder sees it. A PNG
has them at a fixed place. A JPEG is walked from marker to marker, each with any
number of fill bytes before it; the first frame header has them. The lengths on
the way come from the file, hence every access is checked against its end, and
one that is not would end the program.
-/

namespace MiRelay

/-- How the reading of a header ends without sizes. -/
inductive HeaderError
  | refused (text : String)
  /-- An index behind the end, on which the program panics. -/
  | outOfBounds
  deriving DecidableEq, Repr

/-- `bytes[start..start + count]`. -/
def readAt (bytes : Bytes) (start count : Nat) : Except HeaderError Bytes :=
  if start + count ≤ bytes.length then .ok ((bytes.drop start).take count) else .error .outOfBounds

/-- `from_be_bytes`. -/
def beNat (bytes : Bytes) : Nat := bytes.foldl (fun n b => n * 256 + b.toNat) 0

/-- A marker without parameters. -/
def isStandalone (marker : UInt8) : Bool := marker == 0x01 || (0xd0 ≤ marker && marker ≤ 0xd7)

/-- End of image, or start of scan. -/
def isFinal (marker : UInt8) : Bool := marker == 0xda || marker == 0xd9

/-- A frame header. -/
def isFrame (marker : UInt8) : Bool :=
  (0xc0 ≤ marker && marker ≤ 0xcf) && !([0xc4, 0xc8, 0xcc].contains marker)

/-- The offset behind a run of fill bytes. -/
def skipFill (bytes : Bytes) (offset : Nat) : Nat :=
  if h : offset < bytes.length then
    if bytes[offset] = 0xff then skipFill bytes (offset + 1) else offset
  else offset
termination_by bytes.length - offset

theorem le_skipFill (bytes : Bytes) (offset : Nat) : offset ≤ skipFill bytes offset := by
  fun_induction skipFill bytes offset with
  | case1 offset h hfill ih => omega
  | case2 offset h hfill => exact Nat.le_refl _
  | case3 offset h => exact Nat.le_refl _

/-- The walk of `dimensions` from a marker on: the width and the height. -/
def walkMarkers (bytes : Bytes) (offset : Nat) : Except HeaderError (Nat × Nat) :=
  if h : offset < bytes.length then
    if bytes[offset] ≠ 0xff then .error (.refused "Invalid JPEG marker")
    else
      match bytes[skipFill bytes offset]? with
      | none => .error (.refused "Truncated JPEG marker")
      | some marker =>
        let start := skipFill bytes offset + 1
        if isFinal marker then .error (.refused "Missing JPEG dimensions")
        else if isStandalone marker then walkMarkers bytes start
        else if bytes.length < start + 2 then .error (.refused "Truncated JPEG segment")
        else
          let length := beNat ((bytes.drop start).take 2)
          if length < 2 ∨ bytes.length < start + length then
            .error (.refused "Invalid JPEG segment length")
          else if isFrame marker then
            if length < 8 then .error (.refused "Truncated JPEG frame")
            else do
              let width ← readAt bytes (start + 5) 2
              let height ← readAt bytes (start + 3) 2
              return (beNat width, beNat height)
          else walkMarkers bytes (start + length)
  else .error (.refused "Missing JPEG dimensions")
termination_by bytes.length - offset
decreasing_by
  all_goals
    have := le_skipFill bytes offset
    omega

/-- `dimensions`. -/
def dimensions (bytes : Bytes) (format : String) : Except HeaderError (Nat × Nat) :=
  if format = "png" then do
    if bytes.length < 33 then .error (.refused "Invalid PNG header")
    else
      let name ← readAt bytes 12 4
      if name ≠ [0x49, 0x48, 0x44, 0x52] then .error (.refused "Invalid PNG header")
      else do
        let width ← readAt bytes 16 4
        let height ← readAt bytes 20 4
        return (beNat width, beNat height)
  else walkMarkers bytes 2

/-- Two bytes, the higher one first. -/
def beBytes (n : Nat) : Bytes := [UInt8.ofNat (n / 256), UInt8.ofNat (n % 256)]

/-- A marker with the fill bytes before it. -/
def markerBytes (fill : Nat) (marker : UInt8) : Bytes := List.replicate (fill + 1) 0xff ++ [marker]

/-- A segment: its length, which counts itself, and its payload. -/
def segmentBytes (payload : Bytes) : Bytes := beBytes (payload.length + 2) ++ payload

/-- Markers up to the first frame header, with the width and the height it carries. -/
inductive FrameChain : Bytes → Nat → Nat → Prop
  | standalone {fill : Nat} {marker : UInt8} {rest : Bytes} {width height : Nat}
      (hmarker : isStandalone marker = true) (hrest : FrameChain rest width height) :
      FrameChain (markerBytes fill marker ++ rest) width height
  | segment {fill : Nat} {marker : UInt8} {payload rest : Bytes} {width height : Nat}
      (hfill : marker ≠ 0xff) (hfinal : isFinal marker = false)
      (hstandalone : isStandalone marker = false) (hframe : isFrame marker = false)
      (hlength : payload.length + 2 < 2 ^ 16) (hrest : FrameChain rest width height) :
      FrameChain (markerBytes fill marker ++ segmentBytes payload ++ rest) width height
  | frame {fill : Nat} {marker precision components : UInt8} {more rest : Bytes}
      {width height : Nat} (hframe : isFrame marker = true) (hwidth : width < 2 ^ 16)
      (hheight : height < 2 ^ 16) (hlength : more.length + 8 < 2 ^ 16) :
      FrameChain (markerBytes fill marker ++
        segmentBytes (precision :: beBytes height ++ beBytes width ++ components :: more) ++ rest)
        width height

section Markers

variable {bytes tail : Bytes} {offset fill : Nat} {marker : UInt8}

/-- The fill bytes and what stands behind them. -/
theorem drop_skipFill (bytes : Bytes) (offset : Nat) :
    bytes.drop offset = List.replicate (skipFill bytes offset - offset) 0xff ++
      bytes.drop (skipFill bytes offset) := by
  fun_induction skipFill bytes offset with
  | case1 offset h hfill ih =>
    have hle := le_skipFill bytes (offset + 1)
    rw [List.drop_eq_getElem_cons h, hfill, ih,
      show skipFill bytes (offset + 1) - offset = skipFill bytes (offset + 1) - (offset + 1) + 1 by
      omega, List.replicate_succ, List.cons_append]
  | case2 offset h hfill => simp
  | case3 offset h => simp

/-- No fill byte stands behind a run of them. -/
theorem getElem?_skipFill_ne (bytes : Bytes) (offset : Nat) :
    bytes[skipFill bytes offset]? ≠ some 0xff := by
  fun_induction skipFill bytes offset with
  | case1 offset h hfill ih => exact ih
  | case2 offset h hfill => simpa [h] using hfill
  | case3 offset h => simp [Nat.le_of_not_lt h]

/-- A run of fill bytes is skipped to its end. -/
theorem skipFill_of_drop (h : bytes.drop offset = List.replicate fill 0xff ++ marker :: tail)
    (hmarker : marker ≠ 0xff) : skipFill bytes offset = offset + fill := by
  induction fill generalizing offset with
  | zero =>
    have hlt : offset < bytes.length := by
      by_contra hge
      rw [List.drop_eq_nil_of_le (by omega)] at h
      contradiction
    rw [List.replicate_zero, List.nil_append, List.drop_eq_getElem_cons hlt, List.cons.injEq] at h
    rw [skipFill, dif_pos hlt, h.1, if_neg hmarker, Nat.add_zero]
  | succ fill ih =>
    have hlt : offset < bytes.length := by
      by_contra hge
      rw [List.drop_eq_nil_of_le (by omega)] at h
      contradiction
    rw [List.replicate_succ, List.cons_append, List.drop_eq_getElem_cons hlt, List.cons.injEq] at h
    rw [skipFill, dif_pos hlt, if_pos h.1, ih h.2]
    omega

/-- A marker that is read stands behind fill bytes. -/
theorem marker_of_getElem (h : offset < bytes.length) (hfirst : bytes[offset] = 0xff)
    (hmarker : bytes[skipFill bytes offset]? = some marker) :
    marker ≠ 0xff ∧ ∃ fill, bytes.drop offset =
      markerBytes fill marker ++ bytes.drop (skipFill bytes offset + 1) := by
  refine ⟨fun hne => getElem?_skipFill_ne bytes offset (hne ▸ hmarker), ?_⟩
  obtain ⟨hlt, hget⟩ := List.getElem?_eq_some_iff.mp hmarker
  have hpos : offset + 1 ≤ skipFill bytes offset := by
    rw [skipFill, dif_pos h, if_pos hfirst]
    exact le_skipFill _ _
  refine ⟨skipFill bytes offset - (offset + 1), ?_⟩
  have hdrop := drop_skipFill bytes offset
  rw [List.drop_eq_getElem_cons hlt, hget] at hdrop
  rw [hdrop, markerBytes, List.append_assoc, List.singleton_append]
  congr 2
  omega

/-- A marker behind fill bytes is read. -/
theorem read_marker (h : bytes.drop offset = markerBytes fill marker ++ tail)
    (hmarker : marker ≠ 0xff) :
    ∃ hlt : offset < bytes.length, bytes[offset] = 0xff ∧
      bytes[skipFill bytes offset]? = some marker ∧ bytes.drop (skipFill bytes offset + 1) = tail := by
  rw [markerBytes, List.append_assoc, List.singleton_append] at h
  have hskip := skipFill_of_drop h hmarker
  have hlt : offset < bytes.length := by
    by_contra hge
    rw [List.drop_eq_nil_of_le (by omega)] at h
    contradiction
  have hrest : bytes.drop (offset + (fill + 1)) = marker :: tail := by
    rw [← List.drop_drop, h, List.drop_left' List.length_replicate]
  refine ⟨hlt, ?_, ?_, ?_⟩
  · rw [List.replicate_succ, List.cons_append, List.drop_eq_getElem_cons hlt, List.cons.injEq] at h
    exact h.1
  · rw [hskip, ← List.head?_drop, hrest, List.head?_cons]
  · rw [hskip, ← List.drop_drop, hrest, List.drop_one, List.tail_cons]

end Markers

section Segments

variable {bytes rest payload : Bytes} {start : Nat}

theorem beNat_two (a b : UInt8) : beNat [a, b] = a.toNat * 256 + b.toNat := by
  simp [beNat]

/-- Two bytes are those of their number. -/
theorem beBytes_beNat (a b : UInt8) : beBytes (beNat [a, b]) = [a, b] := by
  have ha := a.toNat_lt
  have hb := b.toNat_lt
  rw [beNat_two, beBytes, show (a.toNat * 256 + b.toNat) / 256 = a.toNat by omega,
    show (a.toNat * 256 + b.toNat) % 256 = b.toNat by omega, UInt8.ofNat_toNat, UInt8.ofNat_toNat]

theorem beNat_beBytes {n : Nat} (h : n < 2 ^ 16) : beNat (beBytes n) = n := by
  have hsize : UInt8.size = 256 := rfl
  rw [beBytes, beNat_two, UInt8.toNat_ofNat_of_lt' (by omega), UInt8.toNat_ofNat_of_lt' (by omega)]
  omega

theorem beNat_lt (a b : UInt8) : beNat [a, b] < 2 ^ 16 := by
  have ha := a.toNat_lt
  have hb := b.toNat_lt
  rw [beNat_two]
  omega

@[simp] theorem length_beBytes (n : Nat) : (beBytes n).length = 2 := rfl

/-- A list of at least two bytes begins with two. -/
theorem exists_two (h : 2 ≤ bytes.length) : ∃ a b tail, bytes = a :: b :: tail := by
  match bytes, h with
  | a :: b :: tail, _ => exact ⟨a, b, tail, rfl⟩

/-- A length inside the bytes delimits a segment. -/
theorem segment_of_length (hlength : 2 ≤ beNat ((bytes.drop start).take 2))
    (hin : start + beNat ((bytes.drop start).take 2) ≤ bytes.length) :
    ∃ payload, bytes.drop start = segmentBytes payload ++
        bytes.drop (start + beNat ((bytes.drop start).take 2)) ∧
      payload.length + 2 = beNat ((bytes.drop start).take 2) ∧ payload.length + 2 < 2 ^ 16 := by
  obtain ⟨a, b, tail, htwo⟩ := exists_two (show 2 ≤ (bytes.drop start).length by
    rw [List.length_drop]
    omega)
  rw [htwo, List.take_succ_cons, List.take_succ_cons, List.take_zero] at hlength hin ⊢
  have hbound := beNat_lt a b
  have htail : beNat [a, b] - 2 ≤ tail.length := by
    have hlen := congrArg List.length htwo
    rw [List.length_drop, List.length_cons, List.length_cons] at hlen
    omega
  have hpayload : (tail.take (beNat [a, b] - 2)).length + 2 = beNat [a, b] := by
    rw [List.length_take, Nat.min_eq_left htail]
    omega
  refine ⟨tail.take (beNat [a, b] - 2), ?_, hpayload, by omega⟩
  rw [segmentBytes, hpayload, beBytes_beNat, ← List.drop_drop, htwo,
    show beNat [a, b] = beNat [a, b] - 2 + 2 by omega, List.drop_succ_cons, List.drop_succ_cons,
    Nat.add_sub_cancel, List.append_assoc, List.take_append_drop]
  rfl

/-- The length of a segment is read as it was written, and the rest follows it. -/
theorem read_segment (h : bytes.drop start = segmentBytes payload ++ rest)
    (hlength : payload.length + 2 < 2 ^ 16) :
    beNat ((bytes.drop start).take 2) = payload.length + 2 ∧
      start + (payload.length + 2) ≤ bytes.length ∧
      bytes.drop (start + (payload.length + 2)) = rest := by
  have hlen := congrArg List.length h
  rw [List.length_drop, List.length_append, segmentBytes, List.length_append, length_beBytes] at hlen
  refine ⟨?_, by omega, ?_⟩
  · rw [h, segmentBytes, List.append_assoc, List.take_left' (length_beBytes _), beNat_beBytes hlength]
  · rw [← List.drop_drop, h, List.drop_left']
    rw [segmentBytes, List.length_append, length_beBytes]
    omega

/-- Bytes inside the file are read. -/
theorem readAt_eq {start count : Nat} (h : start + count ≤ bytes.length) :
    readAt bytes start count = .ok ((bytes.drop start).take count) := if_pos h

/-- The sizes of a frame are those it carries. -/
theorem read_frame {a b c d precision : UInt8} {more : Bytes}
    (h : bytes.drop start = segmentBytes (precision :: a :: b :: c :: d :: more) ++ rest) :
    (do
      let width ← readAt bytes (start + 5) 2
      let height ← readAt bytes (start + 3) 2
      return (beNat width, beNat height) : Except HeaderError (Nat × Nat)) =
      .ok (beNat [c, d], beNat [a, b]) := by
  have hlen := congrArg List.length h
  simp only [segmentBytes, beBytes, List.length_drop, List.length_append, List.length_cons] at hlen
  have hfirst : (bytes.drop (start + 3)).take 2 = [a, b] := by
    rw [← List.drop_drop, h]
    rfl
  have hsecond : (bytes.drop (start + 5)).take 2 = [c, d] := by
    rw [← List.drop_drop, h]
    rfl
  rw [readAt_eq (by omega), readAt_eq (by omega), hfirst, hsecond]
  rfl

theorem length_frame (precision components : UInt8) (height width : Nat) (more : Bytes) :
    (precision :: beBytes height ++ beBytes width ++ components :: more).length = more.length + 6 :=
  rfl

/-- A payload of at least six bytes carries a frame's sizes. -/
theorem exists_frame (h : 6 ≤ payload.length) : ∃ precision height width components more,
    height < 2 ^ 16 ∧ width < 2 ^ 16 ∧
      payload = precision :: beBytes height ++ beBytes width ++ components :: more := by
  match payload, h with
  | p :: a :: b :: c :: d :: e :: more, _ =>
    exact ⟨p, beNat [a, b], beNat [c, d], e, more, beNat_lt a b, beNat_lt c d, by
      rw [beBytes_beNat, beBytes_beNat]
      rfl⟩

end Segments

section Walk

variable {bytes tail : Bytes} {offset width height : Nat}

theorem ne_of_isStandalone {marker : UInt8} (h : isStandalone marker = true) :
    marker ≠ 0xff ∧ isFinal marker = false := by
  constructor
  · rintro rfl
    exact absurd h (by decide)
  · rw [isFinal, Bool.or_eq_false_iff, beq_eq_false_iff_ne, beq_eq_false_iff_ne]
    constructor <;>
    · rintro rfl
      exact absurd h (by decide)

theorem ne_of_isFrame {marker : UInt8} (h : isFrame marker = true) :
    marker ≠ 0xff ∧ isFinal marker = false ∧ isStandalone marker = false := by
  have hle : marker.toNat ≤ 0xcf := by
    simp only [isFrame, Bool.and_eq_true, decide_eq_true_eq, UInt8.le_iff_toNat_le] at h
    exact h.1.2
  have hge : 0xc0 ≤ marker.toNat := by
    simp only [isFrame, Bool.and_eq_true, decide_eq_true_eq, UInt8.le_iff_toNat_le] at h
    exact h.1.1
  have hne (n : UInt8) (hn : n.toNat < 0xc0 ∨ 0xcf < n.toNat) : marker ≠ n := by
    rintro rfl
    omega
  refine ⟨hne _ (by decide), ?_, ?_⟩
  · simp [isFinal, hne 0xda (by decide), hne 0xd9 (by decide)]
  · have hlt : ¬ 0xd0 ≤ marker := by
      rw [UInt8.le_iff_toNat_le]
      exact fun h => by have : 0xd0 ≤ marker.toNat := h; omega
    simp [isStandalone, hne 1 (by decide), hlt]

/-- A walk that finds sizes has walked a chain to them. -/
theorem chain_of_walk (h : walkMarkers bytes offset = .ok (width, height)) :
    FrameChain (bytes.drop offset) width height := by
  fun_induction walkMarkers bytes offset with
  | case4 offset hlt hfirst marker hmarker start hfinal hstandalone ih =>
    obtain ⟨-, fill, hdrop⟩ := marker_of_getElem hlt (not_not.mp hfirst) hmarker
    rw [hdrop]
    exact .standalone hstandalone (ih h)
  | case8 offset hlt hfirst marker hmarker start hfinal hstandalone hlong length hlength hframe
      hshort =>
    obtain ⟨-, fill, hdrop⟩ := marker_of_getElem hlt (not_not.mp hfirst) hmarker
    obtain ⟨payload, hrest, hpayload, hbound⟩ :=
      segment_of_length (show 2 ≤ length by omega) (by omega)
    obtain ⟨precision, y, x, components, more, hy, hx, rfl⟩ :=
      exists_frame (show 6 ≤ payload.length by omega)
    have hread := (read_frame hrest).symm.trans h
    rw [Except.ok.injEq, Prod.mk.injEq] at hread
    obtain rfl : x = width := (beNat_beBytes hx).symm.trans hread.1
    obtain rfl : y = height := (beNat_beBytes hy).symm.trans hread.2
    rw [length_frame] at hbound
    rw [hdrop, hrest, ← List.append_assoc]
    exact .frame hframe hx hy hbound
  | case9 offset hlt hfirst marker hmarker start hfinal hstandalone hlong length hlength hframe
      ih =>
    obtain ⟨hfill, fill, hdrop⟩ := marker_of_getElem hlt (not_not.mp hfirst) hmarker
    obtain ⟨payload, hrest, hpayload, hbound⟩ :=
      segment_of_length (show 2 ≤ length by omega) (by omega)
    rw [hdrop, hrest, ← List.append_assoc]
    exact .segment hfill (by simpa using hfinal) (by simpa using hstandalone) (by simpa using hframe)
      hbound (ih h)
  | _ => contradiction

/-- A chain is walked to its sizes. -/
theorem walk_of_chain (h : FrameChain tail width height) (hdrop : bytes.drop offset = tail) :
    walkMarkers bytes offset = .ok (width, height) := by
  induction h generalizing offset with
  | standalone hmarker hrest ih =>
    obtain ⟨hne, hfinal⟩ := ne_of_isStandalone hmarker
    obtain ⟨hlt, hfirst, hget, hnext⟩ := read_marker hdrop hne
    rw [walkMarkers, dif_pos hlt, if_neg (not_not.mpr hfirst), hget]
    simpa [hfinal, hmarker] using ih hnext
  | @segment fill marker payload rest width height hfill hfinal hstandalone hframe hlength hrest
      ih =>
    rw [List.append_assoc] at hdrop
    obtain ⟨hlt, hfirst, hget, hnext⟩ := read_marker hdrop hfill
    obtain ⟨hread, hin, hrest⟩ := read_segment hnext hlength
    rw [walkMarkers, dif_pos hlt, if_neg (not_not.mpr hfirst), hget]
    simp only [hfinal, hstandalone, hframe, hread, Bool.false_eq_true, if_false]
    rw [if_neg (by omega), if_neg (by omega)]
    exact ih hrest
  | @frame fill marker precision components more rest width height hframe hwidth hheight
      hlength =>
    rw [List.append_assoc] at hdrop
    obtain ⟨hne, hfinal, hstandalone⟩ := ne_of_isFrame hframe
    obtain ⟨hlt, hfirst, hget, hnext⟩ := read_marker hdrop hne
    obtain ⟨hread, hin, -⟩ := read_segment hnext (by rwa [length_frame])
    rw [length_frame] at hread hin
    rw [walkMarkers, dif_pos hlt, if_neg (not_not.mpr hfirst), hget]
    simp only [hfinal, hstandalone, hframe, hread, Bool.false_eq_true, if_false, if_true]
    rw [if_neg (by omega), if_neg (by omega), if_neg (by omega), read_frame hnext]
    exact congrArg Except.ok (congrArg₂ Prod.mk (beNat_beBytes hwidth) (beNat_beBytes hheight))

/-- The walk reads nothing behind the end. -/
theorem walk_inside : walkMarkers bytes offset ≠ .error .outOfBounds := by
  fun_induction walkMarkers bytes offset with
  | case4 _ _ _ _ _ _ _ _ ih => exact ih
  | case8 offset hlt hfirst marker hmarker start hfinal hstandalone hlong length hlength hframe
      hshort =>
    rw [readAt_eq (by omega), readAt_eq (by omega)]
    simp [bind, Except.bind, pure, Except.pure]
  | case9 _ _ _ _ _ _ _ _ _ _ _ _ ih => exact ih
  | _ => simp

/-- Every format is read inside the file. -/
theorem dimensions_inside (bytes : Bytes) (format : String) :
    dimensions bytes format ≠ .error .outOfBounds := by
  unfold dimensions
  split_ifs with hpng hshort
  · simp
  · rw [readAt_eq (by omega), readAt_eq (by omega), readAt_eq (by omega)]
    simp only [bind, Except.bind, pure, Except.pure]
    split_ifs <;> simp
  · exact walk_inside

end Walk

/-- The sizes of a JPEG are found exactly along a chain of markers to its first frame header,
and every other file is refused. -/
theorem jpeg_dimensions_exact (bytes : Bytes) :
    (∀ width height, dimensions bytes "jpeg" = .ok (width, height) ↔
      FrameChain (bytes.drop 2) width height) ∧
    ((¬ ∃ width height, FrameChain (bytes.drop 2) width height) →
      ∃ text, dimensions bytes "jpeg" = .error (.refused text)) ∧
    dimensions bytes "jpeg" ≠ .error .outOfBounds := by
  have hwalk : dimensions bytes "jpeg" = walkMarkers bytes 2 := if_neg (by decide)
  rw [hwalk]
  refine ⟨fun width height => ⟨chain_of_walk, fun h => walk_of_chain h rfl⟩, fun hno => ?_,
    walk_inside⟩
  cases hresult : walkMarkers bytes 2 with
  | ok sizes => exact absurd ⟨sizes.1, sizes.2, chain_of_walk hresult⟩ hno
  | error error =>
    cases error with
    | refused text => exact ⟨text, rfl⟩
    | outOfBounds => exact absurd hresult walk_inside

end MiRelay
