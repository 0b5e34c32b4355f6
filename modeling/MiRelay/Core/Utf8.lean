import Mathlib

/-!
# UTF-8, byte by byte

The first byte of a character tells how many follow, and each of these has its
range. Bytes are read one at a time: what has been read since the last complete
character is a beginning of one, or no text begins with it. Reading a text in
parts is reading it whole, and exactly the encoded texts are read to the end.
-/

namespace MiRelay

/-- A continuation byte of UTF-8. -/
def isContinuation (b : UInt8) : Bool := 0x80 ≤ b && b ≤ 0xbf

/-- The second byte of a three or four byte sequence, bounded so that no overlong form, no
surrogate and nothing above U+10FFFF is accepted. -/
def isSecondByte (first second : UInt8) : Bool :=
  if first = 0xe0 then 0xa0 ≤ second && second ≤ 0xbf
  else if first = 0xed then 0x80 ≤ second && second ≤ 0x9f
  else if first = 0xf0 then 0x90 ≤ second && second ≤ 0xbf
  else if first = 0xf4 then 0x80 ≤ second && second ≤ 0x8f
  else isContinuation second

namespace Utf8

/-- How many bytes a sequence with this first byte has; no sequence begins with it if zero. -/
def width (first : UInt8) : Nat :=
  if first < 0x80 then 1
  else if 0xc2 ≤ first && first ≤ 0xdf then 2
  else if 0xe0 ≤ first && first ≤ 0xef then 3
  else if 0xf0 ≤ first && first ≤ 0xf4 then 4
  else 0

/-- What the bytes since the last complete character are. -/
inductive Sequence
  | whole (c : Char)
  | unfinished
  | malformed
  deriving DecidableEq

/-- The bytes are in the ranges that the first one leaves them. -/
def wellFormed : List UInt8 → Bool
  | [a] => width a ≠ 0
  | [a, b] => isSecondByte a b && 2 ≤ width a
  | [a, b, c] => isSecondByte a b && isContinuation c && 3 ≤ width a
  | [a, b, c, d] => isSecondByte a b && isContinuation c && isContinuation d && 4 ≤ width a
  | _ => false

/-- The scalar value of a complete sequence. -/
def scalar : List UInt8 → Nat
  | [a] => a.toNat
  | [a, b] => (a.toNat - 0xc0) * 64 + (b.toNat - 0x80)
  | [a, b, c] => ((a.toNat - 0xe0) * 64 + (b.toNat - 0x80)) * 64 + (c.toNat - 0x80)
  | [a, b, c, d] => (((a.toNat - 0xf0) * 64 + (b.toNat - 0x80)) * 64 + (c.toNat - 0x80)) * 64 +
      (d.toNat - 0x80)
  | _ => 0

def sequenceOf (bytes : List UInt8) : Sequence :=
  if wellFormed bytes then
    if bytes.length = width (bytes.headD 0) then .whole (Char.ofNat (scalar bytes)) else .unfinished
  else .malformed

/-- The bytes of a text. -/
def encode (text : List Char) : List UInt8 := text.flatMap String.utf8EncodeChar

/-- The characters of the bytes after a beginning of one, with the beginning at their end. -/
def scan (pending : List UInt8) : List UInt8 → Option (List Char × List UInt8)
  | [] => some ([], pending)
  | b :: rest =>
    match sequenceOf (pending ++ [b]) with
    | .whole c => do
      let (text, last) ← scan [] rest
      return (c :: text, last)
    | .unfinished => scan (pending ++ [b]) rest
    | .malformed => none

section Sequences

variable {c : Char}

theorem toNat_ofNat_of_lt {n : Nat} (h : n < 256) : (UInt8.ofNat n).toNat = n := by
  rw [UInt8.toNat_ofNat', Nat.mod_eq_of_lt h]

/-- A character is below the surrogates or between them and the last code point. -/
theorem toNat_valid (c : Char) : c.toNat < 0xd800 ∨ 0xdfff < c.toNat ∧ c.toNat < 0x110000 := c.valid

/-- The four lengths of a character, by the number of its bits. -/
theorem utf8EncodeChar_cases (c : Char) :
    (c.toNat ≤ 0x7f ∧ String.utf8EncodeChar c = [UInt8.ofNat c.toNat]) ∨
    (0x7f < c.toNat ∧ c.toNat ≤ 0x7ff ∧ String.utf8EncodeChar c =
      [UInt8.ofNat (c.toNat / 64 % 0x20 + 0xc0), UInt8.ofNat (c.toNat % 0x40 + 0x80)]) ∨
    (0x7ff < c.toNat ∧ c.toNat ≤ 0xffff ∧ String.utf8EncodeChar c =
      [UInt8.ofNat (c.toNat / 4096 % 0x10 + 0xe0), UInt8.ofNat (c.toNat / 64 % 0x40 + 0x80),
        UInt8.ofNat (c.toNat % 0x40 + 0x80)]) ∨
    (0xffff < c.toNat ∧ String.utf8EncodeChar c =
      [UInt8.ofNat (c.toNat / 262144 % 0x08 + 0xf0), UInt8.ofNat (c.toNat / 4096 % 0x40 + 0x80),
        UInt8.ofNat (c.toNat / 64 % 0x40 + 0x80), UInt8.ofNat (c.toNat % 0x40 + 0x80)]) := by
  have hencode : String.utf8EncodeChar c = if c.toNat ≤ 0x7f then [UInt8.ofNat c.toNat]
    else if c.toNat ≤ 0x7ff then
      [UInt8.ofNat (c.toNat / 64 % 0x20 + 0xc0), UInt8.ofNat (c.toNat % 0x40 + 0x80)]
    else if c.toNat ≤ 0xffff then
      [UInt8.ofNat (c.toNat / 4096 % 0x10 + 0xe0), UInt8.ofNat (c.toNat / 64 % 0x40 + 0x80),
        UInt8.ofNat (c.toNat % 0x40 + 0x80)]
    else [UInt8.ofNat (c.toNat / 262144 % 0x08 + 0xf0), UInt8.ofNat (c.toNat / 4096 % 0x40 + 0x80),
        UInt8.ofNat (c.toNat / 64 % 0x40 + 0x80), UInt8.ofNat (c.toNat % 0x40 + 0x80)] := rfl
  rw [hencode]
  by_cases hone : c.toNat ≤ 0x7f
  · exact .inl ⟨hone, if_pos hone⟩
  · by_cases htwo : c.toNat ≤ 0x7ff
    · exact .inr (.inl ⟨by omega, htwo, by rw [if_neg hone, if_pos htwo]⟩)
    · by_cases hthree : c.toNat ≤ 0xffff
      · exact .inr (.inr (.inl ⟨by omega, hthree, by rw [if_neg hone, if_neg htwo, if_pos hthree]⟩))
      · exact .inr (.inr (.inr ⟨by omega, by rw [if_neg hone, if_neg htwo, if_neg hthree]⟩))

/-- The classes of a first byte, as numbers. -/
theorem width_eq (a : UInt8) : width a =
    if a.toNat < 0x80 then 1 else if 0xc2 ≤ a.toNat ∧ a.toNat ≤ 0xdf then 2
    else if 0xe0 ≤ a.toNat ∧ a.toNat ≤ 0xef then 3
    else if 0xf0 ≤ a.toNat ∧ a.toNat ≤ 0xf4 then 4 else 0 := by
  simp only [width, UInt8.lt_iff_toNat_lt, UInt8.le_iff_toNat_le, Bool.and_eq_true,
    decide_eq_true_eq, UInt8.reduceToNat]

theorem isContinuation_iff {b : UInt8} : isContinuation b = true ↔ 0x80 ≤ b.toNat ∧ b.toNat ≤ 0xbf := by
  simp only [isContinuation, UInt8.le_iff_toNat_le, Bool.and_eq_true, decide_eq_true_eq]
  rfl

theorem isSecondByte_iff {a b : UInt8} : isSecondByte a b = true ↔
    (if a.toNat = 0xe0 then 0xa0 ≤ b.toNat ∧ b.toNat ≤ 0xbf
    else if a.toNat = 0xed then 0x80 ≤ b.toNat ∧ b.toNat ≤ 0x9f
    else if a.toNat = 0xf0 then 0x90 ≤ b.toNat ∧ b.toNat ≤ 0xbf
    else if a.toNat = 0xf4 then 0x80 ≤ b.toNat ∧ b.toNat ≤ 0x8f
    else 0x80 ≤ b.toNat ∧ b.toNat ≤ 0xbf) := by
  have heq (x y : UInt8) : x = y ↔ x.toNat = y.toNat := UInt8.toNat_inj.symm
  simp only [isSecondByte, isContinuation, UInt8.le_iff_toNat_le, heq, UInt8.reduceToNat]
  split_ifs <;> simp only [Bool.and_eq_true, decide_eq_true_eq]

theorem ofNat_eq_of_toNat {n : Nat} {a : UInt8} (h : n = a.toNat) : UInt8.ofNat n = a := by
  rw [h, UInt8.ofNat_toNat]

theorem toNat_ofNat_of_valid {n : Nat} (h : n < 0xd800 ∨ 0xdfff < n ∧ n < 0x110000) :
    (Char.ofNat n).toNat = n := by
  have hvalid : n.isValidChar := h
  rw [Char.ofNat, dif_pos hvalid]
  rfl

section Lengths

variable {x y z w : UInt8}

theorem encode_one (hx : x.toNat < 0x80) (hc : c.toNat = x.toNat) :
    [x] = String.utf8EncodeChar c := by
  rcases utf8EncodeChar_cases c with ⟨-, he⟩ | ⟨h₁, -⟩ | ⟨h₁, -⟩ | ⟨h₁, -⟩
  · rw [he, ofNat_eq_of_toNat hc]
  · omega
  · omega
  · omega

theorem encode_two (hx : 0xc2 ≤ x.toNat ∧ x.toNat ≤ 0xdf) (hy : 0x80 ≤ y.toNat ∧ y.toNat ≤ 0xbf)
    (hc : c.toNat = (x.toNat - 0xc0) * 64 + (y.toNat - 0x80)) :
    [x, y] = String.utf8EncodeChar c := by
  rcases utf8EncodeChar_cases c with ⟨h₁, -⟩ | ⟨-, -, he⟩ | ⟨h₁, -⟩ | ⟨h₁, -⟩
  · omega
  · rw [he, ofNat_eq_of_toNat (a := x) (by omega), ofNat_eq_of_toNat (a := y) (by omega)]
  · omega
  · omega

theorem encode_three (hx : 0xe0 ≤ x.toNat ∧ x.toNat ≤ 0xef)
    (hy : 0x80 ≤ y.toNat ∧ y.toNat ≤ 0xbf) (hz : 0x80 ≤ z.toNat ∧ z.toNat ≤ 0xbf)
    (hlow : x.toNat = 0xe0 → 0xa0 ≤ y.toNat)
    (hc : c.toNat = ((x.toNat - 0xe0) * 64 + (y.toNat - 0x80)) * 64 + (z.toNat - 0x80)) :
    [x, y, z] = String.utf8EncodeChar c := by
  rcases utf8EncodeChar_cases c with ⟨h₁, -⟩ | ⟨-, h₁, -⟩ | ⟨-, -, he⟩ | ⟨h₁, -⟩
  · omega
  · omega
  · rw [he, ofNat_eq_of_toNat (a := x) (by omega), ofNat_eq_of_toNat (a := y) (by omega),
      ofNat_eq_of_toNat (a := z) (by omega)]
  · omega

theorem encode_four (hx : 0xf0 ≤ x.toNat ∧ x.toNat ≤ 0xf4)
    (hy : 0x80 ≤ y.toNat ∧ y.toNat ≤ 0xbf) (hz : 0x80 ≤ z.toNat ∧ z.toNat ≤ 0xbf)
    (hw : 0x80 ≤ w.toNat ∧ w.toNat ≤ 0xbf) (hlow : x.toNat = 0xf0 → 0x90 ≤ y.toNat)
    (hc : c.toNat = (((x.toNat - 0xf0) * 64 + (y.toNat - 0x80)) * 64 + (z.toNat - 0x80)) * 64 +
      (w.toNat - 0x80)) : [x, y, z, w] = String.utf8EncodeChar c := by
  rcases utf8EncodeChar_cases c with ⟨h₁, -⟩ | ⟨-, h₁, -⟩ | ⟨-, h₁, -⟩ | ⟨-, he⟩
  · omega
  · omega
  · omega
  · rw [he, ofNat_eq_of_toNat (a := x) (by omega), ofNat_eq_of_toNat (a := y) (by omega),
      ofNat_eq_of_toNat (a := z) (by omega), ofNat_eq_of_toNat (a := w) (by omega)]

end Lengths

/-- What a second byte may be, and where its range is cut. -/
theorem bounds_of_isSecondByte {x y : UInt8} (h : isSecondByte x y = true) :
    (0x80 ≤ y.toNat ∧ y.toNat ≤ 0xbf) ∧ (x.toNat = 0xe0 → 0xa0 ≤ y.toNat) ∧
      (x.toNat = 0xed → y.toNat ≤ 0x9f) ∧ (x.toNat = 0xf0 → 0x90 ≤ y.toNat) ∧
      (x.toNat = 0xf4 → y.toNat ≤ 0x8f) := by
  rw [isSecondByte_iff] at h
  split_ifs at h <;> omega

/-- A complete sequence has the width of its first byte, and its character its scalar value. -/
theorem whole_iff {bytes : List UInt8} (h : sequenceOf bytes = .whole c) :
    wellFormed bytes = true ∧ bytes.length = width (bytes.headD 0) ∧
      (scalar bytes < 0xd800 ∨ 0xdfff < scalar bytes ∧ scalar bytes < 0x110000 →
        c.toNat = scalar bytes) := by
  unfold sequenceOf at h
  split at h
  · rename_i hformed
    split at h
    · rename_i hlength
      refine ⟨hformed, hlength, fun hvalid => ?_⟩
      rw [Sequence.whole.injEq] at h
      rw [← h]
      exact toNat_ofNat_of_valid hvalid
    · contradiction
  · contradiction

theorem scalar_one (x : UInt8) : scalar [x] = x.toNat := by
  unfold scalar
  rfl

theorem scalar_two (x y : UInt8) : scalar [x, y] = (x.toNat - 0xc0) * 64 + (y.toNat - 0x80) := by
  unfold scalar
  rfl

theorem scalar_three (x y z : UInt8) : scalar [x, y, z] =
    ((x.toNat - 0xe0) * 64 + (y.toNat - 0x80)) * 64 + (z.toNat - 0x80) := by
  unfold scalar
  rfl

theorem scalar_four (x y z w : UInt8) : scalar [x, y, z, w] =
    (((x.toNat - 0xf0) * 64 + (y.toNat - 0x80)) * 64 + (z.toNat - 0x80)) * 64 +
      (w.toNat - 0x80) := by
  unfold scalar
  rfl

/-- A complete sequence is the encoding of its character. -/
theorem eq_of_whole {bytes : List UInt8} (h : sequenceOf bytes = .whole c) :
    bytes = String.utf8EncodeChar c := by
  obtain ⟨hformed, hlength, hscalar⟩ := whole_iff h
  clear h
  rcases bytes with _ | ⟨x, _ | ⟨y, _ | ⟨z, _ | ⟨w, _ | ⟨v, rest⟩⟩⟩⟩⟩
  · contradiction
  · rw [List.length_singleton, List.headD_cons, width_eq] at hlength
    have hx : x.toNat < 0x80 := by
      split_ifs at hlength <;> omega
    rw [scalar_one] at hscalar
    exact encode_one hx (hscalar (.inl (by omega)))
  · rw [List.length_cons, List.length_singleton, List.headD_cons, width_eq] at hlength
    have hx : 0xc2 ≤ x.toNat ∧ x.toNat ≤ 0xdf := by
      split_ifs at hlength <;> omega
    simp only [wellFormed, Bool.and_eq_true] at hformed
    obtain ⟨hy, -⟩ := bounds_of_isSecondByte hformed.1
    rw [scalar_two] at hscalar
    exact encode_two hx hy (hscalar (.inl (by omega)))
  · rw [List.length_cons, List.length_cons, List.length_singleton, List.headD_cons,
      width_eq] at hlength
    have hx : 0xe0 ≤ x.toNat ∧ x.toNat ≤ 0xef := by
      split_ifs at hlength <;> omega
    simp only [wellFormed, Bool.and_eq_true, isContinuation_iff] at hformed
    obtain ⟨hy, hlow, hsurrogate, -⟩ := bounds_of_isSecondByte hformed.1.1
    rw [scalar_three] at hscalar
    exact encode_three hx hy hformed.1.2 hlow (hscalar (by omega))
  · rw [List.length_cons, List.length_cons, List.length_cons, List.length_singleton,
      List.headD_cons, width_eq] at hlength
    have hx : 0xf0 ≤ x.toNat ∧ x.toNat ≤ 0xf4 := by
      split_ifs at hlength <;> omega
    simp only [wellFormed, Bool.and_eq_true, isContinuation_iff] at hformed
    obtain ⟨hy, -, -, hlow, hhigh⟩ := bounds_of_isSecondByte hformed.1.1.1
    rw [scalar_four] at hscalar
    exact encode_four hx hy hformed.1.1.2 hformed.1.2 hlow (hscalar (by omega))
  · contradiction

theorem toNat_ofNat_mod (n : Nat) {k m : Nat} (hm : m + k ≤ 256) (hk : 0 < k) :
    (UInt8.ofNat (n % k + m)).toNat = n % k + m :=
  toNat_ofNat_of_lt (by have := Nat.mod_lt n hk; omega)

theorem isContinuation_ofNat (n : Nat) : isContinuation (UInt8.ofNat (n % 0x40 + 0x80)) = true := by
  rw [isContinuation_iff, toNat_ofNat_mod n (by omega) (by omega)]
  omega

/-- The first byte of an encoding decides its length, and the others are in their ranges. -/
theorem wellFormed_take {c : Char} {front back : List UInt8}
    (h : front ++ back = String.utf8EncodeChar c) (hne : front ≠ []) :
    wellFormed front = true ∧ width (front.headD 0) = front.length + back.length := by
  have hvalid := toNat_valid c
  obtain ⟨a, rest, rfl⟩ := List.exists_cons_of_ne_nil hne
  rw [List.headD_cons]
  rcases utf8EncodeChar_cases c with ⟨h₁, he⟩ | ⟨h₁, h₂, he⟩ | ⟨h₁, h₂, he⟩ | ⟨h₁, he⟩
  · rw [he, List.cons_append, List.cons.injEq, List.append_eq_nil_iff] at h
    obtain ⟨rfl, rfl, rfl⟩ := h
    have hwidth : width (UInt8.ofNat c.toNat) = 1 := by
      rw [width_eq, toNat_ofNat_of_lt (by omega), if_pos (by omega)]
    simp [wellFormed, hwidth]
  · rw [he, List.cons_append, List.cons.injEq] at h
    obtain ⟨rfl, h⟩ := h
    have ha := toNat_ofNat_mod (c.toNat / 64) (k := 0x20) (m := 0xc0) (by omega) (by omega)
    have hb := isContinuation_ofNat c.toNat
    generalize UInt8.ofNat (c.toNat / 64 % 0x20 + 0xc0) = a at *
    generalize UInt8.ofNat (c.toNat % 0x40 + 0x80) = b at *
    have hwidth : width a = 2 := by
      rw [width_eq, if_neg (by omega), if_pos (by omega)]
    have hsecond : isSecondByte a b = true := by
      rw [isContinuation_iff] at hb
      rw [isSecondByte_iff]
      split_ifs <;> omega
    rcases rest with _ | ⟨x, rest⟩
    · simp_all [wellFormed]
    · simp_all [wellFormed]
  · rw [he, List.cons_append, List.cons.injEq] at h
    obtain ⟨rfl, h⟩ := h
    have ha := toNat_ofNat_mod (c.toNat / 4096) (k := 0x10) (m := 0xe0) (by omega) (by omega)
    have hb := toNat_ofNat_mod (c.toNat / 64) (k := 0x40) (m := 0x80) (by omega) (by omega)
    have hc := isContinuation_ofNat c.toNat
    generalize UInt8.ofNat (c.toNat / 4096 % 0x10 + 0xe0) = a at *
    generalize UInt8.ofNat (c.toNat / 64 % 0x40 + 0x80) = b at *
    generalize UInt8.ofNat (c.toNat % 0x40 + 0x80) = d at *
    have hwidth : width a = 3 := by
      rw [width_eq, if_neg (by omega), if_neg (by omega), if_pos (by omega)]
    have hsecond : isSecondByte a b = true := by
      rw [isSecondByte_iff]
      split_ifs <;> omega
    rcases rest with _ | ⟨x, _ | ⟨y, rest⟩⟩
    · simp_all [wellFormed]
    · simp_all [wellFormed]
    · simp_all [wellFormed]
  · rw [he, List.cons_append, List.cons.injEq] at h
    obtain ⟨rfl, h⟩ := h
    have ha := toNat_ofNat_mod (c.toNat / 262144) (k := 0x08) (m := 0xf0) (by omega) (by omega)
    have hb := toNat_ofNat_mod (c.toNat / 4096) (k := 0x40) (m := 0x80) (by omega) (by omega)
    have hc := isContinuation_ofNat (c.toNat / 64)
    have hd := isContinuation_ofNat c.toNat
    generalize UInt8.ofNat (c.toNat / 262144 % 0x08 + 0xf0) = a at *
    generalize UInt8.ofNat (c.toNat / 4096 % 0x40 + 0x80) = b at *
    generalize UInt8.ofNat (c.toNat / 64 % 0x40 + 0x80) = d at *
    generalize UInt8.ofNat (c.toNat % 0x40 + 0x80) = e at *
    have hwidth : width a = 4 := by
      rw [width_eq, if_neg (by omega), if_neg (by omega), if_neg (by omega), if_pos (by omega)]
    have hsecond : isSecondByte a b = true := by
      rw [isSecondByte_iff]
      split_ifs <;> omega
    rcases rest with _ | ⟨x, _ | ⟨y, _ | ⟨z, rest⟩⟩⟩
    · simp_all [wellFormed]
    · simp_all [wellFormed]
    · simp_all [wellFormed]
    · simp_all [wellFormed]

/-- The encoding tells the character. -/
theorem utf8EncodeChar_inj {c d : Char} (h : String.utf8EncodeChar c = String.utf8EncodeChar d) :
    c = d := by
  have hc := ByteArray.utf8DecodeChar?_utf8EncodeChar_append (b := .empty) (c := c)
  rw [h, ByteArray.utf8DecodeChar?_utf8EncodeChar_append, Option.some.injEq] at hc
  exact hc.symm

/-- The encoding of a character is a complete sequence, and what comes before its last byte is the
beginning of one. -/
theorem sequenceOf_take {front back : List UInt8} (h : front ++ back = String.utf8EncodeChar c)
    (hne : front ≠ []) : sequenceOf front = if back = [] then .whole c else .unfinished := by
  obtain ⟨hformed, hwidth⟩ := wellFormed_take h hne
  rw [sequenceOf, if_pos hformed, hwidth]
  cases back with
  | nil =>
    have hwhole : sequenceOf front = .whole (Char.ofNat (scalar front)) := by
      rw [sequenceOf, if_pos hformed, hwidth, List.length_nil, Nat.add_zero, if_pos rfl]
    have hsame := (eq_of_whole hwhole).symm.trans ((List.append_nil front).symm.trans h)
    rw [List.length_nil, Nat.add_zero, if_pos rfl, if_pos rfl, utf8EncodeChar_inj hsame]
  | cons b back => rw [if_neg (by simp), if_neg (List.cons_ne_nil _ _)]

/-- A beginning of a character has at most three bytes. -/
theorem length_of_unfinished {bytes : List UInt8} (h : sequenceOf bytes = .unfinished) :
    bytes.length ≤ 3 := by
  unfold sequenceOf at h
  split at h
  · rename_i hformed
    split at h
    · contradiction
    · rename_i hlength
      rcases bytes with _ | ⟨x, _ | ⟨y, _ | ⟨z, _ | ⟨w, _ | ⟨v, rest⟩⟩⟩⟩⟩
      · simp
      · simp
      · simp
      · simp
      · simp only [wellFormed, Bool.and_eq_true, decide_eq_true_eq] at hformed
        have hle := hformed.2
        simp only [List.length_cons, List.length_nil, List.headD_cons] at hlength
        rw [width_eq] at hle hlength
        split_ifs at hle hlength <;> omega
      · contradiction
  · contradiction

end Sequences

section Scan

variable {pending bytes : List UInt8} {text : List Char} {last : List UInt8}

attribute [local simp] scan

/-- Reading on from what was left is reading the whole. -/
theorem scan_append (pending xs ys : List UInt8) : scan pending (xs ++ ys) = (do
    let (text, last) ← scan pending xs
    let (more, final) ← scan last ys
    return (text ++ more, final)) := by
  induction xs generalizing pending with
  | nil => cases h : scan pending ys <;> simp [scan, h]
  | cons b rest ih =>
    rw [List.cons_append, scan, scan]
    split
    · rw [ih]
      cases scan [] rest with
      | none => rfl
      | some found =>
        obtain ⟨text, last⟩ := found
        cases h : scan last ys <;> simp [h]
    · exact ih _
    · rfl

/-- What is left over is again a beginning that nothing was read of. -/
theorem scan_last (h : scan pending bytes = some (text, last))
    (hpending : scan [] pending = some ([], pending)) : scan [] last = some ([], last) := by
  induction bytes generalizing pending text with
  | nil =>
    rw [scan, Option.some.injEq, Prod.mk.injEq] at h
    rwa [← h.2]
  | cons b rest ih =>
    rw [scan] at h
    split at h
    · simp only [Option.bind_eq_bind, Option.bind_eq_some_iff] at h
      obtain ⟨found, hfound, hlast⟩ := h
      cases hlast
      exact ih (show _ = some (found.1, found.2) from hfound) rfl
    · rename_i hunfinished
      refine ih h ?_
      rw [scan_append, hpending]
      simp [scan, hunfinished]
    · contradiction

/-- The bytes that were read, with those that were left over. -/
theorem eq_of_scan (h : scan pending bytes = some (text, last)) :
    pending ++ bytes = encode text ++ last := by
  induction bytes generalizing pending text with
  | nil =>
    rw [scan, Option.some.injEq, Prod.mk.injEq] at h
    obtain ⟨rfl, rfl⟩ := h
    rw [List.append_nil]
    rfl
  | cons b rest ih =>
    rw [scan] at h
    split at h
    · rename_i c hwhole
      simp only [Option.bind_eq_bind, Option.bind_eq_some_iff] at h
      obtain ⟨⟨text', last'⟩, hfound, hlast⟩ := h
      cases hlast
      have hrest := ih hfound
      rw [List.nil_append] at hrest
      rw [← List.singleton_append, ← List.append_assoc, eq_of_whole hwhole, hrest, encode, encode,
        List.flatMap_cons, List.append_assoc]
    · rw [← ih h, List.append_assoc, List.singleton_append]
    · contradiction

/-- A character is read once its last byte is there. -/
theorem scan_char {c : Char} {front back : List UInt8} (h : front ++ back = String.utf8EncodeChar c)
    (hne : back ≠ []) (rest : List UInt8) :
    scan front (back ++ rest) = (scan [] rest).map fun found => (c :: found.1, found.2) := by
  induction back generalizing front with
  | nil => contradiction
  | cons b back ih =>
    have hnext : (front ++ [b]) ++ back = String.utf8EncodeChar c := by
      rw [List.append_assoc, List.singleton_append, h]
    rw [List.cons_append, scan, sequenceOf_take hnext (by simp)]
    cases back with
    | nil =>
      rw [if_pos rfl, List.nil_append]
      cases scan [] rest <;> simp
    | cons b' back =>
      rw [if_neg (List.cons_ne_nil _ _)]
      exact ih hnext (List.cons_ne_nil _ _)

/-- Exactly the encoded texts are read to the end. -/
theorem scan_eq_some_iff : scan [] bytes = some (text, []) ↔ bytes = encode text := by
  constructor
  · intro h
    have heq := eq_of_scan h
    rwa [List.nil_append, List.append_nil] at heq
  · rintro rfl
    induction text with
    | nil => rfl
    | cons c text ih =>
      have hne : String.utf8EncodeChar c ≠ [] := by
        intro hnil
        have hlength := String.length_utf8EncodeChar c
        rw [hnil] at hlength
        exact absurd hlength.symm (Nat.pos_iff_ne_zero.mp c.utf8Size_pos)
      rw [encode, List.flatMap_cons, scan_char (List.nil_append _) hne, ← encode, ih]
      rfl

/-- What is left over has at most three bytes. -/
theorem length_of_scan (h : scan pending bytes = some (text, last)) (hpending : pending.length ≤ 3) :
    last.length ≤ 3 := by
  induction bytes generalizing pending text with
  | nil =>
    rw [scan, Option.some.injEq, Prod.mk.injEq] at h
    rwa [← h.2]
  | cons b rest ih =>
    rw [scan] at h
    split at h
    · simp only [Option.bind_eq_bind, Option.bind_eq_some_iff] at h
      obtain ⟨found, hfound, hlast⟩ := h
      cases hlast
      exact ih (show _ = some (found.1, found.2) from hfound) (by simp)
    · rename_i hunfinished
      exact ih h (length_of_unfinished hunfinished)
    · contradiction

end Scan

/-- ASCII characters are their own bytes. -/
theorem encode_ascii {text : List Char} (h : ∀ c ∈ text, c.toNat < 0x80) :
    encode text = text.map fun c => UInt8.ofNat c.toNat := by
  induction text with
  | nil => rfl
  | cons c text ih =>
    rw [List.forall_mem_cons] at h
    have hc : String.utf8EncodeChar c = [UInt8.ofNat c.toNat] := by
      rcases utf8EncodeChar_cases c with ⟨-, he⟩ | ⟨h₁, -⟩ | ⟨h₁, -⟩ | ⟨h₁, -⟩
      · exact he
      · omega
      · omega
      · omega
    rw [encode, List.flatMap_cons, ← encode, ih h.2, hc]
    rfl

theorem length_encode (text : List Char) :
    (encode text).length = (text.map Char.utf8Size).sum := by
  rw [encode, List.length_flatMap]
  exact congrArg List.sum (List.map_congr_left fun c _ => String.length_utf8EncodeChar c)

/-- What `str::from_utf8` finds. -/
inductive Decoded
  | text (text : List Char)
  /-- The input ends within a character that begins after this many bytes; no error length. -/
  | truncated (validUpTo : Nat)
  /-- No text begins with the input; there is an error length. -/
  | malformed
  deriving DecidableEq

/-- `str::from_utf8`. -/
def decode (bytes : List UInt8) : Decoded :=
  match scan [] bytes with
  | none => .malformed
  | some (text, last) => if last = [] then .text text else .truncated (bytes.length - last.length)

/-- Decoding accepts exactly the encoded texts. -/
theorem decode_eq_text_iff {bytes : List UInt8} {text : List Char} :
    decode bytes = .text text ↔ bytes = encode text := by
  rw [← scan_eq_some_iff, decode]
  cases h : scan [] bytes with
  | none => simp
  | some found =>
    obtain ⟨found, last⟩ := found
    by_cases hlast : last = []
    · simp [hlast]
    · simp [hlast]

end Utf8

end MiRelay
