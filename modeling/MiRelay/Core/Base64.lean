import Mathlib

/-!
# Base64

The URL-safe alphabet, three bytes for four digits, and a rest of one or two
bytes for two or three digits whose unused bits are zero; and the standard
alphabet, with and without padding. What is encoded is read back, and the
encoded text is short and plain.
-/

namespace MiRelay.Base64

/-- The digits of the URL-safe alphabet. -/
def alphabet : List Char := "ABCDEFGHIJKLMNOPQRSTUVWXYZabcdefghijklmnopqrstuvwxyz0123456789-_".toList

def digit (n : Nat) : Char := alphabet.getD n 'A'

/-- The value of a digit. -/
def value (c : Char) : Option Nat := alphabet.findIdx? (· == c)

/-- `URL_SAFE_NO_PAD.encode`. -/
def encode : List UInt8 → List Char
  | [] => []
  | [a] => [digit (a.toNat / 4), digit (a.toNat % 4 * 16)]
  | [a, b] =>
    [digit (a.toNat / 4), digit (a.toNat % 4 * 16 + b.toNat / 16), digit (b.toNat % 16 * 4)]
  | a :: b :: c :: rest =>
    digit (a.toNat / 4) :: digit (a.toNat % 4 * 16 + b.toNat / 16) ::
      digit (b.toNat % 16 * 4 + c.toNat / 64) :: digit (c.toNat % 64) :: encode rest

/-- `URL_SAFE_NO_PAD.decode`. -/
def decode : List Char → Option (List UInt8)
  | [] => some []
  | [_] => none
  | [x, y] => do
    let p ← value x
    let q ← value y
    if q % 16 = 0 then some [UInt8.ofNat (p * 4 + q / 16)] else none
  | [x, y, z] => do
    let p ← value x
    let q ← value y
    let r ← value z
    if r % 4 = 0 then some [UInt8.ofNat (p * 4 + q / 16), UInt8.ofNat (q % 16 * 16 + r / 4)]
    else none
  | x :: y :: z :: w :: rest => do
    let p ← value x
    let q ← value y
    let r ← value z
    let s ← value w
    let bytes ← decode rest
    some (UInt8.ofNat (p * 4 + q / 16) :: UInt8.ofNat (q % 16 * 16 + r / 4) ::
      UInt8.ofNat (r % 4 * 64 + s) :: bytes)

attribute [local simp] encode decode

/-- A digit is read as its value. -/
@[simp] theorem value_digit {n : Nat} (h : n < 64) : value (digit n) = some n := by
  have hall : ∀ i : Fin 64, value (digit i) = some i.val := by decide +kernel
  exact hall ⟨n, h⟩

/-- Every digit comes from the alphabet. -/
theorem digit_mem (n : Nat) : digit n ∈ alphabet := by
  rw [digit, List.getD_eq_getElem?_getD]
  cases h : alphabet[n]? with
  | none => exact (by decide : 'A' ∈ alphabet)
  | some c => exact List.mem_of_getElem? h

theorem ofNat_eq {n : Nat} {a : UInt8} (h : n = a.toNat) : UInt8.ofNat n = a := by
  rw [h, UInt8.ofNat_toNat]

/-- Decoding reads back what was encoded. -/
theorem decode_encode (l : List UInt8) : decode (encode l) = some l := by
  induction l using encode.induct with
  | case1 => rfl
  | case2 a =>
    have ha := a.toNat_lt
    rw [encode, decode, value_digit (by omega), value_digit (by omega)]
    have hzero : a.toNat % 4 * 16 % 16 = 0 := by omega
    simp only [Option.bind_eq_bind, Option.bind_some, hzero, if_true]
    rw [ofNat_eq (show a.toNat / 4 * 4 + a.toNat % 4 * 16 / 16 = a.toNat by omega)]
  | case3 a b =>
    have ha := a.toNat_lt
    have hb := b.toNat_lt
    rw [encode, decode, value_digit (by omega), value_digit (by omega), value_digit (by omega)]
    have hzero : b.toNat % 16 * 4 % 4 = 0 := by omega
    simp only [Option.bind_eq_bind, Option.bind_some, hzero, if_true]
    rw [ofNat_eq (show a.toNat / 4 * 4 + (a.toNat % 4 * 16 + b.toNat / 16) / 16 = a.toNat by omega),
      ofNat_eq (show (a.toNat % 4 * 16 + b.toNat / 16) % 16 * 16 + b.toNat % 16 * 4 / 4 =
        b.toNat by omega)]
  | case4 a b c rest ih =>
    have ha := a.toNat_lt
    have hb := b.toNat_lt
    have hc := c.toNat_lt
    rw [encode, decode, value_digit (by omega), value_digit (by omega), value_digit (by omega),
      value_digit (by omega), ih]
    simp only [Option.bind_eq_bind, Option.bind_some]
    rw [ofNat_eq (show a.toNat / 4 * 4 + (a.toNat % 4 * 16 + b.toNat / 16) / 16 = a.toNat by omega),
      ofNat_eq (show (a.toNat % 4 * 16 + b.toNat / 16) % 16 * 16 +
        (b.toNat % 16 * 4 + c.toNat / 64) / 4 = b.toNat by omega),
      ofNat_eq (show (b.toNat % 16 * 4 + c.toNat / 64) % 4 * 64 + c.toNat % 64 = c.toNat by omega)]

/-- The text is at most twice as long as the bytes. -/
theorem length_encode (l : List UInt8) : (encode l).length ≤ 2 * l.length := by
  induction l using encode.induct with
  | case1 => simp [encode]
  | case2 a => simp [encode]
  | case3 a b => simp [encode]
  | case4 a b c rest ih =>
    simp only [encode, List.length_cons]
    omega

theorem encode_ne_nil {l : List UInt8} (h : l ≠ []) : encode l ≠ [] := by
  cases l using encode.induct with
  | case1 => contradiction
  | case2 a => simp [encode]
  | case3 a b => simp [encode]
  | case4 a b c rest => simp [encode]

/-- The text has digits of the alphabet only. -/
theorem mem_encode {l : List UInt8} {c : Char} (h : c ∈ encode l) : c ∈ alphabet := by
  induction l using encode.induct with
  | case1 => simp [encode] at h
  | case2 a =>
    simp only [encode, List.mem_cons, List.not_mem_nil, or_false] at h
    rcases h with rfl | rfl <;> exact digit_mem _
  | case3 a b =>
    simp only [encode, List.mem_cons, List.not_mem_nil, or_false] at h
    rcases h with rfl | rfl | rfl <;> exact digit_mem _
  | case4 a b c rest ih =>
    simp only [encode, List.mem_cons] at h
    rcases h with rfl | rfl | rfl | rfl | h
    all_goals first | exact digit_mem _ | exact ih h

theorem length_encode_eq (l : List UInt8) : (encode l).length = (4 * l.length + 2) / 3 := by
  induction l using encode.induct with
  | case1 => rfl
  | case2 a => simp [encode]
  | case3 a b => simp [encode]
  | case4 a b c rest ih =>
    simp only [encode, List.length_cons, ih]
    omega

/-- Nothing is read from no digits only. -/
theorem decode_ne_nil {cs : List Char} {l : List UInt8} (h : decode cs = some l) (hne : cs ≠ []) :
    l ≠ [] := by
  cases cs using decode.induct with
  | case1 => contradiction
  | case2 x => contradiction
  | case3 x y =>
    simp only [decode, Option.bind_eq_bind, Option.bind_eq_some_iff] at h
    obtain ⟨p, -, q, -, h⟩ := h
    split at h
    · rw [← Option.some.inj h]
      exact List.cons_ne_nil _ _
    · contradiction
  | case4 x y z =>
    simp only [decode, Option.bind_eq_bind, Option.bind_eq_some_iff] at h
    obtain ⟨p, -, q, -, r, -, h⟩ := h
    split at h
    · rw [← Option.some.inj h]
      exact List.cons_ne_nil _ _
    · contradiction
  | case5 x y z w rest =>
    simp only [decode, Option.bind_eq_bind, Option.bind_eq_some_iff] at h
    obtain ⟨p, -, q, -, r, -, s, -, bytes, -, h⟩ := h
    rw [← Option.some.inj h]
    exact List.cons_ne_nil _ _

namespace Standard

/-- The last two digits of the standard alphabet are others. -/
def ofUrlSafe (c : Char) : Char := if c = '-' then '+' else if c = '_' then '/' else c

/-- The URL-safe digit for a standard one, and no digit for what is none. -/
def toUrlSafe (c : Char) : Char :=
  if c = '+' then '-' else if c = '/' then '_' else if c = '-' || c = '_' then '=' else c

/-- `STANDARD_NO_PAD.decode`. -/
def decodeNoPad (cs : List Char) : Option (List UInt8) := Base64.decode (cs.map toUrlSafe)

/-- `STANDARD.encode`. -/
def encode (l : List UInt8) : List Char :=
  let digits := (Base64.encode l).map ofUrlSafe
  digits ++ List.replicate ((4 - digits.length % 4) % 4) '='

/-- `STANDARD.decode`: the padding is required. -/
def decode (cs : List Char) : Option (List UInt8) :=
  let digits := (cs.reverse.dropWhile (· == '=')).reverse
  if cs.length % 4 = 0 ∧ cs.length ≤ digits.length + 2 then decodeNoPad digits else none

theorem toUrlSafe_ofUrlSafe {c : Char} (h : c ∈ alphabet) : toUrlSafe (ofUrlSafe c) = c := by
  have hall : alphabet.all (fun c => toUrlSafe (ofUrlSafe c) == c) = true := by decide
  exact beq_iff_eq.mp (List.all_eq_true.mp hall c h)

theorem decodeNoPad_digits (l : List UInt8) :
    decodeNoPad ((Base64.encode l).map ofUrlSafe) = some l := by
  rw [decodeNoPad, List.map_map]
  have hsame : (Base64.encode l).map (toUrlSafe ∘ ofUrlSafe) = Base64.encode l :=
    (List.map_congr_left fun c hc => toUrlSafe_ofUrlSafe (mem_encode hc)).trans (List.map_id _)
  rw [hsame, decode_encode]

/-- The text has digits and padding only. -/
theorem mem_encode {l : List UInt8} {c : Char} (h : c ∈ encode l) :
    c ∈ '=' :: alphabet.map ofUrlSafe := by
  rw [encode, List.mem_append] at h
  rcases h with h | h
  · obtain ⟨d, hd, rfl⟩ := List.mem_map.mp h
    exact List.mem_cons_of_mem _ (List.mem_map_of_mem (Base64.mem_encode hd))
  · rw [List.eq_of_mem_replicate h]
    exact List.mem_cons_self

/-- Decoding reads back what was encoded. -/
theorem decode_encode (l : List UInt8) : decode (encode l) = some l := by
  have hdigit : ∀ c ∈ (Base64.encode l).map ofUrlSafe, (c == '=') = false := by
    have hall : (alphabet.map ofUrlSafe).all (fun c => !(c == '=')) = true := by decide
    intro c hc
    obtain ⟨d, hd, rfl⟩ := List.mem_map.mp hc
    simpa using List.all_eq_true.mp hall _ (List.mem_map_of_mem (Base64.mem_encode hd))
  have hkeep (ds : List Char) (hds : ∀ c ∈ ds, (c == '=') = false) :
      ds.dropWhile (· == '=') = ds := by
    cases ds with
    | nil => rfl
    | cons d ds => rw [List.dropWhile_cons_of_neg (by simp [hds d List.mem_cons_self])]
  have hlength := length_encode_eq l
  have hread := decodeNoPad_digits l
  rw [← List.length_map ofUrlSafe] at hlength
  rw [decode, encode]
  generalize (Base64.encode l).map ofUrlSafe = digits at *
  have hstrip : ((digits ++ List.replicate ((4 - digits.length % 4) % 4) '=').reverse.dropWhile
      (· == '=')).reverse = digits := by
    rw [List.reverse_append, List.reverse_replicate, List.dropWhile_append_of_pos]
    · rw [hkeep _ fun c hc => hdigit c (List.mem_reverse.mp hc), List.reverse_reverse]
    · intro c hc
      rw [List.eq_of_mem_replicate hc]
      rfl
  simp only [hstrip, hread, List.length_append, List.length_replicate]
  rw [if_pos (by omega)]

/-- Four digits for three bytes. -/
theorem length_encode (l : List UInt8) : (encode l).length = 4 * ((l.length + 2) / 3) := by
  have hlength := length_encode_eq l
  rw [encode, List.length_append, List.length_replicate, List.length_map, hlength]
  omega

theorem encode_ne_nil {l : List UInt8} (h : l ≠ []) : encode l ≠ [] := by
  have hlength := length_encode l
  have hpos := List.length_pos_iff.mpr h
  exact List.ne_nil_of_length_pos (by omega)

theorem decode_ne_nil {cs : List Char} {l : List UInt8} (h : decode cs = some l) (hne : cs ≠ []) :
    l ≠ [] := by
  have hpos := List.length_pos_iff.mpr hne
  rw [decode] at h
  split at h
  · rename_i hlength
    refine Base64.decode_ne_nil h ?_
    intro hnil
    have hzero := congrArg List.length hnil
    rw [List.length_map, List.length_nil] at hzero
    omega
  · contradiction

end Standard

end MiRelay.Base64
