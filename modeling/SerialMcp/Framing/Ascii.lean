/-
  ASCII frames: what the NMEA and Modbus parsers strip, and hexadecimal digits.

  * `stripTrailingNewline_cases`, `mem_stripped`: a frame without its markers;
  * `hexValue`: the value of a digit; `hexDigit_byte`: the parsers read it;
  * `pairValue`: what two characters are read as, which need not be two digits
    (`fromStrRadix16_bytes`);
  * `upperDigits`: a byte as it is written;
  * `decodePairs`: the bytes that pairs of digits stand for.
-/
import SerialMcp.Framing.Parsers
import SerialMcp.Utf8

namespace SerialMcp

variable {a b : UInt8} {c : Bytes}

/-! ## Markers -/

theorem stripTrailingNewline_cases (c : Bytes) :
    c = stripTrailingNewline c ++ [13, 10] ∨ c = stripTrailingNewline c ++ [10] ∨
      c = stripTrailingNewline c := by
  have hsuffix {t : Bytes} (h : t.isSuffixOf c = true) :
      c = c.take (c.length - t.length) ++ t := by
    obtain ⟨pre, rfl⟩ := List.isSuffixOf_iff_suffix.1 h
    simp
  rw [stripTrailingNewline]
  split_ifs with hcrlf hlf
  · exact .inl (hsuffix hcrlf)
  · exact .inr (.inl (hsuffix hlf))
  · exact .inr (.inr rfl)

theorem stripTrailingNewline_of_getLast (h : c.getLast? ≠ some 10) : stripTrailingNewline c = c := by
  rcases stripTrailingNewline_cases c with hc | hc | hc
  · rw [hc] at h
    simp at h
  · rw [hc] at h
    simp at h
  · exact hc.symm

theorem stripLeadingIfAny_cases (markers c : Bytes) :
    (∃ m ∈ markers, c = m :: stripLeadingIfAny markers c) ∨ c = stripLeadingIfAny markers c := by
  rcases c with _ | ⟨m, rest⟩
  · exact .inr rfl
  · rw [stripLeadingIfAny]
    split_ifs with hm
    · exact .inl ⟨m, hm, rfl⟩
    · exact .inr rfl

theorem mem_stripLeadingIfAny {markers : Bytes} (hm : b ∉ markers) :
    b ∈ stripLeadingIfAny markers c ↔ b ∈ c := by
  rcases stripLeadingIfAny_cases markers c with ⟨m, hmem, hc⟩ | hc
  · have hne : b ≠ m := fun h => hm (h ▸ hmem)
    conv_rhs => rw [hc]
    simp [hne]
  · rw [← hc]

theorem mem_stripped {markers : Bytes} (hm : b ∉ markers) (hnl : b ∉ ([13, 10] : Bytes)) :
    b ∈ stripTrailingNewline (stripLeadingIfAny markers c) ↔ b ∈ c := by
  rw [← mem_stripLeadingIfAny (c := c) hm]
  have hlf : b ∉ ([10] : Bytes) := fun h => hnl (List.mem_cons_of_mem 13 h)
  rcases stripTrailingNewline_cases (stripLeadingIfAny markers c) with hc | hc | hc
  all_goals conv_rhs => rw [hc]
  · rw [List.mem_append, or_iff_left hnl]
  · rw [List.mem_append, or_iff_left hlf]

theorem stripLeadingIfAny_subset (markers c : Bytes) : stripLeadingIfAny markers c ⊆ c := by
  rcases stripLeadingIfAny_cases markers c with ⟨m, -, hc⟩ | hc
  · intro b hb
    rw [hc]
    exact List.mem_cons_of_mem m hb
  · rw [← hc]
    exact List.Subset.refl c

/-! ## One digit -/

/-- The value of a hexadecimal digit. -/
def hexValue (b : UInt8) : ℕ :=
  if b ≤ 57 then b.toNat - 48 else if b ≤ 70 then b.toNat - 55 else b.toNat - 87

theorem ascii_forall {p : UInt8 → Prop} (h : ∀ n < 128, p (UInt8.ofNat n)) (hb : b < 0x80) : p b := by
  have hp := h b.toNat (by simpa [UInt8.lt_iff_toNat_lt] using hb)
  rwa [UInt8.ofNat_toNat] at hp

theorem isAsciiHexdigit_ascii (h : isAsciiHexdigit b = true) : b < 0x80 := by
  simp only [isAsciiHexdigit, UInt8.le_iff_toNat_le, UInt8.reduceToNat, decide_eq_true_eq] at h
  simp only [UInt8.lt_iff_toNat_lt, UInt8.reduceToNat]
  omega

theorem isAsciiHexdigit_printable (h : isAsciiHexdigit b = true) : 0x20 ≤ b ∧ b ≤ 0x7E := by
  simp only [isAsciiHexdigit, UInt8.le_iff_toNat_le, UInt8.reduceToNat, decide_eq_true_eq] at h
  simp only [UInt8.le_iff_toNat_le, UInt8.reduceToNat]
  omega

theorem hexValue_lt (h : isAsciiHexdigit b = true) : hexValue b < 16 := by
  simp only [isAsciiHexdigit, UInt8.le_iff_toNat_le, UInt8.reduceToNat, decide_eq_true_eq] at h
  simp only [hexValue, UInt8.le_iff_toNat_le, UInt8.reduceToNat]
  split_ifs <;> omega

theorem hexDigit_byte (hb : b < 0x80) :
    hexDigit (Char.ofNat b.toNat) = if isAsciiHexdigit b then some (hexValue b) else none := by
  refine ascii_forall (p := fun b => hexDigit (Char.ofNat b.toNat) =
    if isAsciiHexdigit b then some (hexValue b) else none) ?_ hb
  decide

theorem charOfByte_eq_plus (hb : b < 0x80) : Char.ofNat b.toNat = '+' ↔ b = 43 := by
  refine ascii_forall (p := fun b => Char.ofNat b.toNat = '+' ↔ b = 43) ?_ hb
  decide

/-! ## Two digits -/

/-- The byte of two digits. -/
def hexByte (a b : UInt8) : UInt8 := UInt8.ofNat (16 * hexValue a + hexValue b)

theorem hexDigits_pair (ha : a < 0x80) (hb : b < 0x80) :
    hexDigits 0 [Char.ofNat a.toNat, Char.ofNat b.toNat] =
      if isAsciiHexdigit a && isAsciiHexdigit b then some (hexByte a b) else none := by
  simp only [hexDigits, hexDigit_byte ha, hexDigit_byte hb]
  by_cases hda : isAsciiHexdigit a = true
  · have hva := hexValue_lt hda
    by_cases hdb : isAsciiHexdigit b = true
    · have hvb := hexValue_lt hdb
      simp only [hda, hdb, if_true, Bool.and_self, Option.bind_eq_bind, Option.bind_some, hexByte]
      rw [if_pos (by omega), if_pos (by omega), Nat.zero_mul, Nat.zero_add, Nat.mul_comm]
    · simp only [hda, hdb, if_true, Bool.and_false, Option.bind_eq_bind, Option.bind_some]
      simp
  · simp [hda]

/-- Two characters as a number: two digits, or a plus sign and a digit. -/
def pairValue (a b : UInt8) : Option UInt8 :=
  if isAsciiHexdigit a && isAsciiHexdigit b then some (hexByte a b)
  else if a = 43 && isAsciiHexdigit b then some (UInt8.ofNat (hexValue b))
  else none

theorem fromStrRadix16_pair (ha : a < 0x80) (hb : b < 0x80) :
    fromStrRadix16 [Char.ofNat a.toNat, Char.ofNat b.toNat] = pairValue a b := by
  rw [pairValue]
  by_cases hplus : a = 43
  · subst hplus
    have hnot : isAsciiHexdigit 43 = false := by decide
    have hone : fromStrRadix16 [Char.ofNat (43 : UInt8).toNat, Char.ofNat b.toNat] =
        hexDigits 0 [Char.ofNat b.toNat] := rfl
    rw [hone, hexDigits, hexDigit_byte hb, hnot, Bool.false_and]
    by_cases hdb : isAsciiHexdigit b = true
    · have hvb := hexValue_lt hdb
      simp only [hdb, if_true, decide_true, Bool.and_self, Option.bind_eq_bind, Option.bind_some,
        hexDigits, Nat.zero_mul, Nat.zero_add]
      rw [if_pos (by omega)]
      rfl
    · simp [hdb]
  · have hchar : Char.ofNat a.toNat ≠ '+' := fun h => hplus ((charOfByte_eq_plus ha).1 h)
    have htwo : fromStrRadix16 [Char.ofNat a.toNat, Char.ofNat b.toNat] =
        hexDigits 0 [Char.ofNat a.toNat, Char.ofNat b.toNat] := by
      rw [fromStrRadix16]
      all_goals simp [hchar]
    rw [htwo, hexDigits_pair ha hb]
    simp [hplus]

theorem toNat_of_hexDigit {c : Char} {n : ℕ} (h : hexDigit c = some n) : c.toNat < 128 := by
  have hle {c' : Char} (hc : c ≤ c') (hc' : c'.toNat < 128) : c.toNat < 128 :=
    Nat.lt_of_le_of_lt (UInt32.le_iff_toNat_le.1 (Char.le_def.1 hc)) hc'
  simp only [hexDigit] at h
  split_ifs at h with hdigit hlower hupper
  · exact hle hdigit.2 (by decide)
  · exact hle hlower.2 (by decide)
  · exact hle hupper.2 (by decide)

theorem toNat_of_hexDigits {acc : ℕ} {s : Text} {v : UInt8} (h : hexDigits acc s = some v) :
    ∀ c ∈ s, c.toNat < 128 := by
  induction s generalizing acc with
  | nil =>
    intro c hc
    cases hc
  | cons c s ih =>
    simp only [hexDigits, Option.bind_eq_bind, Option.bind_eq_some_iff] at h
    obtain ⟨d, hd, hrest⟩ := h
    split_ifs at hrest
    intro c' hc'
    rcases List.mem_cons.1 hc' with rfl | hc'
    · exact toNat_of_hexDigit hd
    · exact ih hrest c' hc'

theorem toNat_of_fromStrRadix16 {s : Text} {v : UInt8} (h : fromStrRadix16 s = some v) :
    ∀ c ∈ s, c.toNat < 128 := by
  unfold fromStrRadix16 at h
  split at h
  · cases h
  · cases h
  · cases h
  · intro c hc
    rcases List.mem_cons.1 hc with rfl | hc
    · decide
    · exact toNat_of_hexDigits h c hc
  · exact toNat_of_hexDigits h

/-- **Two bytes as a number.** -/
theorem fromStrRadix16_bytes (a b : UInt8) :
    (fromUtf8 [a, b]).bind fromStrRadix16 = pairValue a b := by
  by_cases hascii : ∀ x ∈ [a, b], x < 0x80
  · rw [fromUtf8_ascii hascii, Option.bind_some]
    exact fromStrRadix16_pair (hascii a (by simp)) (hascii b (by simp))
  · have hnone : pairValue a b = none := by
      by_contra hsome
      refine hascii fun x hx => ?_
      simp only [pairValue, Bool.and_eq_true, decide_eq_true_eq] at hsome
      split_ifs at hsome with htwo hplus
      · rcases List.mem_pair.1 hx with rfl | rfl
        · exact isAsciiHexdigit_ascii htwo.1
        · exact isAsciiHexdigit_ascii htwo.2
      · rcases List.mem_pair.1 hx with rfl | rfl
        · rw [hplus.1]
          decide
        · exact isAsciiHexdigit_ascii hplus.2
      · exact absurd rfl hsome
    rw [hnone, Option.bind_eq_none_iff]
    intro s hs
    by_contra hsome
    obtain ⟨v, hv⟩ := Option.ne_none_iff_exists'.1 hsome
    rw [fromUtf8_eq_some.1 hs] at hascii
    exact hascii (ascii_iff.1 fun c hc => toNat_of_fromStrRadix16 hv c hc)

/-! ## Digits that are written -/

/-- A digit as it is written. -/
def upperDigit (n : ℕ) : UInt8 := UInt8.ofNat (Nat.digitChar n).toUpper.toNat

/-- The digits of a byte. -/
def upperDigits (b : UInt8) : Bytes := [upperDigit (b.toNat / 16), upperDigit (b.toNat % 16)]

theorem upperDigit_spec {n : ℕ} (hn : n < 16) :
    String.utf8EncodeChar (Nat.digitChar n).toUpper = [upperDigit n] ∧
      isAsciiHexdigit (upperDigit n) = true ∧ hexValue (upperDigit n) = n := by
  revert n
  decide

theorem isAsciiHexdigit_upperDigits (b : UInt8) :
    ∀ x ∈ upperDigits b, isAsciiHexdigit x = true := by
  have hb := b.toNat_lt
  intro x hx
  rcases List.mem_pair.1 hx with rfl | rfl
  · exact (upperDigit_spec (by omega)).2.1
  · exact (upperDigit_spec (by omega)).2.1

theorem asBytes_hexByteUpper (b : UInt8) : asBytes (hexByteUpper b).toList = upperDigits b := by
  have hb := b.toNat_lt
  have hhigh := (upperDigit_spec (n := b.toNat / 16) (by omega)).1
  have hlow := (upperDigit_spec (n := b.toNat % 16) (by omega)).1
  have htext : (hexByteUpper b).toList =
      [(Nat.digitChar (b.toNat / 16)).toUpper, (Nat.digitChar (b.toNat % 16)).toUpper] := by
    simp [hexByteUpper, String.toUpper]
  rw [htext, asBytes, List.flatMap_cons, List.flatMap_cons, List.flatMap_nil, hhigh, hlow]
  rfl

theorem hexByte_upperDigits (b : UInt8) :
    hexByte (upperDigit (b.toNat / 16)) (upperDigit (b.toNat % 16)) = b := by
  have hb := b.toNat_lt
  rw [hexByte, (upperDigit_spec (n := b.toNat / 16) (by omega)).2.2,
    (upperDigit_spec (n := b.toNat % 16) (by omega)).2.2, Nat.div_add_mod, UInt8.ofNat_toNat]

/-! ## Pairs of digits -/

/-- The bytes that pairs of digits stand for. -/
def decodePairs : Bytes → Bytes
  | a :: b :: rest => hexByte a b :: decodePairs rest
  | _ => []

theorem decodePairs_length (c : Bytes) : (decodePairs c).length = c.length / 2 := by
  fun_induction decodePairs c with
  | case1 a b rest ih =>
    simp only [List.length_cons, ih]
    omega
  | case2 c hc =>
    rcases c with _ | ⟨a, _ | ⟨b, rest⟩⟩
    · rfl
    · simp
    · exact absurd rfl (hc a b rest)

theorem hexPairs_eq (hc : ∀ b ∈ c, isAsciiHexdigit b = true) :
    hexPairs (c.map fun b => Char.ofNat b.toNat) = decodePairs c := by
  fun_induction decodePairs c with
  | case1 a b rest ih =>
    have ha := hc a (by simp)
    have hb := hc b (by simp)
    simp only [List.map_cons, hexPairs]
    rw [fromStrRadix16_pair (isAsciiHexdigit_ascii ha) (isAsciiHexdigit_ascii hb), pairValue, ha, hb,
      ih fun x hx => hc x (by simp [hx])]
    rfl
  | case2 c hshort =>
    rcases c with _ | ⟨a, _ | ⟨b, rest⟩⟩
    · rfl
    · rfl
    · exact absurd rfl (hshort a b rest)

end SerialMcp
