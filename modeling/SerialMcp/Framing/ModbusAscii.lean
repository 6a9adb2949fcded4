/-
  Modbus ASCII frames (`ModbusAsciiParser`).

  * `lrc_eq_iff`: a checksum matches if all bytes sum to 0;
  * `modbusAsciiParser_hex`, `modbusAsciiParser_raw`: what the parser returns
    for pairs of hexadecimal digits, and for everything else;
  * `modbusAscii_exact`: which frames are read, dropped and left alone, and that
    every change of one byte is noticed.
-/
import SerialMcp.Framing.Decoder
import SerialMcp.Framing.Ascii

namespace SerialMcp

/-! ## Sums -/

/-- The sum of some bytes, modulo 256. -/
def byteSum (bytes : Bytes) : ℕ := (bytes.map UInt8.toNat).sum % 256

theorem foldl_add_toNat (bytes : Bytes) (n : UInt8) :
    (bytes.foldl (· + ·) n).toNat = (n.toNat + (bytes.map UInt8.toNat).sum) % 256 := by
  induction bytes generalizing n with
  | nil => simp [Nat.mod_eq_of_lt n.toNat_lt]
  | cons b bytes ih =>
    rw [List.foldl_cons, ih, List.map_cons, List.sum_cons, UInt8.toNat_add]
    omega

/-- The checksum is the byte that completes the sum to 0. -/
theorem lrc_eq_iff (bytes : Bytes) (r : UInt8) : r = lrc bytes ↔ byteSum (bytes ++ [r]) = 0 := by
  have hsum := foldl_add_toNat bytes 0
  have hr := r.toNat_lt
  rw [lrc, byteSum, ← UInt8.toNat_inj, UInt8.toNat_neg, hsum, List.map_append, List.sum_append]
  simp only [UInt8.toNat_zero, UInt8.size, List.map_cons, List.map_nil, List.sum_cons,
    List.sum_nil]
  omega

theorem byteSum_set {bytes : Bytes} {i : ℕ} {x : UInt8} (hi : i < bytes.length)
    (hx : bytes[i] ≠ x) : byteSum (bytes.set i x) ≠ byteSum bytes := by
  have hsum : (bytes.map UInt8.toNat).sum = ((bytes.take i).map UInt8.toNat).sum +
      (bytes[i].toNat + ((bytes.drop (i + 1)).map UInt8.toNat).sum) := by
    conv_lhs => rw [← List.take_append_drop i bytes, List.drop_eq_getElem_cons hi]
    rw [List.map_append, List.sum_append, List.map_cons, List.sum_cons]
  have hb := bytes[i].toNat_lt
  have hxlt := x.toNat_lt
  have hne : bytes[i].toNat ≠ x.toNat := fun h => hx (UInt8.toNat_inj.1 h)
  rw [byteSum, byteSum, hsum, List.set_eq_take_append_cons_drop, if_pos hi, List.map_append,
    List.sum_append, List.map_cons, List.sum_cons]
  omega

/-! ## Frames -/

/-- A frame without a leading colon and a line ending. -/
def asciiContent (data : Bytes) : Bytes := stripTrailingNewline (stripLeadingIfAny [58] data)

/-- Pairs of hexadecimal digits, three of them or more. -/
structure HexFrame (c : Bytes) : Prop where
  digits : ∀ b ∈ c, isAsciiHexdigit b = true
  even : c.length % 2 = 0
  long : 6 ≤ c.length

section
variable {validate : Bool} {data : Bytes}

theorem HexFrame.not_blank (h : HexFrame (asciiContent data)) : isBlankFrame data = false := by
  obtain ⟨b, hb⟩ : ∃ b, b ∈ asciiContent data :=
    List.exists_mem_of_length_pos (Nat.lt_of_lt_of_le (by decide) h.long)
  have hdigit := h.digits b hb
  simp only [isAsciiHexdigit, UInt8.le_iff_toNat_le, UInt8.reduceToNat, decide_eq_true_eq] at hdigit
  have hmem : b ∈ data := by
    refine (mem_stripped ?_ ?_).1 hb
    all_goals
      simp only [List.mem_cons, List.not_mem_nil, or_false, ← UInt8.toNat_inj, UInt8.reduceToNat]
      omega
  rw [isBlankFrame, List.all_eq_false]
  refine ⟨b, hmem, ?_⟩
  simp only [isAsciiWhitespace, decide_eq_true_eq, ← UInt8.toNat_inj, UInt8.reduceToNat]
  omega

theorem fromUtf8_hexdigits {c : Bytes} (h : ∀ b ∈ c, isAsciiHexdigit b = true) :
    fromUtf8 c = some (c.map fun b => Char.ofNat b.toNat) :=
  fromUtf8_ascii fun b hb => isAsciiHexdigit_ascii (h b hb)

/-- **Pairs of digits** are an address, a function code, data and a checksum, which
    is judged by their sum. -/
theorem modbusAsciiParser_hex (validate : Bool) (h : HexFrame (asciiContent data)) :
    ∃ address functionCode payload received,
      decodePairs (asciiContent data) = address :: functionCode :: payload ++ [received] ∧
      modbusAsciiParser validate data =
        if byteSum (decodePairs (asciiContent data)) = 0 then
          .ok (.modbusAscii address functionCode payload (some true))
        else if validate then
          .error (.checksumMismatch [lrc (address :: functionCode :: payload)] [received])
        else .ok (.modbusAscii address functionCode payload (some false)) := by
  have hlen := decodePairs_length (asciiContent data)
  have hlong := h.long
  have hne : asciiContent data ≠ [] := fun hnil => by
    rw [hnil] at hlong
    cases hlong
  have hdigits : ¬ ((asciiContent data).any fun b => !isAsciiHexdigit b) = true := by
    simpa using h.digits
  obtain ⟨address, functionCode, c, rest, hdecoded⟩ : ∃ address functionCode c rest,
      decodePairs (asciiContent data) = address :: functionCode :: c :: rest := by
    rcases hdecoded : decodePairs (asciiContent data) with _ | ⟨address, _ | ⟨functionCode, _ | ⟨c, rest⟩⟩⟩
    case cons.cons.cons => exact ⟨address, functionCode, c, rest, rfl⟩
    all_goals
      simp only [hdecoded, List.length_cons, List.length_nil] at hlen
      omega
  have hsplit : address :: functionCode :: c :: rest = address :: functionCode ::
      (c :: rest).dropLast ++ [(c :: rest).getLast (List.cons_ne_nil c rest)] := by
    simp only [List.cons_append, List.dropLast_append_getLast]
  have hlrc := lrc_eq_iff (address :: functionCode :: (c :: rest).dropLast)
    ((c :: rest).getLast (List.cons_ne_nil c rest))
  refine ⟨address, functionCode, (c :: rest).dropLast, (c :: rest).getLast (List.cons_ne_nil c rest),
    hdecoded.trans hsplit, ?_⟩
  simp only [modbusAsciiParser]
  rw [← asciiContent, fromUtf8_hexdigits h.digits]
  dsimp only
  rw [if_neg (not_or.2 ⟨hne, hdigits⟩), if_neg (not_not.2 h.even), hexPairs_eq h.digits, hdecoded]
  dsimp only
  rw [← hsplit] at hlrc
  simp only [checkChecksum, Option.some.injEq, hlrc]
  split_ifs <;> rfl

theorem modbusAsciiParser_raw (validate : Bool) (h : ¬ HexFrame (asciiContent data)) :
    modbusAsciiParser validate data = .ok .raw := by
  simp only [modbusAsciiParser]
  rw [← asciiContent]
  split
  · rfl
  · next bodyStr htext =>
    split_ifs with hempty heven
    · rfl
    · rfl
    · have hdigits : ∀ b ∈ asciiContent data, isAsciiHexdigit b = true := by
        simpa using (not_or.1 hempty).2
      have hlen := decodePairs_length (asciiContent data)
      rw [fromUtf8_hexdigits hdigits] at htext
      cases htext
      rw [hexPairs_eq hdigits]
      rcases hdecoded : decodePairs (asciiContent data) with _ | ⟨_, _ | ⟨_, _ | ⟨_, rest⟩⟩⟩
      case cons.cons.cons =>
        simp only [hdecoded, List.length_cons] at hlen
        exact absurd ⟨hdigits, not_not.1 heven, by omega⟩ h
      all_goals rfl

/-! ## The parser in the decoder -/

/-- What the parser makes of a frame, and the decoder of the parser's answer. -/
structure ModbusAsciiExact (validate : Bool) (data : Bytes) : Prop where
  /-- which frames are read -/
  reads : (∃ address functionCode payload valid,
      modbusAsciiParser validate data = .ok (.modbusAscii address functionCode payload valid)) ↔
    HexFrame (asciiContent data) ∧
      (validate = false ∨ byteSum (decodePairs (asciiContent data)) = 0)
  /-- as what they are read -/
  fields : ∀ address functionCode payload valid,
    modbusAsciiParser validate data = .ok (.modbusAscii address functionCode payload valid) →
      (decodePairs (asciiContent data)).dropLast = address :: functionCode :: payload ∧
        (valid = some true ↔ byteSum (decodePairs (asciiContent data)) = 0)
  /-- which frames are dropped, counted once and without an index -/
  drops : validate = true → HexFrame (asciiContent data) →
    byteSum (decodePairs (asciiContent data)) ≠ 0 →
      ∀ skipEmpty frameCount frameType,
        emitFrame skipEmpty (some (modbusAsciiParser validate)) frameCount frameType data =
          ((⟨[], 1⟩, none), frameCount)
  /-- which frames are left alone -/
  others : ¬ HexFrame (asciiContent data) → modbusAsciiParser validate data = .ok .raw

theorem modbusAsciiParser_exact (validate : Bool) (data : Bytes) :
    ModbusAsciiExact validate data := by
  by_cases h : HexFrame (asciiContent data)
  · obtain ⟨address, functionCode, payload, received, hdecoded, hparse⟩ :=
      modbusAsciiParser_hex validate h
    have hdrop : (decodePairs (asciiContent data)).dropLast = address :: functionCode :: payload := by
      rw [hdecoded, List.dropLast_concat]
    by_cases hsum : byteSum (decodePairs (asciiContent data)) = 0
    · rw [if_pos hsum] at hparse
      refine ⟨iff_of_true ⟨_, _, _, _, hparse⟩ ⟨h, .inr hsum⟩, fun a f p v hread => ?_,
        fun _ _ hne => absurd hsum hne, fun hnot => absurd h hnot⟩
      rw [hparse] at hread
      cases hread
      exact ⟨hdrop, iff_of_true rfl hsum⟩
    · rw [if_neg hsum] at hparse
      cases validate with
      | false =>
        refine ⟨iff_of_true ⟨_, _, _, _, hparse⟩ ⟨h, .inl rfl⟩, fun a f p v hread => ?_,
          fun hvalidate => absurd hvalidate Bool.false_ne_true, fun hnot => absurd h hnot⟩
        rw [hparse] at hread
        cases hread
        exact ⟨hdrop, iff_of_false (by simp) hsum⟩
      | true =>
        refine ⟨iff_of_false ?_ ?_, fun a f p v hread => ?_, fun _ _ _ skipEmpty frameCount ft => ?_,
          fun hnot => absurd h hnot⟩
        · rintro ⟨a, f, p, v, hread⟩
          rw [hparse] at hread
          cases hread
        · rintro ⟨-, hfalse | hzero⟩
          · cases hfalse
          · exact hsum hzero
        · rw [hparse] at hread
          cases hread
        · simp only [emitFrame, h.not_blank, Bool.and_false, Option.map_some, hparse]
          rfl
  · have hparse := modbusAsciiParser_raw validate h
    refine ⟨iff_of_false ?_ fun hread => h hread.1, fun a f p v hread => ?_,
      fun _ hhex => absurd hhex h, fun _ => hparse⟩
    · rintro ⟨a, f, p, v, hread⟩
      rw [hparse] at hread
      cases hread
    · rw [hparse] at hread
      cases hread

/-- A frame of the same number of digits, in which one byte is another one. -/
structure Altered (data data' : Bytes) (i : ℕ) : Prop where
  hex : HexFrame (asciiContent data')
  inside : i < (decodePairs (asciiContent data)).length
  other : ∃ x, (decodePairs (asciiContent data))[i] ≠ x ∧
    decodePairs (asciiContent data') = (decodePairs (asciiContent data)).set i x

/-- **Reading is exact**, and one byte that is another one is noticed: a frame
    that is valid is no longer so, and is dropped if it is validated. -/
theorem modbusAscii_exact (validate : Bool) (data : Bytes) :
    ModbusAsciiExact validate data ∧
      ∀ data' i, HexFrame (asciiContent data) → byteSum (decodePairs (asciiContent data)) = 0 →
        Altered data data' i →
        (∀ skipEmpty frameCount frameType,
          emitFrame skipEmpty (some (modbusAsciiParser true)) frameCount frameType data' =
            ((⟨[], 1⟩, none), frameCount)) ∧
        ∃ address functionCode payload, modbusAsciiParser false data' =
          .ok (.modbusAscii address functionCode payload (some false)) := by
  refine ⟨modbusAsciiParser_exact validate data, fun data' i _ hsum haltered => ?_⟩
  obtain ⟨hhex, hi, x, hx, hset⟩ := haltered
  have hne : byteSum (decodePairs (asciiContent data')) ≠ 0 := by
    rw [hset, ← hsum]
    exact byteSum_set hi hx
  refine ⟨(modbusAsciiParser_exact true data').drops rfl hhex hne, ?_⟩
  obtain ⟨address, functionCode, payload, received, -, hparse⟩ := modbusAsciiParser_hex false hhex
  rw [if_neg hne] at hparse
  exact ⟨address, functionCode, payload, hparse⟩

end

end SerialMcp
