/-
  NMEA sentences (`NmeaParser`, and what the encoder makes of a payload).

  * `nmeaParser_starred`: the verdict on a sentence is the comparison of its
    body, up to the first `*`, with the two characters behind the `*`;
  * `nmea_sound_iff`: a sentence that is found valid ends in `*` and its checksum,
    unless something else behind the `*` is read as the checksum;
  * `nmea_roundTrip_iff`: which payloads the preset accepts after it has sent them.
-/
import SerialMcp.Framing.Ascii
import SerialMcp.Framing.Markers
import SerialMcp.Framing.Presets

namespace SerialMcp

/-! ## The verdict -/

/-- A frame without a leading `$` or `!` and a line ending. -/
def nmeaContent (data : Bytes) : Bytes := stripTrailingNewline (stripLeadingIfAny [36, 33] data)

/-- The checksum that the text behind `*` states: its first two characters. -/
def statedChecksum : Bytes → Option UInt8
  | a :: b :: _ => pairValue a b
  | _ => none

section
variable {validate : Bool} {data body hex : Bytes} {valid : Option Bool}

theorem nmeaChecksum_some (validate : Bool) (body hex : Bytes) :
    ∃ raw, nmeaChecksum validate body (some hex) =
      if statedChecksum hex = some (xorChecksum body) then .ok (some true)
      else if validate then .error (.checksumMismatch [xorChecksum body] raw)
      else .ok (some false) := by
  have hstated : (if 2 ≤ hex.length then (fromUtf8 (hex.take 2)).bind fromStrRadix16 else none) =
      statedChecksum hex := by
    rcases hex with _ | ⟨a, _ | ⟨b, rest⟩⟩
    · rfl
    · rfl
    · rw [if_pos (by simp), statedChecksum, ← fromStrRadix16_bytes]
      rfl
  rw [nmeaChecksum, hstated]
  exact ⟨_, rfl⟩

theorem nmeaBody_ascii (h : ∀ b ∈ body, b < 0x80) :
    ∃ talkerId sentenceType fields, ∀ valid,
      nmeaBody body valid = .nmea talkerId sentenceType fields valid := by
  have htext := fromUtf8_ascii h
  have hascii := ascii_iff.2 (fromUtf8_eq_some.1 htext ▸ h)
  have hbody : ∀ valid, nmeaBody body valid =
      nmeaSentence (body.map fun b => Char.ofNat b.toNat) valid := by
    intro valid
    rw [nmeaBody, htext]
    exact if_pos (by simpa using hascii)
  exact ⟨_, _, _, fun valid => (hbody valid).trans rfl⟩

theorem nmeaBody_raw (h : ¬ ∀ b ∈ body, b < 0x80) (valid : Option Bool) :
    nmeaBody body valid = .raw := by
  rw [nmeaBody]
  split
  · rfl
  · next s hs =>
    refine if_neg fun hall => h ?_
    rw [fromUtf8_eq_some.1 hs]
    exact ascii_iff.1 (by simpa using hall)

theorem findIdx?_star (hbody : 42 ∉ body) :
    (body ++ 42 :: hex).findIdx? (· = 42) = some body.length := by
  have hnone : body.findIdx? (· = 42) = none := by
    rw [List.findIdx?_eq_none_iff]
    intro b hb
    simpa using fun h : b = 42 => hbody (h ▸ hb)
  rw [List.findIdx?_append, hnone, List.findIdx?_cons]
  simp

/-- **The verdict** is on the body up to the first `*`. -/
theorem nmeaParser_starred (validate : Bool) (hcomma : 44 ∈ nmeaContent data)
    (hcontent : nmeaContent data = body ++ 42 :: hex) (hbody : 42 ∉ body) :
    nmeaParser validate data = (nmeaChecksum validate body (some hex)).map (nmeaBody body) := by
  simp only [nmeaParser]
  rw [← nmeaContent, if_neg (not_not.2 hcomma), hcontent, findIdx?_star hbody]
  simp

theorem nmeaParser_unstarred (validate : Bool) (hcomma : 44 ∈ nmeaContent data)
    (hstar : 42 ∉ nmeaContent data) :
    nmeaParser validate data = .ok (nmeaBody (nmeaContent data) none) := by
  have hnone : (nmeaContent data).findIdx? (· = 42) = none := by
    rw [List.findIdx?_eq_none_iff]
    intro b hb
    simpa using fun h : b = 42 => hstar (h ▸ hb)
  simp only [nmeaParser]
  rw [← nmeaContent, if_neg (not_not.2 hcomma), hnone]
  rfl

theorem split_star {c : Bytes} (h : 42 ∈ c) : ∃ body hex, c = body ++ 42 :: hex ∧ 42 ∉ body := by
  obtain ⟨body, hex, hc, hbody⟩ := List.eq_append_cons_of_mem h
  exact ⟨body, hex, hc, hbody⟩

theorem split_star_unique {body' hex' : Bytes} (h : body ++ 42 :: hex = body' ++ 42 :: hex')
    (hbody : 42 ∉ body) (hbody' : 42 ∉ body') : body = body' ∧ hex = hex' := by
  have hpos := congrArg (List.findIdx? (· = 42)) h
  rw [findIdx?_star hbody, findIdx?_star hbody', Option.some.injEq] at hpos
  obtain ⟨rfl, htail⟩ := List.append_inj h hpos
  exact ⟨rfl, (List.cons.inj htail).2⟩

/-! ## Sound verdicts -/

/-- A body, `*`, and two digits that are its checksum. -/
def Sentence (c : Bytes) : Prop :=
  ∃ body a b, c = body ++ [42, a, b] ∧ 42 ∉ body ∧ isAsciiHexdigit a = true ∧
    isAsciiHexdigit b = true ∧ hexByte a b = xorChecksum body

/-- The verdicts on a frame: only sentences are valid, and what is none is dropped
    if it is validated, counted once and without an index. -/
structure NmeaSound (validate : Bool) (data : Bytes) : Prop where
  sound : ∀ talkerId sentenceType fields,
    nmeaParser validate data = .ok (.nmea talkerId sentenceType fields (some true)) →
      Sentence (nmeaContent data)
  drops : validate = true → 44 ∈ data → 42 ∈ data → ¬ Sentence (nmeaContent data) →
    ∀ skipEmpty frameCount frameType,
      emitFrame skipEmpty (some (nmeaParser validate)) frameCount frameType data =
        ((⟨[], 1⟩, none), frameCount)

/-- Two hexadecimal digits and nothing else. -/
def TwoDigits (hex : Bytes) : Prop := hex.length = 2 ∧ ∀ b ∈ hex, isAsciiHexdigit b = true

/-- What is behind the first `*` is not two digits, but its first two characters
    are read as the checksum; the body is one that the parser looks at. -/
def Loose (validate : Bool) (c : Bytes) : Prop :=
  ∃ body hex, c = body ++ 42 :: hex ∧ 42 ∉ body ∧ ¬ TwoDigits hex ∧
    statedChecksum hex = some (xorChecksum body) ∧ (validate = true ∨ ∀ b ∈ body, b < 0x80)

theorem statedChecksum_twoDigits {v : UInt8} (h : TwoDigits hex)
    (hstated : statedChecksum hex = some v) :
    ∃ a b, hex = [a, b] ∧ isAsciiHexdigit a = true ∧ isAsciiHexdigit b = true ∧ hexByte a b = v := by
  obtain ⟨hlen, hdigits⟩ := h
  obtain ⟨a, b, rfl⟩ := List.length_eq_two.1 hlen
  have ha := hdigits a (by simp)
  have hb := hdigits b (by simp)
  refine ⟨a, b, rfl, ha, hb, ?_⟩
  simpa [statedChecksum, pairValue, ha, hb] using hstated

theorem sentence_iff (hbody : 42 ∉ body) :
    Sentence (body ++ 42 :: hex) ↔ TwoDigits hex ∧ statedChecksum hex = some (xorChecksum body) := by
  constructor
  · rintro ⟨body', a, b, hc, hbody', ha, hb, hvalue⟩
    obtain ⟨rfl, rfl⟩ := split_star_unique hc hbody hbody'
    refine ⟨⟨rfl, by simp [ha, hb]⟩, ?_⟩
    simp [statedChecksum, pairValue, ha, hb, hvalue]
  · rintro ⟨htwo, hstated⟩
    obtain ⟨a, b, rfl, ha, hb, hvalue⟩ := statedChecksum_twoDigits htwo hstated
    exact ⟨body, a, b, rfl, hbody, ha, hb, hvalue⟩

/-- The parser, the decoder and a sentence that is loose or not. -/
theorem nmeaParser_verdict (validate : Bool) (hcomma : 44 ∈ nmeaContent data)
    (hcontent : nmeaContent data = body ++ 42 :: hex) (hbody : 42 ∉ body) :
    (statedChecksum hex = some (xorChecksum body) ∧
      nmeaParser validate data = .ok (nmeaBody body (some true))) ∨
    (statedChecksum hex ≠ some (xorChecksum body) ∧ validate = true ∧
      ∃ raw, nmeaParser validate data = .error (.checksumMismatch [xorChecksum body] raw)) ∨
    (statedChecksum hex ≠ some (xorChecksum body) ∧ validate = false ∧
      nmeaParser validate data = .ok (nmeaBody body (some false))) := by
  rw [nmeaParser_starred validate hcomma hcontent hbody]
  obtain ⟨raw, hchecksum⟩ := nmeaChecksum_some validate body hex
  rw [hchecksum]
  by_cases hstated : statedChecksum hex = some (xorChecksum body)
  · rw [if_pos hstated]
    exact .inl ⟨hstated, rfl⟩
  · rw [if_neg hstated]
    cases validate with
    | true => exact .inr (.inl ⟨hstated, rfl, raw, rfl⟩)
    | false => exact .inr (.inr ⟨hstated, rfl, rfl⟩)

theorem nmeaBody_valid {talkerId sentenceType : String} {fields : List String} {v : Option Bool}
    (h : nmeaBody body valid = .nmea talkerId sentenceType fields v) :
    v = valid ∧ ∀ b ∈ body, b < 0x80 := by
  by_cases hascii : ∀ b ∈ body, b < 0x80
  · obtain ⟨t, s, f, hbody⟩ := nmeaBody_ascii hascii
    rw [hbody] at h
    cases h
    exact ⟨rfl, hascii⟩
  · rw [nmeaBody_raw hascii] at h
    cases h

theorem mem_nmeaContent {b : UInt8} (hb : b ∉ ([36, 33, 13, 10] : Bytes)) :
    b ∈ nmeaContent data ↔ b ∈ data := by
  simp only [List.mem_cons, List.not_mem_nil, not_or] at hb
  exact mem_stripped (by simp [hb]) (by simp [hb])

/-- A loose frame is returned as a valid sentence, or left as it is. -/
theorem Loose.not_sound (hdata : 44 ∈ data) (h : Loose validate (nmeaContent data)) :
    ¬ NmeaSound validate data := by
  rintro ⟨hsound, hdrops⟩
  obtain ⟨body, hex, hcontent, hbody, hlong, hstated, hlooked⟩ := h
  have hno : ¬ Sentence (nmeaContent data) := by
    rw [hcontent, sentence_iff hbody]
    exact fun h => hlong h.1
  have hcomma : 44 ∈ nmeaContent data := (mem_nmeaContent (by decide)).2 hdata
  have hparse : nmeaParser validate data = .ok (nmeaBody body (some true)) := by
    rcases nmeaParser_verdict validate hcomma hcontent hbody with
      ⟨-, hparse⟩ | ⟨hne, -⟩ | ⟨hne, -⟩
    · exact hparse
    · exact absurd hstated hne
    · exact absurd hstated hne
  by_cases hascii : ∀ b ∈ body, b < 0x80
  · obtain ⟨t, s, f, hsentence⟩ := nmeaBody_ascii hascii
    rw [hsentence] at hparse
    exact hno (hsound t s f hparse)
  · have hvalidate := hlooked.resolve_right hascii
    have hstar : 42 ∈ data := (mem_nmeaContent (by decide)).1 (by simp [hcontent])
    have hdropped := hdrops hvalidate hdata hstar hno false 0 .line
    rw [emitFrame, Bool.false_and] at hdropped
    simp [hparse] at hdropped

/-- **Verdicts are sound exactly for the frames that are not loose**: what is read
    as the checksum is all that is behind the `*`. -/
theorem nmea_sound_iff (validate : Bool) (data : Bytes) :
    NmeaSound validate data ↔ ¬ (44 ∈ data ∧ Loose validate (nmeaContent data)) := by
  have hcomma : 44 ∈ nmeaContent data ↔ 44 ∈ data := mem_nmeaContent (by decide)
  have hstar : 42 ∈ nmeaContent data ↔ 42 ∈ data := mem_nmeaContent (by decide)
  constructor
  · exact fun hsound hloose => hloose.2.not_sound hloose.1 hsound
  · intro hloose
    refine ⟨fun t s f hread => ?_, fun hvalidate hdata hmem hno skipEmpty frameCount ft => ?_⟩
    · by_cases hdata : 44 ∈ nmeaContent data
      · by_cases hmem : 42 ∈ nmeaContent data
        · obtain ⟨body, hex, hcontent, hbody⟩ := split_star hmem
          rcases nmeaParser_verdict validate hdata hcontent hbody with
            ⟨hstated, hparse⟩ | ⟨-, -, raw, hparse⟩ | ⟨-, -, hparse⟩
          · rw [hparse, Except.ok.injEq] at hread
            obtain ⟨-, hascii⟩ := nmeaBody_valid hread
            rw [hcontent, sentence_iff hbody]
            refine ⟨?_, hstated⟩
            by_contra hlong
            exact hloose ⟨hcomma.1 hdata, body, hex, hcontent, hbody, hlong, hstated, .inr hascii⟩
          · rw [hparse] at hread
            cases hread
          · rw [hparse, Except.ok.injEq] at hread
            cases (nmeaBody_valid hread).1
        · rw [nmeaParser_unstarred validate hdata hmem, Except.ok.injEq] at hread
          cases (nmeaBody_valid hread).1
      · simp only [nmeaParser] at hread
        rw [← nmeaContent, if_pos hdata] at hread
        cases hread
    · obtain ⟨body, hex, hcontent, hbody⟩ := split_star (hstar.2 hmem)
      have hblank : isBlankFrame data = false := by
        rw [isBlankFrame, List.all_eq_false]
        exact ⟨44, hdata, by decide⟩
      rcases nmeaParser_verdict validate (hcomma.2 hdata) hcontent hbody with
        ⟨hstated, -⟩ | ⟨-, -, raw, hparse⟩ | ⟨-, hfalse, -⟩
      · refine absurd ⟨hdata, body, hex, hcontent, hbody, fun htwo => hno ?_, hstated, .inl hvalidate⟩
          hloose
        rw [hcontent, sentence_iff hbody]
        exact ⟨htwo, hstated⟩
      · simp only [emitFrame, hblank, Bool.and_false, Option.map_some, hparse]
        rfl
      · rw [hfalse] at hvalidate
        cases hvalidate

/-- Text behind the checksum, and a checksum with a sign: `A,*6Dz` and `-,*+1`. -/
theorem nmea_not_sound :
    ¬ NmeaSound true [65, 44, 42, 54, 68, 122] ∧ ¬ NmeaSound true [45, 44, 42, 43, 49] := by
  have htail : Loose true (nmeaContent [65, 44, 42, 54, 68, 122]) :=
    ⟨[65, 44], [54, 68, 122], rfl, by decide, fun h => absurd h.1 (by decide), by decide, .inl rfl⟩
  have hsign : Loose true (nmeaContent [45, 44, 42, 43, 49]) :=
    ⟨[45, 44], [43, 49], rfl, by decide, fun h => absurd h.2 (by decide), by decide, .inl rfl⟩
  exact ⟨htail.not_sound (by decide), hsign.not_sound (by decide)⟩

/-! ## What is sent -/

/-- A text whose first `*` is followed by the checksum of what is before. -/
def Stated (c : Bytes) : Prop :=
  ∃ body hex, c = body ++ 42 :: hex ∧ 42 ∉ body ∧ statedChecksum hex = some (xorChecksum body)

/-- A payload as the parser sees it: without its start character, and without
    another one behind that. -/
def reread (payload : Bytes) : Bytes :=
  stripLeadingIfAny [36, 33] (stripLeadingIfAny [36, 33] payload)

/-- What the preset sends of a payload is accepted: the payload has no `*` and no
    second start character, or its first `*` is followed by the checksum of what
    is before. -/
def Acceptable (payload : Bytes) : Prop :=
  (42 ∉ reread payload ∧ reread payload = stripLeadingIfAny [36, 33] payload) ∨
    Stated (reread payload)

theorem stated_iff (hbody : 42 ∉ body) :
    Stated (body ++ 42 :: hex) ↔ statedChecksum hex = some (xorChecksum body) := by
  constructor
  · rintro ⟨body', hex', hc, hbody', hstated⟩
    obtain ⟨rfl, rfl⟩ := split_star_unique hc hbody hbody'
    exact hstated
  · exact fun hstated => ⟨body, hex, rfl, hbody, hstated⟩

theorem stripLeadingIfAny_append {markers c : Bytes} (hc : c ≠ []) (t : Bytes) :
    stripLeadingIfAny markers (c ++ t) = stripLeadingIfAny markers c ++ t := by
  rcases c with _ | ⟨b, c⟩
  · exact absurd rfl hc
  · rw [List.cons_append, stripLeadingIfAny, stripLeadingIfAny]
    split_ifs
    · rfl
    · rfl

/-- What is behind the `*` is read as before if a checksum is added to it. -/
theorem statedChecksum_append (r digits : Bytes) :
    statedChecksum (r ++ 42 :: digits) = statedChecksum r := by
  have hnot : isAsciiHexdigit 42 = false := by decide
  rcases r with _ | ⟨a, _ | ⟨b, r⟩⟩
  · rcases digits with _ | ⟨b, digits⟩
    · rfl
    · simp [statedChecksum, pairValue, hnot]
  · simp [statedChecksum, pairValue, hnot]
  · rfl

theorem statedChecksum_upperDigits (v : UInt8) : statedChecksum (upperDigits v) = some v := by
  have hdigits := isAsciiHexdigit_upperDigits v
  rw [upperDigits, statedChecksum, pairValue, hdigits _ (by simp [upperDigits]),
    hdigits _ (by simp [upperDigits]), Bool.and_self, if_pos rfl, hexByte_upperDigits]

/-- **A checksum that is added** counts only if there is no `*` before it. -/
theorem stated_append (c : Bytes) (v : UInt8) :
    Stated (c ++ 42 :: upperDigits v) ↔ (42 ∉ c ∧ v = xorChecksum c) ∨ Stated c := by
  by_cases hc : 42 ∈ c
  · obtain ⟨body, r, rfl, hbody⟩ := split_star hc
    rw [List.append_assoc, List.cons_append, stated_iff hbody, stated_iff hbody,
      statedChecksum_append]
    simp [hc]
  · have hno : ¬ Stated c := by
      rintro ⟨body, hex, rfl, -⟩
      simp at hc
    rw [stated_iff hc, statedChecksum_upperDigits, Option.some.injEq]
    simp [hc, hno]

theorem xorChecksum_cons (b : UInt8) (bytes : Bytes) :
    xorChecksum (b :: bytes) = b ^^^ xorChecksum bytes := by
  have hfold (n : UInt8) : bytes.foldl (· ^^^ ·) n = n ^^^ bytes.foldl (· ^^^ ·) 0 := by
    induction bytes generalizing n with
    | nil => simp
    | cons c bytes ih =>
      rw [List.foldl_cons, ih, List.foldl_cons, ih (0 ^^^ c), UInt8.zero_xor, UInt8.xor_assoc]
  rw [xorChecksum, List.foldl_cons, hfold, UInt8.zero_xor]
  rfl

theorem xorChecksum_stripped (c : Bytes) :
    xorChecksum c = xorChecksum (stripLeadingIfAny [36, 33] c) ↔
      stripLeadingIfAny [36, 33] c = c := by
  rcases stripLeadingIfAny_cases [36, 33] c with ⟨m, hm, hc⟩ | hc
  · refine iff_of_false (fun hsum => ?_) fun heq => ?_
    · have hmarker : m = 0 := by
        rw [hc, xorChecksum_cons, stripLeadingIfAny, if_pos hm] at hsum
        have hxor := congrArg (· ^^^ xorChecksum (stripLeadingIfAny [36, 33] c)) hsum
        simpa [UInt8.xor_assoc] using hxor
      subst hmarker
      exact absurd hm (by decide)
    · have hlen := congrArg List.length hc
      rw [heq, List.length_cons] at hlen
      omega
  · exact iff_of_true (congrArg xorChecksum hc) hc.symm

theorem existingChecksum_eq_some {v : UInt8} (h : existingChecksum body = .ok (some v)) :
    42 ∈ body := by
  simp only [existingChecksum] at h
  split at h
  · next hends =>
    exact List.mem_of_mem_drop (List.mem_of_mem_head? hends.2.1)
  · cases h

/-- The bytes that are sent for a payload: a start character, the text with its
    checksum, and CRLF. -/
theorem encodeNmea_eq_ok {payload bytes : Bytes} (h : encodeNmea payload = .ok bytes) :
    (∀ b ∈ payload, 0x20 ≤ b ∧ b ≤ 0x7E) ∧ ∃ lead text, (lead = 36 ∨ lead = 33) ∧
      bytes = lead :: text ++ [13, 10] ∧
      ((text = stripLeadingIfAny [36, 33] payload ∧ 42 ∈ text) ∨
        text = stripLeadingIfAny [36, 33] payload ++
          42 :: upperDigits (xorChecksum (stripLeadingIfAny [36, 33] payload))) := by
  have hbody : (if payload.head? = some 36 ∨ payload.head? = some 33 then payload.tail else payload) =
      stripLeadingIfAny [36, 33] payload := by
    rcases payload with _ | ⟨b, rest⟩
    · rfl
    · simp [stripLeadingIfAny]
  have hlead : (if payload.head? = some 36 ∨ payload.head? = some 33 then payload.headD 36
      else 36) = 36 ∨ (if payload.head? = some 36 ∨ payload.head? = some 33 then payload.headD 36
      else 36) = 33 := by
    rcases payload with _ | ⟨b, rest⟩
    · exact .inl rfl
    · split_ifs with hb
      · simpa using hb
      · exact .inl rfl
  unfold encodeNmea at h
  split_ifs at h with hnl hprint
  dsimp only at h
  rw [hbody] at h
  generalize (if payload.head? = some 36 ∨ payload.head? = some 33 then payload.headD 36
    else 36) = lead at h hlead
  refine ⟨by simpa using hprint, ?_⟩
  rcases hchecksum : existingChecksum (stripLeadingIfAny [36, 33] payload) with e | _ | received
  · rw [hchecksum] at h
    cases h
  · rw [hchecksum] at h
    cases h
    refine ⟨lead, _, hlead, ?_, .inr rfl⟩
    rw [asBytes_hexByteUpper, List.cons_append]
  · rw [hchecksum] at h
    simp only [bind, Except.bind] at h
    split_ifs at h
    cases h
    exact ⟨lead, _, hlead, rfl, .inl ⟨rfl, existingChecksum_eq_some hchecksum⟩⟩

/-- The text between the start character and CRLF. -/
structure SentText (payload text : Bytes) : Prop where
  comma : 44 ∈ nmeaContent text
  star : 42 ∈ nmeaContent text
  printable : ∀ b ∈ text, 0x20 ≤ b ∧ b ≤ 0x7E
  stated : Stated (nmeaContent text) ↔ Acceptable payload

theorem nmeaContent_printable (h : ∀ b ∈ data, 0x20 ≤ b ∧ b ≤ 0x7E) :
    nmeaContent data = stripLeadingIfAny [36, 33] data := by
  refine stripTrailingNewline_of_getLast fun hlast => ?_
  have hmem := stripLeadingIfAny_subset _ _ (List.mem_of_getLast? hlast)
  exact absurd (h 10 hmem) (by decide)

theorem encodeNmea_text {payload bytes : Bytes} (hcomma : 44 ∈ payload)
    (h : encodeNmea payload = .ok bytes) : ∃ lead text, (lead = 36 ∨ lead = 33) ∧
      bytes = lead :: text ++ [13, 10] ∧ SentText payload text := by
  obtain ⟨hpayload, lead, text, hlead, hbytes, htext⟩ := encodeNmea_eq_ok h
  refine ⟨lead, text, hlead, hbytes, ?_⟩
  set body := stripLeadingIfAny [36, 33] payload with hbody
  have hbodyComma : 44 ∈ body := (mem_stripLeadingIfAny (by decide)).2 hcomma
  have hcommaRead : 44 ∈ reread payload := (mem_stripLeadingIfAny (by decide)).2 hbodyComma
  have hprintable : ∀ b ∈ body, 0x20 ≤ b ∧ b ≤ 0x7E := fun b hb =>
    hpayload b (stripLeadingIfAny_subset _ _ hb)
  rcases htext with ⟨rfl, hstar⟩ | rfl
  · -- the checksum was there
    have hcontent : nmeaContent body = reread payload := nmeaContent_printable hprintable
    have hstarRead : 42 ∈ reread payload := (mem_stripLeadingIfAny (by decide)).2 hstar
    refine ⟨hcontent ▸ hcommaRead, hcontent ▸ hstarRead, hprintable, ?_⟩
    rw [hcontent, Acceptable, or_iff_right fun hno => hno.1 hstarRead]
  · -- the checksum is added
    have hsent : ∀ b ∈ body ++ 42 :: upperDigits (xorChecksum body), 0x20 ≤ b ∧ b ≤ 0x7E := by
      intro b hb
      rcases List.mem_append.1 hb with hb | hb
      · exact hprintable b hb
      · rcases List.mem_cons.1 hb with rfl | hb
        · decide
        · exact isAsciiHexdigit_printable (isAsciiHexdigit_upperDigits _ b hb)
    have hcontent : nmeaContent (body ++ 42 :: upperDigits (xorChecksum body)) =
        reread payload ++ 42 :: upperDigits (xorChecksum body) := by
      rw [nmeaContent_printable hsent, stripLeadingIfAny_append (List.ne_nil_of_mem hbodyComma)]
      rfl
    refine ⟨by simp [hcontent, hcommaRead], by simp [hcontent], hsent, ?_⟩
    rw [hcontent, stated_append, Acceptable, reread, xorChecksum_stripped]

/-! ## The round trip -/

open Incremental FrameDecoder

/-- The markers `$` and `!`. -/
def nmeaStarts : List Marker := [⟨[36], by decide⟩, ⟨[33], by decide⟩]

/-- The mode of the preset. -/
def nmeaMode : DecoderMode := .startEnd nmeaStarts ⟨[13, 10], by decide⟩ false false

/-- The decoder of the preset. -/
def nmeaDecoder : FrameDecoder := ⟨[], nmeaMode, 0, false, false, some (nmeaParser true)⟩

theorem new_nmea (crates : Crates) :
    new crates (presetRxFraming .nmea0183) (some (presetRxParser .nmea0183)) = .ok nmeaDecoder :=
  rfl

theorem bestStart_nmea {lead : UInt8} (hlead : lead = 36 ∨ lead = 33) (rest : Bytes) :
    bestStart nmeaStarts (lead :: rest) = some (0, 1) := by
  rw [bestStart_eq_some]
  rcases hlead with rfl | rfl
  · refine ⟨⟨[36], by decide⟩, ⟨⟨[], _, rfl, ?_⟩, by simp, ?_⟩, rfl⟩
    · simp
    · simp
  · refine ⟨⟨[33], by decide⟩, ⟨⟨[⟨[36], by decide⟩], [], rfl, ?_⟩, by simp, ?_⟩, rfl⟩
    · simp [List.cons_prefix_cons]
    · simp

theorem findSubsequence_crlf {text : Bytes} (h : 13 ∉ text) :
    findSubsequence (text ++ [13, 10]) [13, 10] = some text.length := by
  refine (findSubsequence_eq_some (by simp)).2 ⟨by simp, fun j hj hpre => ?_⟩
  rw [List.drop_append_of_le_length (Nat.le_of_lt hj), List.drop_eq_getElem_cons hj,
    List.cons_append, List.cons_prefix_cons] at hpre
  exact h (hpre.1 ▸ List.getElem_mem hj)

theorem extract_nmea {lead : UInt8} {text : Bytes} (hlead : lead = 36 ∨ lead = 33)
    (htext : 13 ∉ text) :
    extract false nmeaMode (lead :: (text ++ [13, 10])) = (some text, nmeaMode, []) := by
  simp only [extract, nmeaMode, extractStartEnd, enterFrame, Bool.false_eq_true, if_false,
    bestStart_nmea hlead, Option.map_some, List.drop_zero, List.drop_succ_cons,
    findSubsequence_crlf htext]
  simp

/-- The sentence is emitted, however it is cut. -/
theorem pushAll_sentence {lead : UInt8} {text : Bytes} (hlead : lead = 36 ∨ lead = 33)
    (htext : 13 ∉ text) {cs : List Bytes} (hcs : cs.flatten = lead :: text ++ [13, 10]) :
    (decoder.pushAll nmeaDecoder cs).1 =
        (emitFrame false (some (nmeaParser true)) 0 .startEnd text).1.1 ∧
      (decoder.pushAll nmeaDecoder cs).2.1 = [] := by
  have hfatal : nmeaDecoder.NoFatal := new_noFatal (new_nmea .refusing)
  have hapart : KeptApart nmeaStarts false := by decide
  have hone : decoder.pushAll nmeaDecoder cs =
      decoder.pushAll nmeaDecoder [lead :: (text ++ [13, 10])] :=
    startEnd_pushAll_congr hapart rfl rfl hfatal (by simpa using hcs)
  have hok : (emitFrame false (some (nmeaParser true)) 0 .startEnd text).1.2 = none :=
    emitFrame_ok hfatal
  rcases hemit : emitFrame false (some (nmeaParser true)) 0 .startEnd text with ⟨⟨o, x⟩, n⟩
  rw [hemit] at hok
  obtain rfl : x = none := hok
  have hnext : (nmeaDecoder.feed (lead :: (text ++ [13, 10]))).next =
      (some (o, none), { nmeaDecoder with frameCount := n }) := by
    show (nmeaDecoder.feed (lead :: (text ++ [13, 10]))).nextFrame = _
    simp only [nextFrame, feed, nmeaDecoder, List.nil_append, extract_nmea hlead htext]
    rw [show nmeaMode.frameType = .startEnd from rfl, hemit]
  have hrest : decoder.settle { nmeaDecoder with frameCount := n } =
      (1, none, { nmeaDecoder with frameCount := n }) := rfl
  have hsettle : decoder.settle (nmeaDecoder.feed (lead :: (text ++ [13, 10]))) =
      (o * 1, none, { nmeaDecoder with frameCount := n }) := by
    rw [settle_event hnext, hrest]
  rw [hone, Decoder.pushAll, show decoder.feed nmeaDecoder (lead :: (text ++ [13, 10])) =
    nmeaDecoder.feed (lead :: (text ++ [13, 10])) from rfl, hsettle]
  simp [Decoder.pushAll]

/-- What the decoder makes of the chunks: one valid sentence and no drop. -/
def Accepts (d : FrameDecoder) (cs : List Bytes) : Prop :=
  ∃ f talkerId sentenceType fields, (decoder.pushAll d cs).1 = ⟨[f], 0⟩ ∧
    (decoder.pushAll d cs).2.1 = [] ∧
    f.parsed = some (.nmea talkerId sentenceType fields (some true))

theorem accepts_iff {payload text : Bytes} {lead : UInt8} (hlead : lead = 36 ∨ lead = 33)
    (htext : SentText payload text) {cs : List Bytes} (hcs : cs.flatten = lead :: text ++ [13, 10]) :
    Accepts nmeaDecoder cs ↔ Acceptable payload := by
  have hcr : 13 ∉ text := fun h => absurd (htext.printable 13 h) (by decide)
  obtain ⟨hout, herrors⟩ := pushAll_sentence hlead hcr hcs
  obtain ⟨body, hex, hcontent, hbody⟩ := split_star htext.star
  have hascii : ∀ b ∈ body, b < 0x80 := by
    intro b hb
    have hmem : b ∈ nmeaContent text := hcontent ▸ List.mem_append_left _ hb
    rw [nmeaContent_printable htext.printable] at hmem
    have hle := (htext.printable b (stripLeadingIfAny_subset _ _ hmem)).2
    rw [UInt8.le_iff_toNat_le] at hle
    exact UInt8.lt_iff_toNat_lt.2 (Nat.lt_of_le_of_lt hle (by decide))
  rw [← htext.stated, hcontent, stated_iff hbody, Accepts, hout, herrors]
  rcases nmeaParser_verdict true htext.comma hcontent hbody with
    ⟨hstated, hparse⟩ | ⟨hne, -, raw, hparse⟩ | ⟨-, hfalse, -⟩
  · obtain ⟨t, s, f, hsentence⟩ := nmeaBody_ascii hascii
    refine iff_of_true ⟨⟨text, 0, .startEnd, some (.nmea t s f (some true))⟩, t, s, f, ?_, rfl, rfl⟩
      hstated
    simp only [emitFrame, Bool.false_and, Bool.false_eq_true, if_false, Option.map_some, hparse,
      hsentence]
  · refine iff_of_false ?_ hne
    rintro ⟨f, t, s, fields, hframes, -⟩
    simp only [emitFrame, Bool.false_and, Bool.false_eq_true, if_false, Option.map_some,
      hparse] at hframes
    cases congrArg Emitted.framesDropped hframes
  · cases hfalse

/-- **What the preset sends, it accepts exactly if** the payload is acceptable. -/
theorem nmea_roundTrip_iff {crates : Crates} {payload bytes : Bytes} {d : FrameDecoder}
    (hcomma : 44 ∈ payload) (hencode : TxFramingMode.nmea.encode crates payload = .ok bytes)
    (hnew : new crates (presetRxFraming .nmea0183) (some (presetRxParser .nmea0183)) = .ok d) :
    (∀ cs : List Bytes, cs.flatten = bytes → Accepts d cs) ↔ Acceptable payload := by
  cases hnew.symm.trans (new_nmea crates)
  obtain ⟨lead, text, hlead, rfl, htext⟩ := encodeNmea_text hcomma hencode
  constructor
  · intro h
    have hone : [lead :: text ++ [13, 10]].flatten = lead :: text ++ [13, 10] := by simp
    exact (accepts_iff hlead htext hone).1 (h _ hone)
  · exact fun h cs hcs => (accepts_iff hlead htext hcs).2 h

/-- The payload `$GPHDT,1,T`, without a checksum of its own. -/
theorem nmea_roundTrip_heading :
    Accepts nmeaDecoder [[36, 71, 80, 72, 68], [84, 44, 49, 44, 84, 42, 50, 65, 13], [10]] :=
  (@nmea_roundTrip_iff .refusing [36, 71, 80, 72, 68, 84, 44, 49, 44, 84]
    [36, 71, 80, 72, 68, 84, 44, 49, 44, 84, 42, 50, 65, 13, 10] _ (by decide)
    (by decide +kernel) (new_nmea _)).2 (.inl ⟨by decide, by decide⟩) _ rfl

/-- The payload `A,*B`: what is sent of it is dropped. -/
theorem nmea_not_roundTrip : ∃ bytes, TxFramingMode.nmea.encode .refusing [65, 44, 42, 66] = .ok bytes ∧
    new .refusing (presetRxFraming .nmea0183) (some (presetRxParser .nmea0183)) = .ok nmeaDecoder ∧
    (decoder.pushAll nmeaDecoder [bytes]).1.frames.length = 0 ∧
    (decoder.pushAll nmeaDecoder [bytes]).1.framesDropped = 1 ∧ ¬ Accepts nmeaDecoder [bytes] := by
  have hdropped : (decoder.pushAll nmeaDecoder
      [[36, 65, 44, 42, 66, 42, 48, 53, 13, 10]]).1.framesDropped = 1 := by
    decide +kernel
  refine ⟨[36, 65, 44, 42, 66, 42, 48, 53, 13, 10], by decide +kernel, new_nmea _, by decide +kernel,
    hdropped, ?_⟩
  rintro ⟨f, t, s, fields, hout, -⟩
  rw [hout] at hdropped
  cases hdropped

end

end SerialMcp
