/-
  Frame-content parsers (`framing/parsers/mod.rs`, `checksums.rs`).

  A parser maps the data of one frame to its fields.  Frames a parser does not
  recognize are `raw`; the only error a parser raises is a checksum mismatch
  (`buildParser_error`), so no built-in parser stops a stream.
-/
import SerialMcp.Framing.Config

namespace SerialMcp

/-! ## Results and errors -/

/-- Structured field interpretation of a frame. -/
inductive ParsedFrame where
  | atCommand (responseType : String) (command status : Option String) (fields : List String)
  | json (value : JsonValue)
  | shellPrompt (prompt promptType : String)
  | raw
  | nmea (talkerId sentenceType : String) (fields : List String) (checksumValid : Option Bool)
  | modbusAscii (address functionCode : UInt8) (data : Bytes) (checksumValid : Option Bool)
  deriving Repr

/-- Runtime frame-decoding error. -/
inductive FrameDecodeError where
  | slipInvalidEscape (b : UInt8)
  | cobsInvalidCode (b : UInt8)
  | checksumMismatch (expected received : Bytes)
  deriving DecidableEq, Repr

/-- `{:02X}` of a byte -/
def hexByteUpper (b : UInt8) : String :=
  String.ofList [Nat.digitChar (b.toNat / 16), Nat.digitChar (b.toNat % 16)] |>.toUpper

/-- `hex_upper` -/
def hexUpper (bytes : Bytes) : String := String.join (bytes.map hexByteUpper)

/-- `Display for FrameDecodeError` -/
def FrameDecodeError.toText : FrameDecodeError → String
  | .slipInvalidEscape b => "SLIP framing error: invalid escape byte 0x" ++ hexByteUpper b
  | .cobsInvalidCode b => "COBS framing error: invalid code byte 0x" ++ hexByteUpper b
  | .checksumMismatch expected received =>
    "checksum mismatch: expected " ++ hexUpper expected ++ ", received " ++ hexUpper received

/-- The trait `FrameParser`. -/
abbrev FrameParser := Bytes → Except FrameDecodeError ParsedFrame

/-! ## Checksums -/

/-- NMEA-0183 XOR checksum. -/
def xorChecksum (bytes : Bytes) : UInt8 := bytes.foldl (· ^^^ ·) 0

/-- Modbus ASCII LRC: the two's complement of the byte sum. -/
def lrc (bytes : Bytes) : UInt8 := -bytes.foldl (· + ·) 0

/-- `check_checksum`: compare, and fail on a mismatch only if `validate`. -/
def checkChecksum (validate : Bool) (computedByte : UInt8) (received : Option UInt8)
    (receivedRaw : Bytes) : Except FrameDecodeError (Option Bool) :=
  if received = some computedByte then .ok (some true)
  else if validate then .error (.checksumMismatch [computedByte] receivedRaw)
  else .ok (some false)

/-! ## The parsers -/

/-- `AtCommandParser::parse` -/
def atCommandParser : FrameParser := fun data =>
  let trimmed := trim (fromUtf8Lossy data)
  let response : Option ParsedFrame :=
    match trimmed with
    | '+' :: cmd =>
      (cmd.findIdx? (· = ':')).map fun colon =>
        .atCommand "response" (some (String.ofList (cmd.take colon))) none
          (((cmd.drop (colon + 1)).splitOn ',').map fun s => String.ofList (trim s))
    | _ => none
  if trimmed = [] then .ok .raw
  else match response with
  | some r => .ok r
  | none =>
    if trimmed = "OK".toList then .ok (.atCommand "status" none (some "OK") [])
    else if trimmed = "ERROR".toList then .ok (.atCommand "error" none (some "ERROR") [])
    else if "+CME ERROR".toList.isPrefixOf trimmed || "+CMS ERROR".toList.isPrefixOf trimmed then
      .ok (.atCommand "error" none (some (String.ofList trimmed)) [])
    else .ok (.atCommand "data" none none [String.ofList trimmed])

/-- `JsonLinesParser::parse` -/
def jsonLinesParser (crates : Crates) : FrameParser := fun data =>
  match crates.jsonFromSlice data with
  | some val => if val.isObject then .ok (.json val) else .ok .raw
  | none => .ok .raw

/-- `ShellPromptParser::parse` -/
def shellPromptParser (custom : Option Regex) : FrameParser := fun data =>
  let trimmed := trimEnd (fromUtf8Lossy data)
  let endsWith (s : String) : Bool := s.toList.isSuffixOf trimmed
  let prompt (type : String) : ParsedFrame := .shellPrompt (String.ofList trimmed) type
  if trimmed = [] then .ok .raw
  else if custom.any (·.isMatch data) then .ok (prompt "custom")
  else if endsWith "$ " || endsWith "$" then .ok (prompt "user")
  else if endsWith "# " || endsWith "#" then .ok (prompt "root")
  else if endsWith "> " || endsWith ">" then .ok (prompt "generic")
  else .ok .raw

/-- `RawParser::parse` -/
def rawParser : FrameParser := fun _ => .ok .raw

/-- `strip_trailing_newline` -/
def stripTrailingNewline (content : Bytes) : Bytes :=
  if [13, 10].isSuffixOf content then content.take (content.length - 2)
  else if [10].isSuffixOf content then content.take (content.length - 1)
  else content

/-- `strip_leading_if_any` -/
def stripLeadingIfAny (markers : Bytes) : Bytes → Bytes
  | [] => []
  | first :: rest => if first ∈ markers then rest else first :: rest

/-- The sentence body of `NmeaParser::parse`: address, then comma fields. -/
def nmeaSentence (body : Text) (checksumValid : Option Bool) : ParsedFrame :=
  let (addressPart, fieldsPart) := match body.findIdx? (· = ',') with
    | some commaPos => (body.take commaPos, body.drop (commaPos + 1))
    | none => (body, [])
  let (talkerId, sentenceType) :=
    if 2 ≤ addressPart.length ∧ addressPart.head? = some 'P' then (['P'], addressPart.drop 1)
    else if 2 ≤ addressPart.length then (addressPart.take 2, addressPart.drop 2)
    else (addressPart, [])
  let fields := if fieldsPart = [] then [] else (fieldsPart.splitOn ',').map String.ofList
  .nmea (String.ofList talkerId) (String.ofList sentenceType) fields checksumValid

/-- Step 4 of `NmeaParser::parse`: the checksum behind the `*`, if there is one.
    Fewer than two characters, or two that are not hex, cannot match. -/
def nmeaChecksum (validate : Bool) (body : Bytes) :
    Option Bytes → Except FrameDecodeError (Option Bool)
  | none => .ok none
  | some hex =>
    let received := if 2 ≤ hex.length then (fromUtf8 (hex.take 2)).bind fromStrRadix16 else none
    checkChecksum validate (xorChecksum body) received ((received.map ([·])).getD hex)

/-- Step 5 of `NmeaParser::parse`: a body that is not ASCII is no sentence. -/
def nmeaBody (body : Bytes) (checksumValid : Option Bool) : ParsedFrame :=
  match fromUtf8 body with
  | none => .raw
  | some bodyStr =>
    if bodyStr.all fun c => c.toNat < 128 then nmeaSentence bodyStr checksumValid else .raw

/-- `NmeaParser::parse` -/
def nmeaParser (validate : Bool) : FrameParser := fun data =>
  let content := stripTrailingNewline (stripLeadingIfAny [36, 33] data)
  if (44 : UInt8) ∉ content then .ok .raw
  else
    let (body, checksumHex) := match content.findIdx? (· = 42) with
      | some starPos => (content.take starPos, some (content.drop (starPos + 1)))
      | none => (content, none)
    (nmeaChecksum validate body checksumHex).map (nmeaBody body)

/-- `u8::is_ascii_hexdigit` -/
def isAsciiHexdigit (b : UInt8) : Bool :=
  (48 ≤ b ∧ b ≤ 57) ∨ (65 ≤ b ∧ b ≤ 70) ∨ (97 ≤ b ∧ b ≤ 102)

/-- Pairs of hex digits, as bytes. -/
def hexPairs : Text → Bytes
  | a :: b :: rest => (fromStrRadix16 [a, b]).getD 0 :: hexPairs rest
  | _ => []

/-- `ModbusAsciiParser::parse` -/
def modbusAsciiParser (validate : Bool) : FrameParser := fun data =>
  let content := stripTrailingNewline (stripLeadingIfAny [58] data)
  match fromUtf8 content with
  | none => .ok .raw
  | some bodyStr =>
    if content = [] ∨ content.any (fun b => !isAsciiHexdigit b) then .ok .raw
    else if content.length % 2 ≠ 0 then .ok .raw
    else
      -- address, function code, data, LRC
      match hexPairs bodyStr with
      | address :: functionCode :: c :: rest =>
        let lrcReceived := (c :: rest).getLast (List.cons_ne_nil c rest)
        let payload := (c :: rest).dropLast
        let computedVal := lrc (address :: functionCode :: payload)
        (checkChecksum validate computedVal (some lrcReceived) [lrcReceived]).map
          (.modbusAscii address functionCode payload)
      | _ => .ok .raw

/-- `build_parser` -/
def buildParser (crates : Crates) (config : ParserConfig) : Except String FrameParser :=
  match config.parserType with
  | .atCommand => .ok atCommandParser
  | .jsonLines => .ok (jsonLinesParser crates)
  | .shellPrompt =>
    match config.customPrompt with
    | none => .ok (shellPromptParser none)
    | some s =>
      match crates.regexNew s.toList with
      | .ok re => .ok (shellPromptParser (some re))
      | .error e => .error ("Invalid prompt regex: " ++ e)
  | .raw => .ok rawParser
  | .nmea => .ok (nmeaParser config.validate)
  | .modbusAscii => .ok (modbusAsciiParser config.validate)

/-! ## The only parser error is a checksum mismatch -/

/-- A parser whose errors are checksum mismatches, raised only if `validate`. -/
def ChecksumErrors (validate : Bool) (p : FrameParser) : Prop :=
  ∀ data e, p data = .error e → validate = true ∧ ∃ expected received,
    e = .checksumMismatch expected received

theorem checkChecksum_error {validate : Bool} {c : UInt8} {r : Option UInt8} {raw : Bytes}
    {e : FrameDecodeError} (h : checkChecksum validate c r raw = .error e) :
    validate = true ∧ e = .checksumMismatch [c] raw := by
  simp only [checkChecksum] at h
  split at h
  · cases h
  · split at h
    · next hv =>
      cases h
      exact ⟨hv, rfl⟩
    · cases h

theorem atCommandParser_ok (data : Bytes) : ∃ r, atCommandParser data = .ok r := by
  simp only [atCommandParser]
  repeat' split
  all_goals exact ⟨_, rfl⟩

theorem jsonLinesParser_ok (crates : Crates) (data : Bytes) :
    ∃ r, jsonLinesParser crates data = .ok r := by
  simp only [jsonLinesParser]
  repeat' split
  all_goals exact ⟨_, rfl⟩

theorem shellPromptParser_ok (custom : Option Regex) (data : Bytes) :
    ∃ r, shellPromptParser custom data = .ok r := by
  simp only [shellPromptParser]
  repeat' split
  all_goals exact ⟨_, rfl⟩

theorem checksumErrors_of_ok {validate : Bool} {p : FrameParser}
    (h : ∀ data, ∃ r, p data = .ok r) : ChecksumErrors validate p := by
  intro data e he
  obtain ⟨r, hr⟩ := h data
  rw [hr] at he
  cases he

theorem map_error {ε β γ : Type} {x : Except ε β} {f : β → γ} {e : ε}
    (h : x.map f = .error e) : x = .error e := by
  rcases x with e' | v
  · cases h
    rfl
  · cases h

theorem nmeaChecksum_error {validate : Bool} {body : Bytes} {hex : Option Bytes}
    {e : FrameDecodeError} (h : nmeaChecksum validate body hex = .error e) :
    validate = true ∧ ∃ expected received, e = .checksumMismatch expected received := by
  rcases hex with _ | hex
  · cases h
  · obtain ⟨hv, rfl⟩ := checkChecksum_error h
    exact ⟨hv, _, _, rfl⟩

theorem nmeaParser_checksumErrors (validate : Bool) :
    ChecksumErrors validate (nmeaParser validate) := by
  intro data e h
  simp only [nmeaParser] at h
  split at h
  · cases h
  · exact nmeaChecksum_error (map_error h)

theorem modbusAsciiParser_checksumErrors (validate : Bool) :
    ChecksumErrors validate (modbusAsciiParser validate) := by
  intro data e h
  simp only [modbusAsciiParser] at h
  split at h
  · cases h
  · split at h
    · cases h
    · split at h
      · cases h
      · split at h
        · obtain ⟨hv, rfl⟩ := checkChecksum_error (map_error h)
          exact ⟨hv, _, _, rfl⟩
        · cases h

/-- **Parser errors.** Every configured parser fails only with a checksum
    mismatch, and only when the configuration asks for validation. -/
theorem buildParser_error {crates : Crates} {config : ParserConfig} {p : FrameParser}
    (h : buildParser crates config = .ok p) : ChecksumErrors config.validate p := by
  simp only [buildParser] at h
  split at h
  · cases h
    exact checksumErrors_of_ok atCommandParser_ok
  · cases h
    exact checksumErrors_of_ok (jsonLinesParser_ok crates)
  · split at h
    · cases h
      exact checksumErrors_of_ok (shellPromptParser_ok none)
    · split at h
      · cases h
        exact checksumErrors_of_ok (shellPromptParser_ok _)
      · cases h
  · cases h
    exact checksumErrors_of_ok fun _ => ⟨_, rfl⟩
  · cases h
    exact nmeaParser_checksumErrors _
  · cases h
    exact modbusAsciiParser_checksumErrors _

end SerialMcp
