/-
  TX framing (`TxFramingMode::encode` in `framing/codecs.rs`, with its
  configuration in `framing/config.rs`).

  * `slipStuff` and `cobsStuff` are the byte stuffings.  COBS writes a
    placeholder for the code byte of a block and patches it when the block is
    complete;
  * `TxFramingMode.encode` builds the bytes for the UART, or says what is wrong
    with the configuration or the payload;
  * `encodeAll` is a sequence of writes.
-/
import SerialMcp.Framing.Decoder

namespace SerialMcp

/-! ## Configuration -/

/-- Line ending for TX framing; there is no `auto` here. -/
inductive TxLineEnding where
  | lf
  | cr
  | crlf
  deriving DecidableEq, Repr

/-- How TX frames are constructed around a payload. -/
inductive TxFramingMode where
  | line (ending : TxLineEnding)
  | delimiter (delimiter : String) (delimiterEncoding : PatternEncoding)
  | lengthPrefixed (prefixSize : ℕ) (endianness : Endianness)
  | startEnd (start : List String) (fin : String) (markerEncoding : PatternEncoding)
  | slip
  | cobs
  | nmea
  deriving DecidableEq, Repr

/-- The bytes a line ending appends. -/
def TxLineEnding.bytes : TxLineEnding → Bytes
  | .lf => [10]
  | .cr => [13]
  | .crlf => [13, 10]

/-! ## Byte stuffing -/

/-- One byte of `slip_stuff`. -/
def slipStuffByte (b : UInt8) : Bytes :=
  if b = slipEnd then [slipEsc, slipEscEnd]
  else if b = slipEsc then [slipEsc, slipEscEsc]
  else [b]

/-- `slip_stuff` -/
def slipStuff (payload : Bytes) : Bytes := payload.flatMap slipStuffByte

/-- The variables of the loop in `cobs_stuff`. -/
structure CobsStuffing where
  out : Bytes
  /-- where the code byte of the current block belongs -/
  codeIndex : ℕ
  /-- the bytes since the last zero, the next zero included -/
  code : UInt8

/-- `u8::saturating_add(1)` -/
def saturatingSucc (n : UInt8) : UInt8 := if n = 255 then 255 else n + 1

/-- Write the code of the finished block and open the next one. -/
def CobsStuffing.close (s : CobsStuffing) (code : UInt8) : CobsStuffing :=
  ⟨s.out.set s.codeIndex code ++ [0], s.out.length, 1⟩

/-- One turn of the loop in `cobs_stuff`. -/
def CobsStuffing.byte (s : CobsStuffing) (b : UInt8) : CobsStuffing :=
  if b = 0 then s.close s.code
  else
    let s' : CobsStuffing := ⟨s.out ++ [b], s.codeIndex, saturatingSucc s.code⟩
    -- 254 bytes without a zero: a block without an implicit zero
    if s'.code = 255 then s'.close 255 else s'

/-- `cobs_stuff` -/
def cobsStuff (payload : Bytes) : Bytes :=
  let s := payload.foldl CobsStuffing.byte ⟨[0], 0, 1⟩
  s.out.set s.codeIndex s.code

/-! ## Length prefixes -/

/-- The `n` low bytes of a number, the lowest first. -/
def toLeBytes : ℕ → ℕ → Bytes
  | 0, _ => []
  | n + 1, len => UInt8.ofNat len :: toLeBytes n (len / 256)

/-- `to_be_bytes` or `to_le_bytes` of the length, cast to `n` bytes. -/
def lengthBytes (n : ℕ) (endianness : Endianness) (len : ℕ) : Bytes :=
  match endianness with
  | .big => (toLeBytes n len).reverse
  | .little => toLeBytes n len

/-- The branch `TxFramingMode::LengthPrefixed` of `encode`; with four bytes
    the length is cast without a check. -/
def encodeLengthPrefixed (prefixSize : ℕ) (endianness : Endianness) (payload : Bytes) :
    Except String Bytes :=
  let len := payload.length
  match prefixSize with
  | 1 =>
    if 255 < len then
      .error ("TX payload length " ++ toString len ++ " exceeds maximum 255 for prefix_size=1")
    else .ok (lengthBytes 1 endianness len ++ payload)
  | 2 =>
    if 65535 < len then
      .error ("TX payload length " ++ toString len ++ " exceeds maximum 65535 for prefix_size=2")
    else .ok (lengthBytes 2 endianness len ++ payload)
  | 4 => .ok (lengthBytes 4 endianness len ++ payload)
  | _ => .error "TX prefix_size must be 1, 2, or 4"

/-! ## NMEA sentences -/

/-- The checksum a payload already carries: `*` and two hex digits at its end. -/
def existingChecksum (body : Bytes) : Except String (Option UInt8) :=
  let tail := body.drop (body.length - 3)
  if 3 ≤ body.length ∧ tail.head? = some 42 ∧ tail.tail.all isAsciiHexdigit then
    match fromUtf8 tail.tail with
    | none => .error "TX NMEA invalid UTF-8 in checksum"
    | some hexStr =>
      match fromStrRadix16 hexStr with
      | none => .error "TX NMEA invalid hex in checksum"
      | some v => .ok (some v)
  else .ok none

/-- The branch `TxFramingMode::Nmea` of `encode`. -/
def encodeNmea (payload : Bytes) : Except String Bytes := do
  if payload.any fun b => b = 13 ∨ b = 10 then
    .error "TX NMEA payload must not contain \\r or \\n"
  else if payload.any fun b => ¬(0x20 ≤ b ∧ b ≤ 0x7E) then
    .error "TX NMEA payload must be printable ASCII"
  else
    let led := payload.head? = some 36 ∨ payload.head? = some 33
    let leadByte := if led then payload.headD 36 else 36
    let body := if led then payload.tail else payload
    match ← existingChecksum body with
    | some received =>
      let computed := xorChecksum (body.take (body.length - 3))
      if computed = received then .ok (leadByte :: body ++ [13, 10])
      else .error ("TX NMEA checksum mismatch: payload declares " ++ hexByteUpper received ++
        ", computed " ++ hexByteUpper computed)
    | none =>
      let csHex := asBytes (hexByteUpper (xorChecksum body)).toList
      .ok (leadByte :: body ++ 42 :: csHex ++ [13, 10])

/-! ## Encoding -/

/-- A decoded TX marker or delimiter. -/
def decodeTx (crates : Crates) (encoding : PatternEncoding) (text : String) (invalid : String) :
    Except String Bytes :=
  (decode crates encoding.toEncoding text.toList).mapError fun e => invalid ++ e.toText

/-- `TxFramingMode::encode` -/
def TxFramingMode.encode (crates : Crates) (mode : TxFramingMode) (payload : Bytes) :
    Except String Bytes :=
  match mode with
  | .line ending => .ok (payload ++ ending.bytes)
  | .delimiter delim delimiterEncoding => do
    let delimBytes ← decodeTx crates delimiterEncoding delim "Invalid TX delimiter encoding: "
    if delimBytes = [] then .error "TX delimiter must not be empty"
    else .ok (payload ++ delimBytes)
  | .lengthPrefixed prefixSize endianness => encodeLengthPrefixed prefixSize endianness payload
  | .startEnd start fin markerEncoding =>
    match start with
    | [] => .error "TX start markers must not be empty"
    | first :: _ => do
      let startBytes ← decodeTx crates markerEncoding first "Invalid TX start marker encoding: "
      let endBytes ← decodeTx crates markerEncoding fin "Invalid TX end marker encoding: "
      if startBytes = [] ∨ endBytes = [] then
        .error "TX start and end markers must not be empty"
      else .ok (startBytes ++ payload ++ endBytes)
  | .slip => .ok (slipEnd :: slipStuff payload ++ [slipEnd])
  | .cobs => .ok (0 :: cobsStuff payload ++ [0])
  | .nmea => encodeNmea payload

/-- The bytes of a sequence of writes, the first of which that fails decides. -/
def TxFramingMode.encodeAll (crates : Crates) (mode : TxFramingMode) :
    List Bytes → Except String Bytes
  | [] => .ok []
  | p :: ps => do
    let bytes ← mode.encode crates p
    let rest ← mode.encodeAll crates ps
    .ok (bytes ++ rest)

theorem TxFramingMode.encodeAll_of_encode {crates : Crates} {mode : TxFramingMode}
    {message : Bytes → Bytes} {ps : List Bytes}
    (h : ∀ p ∈ ps, mode.encode crates p = .ok (message p)) :
    mode.encodeAll crates ps = .ok (ps.flatMap message) := by
  induction ps with
  | nil => rfl
  | cons p ps ih =>
    have hp := h p (by simp)
    have hps := ih fun q hq => h q (by simp [hq])
    simp only [encodeAll, hp, hps]
    rfl

end SerialMcp
