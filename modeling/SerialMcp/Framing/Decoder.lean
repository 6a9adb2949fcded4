/-
  RX frame decoding (`framing/decoder.rs`, and the byte helpers it uses from
  `framing/codecs.rs`).

  * `FrameDecoder` is the stateful boundary detector: a buffer, a mode with the
    state of that mode, and what is needed to emit a frame;
  * `next` is one turn of the decoding loop: one frame boundary, or one byte of
    the SLIP and COBS automata;
  * `push` appends a chunk and turns the loop until the buffer gives nothing
    more or an error stops it.

  Markers and delimiters are non-empty and length prefixes have 1, 2 or 4
  bytes: `FrameDecoder.new` rejects everything else, so the decoder's modes
  carry it in their types.
-/
import SerialMcp.Framing.Parsers
import SerialMcp.Util
import SerialMcp.Lib.Incremental

namespace SerialMcp

open Incremental

/-! ## Frames -/

/-- Boundary detection mode of a frame (`frame_type`). -/
inductive FrameType where
  | line
  | delimiter
  | lengthPrefixed
  | startEnd
  | slip
  | cobs
  deriving DecidableEq, Repr

/-- A decoded frame with optional parsed content. -/
structure Frame where
  data : Bytes
  /-- frame number since decoder creation -/
  index : ℕ
  frameType : FrameType
  parsed : Option ParsedFrame
  deriving Repr

/-- What one turn of the loop adds to a `PushOutcome`. -/
@[ext] structure Emitted where
  frames : List Frame
  framesDropped : ℕ
  deriving Repr

namespace Emitted

/-- First `a`, then `b`. -/
instance : Monoid Emitted where
  one := ⟨[], 0⟩
  mul a b := ⟨a.frames ++ b.frames, a.framesDropped + b.framesDropped⟩
  one_mul a := Emitted.ext (List.nil_append _) (Nat.zero_add _)
  mul_one a := Emitted.ext (List.append_nil _) (Nat.add_zero _)
  mul_assoc a b c := Emitted.ext (List.append_assoc ..) (Nat.add_assoc ..)

@[simp] theorem one_frames : (1 : Emitted).frames = [] := rfl

@[simp] theorem one_framesDropped : (1 : Emitted).framesDropped = 0 := rfl

@[simp] theorem mul_frames (a b : Emitted) : (a * b).frames = a.frames ++ b.frames := rfl

@[simp] theorem mul_framesDropped (a b : Emitted) :
    (a * b).framesDropped = a.framesDropped + b.framesDropped := rfl

end Emitted

/-! ## Decoder state -/

/-- Internal line-decoder state. -/
inductive LineState where
  | lf
  | cr
  | crlf
  /-- `auto` initial state: split on LF, strip a preceding CR -/
  | autoLf
  /-- a CR at this index was the last byte of the buffer -/
  | pendingCr (crPos : ℕ)
  /-- promoted: split on bare CR only -/
  | crMode
  deriving DecidableEq, Repr

/-- SLIP decoder state. -/
inductive SlipState where
  | beforeFirstEnd
  | inFrame (buf : Bytes) (escaped : Bool)
  deriving DecidableEq, Repr

/-- COBS decoder state. -/
inductive CobsState where
  | beforeFirstDelim
  | inFrame (decoded : Bytes) (remaining : ℕ) (pendingZero : Bool)
  deriving DecidableEq, Repr

/-- How frame boundaries are detected, with the state of the detection. -/
inductive DecoderMode where
  | line (state : LineState)
  | delimiter (delim : Marker)
  | lengthPrefixed (prefixSize : {n : ℕ // n = 1 ∨ n = 2 ∨ n = 4}) (endianness : Endianness)
      (remainingOffset : ℕ) (nextPayloadLen : Option ℕ)
  | startEnd (start : List Marker) (fin : Marker) (includeMarkers inFrame : Bool)
  | slip (state : SlipState)
  | cobs (state : CobsState)

/-- `frame_type_str` -/
def DecoderMode.frameType : DecoderMode → FrameType
  | .line _ => .line
  | .delimiter _ => .delimiter
  | .lengthPrefixed .. => .lengthPrefixed
  | .startEnd .. => .startEnd
  | .slip _ => .slip
  | .cobs _ => .cobs

/-- Stateful frame boundary detector. -/
structure FrameDecoder where
  /-- buffer for incomplete frame data -/
  buf : Bytes
  mode : DecoderMode
  /-- total frames emitted so far -/
  frameCount : ℕ
  includeTerminators : Bool
  skipEmpty : Bool
  parser : Option FrameParser

/-! ## Emission -/

/-- `u8::is_ascii_whitespace`: space, TAB, LF, FF and CR -/
def isAsciiWhitespace (b : UInt8) : Bool := b = 32 ∨ b = 9 ∨ b = 10 ∨ b = 12 ∨ b = 13

/-- `is_blank_frame` -/
def isBlankFrame (data : Bytes) : Bool := data.all isAsciiWhitespace

/-- `emit_frame`: skip blank frames, run the parser, count a checksum mismatch
    as a drop; the result is what is emitted, a stream-fatal error, and the new
    frame count. -/
def emitFrame (skipEmpty : Bool) (parser : Option FrameParser) (frameCount : ℕ)
    (frameType : FrameType) (data : Bytes) : (Emitted × Option FrameDecodeError) × ℕ :=
  if skipEmpty && isBlankFrame data then ((1, none), frameCount)
  else match parser.map fun (p : FrameParser) => p data with
  | some (.ok pf) => ((⟨[⟨data, frameCount, frameType, some pf⟩], 0⟩, none), frameCount + 1)
  | some (.error (.checksumMismatch ..)) => ((⟨[], 1⟩, none), frameCount)
  | some (.error e) => ((1, some e), frameCount)
  | none => ((⟨[⟨data, frameCount, frameType, none⟩], 0⟩, none), frameCount + 1)

/-! ## Lines and delimiters -/

/-- `take_frame` on a buffer: the frame before `splitPos`, and what is left
    after the terminator. -/
def takeFrame (includeTerminators : Bool) (buf : Bytes) (splitPos termLen : ℕ) : Bytes × Bytes :=
  (buf.take (if includeTerminators then splitPos + termLen else splitPos),
    buf.drop (splitPos + termLen))

/-- `extract_delimited` -/
def extractDelimited (includeTerminators : Bool) (delim buf : Bytes) : Option Bytes × Bytes :=
  match findSubsequence buf delim with
  | none => (none, buf)
  | some pos =>
    let r := takeFrame includeTerminators buf pos delim.length
    (some r.1, r.2)

/-- `match_line_byte` -/
def matchLineByte (includeTerminators : Bool) (b : UInt8) (buf : Bytes) : Option Bytes × Bytes :=
  match position buf b with
  | none => (none, buf)
  | some pos =>
    let r := takeFrame includeTerminators buf pos 1
    (some r.1, r.2)

/-- `match_line_crlf` -/
def matchLineCrlf (includeTerminators : Bool) (buf : Bytes) : Option Bytes × Bytes :=
  extractDelimited includeTerminators [13, 10] buf

/-- `match_auto_lf`: scan for LF first, then for a bare CR. -/
def matchAutoLf (includeTerminators : Bool) (buf : Bytes) : Option Bytes × LineState × Bytes :=
  match position buf 10 with
  | some lfPos =>
    let strip := !includeTerminators && decide (0 < lfPos) && decide (buf[lfPos - 1]? = some 13)
    let r := if strip then takeFrame includeTerminators buf (lfPos - 1) 2
      else takeFrame includeTerminators buf lfPos 1
    (some r.1, .autoLf, r.2)
  | none =>
    match position buf 13 with
    | some crPos =>
      if buf[crPos + 1]? = some 10 then
        let r := takeFrame includeTerminators buf crPos 2
        (some r.1, .autoLf, r.2)
      else if crPos + 1 < buf.length then
        -- bytes after the CR: a bare CR, confirmed in this chunk
        let r := takeFrame includeTerminators buf crPos 1
        (some r.1, .crMode, r.2)
      else (none, .pendingCr crPos, buf)
    | none => (none, .autoLf, buf)

/-- `match_pending_cr`: the byte after the CR decides. -/
def matchPendingCr (includeTerminators : Bool) (crPos : ℕ) (buf : Bytes) :
    Option Bytes × LineState × Bytes :=
  match buf[crPos + 1]? with
  | none => (none, .pendingCr crPos, buf)
  | some nextByte =>
    if nextByte = 10 then
      let r := takeFrame includeTerminators buf crPos 2
      (some r.1, .autoLf, r.2)
    else
      let r := takeFrame includeTerminators buf crPos 1
      (some r.1, .crMode, r.2)

/-- The branch `DecoderMode::Line` of `push`. -/
def extractLine (includeTerminators : Bool) (state : LineState) (buf : Bytes) :
    Option Bytes × LineState × Bytes :=
  match state with
  | .lf => let r := matchLineByte includeTerminators 10 buf; (r.1, .lf, r.2)
  | .cr => let r := matchLineByte includeTerminators 13 buf; (r.1, .cr, r.2)
  | .crlf => let r := matchLineCrlf includeTerminators buf; (r.1, .crlf, r.2)
  | .autoLf => matchAutoLf includeTerminators buf
  | .pendingCr crPos => matchPendingCr includeTerminators crPos buf
  | .crMode => let r := matchLineByte includeTerminators 13 buf; (r.1, .crMode, r.2)

/-! ## Length prefixes -/

/-- `read_length_prefix`: the first `prefixSize` bytes as an unsigned number. -/
def readLengthPrefix (bytes : Bytes) (endianness : Endianness) : ℕ :=
  let value := List.foldl (fun acc (b : UInt8) => acc * 256 + b.toNat) 0
  match endianness with
  | .big => value bytes
  | .little => value bytes.reverse

/-- The payload length: the one already read, else the prefix if it is there. -/
def payloadLen (prefixSize : ℕ) (endianness : Endianness) (nextPayloadLen : Option ℕ)
    (buf : Bytes) : Option ℕ :=
  match nextPayloadLen with
  | some len => some len
  | none =>
    if buf.length < prefixSize then none
    else some (readLengthPrefix (buf.take prefixSize) endianness)

/-- A length-prefixed frame at the front of the buffer: the frame, the next
    payload length once it is known, and the buffer. -/
def takePrefixed (includeTerminators : Bool) (prefixSize : ℕ) (endianness : Endianness)
    (nextPayloadLen : Option ℕ) (buf : Bytes) : Option Bytes × Option ℕ × Bytes :=
  match payloadLen prefixSize endianness nextPayloadLen buf with
  | none => (none, none, buf)
  | some len =>
    let totalNeeded := prefixSize + len
    if buf.length < totalNeeded then (none, some len, buf)
    else
      let frame := buf.take totalNeeded
      (some (if includeTerminators then frame else frame.drop prefixSize), none,
        buf.drop totalNeeded)

/-- The branch `DecoderMode::LengthPrefixed` of `push`: skip what is left of the
    initial offset, then take a frame. -/
def extractLengthPrefixed (includeTerminators : Bool) (prefixSize : ℕ) (endianness : Endianness)
    (remainingOffset : ℕ) (nextPayloadLen : Option ℕ) (buf : Bytes) :
    Option Bytes × ℕ × Option ℕ × Bytes :=
  let r := takePrefixed includeTerminators prefixSize endianness nextPayloadLen
    (buf.drop remainingOffset)
  (r.1, remainingOffset - buf.length, r.2)

/-! ## Start and end markers -/

/-- The earliest start marker, with its length; list order on equal offsets. -/
def bestStart (start : List Marker) (buf : Bytes) : Option (ℕ × ℕ) :=
  start.foldl (fun best (marker : Marker) =>
    match findSubsequence buf marker.1, best with
    | some pos, some (bp, len) => if pos < bp then some (pos, marker.1.length) else some (bp, len)
    | some pos, none => some (pos, marker.1.length)
    | none, _ => best) none

/-- Enough trailing bytes for a partial match of the longest start marker. -/
def keepLen (start : List Marker) : ℕ :=
  start.foldl (fun n marker => max n (marker.1.length - 1)) 0

/-- The buffer in which the end marker is sought, once a frame has started. -/
def enterFrame (start : List Marker) (includeMarkers inFrame : Bool) (buf : Bytes) :
    Option Bytes :=
  if inFrame then some buf
  else (bestStart start buf).map fun (pos, markerLen) =>
    if includeMarkers then buf.drop pos else (buf.drop pos).drop markerLen

/-- The branch `DecoderMode::StartEnd` of `push`: the frame, whether the decoder
    is inside a frame, and the buffer. -/
def extractStartEnd (start : List Marker) (fin : Marker) (includeMarkers inFrame : Bool)
    (buf : Bytes) : Option Bytes × Bool × Bytes :=
  match enterFrame start includeMarkers inFrame buf with
  | none => (none, false, buf.drop (buf.length - keepLen start))
  | some body =>
    match findSubsequence body fin with
    | some pos =>
      (some (body.take (if includeMarkers then pos + fin.1.length else pos)), false,
        body.drop (pos + fin.1.length))
    | none => (none, true, body)

/-! ## SLIP -/

def slipEnd : UInt8 := 0xC0
def slipEsc : UInt8 := 0xDB
def slipEscEnd : UInt8 := 0xDC
def slipEscEsc : UInt8 := 0xDD

/-- One byte of `slip_decode`.  A malformed escape or a fatal parser error
    drops the frame and waits for the next END. -/
def slipByte (skipEmpty : Bool) (parser : Option FrameParser) (frameCount : ℕ) (b : UInt8) :
    SlipState → (Emitted × Option FrameDecodeError) × SlipState × ℕ
  | .beforeFirstEnd =>
    ((1, none), if b = slipEnd then .inFrame [] false else .beforeFirstEnd, frameCount)
  | .inFrame buf true =>
    if b = slipEscEnd then ((1, none), .inFrame (buf ++ [slipEnd]) false, frameCount)
    else if b = slipEscEsc then ((1, none), .inFrame (buf ++ [slipEsc]) false, frameCount)
    else ((1, some (.slipInvalidEscape b)), .beforeFirstEnd, frameCount)
  | .inFrame buf false =>
    if b = slipEnd then
      let r := emitFrame skipEmpty parser frameCount .slip buf
      (r.1, if r.1.2.isNone then .inFrame [] false else .beforeFirstEnd, r.2)
    else if b = slipEsc then ((1, none), .inFrame buf true, frameCount)
    else ((1, none), .inFrame (buf ++ [b]) false, frameCount)

/-! ## COBS -/

/-- The implicit zero of a finished code block, due before the next byte is
    read. -/
def cobsFlush : CobsState → CobsState
  | .inFrame decoded 0 true => .inFrame (decoded ++ [0]) 0 false
  | st => st

/-- The phantom zero at the end of a frame, if there is one, is dropped. -/
def dropPhantom (decoded : Bytes) : Bytes :=
  if decoded.getLast? = some 0 then decoded.dropLast else decoded

/-- One byte of `cobs_decode`, after `cobsFlush`.  Every delimiter, like a fatal
    parser error, leads back to the search for a leading delimiter. -/
def cobsByte (skipEmpty : Bool) (parser : Option FrameParser) (frameCount : ℕ) (b : UInt8) :
    CobsState → (Emitted × Option FrameDecodeError) × CobsState × ℕ
  | .beforeFirstDelim =>
    ((1, none), if b = 0 then .inFrame [] 0 false else .beforeFirstDelim, frameCount)
  | .inFrame decoded (remaining + 1) pendingZero =>
    ((1, none), .inFrame (decoded ++ [b]) remaining pendingZero, frameCount)
  | .inFrame decoded 0 _ =>
    if b = 0 then
      let r := emitFrame skipEmpty parser frameCount .cobs (dropPhantom decoded)
      (r.1, .beforeFirstDelim, r.2)
    else if b = 0xFF then ((1, none), .inFrame decoded 254 false, frameCount)
    else ((1, none), .inFrame decoded (b.toNat - 1) true, frameCount)

/-! ## The decoding loop -/

/-- One frame of the line, delimiter, length-prefixed and start/end modes, if
    the buffer holds one; SLIP and COBS do not extract. -/
def extract (includeTerminators : Bool) (mode : DecoderMode) (buf : Bytes) :
    Option Bytes × DecoderMode × Bytes :=
  match mode with
  | .line state =>
    let r := extractLine includeTerminators state buf
    (r.1, .line r.2.1, r.2.2)
  | .delimiter delim =>
    let r := extractDelimited includeTerminators delim buf
    (r.1, .delimiter delim, r.2)
  | .lengthPrefixed prefixSize endianness remainingOffset nextPayloadLen =>
    let r := extractLengthPrefixed includeTerminators prefixSize endianness remainingOffset
      nextPayloadLen buf
    (r.1, .lengthPrefixed prefixSize endianness r.2.1 r.2.2.1, r.2.2.2)
  | .startEnd start fin includeMarkers inFrame =>
    let r := extractStartEnd start fin includeMarkers inFrame buf
    (r.1, .startEnd start fin includeMarkers r.2.1, r.2.2)
  | .slip st => (none, .slip st, buf)
  | .cobs st => (none, .cobs st, buf)

namespace FrameDecoder

/-- `extend_from_slice` on the buffer. -/
def feed (d : FrameDecoder) (chunk : Bytes) : FrameDecoder := { d with buf := d.buf ++ chunk }

/-- One turn of the loop in `push`: extract a frame and emit it, or wait. -/
def nextFrame (d : FrameDecoder) : Option (Emitted × Option FrameDecodeError) × FrameDecoder :=
  let x := extract d.includeTerminators d.mode d.buf
  match x.1 with
  | none => (none, { d with buf := x.2.2, mode := x.2.1 })
  | some frameBytes =>
    let r := emitFrame d.skipEmpty d.parser d.frameCount d.mode.frameType frameBytes
    (some r.1, { d with buf := x.2.2, mode := x.2.1, frameCount := r.2 })

/-- One turn of the loop in `slip_decode`: one byte. -/
def nextSlip (d : FrameDecoder) (st : SlipState) :
    Option (Emitted × Option FrameDecodeError) × FrameDecoder :=
  match d.buf with
  | [] => (none, d)
  | b :: rest =>
    let r := slipByte d.skipEmpty d.parser d.frameCount b st
    (some r.1, { d with buf := rest, mode := .slip r.2.1, frameCount := r.2.2 })

/-- One turn of the loop in `cobs_decode`: the pending zero, then one byte. -/
def nextCobs (d : FrameDecoder) (st : CobsState) :
    Option (Emitted × Option FrameDecodeError) × FrameDecoder :=
  match d.buf with
  | [] => (none, { d with mode := .cobs (cobsFlush st) })
  | b :: rest =>
    let r := cobsByte d.skipEmpty d.parser d.frameCount b (cobsFlush st)
    (some r.1, { d with buf := rest, mode := .cobs r.2.1, frameCount := r.2.2 })

/-- One turn of the decoding loop: what it emits, or nothing when it needs more
    bytes, and the decoder after it. -/
def next (d : FrameDecoder) : Option (Emitted × Option FrameDecodeError) × FrameDecoder :=
  match d.mode with
  | .slip st => d.nextSlip st
  | .cobs st => d.nextCobs st
  | _ => d.nextFrame

/-- The decoding loop; every turn that emits shortens the buffer. -/
def extractor : Extractor FrameDecoder UInt8 Emitted FrameDecodeError where
  feed := feed
  next := next
  pending d := d.buf.length

/-- The decoder as an incremental decoder: `feed`, then `settle`, is `push`. -/
def decoder : Decoder FrameDecoder UInt8 Emitted FrameDecodeError := extractor.decoder

end FrameDecoder

/-- Result of pushing a chunk. -/
structure PushOutcome where
  frames : List Frame
  framesDropped : ℕ
  error : Option FrameDecodeError
  deriving Repr

namespace FrameDecoder

/-- `FrameDecoder::push` -/
def push (d : FrameDecoder) (chunk : Bytes) : PushOutcome × FrameDecoder :=
  let r := decoder.settle (d.feed chunk)
  (⟨r.1.frames, r.1.framesDropped, r.2.1⟩, r.2.2)

/-- `FrameDecoder::flush_partial` -/
def flushPartial (d : FrameDecoder) : Option Frame × FrameDecoder :=
  let emit (data : Bytes) (d' : FrameDecoder) : Option Frame × FrameDecoder :=
    if data = [] then (none, d)
    else (some ⟨data, d.frameCount, d.mode.frameType, none⟩,
      { d' with frameCount := d.frameCount + 1 })
  match d.mode with
  | .slip (.inFrame buf escaped) => emit buf { d with mode := .slip (.inFrame [] escaped) }
  | .cobs (.inFrame decoded remaining pendingZero) =>
    emit decoded { d with mode := .cobs (.inFrame [] remaining pendingZero) }
  | _ => emit d.buf { d with buf := [] }

/-! ## Construction -/

/-- A decoded delimiter or marker that must not be empty. -/
def decodeMarker (crates : Crates) (encoding : PatternEncoding) (text : String)
    (invalid empty : String) : Except String Marker :=
  match decode crates encoding.toEncoding text.toList with
  | .error e => .error (invalid ++ e.toText)
  | .ok bytes => if h : bytes ≠ [] then .ok ⟨bytes, h⟩ else .error empty

/-- The start markers, decoded in order. -/
def decodeMarkers (crates : Crates) (encoding : PatternEncoding) :
    List String → Except String (List Marker)
  | [] => .ok []
  | s :: rest => do
    let m ← decodeMarker crates encoding s "Invalid start marker encoding: "
      "Start and end markers must not be empty"
    let ms ← decodeMarkers crates encoding rest
    .ok (m :: ms)

/-- The initial mode of a decoder. -/
def newMode (crates : Crates) : RxFramingMode → Except String DecoderMode
  | .line .auto => .ok (.line .autoLf)
  | .line .lf => .ok (.line .lf)
  | .line .cr => .ok (.line .cr)
  | .line .crlf => .ok (.line .crlf)
  | .delimiter delimiter delimiterEncoding => do
    let m ← decodeMarker crates delimiterEncoding delimiter "Invalid delimiter encoding: "
      "Delimiter must not be empty"
    .ok (.delimiter m)
  | .lengthPrefixed prefixSize endianness initialOffset =>
    if h : prefixSize = 1 ∨ prefixSize = 2 ∨ prefixSize = 4 then
      .ok (.lengthPrefixed ⟨prefixSize, h⟩ endianness (initialOffset.getD 0) none)
    else .error "prefix_size must be 1, 2, or 4"
  | .startEnd start fin markerEncoding includeMarkers =>
    if start = [] then .error "Start markers must not be empty"
    else do
      let ms ← decodeMarkers crates markerEncoding start
      let m ← decodeMarker crates markerEncoding fin "Invalid end marker encoding: "
        "Start and end markers must not be empty"
      .ok (.startEnd ms m includeMarkers false)
  | .slip => .ok (.slip .beforeFirstEnd)
  | .cobs => .ok (.cobs .beforeFirstDelim)

/-- The parser of a decoder, if one is configured. -/
def newParser (crates : Crates) : Option ParserConfig → Except String (Option FrameParser)
  | some pc => (buildParser crates pc).map some
  | none => .ok none

/-- `FrameDecoder::new` -/
def new (crates : Crates) (config : RxFramingConfig) (parserConfig : Option ParserConfig) :
    Except String FrameDecoder := do
  let mode ← newMode crates config.mode
  let parser ← newParser crates parserConfig
  .ok { buf := [], mode := mode, frameCount := 0,
        includeTerminators := config.includeTerminators, skipEmpty := config.skipEmpty,
        parser := parser }

end FrameDecoder

end SerialMcp
