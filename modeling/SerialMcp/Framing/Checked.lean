/-
  The decoder with its indexes, drains, slices and loops written out.

  `Framing.Decoder` computes with total list functions, and turns the SLIP and COBS
  automata byte by byte.  Here every index, drain and slice of `push` and its helpers
  is an operation that panics out of range, the arms marked unreachable panic, and the
  loops run on fuel, with the read positions of the source.

  * `extract_eq`: no operation of the modes that extract frames panics, in any state;
  * `pushLoop_eq`, `slipDecode_eq`, `cobsDecode_eq`: the loops do not panic either, and
    with more fuel than bytes they end with what the total decoder computes;
  * `decoder_total`: so does every sequence of pushes and flushes.
-/
import SerialMcp.Framing.Flush
import SerialMcp.Framing.Markers

namespace SerialMcp

open Incremental FrameDecoder

namespace CheckedDecoder

/-! ## Operations that go out of range -/

/-- Why there is no result. -/
inductive Stop where
  | panic
  /-- a loop has used up its fuel -/
  | fuel
  deriving DecidableEq, Repr

/-- `xs[i]` -/
def index (xs : Bytes) (i : ℕ) : Except Stop UInt8 := xs[i]?.elim (.error .panic) .ok

/-- `xs[..n]` -/
def sliceTo (xs : Bytes) (n : ℕ) : Except Stop Bytes :=
  if n ≤ xs.length then .ok (xs.take n) else .error .panic

/-- `xs[lo..hi]` -/
def slice (xs : Bytes) (lo hi : ℕ) : Except Stop Bytes :=
  if lo ≤ hi ∧ hi ≤ xs.length then .ok ((xs.take hi).drop lo) else .error .panic

/-- `xs.drain(..n)` -/
def drain (xs : Bytes) (n : ℕ) : Except Stop Bytes :=
  if n ≤ xs.length then .ok (xs.drop n) else .error .panic

/-- `a - b` -/
def sub (a b : ℕ) : Except Stop ℕ := if b ≤ a then .ok (a - b) else .error .panic

section
variable {xs : Bytes} {b : UInt8} {i lo hi n m : ℕ}

theorem index_eq (h : xs[i]? = some b) : index xs i = .ok b := by
  rw [index, h]
  rfl

theorem sliceTo_eq (h : n ≤ xs.length) : sliceTo xs n = .ok (xs.take n) := if_pos h

theorem slice_eq (hlo : lo ≤ hi) (hhi : hi ≤ xs.length) :
    slice xs lo hi = .ok ((xs.take hi).drop lo) := if_pos ⟨hlo, hhi⟩

theorem drain_eq (h : n ≤ xs.length) : drain xs n = .ok (xs.drop n) := if_pos h

theorem sub_eq (h : m ≤ n) : sub n m = .ok (n - m) := if_pos h

end

/-! ## Lines and delimiters -/

/-- `take_frame` -/
def takeFrame (includeTerminators : Bool) (buf : Bytes) (splitPos termLen : ℕ) :
    Except Stop (Bytes × Bytes) := do
  let fb ← if includeTerminators then sliceTo buf (splitPos + termLen) else sliceTo buf splitPos
  let rest ← drain buf (splitPos + termLen)
  pure (fb, rest)

/-- `extract_delimited` -/
def extractDelimited (includeTerminators : Bool) (delim buf : Bytes) :
    Except Stop (Option Bytes × Bytes) :=
  match findSubsequence buf delim with
  | none => pure (none, buf)
  | some pos => do
    let fb ← if includeTerminators then sliceTo buf (pos + delim.length) else sliceTo buf pos
    let rest ← drain buf (pos + delim.length)
    pure (some fb, rest)

/-- `match_line_byte` -/
def matchLineByte (includeTerminators : Bool) (b : UInt8) (buf : Bytes) :
    Except Stop (Option Bytes × Bytes) :=
  match position buf b with
  | none => pure (none, buf)
  | some pos => do
    let r ← takeFrame includeTerminators buf pos 1
    pure (some r.1, r.2)

/-- `match_line_crlf` -/
def matchLineCrlf (includeTerminators : Bool) (buf : Bytes) : Except Stop (Option Bytes × Bytes) :=
  match findSubsequence buf [13, 10] with
  | none => pure (none, buf)
  | some pos => do
    let r ← takeFrame includeTerminators buf pos 2
    pure (some r.1, r.2)

/-- `match_auto_lf` -/
def matchAutoLf (includeTerminators : Bool) (buf : Bytes) :
    Except Stop (Option Bytes × LineState × Bytes) :=
  match position buf 10 with
  | some lfPos => do
    let strip ← if !includeTerminators && decide (0 < lfPos) then do
        let before ← sub lfPos 1
        let b ← index buf before
        pure (decide (b = 13))
      else pure false
    let r ← if strip then do
        let splitPos ← sub lfPos 1
        takeFrame includeTerminators buf splitPos 2
      else takeFrame includeTerminators buf lfPos 1
    pure (some r.1, .autoLf, r.2)
  | none =>
    match position buf 13 with
    | some crPos =>
      -- `get`, which does not panic
      if buf[crPos + 1]? = some 10 then do
        let r ← takeFrame includeTerminators buf crPos 2
        pure (some r.1, .autoLf, r.2)
      else if crPos + 1 < buf.length then do
        let r ← takeFrame includeTerminators buf crPos 1
        pure (some r.1, .crMode, r.2)
      else pure (none, .pendingCr crPos, buf)
    | none => pure (none, .autoLf, buf)

/-- `match_pending_cr` -/
def matchPendingCr (includeTerminators : Bool) (crPos : ℕ) (buf : Bytes) :
    Except Stop (Option Bytes × LineState × Bytes) :=
  if buf.length ≤ crPos + 1 then pure (none, .pendingCr crPos, buf)
  else do
    let nextByte ← index buf (crPos + 1)
    if nextByte = 10 then do
      let r ← takeFrame includeTerminators buf crPos 2
      pure (some r.1, .autoLf, r.2)
    else do
      let r ← takeFrame includeTerminators buf crPos 1
      pure (some r.1, .crMode, r.2)

/-- The branch `DecoderMode::Line` of `push`. -/
def extractLine (includeTerminators : Bool) (state : LineState) (buf : Bytes) :
    Except Stop (Option Bytes × LineState × Bytes) :=
  match state with
  | .lf => (matchLineByte includeTerminators 10 buf).map fun r => (r.1, .lf, r.2)
  | .cr => (matchLineByte includeTerminators 13 buf).map fun r => (r.1, .cr, r.2)
  | .crlf => (matchLineCrlf includeTerminators buf).map fun r => (r.1, .crlf, r.2)
  | .autoLf => matchAutoLf includeTerminators buf
  | .pendingCr crPos => matchPendingCr includeTerminators crPos buf
  | .crMode => (matchLineByte includeTerminators 13 buf).map fun r => (r.1, .crMode, r.2)

/-! ## Length prefixes -/

/-- `read_length_prefix` -/
def readLengthPrefix (bytes : Bytes) (prefixSize : ℕ) (endianness : Endianness) : Except Stop ℕ :=
  match prefixSize with
  | 1 => do
    let b ← index bytes 0
    pure b.toNat
  | 2 => do
    let arr ← sliceTo bytes 2
    pure (SerialMcp.readLengthPrefix arr endianness)
  | 4 => do
    let arr ← sliceTo bytes 4
    pure (SerialMcp.readLengthPrefix arr endianness)
  | _ => pure 0

/-- The payload length, in `push`. -/
def payloadLen (prefixSize : ℕ) (endianness : Endianness) (nextPayloadLen : Option ℕ)
    (buf : Bytes) : Except Stop (Option ℕ) :=
  match nextPayloadLen with
  | some len => pure (some len)
  | none =>
    if buf.length < prefixSize then pure none
    else do
      let bytes ← sliceTo buf prefixSize
      let len ← readLengthPrefix bytes prefixSize endianness
      pure (some len)

/-- What is left of the initial offset is skipped. -/
def skipOffset (remainingOffset : ℕ) (buf : Bytes) : Except Stop (ℕ × Bytes) :=
  if 0 < remainingOffset then do
    let skipped := min remainingOffset buf.length
    let rest ← drain buf skipped
    let off ← sub remainingOffset skipped
    pure (off, rest)
  else pure (remainingOffset, buf)

/-- The branch `DecoderMode::LengthPrefixed` of `push`. -/
def extractLengthPrefixed (includeTerminators : Bool) (prefixSize : ℕ) (endianness : Endianness)
    (remainingOffset : ℕ) (nextPayloadLen : Option ℕ) (buf : Bytes) :
    Except Stop (Option Bytes × ℕ × Option ℕ × Bytes) := do
  let (off, buf) ← skipOffset remainingOffset buf
  match ← payloadLen prefixSize endianness nextPayloadLen buf with
  | none => pure (none, off, none, buf)
  | some len =>
    let totalNeeded := prefixSize + len
    if buf.length < totalNeeded then pure (none, off, some len, buf)
    else do
      let frameBytes ← if includeTerminators then sliceTo buf totalNeeded
        else slice buf prefixSize totalNeeded
      let rest ← drain buf totalNeeded
      pure (some frameBytes, off, none, rest)

/-! ## Start and end markers -/

/-- The search for a start marker, in the branch `DecoderMode::StartEnd`. -/
def enterFrame (start : List Marker) (includeMarkers inFrame : Bool) (buf : Bytes) :
    Except Stop (Bool × Bytes) :=
  if inFrame then pure (true, buf)
  else match bestStart start buf with
    | some (pos, markerLen) => do
      let rest ← drain buf pos
      let rest ← if includeMarkers then pure rest else drain rest markerLen
      pure (true, rest)
    | none =>
      if keepLen start < buf.length then do
        let dropped ← sub buf.length (keepLen start)
        let rest ← drain buf dropped
        pure (false, rest)
      else pure (false, buf)

/-- The branch `DecoderMode::StartEnd` of `push`. -/
def extractStartEnd (start : List Marker) (fin : Marker) (includeMarkers inFrame : Bool)
    (buf : Bytes) : Except Stop (Option Bytes × Bool × Bytes) := do
  let (inFrame, buf) ← enterFrame start includeMarkers inFrame buf
  if inFrame then
    match findSubsequence buf fin.1 with
    | some pos => do
      let frameBytes ← if includeMarkers then sliceTo buf (pos + fin.1.length) else sliceTo buf pos
      let rest ← drain buf (pos + fin.1.length)
      pure (some frameBytes, false, rest)
    | none => pure (none, true, buf)
  else pure (none, false, buf)

/-! ## The decoding loop -/

/-- One turn of the loop in `push`, up to the frame. -/
def extract (includeTerminators : Bool) (mode : DecoderMode) (buf : Bytes) :
    Except Stop (Option Bytes × DecoderMode × Bytes) :=
  match mode with
  | .line state =>
    (extractLine includeTerminators state buf).map fun r => (r.1, .line r.2.1, r.2.2)
  | .delimiter delim =>
    (extractDelimited includeTerminators delim.1 buf).map fun r => (r.1, .delimiter delim, r.2)
  | .lengthPrefixed n endianness remainingOffset nextPayloadLen =>
    (extractLengthPrefixed includeTerminators n.1 endianness remainingOffset nextPayloadLen buf).map
      fun r => (r.1, .lengthPrefixed n endianness r.2.1 r.2.2.1, r.2.2.2)
  | .startEnd start fin includeMarkers inFrame =>
    (extractStartEnd start fin includeMarkers inFrame buf).map
      fun r => (r.1, .startEnd start fin includeMarkers r.2.1, r.2.2)
  -- `unreachable!`
  | .slip _ | .cobs _ => .error .panic

/-- What a loop returns. -/
abbrev Settled := Emitted × Option FrameDecodeError × FrameDecoder

/-- The loop of `push` behind the SLIP and COBS decoders. -/
def pushLoop : ℕ → FrameDecoder → Except Stop Settled
  | 0, _ => .error .fuel
  | n + 1, d => do
    let (consumed, mode, buf) ← extract d.includeTerminators d.mode d.buf
    match consumed with
    | none => pure (1, none, { d with buf, mode })
    | some frameBytes =>
      let r := emitFrame d.skipEmpty d.parser d.frameCount d.mode.frameType frameBytes
      let d := { d with buf, mode, frameCount := r.2 }
      match r.1.2 with
      | some e => pure (r.1.1, some e, d)
      | none => do
        let t ← pushLoop n d
        pure (r.1.1 * t.1, t.2)

/-! ## SLIP -/

/-- The inner loop of `slip_decode`, which reads the buffer from `readPos` on. -/
def slipFrame (d : FrameDecoder) : ℕ → ℕ → SlipState → ℕ → Except Stop Settled
  | 0, _, _, _ => .error .fuel
  | n + 1, readPos, st, frameCount =>
    if readPos < d.buf.length then do
      let b ← index d.buf readPos
      let r := slipByte d.skipEmpty d.parser frameCount b st
      match r.1.2 with
      | some e => do
        let rest ← drain d.buf (readPos + 1)
        pure (r.1.1, some e, { d with buf := rest, mode := .slip r.2.1, frameCount := r.2.2 })
      | none => do
        let t ← slipFrame d n (readPos + 1) r.2.1 r.2.2
        pure (r.1.1 * t.1, t.2)
    else do
      let rest ← drain d.buf readPos
      pure (1, none, { d with buf := rest, mode := .slip st, frameCount })

/-- `slip_decode` -/
def slipDecode : ℕ → FrameDecoder → SlipState → Except Stop Settled
  | 0, _, _ => .error .fuel
  | n + 1, d, .beforeFirstEnd =>
    match position d.buf slipEnd with
    | some pos => do
      let rest ← drain d.buf (pos + 1)
      slipDecode n { d with buf := rest } (.inFrame [] false)
    | none => pure (1, none, { d with buf := [], mode := .slip .beforeFirstEnd })
  | n + 1, d, .inFrame buf escaped => slipFrame d (n + 1) 0 (.inFrame buf escaped) d.frameCount

/-! ## COBS -/

/-- How the inner loop of `cobs_decode` ends. -/
inductive CobsExit where
  /-- `return`, with a fatal error -/
  | returned (e : FrameDecodeError)
  /-- `break`, with the read position and the state at it -/
  | broke (readPos : ℕ) (st : CobsState)

/-- The inner loop of `cobs_decode`, which reads the buffer from `readPos` on. -/
def cobsFrame (d : FrameDecoder) :
    ℕ → ℕ → CobsState → ℕ → Except Stop (Emitted × CobsExit × FrameDecoder)
  | 0, _, _, _ => .error .fuel
  | n + 1, readPos, st, frameCount =>
    -- the pending zero is flushed before the end of the buffer is seen
    let st := cobsFlush st
    if d.buf.length ≤ readPos then pure (1, .broke readPos st, { d with frameCount })
    else do
      let b ← index d.buf readPos
      let r := cobsByte d.skipEmpty d.parser frameCount b st
      match r.1.2 with
      | some e => do
        let rest ← drain d.buf (readPos + 1)
        pure (r.1.1, .returned e,
          { d with buf := rest, mode := .cobs r.2.1, frameCount := r.2.2 })
      | none =>
        if r.2.1 = .beforeFirstDelim then do
          -- the delimiter
          let rest ← drain d.buf (readPos + 1)
          pure (r.1.1, .broke (readPos + 1) .beforeFirstDelim,
            { d with buf := rest, frameCount := r.2.2 })
        else do
          let t ← cobsFrame d n (readPos + 1) r.2.1 r.2.2
          pure (r.1.1 * t.1, t.2)

/-- `cobs_decode` -/
def cobsDecode : ℕ → FrameDecoder → CobsState → Except Stop Settled
  | 0, _, _ => .error .fuel
  | n + 1, d, .beforeFirstDelim =>
    match position d.buf 0 with
    | some pos => do
      let rest ← drain d.buf (pos + 1)
      cobsDecode n { d with buf := rest } (.inFrame [] 0 false)
    | none => pure (1, none, { d with buf := [], mode := .cobs .beforeFirstDelim })
  | n + 1, d, .inFrame decoded remaining pendingZero => do
    let (o, exit, d) ← cobsFrame d (n + 1) 0 (.inFrame decoded remaining pendingZero) d.frameCount
    match exit with
    | .returned e => pure (o, some e, d)
    | .broke readPos st =>
      if st ≠ .beforeFirstDelim then do
        let rest ← drain d.buf readPos
        pure (o, none, { d with buf := rest, mode := .cobs st })
      else do
        let t ← cobsDecode n d st
        pure (o * t.1, t.2)

/-! ## Calls -/

/-- The loop that `push` chooses. -/
def settle (n : ℕ) (d : FrameDecoder) : Except Stop Settled :=
  match d.mode with
  | .slip st => slipDecode n d st
  | .cobs st => cobsDecode n d st
  | _ => pushLoop n d

/-- `FrameDecoder::push` -/
def push (n : ℕ) (d : FrameDecoder) (chunk : Bytes) : Except Stop (PushOutcome × FrameDecoder) := do
  let r ← settle n (d.feed chunk)
  pure (⟨r.1.frames, r.1.framesDropped, r.2.1⟩, r.2.2)

/-- A call; `flush_partial` has nothing that goes out of range. -/
def call (n : ℕ) (d : FrameDecoder) : Call → Except Stop FrameDecoder
  | .push chunk => (push n d chunk).map Prod.snd
  | .flushPartial => pure d.flushPartial.2

/-- Call after call. -/
def run (n : ℕ) (d : FrameDecoder) (calls : List Call) : Except Stop FrameDecoder :=
  calls.foldlM (call n) d

/-! ## Nothing is out of range -/

section
variable {α β : Type}

@[simp] theorem ok_bind (a : α) (f : α → Except Stop β) : (Except.ok a >>= f) = f a := rfl

@[simp] theorem pure_eq_ok (a : α) : (pure a : Except Stop α) = .ok a := rfl

@[simp] theorem map_ok (f : α → β) (a : α) : (Except.ok a : Except Stop α).map f = .ok (f a) := rfl

end

section
variable {buf : Bytes} {b : UInt8} {pos len : ℕ}

theorem position_le (h : position buf b = some pos) : pos + 1 ≤ buf.length := by
  obtain ⟨pre, rest, rfl, rfl, -⟩ := position_eq_some.1 h
  simp

theorem drop_position (h : position buf b = some pos) : ∃ pre,
    buf = pre ++ b :: buf.drop (pos + 1) ∧ b ∉ pre ∧ (buf.drop (pos + 1)).length < buf.length := by
  obtain ⟨pre, rest, rfl, rfl, hpre⟩ := position_eq_some.1 h
  have hdrop : (pre ++ b :: rest).drop (pre.length + 1) = rest := by
    rw [← List.drop_drop, List.drop_left, List.drop_one, List.tail_cons]
  rw [hdrop]
  refine ⟨pre, rfl, hpre, ?_⟩
  simp
  omega

theorem takeFrame_eq (inc : Bool) (h : pos + len ≤ buf.length) :
    takeFrame inc buf pos len = .ok (SerialMcp.takeFrame inc buf pos len) := by
  have hpos : pos ≤ buf.length := by omega
  cases inc <;> simp [takeFrame, SerialMcp.takeFrame, sliceTo_eq, drain_eq, h, hpos]

theorem extractDelimited_eq (inc : Bool) {delim : Bytes} (hne : delim ≠ []) :
    extractDelimited inc delim buf = .ok (SerialMcp.extractDelimited inc delim buf) := by
  rw [SerialMcp.extractDelimited, extractDelimited]
  rcases h : findSubsequence buf delim with _ | pos
  · rfl
  · have hle := findSubsequence_le hne h
    have hpos : pos ≤ buf.length := by omega
    cases inc <;> simp [SerialMcp.takeFrame, sliceTo_eq, drain_eq, hle, hpos]

theorem matchLineByte_eq (inc : Bool) (b : UInt8) (buf : Bytes) :
    matchLineByte inc b buf = .ok (SerialMcp.matchLineByte inc b buf) := by
  rw [SerialMcp.matchLineByte, matchLineByte]
  rcases h : position buf b with _ | pos
  · rfl
  · simp [takeFrame_eq inc (position_le h)]

theorem matchLineCrlf_eq (inc : Bool) (buf : Bytes) :
    matchLineCrlf inc buf = .ok (SerialMcp.matchLineCrlf inc buf) := by
  rw [SerialMcp.matchLineCrlf, SerialMcp.extractDelimited, matchLineCrlf]
  rcases h : findSubsequence buf [13, 10] with _ | pos
  · rfl
  · have hle : pos + 2 ≤ buf.length := findSubsequence_le (by simp) h
    simp [takeFrame_eq inc hle]

theorem matchAutoLf_eq (inc : Bool) (buf : Bytes) :
    matchAutoLf inc buf = .ok (SerialMcp.matchAutoLf inc buf) := by
  rw [SerialMcp.matchAutoLf, matchAutoLf]
  rcases hlf : position buf 10 with _ | lfPos
  · rcases hcr : position buf 13 with _ | crPos
    · rfl
    · have hle := position_le hcr
      simp only
      split
      · next hnext =>
        have hcrlf : crPos + 2 ≤ buf.length := (List.getElem?_eq_some_iff.1 hnext).1
        simp [takeFrame_eq inc hcrlf]
      · split <;> simp [takeFrame_eq inc hle]
  · have hle := position_le hlf
    have hline := takeFrame_eq inc hle
    simp only
    by_cases hpos : !inc && decide (0 < lfPos)
    · have hlt : lfPos - 1 < buf.length := by omega
      have hb := List.getElem?_eq_getElem hlt
      have hone : 1 ≤ lfPos := by
        simp only [Bool.and_eq_true, decide_eq_true_eq] at hpos
        exact hpos.2
      have hstrip : lfPos - 1 + 2 ≤ buf.length := by omega
      simp only [hpos, if_true, sub_eq hone, index_eq hb, hb, ok_bind, pure_eq_ok]
      by_cases hcr : buf[lfPos - 1] = 13
      · simp [hcr, takeFrame_eq inc hstrip]
      · simp [hcr, hline]
    · simp [hpos, hline]

theorem matchPendingCr_eq (inc : Bool) (crPos : ℕ) (buf : Bytes) :
    matchPendingCr inc crPos buf = .ok (SerialMcp.matchPendingCr inc crPos buf) := by
  rw [SerialMcp.matchPendingCr, matchPendingCr]
  by_cases h : buf.length ≤ crPos + 1
  · rw [if_pos h, List.getElem?_eq_none h]
    rfl
  · have hb := List.getElem?_eq_getElem (Nat.lt_of_not_le h)
    have hcrlf : crPos + 2 ≤ buf.length := by omega
    have hcr : crPos + 1 ≤ buf.length := by omega
    rw [if_neg h, index_eq hb, hb, ok_bind, takeFrame_eq inc hcrlf, takeFrame_eq inc hcr]
    simp only [ok_bind, pure_eq_ok]
    split <;> rfl

theorem extractLine_eq (inc : Bool) (st : LineState) (buf : Bytes) :
    extractLine inc st buf = .ok (SerialMcp.extractLine inc st buf) := by
  cases st with
  | lf => simp [extractLine, matchLineByte_eq, SerialMcp.extractLine]
  | cr => simp [extractLine, matchLineByte_eq, SerialMcp.extractLine]
  | crlf => simp [extractLine, matchLineCrlf_eq, SerialMcp.extractLine]
  | autoLf => exact matchAutoLf_eq inc buf
  | pendingCr crPos => exact matchPendingCr_eq inc crPos buf
  | crMode => simp [extractLine, matchLineByte_eq, SerialMcp.extractLine]

end

section
variable {n : ℕ} {buf : Bytes}

theorem readLengthPrefix_eq (hn : n = 1 ∨ n = 2 ∨ n = 4) (endianness : Endianness)
    (h : buf.length = n) :
    readLengthPrefix buf n endianness = .ok (SerialMcp.readLengthPrefix buf endianness) := by
  rcases hn with rfl | rfl | rfl
  · obtain ⟨b, rfl⟩ := List.length_eq_one_iff.1 h
    cases endianness <;> simp [readLengthPrefix, index, SerialMcp.readLengthPrefix]
  · rw [readLengthPrefix, sliceTo_eq h.ge, List.take_of_length_le h.le]
    rfl
  · rw [readLengthPrefix, sliceTo_eq h.ge, List.take_of_length_le h.le]
    rfl

theorem payloadLen_eq (hn : n = 1 ∨ n = 2 ∨ n = 4) (endianness : Endianness)
    (nextPayloadLen : Option ℕ) (buf : Bytes) : payloadLen n endianness nextPayloadLen buf =
      .ok (SerialMcp.payloadLen n endianness nextPayloadLen buf) := by
  rcases nextPayloadLen with _ | len
  · by_cases h : buf.length < n
    · simp [payloadLen, SerialMcp.payloadLen, h]
    · have hle : n ≤ buf.length := Nat.le_of_not_lt h
      have hvalue := readLengthPrefix_eq hn endianness (List.length_take_of_le hle)
      simp [payloadLen, SerialMcp.payloadLen, h, sliceTo_eq hle, hvalue]
  · rfl

theorem skipOffset_eq (off : ℕ) (buf : Bytes) :
    skipOffset off buf = .ok (off - buf.length, buf.drop off) := by
  have hdrop : buf.drop (min off buf.length) = buf.drop off := by
    rcases Nat.le_total off buf.length with h | h
    · rw [Nat.min_eq_left h]
    · rw [Nat.min_eq_right h, List.drop_length, List.drop_eq_nil_of_le h]
  have hleft : off - min off buf.length = off - buf.length := by omega
  rcases Nat.eq_zero_or_pos off with rfl | hpos
  · simp [skipOffset]
  · simp only [skipOffset, hpos, if_true, drain_eq (Nat.min_le_right off buf.length),
      sub_eq (Nat.min_le_left off buf.length), ok_bind, pure_eq_ok, hdrop, hleft]

theorem extractLengthPrefixed_eq (inc : Bool) (hn : n = 1 ∨ n = 2 ∨ n = 4)
    (endianness : Endianness) (off : ℕ) (nextPayloadLen : Option ℕ) (buf : Bytes) :
    extractLengthPrefixed inc n endianness off nextPayloadLen buf =
      .ok (SerialMcp.extractLengthPrefixed inc n endianness off nextPayloadLen buf) := by
  rw [extractLengthPrefixed, SerialMcp.extractLengthPrefixed, SerialMcp.takePrefixed, skipOffset_eq]
  simp only [ok_bind, payloadLen_eq hn]
  rcases SerialMcp.payloadLen n endianness nextPayloadLen (buf.drop off) with _ | len
  · rfl
  · by_cases hshort : (buf.drop off).length < n + len
    · simp only [hshort, if_true, pure_eq_ok]
    · have htotal : n + len ≤ (buf.drop off).length := Nat.le_of_not_lt hshort
      have hheader : n ≤ n + len := Nat.le_add_right ..
      cases inc <;> simp only [hshort, sliceTo_eq htotal, slice_eq hheader htotal, drain_eq htotal,
        ok_bind, pure_eq_ok, Bool.false_eq_true, if_true, if_false]

/-- Outside a frame without a start marker, all but `keepLen` bytes are dropped. -/
theorem enterFrame_eq (start : List Marker) (includeMarkers inFrame : Bool) (buf : Bytes) :
    enterFrame start includeMarkers inFrame buf =
      .ok (match SerialMcp.enterFrame start includeMarkers inFrame buf with
        | none => (false, buf.drop (buf.length - keepLen start))
        | some body => (true, body)) := by
  cases inFrame with
  | true => rfl
  | false =>
    rw [enterFrame, SerialMcp.enterFrame]
    rcases h : bestStart start buf with _ | ⟨pos, markerLen⟩
    · by_cases hkeep : keepLen start < buf.length
      · simp [hkeep, sub_eq hkeep.le, drain_eq]
      · have hall : buf.length - keepLen start = 0 := by omega
        simp [hkeep, hall]
    · obtain ⟨m, hm, rfl⟩ := bestStart_eq_some.1 h
      have hle := occurrence_le hm.found m.2
      have hpos : pos ≤ buf.length := by omega
      have hmarker : m.1.length ≤ (buf.drop pos).length := by
        rw [List.length_drop]
        omega
      cases includeMarkers <;> simp [drain_eq hpos, drain_eq hmarker]

theorem extractStartEnd_eq (start : List Marker) (fin : Marker) (includeMarkers inFrame : Bool)
    (buf : Bytes) : extractStartEnd start fin includeMarkers inFrame buf =
      .ok (SerialMcp.extractStartEnd start fin includeMarkers inFrame buf) := by
  rw [extractStartEnd, SerialMcp.extractStartEnd, enterFrame_eq]
  rcases SerialMcp.enterFrame start includeMarkers inFrame buf with _ | body
  · rfl
  · simp only [ok_bind, if_true]
    rcases h : findSubsequence body fin.1 with _ | pos
    · rfl
    · have hle := findSubsequence_le fin.2 h
      have hpos : pos ≤ body.length := by omega
      cases includeMarkers <;> simp [sliceTo_eq, drain_eq, hle, hpos]

end

/-- The arms for SLIP and COBS are not reached in the other modes. -/
theorem extract_eq {d : FrameDecoder} (hx : d.Extracts) :
    extract d.includeTerminators d.mode d.buf =
      .ok (SerialMcp.extract d.includeTerminators d.mode d.buf) := by
  obtain ⟨buf, mode, count, inc, skip, parser⟩ := d
  cases mode with
  | line st => simp [extract, extractLine_eq, SerialMcp.extract]
  | delimiter delim => simp [extract, extractDelimited_eq inc delim.2, SerialMcp.extract]
  | lengthPrefixed n endianness off nextPayloadLen =>
    simp [extract, extractLengthPrefixed_eq inc n.2, SerialMcp.extract]
  | startEnd start fin markers inFrame => simp [extract, extractStartEnd_eq, SerialMcp.extract]
  | slip st => exact absurd rfl hx.1
  | cobs st => exact absurd rfl hx.2

/-! ## The loops end -/

section
variable {d : FrameDecoder}

/-- **The loop of `push`** takes at most one turn more than there are bytes. -/
theorem pushLoop_eq {n : ℕ} (hx : d.Extracts) (hn : d.buf.length < n) :
    pushLoop n d = .ok (decoder.settle d) := by
  induction n generalizing d with
  | zero => exact absurd hn (Nat.not_lt_zero _)
  | succ n ih =>
    rw [pushLoop, extract_eq hx]
    have hnext := next_of_extracts hx
    rcases hf : SerialMcp.extract d.includeTerminators d.mode d.buf with ⟨_ | frameBytes, mode, buf⟩
    · simp only [nextFrame, hf] at hnext
      rw [settle_wait hnext]
      rfl
    · simp only [nextFrame, hf] at hnext
      rcases hr : emitFrame d.skipEmpty d.parser d.frameCount d.mode.frameType frameBytes with
        ⟨⟨o, _ | e⟩, count⟩
      · simp only [hr] at hnext
        have hlt := next_shortens hnext
        have hx₁ : Extracts { d with buf, mode, frameCount := count } := by
          have hft := extract_frameType d.includeTerminators d.mode d.buf
          rw [hf] at hft
          simpa only [Extracts, hft] using hx
        rw [settle_event hnext]
        simp only [ok_bind, hr, ih hx₁ (Nat.lt_of_lt_of_le hlt (Nat.le_of_lt_succ hn))]
        rfl
      · simp only [hr] at hnext
        rw [settle_fatal hnext]
        simp only [ok_bind, hr]
        rfl

/-- Outside a frame: every byte but `b` is discarded, and `b` leads on to `mode'`. -/
structure Seeks (mode mode' : DecoderMode) (b : UInt8) : Prop where
  skip : ∀ {d : FrameDecoder} {b' : UInt8} {rest : Bytes}, b' ≠ b →
    next { d with buf := b' :: rest, mode } = (some (1, none), { d with buf := rest, mode })
  found : ∀ {d : FrameDecoder} {rest : Bytes},
    next { d with buf := b :: rest, mode } = (some (1, none), { d with buf := rest, mode := mode' })
  wait : ∀ {d : FrameDecoder},
    next { d with buf := [], mode } = (none, { d with buf := [], mode })

section
variable {mode mode' : DecoderMode} {b : UInt8} {pos : ℕ}

theorem Seeks.settle_skip (hs : Seeks mode mode' b) {pre : Bytes} (h : b ∉ pre) (t : Bytes) :
    decoder.settle { d with buf := pre ++ t, mode } = decoder.settle { d with buf := t, mode } := by
  induction pre with
  | nil => rfl
  | cons b' pre ih =>
    rw [List.mem_cons, not_or] at h
    rw [List.cons_append, settle_event (hs.skip (Ne.symm h.1)), one_mul, ih h.2]

theorem Seeks.settle_none (hs : Seeks mode mode' b) (h : position d.buf b = none) :
    decoder.settle { d with mode } = (1, none, { d with buf := [], mode }) := by
  have hskip := hs.settle_skip (d := d) (position_eq_none.1 h) []
  rw [List.append_nil] at hskip
  rw [hskip, settle_wait hs.wait]

theorem Seeks.settle_some (hs : Seeks mode mode' b) (h : position d.buf b = some pos) :
    decoder.settle { d with mode } =
      decoder.settle { d with buf := d.buf.drop (pos + 1), mode := mode' } := by
  obtain ⟨pre, hbuf, hpre, -⟩ := drop_position h
  have hskip := hs.settle_skip (d := d) hpre (b :: d.buf.drop (pos + 1))
  rw [← hbuf] at hskip
  rw [hskip, settle_event hs.found, one_mul]

end

/-! ## The SLIP loops -/

theorem next_slip (d : FrameDecoder) (b : UInt8) (rest : Bytes) (st : SlipState) (count : ℕ) :
    next { d with buf := b :: rest, mode := .slip st, frameCount := count } =
      (some (slipByte d.skipEmpty d.parser count b st).1,
        { d with
          buf := rest
          mode := .slip (slipByte d.skipEmpty d.parser count b st).2.1
          frameCount := (slipByte d.skipEmpty d.parser count b st).2.2 }) := rfl

theorem slip_seeks : Seeks (.slip .beforeFirstEnd) (.slip (.inFrame [] false)) slipEnd where
  skip h := by simp [next, nextSlip, slipByte, h]
  found := rfl
  wait := rfl

theorem slipFrame_eq {n readPos count : ℕ} {st : SlipState} (hle : readPos ≤ d.buf.length)
    (hn : d.buf.length < n + readPos) : slipFrame d n readPos st count =
      .ok (decoder.settle
        { d with buf := d.buf.drop readPos, mode := .slip st, frameCount := count }) := by
  induction n generalizing readPos count st with
  | zero => omega
  | succ n ih =>
    rw [slipFrame]
    by_cases hlt : readPos < d.buf.length
    · have hnext := next_slip d d.buf[readPos] (d.buf.drop (readPos + 1)) st count
      rw [if_pos hlt, index_eq (List.getElem?_eq_getElem hlt), List.drop_eq_getElem_cons hlt]
      rcases hr : slipByte d.skipEmpty d.parser count d.buf[readPos] st with
        ⟨⟨o, _ | e⟩, st', count'⟩
      · simp only [hr] at hnext
        rw [settle_event hnext]
        simp only [ok_bind, hr, ih hlt (by omega : d.buf.length < n + (readPos + 1))]
        rfl
      · simp only [hr] at hnext
        rw [settle_fatal hnext]
        simp only [ok_bind, hr, drain_eq hlt]
        rfl
    · have hend : d.buf.drop readPos = [] := List.drop_eq_nil_of_le (Nat.le_of_not_lt hlt)
      have hnext : next { d with buf := [], mode := .slip st, frameCount := count } = _ := rfl
      rw [if_neg hlt, drain_eq hle, hend, settle_wait hnext]
      rfl

/-- **`slip_decode`** ends, and computes what its automaton does byte by byte. -/
theorem slipDecode_eq {n : ℕ} {st : SlipState} (hn : d.buf.length < n) :
    slipDecode n d st = .ok (decoder.settle { d with mode := .slip st }) := by
  have hframe : ∀ {n : ℕ} {d : FrameDecoder} {buf : Bytes} {escaped : Bool}, d.buf.length < n →
      slipDecode n d (.inFrame buf escaped) =
        .ok (decoder.settle { d with mode := .slip (.inFrame buf escaped) }) := by
    intro n d buf escaped hn
    rcases n with _ | n
    · exact absurd hn (Nat.not_lt_zero _)
    · exact slipFrame_eq (Nat.zero_le _) hn
  cases st with
  | inFrame buf escaped => exact hframe hn
  | beforeFirstEnd =>
    rcases n with _ | n
    · exact absurd hn (Nat.not_lt_zero _)
    · rw [slipDecode]
      rcases h : position d.buf slipEnd with _ | pos
      · rw [slip_seeks.settle_none h]
        rfl
      · obtain ⟨-, -, -, hlt⟩ := drop_position h
        rw [slip_seeks.settle_some h]
        simp only [drain_eq (position_le h), ok_bind]
        exact hframe (Nat.lt_of_lt_of_le hlt (Nat.le_of_lt_succ hn))

/-! ## The COBS loops -/

theorem next_cobs (d : FrameDecoder) (b : UInt8) (rest : Bytes) (st : CobsState) (count : ℕ) :
    next { d with buf := b :: rest, mode := .cobs st, frameCount := count } =
      (some (cobsByte d.skipEmpty d.parser count b (cobsFlush st)).1,
        { d with
          buf := rest
          mode := .cobs (cobsByte d.skipEmpty d.parser count b (cobsFlush st)).2.1
          frameCount := (cobsByte d.skipEmpty d.parser count b (cobsFlush st)).2.2 }) := rfl

theorem cobs_seeks : Seeks (.cobs .beforeFirstDelim) (.cobs (.inFrame [] 0 false)) 0 where
  skip h := by simp [next, nextCobs, cobsFlush, cobsByte, h]
  found := rfl
  wait := rfl

/-- What the inner loop leaves to do, where `s` is to come out: nothing behind a fatal error;
    to go on with fewer than `m` bytes behind a delimiter; to drop the bytes read at the end. -/
def Ends (m : ℕ) (s : Settled) : Emitted × CobsExit × FrameDecoder → Prop
  | (o, .returned e, d) => s = (o, some e, d)
  | (o, .broke _ .beforeFirstDelim, d) => d.buf.length < m ∧
    s = (o * (decoder.settle { d with mode := .cobs .beforeFirstDelim }).1,
      (decoder.settle { d with mode := .cobs .beforeFirstDelim }).2)
  | (o, .broke readPos st, d) => readPos = d.buf.length ∧
    s = (o, none, { d with buf := [], mode := .cobs st })

theorem Ends.mul {m : ℕ} {s : Settled} {t : Emitted × CobsExit × FrameDecoder} (h : Ends m s t)
    (o : Emitted) : Ends m (o * s.1, s.2) (o * t.1, t.2) := by
  obtain ⟨o', e | ⟨readPos, _ | ⟨decoded, remaining, pendingZero⟩⟩, d⟩ := t
  · simp only [Ends] at h ⊢
    rw [h]
  · obtain ⟨hlt, hs⟩ := h
    refine ⟨hlt, ?_⟩
    rw [hs, mul_assoc]
  · obtain ⟨hpos, hs⟩ := h
    refine ⟨hpos, ?_⟩
    rw [hs]

theorem cobsFlush_ne {st : CobsState} (h : st ≠ .beforeFirstDelim) :
    cobsFlush st ≠ .beforeFirstDelim := by
  rcases st with _ | ⟨decoded, _ | n, _ | _⟩
  · exact absurd rfl h
  all_goals exact CobsState.noConfusion

theorem Ends.rest {st : CobsState} (h : st ≠ .beforeFirstDelim) (m : ℕ) (d : FrameDecoder) :
    Ends m (1, none, { d with buf := [], mode := .cobs st }) (1, .broke d.buf.length st, d) := by
  cases st with
  | beforeFirstDelim => exact absurd rfl h
  | inFrame decoded remaining pendingZero => exact ⟨rfl, rfl⟩

theorem cobsFrame_ends {n readPos : ℕ} {st : CobsState} (count : ℕ) (hst : st ≠ .beforeFirstDelim)
    (hle : readPos ≤ d.buf.length) (hn : d.buf.length < n + readPos) :
    ∃ t, cobsFrame d n readPos st count = .ok t ∧ Ends d.buf.length
      (decoder.settle
        { d with buf := d.buf.drop readPos, mode := .cobs st, frameCount := count }) t := by
  induction n generalizing readPos count st with
  | zero => omega
  | succ n ih =>
    rw [cobsFrame]
    by_cases hend : d.buf.length ≤ readPos
    · obtain rfl := Nat.le_antisymm hle hend
      have hnext : next { d with buf := [], mode := .cobs st, frameCount := count } = _ := rfl
      rw [List.drop_length, settle_wait hnext]
      simp only [Nat.le_refl, if_true]
      exact ⟨_, rfl, Ends.rest (cobsFlush_ne hst) _ { d with frameCount := count }⟩
    · have hlt := Nat.lt_of_not_le hend
      have hnext := next_cobs d d.buf[readPos] (d.buf.drop (readPos + 1)) st count
      simp only [if_neg hend, index_eq (List.getElem?_eq_getElem hlt),
        List.drop_eq_getElem_cons hlt, ok_bind]
      rcases hr : cobsByte d.skipEmpty d.parser count d.buf[readPos] (cobsFlush st) with
        ⟨⟨o, _ | e⟩, st', count'⟩
      · simp only [hr] at hnext
        rw [settle_event hnext]
        by_cases hdelim : st' = .beforeFirstDelim
        · subst hdelim
          simp only [if_true, drain_eq hlt, ok_bind, pure_eq_ok]
          refine ⟨_, rfl, ?_, rfl⟩
          rw [List.length_drop]
          omega
        · obtain ⟨t, ht, hends⟩ := ih count' hdelim hlt (by omega)
          simp only [hdelim, if_false, ht, ok_bind, pure_eq_ok]
          exact ⟨_, rfl, hends.mul o⟩
      · simp only [hr] at hnext
        rw [settle_fatal hnext]
        simp only [drain_eq hlt, ok_bind, pure_eq_ok]
        exact ⟨_, rfl, rfl⟩

/-- **`cobs_decode`** ends, and computes what its automaton does byte by byte. -/
theorem cobsDecode_eq {n : ℕ} {st : CobsState} (hn : d.buf.length < n) :
    cobsDecode n d st = .ok (decoder.settle { d with mode := .cobs st }) := by
  induction n generalizing d st with
  | zero => exact absurd hn (Nat.not_lt_zero _)
  | succ n ih =>
    cases st with
    | beforeFirstDelim =>
      rw [cobsDecode]
      rcases h : position d.buf 0 with _ | pos
      · rw [cobs_seeks.settle_none h]
        rfl
      · obtain ⟨-, -, -, hlt⟩ := drop_position h
        rw [cobs_seeks.settle_some h]
        simp only [drain_eq (position_le h), ok_bind]
        exact ih (Nat.lt_of_lt_of_le hlt (Nat.le_of_lt_succ hn))
    | inFrame decoded remaining pendingZero =>
      have hin : CobsState.inFrame decoded remaining pendingZero ≠ .beforeFirstDelim :=
        CobsState.noConfusion
      obtain ⟨⟨o, exit, d'⟩, ht, hends⟩ := cobsFrame_ends d.frameCount hin (Nat.zero_le _) hn
      rw [cobsDecode, ht, ok_bind]
      rcases exit with e | ⟨readPos, _ | ⟨decoded', remaining', pendingZero'⟩⟩
      · exact congrArg Except.ok hends.symm
      · obtain ⟨hlt, hs⟩ := hends
        have hgo := @ih d' .beforeFirstDelim (Nat.lt_of_lt_of_le hlt (Nat.le_of_lt_succ hn))
        simp only [ne_eq, not_true_eq_false, if_false, hgo, ok_bind]
        exact congrArg Except.ok hs.symm
      · obtain ⟨rfl, hs⟩ := hends
        simp only [ne_eq, reduceCtorEq, not_false_eq_true, if_true, drain_eq (Nat.le_refl _),
          List.drop_length, ok_bind]
        exact congrArg Except.ok hs.symm

end

/-! ## Totality -/

section
variable {d : FrameDecoder} {n : ℕ}

theorem settle_eq (hn : d.buf.length < n) : settle n d = .ok (decoder.settle d) := by
  obtain ⟨buf, mode, count, inc, skip, parser⟩ := d
  rcases mode_cases ⟨buf, mode, count, inc, skip, parser⟩ with ⟨st, rfl⟩ | ⟨st, rfl⟩ | hx
  · exact slipDecode_eq hn
  · exact cobsDecode_eq hn
  · have hloop : settle n ⟨buf, mode, count, inc, skip, parser⟩ =
        pushLoop n ⟨buf, mode, count, inc, skip, parser⟩ := by
      cases mode with
      | slip st => exact absurd rfl hx.1
      | cobs st => exact absurd rfl hx.2
      | _ => rfl
    rw [hloop]
    exact pushLoop_eq hx hn

/-- **Step**: a push takes at most one turn more than there are bytes. -/
theorem push_eq {chunk : Bytes} (hn : (d.feed chunk).buf.length < n) :
    push n d chunk = .ok (d.push chunk) := by
  rw [push, settle_eq hn]
  rfl

end

/-- **The decoder is total**: from any decoder, and so from every one that `new` returns, any
    pushes and flushes end, without a panic, in the decoder that `Framing.Decoder` computes. -/
theorem decoder_total (d : FrameDecoder) (calls : List Call) :
    ∃ n₀, ∀ n ≥ n₀, run n d calls = .ok (calls.foldl Call.run d) := by
  induction calls generalizing d with
  | nil => exact ⟨0, fun _ _ => rfl⟩
  | cons c calls ih =>
    obtain ⟨n₀, hrest⟩ := ih (c.run d)
    cases c with
    | push chunk =>
      refine ⟨max n₀ ((d.feed chunk).buf.length + 1), fun n hn => ?_⟩
      have hpush := push_eq (show (d.feed chunk).buf.length < n by omega)
      rw [run, List.foldlM_cons, call, hpush, map_ok, ok_bind]
      exact hrest n (by omega)
    | flushPartial => exact ⟨n₀, hrest⟩

end CheckedDecoder

end SerialMcp
