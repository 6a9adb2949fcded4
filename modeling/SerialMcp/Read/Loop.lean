/-
  Ring-based reads (`tools/read_loop.rs`): the read core on a private cursor,
  shared by `read`, `transact` and `capture_boot`, its shared-cursor wrapper,
  and the entry of the tool `read` (`tools/io_ops.rs`).

  * `processInitial`: what is already buffered (the raw cat path, the match
    against history, the framed history);
  * `waitOnce` and `runWait`: one turn of the wait loop, and the loop;
  * `complete`: every ordinary return path ends here;
  * `readFromPrivateCursor`, `readBytesFromRing`, `read`.

  The loop is bounded by a number of turns.  A read that did not finish within
  them, that fails as a tool, or that panics has a `Stuck` result.
-/
import SerialMcp.Read.World
import SerialMcp.Read.Consume

namespace SerialMcp

open Interact RxOp

/-- How a read can end without an outcome. -/
inductive Stuck where
  /-- a tool error with its text -/
  | toolError (e : String)
  /-- a slice index out of range -/
  | panic
  /-- still waiting after the given number of turns -/
  | waiting
  deriving DecidableEq, Repr

/-- Outcome of a read call. -/
structure ReadOutcome where
  bytes : Bytes
  elapsedMs : ℕ
  metadata : RxStopMetadata
  matched : Bool
  matchIndex : Option ℕ
  matchFrameIndex : Option ℕ
  frames : List Frame
  framesDropped : ℕ
  error : Option String
  /-- stream offset where this read's data starts -/
  fromOffset : Option ℕ
  /-- cursor value after this read -/
  nextOffset : Option ℕ
  /-- bytes lost to ring wrap since the cursor's original position -/
  bytesLost : ℕ
  bufferedRemaining : ℕ
  startOffset : ℕ
  endOffset : ℕ

/-- What a caller of a private read supplies. -/
structure ReadRequest where
  maxBytes : ℕ
  timeoutMs : Option ℕ := none
  noNewRxTimeoutMs : Option ℕ := none
  matcher : Option Matcher := none
  /-- whether the read watches a connection -/
  conn : Bool := true
  framing : Option RxFramingConfig := none
  parser : Option ParserConfig := none

/-- `ReadCompletion` -/
structure ReadCompletion where
  metadata : RxStopMetadata
  matched : Bool
  matchIndex : Option ℕ
  matchFrameIndex : Option ℕ
  payloadOverride : Option Bytes
  finalCursor : ℕ

/-- `ReadDriver`: all mutable state of one private read. -/
structure ReadDriver where
  originalCursor : ℕ
  maxBytes : ℕ
  readStart : ℕ
  effectiveTimeoutMs : ℕ
  ctrl : RxStopController
  matcher : Option Matcher
  decoder : Option FrameDecoder
  maxFrames : Option ℕ
  conn : Bool
  acc : ReadAccumulator

/-- `DEFAULT_READ_TIMEOUT_MS` -/
def defaultReadTimeoutMs : ℕ := 1000

/-! ## Cursors and completion -/

/-- `advance_private_cursor` -/
def advancePrivateCursor (base consumed : ℕ) : RxProg ℕ := do
  let e ← ringEnd
  pure (min (saturatingAdd base consumed) e)

/-- `base.wrapping_add(n).min(ring.end_offset())` -/
def wrapPrivateCursor (base n : ℕ) : RxProg ℕ := do
  let e ← ringEnd
  pure (min (wrappingAdd base n) e)

namespace ReadAccumulator

/-- The offsets of `into_outcome`, from the ring's start and end at completion:
    `clamped_from`, `next_off`, and whether the outcome carries them. -/
def clampedFrom (originalCursor startOff endOff : ℕ) : ℕ :=
  min (max originalCursor startOff) endOff

/-- A read that consumed and returned nothing reports no offsets. -/
def carriesOffsets (acc : ReadAccumulator) : Bool :=
  !(acc.returnedBytes.isEmpty && acc.consumedOffset == 0)

/-- `into_outcome` -/
def intoOutcome (acc : ReadAccumulator) (originalCursor maxBytes elapsedMs : ℕ)
    (completion : ReadCompletion) : RxProg (ReadOutcome × ℕ) := do
  let startOff ← ringStart
  let endOff ← ringEnd
  let from_ := clampedFrom originalCursor startOff endOff
  let used := min acc.consumedOffset maxBytes
  let nextOff := from_ + used
  let startOffset ← ringStart
  let endOffset ← ringEnd
  pure ({ bytes := completion.payloadOverride.getD acc.returnedBytes
          elapsedMs := elapsedMs
          metadata := completion.metadata
          matched := completion.matched
          matchIndex := completion.matchIndex
          matchFrameIndex := completion.matchFrameIndex
          frames := acc.frames
          framesDropped := acc.framesDropped
          error := acc.frameError
          fromOffset := if acc.carriesOffsets then some from_ else none
          nextOffset := if acc.carriesOffsets then some nextOff else none
          bytesLost := startOff - originalCursor
          bufferedRemaining := endOff - nextOff
          startOffset := startOffset
          endOffset := endOffset }, completion.finalCursor)

end ReadAccumulator

/-- `ReadDriver::complete` and `complete_read` -/
def ReadDriver.complete (drv : ReadDriver) (completion : ReadCompletion) :
    RxProg (ReadOutcome × ℕ) := do
  let now ← clock
  drv.acc.intoOutcome drv.originalCursor drv.maxBytes (asMillis (now - drv.readStart)) completion

/-- A completion that reports a stop outcome. -/
def RxStopOutcome.completion (outcome : RxStopOutcome) (matchFrameIndex : Option ℕ)
    (payloadOverride : Option Bytes) (finalCursor : ℕ) : ReadCompletion where
  metadata := outcome.metadata
  matched := outcome.matched
  matchIndex := outcome.matchIndex
  matchFrameIndex := matchFrameIndex
  payloadOverride := payloadOverride
  finalCursor := finalCursor

/-! ## The initial slice -/

/-- What the initial buffered-slice phase decided. -/
inductive InitialDecision where
  | continue (drv : ReadDriver)
  | completion (drv : ReadDriver) (c : ReadCompletion)
  | historicalContextMatch (outcome : ReadOutcome) (finalCursor : ℕ)

/-- What a chunk of received bytes decided; a stop still needs its cursor. -/
inductive ChunkDecision where
  | continue (drv : ReadDriver)
  | stop (drv : ReadDriver) (completion : ℕ → ReadCompletion)

/-- Feed a chunk to the frame decoder `dec` of the driver. -/
def framedDecision (drv : ReadDriver) (dec : FrameDecoder) (chunk : Bytes) : ChunkDecision :=
  let r := processFramedChunk chunk dec drv.matcher drv.maxFrames drv.acc drv.ctrl
  let drv := { drv with decoder := some r.2.1, matcher := r.2.2.1, acc := r.2.2.2 }
  match r.1 with
  | .continue => .continue drv
  | .matched data matchIndex matchFrameIndex => .stop drv fun finalCursor =>
    { metadata := .matchFound drv.ctrl.bytesObserved drv.acc.returnedBytes.length
      matched := true
      matchIndex := matchIndex
      matchFrameIndex := matchFrameIndex
      payloadOverride := some data
      finalCursor := finalCursor }
  | .stop outcome matchFrameIndex => .stop drv (outcome.completion matchFrameIndex none)

/-- Set what the read returns and how much it consumed. -/
def ReadDriver.holding (drv : ReadDriver) (returned : Bytes) (consumed : ℕ) : ReadDriver :=
  { drv with acc := { drv.acc with returnedBytes := returned, consumedOffset := consumed } }

/-- The immediate raw cat path. -/
def catPath (drv : ReadDriver) (slice : RingSlice) : RxProg InitialDecision := do
  let returned := slice.bytes.take drv.maxBytes
  let consumed := returned.length
  let finalCursor ← advancePrivateCursor slice.fromOffset consumed
  pure (.completion (drv.holding returned consumed)
    { metadata := .drained (drv.originalCursor + consumed) consumed consumed
      matched := false
      matchIndex := none
      matchFrameIndex := none
      payloadOverride := none
      finalCursor := finalCursor })

/-- A match at `idx` in the history `hist` of the initial slice.  With a context
    amount the outcome is built from the slice, not from the live ring. -/
def historyMatch (drv : ReadDriver) (slice : RingSlice) (hist : Bytes) (m : Matcher) (idx : ℕ) :
    RxProg (Except Stuck InitialDecision) :=
  let matchEnd := idx + m.needleLen.getD 0
  if hist.length < matchEnd then pure (.error .panic)
  else
    let drv := { drv with acc := { drv.acc with returnedBytes := hist.take matchEnd } }
    match m.contextAmount with
    | some context =>
      match shapeMatchContext hist idx (m.needleLen.getD 0) (some context) with
      | none => pure (.error .panic)
      | some shaped => do
        let finalCursor ← advancePrivateCursor slice.fromOffset matchEnd
        let now ← clock
        let bufferedEnd ← ringEnd
        let startOffset ← ringStart
        let endOffset ← ringEnd
        pure (.ok (.historicalContextMatch
          { bytes := shaped.data
            elapsedMs := asMillis (now - drv.readStart)
            metadata := .matchFound matchEnd shaped.data.length
            matched := true
            matchIndex := some shaped.matchIndex
            matchFrameIndex := none
            frames := []
            framesDropped := 0
            error := none
            fromOffset := some slice.fromOffset
            nextOffset := some (slice.fromOffset + matchEnd)
            bytesLost := slice.bytesLost
            bufferedRemaining := bufferedEnd - (slice.fromOffset + matchEnd)
            startOffset := startOffset
            endOffset := endOffset } finalCursor))
    | none => do
      let finalCursor ← advancePrivateCursor slice.fromOffset matchEnd
      pure (.ok (.completion drv
        { metadata := .matchFound matchEnd matchEnd
          matched := true
          matchIndex := some idx
          matchFrameIndex := none
          payloadOverride := none
          finalCursor := finalCursor }))

/-- Count in the initial bytes of a framed read. -/
def ReadDriver.absorbInitial (drv : ReadDriver) (chunk : Bytes) : ReadDriver :=
  { drv with acc := { drv.acc with
    consumedOffset := drv.acc.consumedOffset + chunk.length
    returnedBytes := drv.acc.returnedBytes ++ chunk } }

/-- The initial framed bytes. -/
def framedInitial (drv : ReadDriver) (slice : RingSlice) : RxProg InitialDecision :=
  match drv.decoder, slice.bytes.isEmpty with
  | some dec, false =>
    let chunk := slice.bytes.take drv.maxBytes
    match framedDecision (drv.absorbInitial chunk) dec chunk with
    | .continue drv => pure (.continue drv)
    | .stop drv completion => do
      let finalCursor ← wrapPrivateCursor slice.fromOffset drv.acc.consumedOffset
      pure (.completion drv (completion finalCursor))
  | _, _ => pure (.continue drv)

/-- `process_initial`, after the decoder is built. -/
def processInitial (drv : ReadDriver) (slice : RingSlice) :
    RxProg (Except Stuck InitialDecision) :=
  if !slice.bytes.isEmpty && drv.matcher.isNone && drv.decoder.isNone then do
    let d ← catPath drv slice
    pure (.ok d)
  else
    match drv.matcher, slice.bytes.isEmpty with
    | some m, false =>
      let hist := slice.bytes.take drv.maxBytes
      let (result, m') := m.pushBounded hist drv.maxBytes
      match result with
      | .found idx => historyMatch { drv with matcher := some m' } slice hist m idx
      | .noMatch => do
        let now ← clock
        let ctrl := ((drv.ctrl.resetSilenceTimer now).pushData hist.length hist.length
          (some .noMatch)).2
        let drv := { drv.holding hist hist.length with matcher := some m', ctrl := ctrl }
        let d ← framedInitial drv slice
        pure (.ok d)
    | _, _ => do
      let d ← framedInitial drv slice
      pure (.ok d)

/-! ## The wait loop -/

/-- What one turn of the wait loop decided. -/
inductive WaitStep where
  | again (drv : ReadDriver) (clockedCursor : ℕ)
  | stop (drv : ReadDriver) (c : ReadCompletion)

/-- The first part of `process_live_chunk`: count the chunk in. -/
def ReadDriver.absorb (drv : ReadDriver) (chunk : Bytes) (now : ℕ) : ReadDriver :=
  { drv with
    ctrl := drv.ctrl.resetSilenceTimer now
    acc := { drv.acc with
      returnedBytes := drv.acc.returnedBytes ++ chunk
      consumedOffset := min (wrappingAdd drv.acc.consumedOffset chunk.length) drv.maxBytes } }

/-- The raw matcher path of `process_live_chunk`: a match is reported with the
    context the matcher saved, and every stop returns all bytes otherwise. -/
def rawDecision (drv : ReadDriver) (chunk : Bytes) : ChunkDecision :=
  let pushed := drv.matcher.map fun m => m.pushBounded chunk drv.maxBytes
  let r := drv.ctrl.pushData chunk.length drv.acc.returnedBytes.length (pushed.map Prod.fst)
  let drv := { drv with matcher := pushed.map Prod.snd, ctrl := r.2 }
  match r.1 with
  | none => .continue drv
  | some outcome =>
    let (payload, matchIndex) := match outcome.matchIndex with
      | some idx =>
        match drv.matcher.bind fun m => m.shapeLiteralMatchContext idx with
        | some shaped => (shaped.data, some shaped.matchIndex)
        | none => (drv.acc.returnedBytes, some idx)
      | none => (drv.acc.returnedBytes, none)
    .stop drv fun finalCursor =>
      { outcome.completion none (some payload) finalCursor with matchIndex := matchIndex }

/-- What the framed or raw path decides on a live chunk. -/
def liveDecision (drv : ReadDriver) (chunk : Bytes) : ChunkDecision :=
  match drv.decoder with
  | some dec => framedDecision drv dec chunk
  | none => rawDecision drv chunk

/-- `max_bytes` reached: the completion counts from the original cursor. -/
def drainedCompletion (drv : ReadDriver) (finalCursor : ℕ) : ReadCompletion where
  metadata := .drained (wrappingAdd drv.originalCursor drv.acc.consumedOffset)
    drv.acc.returnedBytes.length drv.acc.returnedBytes.length
  matched := false
  matchIndex := none
  matchFrameIndex := none
  payloadOverride := none
  finalCursor := finalCursor

/-- `process_live_chunk` -/
def processLiveChunk (drv : ReadDriver) (slice : RingSlice) : RxProg WaitStep := do
  let now ← clock
  let chunk := slice.bytes.take (drv.maxBytes - drv.acc.returnedBytes.length)
  match liveDecision (drv.absorb chunk now) chunk with
  | .stop drv completion => do
    let finalCursor ← wrapPrivateCursor slice.fromOffset chunk.length
    pure (.stop drv (completion finalCursor))
  | .continue drv =>
    if drv.maxBytes ≤ drv.acc.returnedBytes.length then do
      let finalCursor ← advancePrivateCursor drv.originalCursor drv.acc.consumedOffset
      pure (.stop drv (drainedCompletion drv finalCursor))
    else pure (.again drv slice.nextOffset)

/-- Connection liveness for the RX loop's pause check. -/
inductive DisconnectState where
  | active
  | reconnecting (ctrl : RxStopController)
  | closed

/-- `disconnect_state`; reconnecting resets the silence timer. -/
def disconnectState (ctrl : RxStopController) : RxProg DisconnectState := do
  match ← getConnState with
  | .closed => pure .closed
  | .opened => pure .active
  | .disconnected | .reconnecting =>
    if ← isReconnectEnabled then do
      let now ← clock
      pure (.reconnecting (ctrl.resetSilenceTimer now))
    else pure .closed

/-- The pause check of a read that watches a connection. -/
def pauseCheck (drv : ReadDriver) : RxProg DisconnectState :=
  if drv.conn then disconnectState drv.ctrl else pure .active

/-- `wait_for_ring_data` -/
def waitForRingData (drv : ReadDriver) (clockedCursor : ℕ) : RxProg WaitWake := do
  let now ← clock
  let deadline := drv.ctrl.deadline.getD (drv.readStart + fromMillis drv.effectiveTimeoutMs)
  let remaining := asMillis (deadline - now)
  selectWake clockedCursor (min (max (remaining - 1) 1) 250)

/-- A stop that is not caused by data: the final cursor counts from the
    original one. -/
def idleStop (drv : ReadDriver) (outcome : RxStopOutcome) (cursor : RxProg ℕ) :
    RxProg WaitStep := do
  let finalCursor ← cursor
  pure (.stop drv (outcome.completion none none finalCursor))

/-- One turn of the loop in `run_wait`. -/
def waitOnce (drv : ReadDriver) (clockedCursor : ℕ) : RxProg WaitStep := do
  let saturating := advancePrivateCursor drv.originalCursor drv.acc.consumedOffset
  let wrapping := wrapPrivateCursor drv.originalCursor drv.acc.consumedOffset
  match ← pauseCheck drv with
  | .closed => idleStop drv drv.ctrl.connectionClosed wrapping
  | .reconnecting ctrl => do
    pause 50
    pure (.again { drv with ctrl := ctrl } clockedCursor)
  | .active => do
    let now ← clock
    match drv.ctrl.checkTimeout now with
    | some outcome => idleStop drv outcome saturating
    | none => do
      let now ← clock
      match drv.ctrl.checkSilenceTimeout now with
      | some outcome => idleStop drv outcome saturating
      | none => do
        match ← waitForRingData drv clockedCursor with
        | .cancelled => idleStop drv drv.ctrl.cancelled wrapping
        | .poll => pure (.again drv clockedCursor)
        | .data => do
          let slice ← ringRead clockedCursor (drv.maxBytes - drv.acc.returnedBytes.length)
          if slice.bytes.isEmpty then pure (.again drv clockedCursor)
          else processLiveChunk drv slice

/-- `run_wait`, for at most the given number of turns. -/
def runWait : ℕ → ReadDriver → ℕ → RxProg (Except Stuck (ReadOutcome × ℕ))
  | 0, _, _ => pure (.error .waiting)
  | turns + 1, drv, clockedCursor => do
    match ← waitOnce drv clockedCursor with
    | .again drv clockedCursor => runWait turns drv clockedCursor
    | .stop drv c => do
      let r ← drv.complete c
      pure (.ok r)

/-! ## The read -/

section
variable (crates : Crates)

/-- The frame decoder of a request. -/
def buildDecoder (req : ReadRequest) : Except String (Option FrameDecoder) :=
  match req.framing with
  | some cfg => (FrameDecoder.new crates cfg req.parser).map some
  | none => .ok none

/-- The driver of a request, before the initial slice is processed. -/
def ReadRequest.driver (req : ReadRequest) (initialCursor readStart : ℕ)
    (decoder : Option FrameDecoder) : ReadDriver where
  originalCursor := initialCursor
  maxBytes := req.maxBytes
  readStart := readStart
  effectiveTimeoutMs := req.timeoutMs.getD defaultReadTimeoutMs
  ctrl := .new readStart req.timeoutMs req.maxBytes req.noNewRxTimeoutMs
  matcher := req.matcher
  decoder := decoder
  maxFrames := req.framing.bind (·.maxFrames)
  conn := req.conn
  acc := .new

/-- `read_from_private_cursor` -/
def readFromPrivateCursor (turns : ℕ) (req : ReadRequest) (initialCursor : ℕ) :
    RxProg (Except Stuck (ReadOutcome × ℕ)) := do
  let readStart ← clock
  let initialSlice ← ringRead initialCursor req.maxBytes
  match buildDecoder crates req with
  | .error e => pure (.error (.toolError e))
  | .ok decoder => do
    match ← processInitial (req.driver initialCursor readStart decoder) initialSlice with
    | .error e => pure (.error e)
    | .ok (.continue drv) => runWait turns drv initialSlice.nextOffset
    | .ok (.completion drv c) => do
      let r ← drv.complete c
      pure (.ok r)
    | .ok (.historicalContextMatch outcome finalCursor) => pure (.ok (outcome, finalCursor))

/-- `read_bytes_from_ring` -/
def readBytesFromRing (turns : ℕ) (req : ReadRequest) : RxProg (Except Stuck ReadOutcome) := do
  let initialCursor ← loadCursor
  match ← readFromPrivateCursor crates turns req initialCursor with
  | .error e => pure (.error e)
  | .ok (outcome, finalCursor) => do
    storeCursor finalCursor
    pure (.ok outcome)

/-- `ReadFrom`: where a `read` starts. -/
inductive ReadFrom where
  | cursor
  | now
  | bufferStart
  | offset (off : ℕ)
  deriving DecidableEq, Repr

/-- The initial cursor of a `read`. -/
def ReadFrom.resolve : ReadFrom → RxProg ℕ
  | .cursor => loadCursor
  | .now => ringEnd
  | .bufferStart => ringStart
  | .offset off => pure off

/-- `io_ops::read` from the initial cursor on: resolve it, store it, read. -/
def read (turns : ℕ) (req : ReadRequest) (start : ReadFrom) :
    RxProg (Except Stuck ReadOutcome) := do
  let initialCursor ← start.resolve
  storeCursor initialCursor
  readBytesFromRing crates turns req

end

end SerialMcp
