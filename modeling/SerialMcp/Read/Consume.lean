/-
  Framed consumption of received bytes (`tools/rx_consume.rs`) and the frame
  sink of `read` (`tools/read_loop.rs`).

  A chunk is decoded; every frame passes the matcher, whose window is reset
  before it, and goes to a sink; then the decode error and `max_frames` are
  looked at.

  * `matchFrame_congr`: the verdict on a frame does not depend on what the
    matcher saw before it.
  * `processFramedChunk_eq`: a framed chunk decided from the frames it decodes
    to and the first one that matches.
-/
import SerialMcp.Framing.Decoder
import SerialMcp.StopController

namespace SerialMcp

/-! ## Sinks -/

/-- What the frame loop should do after a sink handled a frame. -/
inductive SinkFlow where
  | continue
  | stop (reason : RxStopReason)
  deriving DecidableEq, Repr

/-- Result of consuming all frames decoded from one chunk. -/
inductive FrameOutcome where
  | continue
  | maxFrames
  | sinkStop (reason : RxStopReason)
  | decodeError (e : FrameDecodeError)
  deriving DecidableEq, Repr

/-- Per-frame output action: `on_frame` with the matcher's verdict on the frame. -/
abbrev RxFrameSink (σ : Type) := σ → Frame → Option ℕ → SinkFlow × σ

section
variable {σ : Type} (onFrame : RxFrameSink σ)

/-- The matcher's verdict on one frame: reset the window, push the frame. -/
def matchFrame : Option Matcher → Frame → Option ℕ × Option Matcher
  | none, _ => (none, none)
  | some m, frame =>
    let r := m.resetWindow.push frame.data
    (match r.1 with
      | .found idx => some idx
      | .noMatch => none, some r.2)

/-- The loop of `consume_frames` over the decoded frames: the reason of a sink
    that stopped, the matcher, the number of frames seen, and the sink. -/
def dispatch : List Frame → Option Matcher → ℕ → σ →
    Option RxStopReason × Option Matcher × ℕ × σ
  | [], matcher, framesSeen, sink => (none, matcher, framesSeen, sink)
  | frame :: frames, matcher, framesSeen, sink =>
    let m := matchFrame matcher frame
    match onFrame sink frame m.1 with
    | (.stop reason, sink) => (some reason, m.2, framesSeen + 1, sink)
    | (.continue, sink) => dispatch frames m.2 (framesSeen + 1) sink

/-- What a framed read carries from chunk to chunk. -/
structure FramedState (σ : Type) where
  decoder : FrameDecoder
  matcher : Option Matcher
  framesSeen : ℕ
  framesDropped : ℕ
  sink : σ

/-- `consume_frames` -/
def consumeFrames (chunk : Bytes) (maxFrames : Option ℕ) (s : FramedState σ) :
    FrameOutcome × FramedState σ :=
  let (outcome, decoder) := s.decoder.push chunk
  let (stopped, matcher, framesSeen, sink) :=
    dispatch onFrame outcome.frames s.matcher s.framesSeen s.sink
  let s' : FramedState σ :=
    ⟨decoder, matcher, framesSeen, s.framesDropped + outcome.framesDropped, sink⟩
  match stopped, outcome.error with
  | some reason, _ => (.sinkStop reason, s')
  | none, some e => (.decodeError e, s')
  | none, none =>
    if maxFrames.any (· ≤ framesSeen) then (.maxFrames, s') else (.continue, s')

end

/-! ## The sink of `read` -/

/-- `ReadFrameSink`: every frame, and the first match. -/
structure ReadFrameSink where
  collected : List Frame
  matchData : Option Bytes
  matchIndex : Option ℕ
  matchFrameIndex : Option ℕ

/-- `ReadFrameSink::new` -/
def ReadFrameSink.new (collected : List Frame) : ReadFrameSink := ⟨collected, none, none, none⟩

/-- `ReadFrameSink::on_frame`: never stops. -/
def ReadFrameSink.onFrame : RxFrameSink ReadFrameSink := fun sink frame matchIndex =>
  let sink := if matchIndex.isSome ∧ sink.matchData.isNone then
      { sink with matchData := some frame.data, matchIndex := matchIndex,
                  matchFrameIndex := some frame.index }
    else sink
  (.continue, { sink with collected := sink.collected ++ [frame] })

/-! ## What a framed chunk does to a read -/

/-- Everything accumulated across a private read (`ReadAccumulator`). -/
structure ReadAccumulator where
  /-- raw bytes consumed from the ring -/
  consumedOffset : ℕ
  returnedBytes : Bytes
  frames : List Frame
  framesSeen : ℕ
  framesDropped : ℕ
  frameError : Option String

/-- `ReadAccumulator::new` -/
def ReadAccumulator.new : ReadAccumulator := ⟨0, [], [], 0, 0, none⟩

/-- What processing one framed chunk produced. -/
inductive FramedChunkDecision where
  | continue
  | matched (data : Bytes) (matchIndex matchFrameIndex : Option ℕ)
  | stop (outcome : RxStopOutcome) (matchFrameIndex : Option ℕ)

/-- `frame_outcome_to_stop`, with the error text it records. -/
def frameOutcomeToStop (outcome : FrameOutcome) (ctrl : RxStopController) (totalReturned : ℕ)
    (matchOffset : Option ℕ) : Option RxStopOutcome × Option String :=
  match outcome with
  | .continue => (none, none)
  | .maxFrames => (some ⟨.maxFrames ctrl.bytesObserved totalReturned, false, none⟩, none)
  | .decodeError e => (some ctrl.framingError, some e.toText)
  | .sinkStop .matchFound =>
    (some ⟨.matchFound ctrl.bytesObserved totalReturned, true, matchOffset⟩, none)
  | .sinkStop _ => (some ctrl.connectionClosed, none)

/-- `process_framed_chunk`: the decision, and the decoder, matcher and
    accumulator after it. -/
def processFramedChunk (chunk : Bytes) (decoder : FrameDecoder) (matcher : Option Matcher)
    (maxFrames : Option ℕ) (acc : ReadAccumulator) (ctrl : RxStopController) :
    FramedChunkDecision × FrameDecoder × Option Matcher × ReadAccumulator :=
  let (outcome, s) := consumeFrames ReadFrameSink.onFrame chunk maxFrames
    ⟨decoder, matcher, acc.framesSeen, acc.framesDropped, .new acc.frames⟩
  let acc := { acc with frames := s.sink.collected, framesSeen := s.framesSeen,
                        framesDropped := s.framesDropped }
  match s.sink.matchData with
  | some data =>
    (.matched data s.sink.matchIndex s.sink.matchFrameIndex, s.decoder, s.matcher, acc)
  | none =>
    let (stop, text) := frameOutcomeToStop outcome ctrl acc.returnedBytes.length s.sink.matchIndex
    let acc := { acc with frameError := text <|> acc.frameError }
    match stop with
    | some outcome => (.stop outcome s.sink.matchFrameIndex, s.decoder, s.matcher, acc)
    | none => (.continue, s.decoder, s.matcher, acc)

/-! ## A framed chunk, frame by frame -/

theorem matchFrame_congr {m m' : Option Matcher}
    (h : m.map Matcher.resetWindow = m'.map Matcher.resetWindow) (frame : Frame) :
    (matchFrame m frame).1 = (matchFrame m' frame).1 := by
  rcases m with _ | m <;> rcases m' with _ | m' <;> simp only [Option.map_none, Option.map_some,
    Option.some.injEq, reduceCtorEq] at h
  · rfl
  · simp only [matchFrame, h]

theorem matchFrame_reset (m : Option Matcher) (frame : Frame) :
    (matchFrame m frame).2.map Matcher.resetWindow = m.map Matcher.resetWindow := by
  rcases m with _ | m
  · rfl
  · simp only [matchFrame, Option.map_some, Matcher.resetWindow_push]
    rfl

/-- The matcher after it looked at the frames. -/
def matcherAfter (m : Option Matcher) (frames : List Frame) : Option Matcher :=
  frames.foldl (fun m frame => (matchFrame m frame).2) m

theorem matcherAfter_reset (m : Option Matcher) (frames : List Frame) :
    (matcherAfter m frames).map Matcher.resetWindow = m.map Matcher.resetWindow := by
  induction frames generalizing m with
  | nil => rfl
  | cons frame frames ih => exact (ih _).trans (matchFrame_reset m frame)

/-- The first frame that matches on its own, and where. -/
def firstMatch (m : Option Matcher) (frames : List Frame) : Option (Frame × ℕ) :=
  frames.findSome? fun frame => (matchFrame m frame).1.map (frame, ·)

theorem firstMatch_congr {m m' : Option Matcher}
    (h : m.map Matcher.resetWindow = m'.map Matcher.resetWindow) (frames : List Frame) :
    firstMatch m frames = firstMatch m' frames := by
  simp only [firstMatch, matchFrame_congr h]

/-- What the sink of `read` holds after the frames. -/
def ReadFrameSink.collect (sink : ReadFrameSink) (m : Option Matcher) (frames : List Frame) :
    ReadFrameSink :=
  match sink.matchData, firstMatch m frames with
  | none, some (frame, idx) =>
    ⟨sink.collected ++ frames, some frame.data, some idx, some frame.index⟩
  | _, _ => { sink with collected := sink.collected ++ frames }

theorem dispatch_read (frames : List Frame) (m : Option Matcher) (n : ℕ) (sink : ReadFrameSink) :
    dispatch ReadFrameSink.onFrame frames m n sink =
      (none, matcherAfter m frames, n + frames.length, sink.collect m frames) := by
  induction frames generalizing m n sink with
  | nil =>
    rcases sink with ⟨c, _ | d, i, j⟩ <;>
      simp [dispatch, matcherAfter, ReadFrameSink.collect, firstMatch]
  | cons frame frames ih =>
    have hm := firstMatch_congr (matchFrame_reset m frame) frames
    simp only [dispatch, ReadFrameSink.onFrame, ih]
    refine congrArg _ (Prod.ext rfl (Prod.ext ?_ ?_))
    · simp only [List.length_cons]; omega
    -- the verdict on this frame decides whether it or a later one is the first match
    · rcases sink with ⟨c, _ | d, i, j⟩ <;> rcases hv : (matchFrame m frame).1 with _ | idx <;>
        simp only [firstMatch] at hm <;> simp [ReadFrameSink.collect, firstMatch, hv, hm]

theorem consumeFrames_read (chunk : Bytes) (maxFrames : Option ℕ)
    (s : FramedState ReadFrameSink) :
    consumeFrames ReadFrameSink.onFrame chunk maxFrames s =
      (match (s.decoder.push chunk).1.error with
        | some e => .decodeError e
        | none =>
          if maxFrames.any (· ≤ s.framesSeen + (s.decoder.push chunk).1.frames.length) then .maxFrames
          else .continue,
        ⟨(s.decoder.push chunk).2, matcherAfter s.matcher (s.decoder.push chunk).1.frames,
          s.framesSeen + (s.decoder.push chunk).1.frames.length,
          s.framesDropped + (s.decoder.push chunk).1.framesDropped,
          s.sink.collect s.matcher (s.decoder.push chunk).1.frames⟩) := by
  simp only [consumeFrames, dispatch_read]
  rcases (s.decoder.push chunk).1.error with _ | e
  · dsimp only
    split <;> rfl
  · rfl

/-- What a framed chunk decides, from the frames it decodes to. -/
def framedVerdict (chunk : Bytes) (decoder : FrameDecoder) (matcher : Option Matcher)
    (maxFrames : Option ℕ) (acc : ReadAccumulator) (ctrl : RxStopController) :
    FramedChunkDecision :=
  let pushed := (decoder.push chunk).1
  match firstMatch matcher pushed.frames, pushed.error with
  | some (frame, idx), _ => .matched frame.data (some idx) (some frame.index)
  | none, some _ => .stop ctrl.framingError none
  | none, none =>
    if maxFrames.any (· ≤ acc.framesSeen + pushed.frames.length) then
      .stop ⟨.maxFrames ctrl.bytesObserved acc.returnedBytes.length, false, none⟩ none
    else .continue

/-- The accumulator after a framed chunk. -/
def framedAcc (chunk : Bytes) (decoder : FrameDecoder) (matcher : Option Matcher)
    (acc : ReadAccumulator) : ReadAccumulator :=
  let pushed := (decoder.push chunk).1
  { acc with
    frames := acc.frames ++ pushed.frames
    framesSeen := acc.framesSeen + pushed.frames.length
    framesDropped := acc.framesDropped + pushed.framesDropped
    frameError := match firstMatch matcher pushed.frames, pushed.error with
      | none, some e => some e.toText
      | _, _ => acc.frameError }

/-- **A framed chunk in terms of its frames.** -/
theorem processFramedChunk_eq (chunk : Bytes) (decoder : FrameDecoder) (matcher : Option Matcher)
    (maxFrames : Option ℕ) (acc : ReadAccumulator) (ctrl : RxStopController) :
    processFramedChunk chunk decoder matcher maxFrames acc ctrl =
      (framedVerdict chunk decoder matcher maxFrames acc ctrl, (decoder.push chunk).2,
        matcherAfter matcher (decoder.push chunk).1.frames,
        framedAcc chunk decoder matcher acc) := by
  simp only [processFramedChunk, consumeFrames_read, framedVerdict, framedAcc,
    ReadFrameSink.new, ReadFrameSink.collect]
  rcases firstMatch matcher (decoder.push chunk).1.frames with _ | ⟨frame, idx⟩
  · rcases (decoder.push chunk).1.error with _ | e
    · by_cases hmax : maxFrames.any (· ≤ acc.framesSeen + (decoder.push chunk).1.frames.length)
      · simp [frameOutcomeToStop, hmax]
      · simp [frameOutcomeToStop, hmax]
    · simp [frameOutcomeToStop]
  · rfl

end SerialMcp
