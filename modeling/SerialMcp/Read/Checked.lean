/-
  The read with its slices, indexes and sums written out.

  `Read.Loop` and `Matcher` compute with unbounded numbers and total list
  functions.  Here every slice, index, subtraction and addition of the matcher,
  of `shape_match_context`, and of `process_initial`, `process_live_chunk` and
  `into_outcome` is an operation that has no result where the code panics
  (saturating and wrapping ones never do).  `usize` is taken to be 64 bits.

  * `pushBounded_eq`, `pushFrames_eq`: as long as its window is short enough,
    no operation of a matcher goes out of range, whatever the bytes;
  * `processInitial_eq`, `processLiveChunk_eq`: when the driver computes what
    the total model does.
-/
import SerialMcp.Framing.Size
import SerialMcp.Read.Loop

namespace SerialMcp

open Interact RxOp

namespace Checked

/-! ## Operations that go out of range -/

/-- `a + b` -/
def add (a b : ℕ) : Option ℕ := if a + b < u64Size then some (a + b) else none

/-- `a - b` -/
def sub (a b : ℕ) : Option ℕ := if b ≤ a then some (a - b) else none

/-- `&xs[lo..hi]` -/
def slice (xs : Bytes) (lo hi : ℕ) : Option Bytes :=
  if lo ≤ hi ∧ hi ≤ xs.length then some ((xs.take hi).drop lo) else none

theorem add_eq {a b : ℕ} (h : a + b < u64Size) : add a b = some (a + b) := if_pos h

theorem sub_eq {a b : ℕ} (h : b ≤ a) : sub a b = some (a - b) := if_pos h

theorem slice_eq {xs : Bytes} {lo hi : ℕ} (hlo : lo ≤ hi) (hhi : hi ≤ xs.length) :
    slice xs lo hi = some ((xs.take hi).drop lo) := if_pos ⟨hlo, hhi⟩

/-- `&xs[..min(xs.len(), n)]` -/
theorem slice_front (xs : Bytes) (n : ℕ) : slice xs 0 (min xs.length n) = some (xs.take n) := by
  rw [slice_eq (Nat.zero_le _) (Nat.min_le_left ..), List.drop_zero]
  rw [Nat.min_comm, ← List.take_eq_take_min]

/-! ## The matcher -/

/-- The lines of a glob; `byte_offset += line.len() + 1` behind each. -/
def globLines (pat : Text → Bool) : Bool → ℕ → List Text → Option (Option ℕ)
  | _, _, [] => some none
  | skip, byteOffset, line :: lines =>
    if !skip && pat (Matcher.stripCr line) then some (some byteOffset)
    else do
      let n ← add (asBytes line).length 1
      let byteOffset ← add byteOffset n
      globLines pat false byteOffset lines

/-- Where the window has a match, relative to the window. -/
def search (m : Matcher) : Option (Option ℕ) :=
  match m.pattern with
  | .literal needle => some (findSubsequence m.window needle.1)
  | .regex re => some ((re.find m.window).map Prod.fst)
  | .glob pat => globLines pat m.firstLinePartial 0 ((fromUtf8Lossy m.window).splitOn '\n')

/-- `Matcher::check` -/
def check (m : Matcher) : Option MatchResult := do
  match ← search m with
  | some i => do
    let index ← add m.base i
    pure (.found index)
  | none => pure .noMatch

/-- `save_literal_context` -/
def saveLiteralContext (m : Matcher) (globalIndex : ℕ) (contextCap : Option ℕ) : Option Matcher :=
  match m.pattern, m.contextAmount with
  | .literal needle, some context => do
    let effectiveContext := contextCap.elim context (min context)
    let localIndex := globalIndex - m.base
    let preStart := localIndex - effectiveContext
    let matchEnd := min (saturatingAdd localIndex needle.1.length) m.window.length
    let data ← slice m.window preStart matchEnd
    let matchIndex ← sub localIndex preStart
    pure { m with lastMatchContext := some ⟨globalIndex,
        { data := data, matchIndex := matchIndex, needleLen := needle.1.length }⟩ }
  | _, _ => some m

/-- `Matcher::push` -/
def push (m : Matcher) (chunk : Bytes) : Option (MatchResult × Matcher) := do
  let m : Matcher := { m with lastMatchContext := none, window := m.window ++ chunk }
  match ← check m with
  | .found i => do
    let m ← saveLiteralContext m i none
    pure (.found i, m)
  | .noMatch => pure (.noMatch, m)

/-- `truncate_front` -/
def truncateFront (m : Matcher) (keep : ℕ) : Option Matcher :=
  let drop := m.window.length - keep
  if 0 < drop then do
    let firstLinePartial ← match m.pattern with
      | .glob _ => do
        let last ← m.window[drop - 1]?
        pure (decide (last ≠ 10))
      | _ => some m.firstLinePartial
    let window ← slice m.window drop m.window.length
    let base ← add m.base drop
    pure { m with window := window, base := base, firstLinePartial := firstLinePartial }
  else some m

/-- Enforce the retention cap. -/
def retain (m : Matcher) (maxBufferedBytes : ℕ) : Option Matcher :=
  let limit := m.retainedWindowLimit maxBufferedBytes
  if limit < m.window.length then truncateFront m limit else some m

/-- `push_bounded` -/
def pushBounded (m : Matcher) (chunk : Bytes) (maxBufferedBytes : ℕ) :
    Option (MatchResult × Matcher) := do
  let r ← push m chunk
  match r.1 with
  | .found i => do
    let m ← saveLiteralContext r.2 i (some maxBufferedBytes)
    let m ← retain m maxBufferedBytes
    pure (.found i, m)
  | .noMatch => do
    let m ← retain r.2 maxBufferedBytes
    pure (.noMatch, m)

/-- `shape_match_context` -/
def shapeMatchContext (accumulated : Bytes) (matchIndex needleLen : ℕ)
    (contextAmount : Option ℕ) : Option ShapedMatchPayload :=
  match contextAmount with
  | none => some ⟨accumulated, matchIndex, needleLen⟩
  | some n => do
    let preStart := matchIndex - n
    let matchEnd ← add matchIndex needleLen
    let shaped ← slice accumulated preStart matchEnd
    let newMatchIndex ← sub matchIndex preStart
    pure ⟨shaped, newMatchIndex, needleLen⟩

/-- The pushes of `consume_frames`: every frame, into the reset window. -/
def pushFrames : Option Matcher → List Frame → Option (Option Matcher)
  | m, [] => some m
  | none, _ => some none
  | some m, frame :: frames => do
    let r ← push m.resetWindow frame.data
    pushFrames (some r.2) frames

/-! ## The driver -/

section
variable {α β : Type}

/-- Go on with a result; the code panics without one. -/
def orPanic (o : Option α) (k : α → RxProg (Except Stuck β)) : RxProg (Except Stuck β) :=
  match o with
  | some a => k a
  | none => pure (.error .panic)

/-- A program none of whose operations can go out of range. -/
def total (p : RxProg α) : RxProg (Except Stuck α) := do
  let a ← p
  pure (.ok a)

end

/-- The immediate raw cat path. -/
def catPath (drv : ReadDriver) (s : RingSlice) : RxProg (Except Stuck InitialDecision) :=
  orPanic (do
      let returned ← slice s.bytes 0 (min s.bytes.length drv.maxBytes)
      add drv.originalCursor returned.length)
    fun _ => total (SerialMcp.catPath drv s)

/-- A match at `idx` in the history `hist` of the initial slice. -/
def historyMatch (drv : ReadDriver) (s : RingSlice) (hist : Bytes) (m : Matcher) (idx : ℕ) :
    RxProg (Except Stuck InitialDecision) :=
  orPanic (do
      let matchEnd ← add idx (m.needleLen.getD 0)
      let _ ← slice hist 0 matchEnd
      match m.contextAmount with
      | some context => do
        let _ ← shapeMatchContext hist idx (m.needleLen.getD 0) (some context)
        add s.fromOffset matchEnd
      | none => some 0)
    fun _ => SerialMcp.historyMatch drv s hist m idx

/-- The initial framed bytes. -/
def framedInitial (drv : ReadDriver) (s : RingSlice) : RxProg (Except Stuck InitialDecision) :=
  match drv.decoder, s.bytes.isEmpty with
  | some dec, false =>
    orPanic (do
        let chunk ← slice s.bytes 0 (min s.bytes.length drv.maxBytes)
        let _ ← add drv.acc.consumedOffset chunk.length
        pushFrames drv.matcher (dec.push chunk).1.frames)
      fun _ => total (SerialMcp.framedInitial drv s)
  | _, _ => total (SerialMcp.framedInitial drv s)

/-- `process_initial` -/
def processInitial (drv : ReadDriver) (s : RingSlice) : RxProg (Except Stuck InitialDecision) :=
  if !s.bytes.isEmpty && drv.matcher.isNone && drv.decoder.isNone then catPath drv s
  else
    match drv.matcher, s.bytes.isEmpty with
    | some m, false =>
      orPanic (slice s.bytes 0 (min s.bytes.length drv.maxBytes)) fun hist =>
      orPanic (pushBounded m hist drv.maxBytes) fun r =>
        match r.1 with
        | .found idx => historyMatch { drv with matcher := some r.2 } s hist m idx
        | .noMatch => do
          let now ← clock
          let ctrl := ((drv.ctrl.resetSilenceTimer now).pushData hist.length hist.length
            (some .noMatch)).2
          framedInitial { drv.holding hist hist.length with matcher := some r.2, ctrl := ctrl } s
    | _, _ => framedInitial drv s

/-- `process_live_chunk` -/
def processLiveChunk (drv : ReadDriver) (s : RingSlice) : RxProg (Except Stuck WaitStep) :=
  orPanic (do
      let chunk ← slice s.bytes 0
        (min s.bytes.length (drv.maxBytes - drv.acc.returnedBytes.length))
      match drv.decoder, drv.matcher with
      | some dec, m => pushFrames m (dec.push chunk).1.frames
      | none, some m => do
        let r ← pushBounded m chunk drv.maxBytes
        pure (some r.2)
      | none, none => some none)
    fun _ => total (SerialMcp.processLiveChunk drv s)

/-- `into_outcome` -/
def intoOutcome (acc : ReadAccumulator) (originalCursor maxBytes elapsedMs : ℕ)
    (completion : ReadCompletion) : RxProg (Except Stuck (ReadOutcome × ℕ)) := do
  let startOff ← ringStart
  let endOff ← ringEnd
  let from_ := ReadAccumulator.clampedFrom originalCursor startOff endOff
  let used := min acc.consumedOffset maxBytes
  orPanic (add from_ used) fun nextOff => do
    let startOffset ← ringStart
    let endOffset ← ringEnd
    pure (.ok ({
      bytes := completion.payloadOverride.getD acc.returnedBytes
      elapsedMs := elapsedMs
      metadata := completion.metadata
      matched := completion.matched
      matchIndex := completion.matchIndex
      matchFrameIndex := completion.matchFrameIndex
      frames := acc.frames
      framesDropped := acc.framesDropped
      error := acc.frameError
      fromOffset := if acc.carriesOffsets then some from_ else none
      nextOffset := if acc.carriesOffsets then some nextOff else none
      bytesLost := startOff - originalCursor
      bufferedRemaining := endOff - nextOff
      startOffset := startOffset
      endOffset := endOffset }, completion.finalCursor))

/-- `ReadDriver::complete` and `complete_read` -/
def complete (drv : ReadDriver) (completion : ReadCompletion) :
    RxProg (Except Stuck (ReadOutcome × ℕ)) := do
  let now ← clock
  intoOutcome drv.acc drv.originalCursor drv.maxBytes (asMillis (now - drv.readStart)) completion

/-- One turn of the loop in `run_wait`. -/
def waitOnce (drv : ReadDriver) (clockedCursor : ℕ) : RxProg (Except Stuck WaitStep) := do
  let saturating := advancePrivateCursor drv.originalCursor drv.acc.consumedOffset
  let wrapping := wrapPrivateCursor drv.originalCursor drv.acc.consumedOffset
  match ← pauseCheck drv with
  | .closed => total (idleStop drv drv.ctrl.connectionClosed wrapping)
  | .reconnecting ctrl => do
    pause 50
    pure (.ok (.again { drv with ctrl := ctrl } clockedCursor))
  | .active => do
    let now ← clock
    match drv.ctrl.checkTimeout now with
    | some outcome => total (idleStop drv outcome saturating)
    | none => do
      let now ← clock
      match drv.ctrl.checkSilenceTimeout now with
      | some outcome => total (idleStop drv outcome saturating)
      | none => do
        match ← waitForRingData drv clockedCursor with
        | .cancelled => total (idleStop drv drv.ctrl.cancelled wrapping)
        | .poll => pure (.ok (.again drv clockedCursor))
        | .data => do
          let s ← ringRead clockedCursor (drv.maxBytes - drv.acc.returnedBytes.length)
          if s.bytes.isEmpty then pure (.ok (.again drv clockedCursor))
          else processLiveChunk drv s

/-- `run_wait`, for at most the given number of turns. -/
def runWait : ℕ → ReadDriver → ℕ → RxProg (Except Stuck (ReadOutcome × ℕ))
  | 0, _, _ => pure (.error .waiting)
  | turns + 1, drv, clockedCursor => do
    match ← waitOnce drv clockedCursor with
    | .error e => pure (.error e)
    | .ok (.again drv clockedCursor) => runWait turns drv clockedCursor
    | .ok (.stop drv c) => complete drv c

/-- `read_from_private_cursor` -/
def readFromPrivateCursor (crates : Crates) (turns : ℕ) (req : ReadRequest) (initialCursor : ℕ) :
    RxProg (Except Stuck (ReadOutcome × ℕ)) := do
  let readStart ← clock
  let initialSlice ← ringRead initialCursor req.maxBytes
  match buildDecoder crates req with
  | .error e => pure (.error (.toolError e))
  | .ok decoder => do
    match ← processInitial (req.driver initialCursor readStart decoder) initialSlice with
    | .error e => pure (.error e)
    | .ok (.continue drv) => runWait turns drv initialSlice.nextOffset
    | .ok (.completion drv c) => complete drv c
    | .ok (.historicalContextMatch outcome finalCursor) => pure (.ok (outcome, finalCursor))

/-! ## The matcher stays in range -/

theorem globLines_eq (pat : Text → Bool) (skip : Bool) (off : ℕ) (lines : List Text)
    (h : off + Matcher.lineBytes lines < u64Size) :
    globLines pat skip off lines = some (Matcher.globLines pat skip off lines) := by
  induction lines generalizing skip off with
  | nil => rfl
  | cons line lines ih =>
    simp only [Matcher.lineBytes, List.map_cons, List.sum_cons] at h
    rw [globLines, Matcher.globLines]
    split
    · rfl
    · rw [add_eq (by omega)]
      show (do let byteOffset ← add off ((asBytes line).length + 1); _) = _
      rw [add_eq (by omega)]
      refine ih false _ ?_
      simp only [Matcher.lineBytes]
      omega

/-- A matcher that `n` more bytes cannot bring out of range. -/
def Short (m : Matcher) (n : ℕ) : Prop := m.base + 4 * (m.window.length + n) + 1 < u64Size

section
variable {m : Matcher} {chunk : Bytes} {n : ℕ}

theorem search_eq (h : Short m 0) : search m = some m.search := by
  unfold Short at h
  rcases hp : m.pattern with needle | re | pat
  · simp only [search, Matcher.search, hp]
  · simp only [search, Matcher.search, hp]
  · have hbytes := asBytes_length_le (fromUtf8Lossy m.window)
    have hchars := fromUtf8Lossy_length_le m.window
    simp only [search, Matcher.search, hp]
    refine globLines_eq _ _ _ _ ?_
    rw [Matcher.lineBytes_splitOn]
    omega

theorem check_eq (h : Short m 0) : check m = some m.check := by
  rw [check, search_eq h, Matcher.check]
  rcases hs : m.search with _ | i
  · rfl
  · have hle := Matcher.search_le hs
    unfold Short at h
    show (do let index ← add m.base i; _) = _
    rw [add_eq (by omega)]
    rfl

theorem saveLiteralContext_eq {i : ℕ} {cap : Option ℕ} (hw : m.window.length < u64Size)
    (hi : m.needleLen ≠ none → i - m.base ≤ m.window.length) :
    saveLiteralContext m i cap = some (m.saveLiteralContext i cap) := by
  obtain ⟨pattern, window, contextAmount, base, last, first⟩ := m
  rcases pattern with needle | re | pat
  · rcases contextAmount with _ | context
    · rfl
    · replace hi : i - base ≤ window.length := hi (by simp [Matcher.needleLen])
      replace hw : window.length < u64Size := hw
      have hend : min (saturatingAdd (i - base) needle.1.length) window.length =
          min (i - base + needle.1.length) window.length := by
        rw [saturatingAdd]
        omega
      simp only [saveLiteralContext, Matcher.saveLiteralContext, hend]
      rw [slice_eq (by omega) (Nat.min_le_right ..), sub_eq (Nat.sub_le ..)]
      rfl
  · rfl
  · rfl

theorem index_le {i : ℕ} (hlit : m.needleLen ≠ none) (h : m.check = .found i) :
    m.base ≤ i ∧ i - m.base ≤ m.window.length := by
  obtain ⟨pattern, window, contextAmount, base, last, first⟩ := m
  simp only [Matcher.check] at h
  split at h
  · next j hj =>
    cases h
    rcases pattern with needle | re | pat
    · have hle : j + needle.1.length ≤ window.length := findSubsequence_le needle.2 hj
      simp only
      omega
    · exact absurd rfl hlit
    · exact absurd rfl hlit
  · cases h

theorem push_eq (h : Short m chunk.length) : push m chunk = some (m.push chunk) := by
  have hshort : Short { m with lastMatchContext := none, window := m.window ++ chunk } 0 := by
    unfold Short at h ⊢
    rw [List.length_append]
    exact h
  have hw : (m.window ++ chunk).length < u64Size := by
    unfold Short at hshort
    simp only at hshort
    omega
  simp only [push, Matcher.push, check_eq hshort]
  rcases hc : Matcher.check { m with lastMatchContext := none, window := m.window ++ chunk } with _ | i
  · rfl
  · simp only [Option.bind_eq_bind, Option.bind_some]
    rw [saveLiteralContext_eq hw fun hlit => (index_le hlit hc).2]
    rfl

theorem retain_eq (h : m.base + m.window.length < u64Size) : retain m n = some (m.retain n) := by
  simp only [retain, Matcher.retain]
  split
  · simp only [truncateFront, Matcher.truncateFront]
    split
    · next hlt hdrop =>
      rw [slice_eq (Nat.sub_le ..) (Nat.le_refl _), add_eq (by omega), List.take_length]
      rcases hp : m.pattern with needle | re | pat
      · rfl
      · rfl
      · have hin : m.window.length - m.retainedWindowLimit n - 1 < m.window.length := by omega
        simp only [List.getElem?_eq_getElem hin]
        simp
    · rfl
  · rfl

/-- **A chunk**: with room for it in the window, `push_bounded` stays in range. -/
theorem pushBounded_eq (h : Short m chunk.length) :
    pushBounded m chunk n = some (m.pushBounded chunk n) := by
  obtain ⟨ctx, hpush⟩ := m.push_keeps chunk
  have hlen : (m.window ++ chunk).length = m.window.length + chunk.length := List.length_append
  unfold Short at h
  simp only [pushBounded, Matcher.pushBounded, push_eq h, Option.bind_eq_bind, Option.bind_some]
  rcases hfound : (m.push chunk).1 with _ | i
  · simp only [hpush]
    rw [retain_eq (by simp only [hlen]; omega)]
    rfl
  · have hindex : m.needleLen ≠ none → i - m.base ≤ (m.window ++ chunk).length := by
      intro hlit
      rw [Matcher.push_result] at hfound
      exact (index_le (m := { m with lastMatchContext := none, window := m.window ++ chunk })
        hlit hfound).2
    simp only [hpush]
    rw [saveLiteralContext_eq (by simp only [hlen]; omega) hindex]
    obtain ⟨ctx', hsave⟩ := Matcher.saveLiteralContext_keeps
      { m with lastMatchContext := ctx, window := m.window ++ chunk } i (some n)
    simp only [Option.bind_some, hsave]
    rw [retain_eq (by simp only [hlen]; omega)]
    rfl

end

/-- **Frames**: each goes into an empty window. -/
theorem pushFrames_eq (m : Option Matcher) (frames : List Frame)
    (h : ∀ frame ∈ frames, 4 * frame.data.length + 1 < u64Size) :
    pushFrames m frames = some (matcherAfter m frames) := by
  induction frames generalizing m with
  | nil => rcases m with _ | m <;> rfl
  | cons frame frames ih =>
    have hrest : ∀ f ∈ frames, 4 * f.data.length + 1 < u64Size :=
      fun f hf => h f (List.mem_cons_of_mem _ hf)
    rcases m with _ | m
    · rw [matcherAfter, List.foldl_cons]
      show some none = some (matcherAfter none frames)
      rw [← ih none hrest]
      rcases frames with _ | ⟨f, fs⟩ <;> rfl
    · have hshort : Short m.resetWindow frame.data.length := by
        have := h frame (List.mem_cons_self ..)
        unfold Short
        simp only [Matcher.resetWindow, List.length_nil]
        omega
      simp only [pushFrames, push_eq hshort, Option.bind_eq_bind, Option.bind_some]
      exact ih _ hrest

/-- A match that ends inside the bytes is shaped in range. -/
theorem shapeMatchContext_eq {hist : Bytes} {idx needleLen context : ℕ}
    (hend : idx + needleLen ≤ hist.length) (hlt : hist.length < u64Size) :
    shapeMatchContext hist idx needleLen (some context) =
      SerialMcp.shapeMatchContext hist idx needleLen (some context) := by
  simp only [shapeMatchContext, SerialMcp.shapeMatchContext, if_pos hend, Option.bind_eq_bind]
  rw [add_eq (by omega), Option.bind_some, slice_eq (by omega) hend, Option.bind_some,
    sub_eq (Nat.sub_le ..)]
  rfl

/-! ## The driver stays in range -/

/-- Fewer bytes than this keep every sum below 2^64. -/
def streamLimit : ℕ := 2 ^ 61

section
variable {drv : ReadDriver} {s : RingSlice}

theorem catPath_eq (h : drv.originalCursor + s.bytes.length < u64Size) :
    catPath drv s = total (SerialMcp.catPath drv s) := by
  have hlen := List.length_take_le' drv.maxBytes s.bytes
  simp only [catPath, slice_front, Option.bind_eq_bind, Option.bind_some]
  rw [add_eq (by omega)]
  rfl

theorem historyMatch_eq {hist : Bytes} {m : Matcher} {idx : ℕ}
    (hend : idx + m.needleLen.getD 0 ≤ hist.length) (hlt : s.fromOffset + hist.length < u64Size) :
    historyMatch drv s hist m idx = SerialMcp.historyMatch drv s hist m idx := by
  rw [historyMatch, add_eq (by omega)]
  simp only [Option.bind_eq_bind, Option.bind_some]
  rw [slice_eq (Nat.zero_le _) hend]
  rcases m.contextAmount with _ | context
  · rfl
  · simp only [Option.bind_some, shapeMatchContext_eq hend (by omega),
      SerialMcp.shapeMatchContext, if_pos hend]
    rw [add_eq (by omega)]
    rfl

theorem historyMatch_panics {hist : Bytes} {m : Matcher} {idx : ℕ}
    (hend : hist.length < idx + m.needleLen.getD 0) :
    historyMatch drv s hist m idx = pure (.error .panic) := by
  have hslice : slice hist 0 (idx + m.needleLen.getD 0) = none := if_neg (by omega)
  rw [historyMatch, add]
  split <;> simp [hslice, orPanic]

theorem framedInitial_eq (hconsumed : drv.acc.consumedOffset + s.bytes.length < u64Size)
    (hdec : ∀ d ∈ drv.decoder, 4 * (d.held + s.bytes.length) + 1 < u64Size) :
    framedInitial drv s = total (SerialMcp.framedInitial drv s) := by
  have hlen := List.length_take_le' drv.maxBytes s.bytes
  unfold framedInitial
  split
  · next dec hd _ =>
    obtain ⟨hframes, -⟩ := dec.push_holds (s.bytes.take drv.maxBytes)
    have hroom := hdec dec hd
    simp only [slice_front, Option.bind_eq_bind, Option.bind_some]
    rw [add_eq (by omega), Option.bind_some, pushFrames_eq _ _ fun frame hf => ?_]
    · rfl
    · have := hframes frame hf
      omega
  · rfl

/-- A driver at the offset `q` of the stream: it holds no more than what it got
    from there, its first bytes counted twice at worst. -/
structure Within (q : ℕ) (drv : ReadDriver) : Prop where
  returned : drv.acc.returnedBytes.length ≤ 2 * q
  consumed : drv.acc.consumedOffset ≤ 2 * q
  decoder : ∀ d ∈ drv.decoder, d.held ≤ drv.acc.returnedBytes.length
  window : drv.decoder = none → ∀ m ∈ drv.matcher,
    m.base + m.window.length ≤ drv.acc.returnedBytes.length

/-- **A live chunk** stays in range. -/
theorem processLiveChunk_eq {q : ℕ} (h : Within q drv) (hq : q ≤ s.fromOffset)
    (hlt : s.fromOffset + s.bytes.length < streamLimit) :
    processLiveChunk drv s = total (SerialMcp.processLiveChunk drv s) := by
  have hlen := List.length_take_le' (drv.maxBytes - drv.acc.returnedBytes.length) s.bytes
  have hreturned := h.returned
  have hu : u64Size = 2 ^ 64 := rfl
  unfold streamLimit at hlt
  simp only [processLiveChunk, slice_front, Option.bind_eq_bind, Option.bind_some]
  rcases hd : drv.decoder with _ | d
  · rcases hm : drv.matcher with _ | m
    · rfl
    · have hwindow := h.window hd m hm
      have hshort : Short m
          (s.bytes.take (drv.maxBytes - drv.acc.returnedBytes.length)).length := by
        unfold Short
        omega
      simp only [pushBounded_eq hshort]
      rfl
  · have hheld := h.decoder d hd
    obtain ⟨hframes, -⟩ :=
      d.push_holds (s.bytes.take (drv.maxBytes - drv.acc.returnedBytes.length))
    simp only
    rw [pushFrames_eq _ _ fun frame hf => ?_]
    · rfl
    · have := hframes frame hf
      omega

end

/-! ## The initial slice -/

/-- What the matcher finds in the history ends inside it. -/
def EndsInside (m : Matcher) (hist : Bytes) (maxBytes : ℕ) : Prop :=
  ∀ idx, (m.pushBounded hist maxBytes).1 = .found idx → idx + m.needleLen.getD 0 ≤ hist.length

section
variable {req : ReadRequest} {c t : ℕ} {d₀ : Option FrameDecoder} {s : RingSlice}

/-- A request whose matcher has seen nothing. -/
def Untouched (req : ReadRequest) : Prop := ∀ m ∈ req.matcher, m.resetWindow = m

theorem Untouched.short (h : Untouched req) {m : Matcher} (hm : m ∈ req.matcher) {n : ℕ}
    (hn : n < streamLimit) : Short m n := by
  have hu : u64Size = 2 ^ 64 := rfl
  unfold streamLimit at hn
  rw [← h m hm, Short]
  simp only [Matcher.resetWindow, List.length_nil]
  omega

/-- **The initial slice** stays in range if what the matcher finds in it ends
    inside it. -/
theorem processInitial_eq (hfresh : Untouched req) (hheld : ∀ d ∈ d₀, d.held = 0)
    (hc : s.bytes ≠ [] → c ≤ s.fromOffset) (hlt : s.fromOffset + s.bytes.length < streamLimit)
    (hends : ∀ m ∈ req.matcher, EndsInside m (s.bytes.take req.maxBytes) req.maxBytes) :
    processInitial (req.driver c t d₀) s = SerialMcp.processInitial (req.driver c t d₀) s := by
  have hlen := List.length_take_le' req.maxBytes s.bytes
  have hu : u64Size = 2 ^ 64 := rfl
  have hlim : streamLimit = 2 ^ 61 := rfl
  have hframed {drv : ReadDriver} (hconsumed : drv.acc.consumedOffset ≤ s.bytes.length)
      (hdec : drv.decoder = d₀) :
      framedInitial drv s = total (SerialMcp.framedInitial drv s) := by
    refine framedInitial_eq (by omega) fun d hd => ?_
    rw [hdec] at hd
    rw [hheld d hd]
    omega
  by_cases hne : s.bytes = []
  · have hempty : s.bytes.isEmpty = true := by simpa using hne
    simp only [processInitial, SerialMcp.processInitial, hempty, Bool.not_true, Bool.false_and,
      Bool.false_eq_true, if_false]
    rcases (req.driver c t d₀).matcher with _ | m
    · exact hframed (Nat.zero_le _) rfl
    · exact hframed (Nat.zero_le _) rfl
  have hempty : s.bytes.isEmpty = false := by simpa using hne
  have hmax : (req.driver c t d₀).maxBytes = req.maxBytes := rfl
  rcases hm : req.matcher with _ | m
  · have hnone : (req.driver c t d₀).matcher = none := hm
    rcases d₀ with _ | d
    · have hdec : (req.driver c t none).decoder = none := rfl
      simp only [processInitial, SerialMcp.processInitial, hempty, hnone, hdec, Bool.not_false,
        Option.isNone_none, Bool.and_self, if_true]
      refine catPath_eq ?_
      have hcursor := hc hne
      show c + s.bytes.length < u64Size
      omega
    · have hdec : (req.driver c t (some d)).decoder = some d := rfl
      simp only [processInitial, SerialMcp.processInitial, hempty, hnone, hdec, Bool.not_false,
        Option.isNone_none, Option.isNone_some, Bool.and_false, Bool.false_eq_true, if_false]
      exact hframed (Nat.zero_le _) rfl
  · have hsome : (req.driver c t d₀).matcher = some m := hm
    have hshort := hfresh.short hm (n := (s.bytes.take req.maxBytes).length) (by omega)
    simp only [processInitial, SerialMcp.processInitial, hempty, hsome, Bool.not_false,
      Option.isNone_some, Bool.and_false, Bool.false_and, Bool.false_eq_true, if_false, hmax,
      slice_front, pushBounded_eq hshort, orPanic]
    rcases hfound : (m.pushBounded (s.bytes.take req.maxBytes) req.maxBytes).1 with _ | idx
    · refine congrArg (Prog.call RxOp.now) (funext fun now => ?_)
      exact hframed hlen rfl
    · exact historyMatch_eq (hends m hm idx hfound) (by omega)

/-- What the matcher finds ends behind the history: the code panics. -/
theorem processInitial_panics (hfresh : Untouched req) (hlt : s.bytes.length < streamLimit)
    (hne : s.bytes ≠ []) {m : Matcher} (hm : m ∈ req.matcher)
    (hends : ¬EndsInside m (s.bytes.take req.maxBytes) req.maxBytes) :
    processInitial (req.driver c t d₀) s = pure (.error .panic) := by
  have hlen := List.length_take_le' req.maxBytes s.bytes
  have hempty : s.bytes.isEmpty = false := by simpa using hne
  have hmax : (req.driver c t d₀).maxBytes = req.maxBytes := rfl
  have hsome : (req.driver c t d₀).matcher = some m := hm
  have hshort := hfresh.short hm (n := (s.bytes.take req.maxBytes).length) (by omega)
  simp only [EndsInside, not_forall, not_le] at hends
  obtain ⟨idx, hfound, hbehind⟩ := hends
  simp only [processInitial, hempty, hsome, Bool.not_false, Option.isNone_some, Bool.and_false,
    Bool.false_and, Bool.false_eq_true, if_false, hmax, slice_front, pushBounded_eq hshort, orPanic,
    hfound]
  exact historyMatch_panics hbehind

end

end Checked

end SerialMcp
