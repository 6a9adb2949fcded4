/-
  The invariant of a private read.

  * `Sliced`: what a slice of the ring is, in terms of the stream.
  * `Decided` and `Halted`: what a chunk of received bytes does to the driver,
    framed or raw (`liveDecision_chunked`).
  * `Progress`: the bytes returned, the frames and the decoder are those of the
    pieces taken so far; `Waiting` and `Stopped` before and after the last turn.
  * `waitOnce_wp`: a turn of the wait loop keeps the invariant or stops.
-/
import SerialMcp.Read.Loop
import SerialMcp.Lib.Cuts

namespace SerialMcp

open Interact RxOp Cuts

/-! ## Slices and traces -/

/-- The piece of the stream that a slice holds. -/
def RingSlice.piece (s : RingSlice) : Piece UInt8 := ⟨s.fromOffset, s.bytes⟩

/-- The piece of a slice, if it has one. -/
def RingSlice.pieces (s : RingSlice) : List (Piece UInt8) :=
  if s.bytes.isEmpty then [] else [s.piece]

theorem RingSlice.pieces_of_ne {s : RingSlice} (h : s.bytes ≠ []) : s.pieces = [s.piece] := by
  simp [RingSlice.pieces, h]

theorem items_piece (s : RingSlice) : items [s.piece] = s.bytes := List.append_nil _

theorem items_pieces (s : RingSlice) : items s.pieces = s.bytes := by
  by_cases hne : s.bytes = []
  · simp [RingSlice.pieces, hne]
  · rw [RingSlice.pieces_of_ne hne, items_piece]

/-- What a slice from the cursor `c` is, if `c` is not beyond the end. -/
structure Sliced (f : Feed) (c n : ℕ) (s : RingSlice) : Prop where
  resumes : Resumes f.ring.startOffset c s.fromOffset
  next : s.nextOffset = s.piece.stop
  length_le : s.bytes.length ≤ n
  stop_le : s.piece.stop ≤ f.ring.endOffset
  piece : s.bytes ≠ [] → s.piece.Of f.stream
  lost : s.bytesLost = s.fromOffset - c

theorem readFrom_sliced {f : Feed} {c : ℕ} (hc : c ≤ f.ring.endOffset) (n : ℕ) :
    Sliced f c n (f.ring.readFrom c n) := by
  have hse := f.ring.start_le_end
  have hstop := f.refines.stop
  have hclamp : f.ring.clampOffset c = max c f.ring.startOffset := by
    unfold RxRing.clampOffset
    exact Nat.min_eq_left (Nat.max_le.2 ⟨hc, hse⟩)
  have hlen : min n (f.stream.length - f.ring.clampOffset c) ≤
      (f.stream.drop (f.ring.clampOffset c)).length := by
    rw [List.length_drop]; exact Nat.min_le_right ..
  have hle : f.ring.clampOffset c ≤ f.stream.length := by
    unfold RxRing.clampOffset
    rw [← hstop]; exact Nat.min_le_right ..
  rw [RxRing.readFrom_eq f.refines]
  refine ⟨?_, ?_, ?_, ?_, fun hne => ⟨hne, ?_, ?_⟩, ?_⟩
  · simp only [hclamp, Resumes]; omega
  · simp only [RingSlice.piece, Piece.stop, List.length_take_of_le hlen]
  · simp only [List.length_take_of_le hlen]; exact Nat.min_le_left ..
  · simp only [RingSlice.piece, Piece.stop, List.length_take_of_le hlen]; omega
  · simp only [RingSlice.piece, Piece.stop, List.length_take_of_le hlen]; omega
  · simp only [RingSlice.piece, Piece.stop, List.length_take_of_le hlen, stretch]
    rw [Nat.add_sub_cancel_left]
  · simp only [hclamp]; omega

/-- A slice lies within the ring, wherever its cursor was. -/
theorem readFrom_within (f : Feed) (cursor n : ℕ) :
    (f.ring.readFrom cursor n).bytes.length ≤ n ∧
      (f.ring.readFrom cursor n).nextOffset = (f.ring.readFrom cursor n).piece.stop ∧
      (f.ring.readFrom cursor n).piece.stop ≤ f.ring.endOffset := by
  have hstop := f.refines.stop
  have hle : f.ring.clampOffset cursor ≤ f.stream.length := by
    unfold RxRing.clampOffset
    rw [← hstop]
    exact Nat.min_le_right ..
  rw [RxRing.readFrom_eq f.refines]
  simp only [RingSlice.piece, Piece.stop, List.length_take, List.length_drop]
  refine ⟨?_, ?_, ?_⟩ <;> omega

theorem Sliced.grow {f g : Feed} {c n : ℕ} {s : RingSlice} (h : Sliced f c n s)
    (hg : f.Grows g) : Sliced g c n s :=
  { h with
    resumes := h.resumes.mono hg.start_le
    stop_le := h.stop_le.trans hg.end_le
    piece := fun hne => (h.piece hne).mono hg.stream }

/-- The start offsets a trace saw. -/
def startsOf : List RxEvent → List ℕ
  | [] => []
  | ⟨.startOffset, n⟩ :: tr => n :: startsOf tr
  | _ :: tr => startsOf tr

theorem startsOf_append (tr tr' : List RxEvent) :
    startsOf (tr ++ tr') = startsOf tr ++ startsOf tr' := by
  induction tr with
  | nil => rfl
  | cons e tr ih =>
    obtain ⟨op, r⟩ := e
    cases op with
    | startOffset => exact congrArg (r :: ·) ih
    | _ => exact ih

/-- The start offset a read saw first: the one its outcome is measured by. -/
def startSeen (tr : List RxEvent) : ℕ := (startsOf tr).headD 0

theorem startSeen_append {tr : List RxEvent} (h : startsOf tr = []) (tr' : List RxEvent) :
    startSeen (tr ++ tr') = startSeen tr' := by
  rw [startSeen, startsOf_append, h]; rfl

/-- The non-empty slices of a trace, as pieces of the stream. -/
def taken (tr : List RxEvent) : List (Piece UInt8) :=
  ((slicesOf tr).filter fun s => !s.bytes.isEmpty).map RingSlice.piece

@[simp] theorem taken_nil : taken [] = [] := rfl

theorem taken_append (tr tr' : List RxEvent) : taken (tr ++ tr') = taken tr ++ taken tr' := by
  simp only [taken, slicesOf_append, List.filter_append, List.map_append]

theorem taken_readFrom (cursor n : ℕ) (s : RingSlice) (tr : List RxEvent) :
    taken (⟨.readFrom cursor n, s⟩ :: tr) = s.pieces ++ taken tr := by
  simp only [taken, slicesOf, List.filter_cons, RingSlice.pieces]
  cases s.bytes.isEmpty <;> rfl

/-- A stretch of a read without a slice or a look at the start offset. -/
structure Quiet (w : World) (tr : List RxEvent) (w' : World) : Prop where
  rely : Rely w w'
  slices : slicesOf tr = []
  starts : startsOf tr = []

theorem taken_of_slices {tr : List RxEvent} (h : slicesOf tr = []) : taken tr = [] := by
  simp [taken, h]

theorem Quiet.taken {w w' : World} {tr : List RxEvent} (h : Quiet w tr w') : taken tr = [] :=
  taken_of_slices h.slices

theorem Quiet.trans {w w' w'' : World} {tr tr' : List RxEvent} (h : Quiet w tr w')
    (h' : Quiet w' tr' w'') : Quiet w (tr ++ tr') w'' :=
  ⟨h.rely.trans h'.rely, by rw [slicesOf_append, h.slices, h'.slices]; rfl,
    by rw [startsOf_append, h.starts, h'.starts]; rfl⟩

/-- Operations that a quiet stretch is made of. -/
def RxOp.Silent : RxOp → Prop
  | .readFrom .. | .startOffset => False
  | _ => True

theorem Quiet.refl (w : World) : Quiet w [] w := ⟨Rely.refl w, rfl, rfl⟩

theorem Quiet.cons {w w₁ w' : World} {tr : List RxEvent} (op : RxOp) (hop : op.Silent)
    (h₁ : Rely w w₁) (r : op.Resp) (h : Quiet (act op w₁).2 tr w') :
    Quiet w (⟨op, r⟩ :: tr) w' := by
  have h₂ : Rely w₁ w' := by
    have := h.rely
    rwa [Rely, act_feed] at this
  refine ⟨h₁.trans h₂, ?_, ?_⟩
  · cases op <;> first | exact h.slices | exact hop.elim
  · cases op <;> first | exact h.starts | exact hop.elim

/-! ## What a chunk decides -/

/-- The matcher saves a context for a match. -/
def Matcher.savesContext (m : Matcher) : Bool := m.needleLen.isSome && m.contextAmount.isSome

/-- What a chunk leaves of the driver. -/
structure Decided (drv : ReadDriver) (chunk : Bytes) (drv' : ReadDriver) : Prop where
  original : drv'.originalCursor = drv.originalCursor
  maxBytes : drv'.maxBytes = drv.maxBytes
  returned : drv'.acc.returnedBytes = drv.acc.returnedBytes
  consumed : drv'.acc.consumedOffset = drv.acc.consumedOffset
  matcher : drv'.matcher.map Matcher.resetWindow = drv.matcher.map Matcher.resetWindow
  maxFrames : drv'.maxFrames = drv.maxFrames
  decoder : drv'.decoder = drv.decoder.map fun d => (d.push chunk).2
  frames : drv'.acc.frames =
    drv.acc.frames ++ (drv.decoder.map fun d => (d.push chunk).1.frames).getD []
  framesSeen : drv.acc.framesSeen = drv.acc.frames.length →
    drv'.acc.framesSeen = drv'.acc.frames.length

/-- Without a decoder the matcher takes the chunk. -/
def Pushed (drv : ReadDriver) (chunk : Bytes) (drv' : ReadDriver) : Prop :=
  drv.decoder = none →
    drv'.matcher = drv.matcher.map fun m => (m.pushBounded chunk drv.maxBytes).2

/-- A chunk that decodes to a match, an error, or the last frame asked for. -/
def FrameStop (matcher : Option Matcher) (maxFrames : Option ℕ) (framesSeen : ℕ)
    (dec : FrameDecoder) (chunk : Bytes) : Prop :=
  (firstMatch matcher (dec.push chunk).1.frames).isSome = true ∨
    (dec.push chunk).1.error.isSome = true ∨
    maxFrames.any (· ≤ framesSeen + (dec.push chunk).1.frames.length) = true

/-- A chunk that brings a match, or the last byte asked for. -/
def RawStop (matcher : Option Matcher) (maxBytes returned : ℕ) (chunk : Bytes) : Prop :=
  (∃ m ∈ matcher, ∃ idx, (m.pushBounded chunk maxBytes).1 = .found idx) ∨
    (0 < maxBytes ∧ maxBytes ≤ returned)

/-- The chunk stops the read. -/
def ReadDriver.StopsOn (drv : ReadDriver) (chunk : Bytes) : Prop :=
  match drv.decoder with
  | some dec => FrameStop drv.matcher drv.maxFrames drv.acc.framesSeen dec chunk
  | none => RawStop drv.matcher drv.maxBytes drv.acc.returnedBytes.length chunk

/-- Stops that count the final cursor from the original one. -/
def RxStopReason.countsFromOriginal (framed : Bool) : RxStopReason → Bool
  | .timeout | .noNewRxTimeout | .cancelled | .connectionClosed => true
  | .drained => framed
  | _ => false

/-- The payload of a live match is shaped by the saved context or replaced by
    the matching frame. -/
def Shapes (matcher : Option Matcher) (framed : Bool) : Prop :=
  framed = true ∨ matcher.any Matcher.savesContext = true

/-- What a stop on a chunk says, given the driver it leaves. -/
structure Halted (matcher : Option Matcher) (drv' : ReadDriver) (c : ReadCompletion) : Prop where
  reason : c.metadata.stopReason.countsFromOriginal drv'.decoder.isSome = false
  payload : ¬(c.matched = true ∧ Shapes matcher drv'.decoder.isSome) →
    c.payloadOverride.getD drv'.acc.returnedBytes = drv'.acc.returnedBytes
  matchedFrame : c.matched = true → drv'.decoder.isSome = true →
    ∃ frame ∈ drv'.acc.frames, ∃ idx, (matchFrame matcher frame).1 = some idx ∧
      c.matchIndex = some idx ∧ c.matchFrameIndex = some frame.index ∧
      c.payloadOverride = some frame.data

/-- What a chunk can decide. -/
inductive Chunked (drv : ReadDriver) (chunk : Bytes) : ChunkDecision → Prop where
  | goesOn {drv'} (h : Decided drv chunk drv') (hpushed : Pushed drv chunk drv')
      (hctrl : ∀ n, drv.ctrl.Unmatched n → drv'.ctrl.Unmatched n)
      (hopen : ¬drv.StopsOn chunk) : Chunked drv chunk (.continue drv')
  | halts {drv' completion} (h : Decided drv chunk drv') (hpushed : Pushed drv chunk drv')
      (hstops : drv.StopsOn chunk) (hcursor : ∀ n, (completion n).finalCursor = n)
      (hstop : ∀ n, Halted drv.matcher drv' (completion n))
      (hclean : ∀ n, (completion n).matched = false →
        (completion n).metadata.stopReason ≠ .framingError →
        ∀ d ∈ drv.decoder, (d.push chunk).1.error = none)
      (hinside : drv.decoder = none → ∀ n,
        (completion n).payloadOverride = some drv'.acc.returnedBytes ∨
        ∃ m ∈ drv.matcher, ∃ payload, (completion n).payloadOverride = some payload ∧
          payload <:+: m.window ++ chunk) :
      Chunked drv chunk (.stop drv' completion)

theorem framedDecision_chunked {drv : ReadDriver} {dec : FrameDecoder} {chunk : Bytes}
    (hdec : drv.decoder = some dec) : Chunked drv chunk (framedDecision drv dec chunk) := by
  have hkept (e : Option String) : Decided drv chunk { drv with
      decoder := some (dec.push chunk).2
      matcher := matcherAfter drv.matcher (dec.push chunk).1.frames
      acc := { framedAcc chunk dec drv.matcher drv.acc with frameError := e } } := by
    refine ⟨rfl, rfl, rfl, rfl, matcherAfter_reset _ _, rfl, by rw [hdec]; rfl, by rw [hdec]; rfl,
      fun h => ?_⟩
    simp only [framedAcc, List.length_append, h]
  have hframed {P : Prop} (h : drv.decoder = none) : P := by simp [hdec] at h
  have hstops : drv.StopsOn chunk ↔
      FrameStop drv.matcher drv.maxFrames drv.acc.framesSeen dec chunk := by
    rw [ReadDriver.StopsOn, hdec]
  simp only [framedDecision, processFramedChunk_eq, framedVerdict]
  rcases hm : firstMatch drv.matcher (dec.push chunk).1.frames with _ | ⟨frame, idx⟩
  · rcases he : (dec.push chunk).1.error with _ | e
    · by_cases hmax : drv.maxFrames.any
          (· ≤ drv.acc.framesSeen + (dec.push chunk).1.frames.length) = true
      · simp only [hmax, if_true]
        refine .halts (hkept _) hframed (hstops.2 (.inr (.inr hmax))) (fun _ => rfl)
          (fun _ => ⟨rfl, fun _ => rfl, fun h => absurd h Bool.false_ne_true⟩)
          (fun _ _ _ d hd => ?_) hframed
        rw [hdec, Option.mem_some] at hd
        rw [← hd, he]
      · simp only [hmax, if_false, Bool.false_eq_true]
        refine .goesOn (hkept _) hframed (fun _ h => h) fun h => ?_
        simp [FrameStop, hm, he] at hstops
        exact hmax (by simpa using hstops.1 h)
    · exact .halts (hkept _) hframed (hstops.2 (.inr (.inl (by rw [he]; rfl)))) (fun _ => rfl)
        (fun _ => ⟨rfl, fun _ => rfl, fun h => absurd h Bool.false_ne_true⟩)
        (fun _ _ h => absurd rfl h) hframed
  · obtain ⟨fr, hfr, hv⟩ := List.exists_of_findSome?_eq_some hm
    obtain ⟨i, hi, hpair⟩ := Option.map_eq_some_iff.1 hv
    obtain ⟨rfl, rfl⟩ := Prod.mk.inj hpair
    refine .halts (hkept _) hframed (hstops.2 (.inl (by rw [hm]; rfl))) (fun _ => rfl)
      (fun _ => ⟨rfl, fun h => ?_, fun _ _ => ?_⟩) (fun _ h => absurd h (by simp)) hframed
    · exact absurd ⟨rfl, .inl rfl⟩ h
    · exact ⟨fr, List.mem_append_right _ hfr, i, hi, rfl, rfl, rfl⟩

theorem Shapes.congr {m m' : Option Matcher} {framed : Bool}
    (h : m.map Matcher.resetWindow = m'.map Matcher.resetWindow) :
    Shapes m framed ↔ Shapes m' framed := by
  have key (m : Option Matcher) :
      m.any Matcher.savesContext = (m.map Matcher.resetWindow).any Matcher.savesContext := by
    cases m <;> rfl
  rw [Shapes, Shapes, key m, key m', h]

theorem shapeLiteralMatchContext_none {m : Matcher} (h : m.savesContext = false) (idx : ℕ) :
    m.shapeLiteralMatchContext idx = none := by
  obtain ⟨pat, win, ctx, base, saved, first⟩ := m
  rcases pat with needle | re | pat <;> rcases ctx with _ | n <;>
    simp_all [Matcher.savesContext, Matcher.needleLen, Matcher.shapeLiteralMatchContext]

theorem unshaped {m : Option Matcher} (h : ¬Shapes m false) (idx : ℕ) :
    (m.bind fun m => m.shapeLiteralMatchContext idx) = none := by
  rcases m with _ | m
  · rfl
  · have hs : m.savesContext = false := by simpa [Shapes] using h
    exact shapeLiteralMatchContext_none hs idx

theorem rawDecision_chunked {drv : ReadDriver} {chunk : Bytes} (hdec : drv.decoder = none)
    (hun : drv.ctrl.Unmatched drv.maxBytes) : Chunked drv chunk (rawDecision drv chunk) := by
  have hreset : ((drv.matcher.map fun m => m.pushBounded chunk drv.maxBytes).map
      Prod.snd).map Matcher.resetWindow = drv.matcher.map Matcher.resetWindow := by
    rcases drv.matcher with _ | m
    · rfl
    · exact congrArg some (Matcher.resetWindow_pushBounded m chunk drv.maxBytes)
  have hkept (ctrl : RxStopController) : Decided drv chunk { drv with
      matcher := (drv.matcher.map fun m => m.pushBounded chunk drv.maxBytes).map Prod.snd
      ctrl := ctrl } :=
    ⟨rfl, rfl, rfl, rfl, hreset, rfl, by rw [hdec]; rfl, by rw [hdec]; simp, fun h => h⟩
  have hpushed (ctrl : RxStopController) : Pushed drv chunk { drv with
      matcher := (drv.matcher.map fun m => m.pushBounded chunk drv.maxBytes).map Prod.snd
      ctrl := ctrl } := fun _ => Option.map_map ..
  have hstops : drv.StopsOn chunk ↔
      RawStop drv.matcher drv.maxBytes drv.acc.returnedBytes.length chunk := by
    rw [ReadDriver.StopsOn, hdec]
  have hmax := hun.maxBytes
  have hclean : ∀ d ∈ drv.decoder, (d.push chunk).1.error = none := by simp [hdec]
  simp only [rawDecision]
  rcases drv.ctrl.pushData_cases chunk.length drv.acc.returnedBytes.length
      ((drv.matcher.map fun m => m.pushBounded chunk drv.maxBytes).map Prod.fst) with
    ⟨ctrl', hp, hctrl, hno, hroom⟩ | ⟨ctrl', observed, hfull, hp⟩ | ⟨idx, ctrl', observed, hfound, hp⟩
  · rw [hp]
    refine .goesOn (hkept _) (hpushed _) hctrl fun hst => ?_
    rcases hstops.1 hst with ⟨m, hm, idx, hf⟩ | hfull
    · refine hno idx ?_
      rw [hm, Option.map_some, Option.map_some, hf]
    · exact hroom (hmax ▸ hfull)
  · simp only [hp, hun.matched, hun.matchIndex]
    exact .halts (hkept _) (hpushed _) (hstops.2 (.inr (hmax ▸ hfull))) (fun _ => rfl)
      (fun _ => ⟨rfl, fun _ => rfl, fun h => absurd h Bool.false_ne_true⟩) (fun _ _ _ => hclean)
      (fun _ _ => .inl rfl)
  · simp only [hp]
    have hfinds : ∃ m ∈ drv.matcher, (m.pushBounded chunk drv.maxBytes).1 = .found idx := by
      simpa only [Option.map_map, Option.map_eq_some_iff, Function.comp_apply,
        Option.mem_def] using hfound
    refine .halts (hkept _) (hpushed _) (hstops.2 (.inl ?_)) (fun _ => rfl)
      (fun _ => ⟨rfl, fun h => ?_, fun _ h => ?_⟩)
      (fun _ h => absurd h (by simp [RxStopOutcome.completion])) fun _ n => ?_
    · obtain ⟨m, hm, hf⟩ := hfinds
      exact ⟨m, hm, idx, hf⟩
    · have hs : ¬Shapes ((drv.matcher.map fun m => m.pushBounded chunk drv.maxBytes).map Prod.snd)
          false := by
        rw [Shapes.congr hreset]
        intro hs
        refine h ⟨rfl, ?_⟩
        simpa only [hdec, Option.isSome_none] using hs
      simp only [unshaped hs, RxStopOutcome.completion, Option.getD_some]
    · simp [hdec] at h
    -- the payload is what the matcher saved, or everything returned
    · rcases hsh : ((drv.matcher.map fun m => m.pushBounded chunk drv.maxBytes).map Prod.snd).bind
        fun m => m.shapeLiteralMatchContext idx with _ | shaped
      · exact .inl (by simp only [hsh, RxStopOutcome.completion])
      · simp only [hsh, RxStopOutcome.completion]
        refine .inr ?_
        simp only [Option.map_map, Option.bind_eq_some_iff, Option.map_eq_some_iff,
          Function.comp_apply] at hsh
        obtain ⟨_, ⟨m, hm, rfl⟩, hshape⟩ := hsh
        obtain ⟨m₂, hm₂, hf⟩ := hfinds
        obtain rfl := Option.some.inj (hm.symm.trans hm₂)
        exact ⟨m, hm, shaped.data, rfl, Matcher.pushBounded_shape hf hshape⟩

theorem liveDecision_chunked {drv : ReadDriver} {chunk : Bytes}
    (hun : drv.ctrl.Unmatched drv.maxBytes) : Chunked drv chunk (liveDecision drv chunk) := by
  rcases hdec : drv.decoder with _ | dec
  · simp only [liveDecision, hdec]
    exact rawDecision_chunked hdec hun
  · simp only [liveDecision, hdec]
    exact framedDecision_chunked hdec

/-! ## The invariant of a read -/

/-- What a decoder makes of the pieces. -/
abbrev decoded (d : FrameDecoder) (ps : List (Piece UInt8)) :
    Emitted × List FrameDecodeError × FrameDecoder :=
  FrameDecoder.decoder.pushAll d (ps.map Piece.items)

/-- The matcher after the pieces. -/
def Matcher.after (maxBytes : ℕ) (m : Matcher) (ps : List (Piece UInt8)) : Matcher :=
  ps.foldl (fun m p => (m.pushBounded p.items maxBytes).2) m

theorem Matcher.after_snoc (maxBytes : ℕ) (m : Matcher) (ps : List (Piece UInt8))
    (p : Piece UInt8) :
    m.after maxBytes (ps ++ [p]) = ((m.after maxBytes ps).pushBounded p.items maxBytes).2 := by
  simp [Matcher.after]

theorem Matcher.after_window {m : Matcher} (h : m.window = []) (maxBytes : ℕ)
    (ps : List (Piece UInt8)) : (m.after maxBytes ps).window <:+ items ps := by
  induction ps using List.reverseRecOn with
  | nil => rw [Matcher.after, List.foldl_nil, h]; exact List.nil_suffix
  | append_singleton ps p ih =>
    rw [Matcher.after_snoc, items_snoc]
    exact (pushBounded_window ..).trans (List.suffix_append_self_iff.2 ih)

/-- The matcher of the request has seen nothing yet. -/
def ReadRequest.Fresh (req : ReadRequest) : Prop := ∀ m ∈ req.matcher, m.window = []

/-- Where the match in the initial slice ends, if there is one. -/
def historyEnd (req : ReadRequest) (s : RingSlice) : Option ℕ :=
  if s.bytes.isEmpty then none
  else req.matcher.bind fun m =>
    match (m.pushBounded s.bytes req.maxBytes).1 with
    | .found idx => some (idx + m.needleLen.getD 0)
    | .noMatch => none

theorem historyEnd_some {req : ReadRequest} {s : RingSlice} {m : Matcher} (hne : s.bytes ≠ [])
    (hm : req.matcher = some m) :
    historyEnd req s = match (m.pushBounded s.bytes req.maxBytes).1 with
      | .found idx => some (idx + m.needleLen.getD 0)
      | .noMatch => none := by
  simp [historyEnd, hne, hm]

/-- The matcher found nothing in the initial bytes, and they go to the decoder
    as well: they are counted and returned twice. -/
def CountsTwice (req : ReadRequest) (s : RingSlice) : Prop :=
  s.bytes ≠ [] ∧ req.matcher.isSome = true ∧ req.framing.isSome = true ∧ historyEnd req s = none

/-- The request is met by the piece `p` behind the pieces `ps`. -/
def StopsOn (req : ReadRequest) (d₀ : Option FrameDecoder) (ps : List (Piece UInt8))
    (p : Piece UInt8) : Prop :=
  match d₀ with
  | some d => FrameStop req.matcher (req.framing.bind (·.maxFrames)) (decoded d ps).1.frames.length
      (decoded d ps).2.2 p.items
  | none => RawStop (req.matcher.map (·.after req.maxBytes ps)) req.maxBytes
      (items (ps ++ [p])).length p.items

/-- The bytes taken meet the request: any bytes, if it only asks for what is
    there, or the last piece; without framing the initial slice is only asked
    for a match. -/
def Sated (req : ReadRequest) (d₀ : Option FrameDecoder) (s₀ : RingSlice)
    (ps : List (Piece UInt8)) : Prop :=
  (s₀.bytes ≠ [] ∧ req.matcher = none ∧ d₀ = none) ∨
    ∃ ps' p, ps = ps' ++ [p] ∧ (d₀ = none → ps ≠ s₀.pieces) ∧ StopsOn req d₀ ps' p

/-- The bytes of the pieces are returned and counted once. -/
structure Counted (maxBytes : ℕ) (ps : List (Piece UInt8)) (acc : ReadAccumulator) : Prop where
  returned : acc.returnedBytes = items ps
  consumed : acc.consumedOffset = (items ps).length
  room : (items ps).length ≤ maxBytes

section
variable (req : ReadRequest) (c : ℕ) (d₀ : Option FrameDecoder) (s₀ : RingSlice)

/-- What a read from the cursor `c` with the decoder `d₀` and the initial slice
    `s₀` has done with the pieces `ps` it took. -/
structure Progress (f : Feed) (ps : List (Piece UInt8)) (q : ℕ) (drv : ReadDriver) : Prop where
  framing : d₀.isSome = req.framing.isSome
  initial : s₀.pieces <+: ps
  chain : Chain f.stream f.ring.startOffset c ps q
  stop_le : q ≤ f.ring.endOffset
  original : drv.originalCursor = c
  maxBytes : drv.maxBytes = req.maxBytes
  maxFrames : drv.maxFrames = req.framing.bind (·.maxFrames)
  counted : ¬CountsTwice req s₀ → Counted req.maxBytes ps drv.acc
  matcher : drv.matcher.map Matcher.resetWindow = req.matcher.map Matcher.resetWindow
  rawMatcher : d₀ = none → drv.matcher = req.matcher.map (·.after req.maxBytes ps)
  decoder : drv.decoder = d₀.map fun d => (decoded d ps).2.2
  frames : drv.acc.frames = (d₀.map fun d => (decoded d ps).1.frames).getD []
  framesSeen : drv.acc.framesSeen = drv.acc.frames.length

/-- The decoder met no error on the pieces. -/
def Clean (ps : List (Piece UInt8)) : Prop := ∀ d ∈ d₀, (decoded d ps).2.1 = []

/-- A read that waits for bytes at the clocked cursor. -/
structure Waiting (f : Feed) (ps : List (Piece UInt8)) (drv : ReadDriver) (clocked : ℕ) :
    Prop where
  progress : ∃ q, Progress req c d₀ s₀ f ps q drv ∧ Resumes f.ring.startOffset q clocked
  clocked_le : clocked ≤ f.ring.endOffset
  unmatched : drv.ctrl.Unmatched req.maxBytes
  clean : Clean d₀ ps
  unsated : ¬Sated req d₀ s₀ ps

/-- How a read stops in its loop, or on the initial slice. -/
inductive Ends (ps : List (Piece UInt8)) (q : ℕ) (drv : ReadDriver) (compl : ReadCompletion) :
    Prop where
  | slice (hne : ps ≠ []) (hsated : Sated req d₀ s₀ ps)
      (hfinal : ¬CountsTwice req s₀ → compl.finalCursor = q)
      (h : Halted req.matcher drv compl)
      (hclean : compl.matched = false → compl.metadata.stopReason ≠ .framingError → Clean d₀ ps)
      (hinside : d₀ = none → req.Fresh →
        compl.payloadOverride.getD drv.acc.returnedBytes <:+: items ps)
  | idle (hunsated : ¬Sated req d₀ s₀ ps)
      (hfinal : ¬CountsTwice req s₀ → compl.finalCursor = c + (items ps).length)
      (hreason : compl.metadata.stopReason.countsFromOriginal d₀.isSome = true)
      (hmatched : compl.matched = false) (hpayload : compl.payloadOverride = none)
      (hclean : Clean d₀ ps)

/-- A read that stopped and is about to complete. -/
def Stopped (f : Feed) (ps : List (Piece UInt8)) (drv : ReadDriver) (compl : ReadCompletion) :
    Prop :=
  ∃ q, Progress req c d₀ s₀ f ps q drv ∧ Ends req c d₀ s₀ ps q drv compl

end

section
variable {req : ReadRequest} {c : ℕ} {d₀ : Option FrameDecoder} {s₀ : RingSlice} {f g : Feed}
  {ps : List (Piece UInt8)} {q clocked : ℕ} {drv drv' : ReadDriver} {compl : ReadCompletion}

theorem Progress.grow (h : Progress req c d₀ s₀ f ps q drv) (hg : f.Grows g) :
    Progress req c d₀ s₀ g ps q drv :=
  { h with chain := h.chain.mono hg.stream hg.start_le, stop_le := h.stop_le.trans hg.end_le }

theorem Waiting.grow (h : Waiting req c d₀ s₀ f ps drv clocked) (hg : f.Grows g) :
    Waiting req c d₀ s₀ g ps drv clocked := by
  obtain ⟨⟨q, hp, hr⟩, hle, hun, hclean, hunsated⟩ := h
  exact ⟨⟨q, hp.grow hg, hr.mono hg.start_le⟩, hle.trans hg.end_le, hun, hclean, hunsated⟩

theorem Stopped.grow (h : Stopped req c d₀ s₀ f ps drv compl) (hg : f.Grows g) :
    Stopped req c d₀ s₀ g ps drv compl := by
  obtain ⟨q, hp, he⟩ := h
  exact ⟨q, hp.grow hg, he⟩

theorem decoded_snoc (d : FrameDecoder) (ps : List (Piece UInt8)) (p : Piece UInt8) :
    (decoded d (ps ++ [p])).1.frames =
        (decoded d ps).1.frames ++ ((decoded d ps).2.2.push p.items).1.frames ∧
      (decoded d (ps ++ [p])).2.1 =
        (decoded d ps).2.1 ++ ((decoded d ps).2.2.push p.items).1.error.toList ∧
      (decoded d (ps ++ [p])).2.2 = ((decoded d ps).2.2.push p.items).2 := by
  simp only [decoded, List.map_append, List.map_cons, List.map_nil]
  rw [Incremental.Decoder.pushAll_append]
  simp only [Incremental.Decoder.pushAll, mul_one, List.append_nil, Emitted.mul_frames]
  exact ⟨rfl, rfl, rfl⟩

/-- What is taken behind `q`. -/
structure Takes (f : Feed) (drv : ReadDriver) (q : ℕ) (s : RingSlice) : Prop where
  resumes : Resumes f.ring.startOffset q s.fromOffset
  piece : s.piece.Of f.stream
  stop_le : s.piece.stop ≤ f.ring.endOffset
  length_le : s.bytes.length ≤ drv.maxBytes - drv.acc.returnedBytes.length

theorem Takes.grow {s : RingSlice} (h : Takes f drv q s) (hg : f.Grows g) : Takes g drv q s :=
  ⟨h.resumes.mono hg.start_le, h.piece.mono hg.stream, h.stop_le.trans hg.end_le, h.length_le⟩

/-- **Step**: a slice that is absorbed and decided on extends the progress. -/
theorem Progress.take (h : Progress req c d₀ s₀ f ps q drv) {s : RingSlice} {now : ℕ}
    (hs : Takes f drv q s) (hd : Decided (drv.absorb s.bytes now) s.bytes drv')
    (hpushed : Pushed (drv.absorb s.bytes now) s.bytes drv') :
    Progress req c d₀ s₀ f (ps ++ [s.piece]) s.piece.stop drv' where
  framing := h.framing
  initial := h.initial.trans (List.prefix_append ..)
  chain := h.chain.snoc hs.resumes hs.piece
  stop_le := hs.stop_le
  original := hd.original.trans h.original
  maxBytes := hd.maxBytes.trans h.maxBytes
  maxFrames := hd.maxFrames.trans h.maxFrames
  counted ho := by
    obtain ⟨hret, hcons, hroom⟩ := h.counted ho
    have hlen := hs.length_le
    rw [hret, h.maxBytes] at hlen
    have hend := f.ring.end_lt
    have hstop := hs.stop_le
    -- the count stays below `max_bytes` and below the end of the stream
    have htotal := (h.chain.snoc hs.resumes hs.piece).anchor_add_le
    rw [items_snoc, List.length_append] at htotal
    simp only [RingSlice.piece] at hstop htotal
    refine ⟨?_, ?_, ?_⟩
    · rw [hd.returned, items_snoc, ← hret]; rfl
    · rw [hd.consumed, items_snoc, List.length_append]
      simp only [ReadDriver.absorb, hcons, h.maxBytes, RingSlice.piece]
      rw [wrappingAdd_eq (by omega)]
      omega
    · rw [items_snoc, List.length_append]
      simp only [RingSlice.piece]
      omega
  matcher := hd.matcher.trans h.matcher
  decoder := by
    rw [hd.decoder]
    simp only [ReadDriver.absorb, h.decoder, Option.map_map]
    exact congrArg (d₀.map ·) (funext fun d => ((decoded_snoc d ps s.piece).2.2).symm)
  frames := by
    rw [hd.frames]
    simp only [ReadDriver.absorb, h.frames, h.decoder, Option.map_map]
    rcases d₀ with _ | d
    · rfl
    · exact ((decoded_snoc d ps s.piece).1).symm
  rawMatcher hd₀ := by
    have hdec : (drv.absorb s.bytes now).decoder = none := by
      rw [show (drv.absorb s.bytes now).decoder = drv.decoder from rfl, h.decoder, hd₀]; rfl
    rw [hpushed hdec]
    simp only [ReadDriver.absorb, h.rawMatcher hd₀, h.maxBytes, Option.map_map]
    exact congrArg (req.matcher.map ·) (funext fun m => (m.after_snoc _ ps s.piece).symm)
  framesSeen := hd.framesSeen h.framesSeen

theorem Progress.window (h : Progress req c d₀ s₀ f ps q drv) (hd₀ : d₀ = none)
    (hfresh : req.Fresh) : ∀ m ∈ drv.matcher, m.window <:+ items ps := by
  intro m hm
  rw [h.rawMatcher hd₀] at hm
  obtain ⟨m', hm', rfl⟩ := Option.mem_map.1 hm
  exact Matcher.after_window (hfresh m' hm') _ _

theorem FrameStop.congr {m m' : Option Matcher}
    (h : m.map Matcher.resetWindow = m'.map Matcher.resetWindow) {maxFrames : Option ℕ}
    {framesSeen : ℕ} {dec : FrameDecoder} {chunk : Bytes} :
    FrameStop m maxFrames framesSeen dec chunk ↔ FrameStop m' maxFrames framesSeen dec chunk := by
  rw [FrameStop, FrameStop, firstMatch_congr h]

theorem Progress.counted_raw (h : Progress req c d₀ s₀ f ps q drv) (hd₀ : d₀ = none) :
    Counted req.maxBytes ps drv.acc := by
  refine h.counted fun htwice => ?_
  have := h.framing
  rw [hd₀, htwice.2.2.1] at this
  exact absurd this Bool.false_ne_true

theorem Progress.stopsOn_iff (h : Progress req c d₀ s₀ f ps q drv) {s : RingSlice} {now : ℕ} :
    (drv.absorb s.bytes now).StopsOn s.bytes ↔ StopsOn req d₀ ps s.piece := by
  have hdec : (drv.absorb s.bytes now).decoder = d₀.map fun d => (decoded d ps).2.2 := h.decoder
  rcases d₀ with _ | d
  · have hret : (drv.absorb s.bytes now).acc.returnedBytes = items (ps ++ [s.piece]) := by
      rw [items_snoc, ← (h.counted_raw rfl).returned]; rfl
    rw [ReadDriver.StopsOn, hdec, StopsOn, hret]
    simp only [ReadDriver.absorb, h.rawMatcher rfl, h.maxBytes, Option.map_none, RingSlice.piece]
  · have hseen : (drv.absorb s.bytes now).acc.framesSeen = (decoded d ps).1.frames.length :=
      h.framesSeen.trans (congrArg List.length h.frames)
    rw [ReadDriver.StopsOn, hdec, StopsOn, hseen]
    simp only [ReadDriver.absorb, h.maxFrames, Option.map_some, RingSlice.piece]
    exact FrameStop.congr h.matcher

/-- A piece behind the initial slice decides whether the request is met. -/
theorem sated_snoc (hunsated : ¬Sated req d₀ s₀ ps) (hinit : s₀.pieces <+: ps) {p : Piece UInt8} :
    Sated req d₀ s₀ (ps ++ [p]) ↔ StopsOn req d₀ ps p := by
  constructor
  · rintro (hcat | ⟨ps', p', heq, -, hst⟩)
    · exact absurd (.inl hcat) hunsated
    · obtain ⟨rfl, hp⟩ := List.append_inj' heq rfl
      obtain rfl := List.singleton_inj.1 hp
      exact hst
  · refine fun hst => .inr ⟨ps, p, rfl, fun _ heq => ?_, hst⟩
    have := hinit.length_le
    rw [← heq, List.length_append, List.length_singleton] at this
    omega

theorem Clean.take (h : Clean d₀ ps) {p : Piece UInt8}
    (hp : ∀ d ∈ d₀.map fun d => (decoded d ps).2.2, (d.push p.items).1.error = none) :
    Clean d₀ (ps ++ [p]) := by
  intro d hd
  rw [(decoded_snoc d ps p).2.1, h d hd, hp _ (Option.mem_map_of_mem _ hd)]
  rfl

/-- A piece that does not meet the request decodes without an error. -/
theorem Clean.goesOn (h : Clean d₀ ps) {p : Piece UInt8} (hopen : ¬StopsOn req d₀ ps p) :
    Clean d₀ (ps ++ [p]) := by
  refine h.take fun d hd => ?_
  obtain ⟨d', hd', rfl⟩ := Option.mem_map.1 hd
  rw [Option.mem_def] at hd'
  subst hd'
  by_contra herr
  exact hopen (.inr (.inl (Option.isSome_iff_ne_none.2 herr)))

theorem Halted.congr {m m' : Option Matcher}
    (h : m.map Matcher.resetWindow = m'.map Matcher.resetWindow) (hh : Halted m drv compl) :
    Halted m' drv compl where
  reason := hh.reason
  payload hn := hh.payload fun hs => hn ⟨hs.1, (Shapes.congr h).1 hs.2⟩
  matchedFrame hm hd := by
    obtain ⟨frame, hf, idx, hv, hrest⟩ := hh.matchedFrame hm hd
    exact ⟨frame, hf, idx, (matchFrame_congr h frame).symm.trans hv, hrest⟩

/-! ## One turn of the wait loop -/

/-- What a turn of the loop decided. -/
def Turned (req : ReadRequest) (c : ℕ) (d₀ : Option FrameDecoder) (s₀ : RingSlice) (f : Feed)
    (ps : List (Piece UInt8)) : WaitStep → Prop
  | .again drv clocked => Waiting req c d₀ s₀ f ps drv clocked
  | .stop drv compl => Stopped req c d₀ s₀ f ps drv compl

variable {w : World}

/-- The final cursor counted from an offset whose sum stays within the stream. -/
theorem wrapPrivateCursor_wp {base n : ℕ} (h : base + n ≤ w.feed.ring.endOffset) :
    wp act Rely (wrapPrivateCursor base n) (fun tr w' r => Quiet w tr w' ∧ r = base + n) w := by
  intro w₁ h₁
  refine ⟨⟨h₁, rfl, rfl⟩, ?_⟩
  have h₂ := Feed.Grows.end_le h₁
  have h₃ := w₁.feed.ring.end_lt
  show min (wrappingAdd base n) w₁.feed.ring.endOffset = base + n
  rw [wrappingAdd_eq (by omega)]
  omega

theorem advancePrivateCursor_wp {base n : ℕ} (h : base + n ≤ w.feed.ring.endOffset) :
    wp act Rely (advancePrivateCursor base n) (fun tr w' r => Quiet w tr w' ∧ r = base + n) w := by
  intro w₁ h₁
  refine ⟨⟨h₁, rfl, rfl⟩, ?_⟩
  have h₂ := Feed.Grows.end_le h₁
  have h₃ := w₁.feed.ring.end_lt
  show min (saturatingAdd base n) w₁.feed.ring.endOffset = base + n
  rw [saturatingAdd_eq (by omega)]
  omega

theorem wrapPrivateCursor_quiet (base n : ℕ) :
    wp act Rely (wrapPrivateCursor base n) (fun tr w' _ => Quiet w tr w') w :=
  fun _ h₁ => ⟨h₁, rfl, rfl⟩

theorem advancePrivateCursor_quiet (base n : ℕ) :
    wp act Rely (advancePrivateCursor base n) (fun tr w' _ => Quiet w tr w') w :=
  fun _ h₁ => ⟨h₁, rfl, rfl⟩

/-- A cursor that is right if the bytes were counted once. -/
theorem cursor_wp {once : Prop} {p : RxProg ℕ} {n : ℕ}
    (hq : wp act Rely p (fun tr w' _ => Quiet w tr w') w)
    (hn : once → wp act Rely p (fun tr w' r => Quiet w tr w' ∧ r = n) w) :
    wp act Rely p (fun tr w' r => Quiet w tr w' ∧ (once → r = n)) w := by
  refine wp_iff.2 fun tr w' r hr => ⟨hr.wp hq, fun ho => (hr.wp (hn ho)).2⟩

/-- The cursor counted from the original one lies within the stream. -/
theorem Progress.original_add_le (h : Progress req c d₀ s₀ f ps q drv) :
    c + (items ps).length ≤ f.ring.endOffset := by
  have h₁ := h.chain.anchor_add_le
  have h₂ := h.chain.anchor_resumes.le
  have h₃ := h.stop_le
  omega

/-- Both ways to count the final cursor from the original one agree. -/
theorem Progress.advance_wp (h : Progress req c d₀ s₀ w.feed ps q drv) :
    wp act Rely (advancePrivateCursor drv.originalCursor drv.acc.consumedOffset)
      (fun tr w' r => Quiet w tr w' ∧ (¬CountsTwice req s₀ → r = c + (items ps).length)) w := by
  refine cursor_wp (advancePrivateCursor_quiet _ _) fun ho => ?_
  rw [h.original, (h.counted ho).consumed]
  exact advancePrivateCursor_wp h.original_add_le

theorem Progress.wrap_wp (h : Progress req c d₀ s₀ w.feed ps q drv) :
    wp act Rely (wrapPrivateCursor drv.originalCursor drv.acc.consumedOffset)
      (fun tr w' r => Quiet w tr w' ∧ (¬CountsTwice req s₀ → r = c + (items ps).length)) w := by
  refine cursor_wp (wrapPrivateCursor_quiet _ _) fun ho => ?_
  rw [h.original, (h.counted ho).consumed]
  exact wrapPrivateCursor_wp h.original_add_le

/-- A stop that no data caused. -/
theorem idleStop_wp {outcome : RxStopOutcome} {cursor : RxProg ℕ}
    (h : Waiting req c d₀ s₀ w.feed ps drv clocked)
    (hreason : outcome.metadata.stopReason.countsFromOriginal d₀.isSome = true)
    (hmatched : outcome.matched = false)
    (hcursor : wp act Rely cursor
      (fun tr w' r => Quiet w tr w' ∧ (¬CountsTwice req s₀ → r = c + (items ps).length)) w) :
    wp act Rely (idleStop drv outcome cursor)
      (fun tr w' step => Quiet w tr w' ∧ Turned req c d₀ s₀ w'.feed ps step) w := by
  refine wp_seq hcursor ?_
  rintro tr w' r ⟨hquiet, hr⟩
  obtain ⟨⟨q, hp, -⟩, -, -, hclean, hunsated⟩ := h
  refine ⟨by rwa [List.append_nil], q, hp.grow hquiet.rely, ?_⟩
  exact .idle hunsated hr hreason hmatched rfl hclean

theorem processLiveChunk_wp (h : Waiting req c d₀ s₀ w.feed ps drv clocked) {s : RingSlice}
    (hs : Sliced w.feed clocked (drv.maxBytes - drv.acc.returnedBytes.length) s)
    (hne : s.bytes ≠ []) :
    wp act Rely (processLiveChunk drv s) (fun tr w' step => Quiet w tr w' ∧
      Turned req c d₀ s₀ w'.feed (ps ++ [s.piece]) step) w := by
  obtain ⟨⟨q, hp, hr⟩, hle, hun, hclean, hunsated⟩ := h
  have htakes : Takes w.feed drv q s :=
    ⟨hr.trans hs.resumes, hs.piece hne, hs.stop_le, hs.length_le⟩
  have hsated := sated_snoc hunsated hp.initial (p := s.piece)
  simp only [processLiveChunk, Prog.perform_bind, wp_call]
  intro w₁ h₁
  have hp₁ := hp.grow h₁
  have hs₁ : Takes w₁.feed drv q s := htakes.grow h₁
  simp only [List.take_of_length_le hs.length_le, act]
  have hun' : (drv.absorb s.bytes w₁.now).ctrl.Unmatched req.maxBytes := ⟨hun.1, hun.2, hun.3⟩
  have hch : Chunked (drv.absorb s.bytes w₁.now) s.bytes
      (liveDecision (drv.absorb s.bytes w₁.now) s.bytes) :=
    liveDecision_chunked (hp.maxBytes.symm ▸ hun')
  have hdec : (drv.absorb s.bytes w₁.now).decoder = d₀.map fun d => (decoded d ps).2.2 := hp.decoder
  generalize liveDecision (drv.absorb s.bytes w₁.now) s.bytes = decision at hch ⊢
  cases hch with
  | @goesOn drv' hd hpushed hctrl hopen =>
    have hp₂ := hp₁.take hs₁ hd hpushed
    have hopen₂ : ¬StopsOn req d₀ ps s.piece := fun h => hopen (hp.stopsOn_iff.2 h)
    have hclean₂ := hclean.goesOn hopen₂
    by_cases hfull : drv'.maxBytes ≤ drv'.acc.returnedBytes.length
    -- `max_bytes` reached: only a framed read gets here with bytes in hand
    · simp only [hfull, if_true]
      refine wp_seq hp₂.advance_wp ?_
      rintro tr w₂ r ⟨hquiet, hr⟩
      rw [wp_pure, List.append_nil]
      refine ⟨hquiet.cons .now trivial h₁ _, _, hp₂.grow hquiet.rely,
        .idle (fun h => hopen₂ (hsated.1 h)) hr ?_ rfl rfl hclean₂⟩
      -- a raw read would have stopped in `push_data`
      rcases d₀ with _ | d
      · have hpos := List.length_pos_of_ne_nil hne
        have hlen := hs.length_le
        rw [hp.maxBytes] at hlen
        rw [hp₂.maxBytes, (hp₂.counted_raw rfl).returned] at hfull
        exact absurd (.inr ⟨by omega, hfull⟩) hopen₂
      · rfl
    · simp only [hfull, if_false]
      refine ⟨(Quiet.refl _).cons .now trivial h₁ _, ⟨_, hp₂, .inl hs.next⟩, ?_, ?_, hclean₂,
        fun h => hopen₂ (hsated.1 h)⟩
      · rw [hs.next]; exact hs₁.stop_le
      · exact hctrl _ hun'
  | halts hd hpushed hstops hcursor hstop hpush hinside =>
    have hp₂ := hp₁.take hs₁ hd hpushed
    rw [hdec] at hpush
    refine wp_seq (wrapPrivateCursor_wp hs₁.stop_le) ?_
    rintro tr w₂ r ⟨hquiet, rfl⟩
    rw [wp_pure, List.append_nil]
    refine ⟨hquiet.cons .now trivial h₁ _, _, hp₂.grow hquiet.rely,
      .slice (by simp) (hsated.2 (hp.stopsOn_iff.1 hstops)) (fun _ => hcursor _) ?_ ?_ ?_⟩
    · exact (hstop _).congr hp.matcher
    · exact fun hm hr => hclean.take (p := s.piece) (hpush _ hm hr)
    · intro hd₀ hfresh
      rcases hinside (by rw [hdec, hd₀]; rfl) _ with hpay | ⟨m, hm, payload, hpay, hin⟩
      · rw [hpay, Option.getD_some, (hp₂.counted_raw hd₀).returned]
      · rw [hpay, Option.getD_some, items_snoc]
        exact hin.trans (List.suffix_append_self_iff.2 (hp.window hd₀ hfresh m hm)).isInfix

/-- What the pause check can say. -/
def Paused (drv : ReadDriver) (w : World) (tr : List RxEvent) (w' : World) (d : DisconnectState) :
    Prop :=
  Quiet w tr w' ∧ ∀ ctrl, d = .reconnecting ctrl → ∃ now, ctrl = drv.ctrl.resetSilenceTimer now

theorem Paused.wp_after {w₁ : World} {tr : List RxEvent} {p : RxProg DisconnectState}
    (hq : Quiet w tr w₁) (h : wp act Rely p (Paused drv w₁) w₁) :
    wp act Rely p (fun tr' => Paused drv w (tr ++ tr')) w₁ :=
  wp_mono (fun _ _ _ hd => ⟨hq.trans hd.1, hd.2⟩) h

theorem reconnect_wp (drv : ReadDriver) :
    wp act Rely (do
      if ← isReconnectEnabled then do
        let now ← clock
        pure (DisconnectState.reconnecting (drv.ctrl.resetSilenceTimer now))
      else pure .closed) (Paused drv w) w := by
  intro w₁ h₁
  have hq := (Quiet.refl w₁).cons .reconnectEnabled trivial h₁ w₁.reconnectEnabled
  refine Paused.wp_after hq ?_
  refine wp_ite (fun _ => ?_) fun _ => ⟨Quiet.refl _, nofun⟩
  intro w₂ h₂
  refine ⟨(Quiet.refl w₂).cons .now trivial h₂ w₂.now, ?_⟩
  intro ctrl hctrl
  cases hctrl
  exact ⟨_, rfl⟩

theorem pauseCheck_wp (drv : ReadDriver) :
    wp act Rely (pauseCheck drv) (Paused drv w) w := by
  refine wp_ite (fun _ => ?_) fun _ => ⟨Quiet.refl w, nofun⟩
  intro w₁ h₁
  have hq := (Quiet.refl w₁).cons .connState trivial h₁ w₁.connection
  refine Paused.wp_after hq ?_
  dsimp only [act]
  rcases w₁.connection with _ | _ | _ | _
  · exact ⟨Quiet.refl _, nofun⟩
  · exact reconnect_wp drv
  · exact reconnect_wp drv
  · exact ⟨Quiet.refl _, nofun⟩

/-- What a turn did, with its trace. -/
structure TurnDone (req : ReadRequest) (c : ℕ) (d₀ : Option FrameDecoder) (s₀ : RingSlice)
    (w : World) (ps : List (Piece UInt8)) (tr : List RxEvent) (w' : World) (step : WaitStep) : Prop where
  rely : Rely w w'
  starts : startsOf tr = []
  turned : Turned req c d₀ s₀ w'.feed (ps ++ taken tr) step

theorem TurnDone.of_quiet {w' : World} {tr : List RxEvent} {step : WaitStep} (h : Quiet w tr w')
    (ht : Turned req c d₀ s₀ w'.feed ps step) : TurnDone req c d₀ s₀ w ps tr w' step :=
  ⟨h.rely, h.starts, by rwa [h.taken, List.append_nil]⟩

/-- A quiet stretch in front of a turn belongs to it. -/
theorem TurnDone.after {w₁ w' : World} {tr tr' : List RxEvent} {step : WaitStep}
    (hq : Quiet w tr w₁) (h : TurnDone req c d₀ s₀ w₁ ps tr' w' step) :
    TurnDone req c d₀ s₀ w ps (tr ++ tr') w' step where
  rely := hq.rely.trans h.rely
  starts := by rw [startsOf_append, hq.starts, h.starts]; rfl
  turned := by rw [taken_append, hq.taken]; exact h.turned

theorem wp_after {w₁ : World} {tr : List RxEvent} {p : RxProg WaitStep} (hq : Quiet w tr w₁)
    (h : wp act Rely p (TurnDone req c d₀ s₀ w₁ ps) w₁) :
    wp act Rely p (fun tr' => TurnDone req c d₀ s₀ w ps (tr ++ tr')) w₁ :=
  wp_mono (fun _ _ _ hd => hd.after hq) h

/-- A quiet operation in front of a turn belongs to it. -/
theorem wp_silent (op : RxOp) (hop : op.Silent) {k : op.Resp → RxProg WaitStep}
    (h : ∀ w₁, Rely w w₁ → wp act Rely (k (act op w₁).1)
      (TurnDone req c d₀ s₀ (act op w₁).2 ps) (act op w₁).2) :
    wp act Rely (Prog.perform op >>= k) (TurnDone req c d₀ s₀ w ps) w := fun w₁ h₁ =>
  wp_after ((Quiet.refl _).cons op hop h₁ _) (h w₁ h₁)

theorem idleStop_turn {outcome : RxStopOutcome} {cursor : RxProg ℕ}
    (h : Waiting req c d₀ s₀ w.feed ps drv clocked)
    (hreason : outcome.metadata.stopReason.countsFromOriginal d₀.isSome = true)
    (hmatched : outcome.matched = drv.ctrl.matched)
    (hcursor : cursor = advancePrivateCursor drv.originalCursor drv.acc.consumedOffset ∨
      cursor = wrapPrivateCursor drv.originalCursor drv.acc.consumedOffset) :
    wp act Rely (idleStop drv outcome cursor) (TurnDone req c d₀ s₀ w ps) w := by
  refine wp_mono (fun _ _ _ h => .of_quiet h.1 h.2)
    (idleStop_wp h hreason (hmatched.trans h.unmatched.matched) ?_)
  obtain ⟨q, hp, -⟩ := h.progress
  rcases hcursor with rfl | rfl
  · exact hp.advance_wp
  · exact hp.wrap_wp

/-- The slice of a turn that was woken by data; it can be empty. -/
theorem liveRead_wp (h : Waiting req c d₀ s₀ w.feed ps drv clocked) :
    wp act Rely (do
      let slice ← ringRead clocked (drv.maxBytes - drv.acc.returnedBytes.length)
      if slice.bytes.isEmpty then pure (.again drv clocked) else processLiveChunk drv slice)
      (TurnDone req c d₀ s₀ w ps) w := by
  simp only [Prog.perform_bind, wp_call]
  intro w₁ h₁
  have hw := h.grow h₁
  have hs := readFrom_sliced hw.clocked_le (drv.maxBytes - drv.acc.returnedBytes.length)
  refine wp_ite (fun hempty => ⟨h₁, rfl, ?_⟩) fun hne => ?_
  · rw [taken_readFrom, RingSlice.pieces, if_pos hempty, taken_nil, List.append_nil,
      List.append_nil]
    exact hw
  · refine wp_mono ?_ (processLiveChunk_wp hw hs (by simpa using hne))
    rintro tr w₂ step ⟨hq, ht⟩
    refine ⟨h₁.trans hq.rely, hq.starts, ?_⟩
    rw [taken_readFrom, RingSlice.pieces, if_neg hne, hq.taken]
    simpa using ht

/-- **Step**: one turn of the wait loop keeps the invariant or stops. -/
theorem waitOnce_wp (h : Waiting req c d₀ s₀ w.feed ps drv clocked) :
    wp act Rely (waitOnce drv clocked) (TurnDone req c d₀ s₀ w ps) w := by
  refine wp_seq (pauseCheck_wp drv) ?_
  rintro tr w₁ d ⟨hq, hctrl⟩
  have h₁ := h.grow hq.rely
  refine wp_after hq ?_
  rcases d with _ | ctrl | _
  · dsimp only
    refine wp_silent .now trivial fun w₂ hw₂ => ?_
    have h₂ := h₁.grow hw₂
    split
    · next o ho =>
      obtain ⟨hr, hm⟩ := RxStopController.checkTimeout_some ho
      exact idleStop_turn h₂ (by rw [hr]; rfl) hm (.inl rfl)
    · refine wp_silent .now trivial fun w₃ hw₃ => ?_
      have h₃ := h₂.grow hw₃
      split
      · next o ho =>
        obtain ⟨hr, hm⟩ := RxStopController.checkSilenceTimeout_some ho
        exact idleStop_turn h₃ (by rw [hr]; rfl) hm (.inl rfl)
      · refine wp_silent .now trivial fun w₄ hw₄ => ?_
        refine wp_silent (.select _ _) trivial fun w₅ hw₅ => ?_
        have h₅ := (h₃.grow hw₄).grow hw₅
        split
        · exact idleStop_turn h₅ rfl rfl (.inr rfl)
        · exact .of_quiet (Quiet.refl _) h₅
        · exact liveRead_wp h₅
  · obtain ⟨now, rfl⟩ := hctrl ctrl rfl
    refine wp_silent (.sleep 50) trivial fun w₂ hw₂ => ?_
    obtain ⟨⟨q, hp, hr⟩, hle, hun, hclean, hunsated⟩ := h₁.grow hw₂
    exact .of_quiet (Quiet.refl _)
      ⟨⟨q, { hp with }, hr⟩, hle, ⟨hun.1, hun.2, hun.3⟩, hclean, hunsated⟩
  · exact idleStop_turn h₁ rfl rfl (.inr rfl)

end

end SerialMcp
