/-
  A report of every way a private read ends.

  * `Completed`: what every completion does with the driver it is given.
  * `Report`: how the outcome and the final cursor follow from the pieces taken
    and the start offset seen at completion.
  * `runWait_wp`, `processInitial_wp`: the wait loop and the initial slice.
  * `readFromPrivateCursor_wp`: every completed read is reported.
-/
import SerialMcp.Read.Invariant

namespace SerialMcp

open Interact RxOp Cuts

/-! ## Completion -/

/-- What an outcome that returned `n` bytes and counted `used` says about the
    stream, measured by the start offset `start`. -/
structure Measured (c start n used : ℕ) (out : ReadOutcome) : Prop where
  lost : out.bytesLost = start - c
  fromOffset : out.fromOffset = if n = 0 then none else some (max c start)
  nextOffset : out.nextOffset = if n = 0 then none else some (max c start + used)

/-- What every completion does: `start` is the start offset it saw. -/
structure Completed (drv : ReadDriver) (compl : ReadCompletion) (w : World) (start : ℕ)
    (w' : World) (out : ReadOutcome) : Prop where
  rely : Rely w w'
  start_ge : w.feed.ring.startOffset ≤ start
  start_le : start ≤ w'.feed.ring.startOffset
  end_ge : w.feed.ring.endOffset ≤ out.endOffset
  start_le_end : start ≤ out.endOffset
  bytes : out.bytes = compl.payloadOverride.getD drv.acc.returnedBytes
  metadata : out.metadata = compl.metadata
  matched : out.matched = compl.matched
  matchIndex : out.matchIndex = compl.matchIndex
  matchFrameIndex : out.matchFrameIndex = compl.matchFrameIndex
  frames : out.frames = drv.acc.frames
  measured : drv.originalCursor ≤ w.feed.ring.endOffset → ∀ n,
    (drv.acc.carriesOffsets = false ↔ n = 0) →
    Measured drv.originalCursor start n (min drv.acc.consumedOffset drv.maxBytes) out

theorem complete_wp (drv : ReadDriver) (compl : ReadCompletion) (w : World) :
    wp act Rely (drv.complete compl) (fun tr w' r => slicesOf tr = [] ∧
      r.2 = compl.finalCursor ∧ Completed drv compl w (startSeen tr) w' r.1) w := by
  intro w₁ h₁ w₂ h₂ w₃ h₃ w₄ h₄ w₅ h₅
  refine ⟨rfl, rfl, ?_⟩
  have g₁₂ := Feed.Grows.trans h₁ h₂
  have g₃₅ := Feed.Grows.trans h₃ (Feed.Grows.trans h₄ h₅)
  have hse := w₂.feed.ring.start_le_end
  have h₂₃ : w₂.feed.ring.endOffset ≤ w₃.feed.ring.endOffset := Feed.Grows.end_le h₃
  have h₁₂ := g₁₂.end_le
  refine ⟨g₁₂.trans g₃₅, g₁₂.start_le, g₃₅.start_le, (g₁₂.trans g₃₅).end_le,
    hse.trans g₃₅.end_le, rfl, rfl, rfl, rfl, rfl, rfl, fun hc n hn => ?_⟩
  have hclamp : ReadAccumulator.clampedFrom drv.originalCursor w₂.feed.ring.startOffset
      w₃.feed.ring.endOffset = max drv.originalCursor w₂.feed.ring.startOffset :=
    Nat.min_eq_left (by omega)
  have hcarry {x : ℕ} : (if drv.acc.carriesOffsets = true then some x else none) =
      if n = 0 then none else some x := by
    by_cases h0 : n = 0
    · rw [if_pos h0, hn.2 h0]; rfl
    · rw [if_neg h0, if_pos]
      by_contra hf
      exact h0 (hn.1 (by simpa using hf))
  refine ⟨rfl, ?_, ?_⟩
  · exact (congrArg (fun x => if drv.acc.carriesOffsets = true then some x else none)
      hclamp).trans hcarry
  · exact (congrArg (fun x => if drv.acc.carriesOffsets = true then
      some (x + min drv.acc.consumedOffset drv.maxBytes) else none) hclamp).trans hcarry

/-! ## The report of a read -/

/-- The matcher of the request reports context. -/
def ReadRequest.hasContext (req : ReadRequest) : Bool := (req.matcher.bind (·.contextAmount)).isSome

section
variable (req : ReadRequest) (c : ℕ) (d₀ : Option FrameDecoder) (s₀ : RingSlice)

/-- How a read from the cursor `c` ended: on a slice, idle, or on a match in
    the initial slice `s₀`, without or with context. -/
inductive Ended (start : ℕ) (ps : List (Piece UInt8)) (q : ℕ) (out : ReadOutcome) (final : ℕ) :
    Prop where
  | slice (hhist : historyEnd req s₀ = none) (hne : ps ≠ []) (hsated : Sated req d₀ s₀ ps)
      (hreason : out.metadata.stopReason.countsFromOriginal d₀.isSome = false)
      (hfinal : ¬CountsTwice req s₀ → final = q)
      (hmeasured : ¬CountsTwice req s₀ →
        Measured c start (items ps).length (items ps).length out)
      (hbytes : ¬CountsTwice req s₀ →
        ¬(out.matched = true ∧ Shapes req.matcher d₀.isSome) → out.bytes = items ps)
      (hinside : d₀ = none → req.Fresh → out.bytes <:+: items ps)
      (hframes : out.frames = (d₀.map fun d => (decoded d ps).1.frames).getD [])
      (hclean : out.matched = false → out.metadata.stopReason ≠ .framingError → Clean d₀ ps)
      (hmatch : out.matched = true → d₀.isSome = true → ∃ frame ∈ out.frames, ∃ idx,
        (matchFrame req.matcher frame).1 = some idx ∧ out.matchIndex = some idx ∧
        out.matchFrameIndex = some frame.index ∧ out.bytes = frame.data)
  | idle (hhist : historyEnd req s₀ = none) (hunsated : ¬Sated req d₀ s₀ ps)
      (hreason : out.metadata.stopReason.countsFromOriginal d₀.isSome = true)
      (hmatched : out.matched = false)
      (hfinal : ¬CountsTwice req s₀ → final = c + (items ps).length)
      (hmeasured : ¬CountsTwice req s₀ →
        Measured c start (items ps).length (items ps).length out)
      (hbytes : ¬CountsTwice req s₀ → out.bytes = items ps)
      (hframes : out.frames = (d₀.map fun d => (decoded d ps).1.frames).getD [])
      (hclean : Clean d₀ ps)
  | history {n : ℕ} (hhist : historyEnd req s₀ = some n) (hctx : req.hasContext = false)
      (hps : ps = [s₀.piece]) (hn : n ≤ s₀.bytes.length) (hfinal : final = s₀.fromOffset + n)
      (hmeasured : Measured c start n 0 out) (hbytes : out.bytes = s₀.bytes.take n)
      (hreason : out.metadata.stopReason = .matchFound) (hmatched : out.matched = true)
      (hframes : out.frames = [])
  | context {n : ℕ} (hhist : historyEnd req s₀ = some n) (hctx : req.hasContext = true)
      (hps : ps = [s₀.piece]) (hn : n ≤ s₀.bytes.length) (hfinal : final = s₀.fromOffset + n)
      (hfrom : out.fromOffset = some s₀.fromOffset)
      (hnext : out.nextOffset = some (s₀.fromOffset + n))
      (hlost : out.bytesLost = s₀.fromOffset - c) (hbytes : out.bytes <:+ s₀.bytes.take n)
      (hreason : out.metadata.stopReason = .matchFound) (hmatched : out.matched = true)
      (hframes : out.frames = [])

/-- What a read from the cursor `c` with the decoder `d₀` and the initial slice
    `s₀` reports, from the pieces it took and the start offset it saw. -/
structure Report (f : Feed) (start : ℕ) (ps : List (Piece UInt8)) (out : ReadOutcome)
    (final : ℕ) : Prop where
  start_le : start ≤ f.ring.startOffset
  start_le_end : start ≤ out.endOffset
  ended : ∃ q, Chain f.stream start c ps q ∧ q ≤ out.endOffset ∧
    Ended req c d₀ s₀ start ps q out final

end

section
variable {req : ReadRequest} {c : ℕ} {d₀ : Option FrameDecoder} {s₀ : RingSlice} {w : World}
  {ps : List (Piece UInt8)} {drv : ReadDriver} {compl : ReadCompletion} {clocked : ℕ}

/-- Bytes that are counted once decide whether the outcome carries offsets. -/
theorem Counted.carriesOffsets {maxBytes : ℕ} {acc : ReadAccumulator}
    (h : Counted maxBytes ps acc) :
    acc.carriesOffsets = false ↔ (items ps).length = 0 := by
  simp [ReadAccumulator.carriesOffsets, h.returned, h.consumed]

theorem Stopped.complete_wp
    (h : Stopped req c d₀ s₀ w.feed ps drv compl)
    (hhist : historyEnd req s₀ = none) (hc : c ≤ w.feed.ring.endOffset) :
    wp act Rely (drv.complete compl) (fun tr w' r => slicesOf tr = [] ∧
      Report req c d₀ s₀ w'.feed (startSeen tr) ps r.1 r.2) w := by
  obtain ⟨q, hp, he⟩ := h
  refine wp_mono ?_ (SerialMcp.complete_wp drv compl w)
  rintro tr w' ⟨out, final⟩ ⟨hsl, hfin, hd⟩
  refine ⟨hsl, hd.start_le, hd.start_le_end, q,
    hp.chain.mono (Feed.Grows.stream hd.rely) hd.start_ge, hp.stop_le.trans hd.end_ge, ?_⟩
  have hsome : drv.decoder.isSome = d₀.isSome := by rw [hp.decoder, Option.isSome_map]
  have hmeas (ho : ¬CountsTwice req s₀) :
      Measured c (startSeen tr) (items ps).length (items ps).length out := by
    have hm := hd.measured (hp.original ▸ hc) _ (hp.counted ho).carriesOffsets
    have hroom := (hp.counted ho).room
    rwa [hp.original, (hp.counted ho).consumed, hp.maxBytes, Nat.min_eq_left hroom] at hm
  have hframes := hd.frames.trans hp.frames
  cases he with
  | slice hne hsated hfinal hh hclean hinside =>
    refine .slice hhist hne hsated ?_ (fun ho => hfin.trans (hfinal ho)) hmeas ?_ ?_ hframes ?_ ?_
    · rw [hd.metadata, ← hsome]; exact hh.reason
    · intro ho hns
      rw [hd.bytes, hh.payload, (hp.counted ho).returned]
      rwa [hsome, ← hd.matched]
    · intro hd₀ hfresh
      rw [hd.bytes]
      exact hinside hd₀ hfresh
    · rw [hd.matched, hd.metadata]; exact hclean
    · rw [hd.matched, ← hsome]
      intro hm hs
      obtain ⟨frame, hf, idx, hv, hi, hfi, hpay⟩ := hh.matchedFrame hm hs
      refine ⟨frame, hd.frames ▸ hf, idx, hv, hd.matchIndex.trans hi,
        hd.matchFrameIndex.trans hfi, ?_⟩
      rw [hd.bytes, hpay]; rfl
  | idle hunsated hfinal hreason hmatched hpayload hclean =>
    refine .idle hhist hunsated ?_ (hd.matched.trans hmatched) (fun ho => hfin.trans (hfinal ho)) hmeas
      ?_ hframes hclean
    · rw [hd.metadata]; exact hreason
    · intro ho
      rw [hd.bytes, hpayload, ← (hp.counted ho).returned]; rfl

/-- **Run**: the wait loop reports what it took. -/
theorem runWait_wp (hhist : historyEnd req s₀ = none) (turns : ℕ)
    (h : Waiting req c d₀ s₀ w.feed ps drv clocked)
    (hc : c ≤ w.feed.ring.endOffset) :
    wp act Rely (runWait turns drv clocked) (fun tr w' r => ∀ out final, r = .ok (out, final) →
      Report req c d₀ s₀ w'.feed (startSeen tr) (ps ++ taken tr) out final) w := by
  induction turns generalizing w ps drv clocked with
  | zero =>
    intro out final hok
    cases hok
  | succ turns ih =>
    refine wp_seq (waitOnce_wp h) ?_
    rintro tr w₁ step hturn
    have hc₁ := hc.trans (Feed.Grows.end_le hturn.rely)
    simp only [startSeen_append hturn.starts, taken_append, ← List.append_assoc]
    cases step with
    | again drv' clocked' => exact ih hturn.turned hc₁
    | stop drv' compl =>
      refine wp_seq (Stopped.complete_wp hturn.turned hhist hc₁) ?_
      rintro tr' w₂ r ⟨hsl, hrep⟩ out final ⟨⟩
      rw [List.append_nil]
      simpa [taken, hsl] using hrep

/-! ## The initial slice -/

/-- What processing the initial slice decided. -/
def InitialDone (req : ReadRequest) (c : ℕ) (d₀ : Option FrameDecoder) (s₀ : RingSlice) (w : World)
    (tr : List RxEvent) (w' : World) : InitialDecision → Prop
  | .continue drv => Quiet w tr w' ∧ historyEnd req s₀ = none ∧
      Waiting req c d₀ s₀ w'.feed s₀.pieces drv s₀.nextOffset
  | .completion drv compl => Quiet w tr w' ∧
      wp act Rely (drv.complete compl) (fun tr' w'' r => slicesOf tr' = [] ∧
        Report req c d₀ s₀ w''.feed (startSeen tr') s₀.pieces r.1 r.2) w'
  | .historicalContextMatch out final => Rely w w' ∧ slicesOf tr = [] ∧
      Report req c d₀ s₀ w'.feed (startSeen tr) s₀.pieces out final

/-- A read before its initial slice is processed. -/
structure Starting (req : ReadRequest) (c : ℕ) (d₀ : Option FrameDecoder) (drv : ReadDriver) :
    Prop where
  framing : d₀.isSome = req.framing.isSome
  original : drv.originalCursor = c
  maxBytes : drv.maxBytes = req.maxBytes
  maxFrames : drv.maxFrames = req.framing.bind (·.maxFrames)
  matcher : drv.matcher.map Matcher.resetWindow = req.matcher.map Matcher.resetWindow
  decoder : drv.decoder = d₀
  frames : drv.acc.frames = []
  framesSeen : drv.acc.framesSeen = 0
  unmatched : drv.ctrl.Unmatched req.maxBytes

/-- The initial slice as the only piece. -/
theorem Starting.progress (h : Starting req c d₀ drv) (hs : Sliced w.feed c req.maxBytes s₀)
    (hne : s₀.bytes ≠ []) {drv' : ReadDriver} (hd : Decided drv s₀.bytes drv')
    (hcount : ¬CountsTwice req s₀ → drv.acc.returnedBytes = s₀.bytes ∧
      drv.acc.consumedOffset = s₀.bytes.length)
    (hmatched : d₀ = none →
      drv'.matcher = req.matcher.map fun m => (m.pushBounded s₀.bytes req.maxBytes).2) :
    Progress req c d₀ s₀ w.feed [s₀.piece] s₀.piece.stop drv' where
  framing := h.framing
  initial := by rw [RingSlice.pieces_of_ne hne]
  chain := .single hs.resumes (hs.piece hne)
  stop_le := hs.stop_le
  original := hd.original.trans h.original
  maxBytes := hd.maxBytes.trans h.maxBytes
  maxFrames := hd.maxFrames.trans h.maxFrames
  counted ho := by
    obtain ⟨hr, hn⟩ := hcount ho
    refine ⟨?_, ?_, ?_⟩
    · rw [hd.returned, items_piece]; exact hr
    · rw [hd.consumed, items_piece]; exact hn
    · rw [items_piece]; exact hs.length_le
  matcher := hd.matcher.trans h.matcher
  decoder := by
    rw [hd.decoder, h.decoder]
    exact congrArg (d₀.map ·) (funext fun d => ((decoded_snoc d [] s₀.piece).2.2).symm)
  frames := by
    rw [hd.frames, h.decoder, h.frames]
    exact congrArg (fun o => (d₀.map o).getD [])
      (funext fun d => ((decoded_snoc d [] s₀.piece).1).symm)
  rawMatcher := hmatched
  framesSeen := hd.framesSeen (by rw [h.framesSeen, h.frames]; rfl)

/-- Without a decoder, what a chunk leaves is the driver itself. -/
theorem Decided.refl (hdec : drv.decoder = none) (chunk : Bytes) : Decided drv chunk drv :=
  ⟨rfl, rfl, rfl, rfl, rfl, rfl, by rw [hdec]; rfl, by rw [hdec]; simp, fun h => h⟩

/-- A framed read stops on its initial bytes if they meet the request. -/
theorem Starting.sated_iff {dec : FrameDecoder} (h : Starting req c (some dec) drv) :
    Sated req (some dec) s₀ [s₀.piece] ↔ (drv.absorbInitial s₀.bytes).StopsOn s₀.bytes := by
  have hstops : (drv.absorbInitial s₀.bytes).StopsOn s₀.bytes ↔
      StopsOn req (some dec) [] s₀.piece := by
    have hdec : (drv.absorbInitial s₀.bytes).decoder = some dec := h.decoder
    rw [ReadDriver.StopsOn, hdec, StopsOn]
    simp only [ReadDriver.absorbInitial, h.maxFrames, h.framesSeen]
    exact FrameStop.congr h.matcher
  rw [hstops]
  constructor
  · rintro (⟨-, -, hnone⟩ | ⟨ps', p, heq, -, hst⟩)
    · cases hnone
    · rw [← List.nil_append [s₀.piece]] at heq
      obtain ⟨rfl, hp⟩ := List.append_inj' heq rfl
      obtain rfl := List.singleton_inj.1 hp
      exact hst
  · exact fun hst => .inr ⟨[], s₀.piece, rfl, fun h => absurd h (Option.some_ne_none _), hst⟩

/-- A raw read with a matcher goes on behind its initial bytes. -/
theorem not_sated_initial (hmatcher : req.matcher.isSome = true) (hne : s₀.bytes ≠ []) :
    ¬Sated req none s₀ [s₀.piece] := by
  rintro (⟨-, hnone, -⟩ | ⟨ps', p, -, hlive, -⟩)
  · simp [hnone] at hmatcher
  · exact hlive rfl (RingSlice.pieces_of_ne hne).symm

/-- A stop on the initial slice completes the read. -/
theorem Stopped.initial (h : Stopped req c d₀ s₀ w.feed [s₀.piece] drv compl)
    (hhist : historyEnd req s₀ = none) (hne : s₀.bytes ≠ []) (hc : c ≤ w.feed.ring.endOffset) :
    wp act Rely (drv.complete compl) (fun tr w' r => slicesOf tr = [] ∧
      Report req c d₀ s₀ w'.feed (startSeen tr) s₀.pieces r.1 r.2) w := by
  rw [RingSlice.pieces_of_ne hne]
  exact h.complete_wp hhist hc

/-- The initial bytes of a framed read. -/
theorem framedInitial_wp (h : Starting req c d₀ drv) (hs : Sliced w.feed c req.maxBytes s₀)
    (hne : s₀.bytes ≠ []) {dec : FrameDecoder} (hdec : d₀ = some dec)
    (hhist : historyEnd req s₀ = none) (hc : c ≤ w.feed.ring.endOffset)
    (hcount : ¬CountsTwice req s₀ → drv.acc.returnedBytes = [] ∧ drv.acc.consumedOffset = 0) :
    wp act Rely (framedInitial drv s₀) (InitialDone req c d₀ s₀ w) w := by
  subst hdec
  have hempty : s₀.bytes.isEmpty = false := by simpa using hne
  have hchunk : s₀.bytes.take drv.maxBytes = s₀.bytes :=
    List.take_of_length_le (h.maxBytes ▸ hs.length_le)
  simp only [framedInitial, h.decoder, hempty, hchunk]
  have hch : Chunked (drv.absorbInitial s₀.bytes) s₀.bytes
      (framedDecision (drv.absorbInitial s₀.bytes) dec s₀.bytes) :=
    framedDecision_chunked h.decoder
  have hcount' (ho : ¬CountsTwice req s₀) :
      drv.acc.returnedBytes ++ s₀.bytes = s₀.bytes ∧
        drv.acc.consumedOffset + s₀.bytes.length = s₀.bytes.length := by
    simp [(hcount ho).1, (hcount ho).2]
  have hnil : Clean (some dec) [] := fun _ _ => rfl
  have h₁ : Starting req c (some dec) (drv.absorbInitial s₀.bytes) :=
    ⟨h.1, h.2, h.3, h.4, h.5, h.6, h.7, h.8, h.9⟩
  have hsated : Sated req (some dec) s₀ [s₀.piece] ↔ _ := h.sated_iff
  generalize framedDecision (drv.absorbInitial s₀.bytes) dec s₀.bytes = decision at hch ⊢
  cases hch with
  | goesOn hd hpushed hctrl hopen =>
    have hp := h₁.progress hs hne hd hcount' nofun
    rw [← hsated] at hopen
    refine ⟨Quiet.refl w, hhist, ?_⟩
    rw [RingSlice.pieces_of_ne hne]
    refine ⟨⟨_, hp, .inl hs.next⟩, ?_, hctrl _ h.unmatched, ?_, hopen⟩
    · rw [hs.next]; exact hs.stop_le
    · have hopen₁ : ¬StopsOn req (some dec) [] s₀.piece :=
        fun hst => hopen (.inr ⟨[], _, rfl, nofun, hst⟩)
      exact hnil.goesOn hopen₁
  | @halts drv' completion hd hpushed hstops hcursor hstop hpush _ =>
    have hp := h₁.progress hs hne hd hcount' nofun
    have hcur : wp act Rely (wrapPrivateCursor s₀.fromOffset drv'.acc.consumedOffset)
        (fun tr w' r => Quiet w tr w' ∧ (¬CountsTwice req s₀ → r = s₀.piece.stop)) w := by
      refine cursor_wp (wrapPrivateCursor_quiet _ _) fun ho => ?_
      rw [hd.consumed, show (drv.absorbInitial s₀.bytes).acc.consumedOffset = _ from (hcount' ho).2]
      exact wrapPrivateCursor_wp hs.stop_le
    refine wp_seq hcur ?_
    rintro tr w₁ r ⟨hquiet, hr⟩
    rw [wp_pure, List.append_nil]
    refine ⟨hquiet, Stopped.initial ⟨_, hp.grow hquiet.rely, ?_⟩ hhist hne
      (hc.trans (Feed.Grows.end_le hquiet.rely))⟩
    refine .slice (by simp) (hsated.2 hstops) (fun ho => (hcursor r).trans (hr ho))
      ((hstop r).congr h.matcher) ?_ nofun
    intro hm hr
    refine hnil.take (p := s₀.piece) fun d hd => hpush _ hm hr d ?_
    rw [show (drv.absorbInitial s₀.bytes).decoder = some dec from h.decoder]
    obtain ⟨d', hd', rfl⟩ := Option.mem_map.1 hd
    exact hd'

theorem Starting.holding (h : Starting req c d₀ drv) (returned : Bytes) (consumed : ℕ) :
    Starting req c d₀ (drv.holding returned consumed) :=
  ⟨h.1, h.2, h.3, h.4, h.5, h.6, h.7, h.8, h.9⟩

/-- The raw cat path. -/
theorem catPath_wp (h : Starting req c d₀ drv) (hs : Sliced w.feed c req.maxBytes s₀)
    (hne : s₀.bytes ≠ []) (hdec : d₀ = none) (hmatcher : drv.matcher = none)
    (hreq : req.matcher = none) (hhist : historyEnd req s₀ = none) (hc : c ≤ w.feed.ring.endOffset) :
    wp act Rely (catPath drv s₀) (InitialDone req c d₀ s₀ w) w := by
  have hchunk : s₀.bytes.take drv.maxBytes = s₀.bytes :=
    List.take_of_length_le (h.maxBytes ▸ hs.length_le)
  have hnone : (drv.holding s₀.bytes s₀.bytes.length).decoder = none := h.decoder.trans hdec
  simp only [catPath, hchunk]
  refine wp_seq (advancePrivateCursor_wp hs.stop_le) ?_
  rintro tr w₁ r ⟨hquiet, rfl⟩
  rw [wp_pure, List.append_nil]
  have hp : Progress req c d₀ s₀ w.feed [s₀.piece] s₀.piece.stop
      (drv.holding s₀.bytes s₀.bytes.length) :=
    (h.holding _ _).progress hs hne (Decided.refl hnone _) (fun _ => ⟨rfl, rfl⟩) fun _ =>
      hmatcher.trans (by rw [hreq]; rfl)
  refine ⟨hquiet, Stopped.initial ⟨_, hp.grow hquiet.rely, ?_⟩ hhist hne
    (hc.trans (Feed.Grows.end_le hquiet.rely))⟩
  refine .slice (by simp) (.inl ⟨hne, hreq, hdec⟩) (fun _ => rfl)
    ⟨?_, fun _ => rfl, fun h => absurd h Bool.false_ne_true⟩ ?_ ?_
  · rw [hnone]; rfl
  · rintro - - d hd
    simp [hdec] at hd
  · rintro - -
    rw [items_piece]
    exact List.infix_refl s₀.bytes

/-- A match in the history of the initial slice. -/
theorem historyMatch_wp (h : Starting req c d₀ drv) (hs : Sliced w.feed c req.maxBytes s₀)
    (hne : s₀.bytes ≠ []) (hacc : drv.acc = .new) {m : Matcher} {idx : ℕ}
    (hctx : req.hasContext = m.contextAmount.isSome)
    (hhist : historyEnd req s₀ = some (idx + m.needleLen.getD 0))
    (hc : c ≤ w.feed.ring.endOffset) :
    wp act Rely (historyMatch drv s₀ s₀.bytes m idx) (fun tr w' r => ∀ d, r = .ok d →
      InitialDone req c d₀ s₀ w tr w' d) w := by
  simp only [historyMatch]
  refine wp_ite (fun _ d hd => by cases hd) fun hle => ?_
  have hlen : idx + m.needleLen.getD 0 ≤ s₀.bytes.length := by omega
  have hin : s₀.fromOffset + (idx + m.needleLen.getD 0) ≤ w.feed.ring.endOffset :=
    (Nat.add_le_add_left hlen _).trans hs.stop_le
  have hchain : Chain w.feed.stream w.feed.ring.startOffset c s₀.pieces s₀.piece.stop := by
    rw [RingSlice.pieces_of_ne hne]
    exact .single hs.resumes (hs.piece hne)
  rcases hm : m.contextAmount with _ | context
  · dsimp only
    refine wp_seq (advancePrivateCursor_wp hin) ?_
    rintro tr w₁ r ⟨hquiet, rfl⟩
    rw [wp_pure, List.append_nil]
    rintro d ⟨⟩
    refine ⟨hquiet, wp_mono ?_ (complete_wp _ _ w₁)⟩
    rintro tr' w₂ ⟨out, final⟩ ⟨hsl, hfin, hd⟩
    have hrely := Rely.trans hquiet.rely hd.rely
    have hend := (Feed.Grows.end_le hquiet.rely).trans hd.end_ge
    refine ⟨hsl, hd.start_le, hd.start_le_end, _, hchain.mono (Feed.Grows.stream hrely)
      ((Feed.Grows.start_le hquiet.rely).trans hd.start_ge), hs.stop_le.trans hend, ?_⟩
    refine .history hhist (by rw [hctx, hm]; rfl) (RingSlice.pieces_of_ne hne) hlen hfin ?_
      hd.bytes (congrArg _ hd.metadata) hd.matched (hd.frames.trans h.frames)
    -- nothing was counted as consumed
    have hcarry : ∀ {n : ℕ}, n ≤ s₀.bytes.length → (ReadAccumulator.carriesOffsets
        { drv.acc with returnedBytes := s₀.bytes.take n } = false ↔ n = 0) := by
      intro n hn
      simp [ReadAccumulator.carriesOffsets, hacc, ReadAccumulator.new, hne]
    have hmeas := hd.measured (h.original ▸ hc.trans (Feed.Grows.end_le hquiet.rely)) _ (hcarry hlen)
    simp only [h.original, hacc, ReadAccumulator.new, Nat.zero_min] at hmeas
    exact hmeas
  · dsimp only
    rcases hsh : shapeMatchContext s₀.bytes idx (m.needleLen.getD 0) (some context) with _ | shaped
    · intro d hd; cases hd
    · refine wp_seq (advancePrivateCursor_wp hin) ?_
      rintro tr w₁ r ⟨hquiet, rfl⟩
      simp only [Prog.perform_bind, wp_call]
      intro w₂ h₂ w₃ h₃ w₄ h₄ w₅ h₅
      rw [wp_pure]
      rintro d ⟨⟩
      have g₄ : w.feed.Grows w₄.feed :=
        (Feed.Grows.trans hquiet.rely h₂).trans (Feed.Grows.trans h₃ h₄)
      have g₅ : w.feed.Grows w₅.feed := g₄.trans h₅
      have hse := w₄.feed.ring.start_le_end
      have hstart : startSeen (tr ++ [⟨.now, w₂.now⟩, ⟨.endOffset, w₃.feed.ring.endOffset⟩,
          ⟨.startOffset, w₄.feed.ring.startOffset⟩, ⟨.endOffset, w₅.feed.ring.endOffset⟩]) =
          w₄.feed.ring.startOffset := by
        rw [startSeen_append hquiet.starts]; rfl
      refine ⟨g₅, ?_, ?_, ?_, s₀.piece.stop, ?_, hs.stop_le.trans g₅.end_le, ?_⟩
      · rw [slicesOf_append, hquiet.slices]; rfl
      · exact hstart.trans_le (Feed.Grows.start_le h₅)
      · exact hstart.trans_le (hse.trans (Feed.Grows.end_le h₅))
      · refine hchain.mono g₅.stream ?_
        exact g₄.start_le.trans_eq hstart.symm
      · refine .context hhist (by rw [hctx, hm]; rfl) (RingSlice.pieces_of_ne hne) hlen rfl rfl rfl
          hs.lost ?_ rfl rfl rfl
        exact shapeMatchContext_suffix hsh

/-- The initial phase decided something, whatever it is. -/
theorem InitialDone.ok {p : RxProg InitialDecision}
    (h : wp act Rely p (InitialDone req c d₀ s₀ w) w) :
    wp act Rely (do let d ← p; pure (Except.ok d) : RxProg (Except Stuck InitialDecision))
      (fun tr w' r => ∀ d, r = .ok d → InitialDone req c d₀ s₀ w tr w' d) w := by
  refine wp_seq h ?_
  rintro tr w' d hd
  rw [wp_pure, List.append_nil]
  rintro _ ⟨⟩
  exact hd

/-- A quiet stretch in front of the initial phase belongs to it. -/
theorem InitialDone.after {w₁ w' : World} {tr tr' : List RxEvent} {d : InitialDecision}
    (hq : Quiet w tr w₁) (h : InitialDone req c d₀ s₀ w₁ tr' w' d) :
    InitialDone req c d₀ s₀ w (tr ++ tr') w' d := by
  cases d with
  | «continue» drv => exact ⟨hq.trans h.1, h.2⟩
  | completion drv compl => exact ⟨hq.trans h.1, h.2⟩
  | historicalContextMatch out final =>
    refine ⟨hq.rely.trans h.1, ?_, ?_⟩
    · rw [slicesOf_append, hq.slices, h.2.1]; rfl
    · rw [startSeen_append hq.starts]
      exact h.2.2

/-- Without a decoder the initial slice leaves the read waiting. -/
theorem framedInitial_raw_wp (hhist : historyEnd req s₀ = none)
    (hdec : s₀.bytes.isEmpty = true ∨ drv.decoder = none)
    (h : Waiting req c d₀ s₀ w.feed s₀.pieces drv s₀.nextOffset) :
    wp act Rely (framedInitial drv s₀) (InitialDone req c d₀ s₀ w) w := by
  have heq : framedInitial drv s₀ = pure (.continue drv) := by
    rcases hdec with hdec | hdec
    · rcases hd : drv.decoder with _ | dec <;> simp only [framedInitial, hd, hdec]
    · simp only [framedInitial, hdec]
  rw [heq, wp_pure]
  exact ⟨Quiet.refl w, hhist, h⟩

/-- Initial bytes in which the matcher found nothing: without a decoder they
    are counted once, with one they are about to be counted again. -/
theorem unmatchedInitial_wp (h : Starting req c d₀ drv) (hs : Sliced w.feed c req.maxBytes s₀) (hne : s₀.bytes ≠ [])
    (hhist : historyEnd req s₀ = none) (hmatcher : req.matcher.isSome = true)
    (hc : c ≤ w.feed.ring.endOffset) (hreturned : drv.acc.returnedBytes = s₀.bytes)
    (hconsumed : drv.acc.consumedOffset = s₀.bytes.length)
    (hpushed : drv.matcher = req.matcher.map fun m => (m.pushBounded s₀.bytes req.maxBytes).2) :
    wp act Rely (framedInitial drv s₀) (InitialDone req c d₀ s₀ w) w := by
  rcases d₀ with _ | dec
  · have hp : Progress req c none s₀ w.feed [s₀.piece] s₀.piece.stop drv :=
      h.progress hs hne (Decided.refl h.decoder _) (fun _ => ⟨hreturned, hconsumed⟩)
        fun _ => hpushed
    refine framedInitial_raw_wp hhist (.inr h.decoder) ?_
    rw [RingSlice.pieces_of_ne hne]
    refine ⟨⟨_, hp, .inl hs.next⟩, ?_, h.unmatched, fun d hd => by simp at hd,
      not_sated_initial hmatcher hne⟩
    rw [hs.next]; exact hs.stop_le
  · exact framedInitial_wp h hs hne rfl hhist hc
      fun ho => absurd ⟨hne, hmatcher, h.framing.symm, hhist⟩ ho

/-- What the driver of a request looks like before the initial slice. -/
theorem ReadRequest.starting {req : ReadRequest} (hframing : d₀.isSome = req.framing.isSome)
    (c t : ℕ) : Starting req c d₀ (req.driver c t d₀) :=
  ⟨hframing, rfl, rfl, rfl, rfl, rfl, rfl, rfl, ⟨rfl, rfl, rfl⟩⟩

/-- Which path the initial slice takes. -/
theorem processInitial_path (drv : ReadDriver) (s : RingSlice) :
    processInitial drv s =
      if s.bytes = [] then do
        let d ← framedInitial drv s
        pure (.ok d)
      else match drv.matcher with
        | none =>
          if drv.decoder.isNone then do
            let d ← catPath drv s
            pure (.ok d)
          else do
            let d ← framedInitial drv s
            pure (.ok d)
        | some m =>
          let hist := s.bytes.take drv.maxBytes
          let r := m.pushBounded hist drv.maxBytes
          match r.1 with
          | .found idx => historyMatch { drv with matcher := some r.2 } s hist m idx
          | .noMatch => (do
            let now ← clock
            let ctrl := ((drv.ctrl.resetSilenceTimer now).pushData hist.length hist.length
              (some .noMatch)).2
            let d ← framedInitial { drv.holding hist hist.length with
              matcher := some r.2, ctrl := ctrl } s
            pure (.ok d)) := by
  by_cases hne : s.bytes = []
  · simp [processInitial, hne]
  · have hempty : s.bytes.isEmpty = false := by simpa using hne
    rw [if_neg hne]
    rcases hm : drv.matcher with _ | m
    · rcases hd : drv.decoder with _ | dec <;> simp [processInitial, hempty, hm, hd]
    · simp only [processInitial, hempty, hm]
      rfl

/-! ## The operations of the initial phase -/

/-- Looks at the offsets of the ring, or at the clock. -/
def RxOp.Samples : RxOp → Prop
  | .startOffset | .endOffset | .now => True
  | _ => False

theorem advancePrivateCursor_samples (base n : ℕ) :
    (advancePrivateCursor base n).All Samples := ⟨trivial, fun _ => trivial⟩

theorem wrapPrivateCursor_samples (base n : ℕ) :
    (wrapPrivateCursor base n).All Samples := ⟨trivial, fun _ => trivial⟩

theorem complete_samples (drv : ReadDriver) (c : ReadCompletion) : (drv.complete c).All Samples :=
  ⟨trivial, fun _ => ⟨trivial, fun _ => ⟨trivial, fun _ => ⟨trivial, fun _ => ⟨trivial, fun _ =>
    trivial⟩⟩⟩⟩⟩

theorem framedInitial_samples (drv : ReadDriver) (s : RingSlice) :
    (framedInitial drv s).All Samples := by
  unfold framedInitial
  split
  · dsimp only
    split
    · exact trivial
    · exact (wrapPrivateCursor_samples _ _).bind fun _ => trivial
  · exact trivial

theorem historyMatch_samples (drv : ReadDriver) (s : RingSlice) (hist : Bytes) (m : Matcher) (idx : ℕ) :
    (historyMatch drv s hist m idx).All Samples := by
  unfold historyMatch
  refine .ite trivial ?_
  dsimp only
  split
  · split
    · exact trivial
    · refine (advancePrivateCursor_samples _ _).bind fun _ => ?_
      exact ⟨trivial, fun _ => ⟨trivial, fun _ => ⟨trivial, fun _ => ⟨trivial, fun _ => trivial⟩⟩⟩⟩
  · exact (advancePrivateCursor_samples _ _).bind fun _ => trivial

theorem processInitial_samples (drv : ReadDriver) (s : RingSlice) :
    (processInitial drv s).All Samples := by
  have hframed (drv : ReadDriver) : (do
      let d ← framedInitial drv s
      pure (Except.ok d) : RxProg (Except Stuck InitialDecision)).All Samples :=
    (framedInitial_samples drv s).bind fun _ => trivial
  rw [processInitial_path]
  refine .ite (hframed drv) ?_
  split
  · refine .ite ?_ (hframed drv)
    refine Prog.All.bind ?_ fun _ => trivial
    exact (advancePrivateCursor_samples _ _).bind fun _ => trivial
  · dsimp only
    split
    · exact historyMatch_samples _ _ _ _ _
    · exact ⟨trivial, fun _ => hframed _⟩

theorem slicesOf_samples {tr : List RxEvent} (h : ∀ e ∈ tr, e.1.Samples) : slicesOf tr = [] := by
  induction tr with
  | nil => rfl
  | cons e tr ih =>
    obtain ⟨op, r⟩ := e
    have hop := h _ (List.mem_cons_self ..)
    have hrest := ih fun e he => h e (List.mem_cons_of_mem _ he)
    cases op with
    | readFrom cursor max => cases hop
    | _ => exact hrest

theorem processInitial_slices {drv : ReadDriver} {s : RingSlice} {w w' : World} {tr : List RxEvent}
    {r : Except Stuck InitialDecision} (h : Runs act Rely w (processInitial drv s) tr w' r) :
    slicesOf tr = [] :=
  slicesOf_samples (h.all (processInitial_samples drv s))

/-! ## The initial phase -/

/-- **The initial phase.** -/
theorem processInitial_wp (hframing : d₀.isSome = req.framing.isSome)
    (hs : Sliced w.feed c req.maxBytes s₀) (hc : c ≤ w.feed.ring.endOffset) (t : ℕ) :
    wp act Rely (processInitial (req.driver c t d₀) s₀) (fun tr w' r => ∀ d, r = .ok d →
      InitialDone req c d₀ s₀ w tr w' d) w := by
  have hst := ReadRequest.starting hframing c t
  rw [processInitial_path]
  refine wp_ite (fun hne => ?_) fun hne => ?_
  · have hhist : historyEnd req s₀ = none := by simp [historyEnd, hne]
    refine InitialDone.ok (framedInitial_raw_wp hhist (.inl (by simp [hne])) ?_)
    have hpieces : s₀.pieces = [] := by simp [RingSlice.pieces, hne]
    rw [hpieces]
    refine ⟨⟨c, ⟨hframing, ?_, .nil, hc, rfl, rfl, rfl, fun _ => ⟨rfl, rfl, Nat.zero_le _⟩, rfl, ?_,
      ?_, ?_, rfl⟩, ?_⟩, ?_, hst.unmatched, fun _ _ => rfl, ?_⟩
    · rw [hpieces]
    · exact fun _ => by simp [ReadRequest.driver, Matcher.after]
    · simp [ReadRequest.driver, decoded, Incremental.Decoder.pushAll]
    · rcases d₀ with _ | d <;> rfl
    · have := hs.resumes
      rwa [hs.next, show s₀.piece.stop = s₀.fromOffset by simp [Piece.stop, RingSlice.piece, hne]]
    · rw [hs.next]; exact hs.stop_le
    · rintro (⟨h, -⟩ | ⟨ps', p, heq, -⟩)
      · exact h hne
      · simp at heq
  · have htake : s₀.bytes.take req.maxBytes = s₀.bytes := List.take_of_length_le hs.length_le
    rcases hm : req.matcher with _ | m
    · have hhist : historyEnd req s₀ = none := by simp [historyEnd, hm]
      rw [show (req.driver c t d₀).matcher = none from hm]
      dsimp only
      refine wp_ite (fun hnone => InitialDone.ok ?_) fun hsome => InitialDone.ok ?_
      -- nothing to match and nothing to frame: return what is there
      · exact catPath_wp hst hs hne (by simpa [ReadRequest.driver] using hnone) hm hm hhist hc
      · obtain ⟨dec, hdec⟩ := Option.ne_none_iff_exists'.1
          (by simpa [ReadRequest.driver] using hsome : d₀ ≠ none)
        exact framedInitial_wp hst hs hne hdec hhist hc fun _ => ⟨rfl, rfl⟩
    · have hhist := historyEnd_some hne hm
      have hreset := Matcher.resetWindow_pushBounded m s₀.bytes req.maxBytes
      have hst' : Starting req c d₀ { req.driver c t d₀ with
          matcher := some (m.pushBounded s₀.bytes req.maxBytes).2 } :=
        ⟨hframing, rfl, rfl, rfl, by rw [hm]; exact congrArg some hreset, rfl, rfl, rfl,
          ⟨rfl, rfl, rfl⟩⟩
      rw [show (req.driver c t d₀).matcher = some m from hm]
      simp only [show (req.driver c t d₀).maxBytes = req.maxBytes from rfl, htake]
      rcases hr : (m.pushBounded s₀.bytes req.maxBytes).1 with _ | idx
      · rw [hr] at hhist
        intro w₁ h₁
        have hs₁ := hs.grow h₁
        have hc₁ := hc.trans (Feed.Grows.end_le h₁)
        refine wp_mono (fun _ _ _ hd d hok => (hd d hok).after ((Quiet.refl _).cons .now trivial h₁ _))
          (InitialDone.ok (w := w₁) ?_)
        exact unmatchedInitial_wp ⟨hframing, rfl, rfl, rfl, hst'.matcher, rfl, rfl, rfl,
          (hst.unmatched.resetSilenceTimer _).pushData _ _⟩ hs₁ hne hhist (by rw [hm]; rfl) hc₁ rfl
          rfl (by rw [hm]; rfl)
      · rw [hr] at hhist
        exact historyMatch_wp hst' hs hne rfl (by simp [ReadRequest.hasContext, hm]) hhist hc

/-! ## The whole read -/

/-- The first slice a read takes. -/
def initialSlice (tr : List RxEvent) : RingSlice := (slicesOf tr).headD ⟨[], 0, 0, 0⟩

theorem entry_taken (t cursor n : ℕ) (s : RingSlice) (tr : List RxEvent) :
    taken (⟨.now, t⟩ :: ⟨.readFrom cursor n, s⟩ :: tr) = s.pieces ++ taken tr :=
  taken_readFrom cursor n s tr

theorem entry_startSeen (t cursor n : ℕ) (s : RingSlice) (tr : List RxEvent) :
    startSeen (⟨.now, t⟩ :: ⟨.readFrom cursor n, s⟩ :: tr) = startSeen tr := rfl

theorem buildDecoder_isSome {crates : Crates} (h : buildDecoder crates req = .ok d₀) :
    d₀.isSome = req.framing.isSome := by
  rcases hf : req.framing with _ | cfg <;> simp only [buildDecoder, hf] at h
  · cases h; rfl
  · rcases hd : FrameDecoder.new crates cfg req.parser with e | d <;>
      simp only [hd, Except.map, Except.ok.injEq, reduceCtorEq] at h
    rw [← h]; rfl

/-- A slice starts behind the cursor only if the cursor was beyond the end. -/
theorem le_fromOffset_iff (r : RxRing) (cursor n : ℕ) :
    cursor ≤ (r.readFrom cursor n).fromOffset ↔ cursor ≤ r.endOffset := by
  have := r.start_le_end
  simp only [RxRing.readFrom]
  split_ifs <;> dsimp only <;> omega

/-- **Every completed read is reported**, whatever happens between its
    operations, if its cursor is not beyond the end when it takes its first
    slice. -/
theorem readFromPrivateCursor_wp (crates : Crates) (turns : ℕ) (req : ReadRequest) (c : ℕ)
    (w : World) :
    wp act Rely (readFromPrivateCursor crates turns req c) (fun tr w' r => ∀ out final,
      r = .ok (out, final) → c ≤ (initialSlice tr).fromOffset →
      ∃ d₀, buildDecoder crates req = .ok d₀ ∧
        Report req c d₀ (initialSlice tr) w'.feed (startSeen tr) (taken tr) out final) w := by
  simp only [readFromPrivateCursor, Prog.perform_bind, wp_call]
  intro w₁ h₁ w₂ h₂
  rcases hd : buildDecoder crates req with e | d₀
  · intro out final hok; cases hok
  rcases Nat.lt_or_ge w₂.feed.ring.endOffset c with hlt | hc₂
  · refine wp_iff.2 fun tr w' r _ out final _ hc => ?_
    exact absurd ((le_fromOffset_iff w₂.feed.ring c req.maxBytes).1 hc) (Nat.not_le.2 hlt)
  · have hs := readFrom_sliced hc₂ req.maxBytes
    refine wp_seq (processInitial_wp (buildDecoder_isSome hd) hs hc₂ w₁.now) ?_
    rintro tr w₃ (e | d) hinit
    · intro out final hok; cases hok
    have hdone := hinit d rfl
    cases d with
    | «continue» drv =>
      obtain ⟨hq, hhist, hwait⟩ := hdone
      refine wp_mono ?_ (runWait_wp hhist turns hwait (hc₂.trans (Feed.Grows.end_le hq.rely)))
      intro tr' w' r hrep out final hok _
      refine ⟨d₀, rfl, ?_⟩
      rw [entry_startSeen, startSeen_append hq.starts, entry_taken, taken_append, hq.taken]
      exact hrep out final hok
    | completion drv compl =>
      obtain ⟨hq, hcompl⟩ := hdone
      refine wp_seq hcompl ?_
      rintro tr' w' r ⟨hsl, hrep⟩
      rw [wp_pure, List.append_nil]
      rintro out final ⟨⟩ -
      refine ⟨d₀, rfl, ?_⟩
      rw [entry_startSeen, startSeen_append hq.starts, entry_taken, taken_append, hq.taken,
        taken_of_slices hsl, List.append_nil, List.append_nil]
      exact hrep
    | historicalContextMatch out final =>
      obtain ⟨-, hsl, hrep⟩ := hdone
      rw [wp_pure, List.append_nil]
      rintro _ _ ⟨⟩ -
      refine ⟨d₀, rfl, ?_⟩
      rw [entry_startSeen, entry_taken, taken_of_slices hsl, List.append_nil]
      exact hrep

end

section
variable {crates : Crates} {turns : ℕ} {req : ReadRequest} {c : ℕ} {w w' : World}
  {tr : List RxEvent} {out : ReadOutcome} {final : ℕ}

theorem readFromPrivateCursor_report
    (h : Runs act Rely w (readFromPrivateCursor crates turns req c) tr w' (.ok (out, final)))
    (hc : c ≤ (initialSlice tr).fromOffset) :
    ∃ d₀, buildDecoder crates req = .ok d₀ ∧
      Report req c d₀ (initialSlice tr) w'.feed (startSeen tr) (taken tr) out final :=
  h.wp (readFromPrivateCursor_wp crates turns req c w) out final rfl hc

/-- A cursor within the stream at entry still is when the first slice is taken. -/
theorem le_initialSlice {r : Except Stuck (ReadOutcome × ℕ)}
    (h : Runs act Rely w (readFromPrivateCursor crates turns req c) tr w' r)
    (hc : c ≤ w.feed.ring.endOffset) : c ≤ (initialSlice tr).fromOffset := by
  refine h.wp (Q := fun tr _ _ => c ≤ (initialSlice tr).fromOffset) ?_
  intro w₁ h₁ w₂ h₂
  refine wp_iff.2 fun tr w' r _ => ?_
  exact (le_fromOffset_iff w₂.feed.ring c req.maxBytes).2
    (hc.trans (Feed.Grows.end_le (Feed.Grows.trans h₁ h₂)))

end

end SerialMcp
