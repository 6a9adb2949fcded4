/-
  The byte counters of a read against its result.

  * `Describes`: the counters of the metadata describe a payload and the bytes
    consumed for it;
  * `RawTally`, `FramedTally`: what the controller of a waiting read has counted.
    A raw read counts every byte, a framed one only the initial bytes that a
    matcher saw;
  * `Tallied`: what the metadata of a read that ends says, path by path, from
    `readFromPrivateCursor_tallied`;
  * `counters_describe_iff`: so the counters describe the result exactly under
    `CountersKept`.
-/
import SerialMcp.Read.Iterations
import SerialMcp.Read.Matches

namespace SerialMcp

open Interact RxOp Cuts

/-! ## The counters -/

/-- The counters describe `returned` bytes out of `consumed`. -/
structure RxStopMetadata.Describes (m : RxStopMetadata) (returned consumed : ℕ) : Prop where
  returned : m.bytesReturned = returned
  observed : m.bytesObserved = consumed
  truncated : m.truncated = true ↔ m.bytesReturned < m.bytesObserved

theorem RxStopMetadata.counted_describes (reason : RxStopReason) (consumed returned : ℕ) :
    (counted reason consumed returned).Describes returned consumed :=
  ⟨rfl, rfl, decide_eq_true_iff⟩

/-- The stream bytes that a read consumed: up to the end of the match in its
    history, else all that it took. -/
def consumedBytes (req : ReadRequest) (s₀ : RingSlice) (ps : List (Piece UInt8)) : ℕ :=
  (historyEnd req s₀).getD (items ps).length

/-! ## A match in the history -/

section
variable {drv : ReadDriver} {s : RingSlice} {hist : Bytes} {m : Matcher} {idx : ℕ} {w : World}

/-- A match in the history that ends at `e` is counted up to `e`. -/
inductive HistoryDescribed (e : ℕ) : InitialDecision → Prop
  | completion {drv : ReadDriver} {compl : ReadCompletion}
      (h : compl.metadata.Describes (drv.payload compl).length e) :
      HistoryDescribed e (.completion drv compl)
  | context {out : ReadOutcome} {final : ℕ} (h : out.metadata.Describes out.bytes.length e) :
      HistoryDescribed e (.historicalContextMatch out final)

theorem historyMatch_describes :
    wp act Rely (historyMatch drv s hist m idx) (fun _ _ r => ∀ decision, r = .ok decision →
      HistoryDescribed (idx + m.needleLen.getD 0) decision) w := by
  rw [historyMatch]
  refine wp_ite (fun _ decision hd => by cases hd) fun hle => ?_
  rcases m.contextAmount with _ | context
  · rintro w₁ h₁ decision ⟨⟩
    have hlen : (hist.take (idx + m.needleLen.getD 0)).length = idx + m.needleLen.getD 0 :=
      List.length_take_of_le (Nat.le_of_not_lt hle)
    exact .completion ⟨hlen.symm, rfl, decide_eq_true_iff⟩
  · dsimp only
    rcases shapeMatchContext hist idx (m.needleLen.getD 0) (some context) with _ | shaped
    · intro decision hd
      cases hd
    · rintro w₁ h₁ w₂ h₂ w₃ h₃ w₄ h₄ w₅ h₅ decision ⟨⟩
      exact .context (RxStopMetadata.counted_describes ..)

end

/-! ## Idle stops -/

namespace RxStopController

variable {ctrl : RxStopController} {now : ℕ} {o : RxStopOutcome}

theorem checkTimeout_counted (h : ctrl.checkTimeout now = some o) :
    o.metadata = .counted .timeout ctrl.bytesObserved ctrl.bytesReturned := by
  unfold checkTimeout at h
  split at h
  · split at h
    · cases h
      rfl
    · cases h
  · cases h

theorem checkSilenceTimeout_counted (h : ctrl.checkSilenceTimeout now = some o) :
    o.metadata = .counted .noNewRxTimeout ctrl.bytesObserved ctrl.bytesReturned := by
  unfold checkSilenceTimeout at h
  split at h
  · split at h
    · cases h
      rfl
    · cases h
  · cases h

end RxStopController

/-- A turn that takes nothing and stops reports the counters of the controller. -/
def IdleCounts (drv : ReadDriver) (tr : List RxEvent) (step : WaitStep) : Prop :=
  taken tr = [] → ∀ drv' compl, step = .stop drv' compl → ∃ reason,
    compl.metadata = .counted reason drv.ctrl.bytesObserved drv.ctrl.bytesReturned

section
variable {drv : ReadDriver} {clocked : ℕ} {w : World}

theorem IdleCounts.after {tr tr' : List RxEvent} {step : WaitStep} (hquiet : taken tr = [])
    (h : IdleCounts drv tr' step) : IdleCounts drv (tr ++ tr') step := by
  intro htaken
  rw [taken_append, hquiet, List.nil_append] at htaken
  exact h htaken

theorem wp_idle_silent (op : RxOp) (hop : op.Silent) {k : op.Resp → RxProg WaitStep}
    (h : ∀ w₁, wp act Rely (k (act op w₁).1) (fun tr _ => IdleCounts drv tr) (act op w₁).2) :
    wp act Rely (Prog.perform op >>= k) (fun tr _ => IdleCounts drv tr) w := by
  intro w₁ h₁
  have hquiet := ((Quiet.refl (act op w₁).2).cons op hop h₁ (act op w₁).1).taken
  exact wp_mono (fun _ _ _ hc => IdleCounts.after hquiet hc) (h w₁)

theorem idleStop_counts {o : RxStopOutcome} {cursor : RxProg ℕ} (reason : RxStopReason)
    (h : o.metadata = .counted reason drv.ctrl.bytesObserved drv.ctrl.bytesReturned) :
    wp act Rely (idleStop drv o cursor) (fun tr _ => IdleCounts drv tr) w := by
  refine wp_iff.2 fun tr w' step hrun => ?_
  obtain ⟨tr₁, tr₂, w₁, final, rfl, -, hret⟩ := runs_bind_iff.1 hrun
  cases hret
  rintro - drv' compl ⟨⟩
  exact ⟨reason, h⟩

theorem again_counts {drv' : ReadDriver} {clocked' : ℕ} {tr : List RxEvent} :
    IdleCounts drv tr (.again drv' clocked') := by
  intro htaken drv'' compl hstep
  cases hstep

/-- **A stop that no bytes cause** reports what the controller has counted. -/
theorem waitOnce_idle_counts :
    wp act Rely (waitOnce drv clocked) (fun tr _ => IdleCounts drv tr) w := by
  refine wp_seq (pauseCheck_wp drv) ?_
  rintro tr w₁ d ⟨hq, -⟩
  refine wp_mono (fun _ _ _ hc => IdleCounts.after hq.taken hc) ?_
  cases d with
  | active =>
    refine wp_idle_silent .now trivial fun w₂ => ?_
    rcases hd : drv.ctrl.checkTimeout w₂.now with _ | o
    · simp only [act, hd]
      refine wp_idle_silent .now trivial fun w₃ => ?_
      rcases hs : drv.ctrl.checkSilenceTimeout w₃.now with _ | o
      · simp only [act, hs]
        refine wp_idle_silent .now trivial fun w₄ => ?_
        refine wp_idle_silent (.select _ _) trivial fun w₅ => ?_
        split
        · exact idleStop_counts .cancelled rfl
        · exact again_counts
        · intro w₆ h₆
          refine wp_ite (fun _ => again_counts) fun hne => ?_
          -- what it takes here is not empty
          refine wp_iff.2 fun tr' w' step _ htaken => ?_
          rw [taken_readFrom, RingSlice.pieces, if_neg hne] at htaken
          cases htaken
      · simp only [act, hs]
        exact idleStop_counts _ (RxStopController.checkSilenceTimeout_counted hs)
    · simp only [act, hd]
      exact idleStop_counts _ (RxStopController.checkTimeout_counted hd)
  | reconnecting ctrl =>
    refine wp_idle_silent (.sleep 50) trivial fun w₂ => ?_
    exact again_counts
  | closed => exact idleStop_counts .connectionClosed rfl

end

/-! ## The loop -/

/-- What the end of a read reports and returns. -/
structure Ending where
  metadata : RxStopMetadata
  matched : Bool
  payload : Bytes

def ReadOutcome.ending (out : ReadOutcome) : Ending := ⟨out.metadata, out.matched, out.bytes⟩

def ReadDriver.ending (drv : ReadDriver) (compl : ReadCompletion) : Ending :=
  ⟨compl.metadata, compl.matched, drv.payload compl⟩

theorem complete_ending (drv : ReadDriver) (compl : ReadCompletion) (w : World) :
    wp act Rely (drv.complete compl)
      (fun tr _ r => taken tr = [] ∧ r.1.ending = drv.ending compl) w := by
  refine wp_mono ?_ (complete_wp drv compl w)
  rintro tr w' r ⟨hslices, -, hcompl⟩
  refine ⟨taken_of_slices hslices, ?_⟩
  rw [ReadOutcome.ending, hcompl.metadata, hcompl.matched, hcompl.bytes]
  rfl

/-- What a step leaves of a read that has taken `ps`. -/
def StepLeaves (I : List (Piece UInt8) → ReadDriver → Prop) (E : List (Piece UInt8) → Ending → Prop)
    (ps : List (Piece UInt8)) : WaitStep → Prop
  | .again drv _ => I ps drv
  | .stop drv compl => E ps (drv.ending compl)

/-- **Loop rule.** If every turn keeps `I` or ends with `E`, by the bytes taken
    so far, so does the loop. -/
theorem runWait_rule {I : List (Piece UInt8) → ReadDriver → Prop}
    {E : List (Piece UInt8) → Ending → Prop}
    (hstep : ∀ ps drv clocked w tr w' step, I ps drv → Turn drv clocked w tr w' step →
      IdleCounts drv tr step → StepLeaves I E (ps ++ taken tr) step)
    (turns : ℕ) {ps : List (Piece UInt8)} {drv : ReadDriver} {clocked : ℕ} {w : World}
    (hi : I ps drv) (hc : clocked ≤ w.feed.ring.endOffset) :
    wp act Rely (runWait turns drv clocked) (fun tr _ r => ∀ out final, r = .ok (out, final) →
      E (ps ++ taken tr) out.ending) w := by
  induction turns generalizing ps drv clocked w with
  | zero =>
    intro out final hok
    cases hok
  | succ turns ih =>
    refine (wp_bind _ _ _ _).2 (wp_iff.2 fun tr w₁ step hrun => ?_)
    have hturn := hrun.wp (waitOnce_turn hc)
    have hleaves := hstep ps drv clocked w tr w₁ step hi hturn (hrun.wp waitOnce_idle_counts)
    cases step with
    | again drv' clocked' =>
      refine wp_mono ?_ (ih hleaves (hturn.clocked_le hc))
      intro tr' w' r hend out final hok
      rw [taken_append, ← List.append_assoc]
      exact hend out final hok
    | stop drv' compl =>
      refine wp_seq (complete_ending drv' compl w₁) ?_
      rintro tr' w' r ⟨htaken, hending⟩ out final ⟨⟩
      rw [List.append_nil, taken_append, htaken, List.append_nil, hending]
      exact hleaves

/-! ## Raw reads -/

/-- A raw read, with a matcher or without, that received `b` has counted all of
    it. -/
structure RawTally (matching : Bool) (b : Bytes) (drv : ReadDriver) : Prop where
  decoder : drv.decoder = none
  matcher : drv.matcher.isSome = matching
  returned : drv.acc.returnedBytes = b
  bytesObserved : drv.ctrl.bytesObserved = b.length
  bytesReturned : drv.ctrl.bytesReturned = b.length
  unmatched : ∃ n, drv.ctrl.Unmatched n

/-- A raw read that ends counts all of `b`, and returns it if it did not match. -/
structure CountsAll (matching : Bool) (b : Bytes) (e : Ending) : Prop where
  observed : e.metadata.bytesObserved = b.length
  returned : e.metadata.bytesReturned = b.length
  truncated : e.metadata.truncated = false
  whole : e.matched = false → e.payload = b
  matched : e.matched = true → matching = true

/-- What a live chunk of a raw read decides, `b` being received with it. -/
inductive RawCounts (matching : Bool) (b : Bytes) : ChunkDecision → Prop
  | goesOn {drv : ReadDriver} (h : RawTally matching b drv) : RawCounts matching b (.continue drv)
  | stops {drv : ReadDriver} {completion : ℕ → ReadCompletion}
      (h : ∀ n, CountsAll matching b (drv.ending (completion n))) :
      RawCounts matching b (.stop drv completion)

section
variable {matching : Bool} {b x : Bytes} {drv drv' : ReadDriver} {clocked : ℕ} {w w' : World}
  {tr : List RxEvent} {step : WaitStep}

theorem CountsAll.of_counted (reason : RxStopReason) {e : Ending}
    (hmeta : e.metadata = .counted reason b.length b.length)
    (hwhole : e.matched = false → e.payload = b) (hmatched : e.matched = true → matching = true) :
    CountsAll matching b e := by
  rw [RxStopMetadata.counted] at hmeta
  refine ⟨?_, ?_, ?_, hwhole, hmatched⟩
  · rw [hmeta]
  · rw [hmeta]
  · rw [hmeta]
    simp

/-- **Step**: a live chunk of a raw read. -/
theorem RawTally.decision (h : RawTally matching b drv) (now : ℕ) :
    RawCounts matching (b ++ x) (liveDecision (drv.absorb x now) x) := by
  obtain ⟨n, hun⟩ := h.unmatched
  have hreturned : (drv.absorb x now).acc.returnedBytes = b ++ x := congrArg (· ++ x) h.returned
  have hobserved : (drv.absorb x now).ctrl.bytesObserved + x.length = (b ++ x).length := by
    rw [List.length_append, ← h.bytesObserved]
    rfl
  have hun' : (drv.absorb x now).ctrl.Unmatched n := hun.resetSilenceTimer now
  have hdec : (drv.absorb x now).decoder = none := h.decoder
  have hmatcher : (drv.absorb x now).matcher.isSome = matching := h.matcher
  generalize drv.absorb x now = drv₁ at hreturned hobserved hun' hdec hmatcher ⊢
  have hpushed : ((drv₁.matcher.map fun m => m.pushBounded x drv₁.maxBytes).map Prod.snd).isSome =
      matching := by
    rw [Option.isSome_map, Option.isSome_map, hmatcher]
  simp only [liveDecision, hdec, rawDecision, RxStopController.pushData, hreturned, hobserved]
  rcases hpush : (drv₁.matcher.map fun m => m.pushBounded x drv₁.maxBytes).map Prod.fst with _ | _ | k
  rotate_left 2
  · simp only [hpush, RxStopController.stop]
    refine .stops fun n => ?_
    refine .of_counted .matchFound rfl (fun hm => (by cases hm)) fun _ => ?_
    rw [← hmatcher]
    rcases hnone : drv₁.matcher with _ | m
    · rw [hnone] at hpush
      cases hpush
    · rfl
  -- without a match only the limit stops it
  all_goals
    simp only [hpush]
    by_cases hfull : 0 < drv₁.ctrl.maxBytes ∧ drv₁.ctrl.maxBytes ≤ (b ++ x).length
    · simp only [if_pos hfull, RxStopController.stop, hun'.matchIndex]
      refine .stops fun n => ?_
      refine .of_counted .maxBufferedBytes rfl (fun _ => rfl) fun hm => ?_
      cases hun'.matched.symm.trans hm
    · simp only [if_neg hfull]
      refine .goesOn ?_
      exact ⟨rfl, hpushed, hreturned, rfl, rfl, n, hun'.matched, hun'.matchIndex, hun'.maxBytes⟩

/-- **Step**: a turn of a raw read. -/
theorem RawTally.turn {ps : List (Piece UInt8)} (h : RawTally matching (items ps) drv)
    (hturn : Turn drv clocked w tr w' step) (hidle : IdleCounts drv tr step) :
    StepLeaves (fun ps => RawTally matching (items ps)) (fun ps => CountsAll matching (items ps))
      (ps ++ taken tr) step := by
  have hitems {s : RingSlice} (hs : TakesLive drv clocked w tr w' s) :
      items (ps ++ taken tr) = items ps ++ s.bytes := by
    rw [hs.taken, items_snoc]
    rfl
  cases hturn with
  | waits hctrl rely htaken =>
    rw [htaken, List.append_nil]
    obtain ⟨n, hun⟩ := h.unmatched
    rcases hctrl with rfl | ⟨now, rfl⟩
    · exact h
    · exact ⟨h.decoder, h.matcher, h.returned, h.bytesObserved, h.bytesReturned, n, hun.resetSilenceTimer now⟩
  | idle hreason hmatched hindex hend hfinal rely htaken =>
    obtain ⟨reason, hmeta⟩ := hidle htaken _ _ rfl
    rw [h.bytesObserved, h.bytesReturned] at hmeta
    rw [htaken, List.append_nil]
    refine .of_counted reason hmeta (fun _ => h.returned) fun hm => ?_
    obtain ⟨n, hun⟩ := h.unmatched
    cases (hmatched.trans hun.matched).symm.trans hm
  | @stops s now e drv' completion hs hdecision hend =>
    have hdec := h.decision (x := s.bytes) now
    rw [hdecision, ← hitems hs] at hdec
    cases hdec with
    | stops hcounts => exact hcounts _
  | @fills s now e drv' hs hdecision hfull hend =>
    have hdec := h.decision (x := s.bytes) now
    rw [hdecision, ← hitems hs] at hdec
    cases hdec with
    | goesOn h' =>
      have hlen := congrArg List.length h'.returned
      exact ⟨hlen, hlen, rfl, fun _ => h'.returned, fun hm => (by cases hm)⟩
  | @goesOn s now drv' hs hdecision hroom =>
    have hdec := h.decision (x := s.bytes) now
    rw [hdecision, ← hitems hs] at hdec
    cases hdec with
    | goesOn h' => exact h'

end

/-! ## Framed reads -/

/-- How many bytes the controller of a framed read counts: the initial ones, if
    a matcher saw them. -/
def matcherCount (req : ReadRequest) (s₀ : RingSlice) : ℕ :=
  if req.matcher.isSome then s₀.bytes.length else 0

theorem matcherCount_le (req : ReadRequest) (s₀ : RingSlice) :
    matcherCount req s₀ ≤ s₀.bytes.length := by
  rw [matcherCount]
  split
  · exact Nat.le_refl _
  · exact Nat.zero_le _

/-- What a framed read that has taken `ps` has counted, and returns. -/
structure FramedTally (req : ReadRequest) (d : FrameDecoder) (s₀ : RingSlice)
    (ps : List (Piece UInt8)) (drv : ReadDriver) : Prop where
  maxBytes : drv.maxBytes = req.maxBytes
  maxFrames : drv.maxFrames = req.framing.bind (·.maxFrames)
  decoder : drv.decoder = some (decoded d ps).2.2
  matcher : drv.matcher.map Matcher.resetWindow = req.matcher.map Matcher.resetWindow
  frames : drv.acc.frames = (decoded d ps).1.frames
  framesSeen : drv.acc.framesSeen = drv.acc.frames.length
  initial : s₀.pieces <+: ps
  unsated : ¬Sated req (some d) s₀ ps
  returned : drv.acc.returnedBytes.length = matcherCount req s₀ + (items ps).length
  bytesObserved : drv.ctrl.bytesObserved = matcherCount req s₀
  bytesReturned : drv.ctrl.bytesReturned = matcherCount req s₀

/-- A framed read that waits: live bytes have left room. -/
structure FramedWaits (req : ReadRequest) (d : FrameDecoder) (s₀ : RingSlice)
    (ps : List (Piece UInt8)) (drv : ReadDriver) : Prop extends FramedTally req d s₀ ps drv where
  room : (items ps).length = s₀.bytes.length ∨
    matcherCount req s₀ + (items ps).length < req.maxBytes

/-- How a framed read ends, behind its initial slice or with it. -/
inductive FramedCounts (req : ReadRequest) (d : FrameDecoder) (s₀ : RingSlice)
    (ps : List (Piece UInt8)) (e : Ending) : Prop
  /-- live bytes stop it -/
  | stops (hsated : Sated req (some d) s₀ ps) (hlive : s₀.bytes.length < (items ps).length)
      (hobserved : e.metadata.bytesObserved = matcherCount req s₀)
  /-- live bytes fill `max_bytes` -/
  | fills (hunsated : ¬Sated req (some d) s₀ ps) (hlive : s₀.bytes.length < (items ps).length)
      (hfull : matcherCount req s₀ + (items ps).length = req.maxBytes)
      (hmeta : e.metadata = .drained 0 0 (matcherCount req s₀ + (items ps).length))
      (hpayload : e.payload.length = matcherCount req s₀ + (items ps).length)
  /-- no bytes stop it -/
  | idle {reason : RxStopReason} (hinitial : s₀.bytes.length ≤ (items ps).length)
      (hroom : (items ps).length = s₀.bytes.length ∨
        matcherCount req s₀ + (items ps).length < req.maxBytes)
      (hmeta : e.metadata = .counted reason (matcherCount req s₀) (matcherCount req s₀))
      (hpayload : e.payload.length = matcherCount req s₀ + (items ps).length)

section
variable {req : ReadRequest} {d : FrameDecoder} {s₀ : RingSlice} {ps : List (Piece UInt8)}
  {x : Bytes} {drv drv' : ReadDriver} {clocked : ℕ} {w w' : World} {tr : List RxEvent}
  {step : WaitStep}

/-- A stop on framed bytes reports what the controller has counted before them. -/
theorem framedDecision_observed {completion : ℕ → ReadCompletion}
    (h : framedDecision drv d x = .stop drv' completion) (n : ℕ) :
    (completion n).metadata.bytesObserved = drv.ctrl.bytesObserved := by
  simp only [framedDecision, processFramedChunk_eq, framedVerdict] at h
  rcases hm : firstMatch drv.matcher (d.push x).1.frames with _ | ⟨frame, idx⟩
  · rcases he : (d.push x).1.error with _ | e
    · by_cases hmax : drv.maxFrames.any (· ≤ drv.acc.framesSeen + (d.push x).1.frames.length) = true
      · simp only [hm, he, hmax, if_true] at h
        cases h
        rfl
      · simp only [hm, he, hmax, if_false, Bool.false_eq_true] at h
        cases h
    · simp only [hm, he] at h
      cases h
      rfl
  · simp only [hm] at h
    cases h
    rfl

theorem FramedTally.initial_le (h : FramedTally req d s₀ ps drv) :
    s₀.bytes.length ≤ (items ps).length := by
  obtain ⟨rest, hrest⟩ := h.initial
  rw [← hrest, items_append, List.length_append, items_pieces]
  exact Nat.le_add_right _ _

theorem FramedTally.stopsOn_iff (h : FramedTally req d s₀ ps drv) {s : RingSlice} {now : ℕ} :
    (drv.absorb s.bytes now).StopsOn s.bytes ↔ Sated req (some d) s₀ (ps ++ [s.piece]) := by
  have hdec : (drv.absorb s.bytes now).decoder = some (decoded d ps).2.2 := h.decoder
  rw [sated_snoc h.unsated h.initial, ReadDriver.StopsOn, hdec]
  show FrameStop drv.matcher drv.maxFrames drv.acc.framesSeen _ _ ↔ _
  rw [h.maxFrames, h.framesSeen, h.frames]
  exact FrameStop.congr h.matcher

theorem FramedTally.liveDecision_eq (h : FramedTally req d s₀ ps drv) (now : ℕ) :
    liveDecision (drv.absorb x now) x = framedDecision (drv.absorb x now) (decoded d ps).2.2 x := by
  have hdec : (drv.absorb x now).decoder = some (decoded d ps).2.2 := h.decoder
  rw [liveDecision, hdec]

/-- What live bytes leave of a framed read that they do not stop. -/
theorem FramedTally.goesOn (h : FramedTally req d s₀ ps drv) {s : RingSlice} {now : ℕ}
    (hdecision : liveDecision (drv.absorb s.bytes now) s.bytes = .continue drv') :
    FramedTally req d s₀ (ps ++ [s.piece]) drv' := by
  have hdec : (drv.absorb s.bytes now).decoder = some (decoded d ps).2.2 := h.decoder
  have hchunked : Chunked _ s.bytes _ := framedDecision_chunked hdec
  have hleaves := framedDecision_leaves hdec s.bytes
  rw [← h.liveDecision_eq, hdecision] at hchunked hleaves
  obtain ⟨hframes, -, hdecoder⟩ := decoded_snoc d ps s.piece
  cases hchunked with
  | goesOn hd hpushed hctrl hopen =>
    refine ⟨hd.maxBytes.trans h.maxBytes, hd.maxFrames.trans h.maxFrames, ?_,
      hd.matcher.trans h.matcher, ?_, hd.framesSeen h.framesSeen,
      h.initial.trans (List.prefix_append ..), fun hs => hopen (h.stopsOn_iff.2 hs), ?_, ?_, ?_⟩
    · rw [hd.decoder, hdec, hdecoder]
      rfl
    · rw [hd.frames, hdec, hframes]
      exact congrArg (· ++ _) h.frames
    · rw [hd.returned, items_snoc, List.length_append, ← Nat.add_assoc, ← h.returned]
      exact List.length_append
    · rw [hleaves.ctrl]
      exact h.bytesObserved
    · rw [hleaves.ctrl]
      exact h.bytesReturned

/-- Live bytes that stop a framed read. -/
theorem FramedTally.stops (h : FramedTally req d s₀ ps drv) {s : RingSlice} {now : ℕ}
    {completion : ℕ → ReadCompletion}
    (hdecision : liveDecision (drv.absorb s.bytes now) s.bytes = .stop drv' completion) (n : ℕ) :
    Sated req (some d) s₀ (ps ++ [s.piece]) ∧
      (completion n).metadata.bytesObserved = matcherCount req s₀ := by
  have hdec : (drv.absorb s.bytes now).decoder = some (decoded d ps).2.2 := h.decoder
  have hchunked : Chunked _ s.bytes _ := framedDecision_chunked hdec
  rw [h.liveDecision_eq] at hdecision
  rw [hdecision] at hchunked
  cases hchunked with
  | halts hd hpushed hstops hcursor hstop hclean hinside =>
    refine ⟨h.stopsOn_iff.1 hstops, ?_⟩
    rw [framedDecision_observed hdecision n]
    exact h.bytesObserved

/-- **Step**: a turn of a framed read. -/
theorem FramedWaits.turn (h : FramedWaits req d s₀ ps drv)
    (hturn : Turn drv clocked w tr w' step) (hidle : IdleCounts drv tr step) :
    StepLeaves (FramedWaits req d s₀) (FramedCounts req d s₀) (ps ++ taken tr) step := by
  have hbehind {s : RingSlice} (hs : TakesLive drv clocked w tr w' s) :
      s₀.bytes.length < (items (ps ++ [s.piece])).length := by
    have hle := h.initial_le
    have hpos := List.length_pos_of_ne_nil hs.ne
    rw [items_snoc, List.length_append]
    show _ < _ + s.bytes.length
    omega
  cases hturn with
  | waits hctrl rely htaken =>
    rw [htaken, List.append_nil]
    rcases hctrl with rfl | ⟨now, rfl⟩
    · exact h
    · exact { h with }
  | idle hreason hmatched hindex hend hfinal rely htaken =>
    obtain ⟨reason, hmeta⟩ := hidle htaken _ _ rfl
    rw [h.bytesObserved, h.bytesReturned] at hmeta
    rw [htaken, List.append_nil]
    exact .idle h.initial_le h.room hmeta h.returned
  | @stops s now e drv' completion hs hdecision hend =>
    rw [hs.taken]
    obtain ⟨hsated, hobserved⟩ := h.stops hdecision (min (wrappingAdd s.fromOffset s.bytes.length) e)
    exact .stops hsated (hbehind hs) hobserved
  | @fills s now e drv' hs hdecision hfull hend =>
    rw [hs.taken]
    have h' := h.goesOn hdecision
    have hlen := hs.length_le
    rw [h'.maxBytes, h'.returned] at hfull
    have hitems : (items (ps ++ [s.piece])).length = (items ps).length + s.bytes.length := by
      rw [items_snoc, List.length_append]
      rfl
    rw [h.maxBytes, h.returned] at hlen
    have hpos := List.length_pos_of_ne_nil hs.ne
    refine .fills h'.unsated (hbehind hs) (by omega) ?_ h'.returned
    rw [← h'.returned]
    rfl
  | @goesOn s now drv' hs hdecision hroom =>
    rw [hs.taken]
    have h' := h.goesOn hdecision
    rw [h'.maxBytes, h'.returned] at hroom
    exact { h' with room := .inr hroom }

/-! ## The first bytes of a framed read -/

/-- How the first bytes `x` of a framed read end it: `drv` has counted them in. -/
inductive FirstStop (req : ReadRequest) (d : FrameDecoder) (x : Bytes) (drv : ReadDriver)
    (e : Ending) : Prop
  | matched {v : Verdict} (hverdict : chunkVerdict req d x = some v)
      (hreason : v.reason = .matchFound)
      (hmeta : e.metadata = .matchFound drv.ctrl.bytesObserved drv.acc.returnedBytes.length)
      (hpayload : e.payload.length ≤ d.held + x.length)
  | error (hverdict : chunkVerdict req d x = some (.unmatched .framingError))
      (hmeta : e.metadata = .framingError drv.ctrl.bytesObserved)
      (hpayload : e.payload = drv.acc.returnedBytes)
  | frames (hverdict : chunkVerdict req d x = some (.unmatched .maxFrames))
      (hmeta : e.metadata = .maxFrames drv.ctrl.bytesObserved drv.acc.returnedBytes.length)
      (hpayload : e.payload = drv.acc.returnedBytes)

variable {c : ℕ}

theorem Fed.firstStop (h : Fed req c d drv) {completion : ℕ → ReadCompletion}
    (hdecision : framedDecision drv d x = .stop drv' completion) (n : ℕ) :
    FirstStop req d x drv (drv'.ending (completion n)) := by
  have hfirst := firstMatch_congr h.matcher (d.push x).1.frames
  simp only [framedDecision, processFramedChunk_eq, framedVerdict, h.maxFrames, h.framesSeen,
    Nat.zero_add, hfirst] at hdecision
  rcases hm : firstMatch req.matcher (d.push x).1.frames with _ | ⟨frame, idx⟩
  · rcases he : (d.push x).1.error with _ | e
    · by_cases hmax : (req.framing.bind (·.maxFrames)).any (· ≤ (d.push x).1.frames.length) = true
      · simp only [hm, he, hmax, if_true] at hdecision
        cases hdecision
        exact .frames (by simp only [chunkVerdict, hm, he, hmax, if_true]) rfl rfl
      · simp only [hm, he, hmax, if_false, Bool.false_eq_true] at hdecision
        cases hdecision
    · simp only [hm, he] at hdecision
      cases hdecision
      exact .error (by simp only [chunkVerdict, hm, he]) rfl rfl
  · simp only [hm] at hdecision
    cases hdecision
    refine .matched (v := ⟨.matchFound, true, some idx, some frame.index⟩)
      (by simp only [chunkVerdict, hm]) rfl rfl ?_
    exact (d.push_holds x).1 _ (mem_of_firstMatch hm)

/-- Counters that the first bytes leave: they describe the result only at the
    last frame, if a matcher has seen the bytes before. -/
theorem FirstStop.describes_iff {s₀ : RingSlice} {e : Ending}
    (h : FirstStop req d s₀.bytes drv e) (hheld : d.held = 0) (hne : s₀.bytes ≠ [])
    (hobserved : drv.ctrl.bytesObserved = matcherCount req s₀)
    (hreturned : drv.acc.returnedBytes.length = matcherCount req s₀ + s₀.bytes.length) :
    e.metadata.Describes e.payload.length s₀.bytes.length ↔
      req.matcher.isSome = true ∧ chunkVerdict req d s₀.bytes = some (.unmatched .maxFrames) := by
  have hpos := List.length_pos_of_ne_nil hne
  have hcount : matcherCount req s₀ = s₀.bytes.length ↔ req.matcher.isSome = true := by
    rw [matcherCount]
    split
    · next hsome => exact iff_of_true rfl hsome
    · next hnone => exact iff_of_false (by omega) hnone
  cases h with
  | matched hverdict hreason hmeta hpayload =>
    refine iff_of_false (fun hd => ?_) fun hmax => ?_
    · -- the matching frame is shorter than the bytes counted
      have h₁ := hd.observed
      have h₂ := hd.returned
      simp only [hmeta, RxStopMetadata.matchFound, RxStopMetadata.counted] at h₁ h₂
      omega
    · rw [hverdict, Option.some.injEq] at hmax
      rw [hmax.2] at hreason
      cases hreason
  | error hverdict hmeta hpayload =>
    refine iff_of_false (fun hd => ?_) fun hmax => ?_
    · have h₂ := hd.returned
      simp only [hmeta, hpayload, RxStopMetadata.framingError] at h₂
      omega
    · rw [hverdict] at hmax
      cases hmax.2
  | frames hverdict hmeta hpayload =>
    rw [hverdict, ← hcount, hmeta, hpayload]
    constructor
    · exact fun hd => ⟨hobserved.symm.trans hd.observed, rfl⟩
    · rintro ⟨heq, -⟩
      refine ⟨rfl, hobserved.trans heq, ?_⟩
      simp only [RxStopMetadata.maxFrames, Bool.false_eq_true, false_iff]
      omega

end

/-! ## The initial phase -/

/-- What a read that ends has counted of the pieces it took, path by path. -/
inductive Tallied (req : ReadRequest) (d₀ : Option FrameDecoder) (s₀ : RingSlice)
    (ps : List (Piece UInt8)) (e : Ending) : Prop
  /-- a match in the history -/
  | history {n : ℕ} (hhist : historyEnd req s₀ = some n)
      (h : e.metadata.Describes e.payload.length n)
  /-- a raw read, or the cat path -/
  | raw (hd₀ : d₀ = none) (hhist : historyEnd req s₀ = none)
      (h : CountsAll req.matcher.isSome (items ps) e)
  /-- a framed read that its first bytes stop -/
  | first {d : FrameDecoder} (hd₀ : d₀ = some d) (hhist : historyEnd req s₀ = none)
      (hne : s₀.bytes ≠ []) (hps : items ps = s₀.bytes)
      (hiff : e.metadata.Describes e.payload.length s₀.bytes.length ↔
        req.matcher.isSome = true ∧ chunkVerdict req d s₀.bytes = some (.unmatched .maxFrames))
  /-- a framed read that goes through its loop -/
  | framed {d : FrameDecoder} (hd₀ : d₀ = some d) (hhist : historyEnd req s₀ = none)
      (hverdict : s₀.bytes ≠ [] → chunkVerdict req d s₀.bytes = none)
      (h : FramedCounts req d s₀ ps e)

/-- What the initial phase leaves or ends with. -/
inductive InitialTally (req : ReadRequest) (d₀ : Option FrameDecoder) (s₀ : RingSlice) :
    InitialDecision → Prop
  | completion {drv : ReadDriver} {compl : ReadCompletion}
      (h : Tallied req d₀ s₀ s₀.pieces (drv.ending compl)) :
      InitialTally req d₀ s₀ (.completion drv compl)
  | context {out : ReadOutcome} {final : ℕ} (h : Tallied req d₀ s₀ s₀.pieces out.ending) :
      InitialTally req d₀ s₀ (.historicalContextMatch out final)
  | raw {drv : ReadDriver} (hd₀ : d₀ = none) (hhist : historyEnd req s₀ = none)
      (h : RawTally req.matcher.isSome s₀.bytes drv) : InitialTally req d₀ s₀ (.continue drv)
  | framed {d : FrameDecoder} {drv : ReadDriver} (hd₀ : d₀ = some d)
      (hhist : historyEnd req s₀ = none)
      (hverdict : s₀.bytes ≠ [] → chunkVerdict req d s₀.bytes = none)
      (h : FramedWaits req d s₀ s₀.pieces drv) : InitialTally req d₀ s₀ (.continue drv)

theorem HistoryDescribed.tally {req : ReadRequest} {d₀ : Option FrameDecoder} {s₀ : RingSlice}
    {n : ℕ} {decision : InitialDecision} (h : HistoryDescribed n decision)
    (hhist : historyEnd req s₀ = some n) : InitialTally req d₀ s₀ decision := by
  cases h with
  | completion h => exact .completion (.history hhist h)
  | context h => exact .context (.history hhist h)

section
variable {req : ReadRequest} {c t : ℕ} {d : FrameDecoder} {s₀ : RingSlice} {drv : ReadDriver}
  {w : World}

/-- A framed read that has decoded nothing yet: its counters, before the first
    bytes go to the decoder. -/
structure Primed (req : ReadRequest) (c : ℕ) (d : FrameDecoder) (s₀ : RingSlice) (drv : ReadDriver) :
    Prop extends Fed req c d drv where
  held : d.held = 0
  returned : drv.acc.returnedBytes.length = matcherCount req s₀
  bytesObserved : drv.ctrl.bytesObserved = matcherCount req s₀
  bytesReturned : drv.ctrl.bytesReturned = matcherCount req s₀

theorem Primed.framedInitial_tally (h : Primed req c d s₀ drv) (hne : s₀.bytes ≠ [])
    (hlen : s₀.bytes.length ≤ req.maxBytes) (hhist : historyEnd req s₀ = none) :
    wp act Rely (framedInitial drv s₀) (fun _ _ => InitialTally req (some d) s₀) w := by
  have hempty : s₀.bytes.isEmpty = false := by simpa using hne
  have hchunk : s₀.bytes.take drv.maxBytes = s₀.bytes :=
    List.take_of_length_le (h.maxBytes ▸ hlen)
  have hfed : Fed req c d (drv.absorbInitial s₀.bytes) := { h with }
  have hreturned : (drv.absorbInitial s₀.bytes).acc.returnedBytes.length =
      matcherCount req s₀ + s₀.bytes.length := by
    rw [← h.returned]
    exact List.length_append
  have hpieces : s₀.pieces = [s₀.piece] := RingSlice.pieces_of_ne hne
  have hitems : items s₀.pieces = s₀.bytes := items_pieces s₀
  have hdec : (drv.absorbInitial s₀.bytes).decoder = some d := h.decoder
  have hdecides := hfed.decides s₀.bytes
  have hchunked : Chunked _ s₀.bytes _ := framedDecision_chunked hdec
  simp only [framedInitial, h.decoder, hempty, hchunk]
  rcases hdecision : framedDecision (drv.absorbInitial s₀.bytes) d s₀.bytes with
    drv' | ⟨drv', completion⟩
  · rw [hdecision] at hdecides hchunked
    obtain ⟨hframes, -, hdecoder⟩ := decoded_snoc d [] s₀.piece
    cases hdecides with
    | goesOn hverdict hl =>
      cases hchunked with
      | goesOn hd hpushed hctrl hopen =>
        refine .framed rfl hhist (fun _ => hverdict) ⟨⟨hl.maxBytes.trans h.maxBytes,
          hl.maxFrames.trans h.maxFrames, ?_, hl.matcher.trans h.matcher, ?_,
          hl.framesSeen (h.framesSeen.trans (congrArg List.length h.frames).symm),
          List.prefix_refl _, fun hs => ?_, ?_, ?_, ?_⟩, .inl (congrArg List.length hitems)⟩
        · rw [hl.decoder, hdec, hpieces]
          exact congrArg some hdecoder.symm
        · rw [hl.frames, hdec, hpieces]
          exact (congrArg (· ++ _) h.frames).trans hframes.symm
        · rw [hpieces] at hs
          exact hopen (h.sated_iff.1 hs)
        · rw [hl.returned, hreturned, hitems]
        · rw [hl.ctrl]
          exact h.bytesObserved
        · rw [hl.ctrl]
          exact h.bytesReturned
  · intro w₁ h₁
    have hstop := hfed.firstStop hdecision (min (wrappingAdd s₀.fromOffset drv'.acc.consumedOffset)
      (act .endOffset w₁).1)
    exact .completion (.first rfl hhist hne hitems
      (hstop.describes_iff h.held hne h.bytesObserved hreturned))

theorem Starting.framedWaits (h : Starting req c (some d) drv) (hempty : s₀.bytes = [])
    (hreturned : drv.acc.returnedBytes = []) (hobserved : drv.ctrl.bytesObserved = 0)
    (hcounted : drv.ctrl.bytesReturned = 0) : FramedWaits req d s₀ s₀.pieces drv := by
  have hcount : matcherCount req s₀ = 0 := by
    have hle := matcherCount_le req s₀
    rw [hempty] at hle
    exact Nat.le_zero.1 hle
  have hpieces : s₀.pieces = [] := by simp [RingSlice.pieces, hempty]
  refine ⟨⟨h.maxBytes, h.maxFrames, ?_, h.matcher, ?_, ?_, List.prefix_refl _, ?_, ?_, ?_, ?_⟩,
    .inl (congrArg List.length (items_pieces s₀))⟩
  · rw [hpieces]
    exact h.decoder
  · rw [hpieces]
    exact h.frames
  · rw [h.framesSeen, h.frames]
    rfl
  · rw [hpieces]
    rintro (⟨hne, -⟩ | ⟨ps', p, heq, -⟩)
    · exact hne hempty
    · exact List.append_ne_nil_of_right_ne_nil _ (List.cons_ne_nil _ _) heq.symm
  · rw [hpieces, hcount, hreturned]
    rfl
  · rw [hcount, hobserved]
  · rw [hcount, hcounted]

variable {crates : Crates} {d₀ : Option FrameDecoder}

/-- **The initial phase** of a read, and what it has counted. -/
theorem processInitial_tally (hd : buildDecoder crates req = .ok d₀)
    (hlen : s₀.bytes.length ≤ req.maxBytes) :
    wp act Rely (processInitial (req.driver c t d₀) s₀) (fun _ _ r => ∀ decision,
      r = .ok decision → InitialTally req d₀ s₀ decision) w := by
  have hst : Starting req c d₀ (req.driver c t d₀) := ReadRequest.starting (buildDecoder_isSome hd) c t
  have hheld := built_held hd
  have hok {p : RxProg InitialDecision} {w₁ : World}
      (h : wp act Rely p (fun _ _ => InitialTally req d₀ s₀) w₁) :
      wp act Rely (do let decision ← p; pure (Except.ok decision))
        (fun _ _ (r : Except Stuck InitialDecision) => ∀ decision, r = .ok decision →
          InitialTally req d₀ s₀ decision) w₁ := by
    refine wp_seq h ?_
    rintro tr w' decision hdec _ ⟨⟩
    exact hdec
  rw [processInitial_path]
  by_cases hne : s₀.bytes = []
  · have hhist : historyEnd req s₀ = none := by simp [historyEnd, hne]
    rw [if_pos hne]
    refine hok ?_
    rcases d₀ with _ | d
    · simp only [framedInitial, ReadRequest.driver]
      exact .raw rfl hhist ⟨rfl, rfl, hne.symm, by rw [hne]; rfl, by rw [hne]; rfl, _, hst.unmatched⟩
    · simp only [framedInitial, hst.decoder, hne, List.isEmpty_nil]
      exact .framed rfl hhist (fun h => absurd hne h) (hst.framedWaits hne rfl rfl rfl)
  rw [if_neg hne]
  have htake : s₀.bytes.take req.maxBytes = s₀.bytes := List.take_of_length_le hlen
  rcases hm : req.matcher with _ | m
  · have hhist : historyEnd req s₀ = none := by simp [historyEnd, hm]
    have hcount : matcherCount req s₀ = 0 := by simp [matcherCount, hm]
    simp only [show (req.driver c t d₀).matcher = none from hm]
    rcases d₀ with _ | d
    · refine hok fun w₁ h₁ => ?_
      refine .completion (.raw rfl hhist ?_)
      rw [items_pieces, show (req.driver c t none).maxBytes = req.maxBytes from rfl, htake]
      exact ⟨rfl, rfl, rfl, fun _ => rfl, fun hm => (by cases hm)⟩
    · refine hok (Primed.framedInitial_tally (c := c) ⟨⟨hst, rfl⟩, hheld d rfl, ?_, ?_, ?_⟩ hne hlen
        hhist)
      · exact hcount.symm
      · exact hcount.symm
      · exact hcount.symm
  · simp only [show (req.driver c t d₀).matcher = some m from hm,
      show (req.driver c t d₀).maxBytes = req.maxBytes from rfl, htake]
    have hhist := historyEnd_some hne hm
    rcases hpush : (m.pushBounded s₀.bytes req.maxBytes).1 with _ | idx
    · rw [hpush] at hhist
      have hcount : matcherCount req s₀ = s₀.bytes.length := by simp [matcherCount, hm]
      simp only [Prog.perform_bind, wp_call]
      intro w₁ h₁
      have hun := (hst.unmatched.resetSilenceTimer (act .now w₁).1).pushData s₀.bytes.length
        s₀.bytes.length
      have hpushed : (((req.driver c t d₀).ctrl.resetSilenceTimer (act .now w₁).1).pushData
          s₀.bytes.length s₀.bytes.length (some .noMatch)).2.bytesObserved = s₀.bytes.length ∧
          (((req.driver c t d₀).ctrl.resetSilenceTimer (act .now w₁).1).pushData
          s₀.bytes.length s₀.bytes.length (some .noMatch)).2.bytesReturned = s₀.bytes.length := by
        simp only [RxStopController.pushData]
        split
        · exact ⟨Nat.zero_add _, rfl⟩
        · exact ⟨Nat.zero_add _, rfl⟩
      rcases d₀ with _ | d
      · intro decision hdec
        cases hdec
        exact .raw rfl hhist ⟨rfl, by rw [hm]; rfl, rfl, hpushed.1, hpushed.2, _, hun⟩
      · have hreset : (some (m.pushBounded s₀.bytes req.maxBytes).2).map Matcher.resetWindow =
            req.matcher.map Matcher.resetWindow := by
          rw [hm]
          exact congrArg some (Matcher.resetWindow_pushBounded m s₀.bytes req.maxBytes)
        refine hok (Primed.framedInitial_tally (c := c) ⟨⟨⟨hst.framing, rfl, rfl, rfl, hreset, rfl, rfl,
          rfl, hun⟩, rfl⟩, hheld d rfl, ?_, ?_, ?_⟩ hne hlen hhist)
        · exact hcount.symm
        · exact hpushed.1.trans hcount.symm
        · exact hpushed.2.trans hcount.symm
    · rw [hpush] at hhist
      refine wp_mono (fun _ _ _ h decision hr => (h decision hr).tally hhist) historyMatch_describes

/-! ## The whole read -/

/-- **What a read has counted** when it ends. -/
theorem readFromPrivateCursor_tallied (turns : ℕ) :
    wp act Rely (readFromPrivateCursor crates turns req c) (fun tr _ r => ∀ out final,
      r = .ok (out, final) → ∃ d₀, buildDecoder crates req = .ok d₀ ∧
        Tallied req d₀ (initialSlice tr) (taken tr) out.ending) w := by
  simp only [readFromPrivateCursor, Prog.perform_bind, wp_call]
  intro w₁ h₁ w₂ h₂
  obtain ⟨hlen, hnext, hstop⟩ := readFrom_within w₂.feed c req.maxBytes
  dsimp only [act]
  generalize w₂.feed.ring.readFrom c req.maxBytes = s₀ at hlen hnext hstop ⊢
  rcases hd : buildDecoder crates req with e | d₀
  · intro out final hok
    cases hok
  refine (wp_bind _ _ _ _).2 (wp_iff.2 fun tr w₃ r hinit => ?_)
  have htaken : taken tr = [] := taken_of_slices (processInitial_slices hinit)
  have hle := hstop.trans (Feed.Grows.end_le (runs_rely hinit))
  rw [← hnext] at hle
  have htally := hinit.wp (processInitial_tally hd hlen)
  -- what the whole read takes: the initial slice and the bytes behind its initial phase
  have htake (tr' : List RxEvent) : taken (⟨.now, w₁.now⟩ :: ⟨.readFrom c req.maxBytes, s₀⟩ ::
      (tr ++ tr')) = s₀.pieces ++ taken tr' := by
    rw [entry_taken, taken_append, htaken, List.nil_append]
  rcases r with e | decision
  · intro out final hok
    cases hok
  cases htally decision rfl with
  | @completion drv compl h =>
    refine wp_seq (complete_ending drv compl w₃) ?_
    rintro tr' w' r ⟨htaken', hending⟩ out final ⟨⟩
    refine ⟨d₀, rfl, ?_⟩
    rw [List.append_nil, htake, htaken', List.append_nil, hending]
    exact h
  | @context out final h =>
    rintro out final ⟨⟩
    refine ⟨d₀, rfl, ?_⟩
    rw [htake, taken_nil]
    simp only [List.append_nil]
    exact h
  | @raw drv hd₀ hhist h =>
    rw [← items_pieces s₀] at h
    refine wp_mono ?_ (runWait_rule (I := fun ps => RawTally req.matcher.isSome (items ps))
      (E := fun ps => CountsAll req.matcher.isSome (items ps)) (fun ps drv clocked w tr w' step h => h.turn) turns h hle)
    intro tr' w' r hend out final hok
    refine ⟨d₀, rfl, ?_⟩
    rw [htake]
    exact .raw hd₀ hhist (hend out final hok)
  | @framed d drv hd₀ hhist hverdict h =>
    refine wp_mono ?_ (runWait_rule (fun ps drv clocked w tr w' step h => h.turn) turns h hle)
    intro tr' w' r hend out final hok
    refine ⟨d₀, rfl, ?_⟩
    rw [htake]
    exact .framed hd₀ hhist hverdict (hend out final hok)

end

/-! ## When the counters describe the result -/

/-- The matcher of the request as `validate_match_request` builds it. -/
def ReadRequest.Built (req : ReadRequest) : Prop :=
  ∀ m ∈ req.matcher, ∃ pattern context, m = .new pattern context

/-- The cut of a match keeps all the bytes. -/
def KeepsAll (cut : ℕ × ℕ) (stream : Bytes) : Prop := cut.1 = 0 ∧ stream.length ≤ cut.2

/-- Live bytes fill `max_bytes` before they decide a framed read, and none of
    them was returned twice. -/
structure FillsLive (req : ReadRequest) (d : FrameDecoder) (s₀ : RingSlice) (ps : List (Piece UInt8)) :
    Prop where
  once : req.matcher = none ∨ s₀.bytes = []
  unsated : ¬Sated req (some d) s₀ ps
  room : s₀.bytes.length < req.maxBytes
  full : (items ps).length = req.maxBytes

/-- When the counters of a read describe its result: if there is a match in its
    history; raw, unless a live match of a literal is cut to its context; framed,
    if nothing is taken, if live bytes fill `max_bytes` before they decide
    anything, or if the first bytes bring the last frame asked for after a matcher
    saw them. -/
def CountersKept (req : ReadRequest) (d₀ : Option FrameDecoder) (s₀ : RingSlice)
    (ps : List (Piece UInt8)) : Prop :=
  (historyEnd req s₀).isSome = true ∨
  match d₀ with
  | none => ∀ pattern context, req.matcher = some (.new pattern context) → ∀ k occ,
      Finds (items ps) pattern k occ → KeepsAll (liveCut pattern context (items ps) k) (items ps)
  | some d => items ps = [] ∨ FillsLive req d s₀ ps ∨ req.matcher.isSome = true ∧ s₀.bytes ≠ [] ∧
      chunkVerdict req d s₀.bytes = some (.unmatched .maxFrames)

section
variable {req : ReadRequest} {d : FrameDecoder} {s₀ : RingSlice} {ps : List (Piece UInt8)}
  {e : Ending} {crates : Crates} {turns c : ℕ} {w w' : World} {tr : List RxEvent}
  {out : ReadOutcome} {final : ℕ}

theorem FramedCounts.describes_iff (h : FramedCounts req d s₀ ps e) :
    e.metadata.Describes e.payload.length (items ps).length ↔
      items ps = [] ∨ FillsLive req d s₀ ps := by
  have hcount := matcherCount_le req s₀
  cases h with
  | stops hsated hlive hobserved =>
    refine iff_of_false (fun hd => ?_) ?_
    · have := hobserved.symm.trans hd.observed
      omega
    · rintro (hnil | hfills)
      · rw [hnil] at hlive
        exact Nat.not_lt_zero _ hlive
      · exact hfills.unsated hsated
  | fills hunsated hlive hfull hmeta hpayload =>
    rw [hmeta, hpayload]
    constructor
    · intro hd
      have hobserved : matcherCount req s₀ + (items ps).length = (items ps).length := hd.observed
      refine .inr ⟨?_, hunsated, by omega, by omega⟩
      by_cases hm : req.matcher = none
      · exact .inl hm
      · have hzero : s₀.bytes.length = 0 := by
          rw [matcherCount, if_pos (Option.isSome_iff_ne_none.2 hm)] at hobserved
          omega
        exact .inr (List.length_eq_zero_iff.1 hzero)
    · rintro (hnil | hfills)
      · rw [hnil] at hlive
        exact absurd hlive (Nat.not_lt_zero _)
      · have hzero : matcherCount req s₀ = 0 := by
          have := hfills.full
          omega
        rw [hzero, Nat.zero_add]
        exact ⟨rfl, rfl, by simp [RxStopMetadata.drained]⟩
  | idle hinitial hroom hmeta hpayload =>
    rw [hmeta, hpayload]
    constructor
    · intro hd
      have hreturned : matcherCount req s₀ = matcherCount req s₀ + (items ps).length := hd.returned
      exact .inl (List.length_eq_zero_iff.1 (by omega))
    · rintro (hnil | hfills)
      · rw [hnil, List.length_nil] at hinitial
        have hzero : matcherCount req s₀ = 0 := by omega
        rw [hnil, hzero]
        exact RxStopMetadata.counted_describes _ _ _
      · have h₁ := hfills.full
        have h₂ := hfills.room
        omega

/-- A framed read without a match in its history. -/
theorem Tallied.framed_iff (h : Tallied req (some d) s₀ ps e) (hhist : historyEnd req s₀ = none) :
    e.metadata.Describes e.payload.length (items ps).length ↔
      items ps = [] ∨ FillsLive req d s₀ ps ∨ req.matcher.isSome = true ∧ s₀.bytes ≠ [] ∧
        chunkVerdict req d s₀.bytes = some (.unmatched .maxFrames) := by
  cases h with
  | history hsome =>
    rw [hhist] at hsome
    cases hsome
  | raw hd₀ => cases hd₀
  | first hd₀ _ hne hps hiff =>
    cases hd₀
    rw [hps, hiff]
    constructor
    · exact fun hlast => .inr (.inr ⟨hlast.1, hne, hlast.2⟩)
    · rintro (hnil | hfills | ⟨hmatcher, -, hverdict⟩)
      · exact absurd hnil hne
      · have h₁ := hfills.full
        have h₂ := hfills.room
        rw [hps] at h₁
        omega
      · exact ⟨hmatcher, hverdict⟩
  | framed hd₀ _ hverdict hcounts =>
    cases hd₀
    rw [hcounts.describes_iff]
    constructor
    · rintro (hnil | hfills)
      · exact .inl hnil
      · exact .inr (.inl hfills)
    · rintro (hnil | hfills | ⟨-, hne, hlast⟩)
      · exact .inl hnil
      · exact .inr hfills
      · rw [hverdict hne] at hlast
        cases hlast

theorem CountsAll.describes_iff {matching : Bool} {stream : Bytes} (h : CountsAll matching stream e) :
    e.metadata.Describes e.payload.length stream.length ↔ e.payload.length = stream.length := by
  constructor
  · exact fun hd => hd.returned.symm.trans h.returned
  · intro hlen
    refine ⟨h.returned.trans hlen.symm, h.observed, ?_⟩
    rw [h.truncated, h.returned, h.observed]
    simp

/-- The cut of a live match keeps all the bytes exactly if the payload has their
    number. -/
theorem Shown.keepsAll_iff {stream : Bytes} {k : ℕ} {cut : ℕ × ℕ} {r : RawResult}
    (h : Shown stream k cut r) : r.bytes.length = stream.length ↔ KeepsAll cut stream := by
  have hwithin := h.within
  rw [h.bytes, List.length_drop, List.length_take, KeepsAll]
  omega

/-- A raw read without a match in its history returns all its bytes, unless the
    cut of its match drops some. -/
theorem readFromPrivateCursor_keepsAll (hreq : req.Built) (hframing : req.framing = none)
    (h : Runs act Rely w (readFromPrivateCursor crates turns req c) tr w' (.ok (out, final)))
    (hhist : historyEnd req (initialSlice tr) = none)
    (hcounts : CountsAll req.matcher.isSome (items (taken tr)) out.ending) :
    out.bytes.length = (items (taken tr)).length ↔
      ∀ pattern context, req.matcher = some (.new pattern context) → ∀ k occ,
        Finds (items (taken tr)) pattern k occ →
          KeepsAll (liveCut pattern context (items (taken tr)) k) (items (taken tr)) := by
  have hends {pattern : Pattern} {context : Option ℕ}
      (hm : req.matcher = some (.new pattern context)) :=
    (readFromPrivateCursor_shown ⟨hm, hframing⟩ h).live hhist
  generalize items (taken tr) = stream at hcounts hends ⊢
  cases hmatched : out.matched with
  | false =>
    have hwhole : out.bytes = stream := hcounts.whole hmatched
    refine iff_of_true (congrArg List.length hwhole) fun pattern context hm k occ hfinds => ?_
    by_cases hne : stream = []
    · -- no literal is found in nothing, and nothing else is cut
      cases hfinds with
      | literal hfind =>
        next needle =>
        have hle := findSubsequence_le needle.2 hfind
        rw [hne, List.length_nil] at hle
        exact absurd (List.length_eq_zero_iff.1 (by omega)) needle.2
      | regex hfind => exact ⟨rfl, Nat.le_refl _⟩
      | glob hfirst => exact ⟨rfl, Nat.le_refl _⟩
    · exact absurd hfinds ((hends hm).absent hmatched hne k occ)
  | true =>
    obtain ⟨m, hm⟩ := Option.isSome_iff_exists.1 (hcounts.matched hmatched)
    obtain ⟨pattern, context, rfl⟩ := hreq m hm
    obtain ⟨k, occ, hfinds, hshown⟩ := (hends hm).shown hmatched
    have hkeeps : out.bytes.length = stream.length ↔ KeepsAll (liveCut pattern context stream k) stream :=
      hshown.keepsAll_iff
    rw [hkeeps]
    constructor
    · intro hall pattern' context' hm' k' occ' hfinds'
      obtain ⟨hpattern, -, hcontext, -⟩ := Matcher.mk.inj (Option.some.inj (hm.symm.trans hm'))
      obtain rfl : pattern = pattern' := hpattern
      obtain rfl : context = context' := hcontext
      obtain ⟨rfl, -⟩ := hfinds.unique hfinds'
      exact hall
    · exact fun hall => hall pattern context hm k occ hfinds

/-- **The counters describe the result** exactly under `CountersKept`. -/
theorem counters_describe_iff (hreq : req.Built) {d₀ : Option FrameDecoder}
    (hd : buildDecoder crates req = .ok d₀)
    (h : Runs act Rely w (readFromPrivateCursor crates turns req c) tr w' (.ok (out, final))) :
    out.metadata.Describes out.bytes.length (consumedBytes req (initialSlice tr) (taken tr)) ↔
      CountersKept req d₀ (initialSlice tr) (taken tr) := by
  obtain ⟨d₁, hd₁, htally⟩ := h.wp (readFromPrivateCursor_tallied turns) out final rfl
  obtain rfl := Except.ok.inj (hd.symm.trans hd₁)
  rcases hhist : historyEnd req (initialSlice tr) with _ | n
  · have hconsumed : consumedBytes req (initialSlice tr) (taken tr) = (items (taken tr)).length := by
      rw [consumedBytes, hhist]
      rfl
    rw [hconsumed, CountersKept.eq_def, hhist, Option.isSome_none, or_iff_right Bool.false_ne_true]
    rcases d₀ with _ | d
    · have hframing := buildDecoder_isSome hd
      cases htally with
      | history hsome =>
        rw [hhist] at hsome
        cases hsome
      | raw _ _ hcounts =>
        have hnone : req.framing = none :=
          Option.isNone_iff_eq_none.1 (Option.isSome_eq_false_iff.1 hframing.symm)
        exact hcounts.describes_iff.trans (readFromPrivateCursor_keepsAll hreq hnone h hhist hcounts)
      | first hd₀ => cases hd₀
      | framed hd₀ => cases hd₀
    · exact htally.framed_iff hhist
  · rw [consumedBytes, hhist]
    refine iff_of_true ?_ (.inl (by rw [hhist]; rfl))
    cases htally with
    | history hsome hdescribes =>
      rw [hhist] at hsome
      cases hsome
      exact hdescribes
    | raw _ hnone =>
      rw [hhist] at hnone
      cases hnone
    | first _ hnone =>
      rw [hhist] at hnone
      cases hnone
    | framed _ hnone =>
      rw [hhist] at hnone
      cases hnone

end

/-- `"ok!"` arrives as one live chunk, and all of it is returned. -/
theorem counters_describe_live : ∃ tr w' out final,
    Runs act Rely linesAwaited
      (readFromPrivateCursor .refusing 1 untilOk 0) tr w' (.ok (out, final)) ∧
    out.metadata.Describes out.bytes.length
      (consumedBytes untilOk (initialSlice tr) (taken tr)) := by
  have hrun : ∃ tr w' out final, Runs act Rely linesAwaited
      (readFromPrivateCursor .refusing 1 untilOk 0) tr w' (.ok (out, final)) :=
    ⟨_, _, _, _, runs_of_run Rely.refl _ (arrival_rely [111, 107, 33]) rfl⟩
  obtain ⟨tr, w', out, final, hrun⟩ := hrun
  have hbuilt : untilOk.Built := by
    intro m hm
    obtain rfl := Option.some.inj hm
    exact ⟨_, _, rfl⟩
  refine ⟨tr, w', out, final, hrun, (counters_describe_iff hbuilt rfl hrun).2 (.inr ?_)⟩
  intro pattern context hm k occ hfinds
  obtain ⟨hpattern, -⟩ := Matcher.mk.inj (Option.some.inj hm)
  subst hpattern
  exact ⟨rfl, Nat.le_refl _⟩

/-- Two buffered lines end a framed read: its metadata counts none of the six
    bytes that it took and returns. -/
theorem frames_uncounted : ¬∀ (crates : Crates) (turns : ℕ) (req : ReadRequest) (c : ℕ)
    (w w' : World) (tr : List RxEvent) (out : ReadOutcome) (final : ℕ), req.Built →
    Runs act Rely w (readFromPrivateCursor crates turns req c) tr w' (.ok (out, final)) →
    out.metadata.Describes out.bytes.length (consumedBytes req (initialSlice tr) (taken tr)) := by
  intro h
  have hrun : ∃ tr w' out final, Runs act Rely linesBuffered
      (readFromPrivateCursor .refusing 0 lineRead 0) tr w' (.ok (out, final)) ∧
      out.metadata = .maxFrames 0 6 ∧
      consumedBytes lineRead (initialSlice tr) (taken tr) = 6 :=
    ⟨_, _, _, _, runs_of_run Rely.refl [] (by simp) rfl, rfl, rfl⟩
  obtain ⟨tr, w', out, final, hrun, hmeta, hconsumed⟩ := hrun
  have hbuilt : lineRead.Built := by
    intro m hm
    cases hm
  have hobserved := (h _ _ _ _ _ _ _ _ _ hbuilt hrun).observed
  rw [hmeta, hconsumed] at hobserved
  cases hobserved

end SerialMcp
