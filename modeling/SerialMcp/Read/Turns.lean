/-
  What one turn of the wait loop can do.

  * `Turn`: the turns of `waitOnce` by what they take and decide: nothing yet,
    an idle stop, or one slice of live bytes that stops the read, fills
    `max_bytes`, or leaves it waiting;
  * `waitOnce_turn`: there are no others, whatever happens between the
    operations of the turn;
  * `Turns` and `runWait_turns`: the loop is its turns, then the completion;
  * `Turns.nothing`, `Turns.once`: how the loop ends if it takes nothing more,
    or one slice;
  * `readFromPrivateCursor_parts`: the parts that a whole read runs through.
-/
import SerialMcp.Read.Report

namespace SerialMcp

open Interact RxOp Cuts

theorem RxStopController.checkTimeout_index {ctrl : RxStopController} {now : ℕ} {o : RxStopOutcome}
    (h : ctrl.checkTimeout now = some o) : o.matchIndex = ctrl.matchIndex := by
  unfold checkTimeout at h
  split at h
  · split at h
    · cases h
      rfl
    · cases h
  · cases h

theorem RxStopController.checkSilenceTimeout_index {ctrl : RxStopController} {now : ℕ}
    {o : RxStopOutcome} (h : ctrl.checkSilenceTimeout now = some o) :
    o.matchIndex = ctrl.matchIndex := by
  unfold checkSilenceTimeout at h
  split at h
  · split at h
    · cases h
      rfl
    · cases h
  · cases h

/-- Stops that no bytes cause. -/
def RxStopReason.idle (r : RxStopReason) : Bool := r.countsFromOriginal false

/-- A slice of live bytes that a turn took at the clocked cursor. -/
structure TakesLive (drv : ReadDriver) (clocked : ℕ) (w : World) (tr : List RxEvent) (w' : World)
    (s : RingSlice) : Prop where
  rely : Rely w w'
  taken : taken tr = [s.piece]
  ne : s.bytes ≠ []
  length_le : s.bytes.length ≤ drv.maxBytes - drv.acc.returnedBytes.length
  clocked_le : clocked ≤ s.fromOffset
  next : s.nextOffset = s.piece.stop
  stop_le : s.piece.stop ≤ w'.feed.ring.endOffset

/-- An end offset of the ring that was seen on the way. -/
def EndSeen (lo : ℕ) (w' : World) (e : ℕ) : Prop := lo ≤ e ∧ e ≤ w'.feed.ring.endOffset

/-- The turns of the wait loop. -/
inductive Turn (drv : ReadDriver) (clocked : ℕ) (w : World) (tr : List RxEvent) (w' : World) :
    WaitStep → Prop
  /-- nothing was taken; the silence timer may have been reset -/
  | waits {ctrl : RxStopController} (hctrl : ctrl = drv.ctrl ∨ ∃ now, ctrl = drv.ctrl.resetSilenceTimer now)
      (rely : Rely w w') (taken : taken tr = []) :
      Turn drv clocked w tr w' (.again { drv with ctrl := ctrl } clocked)
  /-- a stop that no bytes cause -/
  | idle {o : RxStopOutcome} {final e : ℕ} (hreason : o.metadata.stopReason.idle = true)
      (hmatched : o.matched = drv.ctrl.matched) (hindex : o.matchIndex = drv.ctrl.matchIndex)
      (hend : EndSeen w.feed.ring.endOffset w' e)
      (hfinal : final = min (saturatingAdd drv.originalCursor drv.acc.consumedOffset) e ∨
        final = min (wrappingAdd drv.originalCursor drv.acc.consumedOffset) e)
      (rely : Rely w w') (taken : taken tr = []) :
      Turn drv clocked w tr w' (.stop drv (o.completion none none final))
  /-- live bytes that stop the read -/
  | stops {s : RingSlice} {now e : ℕ} {drv' : ReadDriver} {completion : ℕ → ReadCompletion}
      (hs : TakesLive drv clocked w tr w' s)
      (hdecision : liveDecision (drv.absorb s.bytes now) s.bytes = .stop drv' completion)
      (hend : EndSeen s.piece.stop w' e) :
      Turn drv clocked w tr w'
        (.stop drv' (completion (min (wrappingAdd s.fromOffset s.bytes.length) e)))
  /-- live bytes that fill `max_bytes` -/
  | fills {s : RingSlice} {now e : ℕ} {drv' : ReadDriver} (hs : TakesLive drv clocked w tr w' s)
      (hdecision : liveDecision (drv.absorb s.bytes now) s.bytes = .continue drv')
      (hfull : drv'.maxBytes ≤ drv'.acc.returnedBytes.length) (hend : EndSeen s.piece.stop w' e) :
      Turn drv clocked w tr w' (.stop drv' (drainedCompletion drv'
        (min (saturatingAdd drv'.originalCursor drv'.acc.consumedOffset) e)))
  /-- live bytes that leave it waiting -/
  | goesOn {s : RingSlice} {now : ℕ} {drv' : ReadDriver} (hs : TakesLive drv clocked w tr w' s)
      (hdecision : liveDecision (drv.absorb s.bytes now) s.bytes = .continue drv')
      (hroom : drv'.acc.returnedBytes.length < drv'.maxBytes) :
      Turn drv clocked w tr w' (.again drv' s.nextOffset)

section
variable {drv : ReadDriver} {clocked : ℕ} {w w₁ w' : World} {tr tr' : List RxEvent}
  {step : WaitStep} {s : RingSlice}

theorem TakesLive.after (hq : Quiet w tr w₁) (h : TakesLive drv clocked w₁ tr' w' s) :
    TakesLive drv clocked w (tr ++ tr') w' s :=
  { h with
    rely := hq.rely.trans h.rely
    taken := by rw [taken_append, hq.taken, h.taken]; rfl }

theorem Turn.after (hq : Quiet w tr w₁) (h : Turn drv clocked w₁ tr' w' step) :
    Turn drv clocked w (tr ++ tr') w' step := by
  have htaken : taken (tr ++ tr') = taken tr' := by rw [taken_append, hq.taken]; rfl
  cases h with
  | waits hctrl rely taken => exact .waits hctrl (hq.rely.trans rely) (htaken.trans taken)
  | idle hreason hmatched hindex hend hfinal rely taken =>
    exact .idle hreason hmatched hindex ⟨(Feed.Grows.end_le hq.rely).trans hend.1, hend.2⟩ hfinal
      (hq.rely.trans rely) (htaken.trans taken)
  | stops hs hdecision hend => exact .stops (hs.after hq) hdecision hend
  | fills hs hdecision hfull hend => exact .fills (hs.after hq) hdecision hfull hend
  | goesOn hs hdecision hroom => exact .goesOn (hs.after hq) hdecision hroom

theorem wp_turn_after {p : RxProg WaitStep} (hq : Quiet w tr w₁)
    (h : wp act Rely p (Turn drv clocked w₁) w₁) :
    wp act Rely p (fun tr' => Turn drv clocked w (tr ++ tr')) w₁ :=
  wp_mono (fun _ _ _ ht => ht.after hq) h

/-- A quiet operation in front of a turn belongs to it. -/
theorem wp_turn_silent (op : RxOp) (hop : op.Silent) {k : op.Resp → RxProg WaitStep}
    (h : ∀ w₁, Rely w w₁ → wp act Rely (k (act op w₁).1) (Turn drv clocked (act op w₁).2)
      (act op w₁).2) :
    wp act Rely (Prog.perform op >>= k) (Turn drv clocked w) w := fun w₁ h₁ =>
  wp_turn_after ((Quiet.refl _).cons op hop h₁ _) (h w₁ h₁)

theorem idleStop_turns {o : RxStopOutcome} {cursor : RxProg ℕ}
    (hreason : o.metadata.stopReason.idle = true) (hmatched : o.matched = drv.ctrl.matched)
    (hindex : o.matchIndex = drv.ctrl.matchIndex)
    (hcursor : cursor = advancePrivateCursor drv.originalCursor drv.acc.consumedOffset ∨
      cursor = wrapPrivateCursor drv.originalCursor drv.acc.consumedOffset) :
    wp act Rely (idleStop drv o cursor) (Turn drv clocked w) w := by
  rcases hcursor with rfl | rfl
  · intro w₁ h₁
    exact .idle hreason hmatched hindex ⟨Feed.Grows.end_le h₁, Nat.le_refl _⟩ (.inl rfl) h₁ rfl
  · intro w₁ h₁
    exact .idle hreason hmatched hindex ⟨Feed.Grows.end_le h₁, Nat.le_refl _⟩ (.inr rfl) h₁ rfl

/-- A slice of live bytes, at the end of a turn. -/
theorem processLiveChunk_turns {w₀ : World} (tr₀ : List RxEvent)
    (hs : ∀ {tr w'}, Rely w w' → taken tr = [] → TakesLive drv clocked w₀ (tr₀ ++ tr) w' s)
    (hstop : s.piece.stop ≤ w.feed.ring.endOffset) :
    wp act Rely (processLiveChunk drv s) (fun tr => Turn drv clocked w₀ (tr₀ ++ tr)) w := by
  have hchunk : s.bytes.take (drv.maxBytes - drv.acc.returnedBytes.length) = s.bytes :=
    List.take_of_length_le (hs (Rely.refl w) (taken_nil)).length_le
  simp only [processLiveChunk, Prog.perform_bind, wp_call, hchunk]
  intro w₁ h₁
  have hstop₁ : s.piece.stop ≤ w₁.feed.ring.endOffset := hstop.trans (Feed.Grows.end_le h₁)
  dsimp only [act]
  rcases hdecision : liveDecision (drv.absorb s.bytes w₁.now) s.bytes with drv' | ⟨drv', completion⟩
  · by_cases hfull : drv'.maxBytes ≤ drv'.acc.returnedBytes.length
    · simp only [hfull, if_true]
      intro w₂ h₂
      exact .fills (hs (h₁.trans h₂) rfl) hdecision hfull
        ⟨hstop₁.trans (Feed.Grows.end_le h₂), Nat.le_refl _⟩
    · simp only [hfull, if_false]
      exact .goesOn (hs h₁ rfl) hdecision (by omega)
  · intro w₂ h₂
    exact .stops (hs (h₁.trans h₂) rfl) hdecision
      ⟨hstop₁.trans (Feed.Grows.end_le h₂), Nat.le_refl _⟩

theorem liveRead_turns (hc : clocked ≤ w.feed.ring.endOffset) :
    wp act Rely (do
      let slice ← ringRead clocked (drv.maxBytes - drv.acc.returnedBytes.length)
      if slice.bytes.isEmpty then pure (.again drv clocked) else processLiveChunk drv slice)
      (Turn drv clocked w) w := by
  simp only [Prog.perform_bind, wp_call]
  intro w₁ h₁
  have hs := readFrom_sliced (hc.trans (Feed.Grows.end_le h₁))
    (drv.maxBytes - drv.acc.returnedBytes.length)
  refine wp_ite (fun hempty => ?_) fun hne => ?_
  · refine .waits (.inl rfl) h₁ ?_
    rw [taken_readFrom, RingSlice.pieces, if_pos hempty]
    rfl
  · refine processLiveChunk_turns [⟨.readFrom clocked _, _⟩] ?_ hs.stop_le
    intro tr w' h' htaken
    refine ⟨h₁.trans h', ?_, by simpa using hne, hs.length_le, hs.resumes.le, hs.next,
      hs.stop_le.trans (Feed.Grows.end_le h')⟩
    rw [List.singleton_append, taken_readFrom, RingSlice.pieces, if_neg hne, htaken]
    rfl

/-- **A turn of the wait loop is one of these.** -/
theorem waitOnce_turn (hc : clocked ≤ w.feed.ring.endOffset) :
    wp act Rely (waitOnce drv clocked) (Turn drv clocked w) w := by
  refine wp_seq (pauseCheck_wp drv) ?_
  rintro tr w₁ d ⟨hq, hctrl⟩
  have hc₁ := hc.trans (Feed.Grows.end_le hq.rely)
  refine wp_turn_after hq ?_
  rcases d with _ | ctrl | _
  · refine wp_turn_silent .now trivial fun w₂ hw₂ => ?_
    split
    · next o ho =>
      obtain ⟨hr, hm⟩ := RxStopController.checkTimeout_some ho
      exact idleStop_turns (by rw [hr]; rfl) hm
        (RxStopController.checkTimeout_index ho) (.inl rfl)
    · refine wp_turn_silent .now trivial fun w₃ hw₃ => ?_
      split
      · next o ho =>
        obtain ⟨hr, hm⟩ := RxStopController.checkSilenceTimeout_some ho
        exact idleStop_turns (by rw [hr]; rfl) hm
          (RxStopController.checkSilenceTimeout_index ho) (.inl rfl)
      · refine wp_turn_silent .now trivial fun w₄ hw₄ => ?_
        refine wp_turn_silent (.select _ _) trivial fun w₅ hw₅ => ?_
        have hc₅ : clocked ≤ w₅.feed.ring.endOffset := hc₁.trans (Feed.Grows.end_le
          (((show w₁.feed.Grows w₂.feed from hw₂).trans hw₃).trans
            ((show w₃.feed.Grows w₄.feed from hw₄).trans hw₅)))
        split
        · exact idleStop_turns rfl rfl rfl (.inr rfl)
        · exact .waits (.inl rfl) (Rely.refl _) rfl
        · exact liveRead_turns hc₅
  · obtain ⟨now, rfl⟩ := hctrl ctrl rfl
    refine wp_turn_silent (.sleep 50) trivial fun w₂ hw₂ => ?_
    exact .waits (.inr ⟨now, rfl⟩) (Rely.refl _) rfl
  · exact idleStop_turns rfl rfl rfl (.inr rfl)

/-! ## The loop -/

/-- What every completion passes on from the driver and the completion. -/
structure Passes (drv : ReadDriver) (compl : ReadCompletion) (out : ReadOutcome) (final : ℕ) :
    Prop where
  metadata : out.metadata = compl.metadata
  matched : out.matched = compl.matched
  matchIndex : out.matchIndex = compl.matchIndex
  matchFrameIndex : out.matchFrameIndex = compl.matchFrameIndex
  frames : out.frames = drv.acc.frames
  framesDropped : out.framesDropped = drv.acc.framesDropped
  final : final = compl.finalCursor

theorem complete_passes (drv : ReadDriver) (compl : ReadCompletion) (w : World) :
    wp act Rely (drv.complete compl) (fun tr w' r => slicesOf tr = [] ∧ Rely w w' ∧
      Passes drv compl r.1 r.2) w := by
  intro w₁ h₁ w₂ h₂ w₃ h₃ w₄ h₄ w₅ h₅
  refine ⟨rfl, ?_, ⟨rfl, rfl, rfl, rfl, rfl, rfl, rfl⟩⟩
  exact (Feed.Grows.trans h₁ h₂).trans (Feed.Grows.trans h₃ (Feed.Grows.trans h₄ h₅))

/-- The turns of the wait loop up to the one that stops. -/
inductive Turns : ReadDriver → ℕ → World → List RxEvent → World → ReadDriver → ReadCompletion →
    Prop where
  | last {drv clocked w tr w' drv' compl} (h : Turn drv clocked w tr w' (.stop drv' compl)) :
      Turns drv clocked w tr w' drv' compl
  | more {drv clocked w tr w₁ drv₁ clocked₁ tr' w' drv' compl}
      (h : Turn drv clocked w tr w₁ (.again drv₁ clocked₁))
      (hs : Turns drv₁ clocked₁ w₁ tr' w' drv' compl) :
      Turns drv clocked w (tr ++ tr') w' drv' compl

theorem Turn.rely (h : Turn drv clocked w tr w' step) : Rely w w' := by
  cases h with
  | waits hctrl rely taken => exact rely
  | idle hreason hmatched hindex hend hfinal rely taken => exact rely
  | stops hs hdecision hend => exact hs.rely
  | fills hs hdecision hfull hend => exact hs.rely
  | goesOn hs hdecision hroom => exact hs.rely

theorem Turn.clocked_le {drv₁ : ReadDriver} {clocked₁ : ℕ}
    (h : Turn drv clocked w tr w' (.again drv₁ clocked₁)) (hc : clocked ≤ w.feed.ring.endOffset) :
    clocked₁ ≤ w'.feed.ring.endOffset := by
  cases h with
  | waits hctrl rely taken => exact hc.trans (Feed.Grows.end_le rely)
  | goesOn hs hdecision hroom =>
    rw [hs.next]
    exact hs.stop_le

/-- **Run**: a loop that ends is its turns and the completion of the last one. -/
theorem runWait_completes (turns : ℕ) (hc : clocked ≤ w.feed.ring.endOffset) :
    wp act Rely (runWait turns drv clocked) (fun tr w' r => ∀ out final, r = .ok (out, final) →
      ∃ tr₁ tr₂ w₁ drv' compl, tr = tr₁ ++ tr₂ ∧ Turns drv clocked w tr₁ w₁ drv' compl ∧
        Runs act Rely w₁ (drv'.complete compl) tr₂ w' (out, final)) w := by
  induction turns generalizing w drv clocked with
  | zero =>
    intro out final hok
    cases hok
  | succ turns ih =>
    refine wp_seq (waitOnce_turn hc) ?_
    rintro tr w₁ step hturn
    cases step with
    | again drv₁ clocked₁ =>
      refine wp_mono ?_ (ih (hturn.clocked_le hc))
      intro tr' w' r hrun out final hok
      obtain ⟨tr₁, tr₂, w₂, drv', compl, rfl, hturns, hdone⟩ := hrun out final hok
      exact ⟨tr ++ tr₁, tr₂, w₂, drv', compl, (List.append_assoc ..).symm, .more hturn hturns, hdone⟩
    | stop drv' compl =>
      refine wp_iff.2 fun tr' w' r hrun out final hok => ?_
      obtain ⟨tr₁, tr₂, w₂, r₁, rfl, hdone, hret⟩ := runs_bind_iff.1 hrun
      subst hok
      cases hret
      rw [List.append_nil]
      exact ⟨tr, tr₁, w₁, drv', compl, rfl, .last hturn, hdone⟩

theorem runWait_turns (turns : ℕ) (hc : clocked ≤ w.feed.ring.endOffset) :
    wp act Rely (runWait turns drv clocked) (fun tr w' r => ∀ out final, r = .ok (out, final) →
      ∃ tr₁ w₁ drv' compl, taken tr = taken tr₁ ∧ Turns drv clocked w tr₁ w₁ drv' compl ∧
        Rely w₁ w' ∧ Passes drv' compl out final) w := by
  refine wp_mono ?_ (runWait_completes turns hc)
  intro tr w' r hrun out final hok
  obtain ⟨tr₁, tr₂, w₁, drv', compl, rfl, hturns, hdone⟩ := hrun out final hok
  obtain ⟨hslices, hrely, hpass⟩ := hdone.wp (complete_passes drv' compl w₁)
  refine ⟨tr₁, w₁, drv', compl, ?_, hturns, hrely, hpass⟩
  rw [taken_append, taken_of_slices hslices, List.append_nil]

/-- How a loop on the driver `drv` ends if it takes nothing more: the end of
    the ring, at least `lo`, bounds the final cursor. -/
structure IdleEnd (drv : ReadDriver) (lo : ℕ) (w' : World) (drv' : ReadDriver)
    (compl : ReadCompletion) : Prop where
  driver : ∃ ctrl, drv' = { drv with ctrl := ctrl }
  reason : compl.metadata.stopReason.idle = true
  matched : compl.matched = drv.ctrl.matched
  matchIndex : compl.matchIndex = drv.ctrl.matchIndex
  matchFrameIndex : compl.matchFrameIndex = none
  cursor : ∃ e, EndSeen lo w' e ∧
    (compl.finalCursor = min (saturatingAdd drv.originalCursor drv.acc.consumedOffset) e ∨
      compl.finalCursor = min (wrappingAdd drv.originalCursor drv.acc.consumedOffset) e)

/-- A controller with the same match state and limit. -/
structure SameMatch (ctrl ctrl' : RxStopController) : Prop where
  matched : ctrl'.matched = ctrl.matched
  matchIndex : ctrl'.matchIndex = ctrl.matchIndex
  maxBytes : ctrl'.maxBytes = ctrl.maxBytes

theorem SameMatch.trans {ctrl₁ ctrl₂ ctrl₃ : RxStopController} (h : SameMatch ctrl₁ ctrl₂)
    (h' : SameMatch ctrl₂ ctrl₃) : SameMatch ctrl₁ ctrl₃ :=
  ⟨h'.matched.trans h.matched, h'.matchIndex.trans h.matchIndex, h'.maxBytes.trans h.maxBytes⟩

theorem SameMatch.unmatched {ctrl ctrl' : RxStopController} {n : ℕ} (h : SameMatch ctrl ctrl')
    (hun : ctrl.Unmatched n) : ctrl'.Unmatched n :=
  ⟨h.matched.trans hun.matched, h.matchIndex.trans hun.matchIndex, h.maxBytes.trans hun.maxBytes⟩

theorem IdleEnd.of_waits {ctrl : RxStopController} {lo lo' : ℕ} {drv' : ReadDriver}
    {compl : ReadCompletion} (hctrl : SameMatch drv.ctrl ctrl) (hlo : lo ≤ lo')
    (h : IdleEnd { drv with ctrl := ctrl } lo' w' drv' compl) : IdleEnd drv lo w' drv' compl := by
  obtain ⟨ctrl', hdrv⟩ := h.driver
  obtain ⟨e, he, hcur⟩ := h.cursor
  exact ⟨⟨ctrl', hdrv⟩, h.reason, h.matched.trans hctrl.matched,
    h.matchIndex.trans hctrl.matchIndex, h.matchFrameIndex, e, ⟨hlo.trans he.1, he.2⟩, hcur⟩

theorem SameMatch.of_reset {ctrl : RxStopController}
    (h : ctrl = drv.ctrl ∨ ∃ now, ctrl = drv.ctrl.resetSilenceTimer now) :
    SameMatch drv.ctrl ctrl := by
  rcases h with rfl | ⟨now, rfl⟩
  · exact ⟨rfl, rfl, rfl⟩
  · exact ⟨rfl, rfl, rfl⟩

variable {drv' : ReadDriver} {compl : ReadCompletion}

theorem Turns.nothing (h : Turns drv clocked w tr w' drv' compl) (htaken : taken tr = []) :
    IdleEnd drv w.feed.ring.endOffset w' drv' compl := by
  induction h with
  | last h =>
    cases h with
    | idle hreason hmatched hindex hend hfinal rely htr =>
      exact ⟨⟨_, rfl⟩, hreason, hmatched, hindex, rfl, _, hend, hfinal⟩
    | stops hs hdecision hend => simp [hs.taken] at htaken
    | fills hs hdecision hfull hend => simp [hs.taken] at htaken
  | more h hs ih =>
    rw [taken_append, List.append_eq_nil_iff] at htaken
    cases h with
    | waits hctrl rely htr =>
      exact (ih htaken.2).of_waits (.of_reset hctrl) (Feed.Grows.end_le rely)
    | goesOn hl hdecision hroom => simp [hl.taken] at htaken

/-- How a loop on the driver `drv` ends that takes one piece `p`: the piece
    stops it, fills `max_bytes`, or leaves it to end idle. -/
inductive Once (drv : ReadDriver) (p : Piece UInt8) (w' : World) (drv' : ReadDriver)
    (compl : ReadCompletion) : Prop where
  | stops {ctrl : RxStopController} {now e : ℕ} {completion : ℕ → ReadCompletion}
      (hctrl : SameMatch drv.ctrl ctrl)
      (hdecision : liveDecision (({ drv with ctrl := ctrl } : ReadDriver).absorb p.items now)
        p.items = .stop drv' completion)
      (hcompl : compl = completion (min (wrappingAdd p.start p.items.length) e))
      (hend : EndSeen p.stop w' e)
  | fills {ctrl : RxStopController} {now e : ℕ} (hctrl : SameMatch drv.ctrl ctrl)
      (hdecision : liveDecision (({ drv with ctrl := ctrl } : ReadDriver).absorb p.items now)
        p.items = .continue drv')
      (hfull : drv'.maxBytes ≤ drv'.acc.returnedBytes.length)
      (hcompl : compl = drainedCompletion drv'
        (min (saturatingAdd drv'.originalCursor drv'.acc.consumedOffset) e))
      (hend : EndSeen p.stop w' e)
  | rests {ctrl : RxStopController} {now : ℕ} {drv₁ : ReadDriver}
      (hctrl : SameMatch drv.ctrl ctrl)
      (hdecision : liveDecision (({ drv with ctrl := ctrl } : ReadDriver).absorb p.items now)
        p.items = .continue drv₁)
      (hroom : drv₁.acc.returnedBytes.length < drv₁.maxBytes)
      (hidle : IdleEnd drv₁ p.stop w' drv' compl)

variable {p : Piece UInt8}

theorem Once.of_waits {ctrl : RxStopController} (hctrl : SameMatch drv.ctrl ctrl)
    (h : Once { drv with ctrl := ctrl } p w' drv' compl) : Once drv p w' drv' compl := by
  cases h with
  | stops h' hdecision hcompl hend => exact .stops (hctrl.trans h') hdecision hcompl hend
  | fills h' hdecision hfull hcompl hend => exact .fills (hctrl.trans h') hdecision hfull hcompl hend
  | rests h' hdecision hroom hidle => exact .rests (hctrl.trans h') hdecision hroom hidle

theorem Turns.once (h : Turns drv clocked w tr w' drv' compl) (htaken : taken tr = [p]) :
    p.items.length ≤ drv.maxBytes - drv.acc.returnedBytes.length ∧ Once drv p w' drv' compl := by
  induction h with
  | last h =>
    cases h with
    | idle hreason hmatched hindex hend hfinal rely htr => simp [htr] at htaken
    | stops hs hdecision hend =>
      rw [hs.taken, List.singleton_inj] at htaken
      subst htaken
      exact ⟨hs.length_le, .stops ⟨rfl, rfl, rfl⟩ hdecision rfl hend⟩
    | fills hs hdecision hfull hend =>
      rw [hs.taken, List.singleton_inj] at htaken
      subst htaken
      exact ⟨hs.length_le, .fills ⟨rfl, rfl, rfl⟩ hdecision hfull rfl hend⟩
  | more h hs ih =>
    rw [taken_append] at htaken
    cases h with
    | waits hctrl rely htr =>
      rw [htr, List.nil_append] at htaken
      obtain ⟨hlen, honce⟩ := ih htaken
      exact ⟨hlen, honce.of_waits (.of_reset hctrl)⟩
    | goesOn hl hdecision hroom =>
      rw [hl.taken, List.singleton_append, List.cons.injEq] at htaken
      obtain ⟨rfl, hrest⟩ := htaken
      have hidle := hs.nothing hrest
      obtain ⟨e, he, hcur⟩ := hidle.cursor
      exact ⟨hl.length_le, .rests ⟨rfl, rfl, rfl⟩ hdecision hroom
        { hidle with cursor := ⟨e, ⟨hl.stop_le.trans he.1, he.2⟩, hcur⟩ }⟩

end

/-! ## The parts of a whole read -/

section
variable {crates : Crates} {turns : ℕ} {req : ReadRequest} {c : ℕ} {w w' : World}
  {tr : List RxEvent} {out : ReadOutcome} {final : ℕ}

/-- How a read whose first slice is `s₀` gets to its outcome: by a match in the
    history with context, by a completion of the initial phase, or by the turns
    of its loop and the completion of the last one. -/
inductive Parts (s₀ : RingSlice) (drv : ReadDriver) (w : World) (tr : List RxEvent) (w' : World)
    (out : ReadOutcome) (final : ℕ) : Prop where
  | context (hinit : Runs act Rely w (processInitial drv s₀) tr w'
        (.ok (.historicalContextMatch out final)))
  | initial {tr₁ tr₂ : List RxEvent} {w₁ : World} {drv' : ReadDriver} {compl : ReadCompletion}
      (htr : tr = tr₁ ++ tr₂)
      (hinit : Runs act Rely w (processInitial drv s₀) tr₁ w₁ (.ok (.completion drv' compl)))
      (hdone : Runs act Rely w₁ (drv'.complete compl) tr₂ w' (out, final))
  | loop {tr₁ tr₂ tr₃ : List RxEvent} {w₁ w₂ : World} {drv₁ drv' : ReadDriver}
      {compl : ReadCompletion} (htr : tr = tr₁ ++ (tr₂ ++ tr₃))
      (hinit : Runs act Rely w (processInitial drv s₀) tr₁ w₁ (.ok (.continue drv₁)))
      (hturns : Turns drv₁ s₀.nextOffset w₁ tr₂ w₂ drv' compl)
      (hdone : Runs act Rely w₂ (drv'.complete compl) tr₃ w' (out, final))

theorem runs_rely {α : Type} {p : RxProg α} {a : α} (h : Runs act Rely w p tr w' a) : Rely w w' :=
  h.rely (P := fun _ => True) Rely.refl (fun _ _ _ => Rely.trans)
    (fun op w _ => by rw [Rely, act_feed]; exact Rely.refl w) (Prog.all_true p)

/-- **The parts of a read.** A completed read takes a slice of the ring at its
    cursor and goes on in one of these ways. -/
theorem readFromPrivateCursor_parts
    (h : Runs act Rely w (readFromPrivateCursor crates turns req c) tr w' (.ok (out, final))) :
    ∃ d₀ t w₀ s₀ tr₁, buildDecoder crates req = .ok d₀ ∧ Rely w w₀ ∧
      s₀ = w₀.feed.ring.readFrom c req.maxBytes ∧
      tr = ⟨.now, t⟩ :: ⟨.readFrom c req.maxBytes, s₀⟩ :: tr₁ ∧
      Parts s₀ (req.driver c t d₀) w₀ tr₁ w' out final := by
  refine h.wp (Q := fun tr w' r => ∀ out final, r = .ok (out, final) →
    ∃ d₀ t w₀ s₀ tr₁, buildDecoder crates req = .ok d₀ ∧ Rely w w₀ ∧
      s₀ = w₀.feed.ring.readFrom c req.maxBytes ∧
      tr = ⟨.now, t⟩ :: ⟨.readFrom c req.maxBytes, s₀⟩ :: tr₁ ∧
      Parts s₀ (req.driver c t d₀) w₀ tr₁ w' out final) ?_ out final rfl
  simp only [readFromPrivateCursor, Prog.perform_bind, wp_call]
  intro w₁ h₁ w₂ h₂
  refine wp_iff.2 fun tr w' r h out final hok => ?_
  subst hok
  obtain ⟨-, hnext, hstop⟩ := readFrom_within w₂.feed c req.maxBytes
  rcases hd : buildDecoder crates req with e | d₀
  · simp only [hd] at h
    cases h
  simp only [hd] at h
  refine ⟨d₀, w₁.now, w₂, _, tr, rfl, Feed.Grows.trans h₁ h₂, rfl, rfl, ?_⟩
  obtain ⟨tr₁, tr₂, w₃, r, rfl, hinit, hrest⟩ := runs_bind_iff.1 h
  rcases r with e | decision
  · cases hrest
  cases decision with
  | «continue» drv =>
    have hle := hstop.trans (Feed.Grows.end_le (runs_rely hinit))
    rw [← hnext] at hle
    obtain ⟨tr₃, tr₄, w₄, drv', compl, rfl, hturns, hdone⟩ :=
      hrest.wp (runWait_completes turns hle) out final rfl
    exact .loop rfl hinit hturns hdone
  | completion drv compl =>
    obtain ⟨tr₃, tr₄, w₄, r₁, rfl, hdone, hret⟩ := runs_bind_iff.1 hrest
    cases hret
    rw [List.append_nil]
    exact .initial rfl hinit hdone
  | historicalContextMatch out final =>
    cases hrest
    rw [List.append_nil]
    exact .context hinit

/-- A read that finds nothing buffered goes straight to its loop. -/
theorem emptyStart_turns
    (h : Runs act Rely w (readFromPrivateCursor crates turns req c) tr w' (.ok (out, final)))
    (hslice : (initialSlice tr).bytes = []) :
    ∃ d₀ t clocked w₀ tr₁ tr₂ w₁ drv' compl, buildDecoder crates req = .ok d₀ ∧
      w.feed.ring.endOffset ≤ w₀.feed.ring.endOffset ∧ taken tr = taken tr₁ ∧
      Turns (req.driver c t d₀) clocked w₀ tr₁ w₁ drv' compl ∧
      Runs act Rely w₁ (drv'.complete compl) tr₂ w' (out, final) := by
  obtain ⟨d₀, t, w₀, s₀, tr₀, hd, hrely, -, rfl, hparts⟩ := readFromPrivateCursor_parts h
  replace hslice : s₀.bytes = [] := hslice
  have hpath : processInitial (req.driver c t d₀) s₀ =
      pure (.ok (.continue (req.driver c t d₀))) := by
    rw [processInitial_path, if_pos hslice]
    rcases d₀ with _ | d <;> simp [framedInitial, ReadRequest.driver, hslice]
  cases hparts with
  | context hinit =>
    rw [hpath] at hinit
    cases hinit
  | initial htr hinit hdone =>
    rw [hpath] at hinit
    cases hinit
  | @loop tr₁ tr₂ tr₃ w₁ w₂ drv₁ drv' compl htr hinit hturns hdone =>
    rw [hpath] at hinit
    cases hinit
    refine ⟨d₀, t, _, w₀, tr₂, tr₃, w₂, drv', compl, hd, Feed.Grows.end_le hrely, ?_, hturns, hdone⟩
    have hslices := (hdone.wp (complete_passes drv' compl w₂)).1
    rw [entry_taken, RingSlice.pieces, hslice, htr, List.nil_append, taken_append,
      taken_of_slices hslices, List.append_nil]
    rfl

end

end SerialMcp
