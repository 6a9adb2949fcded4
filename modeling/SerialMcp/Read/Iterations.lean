/-
  The iterations of the wait loop.

  * `Iterates`: the states of a read at the head of its wait loop;
  * `processInitial_enters`: which initial slices lead there, and what they
    leave;
  * `waitOnce_rounds`: an iteration that does not stop paused for a reconnect,
    polled, or took bytes;
  * `Iterates.timed`: the deadline of a read is fixed when it starts.
-/
import SerialMcp.Read.Bounds
import SerialMcp.Read.Offsets

namespace SerialMcp

open Interact RxOp Cuts

/-- The states of a read at the head of its wait loop: driver, clocked cursor
    and world. -/
inductive Iterates (R : World → World → Prop) (drv₀ : ReadDriver) (s₀ : RingSlice) (w₀ : World) :
    ReadDriver → ℕ → World → Prop
  | enter {drv tr w} (h : Runs act R w₀ (processInitial drv₀ s₀) tr w (.ok (.continue drv))) :
      Iterates R drv₀ s₀ w₀ drv s₀.nextOffset w
  | turn {drv clocked w tr drv' clocked' w'} (hi : Iterates R drv₀ s₀ w₀ drv clocked w)
      (h : Runs act R w (waitOnce drv clocked) tr w' (.again drv' clocked')) :
      Iterates R drv₀ s₀ w₀ drv' clocked' w'

/-! ## Entering the loop -/

/-- The initial slice decides nothing: it is empty, or it goes to a matcher or a
    decoder that finds no match, no error and too few frames in it. -/
def Undecided (req : ReadRequest) (d₀ : Option FrameDecoder) (s : RingSlice) : Prop :=
  s.bytes = [] ∨ (req.matcher.isSome = true ∨ d₀.isSome = true) ∧ historyEnd req s = none ∧
    ∀ d ∈ d₀, ¬FrameStop req.matcher (req.framing.bind (·.maxFrames)) 0 d s.bytes

/-- How many bytes the initial slice leaves in the accumulator: with a matcher
    and a decoder, each of its bytes twice. -/
def initialCount (req : ReadRequest) (d₀ : Option FrameDecoder) (s : RingSlice) : ℕ :=
  if req.matcher.isSome && d₀.isSome then 2 * s.bytes.length else s.bytes.length

/-- What the initial phase leaves of a read started at `t`. -/
structure Enters (req : ReadRequest) (d₀ : Option FrameDecoder) (t : ℕ) (s : RingSlice)
    (drv : ReadDriver) : Prop where
  undecided : Undecided req d₀ s
  maxBytes : drv.maxBytes = req.maxBytes
  count : drv.acc.returnedBytes.length = initialCount req d₀ s
  deadline : drv.ctrl.deadline = req.timeoutMs.map fun ms => t + fromMillis ms

/-- The initial phase goes on exactly on a slice that decides nothing. -/
structure EntersIff (req : ReadRequest) (d₀ : Option FrameDecoder) (t : ℕ) (s : RingSlice)
    (decision : Except Stuck InitialDecision) : Prop where
  goesOn : Undecided req d₀ s → ∃ drv, decision = .ok (.continue drv)
  enters : ∀ drv, decision = .ok (.continue drv) → Enters req d₀ t s drv
  ends : decision ≠ .error .waiting

namespace RxStopController

@[simp] theorem pushData_deadline (ctrl : RxStopController) (chunkLen bufferedLen : ℕ)
    (matchResult : Option MatchResult) :
    (ctrl.pushData chunkLen bufferedLen matchResult).2.deadline = ctrl.deadline := by
  unfold pushData
  rcases matchResult with _ | _ | idx
  · dsimp only
    split <;> rfl
  · dsimp only
    split <;> rfl
  · rfl

end RxStopController

section
variable {R : World → World → Prop} {req : ReadRequest} {d₀ : Option FrameDecoder} {c t : ℕ}
  {s : RingSlice} {w : World} {drv : ReadDriver}

theorem EntersIff.decided {decision : Except Stuck InitialDecision} (h : ¬Undecided req d₀ s)
    (hstop : (∀ drv, decision ≠ .ok (.continue drv)) ∧ decision ≠ .error .waiting) :
    EntersIff req d₀ t s decision :=
  ⟨fun hu => absurd hu h, fun drv hd => absurd hd (hstop.1 drv), hstop.2⟩

theorem Enters.goesOn (h : Enters req d₀ t s drv) : EntersIff req d₀ t s (.ok (.continue drv)) := by
  refine ⟨fun _ => ⟨drv, rfl⟩, ?_, fun hd => by cases hd⟩
  rintro _ ⟨⟩
  exact h

theorem historyMatch_decides (drv : ReadDriver) (s : RingSlice) (hist : Bytes) (m : Matcher)
    (idx : ℕ) (w : World) : wp act R (historyMatch drv s hist m idx)
      (fun _ _ decision => (∀ drv', decision ≠ .ok (.continue drv')) ∧ decision ≠ .error .waiting)
      w := by
  rw [historyMatch]
  refine wp_ite (fun _ => ⟨fun _ hd => (by cases hd), fun hd => (by cases hd)⟩) fun _ => ?_
  rcases m.contextAmount with _ | context
  · intro w₁ h₁
    exact ⟨fun _ hd => (by cases hd), fun hd => (by cases hd)⟩
  · dsimp only
    rcases shapeMatchContext hist idx (m.needleLen.getD 0) (some context) with _ | shaped
    · exact ⟨fun _ hd => (by cases hd), fun hd => (by cases hd)⟩
    · intro w₁ h₁ w₂ h₂ w₃ h₃ w₄ h₄ w₅ h₅
      exact ⟨fun _ hd => (by cases hd), fun hd => (by cases hd)⟩

/-- Before the initial bytes go to the decoder. -/
structure Prepared (req : ReadRequest) (d : FrameDecoder) (t n : ℕ) (drv : ReadDriver) : Prop where
  maxBytes : drv.maxBytes = req.maxBytes
  decoder : drv.decoder = some d
  maxFrames : drv.maxFrames = req.framing.bind (·.maxFrames)
  framesSeen : drv.acc.framesSeen = 0
  matcher : drv.matcher.map Matcher.resetWindow = req.matcher.map Matcher.resetWindow
  returned : drv.acc.returnedBytes.length = n
  deadline : drv.ctrl.deadline = req.timeoutMs.map fun ms => t + fromMillis ms

theorem Prepared.framedInitial_enters {d : FrameDecoder} {n : ℕ} (h : Prepared req d t n drv)
    (hlen : s.bytes.length ≤ req.maxBytes) (hne : s.bytes ≠ []) (hhist : historyEnd req s = none)
    (hn : n + s.bytes.length = initialCount req (some d) s) :
    wp act R (do let decision ← framedInitial drv s; pure (Except.ok decision))
      (fun _ _ => EntersIff req (some d) t s) w := by
  have hempty : s.bytes.isEmpty = false := by simpa using hne
  have htake : s.bytes.take drv.maxBytes = s.bytes := by
    rw [h.maxBytes]
    exact List.take_of_length_le hlen
  have hdec : (drv.absorbInitial s.bytes).decoder = some d := h.decoder
  have hstop : (drv.absorbInitial s.bytes).StopsOn s.bytes ↔
      FrameStop req.matcher (req.framing.bind (·.maxFrames)) 0 d s.bytes := by
    rw [ReadDriver.StopsOn, hdec]
    show FrameStop drv.matcher drv.maxFrames drv.acc.framesSeen d s.bytes ↔ _
    rw [h.maxFrames, h.framesSeen]
    exact FrameStop.congr h.matcher
  have hchunked : Chunked (drv.absorbInitial s.bytes) s.bytes _ := framedDecision_chunked hdec
  have hleaves := framedDecision_leaves hdec s.bytes
  simp only [framedInitial, h.decoder, hempty, htake]
  generalize framedDecision (drv.absorbInitial s.bytes) d s.bytes = decision at hchunked hleaves ⊢
  cases hchunked with
  | @goesOn drv' hd hpushed hctrl hopen =>
    have hopen' := fun hs => hopen (hstop.2 hs)
    refine Enters.goesOn ⟨.inr ⟨.inr rfl, hhist, ?_⟩, hd.maxBytes.trans h.maxBytes, ?_, ?_⟩
    · rintro _ ⟨⟩
      exact hopen'
    · rw [hd.returned, ← hn, ← h.returned]
      exact List.length_append
    · rw [hleaves.ctrl]
      exact h.deadline
  | @halts drv' completion hd hpushed hstops hcursor hstop' hclean hinside =>
    intro w₁ h₁
    refine .decided ?_ ⟨fun _ hd => (by cases hd), fun hd => (by cases hd)⟩
    rintro (hnil | ⟨-, -, hopen⟩)
    · exact hne hnil
    · exact hopen d rfl (hstop.1 hstops)

/-- **Entering the loop**: which initial slices leave the read waiting, and what
    they leave. -/
theorem processInitial_enters (hlen : s.bytes.length ≤ req.maxBytes) :
    wp act R (processInitial (req.driver c t d₀) s) (fun _ _ => EntersIff req d₀ t s) w := by
  rw [processInitial_path]
  by_cases hne : s.bytes = []
  · rw [if_pos hne]
    have hgoes : framedInitial (req.driver c t d₀) s = pure (.continue (req.driver c t d₀)) := by
      rcases d₀ with _ | d <;> simp [framedInitial, ReadRequest.driver, hne]
    rw [hgoes]
    exact Enters.goesOn
      ⟨.inl hne, rfl, by simp [initialCount, hne, ReadRequest.driver, ReadAccumulator.new], rfl⟩
  rw [if_neg hne]
  have hmax : (req.driver c t d₀).maxBytes = req.maxBytes := rfl
  have htake : s.bytes.take req.maxBytes = s.bytes := List.take_of_length_le hlen
  rcases hm : req.matcher with _ | m
  · have hhist : historyEnd req s = none := by simp [historyEnd, hm]
    simp only [show (req.driver c t d₀).matcher = none from hm]
    rcases d₀ with _ | d
    · -- nothing to match and nothing to frame: the slice is the answer
      intro w₁ h₁
      refine .decided ?_ ⟨fun _ hd => (by cases hd), fun hd => (by cases hd)⟩
      rintro (hnil | ⟨hsome, -, -⟩)
      · exact hne hnil
      · simp [hm] at hsome
    · refine Prepared.framedInitial_enters (n := 0) ⟨rfl, rfl, rfl, rfl, rfl, rfl, rfl⟩ hlen hne
        hhist ?_
      simp [initialCount, hm]
  · simp only [show (req.driver c t d₀).matcher = some m from hm, hmax, htake]
    have hhist := historyEnd_some hne hm
    rcases hpush : (m.pushBounded s.bytes req.maxBytes).1 with _ | idx
    · rw [hpush] at hhist
      simp only [Prog.perform_bind, wp_call]
      intro w₁ h₁
      rcases d₀ with _ | d
      · refine Enters.goesOn
          ⟨.inr ⟨.inl (by rw [hm]; rfl), hhist, fun d hd => by cases hd⟩, rfl, ?_, ?_⟩
        · simp [initialCount, ReadDriver.holding]
        · exact RxStopController.pushData_deadline _ _ _ _
      · refine Prepared.framedInitial_enters (n := s.bytes.length) ⟨rfl, rfl, rfl, rfl, ?_, rfl,
          RxStopController.pushData_deadline _ _ _ _⟩ hlen hne hhist ?_
        · rw [hm]
          exact congrArg some (Matcher.resetWindow_pushBounded m s.bytes req.maxBytes)
        · simp only [initialCount, hm, Option.isSome_some, Bool.and_self, if_true]
          omega
    · rw [hpush] at hhist
      refine wp_mono (fun _ _ _ hd => .decided ?_ hd) (historyMatch_decides _ s s.bytes m idx w)
      rintro (hnil | ⟨-, hnone, -⟩)
      · exact hne hnil
      · rw [hhist] at hnone
        cases hnone

end

/-! ## One iteration -/

/-- The iteration paused for a reconnect. -/
def Pauses (tr : List RxEvent) : Prop := ⟨.sleep 50, ()⟩ ∈ tr

/-- What woke the iteration. -/
def Woke (wake : WaitWake) (tr : List RxEvent) : Prop := ∃ cursor ms, ⟨.select cursor ms, wake⟩ ∈ tr

/-- The iteration asked the ring for bytes and got none: what had woken it was
    flushed. -/
def Flushed (tr : List RxEvent) : Prop :=
  ∃ cursor n s, ⟨.readFrom cursor n, s⟩ ∈ tr ∧ 0 < n ∧ s.bytes = []

/-- How an iteration leaves the read waiting: it paused, or it found the
    deadline ahead and was woken by the timer or by data. -/
inductive GoesRound (R : World → World → Prop) (drv : ReadDriver) (clocked : ℕ) (w : World)
    (tr : List RxEvent) (drv' : ReadDriver) : Prop
  | paused (h : Pauses tr)
  | woken {w₁ w₂ : World} {wake : WaitWake} (h₁ : R w w₁)
      (hahead : drv.ctrl.checkTimeout w₁.now = none) (h₂ : R w₁ w₂)
      (hwake : w₂.woken clocked = wake) (hwoke : Woke wake tr) (hne : wake ≠ .cancelled)
      (hgrew : wake = .data → drv.acc.returnedBytes.length < drv.maxBytes →
        drv.acc.returnedBytes.length < drv'.acc.returnedBytes.length ∨ Flushed tr)

/-- An iteration that leaves the read waiting, and what it keeps. -/
structure Round (R : World → World → Prop) (drv : ReadDriver) (clocked : ℕ) (w : World)
    (tr : List RxEvent) (drv' : ReadDriver) : Prop where
  goes : GoesRound R drv clocked w tr drv'
  maxBytes : drv'.maxBytes = drv.maxBytes
  room : drv.acc.returnedBytes.length < drv.maxBytes →
    drv'.acc.returnedBytes.length < drv.maxBytes
  deadline : drv'.ctrl.deadline = drv.ctrl.deadline

/-- The step of an iteration, if it leaves the read waiting. -/
def Rounds (R : World → World → Prop) (drv : ReadDriver) (clocked : ℕ) (w : World)
    (tr : List RxEvent) (_ : World) (step : WaitStep) : Prop :=
  ∀ drv' clocked', step = .again drv' clocked' → Round R drv clocked w tr drv'

theorem liveDecision_keeps {drv drv' : ReadDriver} {chunk : Bytes}
    (h : liveDecision drv chunk = .continue drv') :
    drv'.acc.returnedBytes = drv.acc.returnedBytes ∧ drv'.maxBytes = drv.maxBytes ∧
      drv'.ctrl.deadline = drv.ctrl.deadline := by
  rcases hdec : drv.decoder with _ | d
  · simp only [liveDecision, hdec, rawDecision] at h
    split at h
    · cases h
      exact ⟨rfl, rfl, RxStopController.pushData_deadline _ _ _ _⟩
    · cases h
  · have hleaves := framedDecision_leaves hdec chunk
    simp only [liveDecision, hdec] at h
    rw [h] at hleaves
    exact ⟨hleaves.returned, hleaves.maxBytes, congrArg _ hleaves.ctrl⟩

theorem World.woken_data {w : World} {clocked : ℕ} (h : w.woken clocked = .data) :
    clocked < w.feed.ring.endOffset := by
  unfold woken at h
  rcases hw : w.wake with _ | _ | _ <;> simp only [hw] at h
  · split at h <;> cases h
  · by_cases hlt : clocked < w.feed.ring.endOffset
    · exact hlt
    · rw [if_neg hlt] at h
      split at h <;> cases h
  · split at h <;> cases h

theorem World.woken_poll {w : World} {clocked : ℕ} (h : w.woken clocked = .poll) :
    w.cancelled = false := by
  unfold woken at h
  rcases hc : w.cancelled with _ | _
  · rfl
  · simp only [hc, if_true] at h
    split at h
    · split at h <;> cases h
    · cases h
    · cases h

section
variable {R : World → World → Prop} (hrefl : ∀ w, R w w)
  (htrans : ∀ w w' w'', R w w' → R w' w'' → R w w'') {drv : ReadDriver} {clocked : ℕ}
  {w w₁ : World} {tr' : List RxEvent} {s : RingSlice}

include htrans in
theorem Round.after {drv' : ReadDriver} (h₁ : R w w₁) (h : Round R drv clocked w₁ tr' drv')
    (tr : List RxEvent) : Round R drv clocked w (tr ++ tr') drv' := by
  refine ⟨?_, h.maxBytes, h.room, h.deadline⟩
  cases h.goes with
  | paused hp => exact .paused (List.mem_append_right _ hp)
  | woken h₂ hahead h₃ hwake hwoke hne hgrew =>
    obtain ⟨cursor, ms, hmem⟩ := hwoke
    refine .woken (htrans _ _ _ h₁ h₂) hahead h₃ hwake
      ⟨cursor, ms, List.mem_append_right _ hmem⟩ hne fun hd hroom => ?_
    rcases hgrew hd hroom with hgrew | ⟨cursor, n, s, hmem, hn, hs⟩
    · exact .inl hgrew
    · exact .inr ⟨cursor, n, s, List.mem_append_right _ hmem, hn, hs⟩

theorem idleStop_rounds {o : RxStopOutcome} {cursor : RxProg ℕ} (f : List RxEvent → List RxEvent) :
    wp act R (idleStop drv o cursor) (fun tr => Rounds R drv clocked w (f tr)) w₁ := by
  refine wp_seq (wp_iff.2 fun _ _ _ _ => trivial : wp act R cursor (fun _ _ _ => True) w₁) ?_
  intro tr' w' n _ drv' clocked' hstep
  cases hstep

theorem processLiveChunk_grows (hne : s.bytes ≠ [])
    (hlen : s.bytes.length ≤ drv.maxBytes - drv.acc.returnedBytes.length) :
    wp act R (processLiveChunk drv s) (fun _ _ step => ∀ drv' clocked', step = .again drv' clocked' →
      drv.acc.returnedBytes.length < drv'.acc.returnedBytes.length ∧
        drv'.maxBytes = drv.maxBytes ∧ drv'.acc.returnedBytes.length < drv'.maxBytes ∧
        drv'.ctrl.deadline = drv.ctrl.deadline) w := by
  simp only [processLiveChunk, Prog.perform_bind, wp_call, List.take_of_length_le hlen]
  intro w₁ h₁
  dsimp only [act]
  rcases hdecision : liveDecision (drv.absorb s.bytes w₁.now) s.bytes with drv' | ⟨drv', completion⟩
  · obtain ⟨hreturned, hmax, hdeadline⟩ := liveDecision_keeps hdecision
    refine wp_ite (fun _ => ?_) fun hroom => ?_
    · intro w₂ h₂ drv'' clocked' hstep
      cases hstep
    · rintro drv'' clocked' ⟨⟩
      have hpos := List.length_pos_of_ne_nil hne
      have hgrown : drv'.acc.returnedBytes.length = drv.acc.returnedBytes.length + s.bytes.length := by
        rw [hreturned]
        exact List.length_append
      exact ⟨by omega, hmax, by omega, hdeadline⟩
  · intro w₂ h₂ drv'' clocked' hstep
    cases hstep

include hrefl in
theorem liveRead_rounds {w₂ : World} (h₁ : R w w₂) (hahead : drv.ctrl.checkTimeout w.now = none)
    (hwake : w₂.woken clocked = .data) (tr : List RxEvent) (hwoke : Woke .data tr) :
    wp act R (do
      let slice ← ringRead clocked (drv.maxBytes - drv.acc.returnedBytes.length)
      if slice.bytes.isEmpty then pure (.again drv clocked) else processLiveChunk drv slice)
      (fun tr' => Rounds R drv clocked w (tr ++ tr')) w₂ := by
  have hwoken {tr' : List RxEvent} {drv' : ReadDriver}
      (hgrew : drv.acc.returnedBytes.length < drv.maxBytes →
        drv.acc.returnedBytes.length < drv'.acc.returnedBytes.length ∨ Flushed (tr ++ tr')) :
      GoesRound R drv clocked w (tr ++ tr') drv' := by
    obtain ⟨cursor, ms, hmem⟩ := hwoke
    exact .woken (hrefl w) hahead h₁ hwake ⟨cursor, ms, List.mem_append_left _ hmem⟩ nofun
      fun _ => hgrew
  simp only [Prog.perform_bind, wp_call]
  intro w₃ h₃
  refine wp_ite (fun hempty => ?_) fun hne => ?_
  · rintro drv' clocked' ⟨⟩
    refine ⟨hwoken fun hroom => .inr ?_, rfl, id, rfl⟩
    refine ⟨clocked, _, _, List.mem_append_right _ (List.mem_singleton_self _), ?_,
      List.isEmpty_iff.1 hempty⟩
    exact Nat.sub_pos_of_lt hroom
  · refine wp_mono ?_ (processLiveChunk_grows (R := R) (fun h => hne (List.isEmpty_iff.2 h))
      (readFrom_within w₃.feed clocked _).1)
    intro tr' w' step hgrows drv' clocked' hstep
    obtain ⟨hgrew, hmax, hroom, hdeadline⟩ := hgrows drv' clocked' hstep
    exact ⟨hwoken fun _ => .inl hgrew, hmax, fun _ => hmax ▸ hroom, hdeadline⟩

include hrefl htrans in
theorem checked_rounds (hahead : drv.ctrl.checkTimeout w.now = none)
    {saturating wrapping : RxProg ℕ} :
    wp act R (do
      let now ← clock
      match drv.ctrl.checkSilenceTimeout now with
      | some outcome => idleStop drv outcome saturating
      | none => do
        match ← waitForRingData drv clocked with
        | .cancelled => idleStop drv drv.ctrl.cancelled wrapping
        | .poll => pure (.again drv clocked)
        | .data => do
          let slice ← ringRead clocked (drv.maxBytes - drv.acc.returnedBytes.length)
          if slice.bytes.isEmpty then pure (.again drv clocked) else processLiveChunk drv slice)
      (Rounds R drv clocked w) w := by
  simp only [Prog.perform_bind, wp_call]
  intro w₂ h₂
  dsimp only [act]
  rcases drv.ctrl.checkSilenceTimeout w₂.now with _ | outcome
  · simp only [waitForRingData, selectWake, clock, Prog.perform_bind, Prog.call_bind, wp_call]
    intro w₃ h₃ w₄ h₄
    have h : R w w₄ := htrans _ _ _ h₂ (htrans _ _ _ h₃ h₄)
    dsimp only [act]
    rcases hwake : w₄.woken clocked with _ | _ | _
    · exact idleStop_rounds _
    · exact liveRead_rounds hrefl h hahead hwake [_, _, _]
        ⟨_, _, .tail _ (.tail _ (.head _))⟩
    · rintro drv' clocked' ⟨⟩
      refine ⟨.woken (hrefl w) hahead h hwake ⟨_, _, .tail _ (.tail _ (.head _))⟩ ?_ ?_, rfl, id, rfl⟩
      · intro hd
        cases hd
      · intro hd
        cases hd
  · exact idleStop_rounds _

include hrefl htrans in
theorem pauseCheck_rounds : wp act R (pauseCheck drv) (fun _ w₁ d => R w w₁ ∧
    ∀ ctrl, d = .reconnecting ctrl → ctrl.deadline = drv.ctrl.deadline) w := by
  refine wp_ite (fun _ => ?_) fun _ => ⟨hrefl w, nofun⟩
  intro w₁ h₁
  have hreconnect : wp act R (do
      if ← isReconnectEnabled then do
        let now ← clock
        pure (DisconnectState.reconnecting (drv.ctrl.resetSilenceTimer now))
      else pure DisconnectState.closed) (fun _ w₁ d => R w w₁ ∧ ∀ ctrl,
        d = .reconnecting ctrl → ctrl.deadline = drv.ctrl.deadline) w₁ := by
    intro w₂ h₂
    have h := htrans _ _ _ h₁ h₂
    refine wp_ite (fun _ => ?_) fun _ => ⟨h, nofun⟩
    intro w₃ h₃
    refine ⟨htrans _ _ _ h h₃, ?_⟩
    rintro _ ⟨⟩
    rfl
  dsimp only [act]
  rcases w₁.connection with _ | _ | _ | _
  · exact ⟨h₁, nofun⟩
  · exact hreconnect
  · exact hreconnect
  · exact ⟨h₁, nofun⟩

include hrefl htrans in
/-- **An iteration that does not stop** paused, polled or took bytes, unless a
    flush discarded them. -/
theorem waitOnce_rounds : wp act R (waitOnce drv clocked) (Rounds R drv clocked w) w := by
  have hafter {w₁ : World} (h₁ : R w w₁) (tr : List RxEvent) {p : RxProg WaitStep}
      (hp : wp act R p (Rounds R drv clocked w₁) w₁) :
      wp act R p (fun tr' => Rounds R drv clocked w (tr ++ tr')) w₁ :=
    wp_mono (fun _ _ _ hround drv' clocked' hstep =>
      (hround drv' clocked' hstep).after htrans h₁ tr) hp
  refine wp_seq (pauseCheck_rounds hrefl htrans) ?_
  rintro tr w₁ d ⟨h₁, hctrl⟩
  rcases d with _ | ctrl | _
  · simp only [Prog.perform_bind, wp_call]
    intro w₂ h₂
    dsimp only [act]
    rcases hahead : drv.ctrl.checkTimeout w₂.now with _ | outcome
    · refine wp_mono ?_ (hafter (htrans _ _ _ h₁ h₂) (tr ++ [⟨.now, w₂.now⟩])
        (checked_rounds hrefl htrans hahead))
      intro tr' w' step hround
      rwa [List.append_assoc] at hround
    · exact idleStop_rounds _
  · intro w₂ h₂
    rintro drv' clocked' ⟨⟩
    exact ⟨.paused (List.mem_append_right _ (List.mem_singleton_self _)), rfl, id, hctrl ctrl rfl⟩
  · exact idleStop_rounds _

end

/-! ## Without a flush -/

/-- The ring holds what the clocked cursor waits for. -/
def Retained (f : Feed) (clocked : ℕ) : Prop :=
  f.ring.startOffset ≤ clocked ∨ f.ring.startOffset < f.ring.endOffset

theorem Feed.Grows.start_cases {f g : Feed} (h : f.Grows g) :
    g.ring.startOffset = f.ring.startOffset ∨ g.ring.startOffset < g.ring.endOffset := by
  induction h with
  | refl => exact .inl rfl
  | @append g bs r h happ ih =>
    have happended := RxRing.append_appended happ
    have hcap := g.ring.capacity_pos
    have hstart := happended.start
    have hstop := happended.stop
    have hle := g.ring.start_le_end
    dsimp only
    omega

theorem Retained.grow {f g : Feed} {clocked : ℕ} (h : Retained f clocked) (hg : f.Grows g) :
    Retained g clocked := by
  have hend := hg.end_le
  unfold Retained at h ⊢
  rcases hg.start_cases with heq | hlt
  · omega
  · exact .inr hlt

/-- A slice at a retained cursor has bytes, if the ring goes past the cursor. -/
theorem Retained.readFrom_ne {f : Feed} {clocked n : ℕ} (h : Retained f clocked)
    (hlt : clocked < f.ring.endOffset) (hn : 0 < n) : (f.ring.readFrom clocked n).bytes ≠ [] := by
  have hstop := f.refines.stop
  have hclamp : f.ring.clampOffset clocked < f.stream.length := by
    unfold Retained at h
    unfold RxRing.clampOffset
    omega
  rw [RxRing.readFrom_eq f.refines]
  refine List.ne_nil_of_length_pos ?_
  rw [List.length_take, List.length_drop]
  omega

theorem readFrom_retained (f : Feed) (cursor n : ℕ) :
    Retained f (f.ring.readFrom cursor n).nextOffset := by
  have hle := f.ring.start_le_end
  rw [RxRing.readFrom_eq f.refines]
  refine .inl ?_
  unfold RxRing.clampOffset
  dsimp only
  omega

theorem not_flushed {tr : List RxEvent} (h : slicesOf tr = []) : ¬Flushed tr := by
  rintro ⟨cursor, n, s, hmem, -, -⟩
  obtain ⟨tr₁, tr₂, rfl⟩ := List.append_of_mem hmem
  rw [slicesOf_append] at h
  cases List.append_eq_nil_iff.1 h |>.2

/-- The iteration found what had woken it, and leaves its cursor retained. -/
def FindsData (tr : List RxEvent) (w' : World) (step : WaitStep) : Prop :=
  ¬Flushed tr ∧ ∀ drv clocked, step = .again drv clocked → Retained w'.feed clocked

section
variable {drv : ReadDriver} {clocked : ℕ} {w : World}

/-- What took no slice in front of a part of an iteration belongs to it. -/
theorem FindsData.after {tr tr' : List RxEvent} {w' : World} {step : WaitStep}
    (h : FindsData tr' w' step) (htr : ¬Flushed tr) : FindsData (tr ++ tr') w' step := by
  refine ⟨?_, h.2⟩
  rintro ⟨cursor, n, s, hmem, hn, hs⟩
  rcases List.mem_append.1 hmem with hmem | hmem
  · exact htr ⟨cursor, n, s, hmem, hn, hs⟩
  · exact h.1 ⟨cursor, n, s, hmem, hn, hs⟩

theorem wp_finds_silent (op : RxOp) (hop : op.Silent) {k : op.Resp → RxProg WaitStep}
    (h : ∀ w₁, Rely w w₁ → wp act Rely (k (act op w₁).1) FindsData (act op w₁).2) :
    wp act Rely (Prog.perform op >>= k) FindsData w := by
  intro w₁ h₁
  have hnone : ¬Flushed [⟨op, (act op w₁).1⟩] := by
    refine not_flushed ?_
    cases op <;> first | rfl | exact hop.elim
  exact wp_mono (fun _ _ _ hf => hf.after hnone) (h w₁ h₁)

theorem idleStop_finds {o : RxStopOutcome} {cursor : RxProg ℕ} (hcursor : cursor.All RxOp.Samples) :
    wp act Rely (idleStop drv o cursor) FindsData w := by
  have hall : (idleStop drv o cursor).All RxOp.Samples := hcursor.bind fun _ => trivial
  have hstop : wp act Rely (idleStop drv o cursor) (fun _ _ step => ∀ drv' c', step ≠ .again drv' c')
      w := by
    refine wp_seq (wp_iff.2 fun _ _ _ _ => trivial : wp act Rely cursor (fun _ _ _ => True) w) ?_
    intro tr' w' n _ drv' clocked' hstep
    cases hstep
  refine wp_iff.2 fun tr w' step hrun => ?_
  exact ⟨not_flushed (slicesOf_samples (hrun.all hall)), fun drv' clocked' hstep =>
    absurd hstep (hrun.wp hstop drv' clocked')⟩

theorem processLiveChunk_finds {s : RingSlice} (hs : Retained w.feed s.nextOffset) :
    wp act Rely (processLiveChunk drv s) FindsData w := by
  simp only [processLiveChunk]
  refine wp_finds_silent .now trivial fun w₁ h₁ => ?_
  dsimp only [act]
  split
  · intro w₂ h₂
    exact ⟨not_flushed rfl, fun drv' clocked' hstep => by cases hstep⟩
  · refine wp_ite (fun _ => ?_) fun _ => ?_
    · intro w₂ h₂
      exact ⟨not_flushed rfl, fun drv' clocked' hstep => by cases hstep⟩
    · refine ⟨not_flushed rfl, ?_⟩
      rintro drv' clocked' ⟨⟩
      exact hs.grow h₁

/-- **Appends alone leave no wake-up without bytes.** -/
theorem waitOnce_finds (hroom : drv.acc.returnedBytes.length < drv.maxBytes)
    (hret : Retained w.feed clocked) : wp act Rely (waitOnce drv clocked) FindsData w := by
  have hsat := advancePrivateCursor_samples drv.originalCursor drv.acc.consumedOffset
  have hwrap := wrapPrivateCursor_samples drv.originalCursor drv.acc.consumedOffset
  refine wp_seq (pauseCheck_wp drv) ?_
  rintro tr w₁ d ⟨hq, -⟩
  have hret₁ := hret.grow hq.rely
  refine wp_mono (fun _ _ _ hf => FindsData.after hf (not_flushed hq.slices)) ?_
  rcases d with _ | ctrl | _
  · refine wp_finds_silent .now trivial fun w₂ h₂ => ?_
    split
    · exact idleStop_finds hsat
    · refine wp_finds_silent .now trivial fun w₃ h₃ => ?_
      split
      · exact idleStop_finds hsat
      · refine wp_finds_silent .now trivial fun w₄ h₄ => ?_
        refine wp_finds_silent (.select _ _) trivial fun w₅ h₅ => ?_
        have hret₅ : Retained w₅.feed clocked :=
          (((hret₁.grow h₂).grow h₃).grow h₄).grow h₅
        dsimp only [act]
        rcases hwake : w₅.woken clocked with _ | _ | _
        · exact idleStop_finds hwrap
        · simp only [Prog.perform_bind, wp_call]
          intro w₆ h₆
          dsimp only [act]
          have hne := (hret₅.grow h₆).readFrom_ne
            ((World.woken_data hwake).trans_le (Feed.Grows.end_le h₆)) (Nat.sub_pos_of_lt hroom)
          refine wp_ite (fun h => absurd (List.isEmpty_iff.1 h) hne) fun _ => ?_
          have hfound : ¬Flushed [⟨.readFrom clocked (drv.maxBytes - drv.acc.returnedBytes.length),
              w₆.feed.ring.readFrom clocked (drv.maxBytes - drv.acc.returnedBytes.length)⟩] := by
            rintro ⟨cursor, n, s, hmem, -, hs⟩
            cases List.mem_singleton.1 hmem
            exact hne hs
          exact wp_mono (fun _ _ _ hf => FindsData.after hf hfound)
            (processLiveChunk_finds (readFrom_retained w₆.feed clocked _))
        · refine ⟨not_flushed rfl, ?_⟩
          rintro drv' clocked' ⟨⟩
          exact hret₅
  · refine wp_finds_silent (.sleep 50) trivial fun w₂ h₂ => ?_
    refine ⟨not_flushed rfl, ?_⟩
    rintro drv' clocked' ⟨⟩
    exact hret₁.grow h₂
  · exact idleStop_finds hwrap

end

/-! ## Runs of the loop -/

section
variable {R : World → World → Prop} {req : ReadRequest} {d₀ : Option FrameDecoder} {c t : ℕ}
  {w₀ w : World} {drv drv₀ : ReadDriver} {s₀ : RingSlice} {clocked : ℕ}

/-- **Run**: a loop that begins at its head is still there after its turns, or
    an iteration stopped it. -/
theorem runWait_iterates (turns : ℕ) (hi : Iterates R drv₀ s₀ w₀ drv clocked w) :
    wp act R (runWait turns drv clocked) (fun _ w' r =>
      (r = .error .waiting ∧ ∃ drv' clocked', Iterates R drv₀ s₀ w₀ drv' clocked' w') ∨
      (∃ out, r = .ok out) ∧ ∃ drv' clocked' w₁ tr w₂ drv'' compl,
        Iterates R drv₀ s₀ w₀ drv' clocked' w₁ ∧
        Runs act R w₁ (waitOnce drv' clocked') tr w₂ (.stop drv'' compl)) w := by
  induction turns generalizing drv clocked w with
  | zero => exact .inl ⟨rfl, drv, clocked, hi⟩
  | succ turns ih =>
    refine (wp_bind _ _ _ _).2 (wp_iff.2 fun tr w₁ step hrun => ?_)
    cases step with
    | again drv₁ clocked₁ => exact ih (hi.turn hrun)
    | stop drv₁ compl =>
      intro w₂ h₂ w₃ h₃ w₄ h₄ w₅ h₅ w₆ h₆
      exact .inr ⟨⟨_, rfl⟩, drv, clocked, w, tr, w₁, drv₁, compl, hi, hrun⟩

/-- A read that is still waiting is at the head of the loop of its request. -/
theorem readFromPrivateCursor_iterates (crates : Crates) (turns : ℕ) :
    wp act R (readFromPrivateCursor crates turns req c) (fun _ w' r => r = .error .waiting →
      ∃ d t w₀ drv clocked, buildDecoder crates req = .ok d ∧
        Iterates R (req.driver c t d) (w₀.feed.ring.readFrom c req.maxBytes) w₀ drv clocked w') w := by
  simp only [readFromPrivateCursor, Prog.perform_bind, wp_call]
  intro w₁ h₁ w₂ h₂
  dsimp only [act]
  rcases hd : buildDecoder crates req with e | d
  · exact nofun
  · refine (wp_bind _ _ _ _).2 (wp_iff.2 fun tr w₃ decision hrun => ?_)
    rcases decision with e | drv | ⟨drv, compl⟩ | ⟨out, final⟩
    · have hends := (hrun.wp (processInitial_enters (readFrom_within w₂.feed c req.maxBytes).1)).ends
      rintro ⟨⟩
      exact absurd rfl hends
    · refine wp_mono ?_ (runWait_iterates turns (.enter hrun))
      rintro tr' w' r (⟨-, drv', clocked', hi⟩ | ⟨⟨out, rfl⟩, -⟩) hwaiting
      · exact ⟨d, w₁.now, w₂, drv', clocked', rfl, hi⟩
      · cases hwaiting
    · intro w₄ h₄ w₅ h₅ w₆ h₆ w₇ h₇ w₈ h₈
      exact nofun
    · exact nofun

end

/-! ## Room for data -/

/-- The iteration waited: for a reconnect, or until the timer woke it. -/
def Waited (tr : List RxEvent) : Prop := Pauses tr ∨ Woke .poll tr

/-- The loop of a read never spins: it has room for a byte when an iteration
    begins, and an iteration that does not stop waited or took bytes, unless
    they were flushed. -/
structure NeverSpins (R : World → World → Prop) (drv₀ : ReadDriver) (s₀ : RingSlice) (w₀ : World) :
    Prop where
  room : ∀ {drv clocked w}, Iterates R drv₀ s₀ w₀ drv clocked w →
    drv.acc.returnedBytes.length < drv.maxBytes
  moves : ∀ {drv clocked w tr w' drv' clocked'}, Iterates R drv₀ s₀ w₀ drv clocked w →
    Runs act R w (waitOnce drv clocked) tr w' (.again drv' clocked') → ¬Flushed tr →
    Waited tr ∨ drv.acc.returnedBytes.length < drv'.acc.returnedBytes.length

section
variable {R : World → World → Prop} (hrefl : ∀ w, R w w)
  (htrans : ∀ w w' w'', R w w' → R w' w'' → R w w'') {drv₀ : ReadDriver} {s₀ : RingSlice}
  {w₀ : World}

include hrefl htrans in
theorem Iterates.room {drv : ReadDriver} {clocked : ℕ} {w : World}
    (hi : Iterates R drv₀ s₀ w₀ drv clocked w)
    (henter : ∀ tr w drv, Runs act R w₀ (processInitial drv₀ s₀) tr w (.ok (.continue drv)) →
      drv.acc.returnedBytes.length < drv.maxBytes) :
    drv.acc.returnedBytes.length < drv.maxBytes := by
  induction hi with
  | enter h => exact henter _ _ _ h
  | turn hi h ih =>
    have hround := h.wp (waitOnce_rounds hrefl htrans) _ _ rfl
    rw [hround.maxBytes]
    exact hround.room ih

/-- **Reaching `max_bytes` ends a read** exactly if its initial slice, when it
    decides nothing, leaves room: counted twice with a matcher and a decoder. -/
theorem never_spins_iff (req : ReadRequest) (d₀ : Option FrameDecoder) (c t : ℕ) (w₀ : World)
    (hrefl : ∀ w, R w w) (htrans : ∀ w w' w'', R w w' → R w' w'' → R w w'') :
    NeverSpins R (req.driver c t d₀) (w₀.feed.ring.readFrom c req.maxBytes) w₀ ↔
      (Undecided req d₀ (w₀.feed.ring.readFrom c req.maxBytes) →
        initialCount req d₀ (w₀.feed.ring.readFrom c req.maxBytes) < req.maxBytes) := by
  have henters : wp act R (processInitial (req.driver c t d₀)
      (w₀.feed.ring.readFrom c req.maxBytes)) (fun _ _ => EntersIff req d₀ t _) w₀ :=
    processInitial_enters (readFrom_within w₀.feed c req.maxBytes).1
  constructor
  · intro h hundecided
    obtain ⟨tr, w, decision, hrun⟩ : ∃ tr w decision, Runs act R w₀ (processInitial
        (req.driver c t d₀) (w₀.feed.ring.readFrom c req.maxBytes)) tr w decision :=
      ⟨_, _, _, run_runs hrefl _ [] w₀ nofun⟩
    have hiff := hrun.wp henters
    obtain ⟨drv, rfl⟩ := hiff.goesOn hundecided
    have henter := hiff.enters drv rfl
    have hroom := h.room (.enter hrun)
    rwa [henter.count, henter.maxBytes] at hroom
  · intro hcount
    have hroom {drv : ReadDriver} {clocked : ℕ} {w : World} (hi : Iterates R (req.driver c t d₀)
        (w₀.feed.ring.readFrom c req.maxBytes) w₀ drv clocked w) :
        drv.acc.returnedBytes.length < drv.maxBytes := by
      refine hi.room hrefl htrans fun tr w drv hrun => ?_
      have henter := (hrun.wp henters).enters drv rfl
      rw [henter.count, henter.maxBytes]
      exact hcount henter.undecided
    refine ⟨hroom, ?_⟩
    intro drv clocked w tr w' drv' clocked' hi hrun hflush
    cases (hrun.wp (waitOnce_rounds hrefl htrans) _ _ rfl).goes with
    | paused hp => exact .inl (.inl hp)
    | @woken w₁ w₂ wake h₁ hahead h₂ hwake hwoke hne hgrew =>
      rcases wake with _ | _ | _
      · exact absurd rfl hne
      · exact .inr ((hgrew rfl (hroom hi)).resolve_right hflush)
      · exact .inl (.inr hwoke)

end

section
variable {drv₀ drv : ReadDriver} {c n clocked : ℕ} {w₀ w w' : World} {tr : List RxEvent}
  {step : WaitStep}

/-- In a loop with room the ring holds what the clocked cursor waits for. -/
theorem Iterates.retained (h : NeverSpins Rely drv₀ (w₀.feed.ring.readFrom c n) w₀)
    (hi : Iterates Rely drv₀ (w₀.feed.ring.readFrom c n) w₀ drv clocked w) :
    Retained w.feed clocked := by
  induction hi with
  | enter hrun => exact (readFrom_retained w₀.feed c n).grow (runs_rely hrun)
  | turn hi hrun ih => exact (hrun.wp (waitOnce_finds (h.room hi) ih)).2 _ _ rfl

/-- **Only a flush** takes the bytes away that had woken an iteration. -/
theorem NeverSpins.not_flushed (h : NeverSpins Rely drv₀ (w₀.feed.ring.readFrom c n) w₀)
    (hi : Iterates Rely drv₀ (w₀.feed.ring.readFrom c n) w₀ drv clocked w)
    (hrun : Runs act Rely w (waitOnce drv clocked) tr w' step) : ¬Flushed tr :=
  (hrun.wp (waitOnce_finds (h.room hi) (hi.retained h))).1

end

/-- A raw read of four bytes, or until `"ok"` is found. -/
def fourBytes : ReadRequest := { maxBytes := 4, matcher := some (.new (.literal okMarker) none) }

/-- Three bytes of history leave room for a fourth. -/
theorem never_spins_three : NeverSpins Rely (fourBytes.driver 0 0 none)
    ((World.opened (Feed.eight.push [1, 2, 3])).feed.ring.readFrom 0 4)
    (World.opened (Feed.eight.push [1, 2, 3])) :=
  (never_spins_iff fourBytes none 0 0 _ Rely.refl fun _ _ _ => Rely.trans).2 fun _ => by decide

/-- Five bytes, of which four are the history, and the ring reports data. -/
def fiveBuffered : World := { World.opened (Feed.eight.push [1, 2, 3, 4, 5]) with wake := .data }

/-- Four bytes of history without a match: the iteration goes round with
    nothing taken. -/
theorem full_history_spins : ¬NeverSpins Rely (fourBytes.driver 0 0 none)
    (fiveBuffered.feed.ring.readFrom 0 4) fiveBuffered := by
  intro h
  have hruns : ∃ drv tr tr' s, Runs act Rely fiveBuffered (processInitial (fourBytes.driver 0 0 none)
      (fiveBuffered.feed.ring.readFrom 0 4)) tr fiveBuffered (.ok (.continue drv)) ∧
      Runs act Rely fiveBuffered (waitOnce drv 4) tr' fiveBuffered (.again drv 4) ∧
      tr' = [⟨.connState, .opened⟩, ⟨.now, 0⟩, ⟨.now, 0⟩, ⟨.now, 0⟩, ⟨.select 4 250, .data⟩,
        ⟨.readFrom 4 0, s⟩] :=
    ⟨_, _, _, _, runs_of_run Rely.refl [] (by simp) rfl, runs_of_run Rely.refl [] (by simp) rfl, rfl⟩
  obtain ⟨drv, tr, tr', s, henter, hrun, rfl⟩ := hruns
  have hflush : ¬Flushed [⟨.connState, .opened⟩, ⟨.now, 0⟩, ⟨.now, 0⟩, ⟨.now, 0⟩,
      ⟨.select 4 250, .data⟩, ⟨.readFrom 4 0, s⟩] := by
    rintro ⟨cursor, n, s', hmem, hn, -⟩
    simp at hmem
    omega
  rcases h.moves (.enter henter) hrun hflush with (hpaused | ⟨cursor, ms, hpolled⟩) | hgrew
  · simp [Pauses] at hpaused
  · simp at hpolled
  · exact absurd hgrew (Nat.lt_irrefl _)

/-! ## Cancellation and the timeout -/

/-- Time passes, and a token that has fired stays fired; the rest may change in
    any way. -/
def Ticks (w w' : World) : Prop := w.now ≤ w'.now ∧ (w.cancelled = true → w'.cancelled = true)

theorem Ticks.refl (w : World) : Ticks w w := ⟨Nat.le_refl _, id⟩

theorem Ticks.trans (w w' w'' : World) (h : Ticks w w') (h' : Ticks w' w'') : Ticks w w'' :=
  ⟨h.1.trans h'.1, h'.2 ∘ h.2⟩

/-- The `timeout_ms` of `build_read_result`. -/
def reportedTimeoutMs (req : ReadRequest) : ℕ := req.timeoutMs.getD defaultReadTimeoutMs

/-- The iteration ended the call. -/
def WaitStep.Ends (step : WaitStep) : Prop := ∃ drv compl, step = .stop drv compl

/-- An iteration of a read started at `t` heeds a token that fired before it,
    and the reported timeout unless it paused for a reconnect. -/
structure Heeds (req : ReadRequest) (t : ℕ) (w : World) (tr : List RxEvent) (step : WaitStep) :
    Prop where
  cancellation : w.cancelled = true → step.Ends
  timeout : t + fromMillis (reportedTimeoutMs req) ≤ w.now → ¬Pauses tr → step.Ends

theorem Iterates.deadline {R : World → World → Prop} (hrefl : ∀ w, R w w)
    (htrans : ∀ w w' w'', R w w' → R w' w'' → R w w'') {req : ReadRequest} {d₀ : Option FrameDecoder}
    {c t clocked : ℕ} {s₀ : RingSlice} {w₀ w : World} {drv : ReadDriver}
    (hlen : s₀.bytes.length ≤ req.maxBytes)
    (hi : Iterates R (req.driver c t d₀) s₀ w₀ drv clocked w) :
    drv.ctrl.deadline = req.timeoutMs.map fun ms => t + fromMillis ms := by
  induction hi with
  | enter h => exact ((h.wp (processInitial_enters hlen)).enters _ rfl).deadline
  | turn hi h ih => rw [(h.wp (waitOnce_rounds hrefl htrans) _ _ rfl).deadline, ih]

/-- **A read does not wait past cancellation and its timeout**, in an iteration
    that is not paused for a reconnect and not woken by data once the token has
    fired, if the timeout was given. -/
theorem iteration_heeds {req : ReadRequest} {d₀ : Option FrameDecoder} {c t clocked : ℕ}
    {w₀ w w' : World} {drv : ReadDriver} {tr : List RxEvent} {step : WaitStep}
    (hi : Iterates Ticks (req.driver c t d₀) (w₀.feed.ring.readFrom c req.maxBytes) w₀ drv clocked w)
    (hrun : Runs act Ticks w (waitOnce drv clocked) tr w' step)
    (hcancel : w.cancelled = true → ¬Pauses tr ∧ ¬Woke .data tr)
    (htimeout : t + fromMillis (reportedTimeoutMs req) ≤ w.now → req.timeoutMs.isSome = true) :
    Heeds req t w tr step := by
  have hround := hrun.wp (waitOnce_rounds Ticks.refl Ticks.trans)
  rcases step with ⟨drv', clocked'⟩ | ⟨drv', compl⟩
  · have hgoes := (hround drv' clocked' rfl).goes
    refine ⟨fun hfired => ?_, fun hlate hactive => ?_⟩
    · obtain ⟨hactive, hquiet⟩ := hcancel hfired
      cases hgoes with
      | paused hp => exact absurd hp hactive
      | @woken w₁ w₂ wake h₁ hahead h₂ hwake hwoke hne hgrew =>
        rcases wake with _ | _ | _
        · exact absurd rfl hne
        · exact absurd hwoke hquiet
        · -- the timer does not win against a token that has fired
          have hfired₂ := h₂.2 (h₁.2 hfired)
          rw [World.woken_poll hwake] at hfired₂
          cases hfired₂
    · cases hgoes with
      | paused hp => exact absurd hp hactive
      | @woken w₁ w₂ wake h₁ hahead h₂ hwake hwoke hne hgrew =>
        obtain ⟨ms, hms⟩ := Option.isSome_iff_exists.1 (htimeout hlate)
        have hdeadline := hi.deadline Ticks.refl Ticks.trans (readFrom_within w₀.feed c _).1
        rw [hms, Option.map_some] at hdeadline
        rw [reportedTimeoutMs, hms, Option.getD_some] at hlate
        -- the deadline check comes later and finds the deadline passed
        have hpassed : t + fromMillis ms ≤ w₁.now := hlate.trans h₁.1
        simp only [RxStopController.checkTimeout, hdeadline, if_pos hpassed] at hahead
        cases hahead
  · exact ⟨fun _ => ⟨drv', compl, rfl⟩, fun _ _ => ⟨drv', compl, rfl⟩⟩

/-- Nothing received, and the token has fired. -/
def cancelledAlready : World := { World.opened .four with cancelled := true }

/-- A cancelled read with a timeout ends. -/
theorem iteration_heeds_cancelled : ∃ drv tr w' step,
    Iterates Ticks ({ fourBytes with timeoutMs := some 500 }.driver 0 0 none)
      (cancelledAlready.feed.ring.readFrom 0 4) cancelledAlready drv 0 cancelledAlready ∧
    Runs act Ticks cancelledAlready (waitOnce drv 0) tr w' step ∧ step.Ends := by
  have hruns : ∃ drv tr tr' w' step, Runs act Ticks cancelledAlready
      (processInitial ({ fourBytes with timeoutMs := some 500 }.driver 0 0 none)
        (cancelledAlready.feed.ring.readFrom 0 4)) tr cancelledAlready (.ok (.continue drv)) ∧
      Runs act Ticks cancelledAlready (waitOnce drv 0) tr' w' step ∧
      tr' = [⟨.connState, .opened⟩, ⟨.now, 0⟩, ⟨.now, 0⟩, ⟨.now, 0⟩, ⟨.select 0 250, .cancelled⟩,
        ⟨.endOffset, 0⟩] :=
    ⟨_, _, _, _, _, runs_of_run Ticks.refl [] (by simp) rfl, runs_of_run Ticks.refl [] (by simp) rfl,
      rfl⟩
  obtain ⟨drv, tr, tr', w', step, henter, hrun, rfl⟩ := hruns
  have hi : Iterates Ticks ({ fourBytes with timeoutMs := some 500 }.driver 0 0 none)
      (cancelledAlready.feed.ring.readFrom 0 4) cancelledAlready drv 0 cancelledAlready := .enter henter
  refine ⟨drv, _, w', step, hi, hrun, (iteration_heeds hi hrun (fun _ => ⟨?_, ?_⟩) ?_).cancellation rfl⟩
  · simp [Pauses]
  · simp [Woke]
  · exact fun _ => rfl

/-- A device that is being waited for, and the token has fired. -/
def cancelledReconnecting : World :=
  { World.opened .four with cancelled := true, connection := .reconnecting, reconnectEnabled := true }

/-- A second passes. -/
def World.second (w : World) : World := { w with now := w.now + fromMillis 1000 }

theorem ticks_second : ∀ e ∈ [id, id, id, id, World.second], ∀ w, Ticks w (e w) := by
  intro e he w
  simp only [List.mem_cons, List.not_mem_nil, or_false, or_self_left] at he
  rcases he with rfl | rfl
  · exact Ticks.refl w
  · exact ⟨Nat.le_add_right .., id⟩

/-- A cancelled read pauses for a reconnect; a read without a timeout goes on
    past the second that it reports as its timeout. -/
theorem iteration_goes_on :
    (∃ drv clocked w tr w' step, Iterates Ticks (fourBytes.driver 0 0 none)
      (cancelledReconnecting.feed.ring.readFrom 0 4) cancelledReconnecting drv clocked w ∧
      Runs act Ticks w (waitOnce drv clocked) tr w' step ∧ w.cancelled = true ∧ ¬step.Ends) ∧
    ∃ drv clocked w tr w' step, Iterates Ticks (fourBytes.driver 0 0 none)
      ((World.opened .four).feed.ring.readFrom 0 4) (World.opened .four) drv clocked w ∧
      Runs act Ticks w (waitOnce drv clocked) tr w' step ∧
      0 + fromMillis (reportedTimeoutMs fourBytes) ≤ w.now ∧ ¬Pauses tr ∧ ¬step.Ends := by
  have hagain {drv : ReadDriver} {clocked : ℕ} : ¬(WaitStep.again drv clocked).Ends := by
    rintro ⟨drv', compl, hstep⟩
    cases hstep
  constructor
  · have hruns : ∃ drv drv' tr tr', Runs act Ticks cancelledReconnecting
        (processInitial (fourBytes.driver 0 0 none) (cancelledReconnecting.feed.ring.readFrom 0 4))
        tr cancelledReconnecting (.ok (.continue drv)) ∧
        Runs act Ticks cancelledReconnecting (waitOnce drv 0) tr' cancelledReconnecting
          (.again drv' 0) :=
      ⟨_, _, _, _, runs_of_run Ticks.refl [] (by simp) rfl, runs_of_run Ticks.refl [] (by simp) rfl⟩
    obtain ⟨drv, drv', tr, tr', henter, hrun⟩ := hruns
    exact ⟨drv, 0, _, tr', _, _, .enter henter, hrun, rfl, hagain⟩
  · have hruns : ∃ drv tr tr' tr'' w', Runs act Ticks (World.opened .four)
        (processInitial (fourBytes.driver 0 0 none) ((World.opened .four).feed.ring.readFrom 0 4))
        tr (World.opened .four) (.ok (.continue drv)) ∧
        Runs act Ticks (World.opened .four) (waitOnce drv 0) tr' (World.opened .four).second
          (.again drv 0) ∧
        Runs act Ticks (World.opened .four).second (waitOnce drv 0) tr'' w' (.again drv 0) ∧
        ∃ t ms, tr'' = [⟨.connState, .opened⟩, ⟨.now, t⟩, ⟨.now, t⟩, ⟨.now, t⟩,
          ⟨.select 0 ms, .poll⟩] :=
      ⟨_, _, _, _, _, runs_of_run Ticks.refl [] (by simp) rfl,
        runs_of_run Ticks.refl _ ticks_second rfl, runs_of_run Ticks.refl [] (by simp) rfl, _, _, rfl⟩
    obtain ⟨drv, tr, tr', tr'', w', henter, hfirst, hrun, t, ms, rfl⟩ := hruns
    refine ⟨drv, 0, _, _, w', _, (Iterates.enter henter).turn hfirst, hrun, ?_, ?_, hagain⟩
    · show 0 + fromMillis 1000 ≤ 0 + fromMillis 1000
      exact Nat.le_refl _
    · simp [Pauses]

end SerialMcp
