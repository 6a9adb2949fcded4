/-
  Stop metadata and stop decisions of RX operations (`rx_metadata.rs`,
  `stop_controller.rs`).

  Instants are counted in nanoseconds; a check that reads the clock takes the
  time it reads as an argument.
-/
import SerialMcp.Matcher

namespace SerialMcp

/-! ## Stop metadata -/

/-- Canonical reason an RX operation stopped. -/
inductive RxStopReason where
  | dataComplete
  | timeout
  | matchFound
  | maxBufferedBytes
  | noNewRxTimeout
  | connectionClosed
  | cancelled
  | maxFrames
  | framingError
  | drained
  deriving DecidableEq, Repr

/-- Structured metadata attached to every RX operation result. -/
structure RxStopMetadata where
  stopReason : RxStopReason
  truncated : Bool
  bytesObserved : ℕ
  bytesReturned : ℕ
  deriving DecidableEq, Repr

namespace RxStopMetadata

/-- The constructors that report both counters and compare them. -/
def counted (stopReason : RxStopReason) (bytesObserved bytesReturned : ℕ) : RxStopMetadata :=
  ⟨stopReason, bytesReturned < bytesObserved, bytesObserved, bytesReturned⟩

def matchFound : ℕ → ℕ → RxStopMetadata := counted .matchFound

def maxBufferedBytes : ℕ → ℕ → RxStopMetadata := counted .maxBufferedBytes

def connectionClosed : ℕ → ℕ → RxStopMetadata := counted .connectionClosed

def timeout (bytesObserved : ℕ) : RxStopMetadata := ⟨.timeout, false, bytesObserved, bytesObserved⟩

def noNewRxTimeout (bytesObserved : ℕ) : RxStopMetadata :=
  ⟨.noNewRxTimeout, false, bytesObserved, bytesObserved⟩

def cancelled : RxStopMetadata := ⟨.cancelled, false, 0, 0⟩

def maxFrames (bytesObserved bytesReturned : ℕ) : RxStopMetadata :=
  ⟨.maxFrames, false, bytesObserved, bytesReturned⟩

def framingError (bytesObserved : ℕ) : RxStopMetadata := ⟨.framingError, false, bytesObserved, 0⟩

/-- `drained` reports the bytes returned as the bytes observed. -/
def drained (_endOffset _bytesObserved bytesReturned : ℕ) : RxStopMetadata :=
  ⟨.drained, false, bytesReturned, bytesReturned⟩

/-- `with_bytes` -/
def withBytes (m : RxStopMetadata) (observed returned : ℕ) : RxStopMetadata :=
  { m with bytesObserved := observed, bytesReturned := returned, truncated := returned < observed }

end RxStopMetadata

/-! ## The controller -/

/-- Outcome produced when a stop condition triggers. -/
structure RxStopOutcome where
  metadata : RxStopMetadata
  matched : Bool
  matchIndex : Option ℕ
  deriving DecidableEq, Repr

/-- `Duration::from_millis`, in nanoseconds. -/
def fromMillis (ms : ℕ) : ℕ := ms * 1000000

/-- `Duration::as_millis` -/
def asMillis (ns : ℕ) : ℕ := ns / 1000000

/-- Shared stop-decision controller for all RX operations. -/
structure RxStopController where
  deadline : Option ℕ
  silenceDuration : Option ℕ
  silenceDeadline : Option ℕ
  maxBytes : ℕ
  bytesObserved : ℕ
  bytesReturned : ℕ
  matched : Bool
  matchIndex : Option ℕ
  deriving DecidableEq, Repr

namespace RxStopController

/-- `RxStopController::new` -/
def new (start : ℕ) (timeoutMs : Option ℕ) (maxBytes : ℕ) (noNewRxTimeoutMs : Option ℕ) :
    RxStopController where
  deadline := timeoutMs.map fun ms => start + fromMillis ms
  silenceDuration := noNewRxTimeoutMs.map fromMillis
  silenceDeadline := noNewRxTimeoutMs.map fun ms => start + fromMillis ms
  maxBytes := maxBytes
  bytesObserved := 0
  bytesReturned := 0
  matched := false
  matchIndex := none

/-- A stop with the controller's own match state. -/
def stop (ctrl : RxStopController) (m : RxStopMetadata) : RxStopOutcome :=
  ⟨m, ctrl.matched, ctrl.matchIndex⟩

/-- `check_timeout` at time `now` -/
def checkTimeout (ctrl : RxStopController) (now : ℕ) : Option RxStopOutcome :=
  match ctrl.deadline with
  | some dl =>
    if dl ≤ now then some (ctrl.stop ((RxStopMetadata.timeout ctrl.bytesObserved).withBytes
      ctrl.bytesObserved ctrl.bytesReturned))
    else none
  | none => none

/-- `check_silence_timeout` at time `now` -/
def checkSilenceTimeout (ctrl : RxStopController) (now : ℕ) : Option RxStopOutcome :=
  match ctrl.silenceDeadline with
  | some dl =>
    if dl ≤ now then some (ctrl.stop ((RxStopMetadata.noNewRxTimeout ctrl.bytesObserved).withBytes
      ctrl.bytesObserved ctrl.bytesReturned))
    else none
  | none => none

theorem checkTimeout_some {ctrl : RxStopController} {now : ℕ} {o : RxStopOutcome}
    (h : ctrl.checkTimeout now = some o) :
    o.metadata.stopReason = .timeout ∧ o.matched = ctrl.matched := by
  unfold checkTimeout at h
  split at h
  · split at h
    · cases h
      exact ⟨rfl, rfl⟩
    · cases h
  · cases h

theorem checkSilenceTimeout_some {ctrl : RxStopController} {now : ℕ} {o : RxStopOutcome}
    (h : ctrl.checkSilenceTimeout now = some o) :
    o.metadata.stopReason = .noNewRxTimeout ∧ o.matched = ctrl.matched := by
  unfold checkSilenceTimeout at h
  split at h
  · split at h
    · cases h
      exact ⟨rfl, rfl⟩
    · cases h
  · cases h

/-- `notify_data_received` and `reset_silence_timer` at time `now`; without a
    silence duration there is no silence deadline either. -/
def resetSilenceTimer (ctrl : RxStopController) (now : ℕ) : RxStopController :=
  { ctrl with silenceDeadline := ctrl.silenceDuration.map fun dur => now + dur }

/-- `push_data` -/
def pushData (ctrl : RxStopController) (chunkLen bufferedLen : ℕ)
    (matchResult : Option MatchResult) : Option RxStopOutcome × RxStopController :=
  let ctrl := { ctrl with bytesObserved := ctrl.bytesObserved + chunkLen,
                          bytesReturned := bufferedLen }
  match matchResult with
  | some (.found idx) =>
    let ctrl := { ctrl with matched := true, matchIndex := some idx }
    (some (ctrl.stop (.matchFound ctrl.bytesObserved ctrl.bytesReturned)), ctrl)
  | _ =>
    if 0 < ctrl.maxBytes ∧ ctrl.maxBytes ≤ bufferedLen then
      (some (ctrl.stop (.maxBufferedBytes ctrl.bytesObserved ctrl.bytesReturned)), ctrl)
    else (none, ctrl)

/-- A controller for `maxBytes` bytes that has seen no match. -/
structure Unmatched (ctrl : RxStopController) (maxBytes : ℕ) : Prop where
  matched : ctrl.matched = false
  matchIndex : ctrl.matchIndex = none
  maxBytes : ctrl.maxBytes = maxBytes

/-- What `push_data` can decide. -/
theorem pushData_cases (ctrl : RxStopController) (chunkLen bufferedLen : ℕ)
    (matchResult : Option MatchResult) :
    (∃ ctrl', ctrl.pushData chunkLen bufferedLen matchResult = (none, ctrl') ∧
      (∀ n, ctrl.Unmatched n → ctrl'.Unmatched n) ∧
      (∀ idx, matchResult ≠ some (.found idx)) ∧
      ¬(0 < ctrl.maxBytes ∧ ctrl.maxBytes ≤ bufferedLen)) ∨
    (∃ ctrl' observed, (0 < ctrl.maxBytes ∧ ctrl.maxBytes ≤ bufferedLen) ∧
      ctrl.pushData chunkLen bufferedLen matchResult =
        (some ⟨.maxBufferedBytes observed bufferedLen, ctrl.matched, ctrl.matchIndex⟩, ctrl')) ∨
    (∃ idx ctrl' observed, matchResult = some (.found idx) ∧
      ctrl.pushData chunkLen bufferedLen matchResult =
        (some ⟨.matchFound observed bufferedLen, true, some idx⟩, ctrl')) := by
  rcases matchResult with _ | _ | idx
  · by_cases h : 0 < ctrl.maxBytes ∧ ctrl.maxBytes ≤ bufferedLen
    · exact .inr (.inl ⟨_, _, h, if_pos h⟩)
    · exact .inl ⟨_, if_neg h, fun _ hu => ⟨hu.1, hu.2, hu.3⟩, by simp, h⟩
  · by_cases h : 0 < ctrl.maxBytes ∧ ctrl.maxBytes ≤ bufferedLen
    · exact .inr (.inl ⟨_, _, h, if_pos h⟩)
    · exact .inl ⟨_, if_neg h, fun _ hu => ⟨hu.1, hu.2, hu.3⟩, by simp, h⟩
  · exact .inr (.inr ⟨idx, _, _, rfl, rfl⟩)

theorem Unmatched.pushData {ctrl : RxStopController} {n : ℕ} (h : ctrl.Unmatched n)
    (chunkLen bufferedLen : ℕ) :
    (ctrl.pushData chunkLen bufferedLen (some .noMatch)).2.Unmatched n := by
  simp only [RxStopController.pushData]
  split <;> exact ⟨h.1, h.2, h.3⟩

theorem Unmatched.resetSilenceTimer {ctrl : RxStopController} {n : ℕ} (h : ctrl.Unmatched n)
    (now : ℕ) : (ctrl.resetSilenceTimer now).Unmatched n := ⟨h.1, h.2, h.3⟩

/-- `connection_closed` -/
def connectionClosed (ctrl : RxStopController) : RxStopOutcome :=
  ctrl.stop (.connectionClosed ctrl.bytesObserved ctrl.bytesReturned)

/-- `cancelled` -/
def cancelled (ctrl : RxStopController) : RxStopOutcome :=
  ctrl.stop (RxStopMetadata.cancelled.withBytes ctrl.bytesObserved ctrl.bytesReturned)

/-- `framing_error` -/
def framingError (ctrl : RxStopController) : RxStopOutcome :=
  ⟨.framingError ctrl.bytesObserved, false, none⟩

end RxStopController

end SerialMcp
