/-
  `capture_boot` (`tools/control_ops.rs`) on a connection with its RX pump
  (`rx_session.rs`), interleaved at the awaits with anything else.

  A capture holds the control lock over its reset pulse, and the pump gate from
  before it purges the input buffer of the port until it has marked the ring's end
  and asserted the lines.  The pump holds the gate over one read and append.  When a
  capture ends or is dropped, its locals are dropped in the reverse order: an armed
  `ResetReleaseGuard` spawns the release of the lines (there is a runtime to spawn it
  on), then the gate and the control lock are given back.

  A capture with arguments that are refused ends before it takes a lock.  A chunk
  that would take the ring past `2 ^ 64` bytes is never appended.

  * `World.pumped`: the bytes that the pump has read from the port, in order;
  * `World.lines`: the attempts to set the lines, in order;
  * `Task.step`: the tasks of a connection, with the drops of their futures.
-/
import SerialMcp.Lib.Tasks
import SerialMcp.Pump

namespace SerialMcp.Capture

open Tasks Interact

/-! ## The connection -/

/-- `CaptureBootReset`, but for the time of the hold. -/
structure Reset where
  assertDtr : Bool
  assertRts : Bool
  releaseDtr : Bool
  releaseRts : Bool
  deriving DecidableEq, Repr

/-- Who sets the lines. -/
inductive Caller where
  /-- a capture, before its hold -/
  | assert (id : ℕ) (reset : Reset)
  /-- the capture itself, behind its hold -/
  | release (id : ℕ) (reset : Reset)
  /-- the task that the release guard of a capture has spawned -/
  | cleanup (id : ℕ) (reset : Reset)
  /-- the tool `set_dtr_rts` -/
  | tool
  deriving DecidableEq, Repr

/-- What an operation on the port answers. -/
inductive Answer where
  | ok
  /-- an error of the port; some of the lines may be set -/
  | failed
  /-- `ConnectionClosed`: closed, or without a port -/
  | closed
  deriving DecidableEq, Repr

/-- `set_dtr_rts_unlocked` -/
structure LineCommand where
  caller : Caller
  dtr : Bool
  rts : Bool
  answer : Answer
  deriving DecidableEq, Repr

/-- A mark of a capture. -/
structure Mark where
  offset : ℕ
  /-- how many bytes the pump had read when the input buffer was purged -/
  purged : ℕ
  deriving DecidableEq, Repr

structure World where
  link : Link
  /-- whether there is a port in `io` -/
  io : Bool
  pumpGate : Bool
  controlLock : Bool
  /-- the bytes that the pump has read from the port -/
  pumped : Bytes
  marks : List Mark
  lines : List LineCommand
  /-- the resets begun so far -/
  resets : ℕ

/-- The bytes appended to the ring. -/
def World.stream (w : World) : Bytes := w.link.rx.feed.stream

/-- The answers that an operation on the port can get. -/
def World.answers (w : World) : Answer → Bool
  -- `ensure_open` may have passed before a close
  | .ok | .failed => w.io
  | .closed => w.link.isClosed || !w.io

/-- An attempt to set the lines. -/
def World.set (w : World) (caller : Caller) (dtr rts : Bool) (answer : Answer) : World :=
  { w with lines := w.lines ++ [⟨caller, dtr, rts, answer⟩] }

/-- One operation of a task on the connection. -/
def World.perform (w : World) (op : LinkOp) : World := { w with link := (linkAct op w.link).2 }

/-! ## The tasks -/

/-- The arguments of a capture, as far as they are used behind its checks. -/
structure CaptureArgs where
  reset : Option Reset
  request : ReadRequest
  turns : ℕ

inductive Task where
  /-- the pump, at the top of its loop -/
  | pump
  /-- the pump, at the gate -/
  | pumpWaiting
  /-- the pump, reading, with what its read did so far -/
  | pumpReading (tr : List LinkEvent) (p : LinkProg (Except SerialError Bytes))
  | pumpAppending (bytes : Bytes)
  /-- the pump, at `mark_disconnected` -/
  | pumpMarking
  | pumpPausing (p : LinkProg Bool)
  /-- `capture_boot`, behind its checks -/
  | capture (args : CaptureArgs)
  /-- a capture at the gate -/
  | captureWaiting (args : CaptureArgs)
  | capturePurging (args : CaptureArgs)
  | captureMarking (args : CaptureArgs) (purged : ℕ)
  /-- with the release guard armed -/
  | captureAsserting (id : ℕ) (args : CaptureArgs) (reset : Reset) (mark : ℕ)
  /-- a capture in its hold -/
  | captureHolding (id : ℕ) (args : CaptureArgs) (reset : Reset) (mark : ℕ)
  | captureReleasing (id : ℕ) (args : CaptureArgs) (reset : Reset) (mark : ℕ)
      (cancelled : Bool)
  /-- a capture in its read, with the guard if it is armed -/
  | captureReading (armed : Option (ℕ × Reset)) (p : LinkProg Unit)
  /-- the tool `set_dtr_rts`, at the control lock -/
  | setDtrRts (dtr rts : Bool)
  | settingDtrRts (dtr rts : Bool)
  /-- the task that a release guard has spawned, at the control lock -/
  | cleanup (id : ℕ) (reset : Reset)
  | cleaning (id : ℕ) (reset : Reset)
  /-- reads, writes and the like -/
  | other (p : LinkProg Unit)
  /-- `discard_rx_backlog` of `flush` -/
  | clearing
  | clamping
  /-- the port, the device, the clock and other requests -/
  | outside

inductive Input where
  | turn
  /-- an operation on the port is over -/
  | port (answer : Answer)
  /-- the cancellation token wins -/
  | cancelled
  | dropped
  /-- a change of the connection that leaves the ring alone -/
  | changes (link : Link) (io : Bool)

/-- The release guard is dropped. -/
def cleanups (armed : Option (ℕ × Reset)) : List Task :=
  match armed with
  | some (id, reset) => [.cleanup id reset]
  | none => []

/-- The read of a capture, from its mark on. -/
def captureRead (crates : Crates) (args : CaptureArgs) (mark : ℕ) : LinkProg Unit :=
  forget (onRing (readFromPrivateCursor crates args.turns args.request mark))

section
variable (crates : Crates) (polls : ℕ)

/-- One step of a task. -/
def Task.step : Task → Input → World → Option (World × List Task)
  | .pump, .turn, w => some (w, if w.link.pumpCancelled then [] else [.pumpWaiting])
  | .pumpWaiting, .turn, w =>
    if w.pumpGate then none
    else some ({ w with pumpGate := true },
      [.pumpReading [] (SerialConnection.read polls pumpReadSize (some 100))])
  | .pumpReading tr _, .cancelled, w =>
    -- a read that has its bytes is over
    if w.link.pumpCancelled ∧ inFlight tr = [] then some ({ w with pumpGate := false }, [])
    else none
  | .pumpReading tr (.call op k), .turn, w =>
    let r := (linkAct op w.link).1
    some ({ w.perform op with pumped := w.pumped ++ obtains ⟨op, r⟩ },
      [.pumpReading (tr ++ [⟨op, r⟩]) (k r)])
  | .pumpReading _ (.ret (.ok bytes)), .turn, w =>
    if bytes.isEmpty then some ({ w with pumpGate := false }, [.pump])
    else some (w, [.pumpAppending bytes])
  | .pumpReading _ (.ret (.error e)), .turn, w =>
    if e = .readTimeout then some ({ w with pumpGate := false }, [.pump])
    else if e.isFatal then some (w, [.pumpMarking])
    else some ({ w with pumpGate := false }, [])
  | .pumpAppending bytes, .turn, w =>
    if w.stream.length + bytes.length < u64Size then
      some ({ w.perform (.append bytes) with pumpGate := false }, [.pump])
    else none
  | .pumpMarking, .turn, w =>
    some ({ w.perform .markDisconnected with io := false, pumpGate := false },
      [.pumpPausing (pumpPause polls)])
  | .pumpPausing (.call op k), .turn, w =>
    some (w.perform op, [.pumpPausing (k (linkAct op w.link).1)])
  | .pumpPausing (.ret resumes), .turn, w => some (w, if resumes then [.pump] else [])
  | .capture args, .turn, w =>
    if args.reset.isSome then
      if w.controlLock then none
      else some ({ w with controlLock := true }, [.captureWaiting args])
    else some (w, [.captureWaiting args])
  | .captureWaiting args, .turn, w =>
    if w.pumpGate then none else some ({ w with pumpGate := true }, [.capturePurging args])
  | .capturePurging args, .port answer, w =>
    if w.answers answer = false then none
    else if answer = .ok then
      some ({ w with link := { w.link with osBuffer := [] } },
        [.captureMarking args w.pumped.length])
    else some ({ w with
      pumpGate := false
      controlLock := w.controlLock && args.reset.isNone }, [])
  | .captureMarking args purged, .turn, w =>
    let mark := w.link.rx.feed.ring.endOffset
    match args.reset with
    | none =>
      some ({ w with marks := w.marks ++ [⟨mark, purged⟩], pumpGate := false },
        [.captureReading none (captureRead crates args mark)])
    | some reset =>
      some ({ w with marks := w.marks ++ [⟨mark, purged⟩], resets := w.resets + 1 },
        [.captureAsserting w.resets args reset mark])
  | .captureAsserting id args reset mark, .port answer, w =>
    let set := w.set (.assert id reset) reset.assertDtr reset.assertRts answer
    if w.answers answer = false then none
    else if answer = .ok then
      some ({ set with pumpGate := false }, [.captureHolding id args reset mark])
    else some ({ set with pumpGate := false, controlLock := false }, [.cleanup id reset])
  | .captureHolding id args reset mark, .turn, w =>
    some (w, [.captureReleasing id args reset mark false])
  | .captureHolding id args reset mark, .cancelled, w =>
    some (w, [.captureReleasing id args reset mark true])
  | .captureReleasing id args reset mark cancelled, .port answer, w =>
    let set := w.set (.release id reset) reset.releaseDtr reset.releaseRts answer
    -- `ConnectionClosed` counts as released; any other error leaves the guard armed
    if w.answers answer = false then none
    else if answer = .failed then
      if cancelled then some ({ set with controlLock := false },
        [.captureReading (some (id, reset)) (captureRead crates args mark)])
      else some ({ set with controlLock := false }, [.cleanup id reset])
    else some ({ set with controlLock := false },
      [.captureReading none (captureRead crates args mark)])
  | .captureReading armed (.call op k), .turn, w =>
    some (w.perform op, [.captureReading armed (k (linkAct op w.link).1)])
  | .captureReading armed (.ret ()), .turn, w => some (w, cleanups armed)
  | .capture _, .dropped, w => some (w, [])
  | .captureWaiting args, .dropped, w =>
    some ({ w with controlLock := w.controlLock && args.reset.isNone }, [])
  | .capturePurging args, .dropped, w =>
    some ({ w with pumpGate := false, controlLock := w.controlLock && args.reset.isNone }, [])
  | .captureAsserting id _ reset _, .dropped, w =>
    some ({ w with pumpGate := false, controlLock := false }, [.cleanup id reset])
  | .captureHolding id _ reset _, .dropped, w =>
    some ({ w with controlLock := false }, [.cleanup id reset])
  | .captureReleasing id _ reset _ _, .dropped, w =>
    some ({ w with controlLock := false }, [.cleanup id reset])
  | .captureReading armed _, .dropped, w => some (w, cleanups armed)
  | .setDtrRts dtr rts, .turn, w =>
    if w.controlLock then none
    else some ({ w with controlLock := true }, [.settingDtrRts dtr rts])
  | .settingDtrRts dtr rts, .port answer, w =>
    if w.answers answer then some ({ w.set .tool dtr rts answer with controlLock := false }, [])
    else none
  | .setDtrRts _ _, .dropped, w => some (w, [])
  | .settingDtrRts _ _, .dropped, w => some ({ w with controlLock := false }, [])
  | .cleanup id reset, .turn, w =>
    if w.controlLock then none
    else some ({ w with controlLock := true }, [.cleaning id reset])
  | .cleaning id reset, .port answer, w =>
    if w.answers answer then
      some ({ w.set (.cleanup id reset) reset.releaseDtr reset.releaseRts answer with
        controlLock := false }, [])
    else none
  | .other (.call op k), .turn, w => some (w.perform op, [.other (k (linkAct op w.link).1)])
  | .other (.ret ()), .turn, w => some (w, [])
  | .other _, .dropped, w => some (w, [])
  | .clearing, .turn, w =>
    let feed := w.link.rx.feed
    let cleared : Feed := ⟨feed.ring.clear, feed.stream, RxRing.clear_refines feed.refines⟩
    some ({ w with link := { w.link with rx := { w.link.rx with feed := cleared } } }, [.clamping])
  | .clamping, .turn, w =>
    some (w.perform (.rx (.setReadCursor w.link.rx.feed.ring.endOffset)), [])
  | .outside, .changes link io, w =>
    some ({ w with
      link := { link with rx := { link.rx with
        feed := w.link.rx.feed, readCursor := w.link.rx.readCursor } }
      io }, [])
  | _, _, _ => none

/-- The tasks that can come in. -/
inductive Task.Starts : Task → Prop
  | pump : Task.Starts .pump
  | capture (args : CaptureArgs) : Task.Starts (.capture args)
  | setDtrRts (dtr rts : Bool) : Task.Starts (.setDtrRts dtr rts)
  | other {p : LinkProg Unit} (h : SerialMcp.Task crates p) : Task.Starts (.other p)
  | clearing : Task.Starts .clearing
  | outside : Task.Starts .outside

abbrev Session := State World Task

/-- Every interleaving. -/
def AnyMove (_ : Session) : Move Task Input → Prop
  | .start t => t.Starts crates
  | .run _ _ => True

end

/-- A connection on which nothing is going on, with what its ring holds. -/
def Session.init (link : Link) (io : Bool) : Session :=
  ⟨{ link
     io
     pumpGate := false
     controlLock := false
     pumped := link.rx.feed.stream
     marks := []
     lines := []
     resets := 0 }, []⟩

/-! ## The locks -/

inductive Lock where
  | pumpGate
  | control
  deriving DecidableEq

/-- What a task has of a lock. -/
def Task.held : Task → Lock → ℕ
  | .pumpReading .., .pumpGate | .pumpAppending _, .pumpGate | .pumpMarking, .pumpGate => 1
  | .capturePurging _, .pumpGate | .captureMarking .., .pumpGate => 1
  | .captureAsserting .., .pumpGate => 1
  | .captureWaiting args, .control | .capturePurging args, .control
  | .captureMarking args _, .control => args.reset.isSome.toNat
  | .captureAsserting .., .control | .captureHolding .., .control
  | .captureReleasing .., .control => 1
  | .settingDtrRts .., .control | .cleaning .., .control => 1
  | _, _ => 0

/-- Whether a lock is taken. -/
def World.booked (w : World) : Lock → ℕ
  | .pumpGate => w.pumpGate.toNat
  | .control => w.controlLock.toNat

section
variable {crates : Crates} {polls : ℕ} {w w' : World} {t : Task} {i : Input} {new : List Task}

theorem cleanups_held (armed : Option (ℕ × Reset)) (k : Lock) :
    heldBy Task.held (cleanups armed) k = 0 := by
  rcases armed with _ | ⟨id, reset⟩ <;> cases k <;> rfl

/-- **A lock is taken and given back** by the tasks that have it. -/
theorem Task.step_locks (h : Task.step crates polls t i w = some (w', new)) (k : Lock) :
    w.booked k + heldBy Task.held new k ≤ w'.booked k + t.held k := by
  have hle : ∀ b : Bool, b.toNat ≤ 1 := Bool.toNat_le
  have hreset : ∀ (b : Bool) (o : Option Reset),
      b.toNat ≤ (b && o.isNone).toNat + o.isSome.toNat := by
    rintro (_ | _) (_ | reset) <;> simp
  unfold Task.step at h
  split at h
  all_goals try split at h
  all_goals try split_ifs at h
  all_goals cases h
  all_goals cases k
  all_goals
    simp only [World.booked, World.perform, World.set, heldBy_cons, heldBy_nil, cleanups_held,
      Task.held]
  -- a lock that is taken was free, and one that is given back was booked once at most
  all_goals grind

theorem Task.Starts.held (h : t.Starts crates) (k : Lock) : t.held k = 0 := by
  cases h <;> cases k <;> rfl

theorem booked_le_one (w : World) (k : Lock) : w.booked k ≤ 1 := by
  cases k <;> exact Bool.toNat_le _

theorem locks_move {s s' : Session} {m : Move Task Input}
    (h : Covered Task.held World.booked s) (hm : AnyMove crates s m)
    (hmove : s.move (Task.step crates polls) m = some s') : Covered Task.held World.booked s' := by
  refine h.move (fun t ht k => ?_) (fun l t r i w new _ _ hstep k => ?_) hmove
  · subst ht
    exact Task.Starts.held hm k
  · exact Task.step_locks hstep k

theorem lock_alone {s : Session} (h : Covered Task.held World.booked s) {l r : List Task}
    {t : Task} {k : Lock} (htasks : s.tasks = l ++ t :: r) (ht : t.held k = 1) :
    ∀ t' ∈ l ++ r, t'.held k = 0 :=
  h.alone htasks (by rw [ht]; exact booked_le_one s.world k)

end

end SerialMcp.Capture
