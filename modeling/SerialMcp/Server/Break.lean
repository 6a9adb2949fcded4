/-
  `send_break` (`tools/control_ops.rs`, with `set_break_state` of `serial/connection.rs`),
  interleaved at its awaits with other calls of it, with drops of their futures, and with
  the life of the connection.

  BREAK is asserted and released under the `io` lock.  From the assert on a call holds a
  `BreakResetGuard`; unless it has released BREAK itself, the guard spawns a task that does.
  No lock is held over the hold, so the release of one call ends the BREAK of another.

  * `World.stuck`: the port has refused a release since the last assert;
  * `Task.step_effect`: what a step does to BREAK and to the releases that are owed;
  * `break_released`: on a connection in use, BREAK lasts only while a call, or the task of
    a guard, is about to release it, or if the port refuses to.
-/
import SerialMcp.Connection
import SerialMcp.Pump

namespace SerialMcp.Break

open Tasks
open Connection (SerialConnection Stream)

/-! ## Calls -/

/-- `MAX_TIMEOUT_MS` -/
def maxTimeoutMs : ℕ := 5 * 60 * 1000

/-- `SendBreakArgs` -/
structure SendBreakArgs where
  connectionId : String
  durationMs : ℕ := 250
  deriving DecidableEq, Repr

/-- What a call returns. -/
inductive Reply where
  | sent (args : SendBreakArgs) (actualDurationMs : ℕ)
  | refused (message : String)
  | assertFailed (e : SerialError)
  | releaseFailed (e : SerialError)
  | cancelled
  deriving DecidableEq, Repr

structure World where
  connection : SerialConnection
  /-- BREAK is asserted on the stream -/
  breaking : Bool
  /-- a release has failed at the port since the last assert -/
  stuck : Bool
  /-- the clock, in nanoseconds -/
  now : ℕ
  replies : List Reply

namespace World

/-- A connection that was just opened. -/
def opened (stream : Stream) : World := ⟨.opened stream, false, false, 0, []⟩

def reply (w : World) (r : Reply) : World := { w with replies := w.replies ++ [r] }

/-- The connection takes operations on its port. -/
def inUse (w : World) : Bool := !w.connection.closed && w.connection.io.isSome

end World

/-- A task in progress. -/
inductive Task where
  /-- `send_break`, at its entry -/
  | sendBreak (args : SendBreakArgs)
  /-- `set_break_state(true)`, at its entry -/
  | asserting (args : SendBreakArgs)
  /-- waiting for the `io` lock -/
  | assertWaiting (args : SendBreakArgs)
  /-- with the guard, telling the client that BREAK is asserted -/
  | announcing (args : SendBreakArgs)
  | holding (args : SendBreakArgs) (start : ℕ)
  /-- `set_break_state(false)`, at its entry -/
  | releasing (args : SendBreakArgs) (start : ℕ)
  | releaseWaiting (args : SendBreakArgs) (start : ℕ)
  /-- with the guard disarmed, telling the client that BREAK is released -/
  | reporting (args : SendBreakArgs) (actualDurationMs : ℕ)
  /-- the task that a guard has spawned -/
  | cleanup
  | cleanupWaiting
  /-- the clock -/
  | clock
  /-- another call on the connection -/
  | life (t : Connection.Task)
  deriving DecidableEq, Repr

inductive Input where
  | turn
  /-- there is no connection of that name -/
  | missing
  /-- what the port answers; a failure is fatal or not -/
  | port (result : Except Bool Unit)
  /-- the progress ticker -/
  | tick
  | cancelled
  | dropped
  | passes (nanos : ℕ)
  | life (i : Connection.Input)

/-- `set_break_state` at the lock. -/
def setBreakState (enabled : Bool) (i : Input) (w : World) :
    Option (Except SerialError Unit × World) :=
  if w.connection.locked then none
  else match w.connection.io, i with
    | none, .turn => some (.error .connectionClosed, w)
    | some _, .port (.ok ()) =>
      some (.ok (), { w with breaking := enabled, stuck := w.stuck && !enabled })
    | some _, .port (.error fatal) =>
      some (.error (.ioError fatal), { w with stuck := w.stuck || !enabled })
    | _, _ => none

/-- A call behind its assert. -/
def asserted (args : SendBreakArgs) : Except SerialError Unit × World → World × List Task
  | (.ok (), w) => (w, [.announcing args])
  | (.error e, w) => (w.reply (.assertFailed e), [])

/-- A call behind its release. -/
def released (args : SendBreakArgs) (start : ℕ) :
    Except SerialError Unit × World → World × List Task
  | (.ok (), w) => (w, [.reporting args (asMillis (w.now - start))])
  | (.error e, w) => (w.reply (.releaseFailed e), [.cleanup])

/-- A `reconnect` with its stream. -/
def installs : Connection.Task → Bool
  | .installing _ => true
  | _ => false

/-- One step of a task. -/
def Task.step : Task → Input → World → Option (World × List Task)
  | .sendBreak args, .turn, w =>
    if args.durationMs ≤ maxTimeoutMs then some (w, [.asserting args])
    else some (w.reply (.refused
      s!"send_break.duration_ms={args.durationMs}ms exceeds maximum {maxTimeoutMs}ms"), [])
  | .sendBreak args, .missing, w =>
    if args.durationMs ≤ maxTimeoutMs then
      some (w.reply (.refused s!"Connection ID {args.connectionId} not found"), [])
    else none
  | .asserting args, .turn, w =>
    if w.connection.closed then some (w.reply (.assertFailed .connectionClosed), [])
    else some (w, [.assertWaiting args])
  | .assertWaiting _, .dropped, w => some (w, [])
  | .assertWaiting args, i, w => (setBreakState true i w).map (asserted args)
  | .announcing args, .turn, w => some (w, [.holding args w.now])
  | .holding args start, .tick, w => some (w, [.holding args start])
  | .holding args start, .turn, w =>
    if start + fromMillis args.durationMs ≤ w.now then some (w, [.releasing args start]) else none
  | .holding _ _, .cancelled, w => some (w.reply .cancelled, [.cleanup])
  | .releasing args start, .turn, w =>
    if w.connection.closed then some (w.reply (.releaseFailed .connectionClosed), [.cleanup])
    else some (w, [.releaseWaiting args start])
  | .releaseWaiting _ _, .dropped, w => some (w, [.cleanup])
  | .releaseWaiting args start, i, w => (setBreakState false i w).map (released args start)
  | .reporting args actual, .turn, w => some (w.reply (.sent args actual), [])
  | .cleanup, .turn, w => some (w, if w.connection.closed then [] else [.cleanupWaiting])
  | .cleanupWaiting, i, w => (setBreakState false i w).map fun r => (r.2, [])
  | .announcing _, .dropped, w | .holding _ _, .dropped, w | .releasing _ _, .dropped, w =>
    some (w, [.cleanup])
  | .sendBreak _, .dropped, w | .asserting _, .dropped, w | .reporting _ _, .dropped, w =>
    some (w, [])
  | .clock, .passes nanos, w => some ({ w with now := w.now + nanos }, [.clock])
  | .life t, .life i, w => (t.step i w.connection).map fun r =>
    -- a stream that was just opened is not in BREAK
    ({ w with connection := r.1, breaking := w.breaking && !installs t },
      r.2.map .life)
  | _, _, _ => none

/-- A connection with all that is in progress on it. -/
abbrev Link : Type := State World Task

def Link.opened (stream : Stream) : Link := ⟨.opened stream, []⟩

/-- What may begin. -/
inductive Task.Starts : Task → Prop
  | sendBreak (args : SendBreakArgs) : Task.Starts (.sendBreak args)
  | clock : Task.Starts .clock
  | life {t : Connection.Task} (h : t.Starts) : Task.Starts (.life t)

/-- Every interleaving. -/
def AnyMove (_ : Link) : Move Task Input → Prop
  | .start t => t.Starts
  | .run _ _ => True

/-- A task with an armed guard, or the task of a guard. -/
def Task.owes : Task → Bool
  | .announcing _ | .holding _ _ | .releasing _ _ | .releaseWaiting _ _ => true
  | .cleanup | .cleanupWaiting => true
  | _ => false

/-! ## What a step does -/

/-- What a step does to BREAK. -/
inductive Effect (t : Task) (w w' : World) (new : List Task) : Prop where
  /-- BREAK and the port stay, and what was owed is still owed -/
  | aside (huse : w'.inUse = true → w.inUse = true)
      (hbreaking : w'.breaking = true → w.breaking = true)
      (hstuck : w.stuck = true → w'.stuck = true)
      (howes : t.owes = true → ∃ t' ∈ new, t'.owes = true)
  /-- a release is owed from now on -/
  | owed (hnew : ∃ t' ∈ new, t'.owes = true)
  /-- BREAK is over, or the port has refused, or is gone -/
  | past (h : w'.inUse = true → w'.breaking = true → w'.stuck = true)

section
variable {w w' : World} {t : Task} {i : Input} {new : List Task} {enabled : Bool}
  {r : Except SerialError Unit}

theorem Effect.still (hconnection : w'.connection = w.connection)
    (hbreaking : w'.breaking = w.breaking) (hstuck : w'.stuck = w.stuck) (ht : t.owes = false) :
    Effect t w w' new := by
  refine .aside (fun h => ?_) (fun h => hbreaking ▸ h) (fun h => hstuck ▸ h) fun h => ?_
  · rwa [World.inUse, hconnection] at h
  · rw [ht] at h
    cases h

theorem release_over (h : setBreakState false i w = some (r, w')) :
    w'.inUse = true → w'.breaking = true → w'.stuck = true := by
  unfold setBreakState at h
  split_ifs at h
  split at h <;> cases h <;> intro huse hbreaking
  · rename_i hio
    rw [World.inUse, hio, Option.isSome_none, Bool.and_false] at huse
    cases huse
  · cases hbreaking
  · exact Bool.or_true _

theorem assert_failed {e : SerialError} (h : setBreakState true i w = some (.error e, w')) :
    w'.connection = w.connection ∧ w'.breaking = w.breaking ∧ w'.stuck = w.stuck := by
  unfold setBreakState at h
  split_ifs at h
  split at h <;> cases h
  · exact ⟨rfl, rfl, rfl⟩
  · exact ⟨rfl, rfl, Bool.or_false _⟩

/-- Another call on the connection. -/
theorem life_effect {t : Connection.Task} {i : Connection.Input} {c : SerialConnection}
    {ts : List Connection.Task} (h : Connection.Task.step t i w.connection = some (c, ts)) :
    Effect (.life t) w
      { w with connection := c, breaking := w.breaking && !installs t } new := by
  have hbreaking : (w.breaking && !installs t) = true → w.breaking = true :=
    fun h => (Bool.and_eq_true _ _ ▸ h).1
  have howes : (Task.life t).owes = true → ∃ t' ∈ new, t'.owes = true := nofun
  cases Connection.Task.step_effect h with
  | quiet locked => exact .aside (fun h => h) hbreaking (fun h => h) howes
  | closes => exact .past fun h => by cases h
  | takes locked => exact .past fun h => by simp [World.inUse] at h
  | disconnects error => exact .aside (fun h => h) hbreaking (fun h => h) howes
  | fails => exact .aside (fun h => h) hbreaking (fun h => h) howes
  | opens stream => exact .aside (fun h => h) hbreaking (fun h => h) howes
  | installs stream => exact .past fun _ h => by simp [installs] at h

/-! ## The time of the hold -/

/-- A call that comes to its release has held BREAK for as long as it was asked to. -/
def Task.Timed (w : World) : Task → Prop
  | .holding _ start => start ≤ w.now
  | .releasing args start | .releaseWaiting args start =>
    start + fromMillis args.durationMs ≤ w.now
  | .reporting args actual => args.durationMs ≤ actual
  | _ => True

def Reply.Timed : Reply → Prop
  | .sent args actual => args.durationMs ≤ actual
  | _ => True

theorem Task.Timed.later (h : t.Timed w) (hnow : w.now ≤ w'.now) : t.Timed w' := by
  cases t with
  | holding args start => exact Nat.le_trans h hnow
  | releasing args start | releaseWaiting args start => exact Nat.le_trans h hnow
  | reporting args actual => exact h
  | _ => trivial

theorem setBreakState_now (h : setBreakState enabled i w = some (r, w')) :
    w'.now = w.now ∧ w'.replies = w.replies := by
  unfold setBreakState at h
  split_ifs at h
  split at h <;> cases h <;> exact ⟨rfl, rfl⟩

/-- What a step does to the times. -/
structure Passes (w w' : World) (new : List Task) : Prop where
  now : w.now ≤ w'.now
  replies : ∀ r ∈ w'.replies, r ∈ w.replies ∨ r.Timed
  tasks : ∀ t ∈ new, t.Timed w'

theorem Passes.of_on (hnow : w'.now = w.now) (hreplies : w'.replies = w.replies)
    (ht : t.Timed w') : Passes w w' [t] :=
  ⟨Nat.le_of_eq hnow.symm, fun _ hr => .inl (hreplies ▸ hr), List.forall_mem_singleton.2 ht⟩

theorem Passes.of_task (ht : t.Timed w) : Passes w w [t] := .of_on rfl rfl ht

theorem Passes.of_end (hnow : w.now ≤ w'.now) (hreplies : w'.replies = w.replies) :
    Passes w w' [] :=
  ⟨hnow, fun _ hr => .inl (hreplies ▸ hr), List.forall_mem_nil _⟩

theorem Passes.of_reply {reply : Reply} (h : reply.Timed) (hnow : w'.now = w.now)
    (hreplies : w'.replies = w.replies) (hnew : ∀ t ∈ new, t.Timed (w'.reply reply)) :
    Passes w (w'.reply reply) new := by
  refine ⟨Nat.le_of_eq hnow.symm, fun r hr => ?_, hnew⟩
  rcases List.mem_append.1 hr with hr | hr
  · exact .inl (hreplies ▸ hr)
  · exact .inr (List.mem_singleton.1 hr ▸ h)

/-! ## One step -/

theorem goes_on_still {t' : Task} (howes : t.owes = false) (ht : t'.Timed w) :
    Effect t w w [t'] ∧ Passes w w [t'] :=
  ⟨.still rfl rfl rfl howes, .of_task ht⟩

theorem replies_still {reply : Reply} (howes : t.owes = false) (h : reply.Timed) :
    Effect t w (w.reply reply) [] ∧ Passes w (w.reply reply) [] :=
  ⟨.still rfl rfl rfl howes, .of_reply h rfl rfl (List.forall_mem_nil _)⟩

theorem ends_still (howes : t.owes = false) : Effect t w w [] ∧ Passes w w [] :=
  ⟨.still rfl rfl rfl howes, .of_end (Nat.le_refl _) rfl⟩

theorem goes_on_owed {t' : Task} (howes : t'.owes = true) (ht : t'.Timed w) :
    Effect t w w [t'] ∧ Passes w w [t'] :=
  ⟨.owed ⟨t', List.mem_singleton_self t', howes⟩, .of_task ht⟩

theorem replies_owed {reply : Reply} (h : reply.Timed) :
    Effect t w (w.reply reply) [.cleanup] ∧ Passes w (w.reply reply) [.cleanup] :=
  ⟨.owed ⟨.cleanup, List.mem_singleton_self _, rfl⟩,
    .of_reply h rfl rfl (List.forall_mem_singleton.2 trivial)⟩

/-- **What a step does** to BREAK and the releases that are owed, and to the times. -/
theorem Task.step_effect (ht : t.Timed w) (h : t.step i w = some (w', new)) :
    Effect t w w' new ∧ Passes w w' new := by
  cases t with
  | sendBreak args =>
    cases i with
    | turn =>
      simp only [Task.step] at h
      split_ifs at h <;> cases h
      · exact goes_on_still rfl trivial
      · exact replies_still rfl trivial
    | missing =>
      simp only [Task.step] at h
      split_ifs at h
      cases h
      exact replies_still rfl trivial
    | dropped =>
      cases h
      exact ends_still rfl
    | _ => cases h
  | asserting args =>
    cases i with
    | turn =>
      simp only [Task.step] at h
      split_ifs at h <;> cases h
      · exact replies_still rfl trivial
      · exact goes_on_still rfl trivial
    | dropped =>
      cases h
      exact ends_still rfl
    | _ => cases h
  | assertWaiting args =>
    by_cases hdropped : i = .dropped
    · subst hdropped
      cases h
      exact ends_still rfl
    · have h : (setBreakState true i w).map (asserted args) = some (w', new) := by
        cases i <;> first | exact h | exact absurd rfl hdropped
      obtain ⟨⟨r, w₁⟩, hset, heq⟩ := Option.map_eq_some_iff.1 h
      obtain ⟨hnow, hreplies⟩ := setBreakState_now hset
      rcases r with e | _ <;> cases heq
      · obtain ⟨hconnection, hbreaking, hstuck⟩ := assert_failed hset
        exact ⟨.still hconnection hbreaking hstuck rfl,
          .of_reply trivial hnow hreplies (List.forall_mem_nil _)⟩
      · exact ⟨.owed ⟨_, List.mem_singleton_self _, rfl⟩, .of_on hnow hreplies trivial⟩
  | announcing args =>
    cases i with
    | turn =>
      cases h
      exact goes_on_owed rfl (Nat.le_refl _)
    | dropped =>
      cases h
      exact goes_on_owed rfl trivial
    | _ => cases h
  | holding args start =>
    cases i with
    | turn =>
      simp only [Task.step] at h
      split_ifs at h with hdeadline
      cases h
      exact goes_on_owed rfl hdeadline
    | tick =>
      cases h
      exact goes_on_owed rfl ht
    | cancelled =>
      cases h
      exact replies_owed trivial
    | dropped =>
      cases h
      exact goes_on_owed rfl trivial
    | _ => cases h
  | releasing args start =>
    cases i with
    | turn =>
      simp only [Task.step] at h
      split_ifs at h <;> cases h
      · exact replies_owed trivial
      · exact goes_on_owed rfl ht
    | dropped =>
      cases h
      exact goes_on_owed rfl trivial
    | _ => cases h
  | releaseWaiting args start =>
    by_cases hdropped : i = .dropped
    · subst hdropped
      cases h
      exact goes_on_owed rfl trivial
    · have h : (setBreakState false i w).map (released args start) = some (w', new) := by
        cases i <;> first | exact h | exact absurd rfl hdropped
      obtain ⟨⟨r, w₁⟩, hset, heq⟩ := Option.map_eq_some_iff.1 h
      obtain ⟨hnow, hreplies⟩ := setBreakState_now hset
      rcases r with e | _ <;> cases heq
      · exact ⟨.owed ⟨_, List.mem_singleton_self _, rfl⟩,
          .of_reply trivial hnow hreplies (List.forall_mem_singleton.2 trivial)⟩
      · refine ⟨.past (release_over hset), .of_on hnow hreplies ?_⟩
        have hheld : start + fromMillis args.durationMs ≤ w.now := ht
        rw [← hnow] at hheld
        show args.durationMs ≤ asMillis (w'.now - start)
        unfold asMillis
        unfold fromMillis at hheld
        omega
  | reporting args actual =>
    cases i with
    | turn =>
      cases h
      exact replies_still rfl ht
    | dropped =>
      cases h
      exact ends_still rfl
    | _ => cases h
  | cleanup =>
    cases i with
    | turn =>
      simp only [Task.step] at h
      split_ifs at h with hclosed <;> cases h
      · exact ⟨.past fun huse => by simp [World.inUse, hclosed] at huse,
          .of_end (Nat.le_refl _) rfl⟩
      · exact goes_on_owed rfl trivial
    | _ => cases h
  | cleanupWaiting =>
    obtain ⟨⟨r, w₁⟩, hset, heq⟩ := Option.map_eq_some_iff.1 h
    obtain ⟨hnow, hreplies⟩ := setBreakState_now hset
    cases heq
    exact ⟨.past (release_over hset), .of_end (Nat.le_of_eq hnow.symm) hreplies⟩
  | clock =>
    cases i with
    | passes nanos =>
      cases h
      exact ⟨.still rfl rfl rfl rfl, Nat.le_add_right _ _, fun _ hr => .inl hr,
        List.forall_mem_singleton.2 trivial⟩
    | _ => cases h
  | life t =>
    cases i with
    | life i =>
      obtain ⟨⟨c, ts⟩, hstep, heq⟩ := Option.map_eq_some_iff.1 h
      cases heq
      refine ⟨life_effect hstep, Nat.le_refl _, fun _ hr => .inl hr, fun t' ht' => ?_⟩
      obtain ⟨t'', -, rfl⟩ := List.mem_map.1 ht'
      trivial
    | _ => cases h

/-! ## Every run -/

/-- The invariant. -/
structure Inv (s : Link) : Prop where
  /-- BREAK lasts while a release is owed, or the port has refused one -/
  owed : s.world.inUse = true → s.world.breaking = true →
    s.world.stuck = true ∨ ∃ t ∈ s.tasks, t.owes = true
  replies : ∀ r ∈ s.world.replies, r.Timed
  tasks : ∀ t ∈ s.tasks, t.Timed s.world

theorem Inv.move {s s' : Link} {m : Move Task Input} (hs : Inv s) (hm : AnyMove s m)
    (h : s.move Task.step m = some s') : Inv s' := by
  rcases move_cases h with ⟨t, rfl, rfl⟩ | ⟨l, t, r, i, w, new, rfl, htasks, hstep, rfl⟩
  · refine ⟨fun huse hbreaking => (hs.owed huse hbreaking).imp_right ?_, hs.replies,
      List.forall_mem_append.2 ⟨hs.tasks, List.forall_mem_singleton.2 ?_⟩⟩
    · rintro ⟨t', ht', howes⟩
      exact ⟨t', List.mem_append_left _ ht', howes⟩
    · cases hm <;> trivial
  · obtain ⟨heffect, hnow, hreplies, hnew⟩ := Task.step_effect (hs.tasks t (by simp [htasks])) hstep
    refine ⟨fun huse hbreaking => ?_, fun r' hr' => (hreplies r' hr').elim (hs.replies r') id,
      forall_replaced htasks hs.tasks (fun _ _ ht' => ht'.later hnow) hnew⟩
    cases heffect with
    | aside huse' hbreaking' hstuck howes =>
      refine (hs.owed (huse' huse) (hbreaking' hbreaking)).imp hstuck ?_
      rintro ⟨t', ht', howes'⟩
      rw [htasks, List.mem_append, List.mem_cons] at ht'
      rcases ht' with ht' | rfl | ht'
      · exact ⟨t', by simp [ht'], howes'⟩
      · obtain ⟨t'', ht'', hnew'⟩ := howes howes'
        exact ⟨t'', by simp [ht''], hnew'⟩
      · exact ⟨t', by simp [ht'], howes'⟩
    | owed hnew' =>
      obtain ⟨t', ht', howes⟩ := hnew'
      exact .inr ⟨t', by simp [ht'], howes⟩
    | past hover => exact .inl (hover huse hbreaking)

/-- **BREAK is released.** In every run of any number of calls, cancelled or dropped at any
    await, with failures of the port and with the connection being lost, closed and
    reconnected at any time: while the connection has its port in use and is in BREAK,
    a call or the task of its guard still owes the release, or the port has refused one
    since the last assert.  A call that succeeds reports a hold of at least the duration that it
    was asked for, though the release of another call may have ended BREAK before. -/
theorem break_released {stream : Stream} {s : Link}
    (h : Runs Task.step AnyMove (Link.opened stream) s) :
    (s.world.connection.closed = false → s.world.connection.io ≠ none →
      s.world.breaking = true → s.world.stuck = false → ∃ t ∈ s.tasks, t.owes = true) ∧
    ∀ args actual, .sent args actual ∈ s.world.replies → args.durationMs ≤ actual := by
  have hinit : Inv (Link.opened stream) :=
    ⟨fun _ h => (by cases h), List.forall_mem_nil _, List.forall_mem_nil _⟩
  have hinv := h.invariant (J := Inv) (fun hs hm hmove => hs.move hm hmove) hinit
  refine ⟨fun hclosed hio hbreaking hstuck => ?_, fun args actual hsent => hinv.replies _ hsent⟩
  have huse : s.world.inUse = true := by
    simp [World.inUse, hclosed, Option.isSome_iff_ne_none, hio]
  refine (hinv.owed huse hbreaking).resolve_left ?_
  rw [hstuck]
  exact nofun

end

/-- One call runs its course; a second one is dropped in its hold. -/
def twoBreaks : List (Move Task Input) :=
  [.start (.sendBreak ⟨"c", 250⟩), .start .clock, .run 0 .turn, .run 0 .turn,
    .run 0 (.port (.ok ())), .run 0 .turn, .run 1 (.passes 251000000), .run 0 .turn, .run 0 .turn,
    .run 0 (.port (.ok ())), .run 0 .turn, .start (.sendBreak ⟨"c", 100⟩), .run 1 .turn,
    .run 1 .turn, .run 1 (.port (.ok ())), .run 1 .turn, .run 1 .dropped]

theorem break_released_two : ∃ s, (Link.opened ⟨3⟩).play Task.step twoBreaks = some s ∧
    s.world.replies = [.sent ⟨"c", 250⟩ 251] ∧ s.world.breaking = true ∧
    ∃ t ∈ s.tasks, t.owes = true := by
  have hrun : ((Link.opened ⟨3⟩).play Task.step twoBreaks).map (fun s => (s.world.replies,
      s.world.breaking, s.world.stuck, s.world.connection)) =
      some ([.sent ⟨"c", 250⟩ 251], true, false, .opened ⟨3⟩) := by
    decide +kernel
  obtain ⟨s, hplay, heq⟩ := Option.map_eq_some_iff.1 hrun
  obtain ⟨hreplies, hbreaking, hstuck, hconnection⟩ := by simpa only [Prod.mk.injEq] using heq
  have hmoves : ∀ m ∈ twoBreaks, AnyMove (Link.opened ⟨3⟩) m := by
    simp [twoBreaks, AnyMove, Task.Starts.sendBreak, Task.Starts.clock]
  have hruns := (Runs.of_play hmoves hplay).mono fun hm => hm
  obtain ⟨howed, -⟩ := break_released hruns
  refine ⟨s, hplay, hreplies, hbreaking, ?_⟩
  exact howed (by rw [hconnection]; rfl) (by rw [hconnection]; exact nofun) hbreaking hstuck

end SerialMcp.Break
