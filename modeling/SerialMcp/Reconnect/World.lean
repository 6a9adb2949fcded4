/-
  Automatic reconnects (`start_reconnect`, `cancel_reconnect` and `close` of
  `serial/manager.rs`, the supervisors of `server.rs`), with any number of
  supervisors and any calls on the connections between their steps.

  A supervisor looks for connections that are down and has a task started for
  each.  `start_reconnect` looks the connection up, asks under the lock whether
  it has a task already, spawns one and enters its handle under the lock again.
  The task counts its own attempts and ends when there have been too many; its
  handle stays, and the next look at the tasks throws it out.

  * `Task.step`: the supervisors, the tasks and the calls at their awaits;
  * `Manager.Work`, `Manager.taskStep_work`: what one step of a task does.
-/
import Mathlib.Data.Finset.Basic
import Mathlib.Data.Finset.Dedup
import SerialMcp.Connection
import SerialMcp.Profile.Data

namespace SerialMcp.Reconnect

open Tasks
open Connection (SerialConnection Stream)

/-! ## The manager -/

/-- `LogEvent`, as far as the life of a connection goes. -/
inductive LogEvent where
  | disconnect (error : String)
  | reconnectStart (attempt : ℕ)
  | reconnectSuccess
  | reconnectFailed (attempt : ℕ) (error : String)
  | reconnectExhausted
  | closed
  deriving DecidableEq, Repr

/-- A connection, which lives on in its tasks when it leaves the registry. -/
structure Entry where
  connection : SerialConnection
  policy : ReconnectPolicy
  /-- what its log was given, newest first -/
  log : List LogEvent

/-- What one step of a call on a connection writes into its log. -/
def logged : Connection.Task → Connection.Input → SerialConnection → List LogEvent
  | .markEntry error, .go, _ => [.disconnect error]
  | .reconnectEntry, .built r, c =>
    let attempt := (c.reconnectAttempts + 1) % 2 ^ 32
    if c.state = .opened ∨ c.state = .closed then []
    else match r with
      | .error e => [.reconnectFailed attempt e, .reconnectStart attempt]
      | .ok _ => [.reconnectStart attempt]
  | .installing _, .go, c => if c.locked then [] else [.reconnectSuccess]
  | _, _, _ => []

/-- `ConnectionManager`, and what the runtime knows of the tasks it has spawned. -/
structure Manager where
  /-- every connection there has been, by its id -/
  entries : String → Entry
  /-- the keys of `connections` -/
  registered : Finset String
  /-- `reconnect_tasks`, with a number for every handle -/
  handles : String → Option ℕ
  spawned : ℕ
  finished : Finset ℕ
  aborted : Finset ℕ

/-- Where a reconnect task stands. -/
inductive Stage where
  | spawned
  | sleeping
  /-- in `reconnect` with a new stream, waiting for the `io` lock -/
  | installing (stream : Stream)
  /-- after a success, waiting for `rx_sessions` -/
  | resuming
  deriving DecidableEq, Repr

/-- A task or a call in progress. -/
inductive Task where
  /-- a supervisor between two polls -/
  | supervisor
  /-- a supervisor in `start_reconnect`, with the connections it goes on with:
      waiting for the lock to look the connection up -/
  | getting (id : String) (rest : List String)
  /-- waiting for the lock to look for a task -/
  | pruning (id : String) (policy : ReconnectPolicy) (rest : List String)
  /-- past the check, before the spawn -/
  | spawning (id : String) (policy : ReconnectPolicy) (rest : List String)
  /-- waiting for the lock to enter the handle -/
  | registering (id : String) (handle : ℕ) (rest : List String)
  | reconnect (handle : ℕ) (id : String) (policy : ReconnectPolicy) (attempts : ℕ)
      (stage : Stage)
  /-- `cancel_reconnect` -/
  | cancelEntry (id : String)
  /-- `close`, waiting for the lock -/
  | closeEntry (id : String)
  /-- `close`, waiting for the lock to abort the task -/
  | aborting (id : String)
  /-- `close` in `SerialConnection::close` -/
  | closing (id : String) (call : Connection.Task)
  /-- `close`, waiting for the lock to give the port back -/
  | ending (id : String)
  /-- any call on a connection, a `reconnect` by hand among them -/
  | call (id : String) (call : Connection.Task)
  /-- `configure` of a connection -/
  | configure (id : String) (policy : ReconnectPolicy)
  deriving DecidableEq, Repr

/-- What a task waits for. -/
inductive Input where
  | go
  /-- the lock of the manager -/
  | lock
  /-- `list_all`, in the order of the map -/
  | listed (ids : List String)
  | call (i : Connection.Input)
  /-- the runtime drops a task that was aborted -/
  | abort

namespace Manager

def setEntry (w : Manager) (id : String) (e : Entry) : Manager :=
  { w with entries := Function.update w.entries id e }

/-- A call on a connection takes a step. -/
def callStep (w : Manager) (id : String) (call : Connection.Task) (i : Connection.Input) :
    Option (Manager × List Connection.Task) :=
  let e := w.entries id
  (call.step i e.connection).map fun r =>
    (w.setEntry id { e with connection := r.1, log := logged call i e.connection ++ e.log }, r.2)

/-- The supervisor's loop up to its next await. -/
def poll (w : Manager) : List String → Task
  | [] => .supervisor
  | id :: rest =>
    if (w.entries id).connection.state = .disconnected ∧ (w.entries id).policy.enabled then
      .getting id rest
    else w.poll rest

/-- `retain` the tasks that have not finished. -/
def prune (w : Manager) : Manager :=
  { w with handles := fun id => (w.handles id).filter (· ∉ w.finished) }

def spawn (w : Manager) : Manager := { w with spawned := w.spawned + 1 }

def register (w : Manager) (id : String) (handle : ℕ) : Manager :=
  { w with handles := Function.update w.handles id (some handle) }

/-- A task is taken out and aborted, if there is one. -/
def abort (w : Manager) (id : String) : Manager :=
  match w.handles id with
  | none => w
  | some n => { w with
      handles := Function.update w.handles id none
      aborted := insert n w.aborted }

def finish (w : Manager) (handle : ℕ) : Manager :=
  { w with finished := insert handle w.finished }

def unregister (w : Manager) (id : String) : Manager :=
  { w with registered := w.registered.erase id }

def record (w : Manager) (id : String) (event : LogEvent) : Manager :=
  w.setEntry id { w.entries id with log := event :: (w.entries id).log }

def setPolicy (w : Manager) (id : String) (policy : ReconnectPolicy) : Manager :=
  w.setEntry id { w.entries id with policy := policy }

/-- `reset_reconnect_attempts` -/
def resetAttempts (w : Manager) (id : String) : Manager :=
  let c := (w.entries id).connection
  w.setEntry id { w.entries id with connection := { c with reconnectAttempts := 0 } }

section
variable (w : Manager) (handle : ℕ) (id : String) (policy : ReconnectPolicy) (attempts : ℕ)

/-- The head of the task's loop: it sleeps unless the connection is open or closed. -/
def loopHead : Manager × List Task :=
  let state := (w.entries id).connection.state
  if state = .opened ∨ state = .closed then (w.finish handle, [])
  else (w, [.reconnect handle id policy attempts .sleeping])

/-- `reconnect` has returned `Ok`. -/
def succeed : Manager × List Task :=
  (w.resetAttempts id, [.reconnect handle id policy attempts .resuming])

/-- `reconnect` has returned an error. -/
def fail : Manager × List Task :=
  if 0 < policy.maxAttempts ∧ policy.maxAttempts ≤ attempts + 1 then
    ((w.record id .reconnectExhausted).finish handle, [])
  else w.loopHead handle id policy (attempts + 1)

/-- The task takes its step. -/
def taskStep : Stage → Input → Option (Manager × List Task)
  | .spawned, .go => some (w.loopHead handle id policy attempts)
  | .sleeping, .call i => (w.callStep id .reconnectEntry i).map fun r =>
    match r.2 with
    | .installing stream :: _ => (r.1, [.reconnect handle id policy attempts (.installing stream)])
    -- `reconnect` returns at once: on an open connection with success
    | _ =>
      if (w.entries id).connection.state = .opened then r.1.succeed handle id policy attempts
      else r.1.fail handle id policy attempts
  | .installing stream, .call i => (w.callStep id (.installing stream) i).map fun r =>
    r.1.succeed handle id policy attempts
  | .resuming, .lock => some (w.finish handle, [])
  -- an aborted task goes on until the runtime drops it at one of its awaits
  | _, .abort => if handle ∈ w.aborted then some (w.finish handle, []) else none
  | _, _ => none

end

end Manager

/-- What a task does next. -/
def Task.step : Task → Input → Manager → Option (Manager × List Task)
  | .supervisor, .listed ids, w =>
    if ids.Nodup ∧ ids.toFinset = w.registered then some (w, [w.poll ids]) else none
  | .getting id rest, .lock, w =>
    if id ∈ w.registered ∧ (w.entries id).policy.enabled then
      some (w, [.pruning id (w.entries id).policy rest])
    else some (w, [w.poll rest])
  | .pruning id policy rest, .lock, w =>
    if (w.prune.handles id).isSome then some (w.prune, [w.prune.poll rest])
    else some (w.prune, [.spawning id policy rest])
  | .spawning id policy rest, .go, w =>
    some (w.spawn, [.registering id w.spawned rest, .reconnect w.spawned id policy 0 .spawned])
  | .registering id n rest, .lock, w => some (w.register id n, [(w.register id n).poll rest])
  | .reconnect n id policy attempts stage, i, w => w.taskStep n id policy attempts stage i
  | .cancelEntry id, .lock, w => some (w.abort id, [])
  | .closeEntry id, .lock, w =>
    if id ∈ w.registered then some (w.unregister id, [.aborting id]) else some (w, [])
  | .aborting id, .lock, w => some ((w.abort id).record id .closed, [.closing id .closeEntry])
  | .closing id c, .call i, w => (w.callStep id c i).map fun r =>
    (r.1, if r.2 = [] then [.ending id] else r.2.map (.closing id))
  | .ending _, .lock, w => some (w, [])
  | .call id c, .call i, w => (w.callStep id c i).map fun r => (r.1, r.2.map (.call id))
  | .configure id policy, .go, w => some (w.setPolicy id policy, [])
  | _, _, _ => none

abbrev Session : Type := State Manager Task

/-- The supervisors and calls that may be started. -/
def Task.Starts : Task → Prop
  | .supervisor | .cancelEntry _ | .closeEntry _ | .configure _ _ => True
  | .call _ c => c.Starts
  | _ => False

/-- Every interleaving of any number of supervisors and calls. -/
def AnyMove (_ : Session) : Move Task Input → Prop
  | .start t => t.Starts
  | .run _ _ => True

/-- Some open connections with their policies, and no tasks yet. -/
def Session.opened (registered : Finset String) (streams : String → Stream)
    (policies : String → ReconnectPolicy) : Session where
  world :=
    { entries := fun id => ⟨.opened (streams id), policies id, []⟩
      registered, handles := fun _ => none, spawned := 0, finished := ∅, aborted := ∅ }
  tasks := []

/-- A connection that may be reconnected once. -/
def oneAttempt : Session :=
  .opened {"c"} (fun _ => ⟨0⟩) fun _ => { enabled := true, maxAttempts := 1 }

/-- The port fails, and a supervisor starts. -/
def portFails : List (Move Task Input) :=
  [.start (.call "c" (.markEntry "EIO")), .run 0 (.call .go), .run 0 (.call .go),
    .run 0 (.call .finished), .start .supervisor]

/-! ## What a task does -/

/-- The entry of a connection after a failed attempt. -/
def Entry.attemptFailed (e : Entry) (error : String) : Entry :=
  let attempt := (e.connection.reconnectAttempts + 1) % 2 ^ 32
  { e with
    connection := e.connection.beginReconnect.reconnectFailed
    log := .reconnectFailed attempt error :: .reconnectStart attempt :: e.log }

/-- The entry of a connection after an attempt that has a stream. -/
def Entry.attemptStarted (e : Entry) : Entry :=
  let attempt := (e.connection.reconnectAttempts + 1) % 2 ^ 32
  { e with
    connection := e.connection.beginReconnect
    log := .reconnectStart attempt :: e.log }

/-- The entry of a connection that a task has reconnected. -/
def Entry.reconnected (e : Entry) (stream : Stream) : Entry :=
  { e with
    connection := { e.connection.install stream with reconnectAttempts := 0 }
    log := .reconnectSuccess :: e.log }

/-- `max_attempts` is reached by one more failed attempt. -/
def Exhausts (policy : ReconnectPolicy) (attempts : ℕ) : Prop :=
  0 < policy.maxAttempts ∧ policy.maxAttempts ≤ attempts + 1

/-- What one step of a task makes of its connection, and where the task goes on,
    if it does. -/
inductive Work (e : Entry) (policy : ReconnectPolicy) (attempts : ℕ) :
    Stage → Entry → Option (ℕ × Stage) → Prop
  | ends (stage : Stage) : Work e policy attempts stage e none
  | sleeps : Work e policy attempts .spawned e (some (attempts, .sleeping))
  /-- somebody else has reconnected -/
  | already (hstate : e.connection.state = .opened) : Work e policy attempts .sleeping
      { e with connection := { e.connection with reconnectAttempts := 0 } }
      (some (attempts, .resuming))
  /-- the connection is closed -/
  | refused (events : List LogEvent) (hevents : ∀ ev ∈ events, ev = .reconnectExhausted) :
      Work e policy attempts .sleeping { e with log := events ++ e.log } none
  | exhausted (error : String) (hex : Exhausts policy attempts) :
      Work e policy attempts .sleeping
        { e.attemptFailed error with log := .reconnectExhausted :: (e.attemptFailed error).log }
        none
  | again (error : String) (hex : ¬Exhausts policy attempts) :
      Work e policy attempts .sleeping (e.attemptFailed error) (some (attempts + 1, .sleeping))
  | opens (stream : Stream) :
      Work e policy attempts .sleeping e.attemptStarted (some (attempts, .installing stream))
  | installs (stream : Stream) :
      Work e policy attempts (.installing stream) (e.reconnected stream)
        (some (attempts, .resuming))

namespace Manager

/-- A task goes on with an entry, or ends. -/
def goOn (w : Manager) (n : ℕ) (id : String) (policy : ReconnectPolicy) (e : Entry) :
    Option (ℕ × Stage) → Manager × List Task
  | none => ((w.setEntry id e).finish n, [])
  | some (attempts, stage) => (w.setEntry id e, [.reconnect n id policy attempts stage])

/-- A supervisor goes to sleep or on with some connection. -/
theorem poll_cases (w : Manager) (ids : List String) :
    w.poll ids = .supervisor ∨ ∃ id rest, w.poll ids = .getting id rest := by
  induction ids with
  | nil => exact .inl rfl
  | cons id rest ih =>
    by_cases h : (w.entries id).connection.state = .disconnected ∧ (w.entries id).policy.enabled
    · exact .inr ⟨id, rest, by simp [poll, h]⟩
    · simpa [poll, h] using ih

section
variable {w : Manager} {id id' : String} {e : Entry}

@[simp] theorem setEntry_entries : (w.setEntry id e).entries id = e := Function.update_self ..

theorem setEntry_entries_ne (h : id' ≠ id) : (w.setEntry id e).entries id' = w.entries id' :=
  Function.update_of_ne h ..

theorem setEntry_self : w.setEntry id (w.entries id) = w := by
  simp [setEntry]

theorem setEntry_setEntry {e' : Entry} : (w.setEntry id e).setEntry id e' = w.setEntry id e' := by
  simp [setEntry]

end

section
variable {w w' : Manager} {n : ℕ} {id : String} {policy : ReconnectPolicy} {attempts : ℕ}
  {stage : Stage} {i : Input} {new : List Task} {e : Entry}

theorem goOn_self {next : Option (ℕ × Stage)} :
    w.goOn n id policy (w.entries id) next = match next with
      | none => (w.finish n, [])
      | some (a, st) => (w, [.reconnect n id policy a st]) := by
  cases next <;> simp [goOn, setEntry_self]

theorem loopHead_work (w : Manager) (n : ℕ) (id : String) (policy : ReconnectPolicy)
    (attempts : ℕ) : ∃ next, Work (w.entries id) policy attempts .spawned (w.entries id) next ∧
      w.loopHead n id policy attempts = w.goOn n id policy (w.entries id) next := by
  by_cases hstate : (w.entries id).connection.state = .opened ∨
      (w.entries id).connection.state = .closed
  · exact ⟨none, .ends .spawned, by simp [loopHead, hstate, goOn_self]⟩
  · exact ⟨some (attempts, .sleeping), .sleeps, by simp [loopHead, hstate, goOn_self]⟩

theorem succeed_goOn : (w.setEntry id e).succeed n id policy attempts =
    w.goOn n id policy { e with connection := { e.connection with reconnectAttempts := 0 } }
      (some (attempts, .resuming)) := by
  simp [succeed, resetAttempts, goOn, setEntry_setEntry]

theorem fail_goOn_of_exhausts (h : Exhausts policy attempts) :
    (w.setEntry id e).fail n id policy attempts =
      w.goOn n id policy { e with log := .reconnectExhausted :: e.log } none := by
  unfold Exhausts at h
  simp [fail, h, record, goOn, setEntry_setEntry]

theorem fail_goOn (h : ¬Exhausts policy attempts) : (w.setEntry id e).fail n id policy attempts =
    w.goOn n id policy e (if e.connection.state = .opened ∨ e.connection.state = .closed then none
      else some (attempts + 1, .sleeping)) := by
  unfold Exhausts at h
  simp only [fail, h, ↓reduceIte, loopHead, setEntry_entries]
  split
  · rfl
  · rfl

/-- A `reconnect` by a task, up to its first await. -/
theorem sleeping_work (i : Connection.Input)
    (h : w.taskStep n id policy attempts .sleeping (.call i) = some (w', new)) :
    ∃ e next, Work (w.entries id) policy attempts .sleeping e next ∧
      (w', new) = w.goOn n id policy e next := by
  cases i with
  | built r =>
    by_cases hstate : (w.entries id).connection.state = .opened ∨
        (w.entries id).connection.state = .closed
    · -- `reconnect` returns at once
      simp only [taskStep, callStep, Connection.Task.step, hstate, ↓reduceIte, Option.map_some,
        logged, List.nil_append, Option.some.injEq] at h
      by_cases hopen : (w.entries id).connection.state = .opened
      · rw [if_pos hopen, succeed_goOn] at h
        exact ⟨_, _, .already hopen, h.symm⟩
      · rw [if_neg hopen] at h
        by_cases hex : Exhausts policy attempts
        · rw [fail_goOn_of_exhausts hex] at h
          exact ⟨_, _, .refused [.reconnectExhausted] (by simp), h.symm⟩
        · rw [fail_goOn hex, if_pos hstate] at h
          exact ⟨_, _, .refused [] (by simp), h.symm⟩
    · cases r with
      | error error =>
        simp only [taskStep, callStep, Connection.Task.step, hstate, ↓reduceIte, Option.map_some,
          logged, Option.some.injEq] at h
        rw [if_neg fun hopen => hstate (.inl hopen)] at h
        by_cases hex : Exhausts policy attempts
        · rw [fail_goOn_of_exhausts hex] at h
          exact ⟨_, _, .exhausted error hex, h.symm⟩
        · rw [fail_goOn hex, if_neg (by simp [SerialConnection.reconnectFailed])] at h
          exact ⟨_, _, .again error hex, h.symm⟩
      | ok stream =>
        simp only [taskStep, callStep, Connection.Task.step, hstate, ↓reduceIte, Option.map_some,
          logged, Option.some.injEq] at h
        exact ⟨_, some (attempts, .installing stream), .opens stream, h.symm⟩
  | _ => cases h

theorem installing_work {stream : Stream} (i : Connection.Input)
    (h : w.taskStep n id policy attempts (.installing stream) (.call i) = some (w', new)) :
    ∃ e next, Work (w.entries id) policy attempts (.installing stream) e next ∧
      (w', new) = w.goOn n id policy e next := by
  cases i with
  | go =>
    by_cases hlocked : (w.entries id).connection.locked
    · simp [taskStep, callStep, Connection.Task.step, hlocked] at h
    · simp only [taskStep, callStep, Connection.Task.step, hlocked, Bool.false_eq_true, ↓reduceIte,
        Option.map_some, logged, Option.some.injEq] at h
      rw [succeed_goOn] at h
      exact ⟨_, _, .installs stream, h.symm⟩
  | _ => cases h

/-- **What one step of a task does.** -/
theorem taskStep_work (h : w.taskStep n id policy attempts stage i = some (w', new)) :
    ∃ e next, Work (w.entries id) policy attempts stage e next ∧
      (w', new) = w.goOn n id policy e next := by
  have hends : ∀ stage, ∃ e next, Work (w.entries id) policy attempts stage e next ∧
      (w.finish n, []) = w.goOn n id policy e next :=
    fun stage => ⟨_, none, .ends stage, by rw [goOn_self]⟩
  have habort : ∀ stage, (if n ∈ w.aborted then some (w.finish n, []) else none) = some (w', new) →
      ∃ e next, Work (w.entries id) policy attempts stage e next ∧
        (w', new) = w.goOn n id policy e next := by
    intro stage h
    split_ifs at h
    rw [← Option.some.inj h]
    exact hends stage
  cases stage with
  | spawned =>
    cases i with
    | go =>
      obtain ⟨next, hwork, hgo⟩ := w.loopHead_work n id policy attempts
      exact ⟨_, next, hwork, (Option.some.inj h).symm.trans hgo⟩
    | abort => exact habort .spawned h
    | _ => cases h
  | sleeping =>
    cases i with
    | call i => exact sleeping_work i h
    | abort => exact habort .sleeping h
    | _ => cases h
  | installing stream =>
    cases i with
    | call i =>
      exact installing_work i h
    | abort => exact habort (.installing stream) h
    | _ => cases h
  | resuming =>
    cases i with
    | lock =>
      cases h
      exact hends .resuming
    | abort => exact habort .resuming h
    | _ => cases h

end

end Manager

end SerialMcp.Reconnect
