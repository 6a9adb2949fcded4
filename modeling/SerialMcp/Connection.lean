/-
  The life of one connection (`serial/connection.rs`): `close`,
  `mark_disconnected`, `reconnect` and the calls that use the port, interleaved
  at their awaits.

  The state, the `closed` flag and the slot with the stream are changed one by
  one, and only the slot under the `io` lock.  `mark_disconnected` stores
  `Disconnected` and then waits for the lock to empty the slot; `reconnect`
  looks at the state, opens a stream, waits for the lock and then fills the
  slot and stores `Open`, whatever happened in between.

  * `Task.step_effect`: what one step of any of the calls may do;
  * `closed_terminal`: a closed connection stays closed exactly as long as no
    `mark_disconnected` starts on it and no `reconnect` that is already past
    its check installs its stream;
  * `open_has_port`: with nothing but I/O in progress, an open connection has a
    stream and a disconnected one has none, if no `reconnect` installs a stream
    while a `mark_disconnected` has yet to empty the slot.
-/
import SerialMcp.Lib.Tasks
import SerialMcp.Read.World

namespace SerialMcp.Connection

open Tasks

/-! ## The connection -/

/-- An open stream of the operating system. -/
structure Stream where
  handle : ℕ
  deriving DecidableEq, Repr

/-- `SerialConnection`, as far as its life cycle goes. -/
structure SerialConnection where
  state : ConnectionState
  closed : Bool
  /-- `close_token` -/
  cancelled : Bool
  io : Option Stream
  /-- somebody holds the `io` lock -/
  locked : Bool
  reconnectAttempts : ℕ
  lastError : Option String
  deriving DecidableEq, Repr

namespace SerialConnection

/-- A connection that was just opened. -/
def opened (stream : Stream) : SerialConnection := ⟨.opened, false, false, some stream, false, 0, none⟩

/-- `close` up to its first await, unless the connection is closed already. -/
def beginClose (c : SerialConnection) : SerialConnection :=
  { c with closed := true, state := .closed, cancelled := true }

/-- `mark_disconnected` up to its first await. -/
def beginDisconnect (c : SerialConnection) (error : String) : SerialConnection :=
  { c with state := .disconnected, lastError := some error }

/-- `reconnect` behind its check of the state. -/
def beginReconnect (c : SerialConnection) : SerialConnection :=
  { c with state := .reconnecting, reconnectAttempts := c.reconnectAttempts + 1 }

/-- A `reconnect` whose stream could not be opened. -/
def reconnectFailed (c : SerialConnection) : SerialConnection := { c with state := .disconnected }

/-- A `reconnect` with its stream, under the lock. -/
def install (c : SerialConnection) (stream : Stream) : SerialConnection :=
  { c with io := some stream, closed := false, state := .opened }

/-- The stream is taken out, and the lock is kept while it is shut down. -/
def take (c : SerialConnection) : SerialConnection := { c with io := none, locked := true }

def lock (c : SerialConnection) : SerialConnection := { c with locked := true }

def unlock (c : SerialConnection) : SerialConnection := { c with locked := false }

end SerialConnection

/-! ## The calls at their awaits -/

/-- A call in progress. -/
inductive Task where
  | closeEntry
  /-- `close`, waiting for the lock -/
  | closing
  /-- `close`, shutting the stream down under the lock -/
  | closeShutdown
  | markEntry (error : String)
  /-- `mark_disconnected`, waiting for the lock -/
  | marking
  /-- `mark_disconnected`, shutting the stream down under the lock -/
  | markShutdown
  | reconnectEntry
  /-- `reconnect` with a new stream, waiting for the lock -/
  | installing (stream : Stream)
  /-- `read`, `write` and the calls that set up the port -/
  | ioEntry
  | ioWaiting
  /-- the call uses the stream under the lock -/
  | ioHolding
  deriving DecidableEq, Repr

/-- What a task waits for. -/
inductive Input where
  /-- its turn, or the lock -/
  | go
  /-- what `build_stream` returns -/
  | built (result : Except String Stream)
  /-- what `clear_os_buffers` returns to `close` -/
  | cleared (result : Except String Unit)
  /-- the operation on the stream is over -/
  | finished
  /-- a poll of `read` is over without data -/
  | again

/-- What a task does next: the connection after it, and what goes on in its place. -/
def Task.step : Task → Input → SerialConnection → Option (SerialConnection × List Task)
  | .closeEntry, .go, c => if c.closed then some (c, []) else some (c.beginClose, [.closing])
  | .closing, .cleared r, c =>
    if c.locked then none
    else match c.io with
      | none => some (c, [])
      | some _ =>
        match r with
        -- the stream is dropped with the guard
        | .error _ => some (c.take.unlock, [])
        | .ok () => some (c.take, [.closeShutdown])
  | .closeShutdown, .finished, c => some (c.unlock, [])
  | .markEntry error, .go, c => some (c.beginDisconnect error, [.marking])
  | .marking, .go, c =>
    if c.locked then none
    else match c.io with
      | none => some (c, [])
      | some _ => some (c.take, [.markShutdown])
  | .markShutdown, .finished, c => some (c.unlock, [])
  -- `build_stream` does not wait: a `reconnect` without a stream is one step
  | .reconnectEntry, .built r, c =>
    if c.state = .opened ∨ c.state = .closed then some (c, [])
    else match r with
      | .error _ => some (c.beginReconnect.reconnectFailed, [])
      | .ok stream => some (c.beginReconnect, [.installing stream])
  | .installing stream, .go, c => if c.locked then none else some (c.install stream, [])
  | .ioEntry, .go, c => if c.closed then some (c, []) else some (c, [.ioWaiting])
  | .ioWaiting, .go, c =>
    if c.locked then none
    else match c.io with
      | none => some (c, [])
      | some _ => some (c.lock, [.ioHolding])
  | .ioHolding, .finished, c => some (c.unlock, [])
  | .ioHolding, .again, c =>
    if c.cancelled then some (c.unlock, []) else some (c.unlock, [.ioWaiting])
  | _, _, _ => none

/-- A connection with the calls in progress on it. -/
abbrev Session : Type := State SerialConnection Task

def Session.opened (stream : Stream) : Session := ⟨.opened stream, []⟩

/-- The calls that may be made. -/
def Task.Starts : Task → Prop
  | .closeEntry | .markEntry _ | .reconnectEntry | .ioEntry => True
  | _ => False

/-- Every interleaving of any number of calls. -/
def AnyMove (_ : Session) : Move Task Input → Prop
  | .start t => t.Starts
  | .run _ _ => True

/-! ## What a step does -/

/-- No task of these waits for the lock to empty the slot, nor is about to. -/
def Calm (ts : List Task) : Prop := .marking ∉ ts ∧ .closing ∉ ts ∧ .closeEntry ∉ ts

/-- A `reconnect` at one of its awaits. -/
def Task.Reconnects : Task → Prop
  | .reconnectEntry | .installing _ => True
  | _ => False

/-- What one step may do to the state, the flag and the slot. -/
inductive Effect (c : SerialConnection) : Task → SerialConnection → List Task → Prop
  /-- only the lock changes hands, or nothing does -/
  | quiet {t new} (locked : Bool) (hmark : ∀ error, t ≠ .markEntry error)
      (hinstall : ∀ stream, t ≠ .installing stream) (ht : t ≠ .marking ∨ c.io = none)
      (hnew : Calm new) (hnew' : ∀ t' ∈ new, ¬t'.Reconnects) :
      Effect c t { c with locked := locked } new
  | closes : Effect c .closeEntry c.beginClose [.closing]
  /-- a call that was waiting for it empties the slot -/
  | takes {t new} (locked : Bool) (ht : t = .closing ∨ t = .marking) (hnew : Calm new)
      (hnew' : ∀ t' ∈ new, ¬t'.Reconnects) :
      Effect c t { c with io := none, locked := locked } new
  | disconnects (error : String) :
      Effect c (.markEntry error) (c.beginDisconnect error) [.marking]
  | fails (hstate : c.state ≠ .opened) (hstate' : c.state ≠ .closed) :
      Effect c .reconnectEntry c.beginReconnect.reconnectFailed []
  | opens (stream : Stream) (hstate : c.state ≠ .opened) (hstate' : c.state ≠ .closed) :
      Effect c .reconnectEntry c.beginReconnect [.installing stream]
  | installs (stream : Stream) : Effect c (.installing stream) (c.install stream) []

section
variable {c c' : SerialConnection} {t : Task} {i : Input} {new : List Task}

theorem Effect.same (hmark : ∀ error, t ≠ .markEntry error)
    (hinstall : ∀ stream, t ≠ .installing stream) (ht : t ≠ .marking ∨ c.io = none)
    (hnew : Calm new) (hnew' : ∀ t' ∈ new, ¬t'.Reconnects) : Effect c t c new :=
  .quiet c.locked hmark hinstall ht hnew hnew'

theorem Task.step_effect (h : Task.step t i c = some (c', new)) : Effect c t c' new := by
  cases t with
  | closeEntry =>
    cases i with
    | go =>
      simp only [Task.step] at h
      split_ifs at h with hclosed
      · cases h
        exact .same (by simp) (by simp) (by simp) (by simp [Calm]) (by simp [Task.Reconnects])
      · cases h
        exact .closes
    | _ => cases h
  | closing =>
    cases i with
    | cleared r =>
      simp only [Task.step] at h
      split_ifs at h
      rcases hio : c.io with _ | stream
      · rw [hio] at h
        cases h
        exact .same (by simp) (by simp) (by simp) (by simp [Calm]) (by simp [Task.Reconnects])
      · rw [hio] at h
        cases r with
        | error e =>
          cases h
          exact .takes false (.inl rfl) (by simp [Calm]) (by simp [Task.Reconnects])
        | ok u =>
          cases h
          exact .takes true (.inl rfl) (by simp [Calm]) (by simp [Task.Reconnects])
    | _ => cases h
  | closeShutdown =>
    cases i with
    | finished =>
      cases h
      exact .quiet false (by simp) (by simp) (by simp) (by simp [Calm]) (by simp [Task.Reconnects])
    | _ => cases h
  | markEntry error =>
    cases i with
    | go =>
      cases h
      exact .disconnects error
    | _ => cases h
  | marking =>
    cases i with
    | go =>
      simp only [Task.step] at h
      split_ifs at h
      rcases hio : c.io with _ | stream
      · rw [hio] at h
        cases h
        exact .same (by simp) (by simp) (.inr hio) (by simp [Calm]) (by simp [Task.Reconnects])
      · rw [hio] at h
        cases h
        exact .takes true (.inr rfl) (by simp [Calm]) (by simp [Task.Reconnects])
    | _ => cases h
  | markShutdown =>
    cases i with
    | finished =>
      cases h
      exact .quiet false (by simp) (by simp) (by simp) (by simp [Calm]) (by simp [Task.Reconnects])
    | _ => cases h
  | reconnectEntry =>
    cases i with
    | built r =>
      simp only [Task.step] at h
      split_ifs at h with hstate
      · cases h
        exact .same (by simp) (by simp) (by simp) (by simp [Calm]) (by simp [Task.Reconnects])
      · rw [not_or] at hstate
        cases r with
        | error e =>
          cases h
          exact .fails hstate.1 hstate.2
        | ok stream =>
          cases h
          exact .opens stream hstate.1 hstate.2
    | _ => cases h
  | installing stream =>
    cases i with
    | go =>
      simp only [Task.step] at h
      split_ifs at h
      cases h
      exact .installs stream
    | _ => cases h
  | ioEntry =>
    cases i with
    | go =>
      simp only [Task.step] at h
      split_ifs at h <;> cases h
      · exact .same (by simp) (by simp) (by simp) (by simp [Calm]) (by simp [Task.Reconnects])
      · exact .same (by simp) (by simp) (by simp) (by simp [Calm]) (by simp [Task.Reconnects])
    | _ => cases h
  | ioWaiting =>
    cases i with
    | go =>
      simp only [Task.step] at h
      split_ifs at h
      rcases hio : c.io with _ | stream
      · rw [hio] at h
        cases h
        exact .same (by simp) (by simp) (by simp) (by simp [Calm]) (by simp [Task.Reconnects])
      · rw [hio] at h
        cases h
        exact .quiet true (by simp) (by simp) (by simp) (by simp [Calm]) (by simp [Task.Reconnects])
    | _ => cases h
  | ioHolding =>
    cases i with
    | finished =>
      cases h
      exact .quiet false (by simp) (by simp) (by simp) (by simp [Calm]) (by simp [Task.Reconnects])
    | again =>
      simp only [Task.step] at h
      split_ifs at h <;> cases h
      · exact .quiet false (by simp) (by simp) (by simp) (by simp [Calm]) (by simp [Task.Reconnects])
      · exact .quiet false (by simp) (by simp) (by simp) (by simp [Calm]) (by simp [Task.Reconnects])
    | _ => cases h

/-- Nothing but a `reconnect` counts attempts, opens the connection or goes on
    as a `reconnect`. -/
theorem Effect.frame (h : Effect c t c' new) (ht : ¬t.Reconnects) :
    c'.reconnectAttempts = c.reconnectAttempts ∧ (c'.state = .opened → c.state = .opened) ∧
      ∀ t' ∈ new, ¬t'.Reconnects := by
  cases h with
  | quiet _ _ _ _ _ hnew' => exact ⟨rfl, id, hnew'⟩
  | closes => exact ⟨rfl, nofun, by simp [Task.Reconnects]⟩
  | takes _ _ _ hnew' => exact ⟨rfl, id, hnew'⟩
  | disconnects error => exact ⟨rfl, nofun, by simp [Task.Reconnects]⟩
  | fails _ _ => exact absurd trivial ht
  | opens _ _ _ => exact absurd trivial ht
  | installs _ => exact absurd trivial ht

end

/-! ## Closed is terminal, or not -/

/-- On a closed connection no `mark_disconnected` starts, and no `reconnect`
    that is past its check installs its stream. -/
def Kept (s : Session) : Move Task Input → Prop
  | .start t => t.Starts
  | .run n _ => s.world.state = .closed → ∀ t ∈ s.tasks[n]?,
      (∀ error, t ≠ .markEntry error) ∧ ∀ stream, t ≠ .installing stream

section
variable {s s' : Session} {m : Move Task Input} {stream : Stream}

theorem flag_of_runs (h : Runs Task.step AnyMove (Session.opened stream) s) :
    s.world.state = .closed → s.world.closed = true := by
  refine h.invariant (J := fun s => s.world.state = .closed → s.world.closed = true) ?_ ?_
  · intro s s' m hflag _ hs hstate
    obtain ⟨t, rfl, rfl⟩ | ⟨left, t, right, i, c, new, rfl, htasks, hstep, rfl⟩ := move_cases hs
    · exact hflag hstate
    · cases Task.step_effect hstep with
      | quiet => exact hflag hstate
      | closes => rfl
      | takes => exact hflag hstate
      | disconnects _ => cases hstate
      | fails _ _ => cases hstate
      | opens _ _ _ => cases hstate
      | installs _ => cases hstate
  · intro hstate
    cases hstate

/-- **Step**: a closed connection stays closed exactly when the step is kept. -/
theorem closed_move (hc : s.world.state = .closed) (hm : AnyMove s m)
    (hs : s.move Task.step m = some s') : s'.world.state = .closed ↔ Kept s m := by
  obtain ⟨t, rfl, rfl⟩ | ⟨left, t, right, i, c, new, rfl, htasks, hstep, rfl⟩ := move_cases hs
  · exact ⟨fun _ => hm, fun _ => hc⟩
  · have hkept : Kept s (.run left.length i) ↔
        (∀ error, t ≠ .markEntry error) ∧ ∀ stream, t ≠ .installing stream := by
      simp [Kept, hc, htasks]
    rw [hkept]
    cases Task.step_effect hstep with
    | quiet _ hmark hinstall => exact iff_of_true hc ⟨hmark, hinstall⟩
    | closes => simp [SerialConnection.beginClose]
    | takes _ ht =>
      refine iff_of_true hc ?_
      rcases ht with rfl | rfl <;> simp
    | disconnects error => simp [SerialConnection.beginDisconnect]
    | fails _ hstate => exact absurd hc hstate
    | opens _ _ hstate => exact absurd hc hstate
    | installs stream => simp [SerialConnection.install]

/-- A step on a closed connection with the flag set, if it is kept: the flag stays,
    and no stream comes in. -/
theorem kept_move (hc : s.world.state = .closed) (hflag : s.world.closed = true)
    (hm : Kept s m) (hs : s.move Task.step m = some s') :
    s'.world.closed = true ∧ (s'.world.io = s.world.io ∨ s'.world.io = none) := by
  obtain ⟨t, rfl, rfl⟩ | ⟨left, t, right, i, c, new, rfl, htasks, hstep, rfl⟩ := move_cases hs
  · exact ⟨hflag, .inl rfl⟩
  · have hkept := hm hc t (by simp [htasks])
    cases Task.step_effect hstep with
    | quiet => exact ⟨hflag, .inl rfl⟩
    | closes => exact ⟨rfl, .inl rfl⟩
    | takes => exact ⟨hflag, .inr rfl⟩
    | disconnects error => exact absurd rfl (hkept.1 error)
    | fails _ hstate => exact absurd hc hstate
    | opens _ _ hstate => exact absurd hc hstate
    | installs stream => exact absurd rfl (hkept.2 stream)

theorem Kept.anyMove (h : Kept s m) : AnyMove s m := by
  cases m with
  | start t => exact h
  | run n i => trivial

/-- **Closed is terminal as long as the steps are kept**: the connection stays
    closed, its flag stays set and no stream is installed.  The first step that
    is not kept takes the connection out of the closed state. -/
theorem closed_terminal (h : Runs Task.step AnyMove (Session.opened stream) s)
    (hc : s.world.state = .closed) :
    (∀ s', Runs Task.step Kept s s' → s'.world.state = .closed ∧ s'.world.closed = true ∧
      (s'.world.io = s.world.io ∨ s'.world.io = none)) ∧
    ∀ m s', AnyMove s m → s.move Task.step m = some s' →
      (s'.world.state = .closed ↔ Kept s m) := by
  refine ⟨fun s' hrun => ?_, fun m s' hm hs => closed_move hc hm hs⟩
  have hflag := flag_of_runs h hc
  refine hrun.invariant (J := fun s' => s'.world.state = .closed ∧ s'.world.closed = true ∧
    (s'.world.io = s.world.io ∨ s'.world.io = none)) ?_ ⟨hc, hflag, .inl rfl⟩
  rintro s₁ s₂ m ⟨hc₁, hflag₁, hio₁⟩ hm hs
  obtain ⟨hflag₂, hio₂⟩ := kept_move hc₁ hflag₁ hm hs
  refine ⟨(closed_move hc₁ hm.anyMove hs).2 hm, hflag₂, ?_⟩
  rcases hio₂ with hio₂ | hio₂
  · rwa [hio₂]
  · exact .inr hio₂

end

/-- A port that fails, and a `reconnect` with its new stream as `close` begins. -/
def closeDuringReconnect : List (Move Task Input) :=
  [.start (.markEntry "EIO"), .run 0 .go, .run 0 .go, .run 0 .finished,
    .start .reconnectEntry, .run 0 (.built (.ok ⟨1⟩)), .start .closeEntry, .run 1 .go]

/-- What `closeDuringReconnect` leads to. -/
def closedDuringReconnect : Session :=
  ⟨⟨.closed, true, true, none, false, 1, some "EIO"⟩, [.installing ⟨1⟩, .closing]⟩

theorem closeDuringReconnect_runs :
    Runs Task.step AnyMove (Session.opened ⟨0⟩) closedDuringReconnect := by
  have hplay : (Session.opened ⟨0⟩).play Task.step closeDuringReconnect =
      some closedDuringReconnect := rfl
  refine (Runs.of_play (D := AnyMove (Session.opened ⟨0⟩)) ?_ hplay).mono fun hm => hm
  simp [closeDuringReconnect, AnyMove, Task.Starts]

/-- `close` goes on and finds no stream: the connection stays closed, until the
    `reconnect` installs its own. -/
theorem closed_terminal_until_install :
    (Runs Task.step Kept closedDuringReconnect
      ⟨closedDuringReconnect.world, [.installing ⟨1⟩]⟩ ∧
      closedDuringReconnect.world.closed = true) ∧
    ¬ Kept closedDuringReconnect (.run 0 .go) := by
  have hclose : Runs Task.step Kept closedDuringReconnect
      ⟨closedDuringReconnect.world, [.installing ⟨1⟩]⟩ := by
    refine .tail (m := .run 1 (.cleared (.ok ()))) .refl ?_ rfl
    simp [Kept, closedDuringReconnect]
  obtain ⟨hrun, hstep⟩ := closed_terminal closeDuringReconnect_runs rfl
  refine ⟨⟨hclose, (hrun _ hclose).2.1⟩, fun hkept => ?_⟩
  have hstate := (hstep (.run 0 .go) _ trivial rfl).2 hkept
  cases hstate

/-- **A closed connection opens again**: the `reconnect` clears the flag, and
    the port is open on a connection that has left the registry. -/
theorem closed_not_terminal :
    ¬ ∀ (stream : Stream) (s s' : Session), Runs Task.step AnyMove (Session.opened stream) s →
      s.world.state = .closed → Runs Task.step AnyMove s s' →
        s'.world.state = .closed ∧ s'.world.closed = true ∧
          (s'.world.io = s.world.io ∨ s'.world.io = none) := by
  intro h
  have hinstall : Runs Task.step AnyMove closedDuringReconnect
      ⟨⟨.opened, false, true, some ⟨1⟩, false, 1, some "EIO"⟩, [.closing]⟩ :=
    .tail (m := .run 0 .go) .refl trivial rfl
  have hstate := (h _ _ _ closeDuringReconnect_runs rfl hinstall).1
  cases hstate

/-! ## An open connection has a port -/

/-- Nobody closes the connection, and no `reconnect` installs its stream while
    a `mark_disconnected` has yet to take the one before. -/
def Undisturbed (s : Session) : Move Task Input → Prop
  | .start t => t.Starts ∧ t ≠ .closeEntry
  | .run n _ => ∀ stream, s.tasks[n]? = some (.installing stream) → .marking ∉ s.tasks

/-- What holds between any two steps. -/
structure Ported (s : Session) : Prop where
  unclosed : s.world.state ≠ .closed
  nobody_closes : .closeEntry ∉ s.tasks ∧ .closing ∉ s.tasks
  /-- while the state says open there is a stream, and nobody is about to take it -/
  up : s.world.state = .opened → s.world.io.isSome ∧ .marking ∉ s.tasks
  /-- otherwise the slot is empty, or somebody is about to empty it -/
  down : s.world.state ≠ .opened → s.world.io = none ∨ .marking ∈ s.tasks

section
variable {s s' : Session} {m : Move Task Input} {stream : Stream}

theorem Ported.opened : Ported (Session.opened stream) where
  unclosed := nofun
  nobody_closes := by simp [Session.opened]
  up _ := ⟨rfl, by simp [Session.opened]⟩
  down h := absurd rfl h

theorem marking_mem_iff {left right new : List Task} {t : Task} (ht : t ≠ .marking)
    (hnew : Calm new) :
    .marking ∈ left ++ new ++ right ↔ .marking ∈ left ++ t :: right := by
  simp [hnew.1, ht.symm]

theorem nobody_closes_of_calm {left right new : List Task} {t : Task} (hnew : Calm new)
    (h : .closeEntry ∉ left ++ t :: right ∧ .closing ∉ left ++ t :: right) :
    .closeEntry ∉ left ++ new ++ right ∧ .closing ∉ left ++ new ++ right := by
  simp only [List.mem_append, List.mem_cons, not_or] at h ⊢
  exact ⟨⟨⟨h.1.1, hnew.2.2⟩, h.1.2.2⟩, ⟨⟨h.2.1, hnew.2.1⟩, h.2.2.2⟩⟩

/-- **Step**: without a close, and with no stream installed too early. -/
theorem Ported.move (h : Ported s) (hm : Undisturbed s m)
    (hs : s.move Task.step m = some s') : Ported s' := by
  obtain ⟨t, rfl, rfl⟩ | ⟨left, t, right, i, c, new, rfl, htasks, hstep, rfl⟩ := move_cases hs
  · have hstart : t ≠ .marking ∧ t ≠ .closing := by
      constructor <;> rintro rfl <;> exact hm.1
    refine ⟨h.unclosed, ?_, fun hup => ?_, fun hdown => ?_⟩
    · simpa [hm.2.symm, hstart.2.symm] using h.nobody_closes
    · simpa [hstart.1.symm] using h.up hup
    · exact (h.down hdown).imp id fun hmem => List.mem_append_left _ hmem
  · obtain ⟨hclosed, hcloses, hup, hdown⟩ := h
    rw [htasks] at hcloses hup hdown
    have hcalm : Calm [] := by simp [Calm]
    cases Task.step_effect hstep with
    | quiet locked _ _ ht hnew _ =>
      refine ⟨hclosed, nobody_closes_of_calm hnew hcloses, fun hstate => ?_, fun hstate => ?_⟩
      · obtain ⟨hio, hmark⟩ := hup hstate
        have ht : t ≠ .marking := by
          rintro rfl
          simp at hmark
        exact ⟨hio, fun hmem => hmark ((marking_mem_iff ht hnew).1 hmem)⟩
      · rcases ht with ht | hio
        · exact (hdown hstate).imp id (marking_mem_iff ht hnew).2
        · exact .inl hio
    | closes => simp at hcloses
    | takes locked ht hnew _ =>
      have ht : t = .marking := by
        rcases ht with rfl | rfl
        · simp at hcloses
        · rfl
      subst ht
      refine ⟨hclosed, nobody_closes_of_calm hnew hcloses, fun hstate => ?_, fun _ => .inl rfl⟩
      have hmark := (hup hstate).2
      simp at hmark
    | disconnects error =>
      refine ⟨nofun, ?_, nofun, fun _ => .inr (by simp)⟩
      simpa using hcloses
    | fails hstate _ =>
      refine ⟨nofun, nobody_closes_of_calm hcalm hcloses, nofun, fun _ => ?_⟩
      exact (hdown hstate).imp id (marking_mem_iff (by simp) hcalm).2
    | opens stream hstate _ =>
      have hnew : Calm [.installing stream] := by simp [Calm]
      refine ⟨nofun, nobody_closes_of_calm hnew hcloses, nofun, fun _ => ?_⟩
      exact (hdown hstate).imp id (marking_mem_iff (by simp) hnew).2
    | installs stream =>
      have hmark := hm stream (by simp [htasks])
      rw [htasks, ← marking_mem_iff (by simp) hcalm] at hmark
      exact ⟨nofun, nobody_closes_of_calm hcalm hcloses, fun _ => ⟨rfl, hmark⟩,
        fun hstate => absurd rfl hstate⟩

/-- Neither `mark_disconnected` nor `reconnect` is in progress. -/
def Settled (s : Session) : Prop :=
  ∀ t ∈ s.tasks, t ≠ .marking ∧ t ≠ .markShutdown ∧ ∀ stream, t ≠ .installing stream

/-- **An open connection has a port**, and a disconnected one has none, whenever
    neither `mark_disconnected` nor `reconnect` is in progress, after a run in
    which no stream is installed before the old one is taken. -/
theorem open_has_port (h : Runs Task.step Undisturbed (Session.opened stream) s)
    (hs : Settled s) :
    (s.world.state = .opened → s.world.io.isSome) ∧
    (s.world.state = .disconnected → s.world.io = none) := by
  have hported : Ported s := h.invariant (fun hp hm hs => hp.move hm hs) .opened
  refine ⟨fun hstate => (hported.up hstate).1, fun hstate => ?_⟩
  refine (hported.down (by simp [hstate])).resolve_right fun hmem => ?_
  exact (hs _ hmem).1 rfl

end

/-- A port fails, its stream is shut down, and then it comes back. -/
theorem open_has_port_after_reconnect : ∃ s,
    Runs Task.step Undisturbed (Session.opened ⟨0⟩) s ∧ s.tasks = [] ∧
      s.world.state = .opened ∧ s.world.io.isSome := by
  have hmark : Runs Task.step Undisturbed (Session.opened ⟨0⟩)
      ⟨⟨.disconnected, false, false, some ⟨0⟩, false, 0, some "EIO"⟩, [.marking]⟩ :=
    .tail (m := .run 0 .go) (.tail (m := .start (.markEntry "EIO")) .refl ⟨trivial, nofun⟩ rfl)
      nofun rfl
  have hdown : Runs Task.step Undisturbed (Session.opened ⟨0⟩)
      ⟨⟨.disconnected, false, false, none, false, 0, some "EIO"⟩, []⟩ :=
    .tail (m := .run 0 .finished) (.tail (m := .run 0 .go) hmark nofun rfl) nofun rfl
  have hbuilt : Runs Task.step Undisturbed (Session.opened ⟨0⟩)
      ⟨⟨.reconnecting, false, false, none, false, 1, some "EIO"⟩, [.installing ⟨1⟩]⟩ :=
    .tail (m := .run 0 (.built (.ok ⟨1⟩)))
      (.tail (m := .start .reconnectEntry) hdown ⟨trivial, nofun⟩ rfl) nofun rfl
  have hup : Runs Task.step Undisturbed (Session.opened ⟨0⟩)
      ⟨⟨.opened, false, false, some ⟨1⟩, false, 1, some "EIO"⟩, []⟩ := by
    refine .tail (m := .run 0 .go) hbuilt ?_ rfl
    simp [Undisturbed]
  exact ⟨_, hup, rfl, rfl, (open_has_port hup nofun).1 rfl⟩

/-- The port fails for two callers.  The first holds the lock while it shuts the
    stream down; a `reconnect` opens another one and waits for the lock; then
    the second finds the error, and waits behind it. -/
def markBehindReconnect : List (Move Task Input) :=
  [.start (.markEntry "EIO"), .run 0 .go, .run 0 .go,
    .start .reconnectEntry, .run 1 (.built (.ok ⟨1⟩)),
    .start (.markEntry "EIO"), .run 2 .go,
    .run 0 .finished, .run 0 .go, .run 0 .go, .run 0 .finished]

/-- **Open without a port**: the second caller takes the stream that the
    `reconnect` has just installed, and nobody is left to notice. -/
theorem open_without_port :
    ¬ ∀ (stream : Stream) (s : Session),
      Runs Task.step (fun s m => AnyMove s m ∧ m ≠ .start .closeEntry) (Session.opened stream) s →
      Settled s → (s.world.state = .opened → s.world.io.isSome) ∧
        (s.world.state = .disconnected → s.world.io = none) := by
  intro h
  have hrun : Runs Task.step (fun s m => AnyMove s m ∧ m ≠ .start .closeEntry)
      (Session.opened ⟨0⟩) ⟨⟨.opened, false, false, none, false, 1, some "EIO"⟩, []⟩ := by
    have hplay : (Session.opened ⟨0⟩).play Task.step markBehindReconnect =
        some ⟨⟨.opened, false, false, none, false, 1, some "EIO"⟩, []⟩ := rfl
    refine (Runs.of_play (D := fun m => AnyMove (Session.opened ⟨0⟩) m ∧ m ≠ .start .closeEntry)
      ?_ hplay).mono fun hm => hm
    simp [markBehindReconnect, AnyMove, Task.Starts]
  have hio := (h _ _ hrun nofun).1 rfl
  cases hio

end SerialMcp.Connection
