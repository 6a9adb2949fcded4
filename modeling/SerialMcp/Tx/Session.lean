/-
  The TX session of a connection (`tx_session.rs`, with `write` and
  `flush_buffers` of `serial/connection.rs`).

  Calls queue their requests in a bounded channel; a worker takes them one by
  one, works on the port under the `io` lock and answers each through its
  oneshot.  All of it is interleaved at the awaits, with the calls that open,
  close and reconnect the connection; a call may be dropped at any await, and
  a session that was removed may have a successor while its worker still runs.

  * `World`: the connection, what the port was given to do, and the sessions;
  * `Task.step`: the calls, the workers and the removal, one await at a time;
  * `Task.step_effect`: all that one step may do.
-/
import SerialMcp.Lib.Channels
import SerialMcp.Connection
import SerialMcp.Pump

namespace SerialMcp.Tx

open Tasks Channels
open Connection (SerialConnection Stream)

/-! ## Requests -/

/-- `TX_CHANNEL_CAPACITY` -/
def txChannelCapacity : ℕ := 64

/-- What the port is given to do. -/
inductive PortOp where
  | byte (b : UInt8)
  /-- `clear_os_buffers(Output)`, when it succeeds -/
  | clearOutput
  deriving DecidableEq, Repr

/-- What a request asks for. -/
inductive TxOp where
  | write (data : Bytes)
  | flush
  deriving DecidableEq, Repr

/-- `TxRequest`, with the number of its oneshot. -/
structure TxRequest where
  ack : ℕ
  op : TxOp
  deriving DecidableEq, Repr

/-- What a request that succeeds answers. -/
inductive Done where
  | written (n : ℕ)
  | flushed
  deriving DecidableEq, Repr

/-- What a request answers. -/
abbrev Answer := Except SerialError Done

/-- What the port does for a request, all of it. -/
def TxOp.ops : TxOp → List PortOp
  | .write data => data.map .byte
  | .flush => [.clearOutput]

/-- What the request answers then. -/
def TxOp.done : TxOp → Done
  | .write data => .written data.length
  | .flush => .flushed

/-- The bytes counted for it. -/
def Done.bytes : Done → ℕ
  | .written n => n
  | .flushed => 0

/-- A request that got to the port, and how much of it did. -/
structure Performed where
  session : ℕ
  request : TxRequest
  sent : ℕ
  deriving DecidableEq, Repr

def Performed.ops (p : Performed) : List PortOp := p.request.op.ops.take p.sent

/-! ## Sessions -/

/-- `TxSession` -/
structure TxSession where
  /-- `tx` has not been taken -/
  sender : Bool
  /-- the clones of `tx` that calls hold -/
  clones : ℕ
  chan : Chan TxRequest txChannelCapacity

namespace TxSession

def new : TxSession := ⟨true, 0, .new⟩

/-- A call clones `tx`. -/
def clone (s : TxSession) : TxSession := { s with clones := s.clones + 1 }

/-- A call drops its clone. -/
def release (s : TxSession) : TxSession := { s with clones := s.clones - 1 }

/-- `shutdown_and_join` takes `tx`. -/
def shutdown (s : TxSession) : TxSession := { s with sender := false }

def withChan (s : TxSession) (c : Chan TxRequest txChannelCapacity) : TxSession :=
  { s with chan := c }

end TxSession

/-- One connection with all the sessions it has had. -/
structure World where
  connection : SerialConnection
  /-- what the port was given to do -/
  port : List PortOp
  /-- `tx_bytes`, below 2^64 -/
  txBytes : ℕ
  sessions : List TxSession
  /-- the entry of the connection in `TxSessionManager` -/
  registered : Option ℕ
  nextAck : ℕ
  /-- what became of the oneshots: an answer was sent, or the sender was dropped -/
  acks : List (ℕ × Option Answer)
  /-- what the calls returned -/
  replies : List (ℕ × Answer)
  /-- the requests that got to the port, in order -/
  performed : List Performed

namespace World

/-- A connection that was just opened. -/
def opened (stream : Stream) : World := ⟨.opened stream, [], 0, [], none, 0, [], [], []⟩

/-- Put a session in its place. -/
def update (w : World) (k : ℕ) (s : TxSession) : World :=
  { w with sessions := w.sessions.set k s }

/-- A oneshot is used, or its sender is dropped. -/
def resolve (w : World) (ack : ℕ) (outcome : Option Answer) : World :=
  { w with acks := w.acks ++ [(ack, outcome)] }

/-- A call returns. -/
def reply (w : World) (ack : ℕ) (answer : Answer) : World :=
  { w with replies := w.replies ++ [(ack, answer)] }

/-- A oneshot with its number. -/
def issue (w : World) : World := { w with nextAck := w.nextAck + 1 }

/-- The receiver of a session is dropped, and with it what is queued. -/
def finish (w : World) (k : ℕ) (s : TxSession) : World :=
  { w.update k (s.withChan s.chan.close) with
    acks := w.acks ++ s.chan.queue.map fun r => (r.ack, none) }

/-- A request gets to the port. -/
def perform (w : World) (k : ℕ) (r : TxRequest) (sent : ℕ) : World :=
  { w with
    port := w.port ++ r.op.ops.take sent
    performed := w.performed ++ [⟨k, r, sent⟩] }

/-- The port takes more of the request that it is at. -/
def proceed (w : World) (k : ℕ) (r : TxRequest) (sent n : ℕ) : World :=
  { w with
    port := w.port ++ (r.op.ops.drop sent).take n
    performed := w.performed.dropLast ++ [⟨k, r, sent + n⟩] }

def lock (w : World) : World := { w with connection := w.connection.lock }

def unlock (w : World) : World := { w with connection := w.connection.unlock }

/-- `record_tx_bytes` -/
def recordTxBytes (w : World) (n : ℕ) : World := { w with txBytes := w.txBytes + n }

end World

/-! ## Calls and workers at their awaits -/

/-- A task in progress. -/
inductive Task where
  /-- a tool about to get the session of the connection -/
  | acquire (op : TxOp)
  /-- `TxSession::write` or `flush_output`, at its entry -/
  | entry (k : ℕ) (op : TxOp)
  /-- the call, waiting for room in the channel -/
  | sending (k : ℕ) (r : TxRequest)
  /-- the call, waiting for its oneshot -/
  | awaiting (k : ℕ) (r : TxRequest)
  /-- `tx_worker`, at its `select!` -/
  | idle (k : ℕ)
  /-- the worker with a request, waiting for the `io` lock -/
  | locking (k : ℕ) (r : TxRequest)
  /-- the worker in `write_all`, under the lock -/
  | writing (k : ℕ) (r : TxRequest) (sent : ℕ)
  /-- the worker in `io.flush()`, under the lock -/
  | flushing (k : ℕ) (r : TxRequest)
  /-- `TxSessionManager::remove`, at its entry -/
  | remove
  /-- `shutdown_and_join`, waiting for the worker -/
  | joining (k : ℕ)
  /-- another call on the connection -/
  | life (t : Connection.Task)
  deriving DecidableEq, Repr

/-- What a task waits for. -/
inductive Input where
  /-- its turn, or the lock -/
  | go
  /-- its future is dropped -/
  | dropped
  /-- `close_token.cancelled()` -/
  | cancelled
  /-- `poll_write` took some bytes -/
  | took (n : ℕ)
  /-- what `clear_os_buffers` returns: a failure is fatal or not -/
  | cleared (result : Except Bool Unit)
  /-- an I/O error, fatal or not -/
  | failed (fatal : Bool)
  | finished
  /-- for another call -/
  | life (i : Connection.Input)

/-- Where a worker goes on after the port has taken so much. -/
def writeOn (k : ℕ) (r : TxRequest) (sent : ℕ) : Task :=
  if sent < r.op.ops.length then .writing k r sent else .flushing k r

/-- The worker answers a request and goes back to its `select!`. -/
def answer (w : World) (k : ℕ) (r : TxRequest) (a : Answer) : World × List Task :=
  (w.resolve r.ack (some a), [.idle k])

/-- What a task does next: the world after it, and what goes on in its place. -/
def Task.step : Task → Input → World → Option (World × List Task)
  | .acquire op, .go, w =>
    match w.registered with
    | some k => some (w, [.entry k op])
    | none =>
      some ({ w with sessions := w.sessions ++ [.new], registered := some w.sessions.length },
        [.idle w.sessions.length, .entry w.sessions.length op])
  | .acquire _, .dropped, w => some (w, [])
  | .entry k op, .go, w => w.sessions[k]?.map fun s =>
    if s.sender then (w.issue.update k s.clone, [.sending k ⟨w.nextAck, op⟩])
    else ((w.issue.resolve w.nextAck none).reply w.nextAck (.error .connectionClosed), [])
  | .entry _ _, .dropped, w => some (w, [])
  | .sending k r, .go, w => w.sessions[k]?.bind fun s =>
    if s.chan.closed then
      some (((w.update k s.release).resolve r.ack none).reply r.ack (.error .connectionClosed), [])
    else (s.chan.send r).map fun c => (w.update k (s.withChan c), [.awaiting k r])
  | .sending k r, .dropped, w => w.sessions[k]?.map fun s =>
    ((w.update k s.release).resolve r.ack none, [])
  | .awaiting k r, .go, w => w.sessions[k]?.bind fun s => (w.acks.lookup r.ack).map fun outcome =>
    ((w.update k s.release).reply r.ack (outcome.getD (.error .connectionClosed)), [])
  | .awaiting k _, .dropped, w => w.sessions[k]?.map fun s => (w.update k s.release, [])
  | .idle k, .cancelled, w => w.sessions[k]?.bind fun s =>
    if w.connection.cancelled then some (w.finish k s, []) else none
  | .idle k, .go, w => w.sessions[k]?.bind fun s =>
    match s.chan.recv with
    -- all senders are gone
    | none => if s.sender = false ∧ s.clones = 0 then some (w.finish k s, []) else none
    | some (r, c) =>
      if w.connection.closed then
        some (answer (w.update k (s.withChan c)) k r (.error .connectionClosed))
      else some (w.update k (s.withChan c), [.locking k r])
  | .locking k r, i, w =>
    if w.connection.locked then none
    else match w.connection.io, r.op, i with
      | none, _, .go => some (answer w k r (.error .connectionClosed))
      | some _, .write _, .go => some ((w.perform k r 0).lock, [writeOn k r 0])
      | some _, .flush, .cleared (.ok ()) => some (answer (w.perform k r 1) k r (.ok .flushed))
      | some _, .flush, .cleared (.error fatal) =>
        some (answer (w.perform k r 0) k r (.error (.ioError fatal)))
      | _, _, _ => none
  | .writing k r sent, .took n, w =>
    -- `write_all` fails on a port that takes nothing
    if n = 0 then some (answer w.unlock k r (.error (.ioError false)))
    else if sent + n ≤ r.op.ops.length then
      some (w.proceed k r sent n, [writeOn k r (sent + n)])
    else none
  | .writing k r _, .failed fatal, w => some (answer w.unlock k r (.error (.ioError fatal)))
  | .flushing k r, .finished, w =>
    some (answer (w.unlock.recordTxBytes r.op.done.bytes) k r (.ok r.op.done))
  | .flushing k r, .failed fatal, w => some (answer w.unlock k r (.error (.ioError fatal)))
  | .remove, .go, w =>
    match w.registered with
    | none => some (w, [])
    | some k => w.sessions[k]?.map fun s =>
      ({ w with registered := none }.update k s.shutdown, [.joining k])
  | .remove, .dropped, w => some (w, [])
  | .joining k, .go, w => w.sessions[k]?.bind fun s => if s.chan.closed then some (w, []) else none
  | .joining _, .dropped, w => some (w, [])
  | .life t, .life i, w => (t.step i w.connection).map fun r =>
    ({ w with connection := r.1 }, r.2.map .life)
  | _, _, _ => none

/-- A connection with all that is in progress on it. -/
abbrev Link : Type := State World Task

def Link.opened (stream : Stream) : Link := ⟨.opened stream, []⟩

/-- The calls that may be made. -/
def Task.Starts : Task → Prop
  | .acquire _ | .remove => True
  | .life t => t.Starts
  | _ => False

/-- Every interleaving of any number of calls. -/
def AnyMove (_ : Link) : Move Task Input → Prop
  | .start t => t.Starts
  | .run _ _ => True

/-! ## What a step does -/

/-- All that one step may do. -/
inductive Effect (w : World) : Task → World → List Task → Prop
  | finds {op} (k : ℕ) (hk : w.registered = some k) : Effect w (.acquire op) w [.entry k op]
  | creates {op} (hk : w.registered = none) :
      Effect w (.acquire op)
        { w with sessions := w.sessions ++ [.new], registered := some w.sessions.length }
        [.idle w.sessions.length, .entry w.sessions.length op]
  /-- nothing happens, and the task is over -/
  | ends {t} (ht : (∃ op, t = .acquire op) ∨ (∃ k op, t = .entry k op) ∨ t = .remove ∨
      (∃ k, t = .joining k)) : Effect w t w []
  | issues {k op} (s : TxSession) (hs : w.sessions[k]? = some s) (hsender : s.sender = true) :
      Effect w (.entry k op) (w.issue.update k s.clone) [.sending k ⟨w.nextAck, op⟩]
  | refuses {k op} (s : TxSession) (hs : w.sessions[k]? = some s) (hsender : s.sender = false) :
      Effect w (.entry k op)
        ((w.issue.resolve w.nextAck none).reply w.nextAck (.error .connectionClosed)) []
  | returns {k r} (s : TxSession) (hs : w.sessions[k]? = some s) (hclosed : s.chan.closed = true) :
      Effect w (.sending k r)
        (((w.update k s.release).resolve r.ack none).reply r.ack (.error .connectionClosed)) []
  | withdraws {k r} (s : TxSession) (hs : w.sessions[k]? = some s) :
      Effect w (.sending k r) ((w.update k s.release).resolve r.ack none) []
  | sends {k r} (s : TxSession) (c : Chan TxRequest txChannelCapacity)
      (hs : w.sessions[k]? = some s) (hc : s.chan.send r = some c) :
      Effect w (.sending k r) (w.update k (s.withChan c)) [.awaiting k r]
  | replies {k r} (s : TxSession) (outcome : Option Answer) (hs : w.sessions[k]? = some s)
      (hack : w.acks.lookup r.ack = some outcome) :
      Effect w (.awaiting k r)
        ((w.update k s.release).reply r.ack (outcome.getD (.error .connectionClosed))) []
  | leaves {k r} (s : TxSession) (hs : w.sessions[k]? = some s) :
      Effect w (.awaiting k r) (w.update k s.release) []
  | finishes {k} (s : TxSession) (hs : w.sessions[k]? = some s) :
      Effect w (.idle k) (w.finish k s) []
  | rejects {k} (s : TxSession) (r : TxRequest) (c : Chan TxRequest txChannelCapacity)
      (hs : w.sessions[k]? = some s) (hr : s.chan.recv = some (r, c))
      (hclosed : w.connection.closed = true) :
      Effect w (.idle k)
        ((w.update k (s.withChan c)).resolve r.ack (some (.error .connectionClosed))) [.idle k]
  | takes {k} (s : TxSession) (r : TxRequest) (c : Chan TxRequest txChannelCapacity)
      (hs : w.sessions[k]? = some s) (hr : s.chan.recv = some (r, c)) :
      Effect w (.idle k) (w.update k (s.withChan c)) [.locking k r]
  | misses {k r} (hlocked : w.connection.locked = false) (hio : w.connection.io = none) :
      Effect w (.locking k r) (w.resolve r.ack (some (.error .connectionClosed))) [.idle k]
  | begins {k r data} (hlocked : w.connection.locked = false) (hio : w.connection.io ≠ none)
      (hop : r.op = .write data) :
      Effect w (.locking k r) (w.perform k r 0).lock [writeOn k r 0]
  | clears {k r} (hlocked : w.connection.locked = false) (hio : w.connection.io ≠ none)
      (hop : r.op = .flush) :
      Effect w (.locking k r) ((w.perform k r 1).resolve r.ack (some (.ok .flushed))) [.idle k]
  | clearFails {k r} (fatal : Bool) (hlocked : w.connection.locked = false)
      (hio : w.connection.io ≠ none) (hop : r.op = .flush) :
      Effect w (.locking k r)
        ((w.perform k r 0).resolve r.ack (some (.error (.ioError fatal)))) [.idle k]
  | proceeds {k r sent} (n : ℕ) (hn : sent + n ≤ r.op.ops.length) :
      Effect w (.writing k r sent) (w.proceed k r sent n) [writeOn k r (sent + n)]
  | breaks {t k r} (fatal : Bool) (ht : (∃ sent, t = .writing k r sent) ∨ t = .flushing k r) :
      Effect w t (w.unlock.resolve r.ack (some (.error (.ioError fatal)))) [.idle k]
  | completes {k r} :
      Effect w (.flushing k r)
        ((w.unlock.recordTxBytes r.op.done.bytes).resolve r.ack (some (.ok r.op.done))) [.idle k]
  | removes {k} (s : TxSession) (hk : w.registered = some k) (hs : w.sessions[k]? = some s) :
      Effect w .remove ({ w with registered := none }.update k s.shutdown) [.joining k]
  | lives {t i c new} (h : Connection.Task.step t i w.connection = some (c, new)) :
      Effect w (.life t) { w with connection := c } (new.map .life)

section
variable {w w' : World} {t : Task} {i : Input} {new : List Task} {k : ℕ} {r : TxRequest}

theorem locking_effect (h : Task.step (.locking k r) i w = some (w', new)) :
    Effect w (.locking k r) w' new := by
  simp only [Task.step] at h
  split_ifs at h with hlocked
  rw [Bool.not_eq_true] at hlocked
  split at h
  · rename_i hio
    cases h
    exact .misses hlocked hio
  · rename_i stream data hio hop
    cases h
    exact .begins hlocked (by simp [hio]) hop
  · rename_i stream hio hop
    cases h
    exact .clears hlocked (by simp [hio]) hop
  · rename_i stream fatal hio hop
    cases h
    exact .clearFails fatal hlocked (by simp [hio]) hop
  · cases h

theorem idle_effect (h : Task.step (.idle k) i w = some (w', new)) :
    Effect w (.idle k) w' new := by
  cases i with
  | cancelled =>
    simp only [Task.step, Option.bind_eq_some_iff] at h
    obtain ⟨s, hs, h⟩ := h
    split_ifs at h
    cases h
    exact .finishes s hs
  | go =>
    simp only [Task.step, Option.bind_eq_some_iff] at h
    obtain ⟨s, hs, h⟩ := h
    split at h
    · split_ifs at h
      cases h
      exact .finishes s hs
    · rename_i r c hr
      split_ifs at h with hclosed
      · cases h
        exact .rejects s r c hs hr hclosed
      · cases h
        exact .takes s r c hs hr
  | _ => cases h

theorem Task.step_effect (h : Task.step t i w = some (w', new)) : Effect w t w' new := by
  cases t with
  | acquire op =>
    cases i with
    | go =>
      simp only [Task.step] at h
      split at h
      · rename_i k hk
        cases h
        exact .finds k hk
      · rename_i hk
        cases h
        exact .creates hk
    | dropped =>
      cases h
      exact .ends (.inl ⟨op, rfl⟩)
    | _ => cases h
  | entry k op =>
    cases i with
    | go =>
      simp only [Task.step, Option.map_eq_some_iff] at h
      obtain ⟨s, hs, h⟩ := h
      split_ifs at h with hsender
      · cases h
        exact .issues s hs hsender
      · cases h
        exact .refuses s hs (Bool.not_eq_true _ ▸ hsender)
    | dropped =>
      cases h
      exact .ends (.inr (.inl ⟨k, op, rfl⟩))
    | _ => cases h
  | sending k r =>
    cases i with
    | go =>
      simp only [Task.step, Option.bind_eq_some_iff] at h
      obtain ⟨s, hs, h⟩ := h
      split_ifs at h with hclosed
      · cases h
        exact .returns s hs hclosed
      · rw [Option.map_eq_some_iff] at h
        obtain ⟨c, hc, h⟩ := h
        cases h
        exact .sends s c hs hc
    | dropped =>
      simp only [Task.step, Option.map_eq_some_iff] at h
      obtain ⟨s, hs, h⟩ := h
      cases h
      exact .withdraws s hs
    | _ => cases h
  | awaiting k r =>
    cases i with
    | go =>
      simp only [Task.step, Option.bind_eq_some_iff, Option.map_eq_some_iff] at h
      obtain ⟨s, hs, outcome, hack, h⟩ := h
      cases h
      exact .replies s outcome hs hack
    | dropped =>
      simp only [Task.step, Option.map_eq_some_iff] at h
      obtain ⟨s, hs, h⟩ := h
      cases h
      exact .leaves s hs
    | _ => cases h
  | idle k => exact idle_effect h
  | locking k r => exact locking_effect h
  | writing k r sent =>
    cases i with
    | took n =>
      simp only [Task.step] at h
      split_ifs at h with hn hlen
      · cases h
        exact .breaks false (.inl ⟨sent, rfl⟩)
      · cases h
        exact .proceeds n hlen
    | failed fatal =>
      cases h
      exact .breaks fatal (.inl ⟨sent, rfl⟩)
    | _ => cases h
  | flushing k r =>
    cases i with
    | finished =>
      cases h
      exact .completes
    | failed fatal =>
      cases h
      exact .breaks fatal (.inr rfl)
    | _ => cases h
  | remove =>
    cases i with
    | go =>
      simp only [Task.step] at h
      split at h
      · cases h
        exact .ends (.inr (.inr (.inl rfl)))
      · rename_i k hk
        rw [Option.map_eq_some_iff] at h
        obtain ⟨s, hs, h⟩ := h
        cases h
        exact .removes s hk hs
    | dropped =>
      cases h
      exact .ends (.inr (.inr (.inl rfl)))
    | _ => cases h
  | joining k =>
    cases i with
    | go =>
      simp only [Task.step, Option.bind_eq_some_iff] at h
      obtain ⟨s, hs, h⟩ := h
      split_ifs at h
      cases h
      exact .ends (.inr (.inr (.inr ⟨k, rfl⟩)))
    | dropped =>
      cases h
      exact .ends (.inr (.inr (.inr ⟨k, rfl⟩)))
    | _ => cases h
  | life t =>
    cases i with
    | life i =>
      simp only [Task.step, Option.map_eq_some_iff] at h
      obtain ⟨⟨c, new'⟩, hstep, h⟩ := h
      cases h
      exact .lives hstep
    | _ => cases h

end

end SerialMcp.Tx
