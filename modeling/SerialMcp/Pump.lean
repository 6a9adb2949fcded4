/-
  The RX pump and everything else that works on an open connection
  (`rx_session.rs`, `serial/connection.rs`, the raw resource in `server.rs`).

  The port hands each received byte to exactly one `io.read` call.  The pump
  reads the port and appends to the ring; a read of the resource
  `serial://connections/{id}/raw` reads the port, too.

  * `SerialConnection.read`, `readLatest`, `pumpLoop`: the readers of the port,
    with their polls, timeouts and error paths.
  * `ring_captures`: in every interleaving in which only the pump finds bytes
    at the port, the ring and the chunk in the pump's hands hold exactly the
    bytes read from it, in order; a byte read by anyone else is a hole for good.

  The pump gate is left out: only `capture_boot` contends for it.
-/
import SerialMcp.Read.Loop

namespace SerialMcp

open Interact RxOp

/-! ## The connection -/

/-- `SerialError`, as far as reads and writes can fail; `waiting` is a read
    still waiting after the given number of polls. -/
inductive SerialError where
  | connectionClosed
  | readTimeout
  | unexpectedEof
  | ioError (fatal : Bool)
  | waiting
  deriving DecidableEq, Repr

/-- `is_fatal_disconnect` on an I/O error. -/
def SerialError.isFatal : SerialError → Bool
  | .unexpectedEof => true
  | .ioError fatal => fatal
  | _ => false

/-- What a read of the port answers within its time. -/
inductive Polled where
  | data (bytes : Bytes)
  | elapsed
  /-- the read returned no bytes: the peer closed -/
  | eof
  /-- an I/O error, fatal or not -/
  | failed (fatal : Bool)
  /-- no port, or the connection is being closed -/
  | closed
  deriving DecidableEq, Repr

/-- What the port has to offer to the next read. -/
inductive Offer where
  | bytes (n : ℕ)
  | eof
  | failed (fatal : Bool)
  | closed
  deriving DecidableEq, Repr

/-- A connection: what its reads share, and the port. -/
structure Link where
  rx : World
  /-- the flag `closed` -/
  isClosed : Bool
  /-- `close_token` -/
  closing : Bool
  /-- the token of the pump -/
  pumpCancelled : Bool
  /-- received bytes that no read of the port has obtained yet -/
  osBuffer : Bytes
  /-- all bytes that reads of the port obtained, in order -/
  osRead : Bytes
  offer : Offer
  /-- whether a write to the port succeeds, and how it fails -/
  writable : Except SerialError Unit
  rxBytes : ℕ
  txBytes : ℕ

/-- The atomic operations on a connection. -/
inductive LinkOp where
  | rx (op : RxOp)
  | ensureOpen
  | closeToken
  | pumpToken
  /-- lock the port and read at most `max` bytes within `wait` nanoseconds -/
  | poll (max : ℕ) (wait : Option ℕ)
  | recordRx (n : ℕ)
  | append (bytes : Bytes)
  | markDisconnected
  /-- lock the port, write and flush -/
  | writeAll (bytes : Bytes)
  | recordTx (n : ℕ)
  deriving DecidableEq, Repr

/-- What an operation answers. -/
abbrev LinkOp.Resp : LinkOp → Type
  | .rx op => op.Resp
  | .ensureOpen | .closeToken | .pumpToken => Bool
  | .poll .. => Polled
  | .writeAll _ => Except SerialError Unit
  | .recordRx _ | .append _ | .markDisconnected | .recordTx _ => Unit

/-- A program over these operations. -/
abbrev LinkProg (α : Type) := Prog LinkOp LinkOp.Resp α

/-- An operation performed, with its answer. -/
abbrev LinkEvent := Event LinkOp LinkOp.Resp

/-- The bytes a read of at most `max` bytes finds at the port. -/
def Link.ready (l : Link) (max : ℕ) : Bytes :=
  match l.offer with
  | .bytes n => l.osBuffer.take (min n max)
  | _ => []

/-- What a read of the port answers: it hands out bytes if it has some, and at
    most as many as asked for. -/
def Link.poll (l : Link) (max : ℕ) : Polled × Link :=
  match l.offer with
  | .bytes _ =>
    let bytes := l.ready max
    if bytes.isEmpty then (.elapsed, l)
    else (.data bytes,
      { l with osBuffer := l.osBuffer.drop bytes.length, osRead := l.osRead ++ bytes })
  | .eof => (.eof, l)
  | .failed fatal => (.failed fatal, l)
  | .closed => (.closed, l)

/-- What an operation answers and does. -/
def linkAct : (op : LinkOp) → Link → op.Resp × Link
  | .rx op, l => ((act op l.rx).1, { l with rx := (act op l.rx).2 })
  | .ensureOpen, l => (!l.isClosed, l)
  | .closeToken, l => (l.closing, l)
  | .pumpToken, l => (l.pumpCancelled, l)
  | .poll max _, l => l.poll max
  | .recordRx n, l => ((), { l with rxBytes := l.rxBytes + n })
  | .append bytes, l => ((), { l with rx := l.rx.receive bytes })
  | .markDisconnected, l => ((), { l with rx := { l.rx with connection := .disconnected } })
  | .writeAll _, l => (l.writable, l)
  | .recordTx n, l => ((), { l with txBytes := l.txBytes + n })

/-- A program of reads, on the connection. -/
def onRing {α : Type} (p : RxProg α) : LinkProg α := p.lift LinkOp.rx fun _ r => r

abbrev onPort (op : LinkOp) : LinkProg op.Resp := Prog.perform op

/-! ## Readers of the port -/

/-- What a poll means for a read, if it ends it. -/
def Polled.result : Polled → Option (Except SerialError Bytes)
  | .data bytes => some (.ok bytes)
  | .elapsed => none
  | .eof => some (.error .unexpectedEof)
  | .failed fatal => some (.error (.ioError fatal))
  | .closed => some (.error .connectionClosed)

namespace SerialConnection

/-- `POLL_MS` -/
def pollMs : ℕ := 50

/-- Count the bytes of a successful read. -/
def recorded : Except SerialError Bytes → LinkProg (Except SerialError Bytes)
  | .ok bytes => do
    onPort (.recordRx bytes.length)
    pure (.ok bytes)
  | .error e => pure (.error e)

/-- `read` without a timeout: it only ends on an answer. -/
def readWaiting (max : ℕ) : ℕ → LinkProg (Except SerialError Bytes)
  | 0 => pure (.error .waiting)
  | polls + 1 => do
    let polled ← onPort (.poll max none)
    match polled.result with
    | some result => recorded result
    | none => readWaiting max polls

/-- `read` with a timeout: the port is locked for one poll at a time. -/
def readPolls (max deadline : ℕ) : ℕ → LinkProg (Except SerialError Bytes)
  | 0 => pure (.error .waiting)
  | polls + 1 => do
    if ← onPort .closeToken then pure (.error .connectionClosed)
    else
      let now ← onRing clock
      if deadline ≤ now then pure (.error .readTimeout)
      else
        let polled ← onPort (.poll max (some (min (deadline - now) (fromMillis pollMs))))
        match polled.result with
        | some result => recorded result
        | none => do
          onRing (pause 5)
          readPolls max deadline polls

/-- `SerialConnection::read`, for at most the given number of polls. -/
def read (polls max : ℕ) (timeoutMs : Option ℕ) : LinkProg (Except SerialError Bytes) := do
  if ← onPort .ensureOpen then
    match timeoutMs with
    | none => readWaiting max polls
    | some ms => do
      let now ← onRing clock
      readPolls max (now + fromMillis ms) polls
  else pure (.error .connectionClosed)

/-- `read_latest` -/
def readLatest (polls maxBytes : ℕ) : LinkProg (Except SerialError Bytes) :=
  read polls maxBytes (some 100)

/-- `SerialConnection::write` -/
def write (data : Bytes) : LinkProg (Except SerialError ℕ) := do
  if ← onPort .ensureOpen then
    match ← onPort (.writeAll data) with
    | .error e => pure (.error e)
    | .ok () => do
      onPort (.recordTx data.length)
      pure (.ok data.length)
  else pure (.error .connectionClosed)

end SerialConnection

/-- `PUMP_READ_SIZE` -/
def pumpReadSize : ℕ := 4096

/-- The pump waits for a reconnect; whether it resumes. -/
def pumpPause : ℕ → LinkProg Bool
  | 0 => pure false
  | turns + 1 => do
    if ← onPort .pumpToken then pure false
    else
      match ← onRing getConnState with
      | .opened => pure true
      | .closed => pure false
      | .disconnected | .reconnecting => do
        onRing (pause 50)
        pumpPause turns

/-- `pump_loop`, for at most the given number of turns. -/
def pumpLoop (polls : ℕ) : ℕ → LinkProg Unit
  | 0 => pure ()
  | turns + 1 => do
    if ← onPort .pumpToken then pure ()
    else
      match ← SerialConnection.read polls pumpReadSize (some 100) with
      | .ok bytes => do
        onPort (.append bytes)
        pumpLoop polls turns
      | .error .readTimeout => pumpLoop polls turns
      | .error e =>
        if e.isFatal then do
          onPort .markDisconnected
          if ← pumpPause polls then pumpLoop polls turns else pure ()
        else pure ()

/-- Pump tasks one after another: `ensure_pump_running` starts one when the
    previous one has finished. -/
def pumpTasks (polls turns : ℕ) : ℕ → LinkProg Unit
  | 0 => pure ()
  | tasks + 1 => do
    pumpLoop polls turns
    pumpTasks polls turns tasks

/-! ## Everything else on the connection -/

/-- The resource `serial://connections/{id}/raw`: what it encodes and returns. -/
def readResourceRaw (polls : ℕ) : LinkProg (Except SerialError Bytes) :=
  SerialConnection.readLatest polls 256

/-- The connection side of `transact`: write, then the read half. -/
def transact (crates : Crates) (turns : ℕ) (data : Bytes) (req : ReadRequest) (start : ReadFrom) :
    LinkProg (Except SerialError (Except Stuck ReadOutcome)) := do
  match ← SerialConnection.write data with
  | .error e => pure (.error e)
  | .ok _ => do
    let r ← onRing (read crates turns req start)
    pure (.ok r)

/-- The ring fields of `get_status`. -/
def ringStatus : LinkProg (ℕ × ℕ × ℕ × ℕ) := do
  let start ← onRing ringStart
  let stop ← onRing ringEnd
  let cursor ← onRing loadCursor
  pure (start, stop, cursor, stop - cursor)

/-- A program whose result does not matter. -/
def forget {α : Type} (p : LinkProg α) : LinkProg Unit := do
  let _ ← p
  pure ()

/-- What can run beside the pump. -/
inductive Task (crates : Crates) : LinkProg Unit → Prop where
  | raw (polls : ℕ) : Task crates (forget (readResourceRaw polls))
  | read (turns : ℕ) (req : ReadRequest) (start : ReadFrom) :
      Task crates (forget (onRing (read crates turns req start)))
  | transact (turns : ℕ) (data : Bytes) (req : ReadRequest) (start : ReadFrom) :
      Task crates (forget (transact crates turns data req start))
  | write (data : Bytes) : Task crates (forget (SerialConnection.write data))
  | status : Task crates (forget ringStatus)

/-! ## Bytes in flight -/

/-- The bytes a task obtained from the port and has not appended yet, after one
    more event. -/
def flight (bytes : Bytes) : LinkEvent → Bytes
  | ⟨.poll _ _, .data bytes'⟩ => bytes'
  | ⟨.append _, _⟩ => []
  | _ => bytes

/-- The bytes a task obtained from the port and has not appended yet. -/
def inFlight (tr : List LinkEvent) : Bytes := tr.foldl flight []

/-- The bytes an event obtained from the port. -/
def obtains : LinkEvent → Bytes
  | ⟨.poll _ _, .data bytes⟩ => bytes
  | _ => []

/-- All bytes a task obtained from the port. -/
def obtained (tr : List LinkEvent) : Bytes := tr.flatMap obtains

theorem inFlight_snoc (tr : List LinkEvent) (e : LinkEvent) :
    inFlight (tr ++ [e]) = flight (inFlight tr) e := by simp [inFlight]

theorem obtained_snoc (tr : List LinkEvent) (e : LinkEvent) :
    obtained (tr ++ [e]) = obtained tr ++ obtains e := by simp [obtained]

/-- Operations that neither read the port nor append to the ring. -/
def LinkOp.Aside : LinkOp → Prop
  | .poll .. | .append _ => False
  | _ => True

theorem flight_aside {op : LinkOp} (h : op.Aside) (r : op.Resp) (bytes : Bytes) :
    flight bytes ⟨op, r⟩ = bytes := by
  cases op <;> first | rfl | exact h.elim

theorem obtains_aside {op : LinkOp} (h : op.Aside) (r : op.Resp) : obtains ⟨op, r⟩ = [] := by
  cases op <;> first | rfl | exact h.elim

/-- What an operation does to the port and the ring. -/
inductive Effect (l l' : Link) (e : LinkEvent) : Prop where
  | polled {max wait bytes} (he : e = ⟨.poll max wait, .data bytes⟩) (hne : bytes ≠ [])
      (hread : l'.osRead = l.osRead ++ bytes) (hfeed : l'.rx.feed = l.rx.feed)
  | appended {bytes} (he : e = ⟨.append bytes, ()⟩) (hread : l'.osRead = l.osRead)
      (hfeed : l'.rx.feed = l.rx.feed.push bytes)
  | none (hflight : ∀ bytes, flight bytes e = bytes) (hobtains : obtains e = [])
      (hread : l'.osRead = l.osRead) (hfeed : l'.rx.feed = l.rx.feed)

theorem Effect.of_aside {op : LinkOp} (h : op.Aside) (l : Link) :
    Effect l (linkAct op l).2 ⟨op, (linkAct op l).1⟩ := by
  refine .none (flight_aside h _) (obtains_aside h _) ?_ ?_
  · cases op <;> first | rfl | exact h.elim
  · cases op with
    | rx op => exact act_feed op l.rx
    | poll | append => exact h.elim
    | _ => rfl

/-- **What an operation does**: reads obtain bytes, appends extend the ring,
    and everything else leaves both alone. -/
theorem linkAct_effect (op : LinkOp) (l : Link) :
    Effect l (linkAct op l).2 ⟨op, (linkAct op l).1⟩ := by
  cases op with
  | poll max wait =>
    have hquiet {p : Polled} (hp : ∀ bytes, p ≠ .data bytes) :
        (∀ bytes, flight bytes ⟨.poll max wait, p⟩ = bytes) ∧ obtains ⟨.poll max wait, p⟩ = [] := by
      cases p <;> first | exact ⟨fun _ => rfl, rfl⟩ | exact absurd rfl (hp _)
    simp only [linkAct, Link.poll]
    split
    · split
      · obtain ⟨h₁, h₂⟩ := hquiet (p := .elapsed) (by simp)
        exact .none h₁ h₂ rfl rfl
      · next hne => exact .polled rfl (by simpa using hne) rfl rfl
    · obtain ⟨h₁, h₂⟩ := hquiet (p := .eof) (by simp)
      exact .none h₁ h₂ rfl rfl
    · next fatal _ =>
      obtain ⟨h₁, h₂⟩ := hquiet (p := .failed fatal) (by simp)
      exact .none h₁ h₂ rfl rfl
    · obtain ⟨h₁, h₂⟩ := hquiet (p := .closed) (by simp)
      exact .none h₁ h₂ rfl rfl
  | append bytes => exact .appended rfl rfl rfl
  | _ => exact .of_aside (by exact trivial) l

/-! ## What the pump guarantees -/

/-- The pump reads the port with empty hands and appends what it holds. -/
def PumpGuarantee (tr : List LinkEvent) (_ : Link) : LinkOp → Prop
  | .poll .. => inFlight tr = []
  | .append bytes => inFlight tr = bytes
  | _ => True

/-- Whatever happens between the operations of the pump. -/
def Anything (_ _ : Link) : Prop := True

/-- The bytes a read of the port returned. -/
def bytesOf : Except SerialError Bytes → Bytes
  | .ok bytes => bytes
  | .error _ => []

/-- A read of the port leaves what it returns in flight. -/
def Holding (tr : List LinkEvent) (_ : Link) (r : Except SerialError Bytes) : Prop :=
  inFlight tr = bytesOf r

section
variable {l : Link} {tr : List LinkEvent}

/-- Operations aside change nothing in flight. -/
theorem wpg_aside {α : Type} (op : LinkOp) (hop : op.Aside) {k : op.Resp → LinkProg α}
    {Q : List LinkEvent → Link → α → Prop} (h : inFlight tr = [])
    (hk : ∀ r tr' l', inFlight tr' = [] → wpg linkAct Anything PumpGuarantee (k r) Q tr' l') :
    wpg linkAct Anything PumpGuarantee (onPort op >>= k) Q tr l := by
  intro l₁ _
  refine ⟨?_, hk _ _ _ ?_⟩
  · cases op <;> first | exact trivial | exact hop.elim
  · rw [inFlight_snoc, flight_aside hop, h]

theorem recorded_wpg {r : Except SerialError Bytes} (h : inFlight tr = bytesOf r) :
    wpg linkAct Anything PumpGuarantee (SerialConnection.recorded r) Holding tr l := by
  rcases r with e | bytes
  · exact h
  · intro l₁ _
    refine ⟨trivial, ?_⟩
    exact (inFlight_snoc _ _).trans h

/-- One poll of the port, with empty hands. -/
theorem poll_wpg {max : ℕ} {wait : Option ℕ} {k : LinkProg (Except SerialError Bytes)}
    (h : inFlight tr = [])
    (hk : ∀ tr' l', inFlight tr' = [] → wpg linkAct Anything PumpGuarantee k Holding tr' l') :
    wpg linkAct Anything PumpGuarantee (do
      let polled ← onPort (.poll max wait)
      match polled.result with
      | some result => SerialConnection.recorded result
      | none => k) Holding tr l := by
  intro l₁ _
  refine ⟨h, ?_⟩
  have hsnoc := inFlight_snoc tr ⟨.poll max wait, (linkAct (.poll max wait) l₁).1⟩
  revert hsnoc
  rcases (linkAct (.poll max wait) l₁).1 with bytes | _ | _ | fatal | _
  · exact fun hsnoc => recorded_wpg (r := .ok bytes) hsnoc
  · exact fun hsnoc => hk _ _ (hsnoc.trans h)
  · exact fun hsnoc => hsnoc.trans h
  · exact fun hsnoc => hsnoc.trans h
  · exact fun hsnoc => hsnoc.trans h

theorem readWaiting_wpg (max polls : ℕ) (h : inFlight tr = []) :
    wpg linkAct Anything PumpGuarantee (SerialConnection.readWaiting max polls) Holding tr l := by
  induction polls generalizing tr l with
  | zero => exact h
  | succ polls ih => exact poll_wpg h fun tr' l' h' => ih h'

theorem readPolls_wpg (max deadline polls : ℕ) (h : inFlight tr = []) :
    wpg linkAct Anything PumpGuarantee (SerialConnection.readPolls max deadline polls) Holding
      tr l := by
  induction polls generalizing tr l with
  | zero => exact h
  | succ polls ih =>
    refine wpg_aside .closeToken trivial h fun closing tr₁ l₁ h₁ => ?_
    refine wpg_ite (fun _ => h₁) fun _ => ?_
    refine wpg_aside (.rx .now) trivial h₁ fun now tr₂ l₂ h₂ => ?_
    refine wpg_ite (fun _ => h₂) fun _ => ?_
    refine poll_wpg h₂ fun tr₃ l₃ h₃ => ?_
    exact wpg_aside (.rx (.sleep 5)) trivial h₃ fun _ tr₄ l₄ h₄ => ih h₄

/-- **A read of the port holds in flight what it returns.** -/
theorem SerialConnection.read_wpg (polls max : ℕ) (timeoutMs : Option ℕ) (h : inFlight tr = []) :
    wpg linkAct Anything PumpGuarantee (SerialConnection.read polls max timeoutMs) Holding tr l := by
  refine wpg_aside .ensureOpen trivial h fun opened tr₁ l₁ h₁ => ?_
  refine wpg_ite (fun _ => ?_) fun _ => h₁
  rcases timeoutMs with _ | ms
  · exact readWaiting_wpg max polls h₁
  · exact wpg_aside (.rx .now) trivial h₁ fun now tr₂ l₂ h₂ => readPolls_wpg max _ polls h₂

/-- Nothing is in flight when the program ends. -/
def EmptyHanded {α : Type} (tr : List LinkEvent) (_ : Link) (_ : α) : Prop := inFlight tr = []

theorem pumpPause_wpg (turns : ℕ) (h : inFlight tr = []) :
    wpg linkAct Anything PumpGuarantee (pumpPause turns) EmptyHanded tr l := by
  induction turns generalizing tr l with
  | zero => exact h
  | succ turns ih =>
    refine wpg_aside .pumpToken trivial h fun cancelled tr₁ l₁ h₁ => ?_
    refine wpg_ite (fun _ => h₁) fun _ => ?_
    refine wpg_aside (.rx .connState) trivial h₁ fun state tr₂ l₂ h₂ => ?_
    rcases state with _ | _ | _ | _
    · exact h₂
    · exact wpg_aside (.rx (.sleep 50)) trivial h₂ fun _ tr₃ l₃ h₃ => ih h₃
    · exact wpg_aside (.rx (.sleep 50)) trivial h₂ fun _ tr₃ l₃ h₃ => ih h₃
    · exact h₂

theorem pumpLoop_wpg (polls turns : ℕ) (h : inFlight tr = []) :
    wpg linkAct Anything PumpGuarantee (pumpLoop polls turns) EmptyHanded tr l := by
  induction turns generalizing tr l with
  | zero => exact h
  | succ turns ih =>
    refine wpg_aside .pumpToken trivial h fun cancelled tr₁ l₁ h₁ => ?_
    refine wpg_ite (fun _ => h₁) fun _ => ?_
    refine wpg_seq (SerialConnection.read_wpg polls pumpReadSize (some 100) h₁) ?_
    intro tr₂ l₂ r h₂
    have hfail {e : SerialError} (h₂ : inFlight tr₂ = []) : wpg linkAct Anything PumpGuarantee
        (if e.isFatal then do
          onPort .markDisconnected
          if ← pumpPause polls then pumpLoop polls turns else pure ()
        else pure ()) EmptyHanded tr₂ l₂ := by
      refine wpg_ite (fun _ => ?_) fun _ => h₂
      refine wpg_aside .markDisconnected trivial h₂ fun _ tr₃ l₃ h₃ => ?_
      refine wpg_seq (pumpPause_wpg polls h₃) ?_
      intro tr₄ l₄ resumed h₄
      exact wpg_ite (fun _ => ih h₄) fun _ => h₄
    rcases r with e | bytes
    · rcases e with _ | _ | _ | fatal | _
      · exact hfail h₂
      · exact ih h₂
      · exact hfail h₂
      · exact hfail h₂
      · exact hfail h₂
    -- what was read is appended
    · intro l₃ _
      refine ⟨h₂, ih ?_⟩
      rw [inFlight_snoc]
      rfl

/-- **The pump appends what it reads**, task after task. -/
theorem pumpTasks_wpg (polls turns tasks : ℕ) (h : inFlight tr = []) :
    wpg linkAct Anything PumpGuarantee (pumpTasks polls turns tasks) EmptyHanded tr l := by
  induction tasks generalizing tr l with
  | zero => exact h
  | succ tasks ih =>
    refine wpg_seq (pumpLoop_wpg polls turns h) ?_
    intro tr' l' r h'
    exact ih h'

end

/-! ## Nobody else appends -/

/-- Operations other than appends. -/
def LinkOp.NoAppend (op : LinkOp) : Prop := ∀ bytes, op ≠ .append bytes

theorem onRing_all {α : Type} (p : RxProg α) : (onRing p).All LinkOp.NoAppend := by
  refine Prog.All.lift ?_
  refine p.all_true.mono fun op _ bytes h => ?_
  cases h

theorem recorded_all (r : Except SerialError Bytes) :
    (SerialConnection.recorded r).All LinkOp.NoAppend := by
  rcases r with e | bytes
  · exact trivial
  · exact ⟨nofun, fun _ => trivial⟩

theorem polled_all {max : ℕ} {wait : Option ℕ} {k : LinkProg (Except SerialError Bytes)}
    (hk : k.All LinkOp.NoAppend) : (do
      let polled ← onPort (.poll max wait)
      match polled.result with
      | some result => SerialConnection.recorded result
      | none => k).All LinkOp.NoAppend := by
  refine ⟨nofun, fun polled => ?_⟩
  rcases polled with bytes | _ | _ | fatal | _
  · exact recorded_all (.ok bytes)
  · exact hk
  · exact trivial
  · exact trivial
  · exact trivial

theorem readWaiting_all (max polls : ℕ) :
    (SerialConnection.readWaiting max polls).All LinkOp.NoAppend := by
  induction polls with
  | zero => exact trivial
  | succ polls ih => exact polled_all ih

theorem readPolls_all (max deadline polls : ℕ) :
    (SerialConnection.readPolls max deadline polls).All LinkOp.NoAppend := by
  induction polls with
  | zero => exact trivial
  | succ polls ih =>
    refine ⟨nofun, fun closing => .ite trivial ?_⟩
    refine ⟨nofun, fun now => .ite trivial (polled_all ?_)⟩
    exact ⟨nofun, fun _ => ih⟩

theorem SerialConnection.read_all (polls max : ℕ) (timeoutMs : Option ℕ) :
    (SerialConnection.read polls max timeoutMs).All LinkOp.NoAppend := by
  refine ⟨nofun, fun opened => .ite ?_ trivial⟩
  rcases timeoutMs with _ | ms
  · exact readWaiting_all max polls
  · exact ⟨nofun, fun now => readPolls_all max _ polls⟩

theorem SerialConnection.write_all (data : Bytes) :
    (SerialConnection.write data).All LinkOp.NoAppend := by
  refine ⟨nofun, fun opened => .ite ⟨nofun, fun r => ?_⟩ trivial⟩
  rcases r with e | _
  · exact trivial
  · exact ⟨nofun, fun _ => trivial⟩

/-- **What runs beside the pump never appends.** -/
theorem Task.all {crates : Crates} {p : LinkProg Unit} (h : Task crates p) :
    p.All LinkOp.NoAppend := by
  cases h with
  | raw polls => exact (SerialConnection.read_all polls 256 (some 100)).bind fun _ => trivial
  | read turns req start => exact (onRing_all _).bind fun _ => trivial
  | transact turns data req start =>
    refine Prog.All.bind ?_ fun _ => trivial
    refine (SerialConnection.write_all data).bind fun r => ?_
    rcases r with e | n
    · exact trivial
    · exact (onRing_all _).bind fun _ => trivial
  | write data => exact (SerialConnection.write_all data).bind fun _ => trivial
  | status =>
    refine Prog.All.bind ?_ fun _ => trivial
    exact (onRing_all _).bind fun _ => (onRing_all _).bind fun _ => (onRing_all _).bind fun _ => trivial

/-! ## The connection as a whole -/

/-- Tasks on one connection; the first is the pump. -/
abbrev LinkPool := Pool LinkOp LinkOp.Resp Unit Link

/-- What happens to an open connection from outside: bytes arrive, and nothing
    reads the port, purges it, or touches the ring. -/
structure Outside (l l' : Link) : Prop where
  arrives : l.osBuffer <+: l'.osBuffer
  osRead : l'.osRead = l.osRead
  feed : l'.rx.feed = l.rx.feed

/-- The bytes in the hands of the pump. -/
def inHand (s : LinkPool) : Bytes := (s.threads[0]?.map fun t => inFlight t.done).getD []

/-- The ring and the hands of the pump hold exactly the bytes read from the
    port, in order. -/
def Captured (s : LinkPool) : Prop := s.world.osRead = s.world.rx.feed.stream ++ inHand s

/-- No task but the pump has obtained bytes from the port. -/
def Undisturbed (s : LinkPool) : Prop :=
  ∀ (i : ℕ) (t : Thread LinkOp LinkOp.Resp Unit), 0 < i → s.threads[i]? = some t →
    obtained t.done = []

/-- The invariant of a connection: everything read from the port is accounted
    for. -/
structure Accounted (s : LinkPool) : Prop where
  pump : ∃ t, s.threads[0]? = some t ∧
    wpg linkAct Anything PumpGuarantee t.rest EmptyHanded t.done s.world
  others : ∀ (i : ℕ) (t : Thread LinkOp LinkOp.Resp Unit), 0 < i → s.threads[i]? = some t →
    t.rest.All LinkOp.NoAppend
  total : s.world.rx.feed.stream.length + (inHand s).length ≤ s.world.osRead.length
  share : ∀ (i : ℕ) (t : Thread LinkOp LinkOp.Resp Unit), 0 < i → s.threads[i]? = some t →
    s.world.rx.feed.stream.length + (inHand s).length + (obtained t.done).length ≤
      s.world.osRead.length
  captured : Undisturbed s → Captured s

section
variable {crates : Crates} {s s' : LinkPool} {m : Pool.Move LinkOp LinkOp.Resp Unit Link}

theorem step_osRead (h : Pool.Step linkAct Outside (Task crates) s m s') :
    s.world.osRead <+: s'.world.osRead := by
  cases h with
  | env hw =>
    rw [hw.osRead]
  | spawn hp => exact List.prefix_refl _
  | @act i tr op k hi =>
    cases linkAct_effect op s.world with
    | polled he hne hread hfeed =>
      rw [hread]
      exact List.prefix_append ..
    | appended he hread hfeed => rw [hread]
    | none hflight hobtains hread hfeed => rw [hread]

theorem inHand_pump {t : Thread LinkOp LinkOp.Resp Unit} {l : Link}
    (hlt : 0 < s.threads.length) : inHand ⟨l, s.threads.set 0 t⟩ = inFlight t.done := by
  simp [inHand, hlt]

theorem inHand_other {i : ℕ} (hi : 0 < i) {t : Thread LinkOp LinkOp.Resp Unit} {l : Link} :
    inHand ⟨l, s.threads.set i t⟩ = inHand s := by
  have : i ≠ 0 := by omega
  simp [inHand, List.getElem?_set_ne this]

/-- What the pump reads enters its hands, and what it appends leaves them. -/
theorem Effect.pump {l l' : Link} {tr : List LinkEvent} {op : LinkOp} {r : op.Resp}
    (h : Effect l l' ⟨op, r⟩) (hg : PumpGuarantee tr l op)
    (hlt : l.rx.feed.stream.length + (inFlight tr).length < u64Size) :
    ∃ bytes, l'.osRead = l.osRead ++ bytes ∧
      l'.rx.feed.stream ++ inFlight (tr ++ [⟨op, r⟩]) =
        l.rx.feed.stream ++ inFlight tr ++ bytes := by
  rw [inFlight_snoc]
  cases h with
  | @polled max wait bytes he hne hread hfeed =>
    cases he
    have hempty : inFlight tr = [] := hg
    refine ⟨bytes, hread, ?_⟩
    rw [hfeed, hempty, List.append_nil]
    rfl
  | @appended bytes he hread hfeed =>
    cases he
    have hheld : inFlight tr = bytes := hg
    refine ⟨[], by rw [hread, List.append_nil], ?_⟩
    rw [hheld] at hlt ⊢
    rw [hfeed, Feed.push_stream hlt]
    rfl
  | none hflight hobtains hread hfeed =>
    refine ⟨[], by rw [hread, List.append_nil], ?_⟩
    rw [hflight, hfeed, List.append_nil]

/-- A task that does not append only takes what it obtains from the port. -/
theorem Effect.other {l l' : Link} {op : LinkOp} {r : op.Resp} (h : Effect l l' ⟨op, r⟩)
    (hop : op.NoAppend) :
    l'.osRead = l.osRead ++ obtains ⟨op, r⟩ ∧ l'.rx.feed = l.rx.feed := by
  cases h with
  | @polled max wait bytes he hne hread hfeed =>
    cases he
    exact ⟨hread, hfeed⟩
  | @appended bytes he hread hfeed =>
    cases he
    exact absurd rfl (hop bytes)
  | none hflight hobtains hread hfeed =>
    rw [hobtains, List.append_nil]
    exact ⟨hread, hfeed⟩

theorem Undisturbed.of_step {New : LinkProg Unit → Prop} (h : Undisturbed s')
    (hs : Pool.Step linkAct Outside New s m s') : Undisturbed s := by
  intro j t hj ht
  have hlt := (List.getElem?_eq_some_iff.1 ht).1
  cases hs with
  | env hw => exact h j t hj ht
  | spawn hp =>
    refine h j t hj ?_
    rwa [← List.getElem?_append_left hlt] at ht
  | @act i tr op k hi =>
    by_cases hij : i = j
    · subst hij
      obtain rfl := Option.some.inj (hi.symm.trans ht)
      have hmoved := h i _ hj (List.getElem?_set_self hlt)
      rw [obtained_snoc, List.append_eq_nil_iff] at hmoved
      exact hmoved.1
    · refine h j t hj ?_
      rwa [← List.getElem?_set_ne hij] at ht

/-- **Step** of the pump. -/
theorem Accounted.pump_step (h : Accounted s) {tr : List LinkEvent} {op : LinkOp}
    {k : op.Resp → LinkProg Unit} (hi : s.threads[0]? = some ⟨tr, .call op k⟩)
    (hlt : s.world.osRead.length < u64Size) :
    Accounted ⟨(linkAct op s.world).2, s.threads.set 0
      ⟨tr ++ [⟨op, (linkAct op s.world).1⟩], k (linkAct op s.world).1⟩⟩ := by
  have hs : Pool.Step linkAct Outside (fun _ => True) s (.act 0 op) _ := .act hi
  obtain ⟨t, ht, hpump⟩ := h.pump
  have hthread : t = ⟨tr, .call op k⟩ := Option.some.inj (ht.symm.trans hi)
  subst hthread
  obtain ⟨hg, hrest⟩ := hpump s.world trivial
  dsimp only at hg hrest
  have hlen : 0 < s.threads.length := (List.getElem?_eq_some_iff.1 hi).1
  have hhand : inHand s = inFlight tr := by simp [inHand, hi]
  have htotal := h.total
  rw [hhand] at htotal
  obtain ⟨bytes, hread, hflow⟩ := (linkAct_effect op s.world).pump hg (by omega)
  have hflowLen := congrArg List.length hflow
  have hreadLen := congrArg List.length hread
  simp only [List.length_append] at hflowLen hreadLen
  have hold {i : ℕ} {t t' : Thread LinkOp LinkOp.Resp Unit} (h0 : 0 < i)
      (ht : (s.threads.set 0 t')[i]? = some t) : s.threads[i]? = some t := by
    rwa [List.getElem?_set_ne (by omega)] at ht
  refine ⟨⟨_, List.getElem?_set_self hlen, hrest⟩, ?_, ?_, ?_, ?_⟩
  · intro i t h0 ht
    exact h.others i t h0 (hold h0 ht)
  · rw [inHand_pump hlen]
    simp only
    omega
  · intro i t h0 ht
    have := h.share i t h0 (hold h0 ht)
    rw [hhand] at this
    rw [inHand_pump hlen]
    simp only
    omega
  · intro hund
    have hcap := h.captured (hund.of_step hs)
    rw [Captured, hhand] at hcap
    rw [Captured, inHand_pump hlen]
    simp only
    rw [hread, hcap, hflow]

/-- **Step** of a task beside the pump. -/
theorem Accounted.other_step (h : Accounted s) {i : ℕ} (h0 : 0 < i) {tr : List LinkEvent}
    {op : LinkOp} {k : op.Resp → LinkProg Unit} (hi : s.threads[i]? = some ⟨tr, .call op k⟩) :
    Accounted ⟨(linkAct op s.world).2, s.threads.set i
      ⟨tr ++ [⟨op, (linkAct op s.world).1⟩], k (linkAct op s.world).1⟩⟩ := by
  have hs : Pool.Step linkAct Outside (fun _ => True) s (.act i op) _ := .act hi
  have hall := h.others i _ h0 hi
  obtain ⟨hread, hfeed⟩ := (linkAct_effect op s.world).other hall.1
  have hreadLen := congrArg List.length hread
  rw [List.length_append] at hreadLen
  have hlen : i < s.threads.length := (List.getElem?_eq_some_iff.1 hi).1
  have hmine := h.share i _ h0 hi
  refine ⟨?_, ?_, ?_, ?_, ?_⟩
  · obtain ⟨t, ht, hpump⟩ := h.pump
    refine ⟨t, ?_, wpg_rely (fun _ _ _ _ _ => trivial) (fun _ _ _ _ _ hQ => hQ) trivial hpump⟩
    rwa [List.getElem?_set_ne (by omega)]
  · intro j t hj ht
    rcases Pool.thread_of_set ht with ⟨-, rfl⟩ | ⟨-, ht⟩
    · exact hall.2 _
    · exact h.others j t hj ht
  · rw [inHand_other h0]
    simp only [hfeed]
    omega
  · intro j t hj ht
    rw [inHand_other h0]
    simp only [hfeed]
    rcases Pool.thread_of_set ht with ⟨-, rfl⟩ | ⟨-, ht⟩
    · simp only at hmine
      simp only [obtained_snoc, List.length_append]
      omega
    · have := h.share j t hj ht
      omega
  · intro hund
    -- the task that moved obtained nothing in this step, either
    have hmoved := hund i _ h0 (List.getElem?_set_self hlen)
    rw [obtained_snoc, List.append_eq_nil_iff] at hmoved
    rw [hmoved.2, List.append_nil] at hread
    rw [Captured, inHand_other h0]
    simp only [hread, hfeed]
    exact h.captured (hund.of_step hs)

/-- **Step** of the connection. -/
theorem Accounted.step (h : Accounted s) (hs : Pool.Step linkAct Outside (Task crates) s m s')
    (hlt : s.world.osRead.length < u64Size) : Accounted s' := by
  have hundisturbed : Undisturbed s' → Undisturbed s := fun h' => h'.of_step hs
  cases hs with
  | env hw =>
    obtain ⟨-, hread, hfeed⟩ := hw
    obtain ⟨t, ht, hpump⟩ := h.pump
    refine ⟨⟨t, ht, wpg_rely (fun _ _ _ _ _ => trivial) (fun _ _ _ _ _ hQ => hQ) trivial hpump⟩,
      h.others, ?_, ?_, ?_⟩
    · rw [hread, hfeed]
      exact h.total
    · rw [hread, hfeed]
      exact h.share
    · intro hund
      rw [Captured, hread, hfeed]
      exact h.captured hund
  | @spawn p hp =>
    obtain ⟨t, ht, hpump⟩ := h.pump
    have hlen : 0 < s.threads.length := (List.getElem?_eq_some_iff.1 ht).1
    have hhand : inHand ⟨s.world, s.threads ++ [⟨[], p⟩]⟩ = inHand s := by
      rw [inHand, inHand, List.getElem?_append_left hlen]
    refine ⟨⟨t, ?_, hpump⟩, ?_, ?_, ?_, ?_⟩
    · rwa [List.getElem?_append_left hlen]
    · intro j t hj ht
      rcases Pool.thread_of_spawn ht with rfl | ht
      · exact hp.all
      · exact h.others j t hj ht
    · rw [hhand]
      exact h.total
    · intro j t hj ht
      rw [hhand]
      rcases Pool.thread_of_spawn ht with rfl | ht
      · exact h.total
      · exact h.share j t hj ht
    · intro hund
      rw [Captured, hhand]
      exact h.captured (hundisturbed hund)
  | @act i tr op k hi =>
    by_cases h0 : i = 0
    · subst h0
      exact h.pump_step hi hlt
    · exact h.other_step (by omega) hi

/-- The step reads bytes from the port only if the pump makes it. -/
def PumpOnly (s : LinkPool) : Pool.Move LinkOp LinkOp.Resp Unit Link → Prop
  | .act i (.poll max _) => 0 < i → s.world.ready max = []
  | _ => True

instance (s : LinkPool) : ∀ m, Decidable (PumpOnly s m)
  | .act i (.poll max _) => inferInstanceAs (Decidable (0 < i → s.world.ready max = []))
  | .act _ (.rx _) | .act _ .ensureOpen | .act _ .closeToken | .act _ .pumpToken
  | .act _ (.recordRx _) | .act _ (.append _) | .act _ .markDisconnected
  | .act _ (.writeAll _) | .act _ (.recordTx _) | .env _ | .spawn _ => inferInstanceAs (Decidable True)

theorem obtains_poll (l : Link) (max : ℕ) (wait : Option ℕ) :
    obtains ⟨.poll max wait, (linkAct (.poll max wait) l).1⟩ = l.ready max := by
  simp only [linkAct, Link.poll]
  split
  · split
    · next h => exact (List.isEmpty_iff.1 h).symm
    · rfl
  · next h => simp [obtains, Link.ready, h]
  · next h => simp [obtains, Link.ready, h]
  · next h => simp [obtains, Link.ready, h]

theorem obtains_of_pumpOnly {i : ℕ} {op : LinkOp} (h0 : 0 < i) (h : PumpOnly s (.act i op)) :
    obtains ⟨op, (linkAct op s.world).1⟩ = [] := by
  cases op with
  | poll max wait => rw [obtains_poll, h h0]
  | append bytes => rfl
  | _ => exact obtains_aside (by exact trivial) _

/-- **Step**: while only the pump reads bytes, no other task obtains any. -/
theorem Undisturbed.step (h : Undisturbed s)
    (hs : Pool.Step linkAct Outside (Task crates) s m s') (hm : PumpOnly s m) :
    Undisturbed s' := by
  intro j t hj ht
  cases hs with
  | env hw => exact h j t hj ht
  | spawn hp =>
    rcases Pool.thread_of_spawn ht with rfl | ht
    · rfl
    · exact h j t hj ht
  | @act i tr op k hi =>
    rcases Pool.thread_of_set ht with ⟨rfl, rfl⟩ | ⟨-, ht⟩
    · simp only [obtained_snoc]
      rw [h i _ hj hi, obtains_of_pumpOnly hj hm, List.append_nil]
    · exact h j t hj ht

theorem not_undisturbed_of_step (hs : Pool.Step linkAct Outside (Task crates) s m s')
    (hm : ¬PumpOnly s m) : ¬Undisturbed s' := by
  intro h
  cases hs with
  | env hw => exact hm trivial
  | spawn hp => exact hm trivial
  | @act i tr op k hi =>
    have hlt := (List.getElem?_eq_some_iff.1 hi).1
    cases op with
    | poll max wait =>
      refine hm fun h0 => ?_
      have hmoved := h i _ h0 (List.getElem?_set_self hlt)
      rw [obtained_snoc, List.append_eq_nil_iff, obtains_poll] at hmoved
      exact hmoved.2
    | _ => exact hm trivial

end

section
variable {crates : Crates} {s₀ s s' : LinkPool}
  {C : LinkPool → Pool.Move LinkOp LinkOp.Resp Unit Link → Prop}

/-- **Run**: everything read from the port stays accounted for. -/
theorem Accounted.steps (h₀ : Accounted s₀)
    (h : Pool.Steps linkAct Outside (Task crates) C s₀ s)
    (hlt : s.world.osRead.length < u64Size) : Accounted s := by
  induction h with
  | refl => exact h₀
  | tail _ hs _ ih =>
    have hle := (step_osRead hs).length_le
    exact (ih (by omega)).step hs (by omega)

theorem Undisturbed.steps (h₀ : Undisturbed s₀)
    (h : Pool.Steps linkAct Outside (Task crates) PumpOnly s₀ s) : Undisturbed s := by
  induction h with
  | refl => exact h₀
  | tail _ hs hm ih => exact ih.step hs hm

theorem Undisturbed.of_steps (h : Undisturbed s)
    (hs : Pool.Steps linkAct Outside (Task crates) C s₀ s) : Undisturbed s₀ := by
  induction hs with
  | refl => exact h
  | tail _ hs _ ih => exact ih (h.of_step hs)

theorem Accounted.undisturbed (h : Accounted s) (hcap : Captured s) : Undisturbed s := by
  intro i t h0 ht
  have hshare := h.share i t h0 ht
  have hlen := congrArg List.length hcap
  rw [List.length_append] at hlen
  exact List.length_eq_zero_iff.1 (by omega)

/-- An open connection with its pump, and nothing else running yet. -/
def pumped (l : Link) (polls turns tasks : ℕ) : LinkPool :=
  ⟨l, [⟨[], pumpTasks polls turns tasks⟩]⟩

theorem pumped_accounted {l : Link} (h₀ : l.osRead = l.rx.feed.stream) (polls turns tasks : ℕ) :
    Accounted (pumped l polls turns tasks) := by
  have hnone {i : ℕ} {t : Thread LinkOp LinkOp.Resp Unit} (h0 : 0 < i)
      (ht : (pumped l polls turns tasks).threads[i]? = some t) : False := by
    have := (List.getElem?_eq_some_iff.1 ht).1
    simp only [pumped, List.length_singleton] at this
    omega
  refine ⟨⟨_, rfl, pumpTasks_wpg polls turns tasks rfl⟩, ?_, ?_, ?_, ?_⟩
  · intro i t h0 ht
    exact (hnone h0 ht).elim
  · simp [pumped, inHand, inFlight, h₀]
  · intro i t h0 ht
    exact (hnone h0 ht).elim
  · intro _
    simp [Captured, pumped, inHand, inFlight, h₀]

theorem pumped_undisturbed (l : Link) (polls turns tasks : ℕ) :
    Undisturbed (pumped l polls turns tasks) := by
  intro i t h0 ht
  have := (List.getElem?_eq_some_iff.1 ht).1
  simp only [pumped, List.length_singleton] at this
  omega

/-- **The ring captures every byte that the pump is left to read**: in a run in
    which only the pump reads bytes from the port, the ring holds them all, in
    order; once another task has read some, the ring has a hole for good. -/
theorem ring_captures (crates : Crates) (l : Link) (h₀ : l.osRead = l.rx.feed.stream)
    (polls turns tasks : ℕ) :
    (∀ s, Pool.Steps linkAct Outside (Task crates) PumpOnly (pumped l polls turns tasks) s →
      s.world.osRead.length < u64Size → Captured s) ∧
    ∀ s m s₁ s₂,
      Pool.Steps linkAct Outside (Task crates) (fun _ _ => True) (pumped l polls turns tasks) s →
      Pool.Step linkAct Outside (Task crates) s m s₁ → ¬PumpOnly s m →
      Pool.Steps linkAct Outside (Task crates) (fun _ _ => True) s₁ s₂ →
      s₂.world.osRead.length < u64Size → ¬Captured s₂ := by
  have hstart := pumped_accounted h₀ polls turns tasks
  constructor
  · intro s hs hlt
    have hund := (pumped_undisturbed l polls turns tasks).steps hs
    exact (hstart.steps hs hlt).captured hund
  · intro s m s₁ s₂ hs hm hnot hs₂ hlt hcap
    have hacc := hstart.steps ((hs.tail hm trivial).trans hs₂) hlt
    exact not_undisturbed_of_step hm hnot ((hacc.undisturbed hcap).of_steps hs₂)

end

/-- An open connection whose port has three bytes to offer. -/
def okLink : Link :=
  ⟨.opened Feed.four, false, false, false, [111, 107, 33], [], .bytes 3, .ok (), 0, 0⟩

/-- Its pump, and a read of the raw resource about to start. -/
def okPool : LinkPool :=
  ⟨okLink, [⟨[], pumpTasks 1 1 1⟩, ⟨[], forget (readResourceRaw 1)⟩]⟩

theorem okPool_steps {C : LinkPool → Pool.Move LinkOp LinkOp.Resp Unit Link → Prop}
    (hC : ∀ s p, C s (.spawn p)) :
    Pool.Steps linkAct Outside (Task .refusing) C (pumped okLink 1 1 1) okPool :=
  Pool.Steps.refl.tail (.spawn (.raw 1)) (hC _ _)

/-- The pump first: it appends the three bytes and the resource finds none. -/
theorem ring_captures_ok : ∃ s : LinkPool, Captured s ∧
    s.world.rx.feed.stream = [111, 107, 33] ∧ s.world.osBuffer = [] :=
  ⟨_, (ring_captures .refusing okLink rfl 1 1 1).1 _
    ((okPool_steps fun _ _ => trivial).plays (List.replicate 8 0 ++ List.replicate 6 1) (by decide))
    (by decide), by decide, by decide⟩

/-- The resource first: it takes the three bytes, and the ring never sees them. -/
theorem ring_misses : ¬∀ (crates : Crates) (l : Link) (polls turns tasks : ℕ) (s : LinkPool),
    l.osRead = l.rx.feed.stream →
    Pool.Steps linkAct Outside (Task crates) (fun _ _ => True) (pumped l polls turns tasks) s →
    s.world.osRead.length < u64Size → Captured s := by
  intro h
  have hrun := (okPool_steps (C := fun _ _ => True) fun _ _ => trivial).plays
    (List.replicate 6 1 ++ List.replicate 8 0) (by decide)
  have hcap := h .refusing okLink 1 1 1 _ rfl hrun (by decide)
  exact absurd hcap (by unfold Captured; decide)

end SerialMcp
