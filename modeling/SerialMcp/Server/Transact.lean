/-
  The tool `transact` (`tools/io_ops.rs`): write through the TX session, then
  read from the live edge.

  * `parseEncoding`, `decodeTxPayload`, `applyTxFraming`: what the write half
    checks;
  * `Station` and `callAct`: what a call shares with the rest of the server, and
    its atomic operations;
  * `txWrite`, `readHalf`, `transact`: the call;
  * `rejected_untouched_iff`: a call that is rejected for its arguments or
    resources leaves the port, the shared cursor and the counters alone exactly
    if the write half is what rejects it.
-/
import SerialMcp.Framing.Presets
import SerialMcp.Pump
import SerialMcp.Server.Sessions
import SerialMcp.Server.Settings

namespace SerialMcp.Server

open Interact RxOp Budget

/-! ## The write half on its own -/

/-- `MAX_WRITE_BYTES` -/
def maxWriteBytes : ℕ := 1024 * 1024

/-- `parse_encoding`, with `FromStr for Encoding` -/
def parseEncoding (raw : String) : Except String Encoding :=
  let name := raw.toList.map Char.toLower
  if name = "utf8".toList ∨ name = "utf-8".toList then .ok .utf8
  else if name = "hex".toList then .ok .hex
  else if name = "base64".toList ∨ name = "b64".toList then .ok .base64
  else .error ("Unsupported encoding - Unknown encoding: " ++ raw)

/-- `TxFramingError` -/
inductive TxFramingError where
  | encode (e : String)
  | size (e : String)
  deriving DecidableEq, Repr

section
variable (crates : Crates)

/-- `decode_tx_payload` -/
def decodeTxPayload (encoding : Encoding) (input decodedLimitField : String) :
    Except String Bytes :=
  match decode crates encoding input.toList with
  | .error e => .error ("Data decoding failed - " ++ e.toText)
  | .ok bytes => do
    let _ ← clampOrErr decodedLimitField bytes.length maxWriteBytes
    .ok bytes

/-- `apply_tx_framing`: what is not framed is not measured again. -/
def applyTxFraming (decoded : Bytes) (framing : Option TxFramingConfig)
    (framedLimitField : String) : Except TxFramingError Bytes :=
  match framing with
  | some cfg => do
    let framed ← (cfg.mode.encode crates decoded).mapError .encode
    let _ ← (clampOrErr framedLimitField framed.length maxWriteBytes).mapError .size
    .ok framed
  | none => .ok decoded

end

/-! ## Arguments, results and errors -/

/-- `TransactArgs` -/
structure TransactArgs where
  connectionId : String
  data : String
  encoding : String := "utf8"
  /-- `from`: where the read half starts -/
  start : Option ReadFrom := none
  timeoutMs : Option ℕ := none
  noNewRxTimeoutMs : Option ℕ := none
  /-- `match` -/
  matchRequest : Option MatchRequest := none
  txFraming : Option TxFramingConfig := none
  rxFraming : Option RxFramingConfig := none
  rxParser : Option ParserConfig := none
  protocol : Option ProtocolPreset := none

/-- `WriteResult` -/
structure WriteResult where
  connectionId : String
  name : Option String
  bytesWritten : ℕ
  decodedBytes : ℕ
  encoding : Encoding

/-- `TransactResult`; the outcome of the read half is rendered for the client,
    which never fails. -/
structure TransactResult where
  connectionId : String
  name : Option String
  write : WriteResult
  read : ReadOutcome

/-- The errors of `transact`, by what they are about. -/
inductive TransactError where
  | encoding (e : String)
  | notFound (id : String)
  | payload (e : String)
  | txFraming (e : TxFramingError)
  | write (e : SerialError)
  | budget (e : BufferBudgetError)
  | session (e : String)
  | matching (e : String)
  | read (e : Stuck)
  deriving DecidableEq

/-- The text of an error, if it is one; the text of a `SerialError` comes from
    the system. -/
def TransactError.toText (describe : SerialError → String) : TransactError → Option String
  | .encoding e => some e
  | .notFound id => some ("Connection ID " ++ id ++ " not found")
  | .payload e => some e
  | .txFraming (.encode e) => some ("TX framing failed: " ++ e)
  | .txFraming (.size e) => some e
  | .write e => some ("Write failed: " ++ describe e)
  | .budget e => some (mapBudgetErr "transact.max_buffered_bytes" e)
  | .session e => some ("transact: " ++ e)
  | .matching e => some ("transact.match: " ++ e)
  | .read (.toolError e) => some e
  | .read _ => none

/-- The errors that are about the arguments or the resources of a call: its
    encoding, payload, framing, match request, parser or buffers. -/
def TransactError.Rejects : TransactError → Prop
  | .encoding _ | .payload _ | .txFraming _ | .budget _ | .session _ | .matching _
  | .read (.toolError _) => True
  | .notFound _ | .write _ | .read .panic | .read .waiting => False

/-! ## The state of a connection and the operations of a call -/

/-- The settings a call falls back on; `configure` changes them. -/
structure ConnectionDefaults where
  txFraming : Option TxFramingConfig := none
  rxFraming : Option RxFramingConfig := none
  rxParser : Option ParserConfig := none
  protocol : Option ProtocolPreset := none
  maxBufferedBytes : ℕ := 32768
  deriving DecidableEq, Repr

/-- The operation counters of a connection, below 2^64. -/
structure OpCounters where
  readOps : ℕ := 0
  writeOps : ℕ := 0
  truncations : ℕ := 0
  deriving DecidableEq, Repr

/-- What a call on a connection shares with the rest of the server. -/
structure Station where
  id : String
  /-- the name of the connection, if the registry has the connection -/
  registered : Option (Option String)
  link : Link
  /-- all bytes that writes handed to the port, in order -/
  device : Bytes
  /-- how many bytes the port takes of a write that fails -/
  taken : ℕ
  defaults : ConnectionDefaults
  counters : OpCounters
  /-- whether the worker of the TX session takes requests -/
  txWorker : Bool
  rxSessions : RxSessionManager
  /-- history: the end of the ring when the last write to the port began -/
  writeBegan : Option ℕ
  /-- history: the end of the ring when it was first looked at since -/
  ringSeen : Option ℕ

/-- The stream of the ring, if there is a session. -/
def Station.stream (s : Station) : Bytes :=
  if s.id ∈ s.rxSessions.sessions then s.link.rx.feed.stream else []

/-- The atomic operations of a call. -/
inductive CallOp where
  | lookup (id : String)
  | defaults
  /-- hand a write to the worker, which takes it if it is not closed first -/
  | handOver
  | link (op : LinkOp)
  | recordReadOp
  | recordWriteOp
  | recordTruncation
  | tryReserve (bytes : ℕ)
  /-- a reservation is dropped -/
  | giveBack (bytes : ℕ)
  | getOrCreate
  deriving DecidableEq, Repr

/-- What an operation answers. -/
abbrev CallOp.Resp : CallOp → Type
  | .lookup _ => Option (Option String)
  | .defaults => ConnectionDefaults
  | .handOver => Bool
  | .link op => op.Resp
  | .tryReserve _ => Except BufferBudgetError Unit
  | .getOrCreate => Except String Unit
  | .recordReadOp | .recordWriteOp | .recordTruncation | .giveBack _ => Unit

/-- A program over these operations. -/
abbrev CallProg (α : Type) := Prog CallOp CallOp.Resp α

/-- An operation performed, with its answer. -/
abbrev CallEvent := Event CallOp CallOp.Resp

/-- What the port takes of a write. -/
def Station.handed (s : Station) (bytes : Bytes) : Bytes :=
  match s.link.writable with
  | .ok () => bytes
  -- `write_all` and `flush` fail behind any part of the bytes
  | .error _ => bytes.take s.taken

/-- What an operation on the connection leaves behind in the history. -/
def Station.noted (s : Station) : LinkOp → Station
  | .writeAll bytes =>
    { s with
      device := s.device ++ s.handed bytes
      writeBegan := some s.stream.length
      ringSeen := none }
  | .rx _ => { s with ringSeen := s.ringSeen <|> some s.stream.length }
  | _ => s

/-- A new session, with an empty ring. -/
def Station.withSession (s : Station) (sessions : RxSessionManager) : Station :=
  { s with
    rxSessions := sessions
    link := { s.link with
      rx := { s.link.rx with feed := .new defaultRxBufferSize (by decide), readCursor := 0 } } }

/-- What an operation answers and does. -/
def callAct : (op : CallOp) → Station → op.Resp × Station
  | .lookup id, s => (if id = s.id then s.registered else none, s)
  | .defaults, s => (s.defaults, s)
  | .handOver, s => (s.txWorker, s)
  | .link op, s => ((linkAct op s.link).1, { s.noted op with link := (linkAct op s.link).2 })
  | .recordReadOp, s =>
    ((), { s with counters := { s.counters with readOps := s.counters.readOps + 1 } })
  | .recordWriteOp, s =>
    ((), { s with counters := { s.counters with writeOps := s.counters.writeOps + 1 } })
  | .recordTruncation, s =>
    ((), { s with counters := { s.counters with truncations := s.counters.truncations + 1 } })
  | .tryReserve bytes, s =>
    match s.rxSessions.budget.tryReserve bytes with
    | .error e => (.error e, s)
    | .ok budget => (.ok (), { s with rxSessions := { s.rxSessions with budget := budget } })
  | .giveBack bytes, s =>
    ((), { s with rxSessions :=
      { s.rxSessions with budget := s.rxSessions.budget.giveBack bytes } })
  | .getOrCreate, s =>
    match s.rxSessions.getOrCreate s.id defaultRxBufferSize with
    | .error e => (.error e, s)
    | .ok sessions =>
      (.ok (), if s.id ∈ s.rxSessions.sessions then s else s.withSession sessions)

abbrev onCall (op : CallOp) : CallProg op.Resp := Prog.perform op

/-- A program on the connection, as part of a call. -/
def onLink {α : Type} (p : LinkProg α) : CallProg α := p.lift CallOp.link fun _ r => r

/-- A program on the RX session, as part of a call. -/
def onSession {α : Type} (p : RxProg α) : CallProg α := onLink (onRing p)

/-! ## The call -/

/-- `TxSession::write`: the worker writes, and acknowledges. -/
def txWrite (data : Bytes) : CallProg (Except SerialError ℕ) := do
  if ← onCall .handOver then onLink (SerialConnection.write data)
  else pure (.error .connectionClosed)

/-- `record_read_completion`, without the log -/
def recordReadCompletion (out : ReadOutcome) : CallProg Unit := do
  onCall .recordReadOp
  if out.metadata.truncated then onCall .recordTruncation else pure ()

section
variable (crates : Crates)

/-- The matcher of a call, if it asks for one. -/
def resolveMatcher (request : Option MatchRequest) : Except String (Option Matcher) :=
  match request with
  | some m => (validateMatchRequest crates m).map some
  | none => .ok none

/-- The read half of `transact` on its session, behind the reservation. -/
def readOnSession (turns : ℕ) (args : TransactArgs) (maxBufferedBytes : ℕ) :
    CallProg (Except TransactError ReadOutcome) := do
  let rxFraming := resolveField args.rxFraming args.protocol presetRxFraming
    (← onCall .defaults).rxFraming (← onCall .defaults).protocol
  let rxParser := resolveField args.rxParser args.protocol presetRxParser
    (← onCall .defaults).rxParser (← onCall .defaults).protocol
  let initialCursor ← onSession (args.start.getD .now).resolve
  onSession (storeCursor initialCursor)
  match resolveMatcher crates args.matchRequest with
  | .error e => pure (.error (.matching e))
  | .ok matcher => do
    let request : ReadRequest :=
      { maxBytes := maxBufferedBytes
        timeoutMs := args.timeoutMs
        noNewRxTimeoutMs := args.noNewRxTimeoutMs
        matcher := matcher
        framing := rxFraming
        parser := rxParser }
    match ← onSession (readBytesFromRing crates turns request) with
    | .error e => pure (.error (.read e))
    | .ok outcome => do
      recordReadCompletion outcome
      pure (.ok outcome)

/-- The read half of `transact`; its reservation is dropped at the end. -/
def readHalf (turns : ℕ) (args : TransactArgs) : CallProg (Except TransactError ReadOutcome) := do
  let maxBufferedBytes := (← onCall .defaults).maxBufferedBytes
  match ← onCall (.tryReserve maxBufferedBytes) with
  | .error e => pure (.error (.budget e))
  | .ok () => do
    let result ← do
      match ← onCall .getOrCreate with
      | .error e => pure (.error (.session e))
      | .ok () => readOnSession crates turns args maxBufferedBytes
    onCall (.giveBack maxBufferedBytes)
    pure result

/-- `transact`, for at most the given number of turns of its read. -/
def transact (turns : ℕ) (args : TransactArgs) :
    CallProg (Except TransactError TransactResult) :=
  match parseEncoding args.encoding with
  | .error e => pure (.error (.encoding e))
  | .ok encoding => do
    match ← onCall (.lookup args.connectionId) with
    | none => pure (.error (.notFound args.connectionId))
    | some name =>
      match decodeTxPayload crates encoding args.data "transact.data.len()" with
      | .error e => pure (.error (.payload e))
      | .ok decoded => do
        let txFraming := resolveField args.txFraming args.protocol presetTxFraming
          (← onCall .defaults).txFraming (← onCall .defaults).protocol
        match applyTxFraming crates decoded txFraming "transact.framed_len()" with
        | .error e => pure (.error (.txFraming e))
        | .ok data => do
          match ← txWrite data with
          | .error e => pure (.error (.write e))
          | .ok bytesWritten => do
            onCall .recordWriteOp
            match ← readHalf crates turns args with
            | .error e => pure (.error e)
            | .ok outcome => pure (.ok
              { connectionId := args.connectionId
                name := name
                write := ⟨args.connectionId, name, bytesWritten, decoded.length, encoding⟩
                read := outcome })

end

/-! ## Rejected calls -/

/-- The port, the shared cursor and the counters are as they were. -/
structure Untouched (s s' : Station) : Prop where
  device : s'.device = s.device
  cursor : s'.link.rx.readCursor = s.link.rx.readCursor
  txBytes : s'.link.txBytes = s.link.txBytes
  counters : s'.counters = s.counters

/-- What happens between two operations of a call while nobody else writes,
    reads or configures the connection: the pump and everything else go on. -/
structure Unused (s s' : Station) : Prop extends Untouched s s' where
  defaults : s'.defaults = s.defaults

/-- What the write half makes of the arguments: the bytes for the port, or the
    error that it returns. -/
def txData (crates : Crates) (args : TransactArgs) (defaults : ConnectionDefaults) :
    Except TransactError Bytes :=
  match parseEncoding args.encoding with
  | .error e => .error (.encoding e)
  | .ok encoding =>
    match decodeTxPayload crates encoding args.data "transact.data.len()" with
    | .error e => .error (.payload e)
    | .ok decoded =>
      let txFraming := resolveField args.txFraming args.protocol presetTxFraming
        defaults.txFraming defaults.protocol
      (applyTxFraming crates decoded txFraming "transact.framed_len()").mapError .txFraming

section
variable {crates : Crates} {turns : ℕ} {args : TransactArgs} {s s' s'' : Station}
  {tr : List CallEvent} {e : TransactError}

theorem Untouched.refl (s : Station) : Untouched s s := ⟨rfl, rfl, rfl, rfl⟩

theorem Untouched.trans (h : Untouched s s') (h' : Untouched s' s'') : Untouched s s'' where
  device := h'.device.trans h.device
  cursor := h'.cursor.trans h.cursor
  txBytes := h'.txBytes.trans h.txBytes
  counters := h'.counters.trans h.counters

theorem Unused.refl (s : Station) : Unused s s := ⟨.refl s, rfl⟩

theorem Unused.trans (h : Unused s s') (h' : Unused s' s'') : Unused s s'' :=
  ⟨h.toUntouched.trans h'.toUntouched, h'.defaults.trans h.defaults⟩

theorem writeOps_le (op : CallOp) (s : Station) :
    s.counters.writeOps ≤ (callAct op s).2.counters.writeOps := by
  cases op with
  | recordWriteOp => exact Nat.le_succ _
  | link op => cases op <;> exact Nat.le_refl _
  | tryReserve bytes =>
    simp only [callAct]
    split <;> exact Nat.le_refl _
  | getOrCreate =>
    simp only [callAct]
    split
    · exact Nat.le_refl _
    · dsimp only
      split <;> exact Nat.le_refl _
  | _ => exact Nat.le_refl _

theorem counted_wp {α : Type} (p : CallProg α) (s : Station) :
    wp callAct Unused p (fun _ s' _ => s.counters.writeOps ≤ s'.counters.writeOps) s := by
  refine wp_iff.2 fun tr s' a hrun => ?_
  let R (s s' : Station) : Prop := s.counters.writeOps ≤ s'.counters.writeOps
  have hmono : Runs callAct R s p tr s' a := by
    refine hrun.mono fun s s' h => ?_
    exact Nat.le_of_eq (congrArg OpCounters.writeOps h.counters).symm
  exact Runs.rely (R := R) (fun _ => Nat.le_refl _) (fun _ _ _ h h' => Nat.le_trans h h')
    (fun op s _ => writeOps_le op s) (Prog.all_true p) hmono

/-- **How a call is rejected**: by its write half, before anything happened, or
    behind a write that went through and was counted. -/
theorem transact_rejected_wp (s : Station) :
    wp callAct Unused (transact crates turns args) (fun _ s' r => ∀ e, r = .error e → e.Rejects →
      txData crates args s.defaults = .error e ∧ Untouched s s' ∨
      (∃ data, txData crates args s.defaults = .ok data) ∧
        s.counters.writeOps < s'.counters.writeOps) s := by
  unfold transact txData
  rcases parseEncoding args.encoding with e | encoding
  · rintro _ ⟨⟩ -
    exact .inl ⟨rfl, .refl s⟩
  dsimp only
  simp only [Prog.perform_bind, wp_call]
  intro s₁ h₁
  rcases (callAct (.lookup args.connectionId) s₁).1 with _ | name
  · rintro _ ⟨⟩ hrejects
    exact hrejects.elim
  rcases decodeTxPayload crates encoding args.data "transact.data.len()" with e | decoded
  · rintro _ ⟨⟩ -
    exact .inl ⟨rfl, h₁.toUntouched⟩
  simp only [wp_call]
  intro s₂ h₂ s₃ h₃
  have h₀₂ : Unused s s₂ := h₁.trans h₂
  have h₀₃ : Unused s s₃ := h₀₂.trans h₃
  have hframing : resolveField args.txFraming args.protocol presetTxFraming
      (callAct .defaults s₂).1.txFraming (callAct .defaults s₃).1.protocol =
      resolveField args.txFraming args.protocol presetTxFraming s.defaults.txFraming
        s.defaults.protocol := by
    show resolveField _ _ _ s₂.defaults.txFraming s₃.defaults.protocol = _
    rw [h₀₂.defaults, h₀₃.defaults]
  rw [hframing]
  rcases applyTxFraming crates decoded _ "transact.framed_len()" with e | data
  · rintro _ ⟨⟩ -
    exact .inl ⟨rfl, h₀₃.toUntouched⟩
  -- the write is not rejected: either it fails, or it is counted
  refine wp_seq (counted_wp (txWrite data) _) ?_
  rintro tr s₄ (e | n) h₃₄
  · rintro _ ⟨⟩ hrejects
    exact hrejects.elim
  intro s₅ h₅
  refine wp_seq (counted_wp (readHalf crates turns args) _) ?_
  have h₀₄ : s.counters.writeOps ≤ s₄.counters.writeOps := by
    rw [← h₀₃.counters]
    exact h₃₄
  have h₀₅ : s.counters.writeOps < (callAct .recordWriteOp s₅).2.counters.writeOps := by
    show _ < s₅.counters.writeOps + 1
    rw [h₅.counters]
    exact Nat.lt_succ_of_le h₀₄
  rintro tr' s₆ (e | out) h₅₆ e' - -
  all_goals exact .inr ⟨⟨data, rfl⟩, Nat.lt_of_lt_of_le h₀₅ h₅₆⟩

/-- **When a rejected call has no effect.** A call that is rejected for its
    arguments or resources leaves the port, the shared cursor and the counters
    alone exactly if its write half is rejected: the read half is checked
    behind the write. -/
theorem rejected_untouched_iff
    (hrun : Runs callAct Unused s (transact crates turns args) tr s' (.error e))
    (he : e.Rejects) :
    Untouched s s' ↔ ∃ e', txData crates args s.defaults = .error e' := by
  have hrejected := hrun.wp (transact_rejected_wp s) e rfl he
  constructor
  · intro huntouched
    rcases hrejected with ⟨hdata, -⟩ | ⟨-, hcounted⟩
    · exact ⟨e, hdata⟩
    · rw [huntouched.counters] at hcounted
      exact absurd hcounted (Nat.lt_irrefl _)
  · rintro ⟨e', he'⟩
    rcases hrejected with ⟨-, huntouched⟩ | ⟨⟨data, hdata⟩, -⟩
    · exact huntouched
    · rw [he'] at hdata
      cases hdata

end

/-- A connection with a session, whose ring of four bytes holds two. -/
def idleStation : Station where
  id := "c"
  registered := some none
  link := { okLink with rx := .opened (Feed.four.push [104, 105]) }
  device := []
  taken := 0
  defaults := {}
  counters := {}
  txWorker := true
  rxSessions := { RxSessionManager.new defaultLimits with sessions := AList.insert "c" 4 ∅ }
  writeBegan := none
  ringSeen := none

/-- A call whose delimiter is empty writes nothing. -/
theorem rejected_untouched_delimiter : ∃ tr s' e,
    Runs callAct Unused idleStation (transact .refusing 0
      { connectionId := "c", data := "AT", txFraming := some ⟨.delimiter "" .utf8⟩ }) tr s'
      (.error e) ∧ Untouched idleStation s' := by
  have hrun : ∃ tr s', Runs callAct Unused idleStation (transact .refusing 0
      { connectionId := "c", data := "AT", txFraming := some ⟨.delimiter "" .utf8⟩ }) tr s'
      (.error (.txFraming (.encode "TX delimiter must not be empty"))) :=
    ⟨_, _, runs_of_run Unused.refl [] (by simp) rfl⟩
  obtain ⟨tr, s', hrun⟩ := hrun
  exact ⟨tr, s', _, hrun, (rejected_untouched_iff hrun trivial).2 ⟨_, rfl⟩⟩

/-- A call that asks for an empty pattern is rejected behind the write of its two
    bytes. -/
theorem empty_pattern_written : ¬∀ (crates : Crates) (turns : ℕ) (args : TransactArgs)
    (s s' : Station) (tr : List CallEvent) (e : TransactError),
    Runs callAct Unused s (transact crates turns args) tr s' (.error e) → e.Rejects →
    Untouched s s' := by
  intro h
  have hrun : ∃ tr s', Runs callAct Unused idleStation (transact .refusing 0
      { connectionId := "c", data := "AT", matchRequest := some { pattern := "", config := {} } })
      tr s' (.error (.matching "Pattern must not be empty after decoding")) ∧
      s'.device = [65, 84] :=
    ⟨_, _, runs_of_run Unused.refl [] (by simp) rfl, rfl⟩
  obtain ⟨tr, s', hrun, hdevice⟩ := hrun
  have hsame := (h _ _ _ _ _ _ _ hrun trivial).device
  rw [hdevice] at hsame
  cases hsame

end SerialMcp.Server
