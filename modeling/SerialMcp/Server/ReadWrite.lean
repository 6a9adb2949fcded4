/-
  The tools `read` and `write` (`tools/io_ops.rs`, `tools/rx_validate.rs`).

  * `validateRxRequest`: the checks of a read;
  * `read`, `write`: the calls;
  * `read_admitted`: a read that is refused does nothing, and every read gives its buffer
    back and is counted exactly if it has a result;
  * `write_delivered`: a write that is done has handed exactly its bytes to the port.
-/
import SerialMcp.Read.Result
import SerialMcp.Server.Break
import SerialMcp.Server.LiveEdge
import SerialMcp.Server.Open

namespace SerialMcp.Server

open Interact RxOp Budget

/-! ## The checks of a read -/

/-- `ReadArgs` -/
structure ReadArgs where
  connectionId : String
  /-- `from` -/
  start : Option ReadFrom := none
  timeoutMs : Option ℕ := none
  noNewRxTimeoutMs : Option ℕ := none
  encoding : String := "utf8"
  /-- `match` -/
  matchRequest : Option MatchRequest := none
  rxFraming : Option RxFramingConfig := none
  rxParser : Option ParserConfig := none
  protocol : Option ProtocolPreset := none

/-- `RxLimits` -/
structure RxLimits where
  tool : String
  minBuffered : ℕ
  maxBuffered : ℕ

/-- The limits of `read`, with `MIN_READ_BYTES` and `MAX_READ_BYTES`. -/
def readLimits : RxLimits := ⟨"read", 1, 1024 * 1024⟩

/-- `clamp_timeout_or_err` -/
def clampTimeoutOrErr (name : String) (value max : ℕ) : Except String ℕ :=
  if max < value then
    .error (name ++ "=" ++ toString value ++ "ms exceeds maximum " ++ toString max ++ "ms")
  else .ok value

/-- `validate_rx_request`, of `timeout_ms` -/
def checkTimeoutMs (limits : RxLimits) : Option ℕ → Except String Unit
  | none => .ok ()
  | some timeoutMs =>
    (clampTimeoutOrErr (limits.tool ++ ".timeout_ms") timeoutMs Break.maxTimeoutMs).map fun _ => ()

/-- `validate_rx_request`, of `no_new_rx_timeout_ms` -/
def checkNoNewRxTimeoutMs (limits : RxLimits) : Option ℕ → Except String Unit
  | none => .ok ()
  | some silenceMs =>
    if silenceMs = 0 then .error (limits.tool ++ ".no_new_rx_timeout_ms must be > 0")
    else (clampTimeoutOrErr (limits.tool ++ ".no_new_rx_timeout_ms") silenceMs
      Break.maxTimeoutMs).map fun _ => ()

/-- `validate_rx_request` behind its lookup: the size of the buffer, and the matcher. -/
def validateRxRequest (crates : Crates) (limits : RxLimits) (args : ReadArgs)
    (maxBufferedBytes : ℕ) : Except String (ℕ × Option Matcher) := do
  let atLeast ← requireMinOrErr (limits.tool ++ ".max_buffered_bytes") maxBufferedBytes
    limits.minBuffered
  let size ← clampOrErr (limits.tool ++ ".max_buffered_bytes") atLeast limits.maxBuffered
  checkTimeoutMs limits args.timeoutMs
  checkNoNewRxTimeoutMs limits args.noNewRxTimeoutMs
  let matcher ← resolveMatcher crates args.matchRequest
  return (size, matcher)

/-! ## The read -/

/-- The errors of `read`, by what they are about. -/
inductive ReadError where
  | encoding (e : String)
  | notFound (id : String)
  | invalid (e : String)
  | budget (e : BufferBudgetError)
  | session (e : String)
  | read (e : Stuck)
  | result (e : String)
  deriving DecidableEq

/-- The text of an error, if it is one. -/
def ReadError.toText : ReadError → Option String
  | .encoding e => some e
  | .notFound id => some ("Connection ID " ++ id ++ " not found")
  | .invalid e => some e
  | .budget e => some (mapBudgetErr "read.max_buffered_bytes" e)
  | .session e => some ("read: " ++ e)
  | .read (.toolError e) => some e
  | .read _ => none
  | .result e => some e

/-- The default of the connection, or the one of a connection that is not found. -/
def readDefault (id : String) : CallProg ℕ := do
  match ← onCall (.lookup id) with
  | none => pure 32768
  | some _ => do
    let defaults ← onCall .defaults
    pure defaults.maxBufferedBytes

section
variable (crates : RxCrates)

/-- `read` on its session -/
def readSession (turns : ℕ) (args : ReadArgs) (name : Option String) (encoding : Encoding)
    (maxBufferedBytes : ℕ) (matcher : Option Matcher) : CallProg (Except ReadError ReadResult) := do
  let rxFraming := resolveField args.rxFraming args.protocol presetRxFraming
    (← onCall .defaults).rxFraming (← onCall .defaults).protocol
  let rxParser := resolveField args.rxParser args.protocol presetRxParser
    (← onCall .defaults).rxParser (← onCall .defaults).protocol
  let initialCursor ← onSession (args.start.getD .cursor).resolve
  onSession (storeCursor initialCursor)
  let request : ReadRequest :=
    { maxBytes := maxBufferedBytes
      timeoutMs := args.timeoutMs
      noNewRxTimeoutMs := args.noNewRxTimeoutMs
      matcher := matcher
      framing := rxFraming
      parser := rxParser }
  match ← onSession (readBytesFromRing crates.toCrates turns request) with
  | .error e => pure (.error (.read e))
  | .ok outcome =>
    match buildReadResult crates outcome args.connectionId name encoding args.timeoutMs
      args.noNewRxTimeoutMs with
    | .error e => pure (.error (.result e))
    | .ok result => do
      recordReadCompletion outcome
      pure (.ok result)

/-- `read` behind its checks; its reservation is dropped at the end. -/
def readReserved (turns : ℕ) (args : ReadArgs) (name : Option String) (encoding : Encoding)
    (maxBufferedBytes : ℕ) (matcher : Option Matcher) : CallProg (Except ReadError ReadResult) := do
  match ← onCall (.tryReserve maxBufferedBytes) with
  | .error e => pure (.error (.budget e))
  | .ok () => do
    let result ← do
      match ← onCall .getOrCreate with
      | .error e => pure (.error (.session e))
      | .ok () => readSession crates turns args name encoding maxBufferedBytes matcher
    onCall (.giveBack maxBufferedBytes)
    pure result

/-- `read`, for at most the given number of turns. -/
def read (turns : ℕ) (args : ReadArgs) : CallProg (Except ReadError ReadResult) := do
  let maxBufferedBytesDefault ← readDefault args.connectionId
  match parseEncoding args.encoding with
  | .error e => pure (.error (.encoding e))
  | .ok encoding => do
    match ← onCall (.lookup args.connectionId) with
    | none => pure (.error (.notFound args.connectionId))
    | some name =>
      match validateRxRequest crates.toCrates readLimits args maxBufferedBytesDefault with
      | .error e => pure (.error (.invalid e))
      | .ok (maxBufferedBytes, matcher) =>
        readReserved crates turns args name encoding maxBufferedBytes matcher

end

/-! ## The write -/

/-- `WriteArgs` -/
structure WriteArgs where
  connectionId : String
  data : String
  encoding : String := "utf8"
  txFraming : Option TxFramingConfig := none
  protocol : Option ProtocolPreset := none

/-- The errors of `write`, by what they are about. -/
inductive WriteError where
  | encoding (e : String)
  | notFound (id : String)
  | payload (e : String)
  | txFraming (e : TxFramingError)
  | write (e : SerialError)
  deriving DecidableEq

/-- The text of an error; the text of a `SerialError` comes from the system. -/
def WriteError.toText (describe : SerialError → String) (connectionId : String) :
    WriteError → String
  | .encoding e => e
  | .notFound id => "Connection ID " ++ id ++ " not found"
  | .payload e => e
  | .txFraming (.encode e) =>
    Open.logToolErr ("TX framing failed on " ++ connectionId ++ ": " ++ e) e
  | .txFraming (.size e) => e
  | .write e => Open.logToolErr ("Data sending failed on " ++ connectionId) (describe e)

section
variable (crates : Crates)

/-- `write` -/
def write (args : WriteArgs) : CallProg (Except WriteError WriteResult) :=
  match parseEncoding args.encoding with
  | .error e => pure (.error (.encoding e))
  | .ok encoding => do
    match ← onCall (.lookup args.connectionId) with
    | none => pure (.error (.notFound args.connectionId))
    | some name =>
      match decodeTxPayload crates encoding args.data "write.data.len()" with
      | .error e => pure (.error (.payload e))
      | .ok decoded => do
        let txFraming := resolveField args.txFraming args.protocol presetTxFraming
          (← onCall .defaults).txFraming (← onCall .defaults).protocol
        match applyTxFraming crates decoded txFraming "write.framed_len()" with
        | .error e => pure (.error (.txFraming e))
        | .ok data => do
          match ← txWrite data with
          | .error e => pure (.error (.write e))
          | .ok bytesWritten => do
            onCall .recordWriteOp
            pure (.ok ⟨args.connectionId, name, bytesWritten, decoded.length, encoding⟩)

end

/-! ## What a read does -/

/-- The sizes that a call has reserved. -/
def reserved (tr : List CallEvent) : List ℕ :=
  tr.filterMap fun
    | ⟨.tryReserve bytes, .ok ()⟩ => some bytes
    | _ => none

/-- The sizes that it has given back. -/
def givenBack (tr : List CallEvent) : List ℕ :=
  tr.filterMap fun
    | ⟨.giveBack bytes, _⟩ => some bytes
    | _ => none

/-- How many reads it has counted. -/
def readsCounted (tr : List CallEvent) : ℕ := tr.countP fun ev => ev.1 = .recordReadOp

/-- Nothing that others can see, but for a reservation. -/
def Unseen (ev : CallEvent) : Prop :=
  match ev with
  | ⟨.lookup _, _⟩ | ⟨.defaults, _⟩ | ⟨.tryReserve _, _⟩ | ⟨.giveBack _, _⟩ => True
  | ⟨.getOrCreate, r⟩ => r ≠ .ok ()
  | _ => False

/-- The error of a read that was not begun. -/
def ReadError.Refuses : ReadError → Prop
  | .read _ | .result _ => False
  | _ => True

/-- A request that may be read with. -/
structure Admitted (crates : Crates) (args : ReadArgs) (maxBufferedBytes : ℕ)
    (matcher : Option Matcher) : Prop where
  size : 1 ≤ maxBufferedBytes ∧ maxBufferedBytes ≤ 1024 * 1024
  timeout : ∀ t ∈ args.timeoutMs, t ≤ Break.maxTimeoutMs
  silence : ∀ t ∈ args.noNewRxTimeoutMs, 0 < t ∧ t ≤ Break.maxTimeoutMs
  matching : resolveMatcher crates args.matchRequest = .ok matcher

theorem clampTimeoutOrErr_eq_ok {name : String} {value max n : ℕ} :
    clampTimeoutOrErr name value max = .ok n ↔ n = value ∧ value ≤ max := by
  unfold clampTimeoutOrErr
  split_ifs with h
  · simp only [false_iff, not_and]
    omega
  · simp only [Except.ok.injEq]
    omega

theorem checkTimeoutMs_eq_ok {limits : RxLimits} {timeoutMs : Option ℕ} :
    checkTimeoutMs limits timeoutMs = .ok () ↔ ∀ t ∈ timeoutMs, t ≤ Break.maxTimeoutMs := by
  cases timeoutMs with
  | none => simp [checkTimeoutMs]
  | some t =>
    rcases h : clampTimeoutOrErr (limits.tool ++ ".timeout_ms") t Break.maxTimeoutMs with e | n
    · have hno : ¬ t ≤ Break.maxTimeoutMs := by
        intro hle
        rw [clampTimeoutOrErr_eq_ok.2 ⟨rfl, hle⟩] at h
        cases h
      simp [checkTimeoutMs, h, Except.map, hno]
    · simp [checkTimeoutMs, h, Except.map, (clampTimeoutOrErr_eq_ok.1 h).2]

theorem checkNoNewRxTimeoutMs_eq_ok {limits : RxLimits} {silenceMs : Option ℕ} :
    checkNoNewRxTimeoutMs limits silenceMs = .ok () ↔
      ∀ t ∈ silenceMs, 0 < t ∧ t ≤ Break.maxTimeoutMs := by
  cases silenceMs with
  | none => simp [checkNoNewRxTimeoutMs]
  | some t =>
    by_cases hzero : t = 0
    · simp [checkNoNewRxTimeoutMs, hzero]
    · rcases h : clampTimeoutOrErr (limits.tool ++ ".no_new_rx_timeout_ms") t Break.maxTimeoutMs
        with e | n
      · have hno : ¬ t ≤ Break.maxTimeoutMs := by
          intro hle
          rw [clampTimeoutOrErr_eq_ok.2 ⟨rfl, hle⟩] at h
          cases h
        simp [checkNoNewRxTimeoutMs, hzero, h, Except.map, hno]
      · simp [checkNoNewRxTimeoutMs, hzero, h, Except.map, (clampTimeoutOrErr_eq_ok.1 h).2,
          Nat.pos_of_ne_zero hzero]

/-- **What is admitted** is what passes the checks. -/
theorem validateRxRequest_eq_ok {crates : Crates} {args : ReadArgs} {size n : ℕ}
    {matcher : Option Matcher} :
    validateRxRequest crates readLimits args size = .ok (n, matcher) ↔
      n = size ∧ Admitted crates args n matcher := by
  constructor
  · intro h
    obtain ⟨atLeast, hmin, h⟩ := Except.bind_eq_ok h
    obtain ⟨size', hmax, h⟩ := Except.bind_eq_ok h
    obtain ⟨⟨⟩, htimeout, h⟩ := Except.bind_eq_ok h
    obtain ⟨⟨⟩, hsilence, h⟩ := Except.bind_eq_ok h
    obtain ⟨matcher', hmatcher, h⟩ := Except.bind_eq_ok h
    cases h
    unfold requireMinOrErr at hmin
    split_ifs at hmin with hlow
    cases hmin
    unfold clampOrErr at hmax
    split_ifs at hmax with hhigh
    cases hmax
    exact ⟨rfl, ⟨Nat.not_lt.1 hlow, Nat.not_lt.1 hhigh⟩, checkTimeoutMs_eq_ok.1 htimeout,
      checkNoNewRxTimeoutMs_eq_ok.1 hsilence, hmatcher⟩
  · rintro ⟨rfl, ⟨hlow, hhigh⟩, htimeout, hsilence, hmatcher⟩
    have hmin : requireMinOrErr (readLimits.tool ++ ".max_buffered_bytes") n
        readLimits.minBuffered = .ok n := if_neg (Nat.not_lt.2 hlow)
    have hmax : clampOrErr (readLimits.tool ++ ".max_buffered_bytes") n
        readLimits.maxBuffered = .ok n := if_neg (Nat.not_lt.2 hhigh)
    unfold validateRxRequest
    rw [hmin]
    show (clampOrErr (readLimits.tool ++ ".max_buffered_bytes") n readLimits.maxBuffered >>= _) = _
    rw [hmax]
    show (checkTimeoutMs readLimits args.timeoutMs >>= _) = _
    rw [checkTimeoutMs_eq_ok.2 htimeout]
    show (checkNoNewRxTimeoutMs readLimits args.noNewRxTimeoutMs >>= _) = _
    rw [checkNoNewRxTimeoutMs_eq_ok.2 hsilence]
    show (resolveMatcher crates args.matchRequest >>= _) = _
    rw [hmatcher]
    rfl

section
variable {R : Station → Station → Prop} {crates : RxCrates} {turns : ℕ} {args : ReadArgs}
  {s s' : Station} {tr tr' : List CallEvent} {r : Except ReadError ReadResult}

theorem reserved_append : reserved (tr ++ tr') = reserved tr ++ reserved tr' :=
  List.filterMap_append

theorem givenBack_append : givenBack (tr ++ tr') = givenBack tr ++ givenBack tr' :=
  List.filterMap_append

theorem readsCounted_append : readsCounted (tr ++ tr') = readsCounted tr + readsCounted tr' :=
  List.countP_append

/-- Operations on the session only. -/
structure Aside (tr : List CallEvent) : Prop where
  reserved : reserved tr = []
  givenBack : givenBack tr = []
  readsCounted : readsCounted tr = 0

theorem Aside.of_rx (h : ∀ ev ∈ tr, CallOp.Rx ev.1) : Aside tr := by
  have hop : ∀ ev ∈ tr, ∃ op, ev.1 = .link op := by
    intro ev hev
    obtain ⟨op, r⟩ := ev
    have hrx := h _ hev
    cases op with
    | link op => exact ⟨op, rfl⟩
    | _ => exact hrx.elim
  refine ⟨List.filterMap_eq_nil_iff.2 ?_, List.filterMap_eq_nil_iff.2 ?_,
    List.countP_eq_zero.2 ?_⟩
  all_goals
    rintro ⟨op, r⟩ hev
    obtain ⟨op', rfl⟩ : ∃ op', op = .link op' := hop _ hev
    simp

theorem onSession_wp {α : Type} (p : RxProg α) (s : Station) :
    wp callAct R (onSession p) (fun tr _ _ => Aside tr) s :=
  wp_iff.2 fun _ _ _ hrun => .of_rx (hrun.all (onSession_all p))

/-- What a read on its session leaves in the trace of its call: it is counted if it has a
    result. -/
structure Reads (tr : List CallEvent) (r : Except ReadError ReadResult) : Prop where
  reserved : reserved tr = []
  givenBack : givenBack tr = []
  counted : readsCounted tr = if r.isOk then 1 else 0
  begun : ∀ e, r = .error e → ¬ e.Refuses

theorem Aside.before (h : Aside tr) (hr : Reads tr' r) : Reads (tr ++ tr') r where
  reserved := by rw [reserved_append, h.reserved, hr.reserved, List.append_nil]
  givenBack := by rw [givenBack_append, h.givenBack, hr.givenBack, List.append_nil]
  counted := by rw [readsCounted_append, h.readsCounted, hr.counted, Nat.zero_add]
  begun := hr.begun

theorem Reads.defaults {d : ConnectionDefaults} (h : Reads tr r) :
    Reads (⟨.defaults, d⟩ :: tr) r := by
  have haside : Aside [⟨.defaults, d⟩] := ⟨rfl, rfl, rfl⟩
  exact haside.before h

theorem Reads.fails {e : ReadError} (he : ¬ e.Refuses) : Reads [] (.error e) := by
  refine ⟨rfl, rfl, rfl, ?_⟩
  rintro _ ⟨⟩
  exact he

theorem Reads.done {result : ReadResult} (hreserved : SerialMcp.Server.reserved tr = [])
    (hback : SerialMcp.Server.givenBack tr = [])
    (hcounted : SerialMcp.Server.readsCounted tr = 1) : Reads tr (.ok result) := by
  refine ⟨hreserved, hback, hcounted, ?_⟩
  rintro _ ⟨⟩

/-- **The read on its session** is begun, and counted if it has a result. -/
theorem readSession_wp (name : Option String) (encoding : Encoding) (size : ℕ)
    (matcher : Option Matcher) (s : Station) :
    wp callAct R (readSession crates turns args name encoding size matcher)
      (fun tr _ r => Reads tr r) s := by
  unfold readSession
  simp only [Prog.perform_bind, wp_call]
  intro s₁ _ s₂ _ s₃ _ s₄ _
  refine wp_seq (onSession_wp _ _) fun tr₁ s₅ cursor h₁ => wp_seq (onSession_wp _ _)
    fun tr₂ s₆ _ h₂ => wp_seq (onSession_wp _ _) fun tr₃ s₇ outcome h₃ => ?_
  have hbefore : ∀ {tr : List CallEvent} {r : Except ReadError ReadResult}, Reads tr r →
      Reads (tr₁ ++ (tr₂ ++ (tr₃ ++ tr))) r := fun h => h₁.before (h₂.before (h₃.before h))
  rcases outcome with e | outcome
  · exact (hbefore (.fails id)).defaults.defaults.defaults.defaults
  · dsimp only
    rcases buildReadResult crates outcome args.connectionId name encoding args.timeoutMs
      args.noNewRxTimeoutMs with e | result
    · exact (hbefore (.fails id)).defaults.defaults.defaults.defaults
    · unfold recordReadCompletion
      simp only [Prog.perform_bind]
      intro s₈ _
      split
      · intro s₉ _
        exact (hbefore (r := .ok result) (.done rfl rfl rfl)).defaults.defaults.defaults.defaults
      · exact (hbefore (r := .ok result) (.done rfl rfl rfl)).defaults.defaults.defaults.defaults

/-- The size of the buffer that a read finds: the default of the connection, if it is there. -/
def sizeFound : List CallEvent → ℕ
  | ⟨.lookup _, some _⟩ :: ⟨.defaults, defaults⟩ :: _ => defaults.maxBufferedBytes
  | _ => 32768

/-- What a read does that finds a size, whatever happens between its steps. -/
structure Outcome (crates : Crates) (args : ReadArgs) (size : ℕ) (tr : List CallEvent)
    (r : Except ReadError ReadResult) : Prop where
  balanced : givenBack tr = reserved tr
  counted : readsCounted tr = if r.isOk then 1 else 0
  refused : ∀ e, r = .error e → e.Refuses → ∀ ev ∈ tr, Unseen ev
  admitted : (∀ ev ∈ tr, Unseen ev) ∨
    reserved tr = [size] ∧ ∃ matcher, Admitted crates args size matcher
  invalid : ∀ e, r = .error (.invalid e) → ∀ matcher, ¬ Admitted crates args size matcher

/-- A refusal, with nothing that is seen or held. -/
theorem Outcome.of_refusal {e : ReadError} {size : ℕ} (hunseen : ∀ ev ∈ tr, Unseen ev)
    (hbalanced : givenBack tr = reserved tr)
    (hinvalid : ∀ text, e = .invalid text →
      ∀ matcher, ¬ Admitted crates.toCrates args size matcher) :
    Outcome crates.toCrates args size tr (.error e) where
  balanced := hbalanced
  counted := by
    refine List.countP_eq_zero.2 fun ev hev => ?_
    obtain ⟨op, r⟩ := ev
    have h := hunseen _ hev
    cases op <;> first | exact h.elim | simp
  refused _ _ _ := hunseen
  admitted := .inl hunseen
  invalid text h := hinvalid text (Except.error.inj h)

theorem outcome_of_reads {size : ℕ} {matcher : Option Matcher} (h : Reads tr r)
    (hadmitted : Admitted crates.toCrates args size matcher) :
    Outcome crates.toCrates args size (⟨.tryReserve size, .ok ()⟩ :: ⟨.getOrCreate, .ok ()⟩ ::
      (tr ++ [⟨.giveBack size, ()⟩])) r := by
  have hreserved : reserved (⟨.tryReserve size, .ok ()⟩ :: ⟨.getOrCreate, .ok ()⟩ ::
      (tr ++ [⟨.giveBack size, ()⟩])) = [size] := by
    show size :: reserved (tr ++ _) = [size]
    rw [reserved_append, h.reserved]
    rfl
  have hback : givenBack (⟨.tryReserve size, .ok ()⟩ :: ⟨.getOrCreate, .ok ()⟩ ::
      (tr ++ [⟨.giveBack size, ()⟩])) = [size] := by
    show givenBack (tr ++ _) = [size]
    rw [givenBack_append, h.givenBack]
    rfl
  refine ⟨hback.trans hreserved.symm, ?_, fun e he hrefuses => absurd hrefuses (h.begun e he),
    .inr ⟨hreserved, matcher, hadmitted⟩, fun e he => absurd trivial (h.begun _ he)⟩
  show readsCounted ([⟨.tryReserve size, .ok ()⟩, ⟨.getOrCreate, .ok ()⟩] ++ (tr ++ _)) = _
  rw [readsCounted_append, readsCounted_append, h.counted]
  show 0 + (_ + 0) = _
  rw [Nat.zero_add, Nat.add_zero]

theorem readReserved_wp (name : Option String) (encoding : Encoding) {size : ℕ}
    {matcher : Option Matcher} (hadmitted : Admitted crates.toCrates args size matcher)
    (s : Station) :
    wp callAct R (readReserved crates turns args name encoding size matcher)
      (fun tr _ r => Outcome crates.toCrates args size tr r) s := by
  unfold readReserved
  simp only [Prog.perform_bind, wp_call]
  intro s₁ _
  rcases (callAct (.tryReserve size) s₁).1 with e | ⟨⟩
  · refine Outcome.of_refusal (fun ev hev => ?_) rfl fun _ h => by cases h
    rw [List.mem_singleton.1 hev]
    trivial
  · dsimp only
    simp only [wp_call]
    intro s₂ _
    rcases (callAct .getOrCreate s₂).1 with e | ⟨⟩
    · intro s₃ _
      refine Outcome.of_refusal (fun ev hev => ?_) rfl fun _ h => by cases h
      simp only [List.mem_cons, List.not_mem_nil, or_false] at hev
      rcases hev with rfl | rfl | rfl
      · trivial
      · show Except.error e ≠ Except.ok ()
        exact fun h => by cases h
      · trivial
    · dsimp only
      refine wp_seq (readSession_wp name encoding size matcher _) fun tr s₃ r hr => ?_
      intro s₄ _
      exact outcome_of_reads hr hadmitted

/-- Looks at the connection. -/
structure Looks (tr : List CallEvent) : Prop extends Aside tr where
  unseen : ∀ ev ∈ tr, Unseen ev

theorem Looks.append (h : Looks tr) (h' : Looks tr') : Looks (tr ++ tr') where
  reserved := by rw [reserved_append, h.reserved, h'.reserved, List.append_nil]
  givenBack := by rw [givenBack_append, h.givenBack, h'.givenBack, List.append_nil]
  readsCounted := by rw [readsCounted_append, h.readsCounted, h'.readsCounted]
  unseen := List.forall_mem_append.2 ⟨h.unseen, h'.unseen⟩

theorem Looks.lookup (id : String) (found : Option (Option String)) :
    Looks [⟨.lookup id, found⟩] :=
  ⟨⟨rfl, rfl, rfl⟩, List.forall_mem_singleton.2 trivial⟩

theorem Looks.refuses {e : ReadError} {size : ℕ} (h : Looks tr)
    (hinvalid : ∀ text, e = .invalid text →
      ∀ matcher, ¬ Admitted crates.toCrates args size matcher) :
    Outcome crates.toCrates args size tr (.error e) :=
  .of_refusal h.unseen (h.givenBack.trans h.reserved.symm) hinvalid

theorem Looks.before {c : Crates} {size : ℕ} (h : Looks tr) (ho : Outcome c args size tr' r) :
    Outcome c args size (tr ++ tr') r where
  balanced := by
    rw [givenBack_append, reserved_append, h.givenBack, h.reserved, ho.balanced]
  counted := by rw [readsCounted_append, h.readsCounted, ho.counted, Nat.zero_add]
  refused e he hrefuses := List.forall_mem_append.2 ⟨h.unseen, ho.refused e he hrefuses⟩
  admitted := by
    rw [reserved_append, h.reserved, List.nil_append]
    exact ho.admitted.imp_left fun hunseen => List.forall_mem_append.2 ⟨h.unseen, hunseen⟩
  invalid := ho.invalid

theorem readDefault_wp (id : String) (s : Station) :
    wp callAct R (readDefault id) (fun tr _ size => Looks tr ∧
      ∀ tr', sizeFound (tr ++ tr') = size) s := by
  unfold readDefault
  simp only [Prog.perform_bind, wp_call]
  intro s₁ _
  rcases (callAct (.lookup id) s₁).1 with _ | name
  · exact ⟨.lookup id none, fun _ => rfl⟩
  · intro s₂ _
    exact ⟨(Looks.lookup id (some name)).append
      ⟨⟨rfl, rfl, rfl⟩, List.forall_mem_singleton.2 trivial⟩, fun _ => rfl⟩

/-- **What a read does.** -/
theorem read_wp (s : Station) : wp callAct R (read crates turns args)
    (fun tr _ r => Outcome crates.toCrates args (sizeFound tr) tr r) s := by
  unfold read
  refine wp_seq (readDefault_wp _ s) fun tr s₁ size hlooks => ?_
  obtain ⟨hlook, hsize⟩ := hlooks
  rcases parseEncoding args.encoding with e | encoding
  · show Outcome _ _ (sizeFound (tr ++ [])) (tr ++ []) _
    rw [List.append_nil]
    exact hlook.refuses fun _ h => by cases h
  · dsimp only
    simp only [Prog.perform_bind, wp_call]
    intro s₂ _
    rcases (callAct (.lookup args.connectionId) s₂).1 with _ | name
    · exact (hlook.append (.lookup _ none)).refuses fun _ h => by cases h
    · dsimp only
      rcases hvalid : validateRxRequest crates.toCrates readLimits args size with
        e | ⟨size', matcher⟩
      · refine (hlook.append (.lookup _ (some name))).refuses fun text htext matcher hadmitted => ?_
        rw [hsize] at hadmitted
        rw [validateRxRequest_eq_ok.2 ⟨rfl, hadmitted⟩] at hvalid
        cases hvalid
      · obtain ⟨rfl, hadmitted⟩ := validateRxRequest_eq_ok.1 hvalid
        refine wp_mono (fun tr' _ r h => ?_) (readReserved_wp name encoding hadmitted _)
        rw [hsize]
        exact hlook.before ((Looks.lookup _ (some name)).before h)

/-- **A read is admitted, or does nothing.** Whatever happens between its steps: a read gives
    back what it has reserved of the budget, and counts exactly if it has a result. If it is
    refused for its encoding, its connection, its arguments, the budget or its session, none of
    its steps moved the shared cursor, touched the port, or counted; one that did any of it had
    a buffer, timeouts and a match request that pass the checks, and one that is refused for
    its arguments has none that do. -/
theorem read_admitted (hrun : Runs callAct R s (read crates turns args) tr s' r) :
    givenBack tr = reserved tr ∧ (readsCounted tr = if r.isOk then 1 else 0) ∧
      (∀ e, r = .error e → e.Refuses → ∀ ev ∈ tr, Unseen ev) ∧
      ((∀ ev ∈ tr, Unseen ev) ∨ reserved tr = [sizeFound tr] ∧
        ∃ matcher, Admitted crates.toCrates args (sizeFound tr) matcher) ∧
      ∀ e, r = .error (.invalid e) →
        ∀ matcher, ¬ Admitted crates.toCrates args (sizeFound tr) matcher := by
  obtain ⟨hbalanced, hcounted, hrefused, hadmitted, hinvalid⟩ := hrun.wp (read_wp s)
  exact ⟨hbalanced, hcounted, hrefused, hadmitted, hinvalid⟩

end

/-- A read of the two bytes of the ring. -/
def bufferedRead : ReadArgs where
  connectionId := "c"
  start := some .bufferStart
  timeoutMs := some 0

theorem read_admitted_idle : ∃ tr s' result,
    Runs callAct Unused idleStation (read .standard 0 bufferedRead) tr s' (.ok result) ∧
      result.bytesRead = 2 ∧ reserved tr = [32768] ∧ givenBack tr = [32768] ∧
      readsCounted tr = 1 := by
  have hbytes : (run callAct (read .standard 0 bufferedRead) [] idleStation).2.2.toOption.map
      ReadResult.bytesRead = some 2 := by
    decide +kernel
  have hsize : reserved (run callAct (read .standard 0 bufferedRead) [] idleStation).1 =
      [32768] := by
    decide +kernel
  have hrun : Runs callAct Unused idleStation (read .standard 0 bufferedRead) _ _ _ :=
    run_runs Unused.refl _ [] _ (by simp)
  rcases hresult : run callAct (read .standard 0 bufferedRead) [] idleStation with
    ⟨tr, s', e | result⟩
  · rw [hresult] at hbytes
    cases hbytes
  · rw [hresult] at hbytes hsize hrun
    obtain ⟨hbalanced, hcounted, -⟩ := read_admitted hrun
    exact ⟨tr, s', result, hrun, Option.some.inj hbytes, hsize, hbalanced.trans hsize, hcounted⟩

/-! ## What a write does -/

/-- What `write` makes of its arguments: the bytes for the port, or its error. -/
def writeData (crates : Crates) (args : WriteArgs) (defaults : ConnectionDefaults) :
    Except WriteError Bytes :=
  match parseEncoding args.encoding with
  | .error e => .error (.encoding e)
  | .ok encoding =>
    match decodeTxPayload crates encoding args.data "write.data.len()" with
    | .error e => .error (.payload e)
    | .ok decoded =>
      let txFraming := resolveField args.txFraming args.protocol presetTxFraming
        defaults.txFraming defaults.protocol
      (applyTxFraming crates decoded txFraming "write.framed_len()").mapError .txFraming

/-- What a write through the worker leaves. -/
structure Handed (data : Bytes) (s s' : Station) (r : Except SerialError ℕ) : Prop where
  cursor : s'.link.rx.readCursor = s.link.rx.readCursor
  counters : s'.counters = s.counters
  device : ∃ front, front <+: data ∧ s'.device = s.device ++ front ∧
    (r.isOk = true → front = data)
  txBytes : s'.link.txBytes = s.link.txBytes + if r.isOk then data.length else 0
  length : ∀ n, r = .ok n → n = data.length

section
variable {crates : Crates} {args : WriteArgs} {s s' : Station} {tr : List CallEvent}
  {r : Except WriteError WriteResult}

theorem Handed.of_unused {data : Bytes} {e : SerialError} (h : Untouched s s') :
    Handed data s s' (.error e) :=
  ⟨h.cursor, h.counters,
    ⟨[], List.nil_prefix, by rw [h.device, List.append_nil], fun hok => by cases hok⟩, h.txBytes,
    by rintro _ ⟨⟩⟩

theorem handed_prefix (s : Station) (data : Bytes) : s.handed data <+: data := by
  unfold Station.handed
  split
  · exact List.prefix_rfl
  · exact List.take_prefix s.taken data

theorem handed_of_writable {data : Bytes} (h : s.link.writable = .ok ()) : s.handed data = data := by
  rw [Station.handed, h]

/-- **A write through the worker** hands its bytes over once, or some first part of them. -/
theorem txWrite_handed (data : Bytes) (s : Station) :
    wp callAct Unused (txWrite data) (fun _ s' r => Handed data s s' r) s := by
  simp only [txWrite, Prog.perform_bind, wp_call]
  intro s₁ h₁
  refine wp_ite (fun _ => ?_) fun _ => .of_unused h₁.toUntouched
  intro s₂ h₂
  have h₀₂ : Unused s s₂ := h₁.trans h₂
  generalize (callAct (.link .ensureOpen) s₂).1 = isOpen
  cases isOpen with
  | false => exact .of_unused ⟨h₀₂.device, h₀₂.cursor, h₀₂.txBytes, h₀₂.counters⟩
  | true =>
    intro s₃ h₃
    have h₀₃ : Untouched s s₃ :=
      ⟨h₃.device.trans h₀₂.device, h₃.cursor.trans h₀₂.cursor, h₃.txBytes.trans h₀₂.txBytes,
        h₃.counters.trans h₀₂.counters⟩
    have hdevice : (callAct (.link (.writeAll data)) s₃).2.device = s.device ++ s₃.handed data :=
      congrArg (· ++ s₃.handed data) h₀₃.device
    have hfront := handed_prefix s₃ data
    generalize hwritten : (callAct (.link (.writeAll data)) s₃).1 = written
    cases written with
    | error err =>
      exact ⟨h₀₃.cursor, h₀₃.counters, ⟨_, hfront, hdevice, fun hok => by cases hok⟩, h₀₃.txBytes,
        by rintro _ ⟨⟩⟩
    | ok u =>
      have hwritable : s₃.link.writable = .ok () := hwritten
      intro s₄ h₄
      refine ⟨h₄.cursor.trans h₀₃.cursor, h₄.counters.trans h₀₃.counters,
        ⟨_, hfront, h₄.device.trans hdevice, fun _ => handed_of_writable hwritable⟩, ?_, ?_⟩
      · show s₄.link.txBytes + data.length = s.link.txBytes + data.length
        rw [h₄.txBytes]
        exact congrArg (· + data.length) h₀₃.txBytes
      · rintro _ ⟨⟩
        rfl

/-- What a write leaves that nobody else uses the connection beside. -/
def Written (crates : Crates) (args : WriteArgs) (s s' : Station) :
    Except WriteError WriteResult → Prop
  | .ok result => ∃ data, writeData crates args s.defaults = .ok data ∧
      s'.device = s.device ++ data ∧ s'.link.txBytes = s.link.txBytes + data.length ∧
      result.bytesWritten = data.length ∧ s'.link.rx.readCursor = s.link.rx.readCursor ∧
      s'.counters = { s.counters with writeOps := s.counters.writeOps + 1 }
  | .error (.write _) => ∃ data, writeData crates args s.defaults = .ok data ∧
      (∃ front, front <+: data ∧ s'.device = s.device ++ front) ∧
      s'.link.txBytes = s.link.txBytes ∧ s'.link.rx.readCursor = s.link.rx.readCursor ∧
      s'.counters = s.counters
  | .error e => Untouched s s' ∧
      (writeData crates args s.defaults = .error e ∨ e = .notFound args.connectionId)

theorem write_wp (s : Station) : wp callAct Unused (write crates args)
    (fun _ s' r => Written crates args s s' r) s := by
  unfold write
  rcases hencoding : parseEncoding args.encoding with e | encoding
  · refine ⟨.refl s, .inl ?_⟩
    rw [writeData, hencoding]
  dsimp only
  simp only [Prog.perform_bind, wp_call]
  intro s₁ h₁
  rcases (callAct (.lookup args.connectionId) s₁).1 with _ | name
  · exact ⟨h₁.toUntouched, .inr rfl⟩
  dsimp only
  rcases hpayload : decodeTxPayload crates encoding args.data "write.data.len()" with e | decoded
  · refine ⟨h₁.toUntouched, .inl ?_⟩
    rw [writeData, hencoding]
    dsimp only
    rw [hpayload]
  simp only [wp_call]
  intro s₂ h₂ s₃ h₃
  have h₀₂ : Unused s s₂ := h₁.trans h₂
  have h₀₃ : Unused s s₃ := h₀₂.trans h₃
  have hframing : resolveField args.txFraming args.protocol presetTxFraming
      (callAct .defaults s₂).1.txFraming (callAct .defaults s₃).1.protocol =
      resolveField args.txFraming args.protocol presetTxFraming s.defaults.txFraming
        s.defaults.protocol := by
    show resolveField _ _ _ s₂.defaults.txFraming s₃.defaults.protocol = _
    rw [h₀₂.defaults, h₀₃.defaults]
  rw [hframing]
  have hdata : writeData crates args s.defaults = (applyTxFraming crates decoded
      (resolveField args.txFraming args.protocol presetTxFraming s.defaults.txFraming
        s.defaults.protocol) "write.framed_len()").mapError .txFraming := by
    rw [writeData, hencoding]
    dsimp only
    rw [hpayload]
  rcases happly : applyTxFraming crates decoded _ "write.framed_len()" with e | data
  · exact ⟨h₀₃.toUntouched, .inl (by rw [hdata, happly]; rfl)⟩
  have hok : writeData crates args s.defaults = .ok data := by
    rw [hdata, happly]
    rfl
  refine wp_seq (txWrite_handed data _) ?_
  rintro tr s₄ (e | n) ⟨hcursor, hcounters, ⟨front, hfront, hdevice, hall⟩, htxBytes, hlength⟩
  · exact ⟨data, hok, ⟨front, hfront, hdevice.trans (congrArg (· ++ front) h₀₃.device)⟩,
      htxBytes.trans h₀₃.txBytes, hcursor.trans h₀₃.cursor, hcounters.trans h₀₃.counters⟩
  · intro s₅ h₅
    obtain rfl := hlength n rfl
    obtain rfl := hall rfl
    refine ⟨front, hok, ?_, ?_, rfl, h₅.cursor.trans (hcursor.trans h₀₃.cursor), ?_⟩
    · exact h₅.device.trans (hdevice.trans (congrArg (· ++ front) h₀₃.device))
    · exact h₅.txBytes.trans (htxBytes.trans (congrArg (· + front.length) h₀₃.txBytes))
    · show { s₅.counters with writeOps := s₅.counters.writeOps + 1 } = _
      rw [h₅.counters, hcounters]
      show { s₃.counters with writeOps := s₃.counters.writeOps + 1 } = _
      rw [h₀₃.counters]

/-- **A write is done, or is not.** While nobody else uses the connection: a `write` that
    succeeds has handed exactly the bytes that its arguments make to the port, once, behind
    everything handed over before, and reports and counts them; one that is refused did
    nothing, for the error that its arguments make or because the connection is not there; and
    one that the port fails counts nothing, and has handed over some first part of its bytes. -/
theorem write_delivered (hrun : Runs callAct Unused s (write crates args) tr s' r) :
    Written crates args s s' r :=
  hrun.wp (write_wp s)

end

/-- A write of two bytes and their terminator. -/
def terminatedWrite : WriteArgs where
  connectionId := "c"
  data := "AT"
  txFraming := some ⟨.line .crlf⟩

theorem write_delivered_idle : ∃ tr s' result,
    Runs callAct Unused idleStation (write .refusing terminatedWrite) tr s' (.ok result) ∧
      s'.device = [65, 84, 13, 10] ∧ result.bytesWritten = 4 ∧ s'.counters.writeOps = 1 := by
  have hok : (run callAct (write .refusing terminatedWrite) [] idleStation).2.2.isOk = true := by
    decide +kernel
  have hdata : writeData .refusing terminatedWrite idleStation.defaults =
      .ok [65, 84, 13, 10] := by
    decide +kernel
  have hrun : Runs callAct Unused idleStation (write .refusing terminatedWrite) _ _ _ :=
    run_runs Unused.refl _ [] _ (by simp)
  rcases hresult : run callAct (write .refusing terminatedWrite) [] idleStation with
    ⟨tr, s', e | result⟩
  · rw [hresult] at hok
    cases hok
  · rw [hresult] at hrun
    obtain ⟨data, hdata', hdevice, -, hlength, -, hcounters⟩ := write_delivered hrun
    obtain rfl : [65, 84, 13, 10] = data := Except.ok.inj (hdata.symm.trans hdata')
    exact ⟨tr, s', result, hrun, hdevice, hlength, by rw [hcounters]; rfl⟩

end SerialMcp.Server
