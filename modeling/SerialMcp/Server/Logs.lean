/-
  The event log of a connection (`log_buffer.rs`), and what is told of it.

  * `LogBuffer`: the ring of the latest entries, with `record` and `clear`;
  * `apply_events`: a log holds the last `capacity` of the entries recorded since it was
    cleared last;
  * `LogBuffer.getLog`: `get_log`, behind the lookup of the connection; `getLog_eq` says
    what it returns of a history;
  * `jsonlSnapshot`: the bytes of an export; `jsonlSnapshot_iff` says when there is a
    snapshot and which, and `readJsonl_snapshot` that its lines are the entries.
-/
import Mathlib.Data.List.DropRight
import SerialMcp.RxRing
import SerialMcp.Utf8

namespace SerialMcp.Logs

/-! ## Entries -/

/-- `LogEvent`; `opened` and `closed` are `Open` and `Close`. -/
inductive LogEvent where
  | rxData (bytes : ℕ)
  | txData (bytes : ℕ)
  | opened
  | closed
  | disconnect (error : Text)
  | reconnectStart (attempt : ℕ)
  | reconnectSuccess
  | reconnectFailed (attempt : ℕ) (error : Text)
  | reconnectExhausted
  | matchFound (pattern mode : Text)
  | truncated (observed returned : ℕ)
  | readStarted
  | readCompleted (bytes : ℕ)
  | writeStarted
  | writeCompleted (bytes : ℕ)
  | error (message : Text)
  deriving DecidableEq, Repr

structure LogEntry where
  timestampMs : ℕ
  direction : Option Text
  event : LogEvent
  deriving DecidableEq, Repr

/-- `d.as_millis() as u64`, and 0 for a clock before the epoch -/
def timestampMs : Option ℕ → ℕ
  | some millis => millis % u64Size
  | none => 0

/-! ## The ring -/

/-- `while events.len() > self.capacity { events.pop_front(); }` -/
def evict (capacity : ℕ) : List LogEntry → List LogEntry
  | [] => []
  | e :: es => if capacity < (e :: es).length then evict capacity es else e :: es

theorem evict_eq (capacity : ℕ) (es : List LogEntry) : evict capacity es = es.rtake capacity := by
  induction es with
  | nil => exact (List.rtake_nil capacity).symm
  | cons e es ih =>
    rw [evict, List.rtake, List.length_cons]
    split_ifs with hfull
    · have hdrop : es.length + 1 - capacity = es.length - capacity + 1 := by omega
      rw [ih, hdrop, List.drop_succ_cons, List.rtake]
    · have hdrop : es.length + 1 - capacity = 0 := by omega
      rw [hdrop, List.drop_zero]

/-- The log of a connection; one that is not enabled is empty. -/
structure LogBuffer where
  events : List LogEntry
  capacity : ℕ
  enabled : Bool
  fits : events.length ≤ capacity
  off : enabled = false → events = []

namespace LogBuffer

/-- `LogBuffer::new` -/
def new (capacity : ℕ) (enabled : Bool) : LogBuffer :=
  ⟨[], capacity, enabled, Nat.zero_le _, fun _ => rfl⟩

def record (log : LogBuffer) (clock : Option ℕ) (direction : Option Text) (event : LogEvent) :
    LogBuffer :=
  if h : log.enabled = true then
    { log with
      events := evict log.capacity (log.events ++ [⟨timestampMs clock, direction, event⟩])
      fits := by
        rw [evict_eq, List.rtake, List.length_drop]
        omega
      off := fun hoff => by
        rw [h] at hoff
        cases hoff }
  else log

def clear (log : LogBuffer) : LogBuffer :=
  { log with
    events := []
    fits := Nat.zero_le _
    off := fun _ => rfl }

end LogBuffer

/-- What is done to a log. -/
inductive LogOp where
  | record (clock : Option ℕ) (direction : Option Text) (event : LogEvent)
  | clear
  deriving DecidableEq, Repr

def LogBuffer.apply (log : LogBuffer) : LogOp → LogBuffer
  | .record clock direction event => log.record clock direction event
  | .clear => log.clear

/-! ## What a log holds -/

/-- The entries recorded since the last `clear`. -/
def recorded : List LogOp → List LogEntry :=
  List.foldl (fun es op => match op with
    | .record clock direction event => es ++ [⟨timestampMs clock, direction, event⟩]
    | .clear => []) []

/-- The entries of which a log with this configuration still knows. -/
def retained (capacity : ℕ) (enabled : Bool) (ops : List LogOp) : List LogEntry :=
  if enabled then (recorded ops).rtake capacity else []

section
variable {ops : List LogOp} {log : LogBuffer} {op : LogOp}

@[simp] theorem apply_capacity : (log.apply op).capacity = log.capacity := by
  cases op with
  | record clock direction event =>
    rw [LogBuffer.apply, LogBuffer.record]
    split_ifs <;> rfl
  | clear => rfl

@[simp] theorem apply_enabled : (log.apply op).enabled = log.enabled := by
  cases op with
  | record clock direction event =>
    rw [LogBuffer.apply, LogBuffer.record]
    split_ifs <;> rfl
  | clear => rfl

theorem recorded_snoc : recorded (ops ++ [op]) = match op with
    | .record clock direction event => recorded ops ++ [⟨timestampMs clock, direction, event⟩]
    | .clear => [] := by
  rw [recorded, List.foldl_append]
  cases op <;> rfl

/-- The last `n` of the last `n` and a new one are the last `n` of all. -/
theorem rtake_snoc {α : Type} (n : ℕ) (xs : List α) (x : α) :
    (xs.rtake n ++ [x]).rtake n = (xs ++ [x]).rtake n := by
  cases n with
  | zero => simp
  | succ n =>
    rw [List.rtake_concat_succ, List.rtake_concat_succ]
    simp [List.rtake_eq_reverse_take_reverse, List.take_take]

/-- **A log is a window on its history**: an operation keeps it so. -/
theorem apply_events (h : log.events = retained log.capacity log.enabled ops) :
    (log.apply op).events = retained log.capacity log.enabled (ops ++ [op]) := by
  rw [retained, recorded_snoc]
  cases op with
  | clear =>
    show [] = _
    rw [List.rtake_nil, ite_self]
  | record clock direction event =>
    rw [LogBuffer.apply, LogBuffer.record]
    by_cases hon : log.enabled = true
    · rw [dif_pos hon, if_pos hon]
      show evict log.capacity (log.events ++ [_]) = _
      rw [evict_eq, h, retained, if_pos hon, rtake_snoc]
    · rw [dif_neg hon, if_neg hon, log.off (Bool.not_eq_true _ ▸ hon)]

end

/-! ## `get_log` -/

structure GetLogArgs where
  connectionId : Text
  sinceMs : Option ℕ
  limit : Option ℕ
  deriving DecidableEq, Repr

structure GetLogResult where
  logEnabled : Bool
  capacity : ℕ
  totalEvents : ℕ
  events : List LogEntry
  deriving DecidableEq, Repr

/-- `get_log`, behind the lookup of the connection. -/
def LogBuffer.getLog (log : LogBuffer) (args : GetLogArgs) : GetLogResult :=
  let filtered := log.events.filter fun e => args.sinceMs.all fun since => since ≤ e.timestampMs
  { logEnabled := log.enabled
    capacity := log.capacity
    totalEvents := log.events.length
    events := match args.limit with
      | some limit =>
        if limit < filtered.length then filtered.drop (filtered.length - limit) else filtered
      | none => filtered }

/-- The last `limit` of some entries, all of them without a limit. -/
def latest (limit : Option ℕ) (entries : List LogEntry) : List LogEntry :=
  match limit with
  | some limit => entries.rtake limit
  | none => entries

/-- What `get_log` says of a history. -/
def reported (args : GetLogArgs) (capacity : ℕ) (enabled : Bool) (ops : List LogOp) :
    GetLogResult where
  logEnabled := enabled
  capacity := capacity
  totalEvents := if enabled then min capacity (recorded ops).length else 0
  events := latest args.limit ((retained capacity enabled ops).filter fun e =>
    args.sinceMs.all fun since => since ≤ e.timestampMs)

theorem retained_length (capacity : ℕ) (enabled : Bool) (ops : List LogOp) :
    (retained capacity enabled ops).length =
      if enabled then min capacity (recorded ops).length else 0 := by
  rw [retained]
  split_ifs
  · rw [List.rtake, List.length_drop]
    omega
  · rfl

/-- **`get_log` tells of the history** the latest that it was asked for. -/
theorem getLog_eq {log : LogBuffer} {ops : List LogOp} (args : GetLogArgs)
    (h : log.events = retained log.capacity log.enabled ops) :
    log.getLog args = reported args log.capacity log.enabled ops := by
  rw [LogBuffer.getLog, reported, ← retained_length, ← h]
  congr 1
  rcases args.limit with _ | limit
  · rfl
  · show (if _ then _ else _) = List.rtake _ limit
    split_ifs with hlt
    · rfl
    · rw [List.rtake, Nat.sub_eq_zero_of_le (Nat.le_of_not_lt hlt), List.drop_zero]

/-! ## Snapshots -/

/-- What `serde_json` makes of entries, and of lines. -/
structure EntryJson where
  toString : LogEntry → Except String Text
  fromStr : Text → Option LogEntry

/-- The lines are JSON texts without line breaks, and are read as the entries they are of. -/
structure EntryJson.Lawful (json : EntryJson) : Prop where
  line : ∀ e text, json.toString e = .ok text → '\n' ∉ text
  read : ∀ e text, json.toString e = .ok text → json.fromStr text = some e

structure JsonlSnapshot where
  bytes : Bytes
  events : ℕ
  deriving DecidableEq, Repr

def quotaError (maxBytes : ℕ) : String :=
  "log snapshot exceeds capture per-file quota (" ++ toString maxBytes ++
    " bytes); reduce log_capacity or raise --capture-max-file-bytes"

section
variable (json : EntryJson) (maxBytes : ℕ)

/-- The loop of `jsonl_snapshot`, with what is written and counted so far. -/
def jsonlLoop (out : Bytes) (count : ℕ) : List LogEntry → Except String JsonlSnapshot
  | [] => .ok ⟨out, count⟩
  | entry :: entries =>
    match json.toString entry with
    | .error e => .error ("Failed to serialize log entry: " ++ e)
    | .ok line =>
      let needed := (asBytes line).length + 1
      if u64Size ≤ needed then .error "log snapshot line size overflow"
      else if u64Size ≤ out.length + needed then .error "log snapshot size overflow"
      else if maxBytes < out.length + needed then .error (quotaError maxBytes)
      else if u64Size ≤ count + 1 then .error "log snapshot event count overflow"
      else jsonlLoop (out ++ asBytes line ++ [10]) (count + 1) entries

def jsonlSnapshot (entries : List LogEntry) : Except String JsonlSnapshot :=
  jsonlLoop json maxBytes [] 0 entries

end

/-- A file of these lines. -/
def jsonl (lines : List Text) : Bytes := lines.flatMap fun line => asBytes line ++ [10]

/-- The entries in a file, every line read on its own. -/
def readJsonl (json : EntryJson) (bytes : Bytes) : Option (List LogEntry) :=
  (fromUtf8 bytes).bind fun text => (text.splitOn '\n').dropLast.mapM json.fromStr

section
variable {json : EntryJson} {maxBytes : ℕ} {entries : List LogEntry} {snapshot : JsonlSnapshot}

theorem jsonl_cons (line : Text) (lines : List Text) :
    jsonl (line :: lines) = asBytes line ++ [10] ++ jsonl lines := rfl

/-- What the loop makes of the entries that are left, if they fit. -/
def Completes (json : EntryJson) (maxBytes : ℕ) (out : Bytes) (count : ℕ) (entries : List LogEntry)
    (snapshot : JsonlSnapshot) : Prop :=
  ∃ lines, entries.mapM json.toString = .ok lines ∧
    snapshot = ⟨out ++ jsonl lines, count + entries.length⟩ ∧
    (out ++ jsonl lines).length ≤ maxBytes

theorem completes_nil {out : Bytes} {count : ℕ} : Completes json maxBytes out count [] snapshot ↔
    snapshot = ⟨out, count⟩ ∧ out.length ≤ maxBytes := by
  have hnil : out ++ jsonl [] = out := List.append_nil out
  constructor
  · rintro ⟨lines, hlines, rfl, hfits⟩
    obtain rfl : [] = lines := Except.ok.inj hlines
    rw [hnil] at hfits ⊢
    exact ⟨rfl, hfits⟩
  · rintro ⟨rfl, hfits⟩
    refine ⟨[], rfl, ?_, ?_⟩
    · rw [hnil]
      rfl
    · rwa [hnil]

theorem completes_cons {entry : LogEntry} {line : Text} {out : Bytes} {count : ℕ}
    (hline : json.toString entry = .ok line) :
    Completes json maxBytes out count (entry :: entries) snapshot ↔
      Completes json maxBytes (out ++ asBytes line ++ [10]) (count + 1) entries snapshot := by
  have hout : ∀ lines, out ++ asBytes line ++ [10] ++ jsonl lines =
      out ++ jsonl (line :: lines) := by
    intro lines
    rw [jsonl_cons]
    simp only [List.append_assoc]
  have hcount : count + 1 + entries.length = count + (entry :: entries).length := by
    rw [List.length_cons]
    omega
  simp only [Completes, hout, hcount]
  rw [List.mapM_cons, hline]
  cases hrest : entries.mapM json.toString with
  | error e =>
    constructor
    · rintro ⟨lines, hlines, -⟩
      cases hlines
    · rintro ⟨lines, hlines, -⟩
      cases hlines
  | ok rest =>
    constructor
    · rintro ⟨_, ⟨⟩, h⟩
      exact ⟨rest, rfl, h⟩
    · rintro ⟨_, ⟨⟩, h⟩
      exact ⟨line :: rest, rfl, h⟩

theorem Completes.out_le {out : Bytes} {count : ℕ}
    (h : Completes json maxBytes out count entries snapshot) : out.length ≤ maxBytes := by
  obtain ⟨lines, -, -, hfits⟩ := h
  rw [List.length_append] at hfits
  omega

/-- **The loop** comes to its end just if all is serialized and fits. -/
theorem jsonlLoop_iff {out : Bytes} {count : ℕ} (hmax : maxBytes < u64Size)
    (hout : out.length ≤ maxBytes) (hcount : count ≤ out.length) :
    jsonlLoop json maxBytes out count entries = .ok snapshot ↔
      Completes json maxBytes out count entries snapshot := by
  induction entries generalizing out count with
  | nil =>
    rw [completes_nil, jsonlLoop]
    constructor
    · intro h
      exact ⟨(Except.ok.inj h).symm, hout⟩
    · intro h
      rw [h.1]
  | cons entry entries ih =>
    rw [jsonlLoop]
    cases hline : json.toString entry with
    | error e =>
      constructor
      · intro h
        cases h
      · rintro ⟨lines, hlines, -⟩
        rw [List.mapM_cons, hline] at hlines
        cases hlines
    | ok line =>
      have hlength : (out ++ asBytes line ++ [10]).length =
          out.length + ((asBytes line).length + 1) := by
        simp only [List.length_append, List.length_singleton]
        omega
      have hlarge : maxBytes < out.length + ((asBytes line).length + 1) →
          ¬ Completes json maxBytes (out ++ asBytes line ++ [10]) (count + 1) entries snapshot := by
        intro hlt h
        have hle := h.out_le
        omega
      rw [completes_cons hline]
      dsimp only
      split_ifs with hneeded hprojected hquota hevents
      · exact iff_of_false (fun h => by cases h) (hlarge (by omega))
      · exact iff_of_false (fun h => by cases h) (hlarge (by omega))
      · exact iff_of_false (fun h => by cases h) (hlarge hquota)
      · omega
      · exact ih (by omega) (by omega)

/-- **There is a snapshot** just if every entry is serialized and the lines fit, to the
    byte; no count overflows. -/
theorem jsonlSnapshot_iff (hmax : maxBytes < u64Size) :
    jsonlSnapshot json maxBytes entries = .ok snapshot ↔
      ∃ lines, entries.mapM json.toString = .ok lines ∧
        snapshot = ⟨jsonl lines, entries.length⟩ ∧ (jsonl lines).length ≤ maxBytes := by
  have hloop := @jsonlLoop_iff json maxBytes entries snapshot [] 0 hmax (Nat.zero_le _)
    (Nat.zero_le _)
  rw [jsonlSnapshot, hloop, Completes]
  simp only [List.nil_append, Nat.zero_add]

theorem jsonl_eq (lines : List Text) :
    jsonl lines = asBytes (lines.flatMap fun line => line ++ ['\n']) := by
  induction lines with
  | nil => rfl
  | cons line lines ih =>
    have hfeed : asBytes ['\n'] = [10] := by decide
    rw [jsonl_cons, ih, List.flatMap_cons, asBytes, asBytes, asBytes, List.flatMap_append,
      List.flatMap_append, ← asBytes, ← asBytes, ← asBytes, hfeed]

theorem splitOn_lines {lines : List Text} (h : ∀ line ∈ lines, '\n' ∉ line) :
    (lines.flatMap fun line => line ++ ['\n']).splitOn '\n' = lines ++ [[]] := by
  induction lines with
  | nil => rfl
  | cons line lines ih =>
    rw [List.forall_mem_cons] at h
    rw [List.flatMap_cons, List.append_assoc, List.singleton_append,
      List.splitOn_append_cons_self, List.splitOn_eq_singleton h.1, ih h.2]
    rfl

/-- **A snapshot is read** as the entries that it was taken of. -/
theorem readJsonl_snapshot (hjson : json.Lawful) {lines : List Text}
    (h : entries.mapM json.toString = .ok lines) : readJsonl json (jsonl lines) = some entries := by
  have hlines : (∀ line ∈ lines, '\n' ∉ line) ∧ lines.mapM json.fromStr = some entries := by
    induction entries generalizing lines with
    | nil =>
      cases h
      exact ⟨by simp, rfl⟩
    | cons entry entries ih =>
      rw [List.mapM_cons] at h
      cases hline : json.toString entry with
      | error e =>
        rw [hline] at h
        cases h
      | ok line =>
        cases hrest : entries.mapM json.toString with
        | error e =>
          rw [hline, hrest] at h
          cases h
        | ok rest =>
          rw [hline, hrest] at h
          cases h
          obtain ⟨hno, hread⟩ := ih hrest
          refine ⟨List.forall_mem_cons.2 ⟨hjson.line entry line hline, hno⟩, ?_⟩
          rw [List.mapM_cons, hjson.read entry line hline, hread]
          rfl
  rw [readJsonl, jsonl_eq, fromUtf8_asBytes, Option.bind_some, splitOn_lines hlines.1,
    List.dropLast_concat, hlines.2]

end

end SerialMcp.Logs
