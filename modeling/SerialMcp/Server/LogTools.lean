/-
  `get_log`, `clear_log` and `export_log` (`tools/port_ops.rs`) on the logs of a server
  and a capture store, interleaved with all that is recorded meanwhile, with connections
  that open and close, and with the calls of other stores on the directory.

  A tool looks up its connection and works on the log of it, which may outlive the
  connection.  A snapshot for an export is taken in a blocking task, and goes to
  `write_new` when `export_log` has its turn again.

  * `Task.step`: the tools, and all that is done to the logs;
  * `World.Shows`: what a log holds at a moment of its history;
  * `Inv.move`: the invariant, over the one of the stores;
  * `reads_exact`: `get_log` tells of the history at one moment of the call;
  * `exports_faithful`: so does the file of an export, and there is one just if the
    export is answered with success.
-/
import SerialMcp.Captures.Calls
import SerialMcp.Server.Logs

namespace SerialMcp.Logs

open Tasks
open Captures (CaptureStore CaptureWriteResult Directory Goes Kept ManagedFile Stores
  captureDisabledError validateCaptureFilename)

/-! ## The server -/

/-- The log of a connection, with what was done to it so far. -/
structure Logged where
  connectionId : Text
  log : LogBuffer
  ops : List LogOp
  holds : log.events = retained log.capacity log.enabled ops

def Logged.opened (connectionId : Text) (capacity : ℕ) (enabled : Bool) : Logged where
  connectionId
  log := .new capacity enabled
  ops := []
  holds := by
    show [] = retained capacity enabled []
    rw [retained, recorded, List.foldl_nil, List.rtake_nil, ite_self]

def Logged.apply (l : Logged) (op : LogOp) : Logged where
  connectionId := l.connectionId
  log := l.log.apply op
  ops := l.ops ++ [op]
  holds := by
    rw [apply_capacity, apply_enabled]
    exact apply_events l.holds

structure ExportLogArgs where
  connectionId : Text
  path : Text
  deriving DecidableEq, Repr

structure ExportLogResult where
  connectionId : Text
  path : String
  eventsWritten : ℕ
  bytesWritten : ℕ
  filesUsed : ℕ
  totalBytesUsed : ℕ
  durabilityWarning : Option String
  deriving DecidableEq, Repr

inductive Tool where
  | getLog (args : GetLogArgs)
  | clearLog (connectionId : Text)
  | exportLog (args : ExportLogArgs)
  deriving DecidableEq, Repr

def Tool.connectionId : Tool → Text
  | getLog args => args.connectionId
  | clearLog connectionId => connectionId
  | exportLog args => args.connectionId

/-- A log, how much had been done to it when a tool found it, and when the tool worked on it. -/
structure Moment where
  log : ℕ
  found : ℕ
  taken : ℕ
  deriving DecidableEq, Repr

/-- An export that has called `write_new`. -/
structure Export where
  args : ExportLogArgs
  moment : Moment
  snapshot : JsonlSnapshot
  call : ℕ
  deriving DecidableEq, Repr

/-- The result of `export_log` for a file. -/
def Export.result (e : Export) (write : CaptureWriteResult) : ExportLogResult where
  connectionId := e.args.connectionId
  path := write.path
  eventsWritten := e.snapshot.events
  bytesWritten := write.bytesWritten
  filesUsed := write.filesUsed
  totalBytesUsed := write.totalBytesUsed
  durabilityWarning := write.durabilityWarning

/-- What a tool returns. -/
inductive Answer where
  | log (args : GetLogArgs) (moment : Moment) (result : GetLogResult)
  | cleared (connectionId : Text)
  | exported (e : Export) (result : Except String ExportLogResult)
  /-- an error of a tool, for an export before it calls `write_new` -/
  | failed (tool : Tool) (message : String)

structure World where
  /-- the connections of the manager, with the numbers of their logs -/
  connections : Text → Option ℕ
  logs : List Logged
  stores : Stores
  exports : List Export
  answers : List Answer

inductive Task where
  | opening (connectionId : Text) (capacity : ℕ) (enabled : Bool)
  | closing (connectionId : Text)
  /-- something is recorded by a connection -/
  | recording (log : ℕ) (direction : Option Text) (event : LogEvent)
  | calling (tool : Tool)
  /-- at the lookup of the connection -/
  | looking (tool : Tool)
  /-- with the log of the connection -/
  | having (tool : Tool) (log found : ℕ)
  /-- an export with its snapshot -/
  | writing (args : ExportLogArgs) (moment : Moment) (snapshot : JsonlSnapshot)
  | awaiting (e : Export)
  /-- all that goes on in the stores -/
  | stores

inductive Input where
  | turn
  /-- the milliseconds since the epoch, if it is not before it -/
  | clock (millis : Option ℕ)
  /-- an error of the runtime, for a blocking task -/
  | lost (e : String)
  | store (move : Move Captures.Task Captures.Input)
  /-- the future of a caller is dropped -/
  | dropped

namespace World

def answer (w : World) (a : Answer) : World := { w with answers := w.answers ++ [a] }

def apply (w : World) (k : ℕ) (l : Logged) (op : LogOp) : World :=
  { w with logs := w.logs.set k (l.apply op) }

end World

def notFound (connectionId : Text) : String :=
  "Connection ID " ++ String.ofList connectionId ++ " not found"

section
variable (json : EntryJson) (store : CaptureStore)

/-- What `export_log` checks first. -/
def Tool.check : Tool → Except String Unit
  | exportLog args =>
    if store.root.isNone then .error captureDisabledError else validateCaptureFilename args.path
  | _ => .ok ()

/-- A tool with the log of its connection. -/
def Tool.proceed (k found : ℕ) (l : Logged) (w : World) : Tool → Input → Option (World × List Task)
  | getLog args, .turn =>
    some (w.answer (.log args ⟨k, found, l.ops.length⟩ (l.log.getLog args)), [])
  | clearLog connectionId, .turn => some ((w.apply k l .clear).answer (.cleared connectionId), [])
  | exportLog args, .turn =>
    match jsonlSnapshot json store.limits.maxFileBytes l.log.events with
    | .error e => some (w.answer (.failed (exportLog args) e), [])
    | .ok snapshot => some (w, [.writing args ⟨k, found, l.ops.length⟩ snapshot])
  | exportLog args, .lost e =>
    some (w.answer (.failed (exportLog args) ("capture snapshot task failed: " ++ e)), [])
  | _, .dropped => some (w, [])
  | _, _ => none

/-- One step of a task. -/
def Task.step : Task → Input → World → Option (World × List Task)
  | opening connectionId capacity enabled, .turn, w =>
    some ({ w with
      connections := Function.update w.connections connectionId (some w.logs.length)
      logs := w.logs ++ [.opened connectionId capacity enabled] }, [])
  | closing connectionId, .turn, w =>
    some ({ w with connections := Function.update w.connections connectionId none }, [])
  | recording k direction event, .clock millis, w =>
    w.logs[k]?.map fun l => (w.apply k l (.record millis direction event), [])
  | calling tool, .turn, w =>
    match tool.check store with
    | .error e => some (w.answer (.failed tool e), [])
    | .ok () => some (w, [.looking tool])
  | looking tool, .turn, w =>
    match w.connections tool.connectionId with
    | none => some (w.answer (.failed tool (notFound tool.connectionId)), [])
    | some k => w.logs[k]?.map fun l => (w, [.having tool k l.ops.length])
  | having tool k found, i, w => w.logs[k]?.bind fun l => tool.proceed json store k found l w i
  | writing args moment snapshot, .turn, w =>
    let e : Export := ⟨args, moment, snapshot, w.stores.world.calls.length⟩
    (Captures.enter w.stores ⟨store, args.path, snapshot.bytes⟩).map fun stores =>
      ({ w with stores, exports := w.exports ++ [e] }, [.awaiting e])
  | awaiting e, .turn, w =>
    (w.stores.world.answers.find? fun a => a.1 = e.call).map fun a =>
      (w.answer (.exported e (a.2.map e.result)), [])
  | stores, .store m, w =>
    (w.stores.move Captures.Task.step m).map fun stores => ({ w with stores }, [.stores])
  | calling _, .dropped, w | looking _, .dropped, w | writing _ _ _, .dropped, w
  | awaiting _, .dropped, w => some (w, [])
  | _, _, _ => none

/-- What may begin at any time. -/
inductive Task.Starts : Task → Prop
  | opening (connectionId : Text) (capacity : ℕ) (enabled : Bool) :
      Task.Starts (.opening connectionId capacity enabled)
  | closing (connectionId : Text) : Task.Starts (.closing connectionId)
  | recording (log : ℕ) (direction : Option Text) (event : LogEvent) :
      Task.Starts (.recording log direction event)
  | calling (tool : Tool) : Task.Starts (.calling tool)

abbrev Server := State World Task

/-- Every interleaving; the stores of others on the directory have the same limits. -/
def AnyMove (_ : Server) : Move Task Input → Prop
  | .start t => t.Starts
  | .run _ (.store (.start t)) => t.Starts store.limits
  | .run _ _ => True

end

/-- A server without connections. -/
def Server.init (dir : Directory) : Server where
  world := ⟨fun _ => none, [], Stores.init dir, [], []⟩
  tasks := [.stores]

/-! ## What a log had seen -/

/-- A log later on: more has been done to it. -/
structure Logged.Grows (l l' : Logged) : Prop where
  connectionId : l'.connectionId = l.connectionId
  capacity : l'.log.capacity = l.log.capacity
  enabled : l'.log.enabled = l.log.enabled
  ops : l.ops <+: l'.ops

theorem Logged.Grows.refl (l : Logged) : l.Grows l := ⟨rfl, rfl, rfl, List.prefix_rfl⟩

theorem Logged.Grows.trans {l l' l'' : Logged} (h : l.Grows l') (h' : l'.Grows l'') : l.Grows l'' :=
  ⟨h'.connectionId.trans h.connectionId, h'.capacity.trans h.capacity, h'.enabled.trans h.enabled,
    h.ops.trans h'.ops⟩

theorem Logged.grows_apply (l : Logged) (op : LogOp) : l.Grows (l.apply op) :=
  ⟨rfl, apply_capacity, apply_enabled, List.prefix_append _ _⟩

/-- At a moment, the log of the connection had seen what `P` says of its history. -/
def World.Shows (w : World) (connectionId : Text) (m : Moment)
    (P : ℕ → Bool → List LogOp → Prop) : Prop :=
  ∃ l, w.logs[m.log]? = some l ∧ l.connectionId = connectionId ∧ m.found ≤ m.taken ∧
    m.taken ≤ l.ops.length ∧ P l.log.capacity l.log.enabled (l.ops.take m.taken)

/-- The logs grow. -/
def LogsLater (w w' : World) : Prop :=
  ∀ (k : ℕ) (l : Logged), w.logs[k]? = some l → ∃ l' : Logged, w'.logs[k]? = some l' ∧ l.Grows l'

section
variable {json : EntryJson} {store : CaptureStore} {w w' : World} {m : Moment} {id : Text}
  {P : ℕ → Bool → List LogOp → Prop} {k found : ℕ} {l : Logged} {op : LogOp}

theorem LogsLater.of_eq (h : w'.logs = w.logs) : LogsLater w w' :=
  fun _ l hl => ⟨l, h ▸ hl, .refl l⟩

theorem logsLater_apply (hl : w.logs[k]? = some l) (op : LogOp) : LogsLater w (w.apply k l op) := by
  intro n l' hl'
  by_cases hn : k = n
  · subst hn
    obtain rfl : l = l' := Option.some.inj (hl.symm.trans hl')
    refine ⟨l.apply op, ?_, l.grows_apply op⟩
    exact List.getElem?_set_self (List.getElem?_eq_some_iff.1 hl).1
  · refine ⟨l', ?_, .refl l'⟩
    show (w.logs.set k (l.apply op))[n]? = _
    rw [List.getElem?_set_ne hn, hl']

/-- **What a log had seen, it has seen later on.** -/
theorem World.Shows.later (h : w.Shows id m P) (hlater : LogsLater w w') : w'.Shows id m P := by
  obtain ⟨l, hl, hid, hfound, htaken, hP⟩ := h
  obtain ⟨l', hl', hgrows⟩ := hlater m.log l hl
  refine ⟨l', hl', hgrows.connectionId.trans hid, hfound, htaken.trans hgrows.ops.length_le, ?_⟩
  obtain ⟨rest, hrest⟩ := hgrows.ops
  rwa [hgrows.capacity, hgrows.enabled, ← hrest, List.take_append_of_le_length htaken]

theorem shows_now (hl : w.logs[k]? = some l) (hfound : found ≤ l.ops.length)
    (hP : P l.log.capacity l.log.enabled l.ops) :
    w.Shows l.connectionId ⟨k, found, l.ops.length⟩ P := by
  refine ⟨l, hl, rfl, hfound, Nat.le_refl _, ?_⟩
  rwa [List.take_length]

end

/-! ## The invariant -/

section
variable (json : EntryJson) (store : CaptureStore)

/-- The snapshot is one of the log at the moment. -/
def Exported (w : World) (args : ExportLogArgs) (m : Moment) (snapshot : JsonlSnapshot) : Prop :=
  w.Shows args.connectionId m fun capacity enabled ops =>
    jsonlSnapshot json store.limits.maxFileBytes (retained capacity enabled ops) = .ok snapshot

/-- What an export that has called the store rests on. -/
structure Export.Sound (w : World) (e : Export) : Prop where
  exported : Exported json store w e.args e.moment e.snapshot
  called : w.stores.world.calls[e.call]? = some ⟨store, e.args.path, e.snapshot.bytes⟩

def Answer.Sound (w : World) : Answer → Prop
  | log args m result => w.Shows args.connectionId m fun capacity enabled ops =>
      result = reported args capacity enabled ops
  | exported e result => e ∈ w.exports ∧
      ∃ a, (e.call, a) ∈ w.stores.world.answers ∧ result = a.map e.result
  | _ => True

def Task.Sound (w : World) : Task → Prop
  | having tool k found => w.Shows tool.connectionId ⟨k, found, found⟩ fun _ _ _ => True
  | writing args m snapshot => Exported json store w args m snapshot
  | awaiting e => e ∈ w.exports
  | _ => True

/-- The stores keep their invariant, and the connections have logs of their own. -/
structure World.Sound (base : List ManagedFile) (w : World) : Prop where
  kept : Kept store.limits base w.stores
  connections : ∀ id k, w.connections id = some k →
    ∃ l : Logged, w.logs[k]? = some l ∧ l.connectionId = id

/-- The invariant. -/
structure Inv (base : List ManagedFile) (s : Server) : Prop where
  world : s.world.Sound store base
  exports : ∀ e ∈ s.world.exports, e.Sound json store s.world
  answers : ∀ a ∈ s.world.answers, a.Sound s.world
  tasks : ∀ t ∈ s.tasks, t.Sound json store s.world

end

/-- What a later state begins with. -/
structure Later (w w' : World) : Prop where
  logs : LogsLater w w'
  stores : Goes w.stores.world w'.stores.world
  exports : ∀ e ∈ w.exports, e ∈ w'.exports

section
variable {json : EntryJson} {store : CaptureStore} {base : List ManagedFile} {w w' : World}
  {s s' : Server} {t : Task} {new : List Task} {i : Input} {k : ℕ} {l : Logged}

theorem Exported.later {args : ExportLogArgs} {m : Moment} {snapshot : JsonlSnapshot}
    (h : Exported json store w args m snapshot) (hlater : Later w w') :
    Exported json store w' args m snapshot := World.Shows.later h hlater.logs

theorem Export.Sound.later {e : Export} (h : e.Sound json store w) (hlater : Later w w') :
    e.Sound json store w' := by
  refine ⟨h.exported.later hlater, ?_⟩
  obtain ⟨rest, hrest⟩ := hlater.stores.calls
  rw [← hrest, List.getElem?_append_left (List.getElem?_eq_some_iff.1 h.called).1, h.called]

theorem Answer.Sound.later {a : Answer} (h : a.Sound w) (hlater : Later w w') : a.Sound w' := by
  cases a with
  | log args m result =>
    simp only [Answer.Sound] at h ⊢
    exact h.later hlater.logs
  | exported e result =>
    obtain ⟨he, a, ha, hresult⟩ := h
    exact ⟨hlater.exports e he, a, hlater.stores.answers.subset ha, hresult⟩
  | cleared connectionId => trivial
  | failed tool message => trivial

theorem Task.Sound.later (h : t.Sound json store w) (hlater : Later w w') :
    t.Sound json store w' := by
  cases t with
  | having tool k found =>
    simp only [Task.Sound] at h ⊢
    exact h.later hlater.logs
  | writing args m snapshot => exact Exported.later h hlater
  | awaiting e => exact hlater.exports e h
  | _ => trivial

theorem Task.Starts.sound (h : t.Starts) : t.Sound json store w := by
  cases h with
  | _ => trivial

/-- What a step leaves. -/
structure Outcome (json : EntryJson) (store : CaptureStore) (base : List ManagedFile)
    (w w' : World) (new : List Task) : Prop where
  later : Later w w'
  world : w'.Sound store base
  exports : ∀ e ∈ w'.exports, e ∈ w.exports ∨ e.Sound json store w'
  answers : ∀ a ∈ w'.answers, a ∈ w.answers ∨ a.Sound w'
  tasks : ∀ t ∈ new, t.Sound json store w'

theorem Outcome.of_still (hw : w.Sound store base) (htasks : ∀ t ∈ new, t.Sound json store w) :
    Outcome json store base w w new where
  later := ⟨.of_eq rfl, ⟨List.prefix_rfl, List.prefix_rfl⟩, fun _ he => he⟩
  world := hw
  exports := fun _ he => .inl he
  answers := fun _ ha => .inl ha
  tasks := htasks

theorem Outcome.of_answer {a : Answer} (hw : w.Sound store base) (ha : a.Sound w) :
    Outcome json store base w (w.answer a) [] := by
  have hlater : Later w (w.answer a) :=
    ⟨.of_eq rfl, ⟨List.prefix_rfl, List.prefix_rfl⟩, fun _ he => he⟩
  refine ⟨hlater, ⟨hw.kept, hw.connections⟩, fun e he => .inl he, ?_, fun t ht => by cases ht⟩
  intro b hb
  rcases List.mem_append.1 hb with hb | hb
  · exact .inl hb
  · rw [List.mem_singleton.1 hb]
    exact .inr (ha.later hlater)

theorem Outcome.of_apply (hw : w.Sound store base) (hl : w.logs[k]? = some l) (op : LogOp) :
    Outcome json store base w (w.apply k l op) [] := by
  have hlogs := logsLater_apply hl op
  refine ⟨⟨hlogs, ⟨List.prefix_rfl, List.prefix_rfl⟩, fun _ he => he⟩, ⟨hw.kept, ?_⟩,
    fun _ he => .inl he, fun _ ha => .inl ha, fun t ht => by cases ht⟩
  intro id n hn
  obtain ⟨l₁, hl₁, hid⟩ := hw.connections id n hn
  obtain ⟨l', hl', hgrows⟩ := hlogs n l₁ hl₁
  exact ⟨l', hl', hgrows.connectionId.trans hid⟩

theorem Outcome.trans {w₁ : World} (h : Outcome json store base w w₁ [])
    (h' : Outcome json store base w₁ w' new) : Outcome json store base w w' new := by
  refine ⟨⟨?_, ?_, fun e he => h'.later.exports e (h.later.exports e he)⟩, h'.world, ?_, ?_,
    h'.tasks⟩
  · intro n l hl
    obtain ⟨l₁, hl₁, hgrows⟩ := h.later.logs n l hl
    obtain ⟨l₂, hl₂, hgrows'⟩ := h'.later.logs n l₁ hl₁
    exact ⟨l₂, hl₂, hgrows.trans hgrows'⟩
  · exact ⟨h.later.stores.calls.trans h'.later.stores.calls,
      h.later.stores.answers.trans h'.later.stores.answers⟩
  · intro e he
    rcases h'.exports e he with he | he
    · exact (h.exports e he).imp_right fun hsound => hsound.later h'.later
    · exact .inr he
  · intro a ha
    rcases h'.answers a ha with ha | ha
    · exact (h.answers a ha).imp_right fun hsound => hsound.later h'.later
    · exact .inr ha

/-- **A tool with a log** tells of what the log has now. -/
theorem Tool.proceed_outcome {tool : Tool} {found : ℕ} (hw : w.Sound store base)
    (hl : w.logs[k]? = some l) (hid : l.connectionId = tool.connectionId)
    (hfound : found ≤ l.ops.length)
    (h : tool.proceed json store k found l w i = some (w', new)) :
    Outcome json store base w w' new := by
  have hstill : Outcome json store base w w [] := .of_still hw fun t ht => by cases ht
  cases tool with
  | getLog args =>
    cases i with
    | turn =>
      cases h
      refine .of_answer hw ?_
      have hshows : w.Shows l.connectionId ⟨k, found, l.ops.length⟩ fun capacity enabled ops =>
          l.log.getLog args = reported args capacity enabled ops :=
        shows_now hl hfound (getLog_eq args l.holds)
      rwa [hid] at hshows
    | dropped =>
      cases h
      exact hstill
    | _ => cases h
  | clearLog id =>
    cases i with
    | turn =>
      cases h
      have happly : Outcome json store base w (w.apply k l .clear) [] := .of_apply hw hl .clear
      exact happly.trans (.of_answer happly.world trivial)
    | dropped =>
      cases h
      exact hstill
    | _ => cases h
  | exportLog args =>
    cases i with
    | turn =>
      rw [Tool.proceed] at h
      cases hsnapshot : jsonlSnapshot json store.limits.maxFileBytes l.log.events with
      | error e =>
        rw [hsnapshot] at h
        cases h
        exact .of_answer hw trivial
      | ok snapshot =>
        rw [hsnapshot] at h
        cases h
        refine .of_still hw (List.forall_mem_singleton.2 ?_)
        have hshows : w.Shows l.connectionId ⟨k, found, l.ops.length⟩ fun capacity enabled ops =>
            jsonlSnapshot json store.limits.maxFileBytes (retained capacity enabled ops) =
              .ok snapshot :=
          shows_now hl hfound (l.holds ▸ hsnapshot)
        rwa [hid] at hshows
    | lost e =>
      cases h
      exact .of_answer hw trivial
    | dropped =>
      cases h
      exact hstill
    | _ => cases h

theorem Outcome.of_opening (hw : w.Sound store base) (id : Text) (capacity : ℕ) (enabled : Bool) :
    Outcome json store base w { w with
      connections := Function.update w.connections id (some w.logs.length)
      logs := w.logs ++ [.opened id capacity enabled] } [] := by
  have hold : ∀ (k : ℕ) (l : Logged), w.logs[k]? = some l →
      (w.logs ++ [.opened id capacity enabled])[k]? = some l := by
    intro k l hl
    rw [List.getElem?_append_left (List.getElem?_eq_some_iff.1 hl).1, hl]
  refine ⟨⟨fun k l hl => ⟨l, hold k l hl, .refl l⟩, ⟨List.prefix_rfl, List.prefix_rfl⟩,
    fun _ he => he⟩, ⟨hw.kept, ?_⟩, fun _ he => .inl he, fun _ ha => .inl ha,
    fun t ht => by cases ht⟩
  intro id' k hk
  dsimp only at hk ⊢
  by_cases hid : id' = id
  · subst hid
    rw [Function.update_self] at hk
    cases hk
    exact ⟨_, List.getElem?_concat_length, rfl⟩
  · rw [Function.update_of_ne hid] at hk
    obtain ⟨l, hl, hl'⟩ := hw.connections id' k hk
    exact ⟨l, hold k l hl, hl'⟩

theorem Outcome.of_closing (hw : w.Sound store base) (id : Text) : Outcome json store base w
    { w with connections := Function.update w.connections id none } [] := by
  refine ⟨⟨.of_eq rfl, ⟨List.prefix_rfl, List.prefix_rfl⟩, fun _ he => he⟩, ⟨hw.kept, ?_⟩,
    fun _ he => .inl he, fun _ ha => .inl ha, fun t ht => by cases ht⟩
  intro id' k hk
  dsimp only at hk ⊢
  by_cases hid : id' = id
  · rw [hid, Function.update_self] at hk
    cases hk
  · rw [Function.update_of_ne hid] at hk
    exact hw.connections id' k hk

theorem Outcome.of_stores {st : Stores} (hw : w.Sound store base)
    (hkept : Kept store.limits base st) (hgoes : Goes w.stores.world st.world) (more : List Export)
    (hmore : ∀ e ∈ more, e.Sound json store { w with stores := st, exports := w.exports ++ more })
    (htasks : ∀ t ∈ new, t.Sound json store { w with stores := st, exports := w.exports ++ more }) :
    Outcome json store base w { w with stores := st, exports := w.exports ++ more } new := by
  refine ⟨⟨.of_eq rfl, hgoes, fun _ he => List.mem_append_left _ he⟩, ⟨hkept, hw.connections⟩, ?_,
    fun _ ha => .inl ha, htasks⟩
  exact List.forall_mem_append.2 ⟨fun _ he => .inl he, fun e he => .inr (hmore e he)⟩

/-- **What a step leaves**, from the invariant on. -/
theorem Task.step_outcome (hw : w.Sound store base) (ht : t.Sound json store w)
    (hi : ∀ m, i = .store m → Captures.AnyMove store.limits w.stores m)
    (h : t.step json store i w = some (w', new)) : Outcome json store base w w' new := by
  have hstill : Outcome json store base w w [] := .of_still hw fun t ht => by cases ht
  cases t with
  | opening id capacity enabled =>
    cases i with
    | turn =>
      cases h
      exact .of_opening hw id capacity enabled
    | _ => cases h
  | closing id =>
    cases i with
    | turn =>
      cases h
      exact .of_closing hw id
    | _ => cases h
  | recording k direction event =>
    cases i with
    | clock millis =>
      obtain ⟨l, hl, heq⟩ := Option.map_eq_some_iff.1 h
      cases heq
      exact .of_apply hw hl _
    | _ => cases h
  | calling tool =>
    cases i with
    | turn =>
      simp only [Task.step] at h
      split at h <;> cases h
      · exact .of_answer hw trivial
      · exact .of_still hw (List.forall_mem_singleton.2 trivial)
    | dropped =>
      cases h
      exact hstill
    | _ => cases h
  | looking tool =>
    cases i with
    | turn =>
      simp only [Task.step] at h
      split at h
      · cases h
        exact .of_answer hw trivial
      · rename_i k hk
        obtain ⟨l, hl, heq⟩ := Option.map_eq_some_iff.1 h
        cases heq
        obtain ⟨l', hl', hid⟩ := hw.connections _ k hk
        obtain rfl : l' = l := Option.some.inj (hl'.symm.trans hl)
        have hshows : w.Shows l'.connectionId ⟨k, l'.ops.length, l'.ops.length⟩ fun _ _ _ => True :=
          shows_now hl (Nat.le_refl _) trivial
        rw [hid] at hshows
        exact .of_still hw (List.forall_mem_singleton.2 hshows)
    | dropped =>
      cases h
      exact hstill
    | _ => cases h
  | having tool k found =>
    obtain ⟨l, hl, heq⟩ := Option.bind_eq_some_iff.1 h
    obtain ⟨l', hl', hid, -, hfound, -⟩ := ht
    obtain rfl : l' = l := Option.some.inj (hl'.symm.trans hl)
    exact Tool.proceed_outcome hw hl hid hfound heq
  | writing args m snapshot =>
    cases i with
    | turn =>
      obtain ⟨st, henter, heq⟩ := Option.map_eq_some_iff.1 h
      cases heq
      obtain ⟨hkept, hgoes, hcalls⟩ := Captures.enter_spec hw.kept rfl henter
      refine .of_stores hw hkept hgoes [_] (List.forall_mem_singleton.2 ⟨?_, ?_⟩)
        (List.forall_mem_singleton.2 ?_)
      · exact World.Shows.later ht (.of_eq rfl)
      · show st.world.calls[w.stores.world.calls.length]? = _
        rw [hcalls, List.getElem?_concat_length]
      · exact List.mem_append_right _ (List.mem_singleton_self _)
    | dropped =>
      cases h
      exact hstill
    | _ => cases h
  | awaiting e =>
    cases i with
    | turn =>
      obtain ⟨a, ha, heq⟩ := Option.map_eq_some_iff.1 h
      cases heq
      refine .of_answer hw ⟨ht, a.2, ?_, rfl⟩
      have hcall : a.1 = e.call := by simpa using List.find?_some ha
      rw [← hcall]
      exact List.mem_of_find?_eq_some ha
    | dropped =>
      cases h
      exact hstill
    | _ => cases h
  | stores =>
    cases i with
    | store m =>
      obtain ⟨st, hmove, heq⟩ := Option.map_eq_some_iff.1 h
      cases heq
      obtain ⟨hkept, hgoes⟩ := hw.kept.move (hi m rfl) hmove
      have hout : Outcome json store base w
          { w with stores := st, exports := w.exports ++ [] } [.stores] :=
        .of_stores hw hkept hgoes [] (fun e he => by cases he) (List.forall_mem_singleton.2 trivial)
      rwa [List.append_nil] at hout
    | _ => cases h

/-- **A move keeps the invariant.** -/
theorem Inv.move {m : Move Task Input} (h : Inv json store base s) (hm : AnyMove store s m)
    (hmove : s.move (Task.step json store) m = some s') :
    Inv json store base s' ∧ Later s.world s'.world := by
  obtain ⟨t, rfl, rfl⟩ | ⟨l, t, r, i, w, new, rfl, htasks, hstep, rfl⟩ := move_cases hmove
  · have hstill : Outcome json store base s.world s.world [] :=
      .of_still h.world fun t ht => by cases ht
    refine ⟨⟨h.world, h.exports, h.answers, ?_⟩, hstill.later⟩
    exact List.forall_mem_append.2 ⟨h.tasks, List.forall_mem_singleton.2 hm.sound⟩
  · have hi : ∀ m, i = .store m → Captures.AnyMove store.limits s.world.stores m := by
      rintro m rfl
      cases m with
      | start t' => exact hm
      | run n i => trivial
    have hout := Task.step_outcome h.world (h.tasks t (by simp [htasks])) hi hstep
    refine ⟨⟨hout.world, ?_, ?_, ?_⟩, hout.later⟩
    · intro e he
      rcases hout.exports e he with he | he
      · exact (h.exports e he).later hout.later
      · exact he
    · intro a ha
      rcases hout.answers a ha with ha | ha
      · exact (h.answers a ha).later hout.later
      · exact ha
    · exact forall_replaced htasks h.tasks (fun t' _ ht' => ht'.later hout.later) hout.tasks

theorem Inv.init {dir : Directory} (hallow : store.limits.Allow dir.managed) :
    Inv json store dir.managed (Server.init dir) where
  world := ⟨⟨.init hallow, fun x hx => by cases hx⟩, fun id k hk => by cases hk⟩
  exports e he := by cases he
  answers a ha := by cases ha
  tasks := List.forall_mem_singleton.2 trivial

theorem Inv.of_runs {dir : Directory} (hallow : store.limits.Allow dir.managed)
    (h : Runs (Task.step json store) (AnyMove store) (Server.init dir) s) :
    Inv json store dir.managed s :=
  h.invariant (J := Inv json store dir.managed) (fun hs hm hmove => (hs.move hm hmove).1)
    (.init hallow)

/-! ## The tools -/

/-- The file of an export is the log at its moment, entry by entry. -/
theorem Export.Sound.file {e : Export} (hjson : json.Lawful)
    (hmax : store.limits.maxFileBytes < u64Size) (h : e.Sound json store w)
    (hcalled : Captures.Called w.stores.world) :
    w.Shows e.args.connectionId e.moment fun capacity enabled ops =>
      e.snapshot.events = (retained capacity enabled ops).length ∧
      ∀ x ∈ w.stores.world.commits, x.call = e.call → x.name = .text e.args.path ∧
        x.bytes.length ≤ store.limits.maxFileBytes ∧
        readJsonl json x.bytes = some (retained capacity enabled ops) := by
  obtain ⟨l, hl, hid, hfound, htaken, hsnapshot⟩ := h.exported
  obtain ⟨lines, hlines, hbytes, hfits⟩ := (jsonlSnapshot_iff hmax).1 hsnapshot
  refine ⟨l, hl, hid, hfound, htaken, by rw [hbytes], ?_⟩
  intro x hx hcall
  obtain ⟨request, hrequest, hfile⟩ := hcalled x hx
  rw [hcall, h.called] at hrequest
  obtain rfl := Option.some.inj hrequest
  rw [hfile]
  show _ ∧ e.snapshot.bytes.length ≤ _ ∧ readJsonl json e.snapshot.bytes = _
  rw [hbytes]
  exact ⟨rfl, hfits, readJsonl_snapshot hjson hlines⟩

/-- A success has one commit, of which it tells. -/
theorem Inv.exported_ok {e : Export} {r : ExportLogResult} (h : Inv json store base s)
    (hr : .exported e (.ok r) ∈ s.world.answers) : e ∈ s.world.exports ∧
      r.connectionId = e.args.connectionId ∧ r.eventsWritten = e.snapshot.events ∧
      ∃ pre x post, s.world.stores.world.commits = pre ++ x :: post ∧ x.call = e.call ∧
        (∀ y ∈ pre ++ post, y.call ≠ e.call) ∧ r.bytesWritten = x.bytes.length := by
  obtain ⟨he, a, ha, hresult⟩ := h.answers _ hr
  cases a with
  | error message => cases hresult
  | ok reply =>
    obtain rfl : r = e.result reply := Except.ok.inj hresult
    have hinv := h.world.kept.inv
    obtain ⟨c, hid, -, usage, warning, ⟨pre, post, hcommits, -⟩, rfl⟩ :=
      hinv.results _ (hinv.answers _ ha) reply rfl
    have hone := hinv.one_commit hcommits
    dsimp only at hid
    exact ⟨he, rfl, rfl, pre, c.commit, post, hcommits, hid, fun y hy => hid ▸ hone y hy, rfl⟩

/-- **The log tools tell of one moment.** In every run, from a directory within the limits
    on: `get_log` returns what it was asked for of the history of the connection's log up to
    one moment of the call.  The file of an export has its name, keeps the quota and is
    read as the entries that the log held at one moment of the call, however much was
    recorded meanwhile; an export that is answered with success has one such file, and
    one that is answered with an error has none. -/
theorem tools_exact (hjson : json.Lawful) (hmax : store.limits.maxFileBytes < u64Size)
    {dir : Directory} (hallow : store.limits.Allow dir.managed)
    (h : Runs (Task.step json store) (AnyMove store) (Server.init dir) s) :
    (∀ args m result, .log args m result ∈ s.world.answers →
      s.world.Shows args.connectionId m fun capacity enabled ops =>
        result = reported args capacity enabled ops) ∧
    (∀ e ∈ s.world.exports, s.world.Shows e.args.connectionId e.moment fun capacity enabled ops =>
      e.snapshot.events = (retained capacity enabled ops).length ∧
      ∀ x ∈ s.world.stores.world.commits, x.call = e.call → x.name = .text e.args.path ∧
        x.bytes.length ≤ store.limits.maxFileBytes ∧
        readJsonl json x.bytes = some (retained capacity enabled ops)) ∧
    (∀ e r, .exported e (.ok r) ∈ s.world.answers → e ∈ s.world.exports ∧
      r.connectionId = e.args.connectionId ∧ r.eventsWritten = e.snapshot.events ∧
      ∃ pre x post, s.world.stores.world.commits = pre ++ x :: post ∧ x.call = e.call ∧
        (∀ y ∈ pre ++ post, y.call ≠ e.call) ∧ r.bytesWritten = x.bytes.length) ∧
    ∀ e message, .exported e (.error message) ∈ s.world.answers →
      ∀ x ∈ s.world.stores.world.commits, x.call ≠ e.call := by
  have hinv : Inv json store dir.managed s := .of_runs hallow h
  refine ⟨fun args m result ha => hinv.answers _ ha,
    fun e he => (hinv.exports e he).file hjson hmax hinv.world.kept.called,
    fun e r hr => hinv.exported_ok hr, ?_⟩
  intro e message hr
  obtain ⟨-, a, ha, hresult⟩ := hinv.answers _ hr
  cases a with
  | ok reply => cases hresult
  | error message' => exact hinv.world.kept.inv.no_commit (hinv.world.kept.inv.answers _ ha)

end

/-! ## A run -/

/-- A store with room for a file. -/
def oneStore : CaptureStore := ⟨some "/captures", ⟨200, 400, 1⟩, 0⟩

def emptyDirectory : Directory := ⟨[], List.nodup_nil, fun _ => .other⟩

/-- A chunk that was received. -/
def received (timestampMs bytes : ℕ) : LogEntry := ⟨timestampMs, some ['r', 'x'], .rxData bytes⟩

def line (timestampMs bytes : ℕ) : Text :=
  ("\x7b\"timestamp_ms\":" ++ toString timestampMs ++ ",\"direction\":\"rx\",\"event\":" ++
    "\x7b\"event\":\"rx_data\",\"bytes\":" ++ toString bytes ++ "\x7d\x7d").toList

/-- `serde_json` on two entries. -/
def twoEntries : EntryJson where
  toString e :=
    if e = received 6 2 then .ok (line 6 2) else if e = received 7 3 then .ok (line 7 3)
    else .error "other"
  fromStr text :=
    if text = line 6 2 then some (received 6 2) else if text = line 7 3 then some (received 7 3)
    else none

theorem twoEntries_lawful : twoEntries.Lawful := by
  have hne : line 7 3 ≠ line 6 2 := by decide +kernel
  refine ⟨fun e text h => ?_, fun e text h => ?_⟩ <;> simp only [twoEntries] at h ⊢
  · split_ifs at h <;> cases h <;> decide +kernel
  · split_ifs at h with hfirst hsecond <;> cases h
    · rw [if_pos rfl, hfirst]
    · rw [if_neg hne, if_pos rfl, hsecond]

/-- Three chunks are recorded by a log of two entries, the last while an export is under
    way. -/
def exporting : List (Move Task Input) :=
  let chunk (bytes : ℕ) : Task := .recording 0 (some ['r', 'x']) (.rxData bytes)
  let store (n : ℕ) (i : Captures.Input) : Move Task Input := .run 0 (.store (.run n i))
  [.start (.opening ['a'] 2 true), .run 1 .turn, .start (chunk 1), .run 1 (.clock (some 5)),
    .start (chunk 2), .run 1 (.clock (some 6)),
    .start (.calling (.exportLog ⟨['a'], "a.jsonl".toList⟩)), .run 1 .turn, .run 1 .turn,
    .start (chunk 3), .run 2 (.clock (some 7)), .run 1 .turn, .run 1 .turn] ++
  [store 0 .turn, store 1 .turn, store 1 (.io none), store 1 (.io none), store 1 .turn,
    store 1 (.listed [Captures.lockName])] ++
  List.replicate 3 (store 1 (.io none)) ++ [store 1 (.temp ['x'])] ++
  List.replicate 4 (store 1 (.io none)) ++ [store 1 .turn, store 0 .turn, .run 1 .turn]

/-- The file has what the log held when the third chunk had been recorded. -/
theorem tools_exact_exporting : ∃ s,
    (Server.init emptyDirectory).play (Task.step twoEntries oneStore) exporting = some s ∧
      s.world.stores.world.commits.map (fun x => (x.call, x.name)) =
        [(0, .text "a.jsonl".toList)] ∧
      s.world.Shows ['a'] ⟨0, 2, 3⟩ fun capacity enabled ops =>
        ∀ x ∈ s.world.stores.world.commits, x.call = 0 →
          readJsonl twoEntries x.bytes = some (retained capacity enabled ops) := by
  have hrun : ((Server.init emptyDirectory).play (Task.step twoEntries oneStore) exporting).map
      (fun s => (s.world.stores.world.commits.map (fun x => (x.call, x.name)),
        s.world.exports.map fun e => (e.args.connectionId, e.moment, e.call))) =
      some ([(0, .text "a.jsonl".toList)], [(['a'], ⟨0, 2, 3⟩, 0)]) := by
    decide +kernel
  obtain ⟨s, hplay, heq⟩ := Option.map_eq_some_iff.1 hrun
  obtain ⟨hcommits, hexports⟩ := Prod.mk.inj heq
  have hmoves : ∀ m ∈ exporting, AnyMove oneStore (Server.init emptyDirectory) m := by
    simp [exporting, AnyMove, Task.Starts.opening, Task.Starts.recording, Task.Starts.calling]
  have hallow : oneStore.limits.Allow emptyDirectory.managed :=
    ⟨by decide, by decide, fun f hf => by cases hf⟩
  have hruns := (Runs.of_play hmoves hplay).mono fun hm => hm
  obtain ⟨-, hfiles, -⟩ := tools_exact twoEntries_lawful (by decide) hallow hruns
  obtain ⟨e, hexport, hfields⟩ := List.map_eq_singleton_iff.1 hexports
  obtain ⟨hid, hmoment, hcall⟩ := by simpa only [Prod.mk.injEq] using hfields
  obtain ⟨l, hl, hl', hfound, htaken, -, hfile⟩ := hfiles e (by simp [hexport])
  simp only [hid, hmoment, hcall] at hl hl' hfound htaken hfile
  exact ⟨s, hplay, hcommits, l, hl, hl', hfound, htaken, fun x hx hx' => (hfile x hx hx').2.2⟩

end SerialMcp.Logs
