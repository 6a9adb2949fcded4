/-
  `CaptureStore::write_new` (`capture_store.rs`): any number of stores on one
  directory, in any number of processes, interleaved at their locks and file
  operations.

  A call waits for the lock of its store, and then for a blocking task that takes the
  advisory lock of the directory, scans it, and commits a temp file.  A caller that is
  dropped gives back the lock of its store; its blocking task goes on.  A process that
  ends gives back the advisory lock, and may leave a temp file.

  Any file operation may fail, with an error of the system.  Those on the directory
  are the stores' own; `persist_noclobber` is a rename to a name that is free.

  * `World.commits`: the files that calls have committed, in order;
  * `World.results`, `World.answers`: what the calls came to, and what was returned
    to their callers;
  * `Task.step`: a call, and its blocking task.
-/
import SerialMcp.Lib.Tasks
import SerialMcp.RxRing
import SerialMcp.Captures.Directory

namespace SerialMcp.Captures

open Tasks

/-! ## Calls -/

def captureDisabledError : String :=
  "Persistent capture is disabled; start serial-mcp with --capture-dir <absolute-directory>"

/-- A store, with the number of its process-local lock. -/
structure CaptureStore where
  root : Option String
  limits : CaptureLimits
  lock : ℕ
  deriving DecidableEq, Repr

structure CaptureWriteResult where
  path : String
  bytesWritten : ℕ
  filesUsed : ℕ
  totalBytesUsed : ℕ
  durabilityWarning : Option String
  deriving DecidableEq, Repr

/-- What a call comes to. -/
abbrev Answer := Except String CaptureWriteResult

/-- The checks of a file, before any lock and again in the blocking task. -/
def checkFile (limits : CaptureLimits) (name : Text) (bytes : Bytes) : Except String Unit :=
  match validateCaptureFilename name with
  | .error e => .error e
  | .ok () =>
    if limits.maxFileBytes < bytes.length then
      .error ("capture file exceeds per-file quota: " ++ toString bytes.length ++
        " bytes > --capture-max-file-bytes " ++ toString limits.maxFileBytes)
    else .ok ()

/-- The arguments of `write_new`. -/
structure Request where
  store : CaptureStore
  name : Text
  bytes : Bytes
  deriving DecidableEq, Repr

/-- A call of a store with a root, whose file has passed the checks. -/
structure Call where
  id : ℕ
  request : Request
  root : String
  enabled : request.store.root = some root
  checked : checkFile request.store.limits request.name request.bytes = .ok ()

namespace Call

variable (c : Call)

def limits : CaptureLimits := c.request.store.limits

def name : Text := c.request.name

def bytes : Bytes := c.request.bytes

/-- `root.join(..).display()` -/
def display (name : Text) : String := c.root ++ "/" ++ String.ofList name

def dest : FileName := .text c.name

/-- The usage with the new file, if the quotas allow it. -/
def newUsage (usage : RootUsage) : Except String RootUsage :=
  if u64Size ≤ usage.files + 1 then .error "capture file count overflow"
  else if c.limits.maxFiles < usage.files + 1 then
    .error ("capture file-count quota exceeded: " ++ toString (usage.files + 1) ++
      " files > --capture-max-files " ++ toString c.limits.maxFiles)
  else if u64Size ≤ usage.totalBytes + c.bytes.length then
    .error "capture total byte quota overflow"
  else if c.limits.maxTotalBytes < usage.totalBytes + c.bytes.length then
    .error ("capture total-byte quota exceeded: " ++
      toString (usage.totalBytes + c.bytes.length) ++ " bytes > --capture-max-total-bytes " ++
      toString c.limits.maxTotalBytes)
  else .ok ⟨usage.files + 1, usage.totalBytes + c.bytes.length⟩

/-- The result behind a commit. -/
def committed (usage : RootUsage) (durabilityWarning : Option String) : CaptureWriteResult where
  path := c.display c.name
  bytesWritten := c.bytes.length
  filesUsed := usage.files
  totalBytesUsed := usage.totalBytes
  durabilityWarning

end Call

/-! ## The directory and the tasks -/

/-- A file that a call has committed. -/
structure Commit where
  call : ℕ
  name : FileName
  bytes : Bytes
  deriving DecidableEq, Repr

structure World where
  dir : Directory
  /-- whether the advisory lock is taken -/
  advisory : Bool
  /-- whether the locks of the stores are taken -/
  mutex : ℕ → Bool
  /-- the calls so far -/
  calls : List Request
  commits : List Commit
  results : List (ℕ × Answer)
  answers : List (ℕ × Answer)

/-- The blocking task of a call, `commit_new_file`. -/
inductive Phase where
  | queued
  -- `acquire_root_lock`
  | statLock
  | openLock
  | locking
  -- `scan_managed_usage`, with the advisory lock from here on
  | readDir
  | scan (rest : List FileName) (usage : RootUsage)
  | stat (name : Text) (rest : List FileName) (usage : RootUsage)
  -- the destination, and the new file with the usage that it makes
  | statDest (usage : RootUsage)
  | createTemp (usage : RootUsage)
  | writeTemp (temp : Text) (usage : RootUsage)
  | syncTemp (temp : Text) (usage : RootUsage)
  | persist (temp : Text) (usage : RootUsage)
  /-- the temp file is dropped -/
  | dropTemp (temp : Text) (e : String)
  | syncRoot (usage : RootUsage)
  /-- the advisory lock is dropped -/
  | unlock (answer : Answer)

inductive Task where
  /-- `write_new` -/
  | entering (request : Request)
  /-- at the lock of its store -/
  | waiting (c : Call)
  /-- a caller, with the lock of its store -/
  | awaiting (c : Call)
  | blocking (c : Call) (phase : Phase)

inductive Input where
  | turn
  /-- a file operation, and an error of it -/
  | io (failure : Option String)
  /-- the entries of the directory, in the order in which they are read -/
  | listed (names : List FileName)
  /-- a temp file with this name -/
  | temp (suffix : Text)
  /-- the future of a caller is dropped -/
  | dropped
  /-- the process ends -/
  | killed

/-- Whether a blocking task has the advisory lock. -/
def Phase.locked : Phase → Bool
  | queued | statLock | openLock | locking => false
  | _ => true

namespace World

/-- A call comes to an end. -/
def result (w : World) (id : ℕ) (answer : Answer) : World :=
  { w with results := w.results ++ [(id, answer)] }

/-- A call ends before it waits for a lock. -/
def refuse (w : World) (id : ℕ) (e : String) : World :=
  { w.result id (.error e) with answers := w.answers ++ [(id, .error e)] }

/-- The lock of a store is taken or given back. -/
def setMutex (w : World) (lock : ℕ) (taken : Bool) : World :=
  { w with mutex := Function.update w.mutex lock taken }

end World

/-! ## The blocking task -/

namespace Call

variable (c : Call)

/-- `acquire_root_lock`, up to the lock -/
def stepLock : Phase → Input → World → Option (World × Option Phase)
  | .statLock, .io (some e), w =>
    some (w.result c.id (.error ("cannot stat capture lock path " ++
      c.display captureLockFile ++ ": " ++ e)), none)
  | .statLock, .io none, w =>
    match w.dir.lookup lockName with
    | some .symlink =>
      some (w.result c.id (.error ("capture lock path is a symlink: " ++
        c.display captureLockFile)), none)
    | some .other =>
      some (w.result c.id (.error ("capture lock path is not a regular file: " ++
        c.display captureLockFile)), none)
    | _ => some (w, some .openLock)
  | .openLock, .io (some e), w =>
    some (w.result c.id (.error ("cannot open capture lock file " ++
      c.display captureLockFile ++ ": " ++ e)), none)
  | .openLock, .io none, w =>
    if h : lockName ∈ w.dir.names then some (w, some .locking)
    else some ({ w with dir := w.dir.insert lockName (.file []) h }, some .locking)
  | .locking, .io (some e), w =>
    some (w.result c.id (.error ("cannot lock capture root " ++
      c.display captureLockFile ++ ": " ++ e)), none)
  | .locking, .turn, w =>
    if w.advisory then none else some ({ w with advisory := true }, some .readDir)
  | _, _, _ => none

/-- `scan_managed_usage` -/
def stepScan : Phase → Input → World → Option Phase
  | .readDir, .io (some e), _ =>
    some (.unlock (.error ("cannot scan capture dir " ++ c.root ++ ": " ++ e)))
  | .readDir, .listed names, w =>
    if names.Perm w.dir.names then some (.scan names ⟨0, 0⟩) else none
  | .scan _ _, .io (some e), _ =>
    some (.unlock (.error ("cannot read capture dir entry: " ++ e)))
  | .scan [] usage, .io none, _ => some (.statDest usage)
  | .scan (.raw _ :: rest) usage, .io none, _ => some (.scan rest usage)
  | .scan (.text name :: rest) usage, .io none, _ =>
    if (FileName.text name).isManaged then some (.stat name rest usage)
    else some (.scan rest usage)
  | .stat name _ _, .io (some e), _ =>
    some (.unlock (.error ("cannot stat capture entry " ++ c.display name ++ ": " ++ e)))
  | .stat name rest usage, .io none, w =>
    match w.dir.lookup (.text name) with
    | none => none
    | some .symlink =>
      some (.unlock (.error ("symlink entry with a managed capture name is rejected: " ++
        c.display name)))
    | some .other => some (.scan rest usage)
    | some (.file bytes) =>
      if u64Size ≤ usage.files + 1 then some (.unlock (.error "capture file count overflow"))
      else if u64Size ≤ usage.totalBytes + bytes.length then
        some (.unlock (.error "capture total byte count overflow"))
      else some (.scan rest ⟨usage.files + 1, usage.totalBytes + bytes.length⟩)
  | _, _, _ => none

/-- The destination and the temp file, up to the release of the advisory lock. -/
def stepCommit : Phase → Input → World → Option (World × Phase)
  | .statDest _, .io (some e), w =>
    some (w, .unlock (.error ("cannot stat capture destination " ++ c.display c.name ++
      ": " ++ e)))
  | .statDest usage, .io none, w =>
    if c.dest ∈ w.dir.names then
      some (w, .unlock (.error ("capture destination already exists (no overwrite): " ++
        c.display c.name)))
    else match c.newUsage usage with
      | .error e => some (w, .unlock (.error e))
      | .ok usage => some (w, .createTemp usage)
  | .createTemp _, .io (some e), w =>
    some (w, .unlock (.error ("cannot create capture temp file in " ++ c.root ++ ": " ++ e)))
  | .createTemp usage, .temp temp, w =>
    if h : tempName temp ∈ w.dir.names then none
    else some ({ w with dir := w.dir.insert (tempName temp) (.file []) h },
      .writeTemp temp usage)
  | .writeTemp temp _, .io (some e), w =>
    some (w, .dropTemp temp ("cannot write capture temp file: " ++ e))
  | .writeTemp temp usage, .io none, w =>
    some ({ w with dir := w.dir.set (tempName temp) (.file c.bytes) }, .syncTemp temp usage)
  | .syncTemp temp _, .io (some e), w =>
    some (w, .dropTemp temp ("cannot sync capture temp file: " ++ e))
  | .syncTemp temp usage, .io none, w => some (w, .persist temp usage)
  | .persist temp _, .io (some e), w =>
    some (w, .dropTemp temp ("capture commit failed: " ++ e))
  | .persist temp usage, .io none, w =>
    if h : c.dest ∈ w.dir.names then
      some (w, .dropTemp temp "capture commit failed: File exists (os error 17)")
    else some ({ w with
      dir := w.dir.rename (tempName temp) c.dest h
      commits := w.commits ++ [⟨c.id, c.dest, c.bytes⟩] }, .syncRoot usage)
  -- an error of the removal is ignored
  | .dropTemp _ e, .io (some _), w => some (w, .unlock (.error e))
  | .dropTemp temp e, .io none, w =>
    some ({ w with dir := w.dir.erase (tempName temp) }, .unlock (.error e))
  | .syncRoot usage, .io failure, w =>
    some (w, .unlock (.ok (c.committed usage
      (failure.map fun e => "cannot sync capture dir " ++ c.root ++ ": " ++ e))))
  | _, _, _ => none

end Call

/-- One step of a task. -/
def Task.step : Task → Input → World → Option (World × List Task)
  | .entering request, .turn, w =>
    let id := w.calls.length
    let w := { w with calls := w.calls ++ [request] }
    match hroot : request.store.root with
    | none => some (w.refuse id captureDisabledError, [])
    | some root =>
      match hfile : checkFile request.store.limits request.name request.bytes with
      | .error e => some (w.refuse id e, [])
      | .ok () => some (w, [.waiting ⟨id, request, root, hroot, hfile⟩])
  | .waiting c, .turn, w =>
    let lock := c.request.store.lock
    if w.mutex lock then none
    else some (w.setMutex lock true, [.awaiting c, .blocking c .queued])
  | .waiting _, .dropped, w => some (w, [])
  | .awaiting c, .turn, w =>
    (w.results.find? fun r => r.1 = c.id).map fun r =>
      ({ w.setMutex c.request.store.lock false with answers := w.answers ++ [r] }, [])
  | .awaiting c, .dropped, w => some (w.setMutex c.request.store.lock false, [])
  | .blocking c .queued, .io (some e), w =>
    -- the runtime shuts down before the task has begun
    some (w.result c.id (.error ("capture commit task failed: " ++ e)), [])
  | .blocking c .queued, .turn, w =>
    match checkFile c.limits c.name c.bytes with
    | .error e => some (w.result c.id (.error e), [])
    | .ok () => some (w, [.blocking c .statLock])
  | .blocking c (.unlock answer), .turn, w =>
    some ({ w.result c.id answer with advisory := false }, [])
  | .blocking _ phase, .killed, w =>
    some ({ w with advisory := w.advisory && !phase.locked }, [])
  | .blocking c phase, i, w =>
    ((c.stepLock phase i w).map fun r => (r.1, r.2.toList.map (.blocking c))) <|>
    ((c.stepScan phase i w).map fun phase => (w, [.blocking c phase])) <|>
    ((c.stepCommit phase i w).map fun r => (r.1, [.blocking c r.2]))
  | _, _, _ => none

/-- The calls of stores with these limits. -/
inductive Task.Starts (limits : CaptureLimits) : Task → Prop
  | entering (request : Request) (h : request.store.limits = limits) :
      Task.Starts limits (.entering request)

abbrev Stores := State World Task

/-- Every interleaving. -/
def AnyMove (limits : CaptureLimits) (_ : Stores) : Move Task Input → Prop
  | .start t => t.Starts limits
  | .run _ _ => True

/-- A directory on which no call is in progress. -/
def Stores.init (dir : Directory) : Stores :=
  ⟨{ dir
     advisory := false
     mutex := fun _ => false
     calls := []
     commits := []
     results := []
     answers := [] }, []⟩

end SerialMcp.Captures
