/-
  Persistent stores on one file (`run_read`, `run_mutation` and
  `run_conditional_mutation` of `profile_store.rs`), any number of them, each with
  its mutation lock and its cache.

  A call waits for the lock of its store, and then for a blocking task that takes
  the advisory lock, reads the file, writes it, publishes the cache and releases
  the advisory lock.  A caller that is dropped gives back the lock of its store;
  its blocking task goes on.

  The file is what `load_validated` makes of it: profiles that were written are
  read back, and a missing file has none.

  * `Task.step`: the calls at their file operations and locks;
  * `stores_serialized`: in every run the file is what the successful mutations
    make of it in the order of the advisory lock; a store whose mutation was
    successful has the file in its cache when the lock is released; after a
    failure the file is as it was, and the cache as it was or as the file is.
-/
import SerialMcp.Lib.Tasks
import SerialMcp.Profile.Identity
import SerialMcp.Profile.Store

namespace SerialMcp.Files

open Tasks ProfileStore

/-! ## Stores and calls -/

/-- The fresh reads; `resolve_automatic` is for a port with an identity. -/
inductive Query where
  | listFresh
  | resolveAutomatic (target : PortInfo) (hid : (highIdentity target).isSome)

inductive Request where
  | mutate (op : Op)
  | read (query : Query)

/-- What a call returns. -/
inductive Answer where
  | mutated (reply : Reply)
  | listed (profiles : List Profile)
  | resolved (resolution : AutomaticResolution)

/-- The closure of a fresh read. -/
def Query.compute (glob : String → String → Bool) (profiles : List Profile) :
    Query → Except String Answer
  | listFresh => .ok (.listed profiles)
  | resolveAutomatic target _ => (SerialMcp.resolveAutomatic glob profiles target).map .resolved

/-- A call with the time at which it began. -/
structure Job where
  request : Request
  now : ℕ

/-- A mutation that has released the advisory lock, with its answer. -/
structure Entry where
  op : Op
  now : ℕ
  answer : Answer

structure World where
  file : Except String (List Profile)
  /-- whether the advisory lock is taken -/
  lock : Bool
  /-- the caches of the stores -/
  cache : ℕ → List Profile
  /-- whether their mutation locks are taken -/
  mutationLock : ℕ → Bool
  /-- the successful mutations, in the order in which they released the advisory lock -/
  log : List Entry

/-- The file and the cache of a store when it took the advisory lock. -/
structure Before where
  file : Except String (List Profile)
  cache : List Profile

/-- A blocking task that has the advisory lock. -/
inductive Phase where
  | loading
  | writing (reply : Reply) (next : List Profile)
  /-- with the profiles to publish, and the result -/
  | publishing (result : Except String Answer) (profiles : List Profile)
  /-- reading the file again after an error -/
  | recovering (e : String)
  | refreshing (e : String) (profiles : List Profile)
  | releasing (result : Except String Answer)

inductive Stage where
  /-- waiting for the advisory lock -/
  | queued
  | holding (before : Before) (phase : Phase)
  | done (result : Except String Answer)

/-- A call with its blocking task. -/
structure Call where
  store : ℕ
  job : Job
  /-- whether the caller waits for the result, with the lock of its store -/
  alive : Bool
  stage : Stage

inductive Task where
  /-- a call of a store, waiting for its lock -/
  | entry (store : ℕ) (request : Request)
  | blocking (call : Call)

inductive Input where
  /-- a turn, at a time -/
  | turn (now : ℕ)
  /-- a file operation, and an error of it -/
  | io (failure : Option String)
  | dropped

namespace Call

/-- The call at its next stop. -/
def goto (c : Call) (stage : Stage) : List Task := [.blocking { c with stage }]

/-- What a mutation goes on with after it has read the file. -/
def apply (c : Call) (op : Op) (before : Before) (current : List Profile) : List Task :=
  match op.apply current c.job.now with
  | .error e => c.goto (.holding before (.recovering e))
  | .ok (reply, some next) => c.goto (.holding before (.writing reply next))
  | .ok (reply, none) => c.goto (.holding before (.publishing (.ok (.mutated reply)) current))

/-- An error of the first read. -/
def failed (c : Call) (before : Before) (e : String) : List Task :=
  match c.job.request with
  | .mutate _ => c.goto (.holding before (.recovering e))
  | .read _ => c.goto (.holding before (.releasing (.error e)))

/-- What a result is for the log. -/
def entries (c : Call) : Except String Answer → List Entry
  | .error _ => []
  | .ok answer => match c.job.request with
    | .mutate op => [⟨op, c.job.now, answer⟩]
    | .read _ => []

end Call

def World.publish (w : World) (store : ℕ) (profiles : List Profile) : World :=
  { w with cache := Function.update w.cache store profiles }

def World.unlock (w : World) (store : ℕ) : World :=
  { w with mutationLock := Function.update w.mutationLock store false }

section
variable (glob : String → String → Bool)

/-- One step of a blocking task that has the advisory lock. -/
def Call.work (c : Call) (before : Before) : Phase → Input → World → Option (World × List Task)
  | .loading, .io failure, w => match failure, w.file with
    | some e, _ => some (w, c.failed before e)
    | none, .error e => some (w, c.failed before e)
    | none, .ok current => match c.job.request with
      | .mutate op => some (w, c.apply op before current)
      | .read query =>
        some (w, c.goto (.holding before (.publishing (query.compute glob current) current)))
  | .writing reply next, .io failure, w => match failure with
    | some e => some (w, c.goto (.holding before (.recovering e)))
    | none => some ({ w with file := .ok next },
        c.goto (.holding before (.publishing (.ok (.mutated reply)) next)))
  | .publishing result profiles, .turn _, w =>
    some (w.publish c.store profiles, c.goto (.holding before (.releasing result)))
  | .recovering e, .io failure, w => match failure, w.file with
    | none, .ok current => some (w, c.goto (.holding before (.refreshing e current)))
    | _, _ => some (w, c.goto (.holding before (.releasing (.error e))))
  | .refreshing e profiles, .turn _, w =>
    some (w.publish c.store profiles, c.goto (.holding before (.releasing (.error e))))
  | .releasing result, .turn _, w =>
    some ({ w with lock := false, log := w.log ++ c.entries result }, c.goto (.done result))
  | _, _, _ => none

/-- One step of a task. -/
def Task.step : Task → Input → World → Option (World × List Task)
  | .entry store request, .turn now, w =>
    if w.mutationLock store then none
    else some ({ w with mutationLock := Function.update w.mutationLock store true },
      [.blocking ⟨store, ⟨request, now⟩, true, .queued⟩])
  | .entry _ _, .dropped, w => some (w, [])
  | .blocking c, .dropped, w =>
    if c.alive then some (w.unlock c.store, [.blocking { c with alive := false }]) else none
  | .blocking c, i, w => match c.stage, i with
    | .queued, .io none =>
      if w.lock then none
      else some ({ w with lock := true }, c.goto (.holding ⟨w.file, w.cache c.store⟩ .loading))
    | .queued, .io (some e) => some (w, c.goto (.done (.error e)))
    | .holding before phase, i => c.work glob before phase i w
    | .done _, .turn _ => some (if c.alive then w.unlock c.store else w, [])
    | _, _ => none
  | _, _, _ => none

end

abbrev Session := State World Task

/-- The stores with their caches, on a file. -/
def Session.init (file : Except String (List Profile)) (cache : ℕ → List Profile) : Session :=
  ⟨{ file, lock := false, cache, mutationLock := fun _ => false, log := [] }, []⟩

/-- Every interleaving of any number of calls of any number of stores. -/
def AnyMove : Move Task Input → Prop
  | .start t => ∃ store request, t = .entry store request
  | .run _ _ => True

/-! ## The history of the file -/

/-- What mutations make of a file, one after another. -/
def replay (file : Except String (List Profile)) (log : List Entry) :
    Except String (List Profile) :=
  file.map fun profiles => log.foldl (fun ps entry => (entry.op.run ps entry.now).2) profiles

/-- Every mutation of a log succeeds where it stands, with its answer. -/
def Succeeds (file : Except String (List Profile)) (log : List Entry) : Prop :=
  ∀ older entry newer, log = older ++ entry :: newer → ∃ profiles,
    replay file older = .ok profiles ∧
      (entry.op.run profiles entry.now).1.map .mutated = .ok entry.answer

/-! ## What a step does -/

/-- Who has the advisory lock. -/
def Task.held : Task → Unit → ℕ
  | .blocking ⟨_, _, _, .holding _ _⟩, _ => 1
  | _, _ => 0

def World.booked (w : World) (_ : Unit) : ℕ := if w.lock then 1 else 0

/-- The mutation that a task has made but not released. -/
def Task.pending : Task → List Entry
  | .blocking c => match c.stage with
    | .holding _ (.publishing result _) | .holding _ (.releasing result) => c.entries result
    | _ => []
  | _ => []

/-- The file and the cache are as they were. -/
def Before.Holds (before : Before) (w : World) (store : ℕ) : Prop :=
  w.file = before.file ∧ w.cache store = before.cache

/-- What holds of a call that has the advisory lock. -/
def Call.Sound (c : Call) (w : World) (before : Before) : Phase → Prop
  | .loading | .recovering _ => before.Holds w c.store
  | .writing reply next => before.Holds w c.store ∧ ∃ op current,
      c.job.request = .mutate op ∧ w.file = .ok current ∧
        op.apply current c.job.now = .ok (reply, some next)
  | .publishing (.ok _) profiles => w.file = .ok profiles
  | .publishing (.error _) profiles => w.file = before.file ∧ w.file = .ok profiles
  | .refreshing _ profiles => before.Holds w c.store ∧ w.file = .ok profiles
  | .releasing (.ok _) => w.file = .ok (w.cache c.store)
  | .releasing (.error _) => w.file = before.file ∧
      (w.cache c.store = before.cache ∨ w.file = .ok (w.cache c.store))

def Task.Sound (w : World) : Task → Prop
  | .blocking c => match c.stage with
    | .holding before phase => c.Sound w before phase
    | _ => True
  | _ => True

/-- A mutation takes effect: it succeeds on the file as it is. -/
structure Commits (w w' : World) (entry : Entry) : Prop where
  log : w'.log = w.log
  succeeds : ∃ current, w.file = .ok current ∧
    (entry.op.run current entry.now).1.map .mutated = .ok entry.answer ∧
    w'.file = .ok (entry.op.run current entry.now).2

/-- What a step of a task does. -/
structure Progress (w w' : World) (t : Task) (new : List Task) : Prop where
  lock : w'.booked () + t.held () = w.booked () + heldBy Task.held new ()
  history : (w'.file = w.file ∧ w'.log ++ new.flatMap Task.pending = w.log ++ t.pending) ∨
    ∃ entry, t.pending = [] ∧ new.flatMap Task.pending = [entry] ∧ Commits w w' entry
  frame : t.held () = 0 → w'.file = w.file ∧ w'.cache = w.cache ∧ w'.log = w.log ∧
    new.flatMap Task.pending = []
  tasks : ∀ t' ∈ new, t'.Sound w'

variable {w w' : World} {t : Task} {c : Call} {before : Before} {phase : Phase} {i : Input}
  {new : List Task} {glob : String → String → Bool} {file : Except String (List Profile)}
  {log : List Entry}

theorem Task.pending_eq_nil (h : t.held () = 0) : t.pending = [] := by
  rcases t with ⟨store, request⟩ | ⟨store, job, alive, stage⟩
  · rfl
  · rcases stage with _ | ⟨before, phase⟩ | result
    · rfl
    · cases h
    · rfl

theorem Task.held_holding (hc : c.stage = .holding before phase) :
    Task.held (.blocking c) () = 1 := by
  rcases c with ⟨store, job, alive, stage⟩
  cases hc
  rfl

theorem Progress.goes {phase' : Phase} (hc : c.stage = .holding before phase)
    (hlock : w'.lock = w.lock) (hfile : w'.file = w.file) (hlog : w'.log = w.log)
    (hpending : Task.pending (.blocking { c with stage := .holding before phase' }) =
      Task.pending (.blocking c))
    (hsound : c.Sound w' before phase') :
    Progress w w' (.blocking c) (c.goto (.holding before phase')) := by
  have hheld := Task.held_holding hc
  refine ⟨?_, .inl ⟨hfile, ?_⟩, fun h => ?_, List.forall_mem_singleton.2 ?_⟩
  · rw [hheld, World.booked, World.booked, hlock]
    rfl
  · rw [hlog, Call.goto, List.flatMap_singleton, hpending]
  · rw [hheld] at h
    cases h
  · exact hsound

/-- A mutation that takes effect under the lock. -/
theorem Progress.commits {reply : Reply} {op : Op} {current : List Profile}
    {next : Option (List Profile)} (hc : c.stage = .holding before phase)
    (hnone : Task.pending (.blocking c) = []) (hlock : w'.lock = w.lock)
    (hlog : w'.log = w.log) (hop : c.job.request = .mutate op) (hfile : w.file = .ok current)
    (happly : op.apply current c.job.now = .ok (reply, next))
    (hfile' : w'.file = .ok (next.getD current)) :
    Progress w w' (.blocking c)
      (c.goto (.holding before (.publishing (.ok (.mutated reply)) (next.getD current)))) := by
  have hheld := Task.held_holding hc
  have hrun := Op.run_of_ok happly
  refine ⟨?_, .inr ⟨⟨op, c.job.now, .mutated reply⟩, hnone, ?_, hlog, current, hfile, ?_, ?_⟩,
    fun h => ?_, List.forall_mem_singleton.2 ?_⟩
  · rw [hheld, World.booked, World.booked, hlock]
    rfl
  · rw [Call.goto, List.flatMap_singleton]
    simp only [Task.pending, Call.entries, hop]
  · rw [hrun]
    rfl
  · rw [hrun]
    exact hfile'
  · rw [hheld] at h
    cases h
  · exact hfile'

theorem Call.pending_eq (hc : c.stage = .holding before phase) :
    Task.pending (.blocking c) = match phase with
      | .publishing result _ | .releasing result => c.entries result
      | _ => [] := by
  simp only [Task.pending, hc]
  cases phase <;> rfl

/-- **A step under the advisory lock.** -/
theorem Call.work_progress (hc : c.stage = .holding before phase) (hlock : w.lock = true)
    (hsound : c.Sound w before phase) (h : c.work glob before phase i w = some (w', new)) :
    Progress w w' (.blocking c) new := by
  have hheld := Task.held_holding hc
  have hpending := Call.pending_eq hc
  cases phase with
  | loading =>
    cases i with
    | io failure =>
      have hfailed : ∀ e, Progress w w (.blocking c) (c.failed before e) := by
        intro e
        unfold Call.failed
        split
        · exact .goes hc rfl rfl rfl hpending.symm hsound
        · exact .goes hc rfl rfl rfl hpending.symm ⟨hsound.1, .inl hsound.2⟩
      simp only [Call.work] at h
      split at h
      · cases h
        exact hfailed _
      · cases h
        exact hfailed _
      · next current hfile =>
        split at h
        · next op hop =>
          cases h
          unfold Call.apply
          split
          · exact .goes hc rfl rfl rfl hpending.symm hsound
          · next reply next happly =>
            exact .goes hc rfl rfl rfl hpending.symm ⟨hsound, op, current, hop, hfile, happly⟩
          · next reply happly =>
            exact .commits hc hpending rfl rfl hop hfile happly hfile
        · next query hquery =>
          cases h
          refine .goes hc rfl rfl rfl ?_ ?_
          · rw [hpending]
            rcases query.compute glob current with e | answer
            · rfl
            · simp only [Task.pending, Call.entries, hquery]
          · rcases query.compute glob current with e | answer
            · exact ⟨hsound.1, hfile⟩
            · exact hfile
    | turn | dropped => cases h
  | writing reply next =>
    obtain ⟨hsame, op, current, hop, hfile, happly⟩ := hsound
    cases i with
    | io failure =>
      simp only [Call.work] at h
      split at h
      · cases h
        exact .goes hc rfl rfl rfl hpending.symm hsame
      · cases h
        refine .commits hc hpending ?_ ?_ hop hfile happly ?_ <;> rfl
    | turn | dropped => cases h
  | publishing result profiles =>
    cases i with
    | turn now =>
      cases h
      have hcache : (w.publish c.store profiles).cache c.store = profiles :=
        Function.update_self _ _ _
      refine .goes hc rfl rfl rfl hpending.symm ?_
      rcases result with e | answer
      · exact ⟨hsound.1, .inr (by rw [hcache]; exact hsound.2)⟩
      · show w.file = .ok ((w.publish c.store profiles).cache c.store)
        rw [hcache]
        exact hsound
    | io | dropped => cases h
  | recovering e =>
    cases i with
    | io failure =>
      simp only [Call.work] at h
      split at h
      · next current hfile =>
        cases h
        exact .goes hc rfl rfl rfl hpending.symm ⟨hsound, hfile⟩
      · cases h
        exact .goes hc rfl rfl rfl hpending.symm ⟨hsound.1, .inl hsound.2⟩
    | turn | dropped => cases h
  | refreshing e profiles =>
    cases i with
    | turn now =>
      cases h
      have hcache : (w.publish c.store profiles).cache c.store = profiles :=
        Function.update_self _ _ _
      refine .goes hc rfl rfl rfl hpending.symm ⟨hsound.1.1, .inr ?_⟩
      rw [hcache]
      exact hsound.2
    | io | dropped => cases h
  | releasing result =>
    cases i with
    | turn now =>
      cases h
      refine ⟨?_, .inl ⟨rfl, ?_⟩, fun h => ?_, List.forall_mem_singleton.2 ?_⟩
      · rw [hheld, World.booked, World.booked, hlock]
        rfl
      · rw [hpending, Call.goto, List.flatMap_singleton]
        exact List.append_nil _
      · rw [hheld] at h
        cases h
      · trivial
    | io | dropped => cases h

/-- A step outside of the advisory lock. -/
theorem Progress.outside (ht : t.held () = 0) (hlock : w'.booked () = w.booked () +
      heldBy Task.held new ()) (hfile : w'.file = w.file) (hcache : w'.cache = w.cache)
    (hlog : w'.log = w.log) (hpending : new.flatMap Task.pending = [])
    (htasks : ∀ t' ∈ new, t'.Sound w') : Progress w w' t new where
  lock := by rw [ht, hlock, Nat.add_zero]
  history := .inl ⟨hfile, by rw [hlog, hpending, Task.pending_eq_nil ht]⟩
  frame _ := ⟨hfile, hcache, hlog, hpending⟩
  tasks := htasks

theorem Call.sound_congr (hfile : w'.file = w.file) (hcache : w'.cache = w.cache) :
    c.Sound w' before phase ↔ c.Sound w before phase := by
  cases phase with
  | loading | writing | recovering | refreshing =>
    simp only [Call.Sound, Before.Holds, hfile, hcache]
  | publishing result | releasing result =>
    rcases result with e | answer <;> simp only [Call.Sound, hfile, hcache]

theorem Task.sound_congr (hfile : w'.file = w.file) (hcache : w'.cache = w.cache) :
    t.Sound w' ↔ t.Sound w := by
  rcases t with ⟨store, request⟩ | ⟨store, job, alive, stage⟩
  · exact Iff.rfl
  · rcases stage with _ | ⟨before, phase⟩ | result
    · exact Iff.rfl
    · exact Call.sound_congr hfile hcache
    · exact Iff.rfl

theorem Task.sound_of_held (h : t.held () = 0) : t.Sound w := by
  rcases t with ⟨store, request⟩ | ⟨store, job, alive, stage⟩
  · trivial
  · rcases stage with _ | ⟨before, phase⟩ | result
    · trivial
    · cases h
    · trivial

/-- A caller that is dropped leaves its blocking task as it is. -/
theorem Call.dropped_progress (ht : (Task.blocking c).Sound w) :
    Progress w (w.unlock c.store) (.blocking c) [.blocking { c with alive := false }] := by
  have hheld : Task.held (.blocking { c with alive := false }) () =
      Task.held (.blocking c) () := by
    rcases c with ⟨store, job, alive, _ | ⟨before, phase⟩ | result⟩ <;> rfl
  refine ⟨?_, .inl ⟨rfl, ?_⟩, fun h => ⟨rfl, rfl, rfl, ?_⟩, List.forall_mem_singleton.2 ?_⟩
  · rw [heldBy_cons, heldBy_nil, hheld]
    rfl
  · rw [List.flatMap_singleton]
    rfl
  · rw [List.flatMap_singleton]
    exact Task.pending_eq_nil (hheld.trans h)
  · exact (Task.sound_congr rfl rfl).2 ht

/-- **What a step does.** -/
theorem Task.step_progress (ht : t.Sound w) (hheld : t.held () ≤ w.booked ())
    (h : Task.step glob t i w = some (w', new)) : Progress w w' t new := by
  cases t with
  | entry store request =>
    cases i with
    | turn now =>
      simp only [Task.step] at h
      split_ifs at h
      cases h
      exact .outside rfl rfl rfl rfl rfl rfl (List.forall_mem_singleton.2 trivial)
    | dropped =>
      cases h
      exact .outside rfl rfl rfl rfl rfl rfl fun t' ht' => by cases ht'
    | io => cases h
  | blocking c =>
    have hdrop : Task.step glob (.blocking c) .dropped w = some (w', new) →
        Progress w w' (.blocking c) new := by
      intro h
      simp only [Task.step] at h
      split_ifs at h
      cases h
      exact Call.dropped_progress ht
    rcases hstage : c.stage with _ | ⟨before, phase⟩ | result
    · have hfree : Task.held (.blocking c) () = 0 := by
        rcases c with ⟨store, job, alive, stage⟩
        cases hstage
        rfl
      cases i with
      | dropped => exact hdrop h
      | io failure =>
        simp only [Task.step, hstage] at h
        rcases failure with _ | e
        · dsimp only at h
          split_ifs at h with hlock
          cases h
          refine .outside hfree ?_ rfl rfl rfl rfl (List.forall_mem_singleton.2 ?_)
          · simp only [World.booked, hlock]
            rfl
          · exact ⟨rfl, rfl⟩
        · cases h
          exact .outside hfree rfl rfl rfl rfl rfl (List.forall_mem_singleton.2 trivial)
      | turn =>
        simp only [Task.step, hstage] at h
        cases h
    · have hlock : w.lock = true := by
        rw [Task.held_holding hstage, World.booked] at hheld
        by_contra hfree
        rw [if_neg hfree] at hheld
        exact Nat.not_succ_le_zero 0 hheld
      have hsound : c.Sound w before phase := by
        simpa only [Task.Sound, hstage] using ht
      cases i with
      | dropped => exact hdrop h
      | turn now =>
        simp only [Task.step, hstage] at h
        exact c.work_progress hstage hlock hsound h
      | io failure =>
        simp only [Task.step, hstage] at h
        exact c.work_progress hstage hlock hsound h
    · have hfree : Task.held (.blocking c) () = 0 := by
        rcases c with ⟨store, job, alive, stage⟩
        cases hstage
        rfl
      cases i with
      | dropped => exact hdrop h
      | turn now =>
        simp only [Task.step, hstage] at h
        cases h
        split_ifs <;> exact .outside hfree rfl rfl rfl rfl rfl fun t' ht' => by cases ht'
      | io failure =>
        simp only [Task.step, hstage] at h
        cases h

/-! ## The runs -/

theorem replay_append (file : Except String (List Profile)) (log log' : List Entry) :
    replay file (log ++ log') = replay (replay file log) log' := by
  rcases file with e | profiles
  · rfl
  · simp only [replay, Except.map, List.foldl_append]

/-- A mutation that takes effect is the next one of the history. -/
theorem Succeeds.commit {entry : Entry} (h : Succeeds file log) (hfile : w.file = replay file log)
    (hcommit : Commits w w' entry) :
    Succeeds file (log ++ [entry]) ∧ w'.file = replay file (log ++ [entry]) := by
  obtain ⟨-, current, hcurrent, hrun, hnext⟩ := hcommit
  have hreplay := hfile.symm.trans hcurrent
  refine ⟨fun older entry' newer heq => ?_, ?_⟩
  · rcases List.eq_nil_or_concat newer with rfl | ⟨newer, last, rfl⟩
    · obtain ⟨rfl, hlast⟩ := List.append_inj' heq rfl
      cases hlast
      exact ⟨current, hreplay, hrun⟩
    · rw [List.concat_eq_append, ← List.cons_append, ← List.append_assoc] at heq
      obtain ⟨rfl, -⟩ := List.append_inj' heq rfl
      exact h older entry' newer rfl
  · rw [replay_append, hreplay, hnext]
    rfl

/-- What holds in every state. -/
structure Inv (file : Except String (List Profile)) (s : Session) : Prop where
  lock : Balanced Task.held World.booked s
  history : s.world.file = replay file (s.world.log ++ s.tasks.flatMap Task.pending)
  succeeds : Succeeds file (s.world.log ++ s.tasks.flatMap Task.pending)
  tasks : ∀ t ∈ s.tasks, t.Sound s.world

theorem flatMap_pending_eq_nil {ts : List Task} (h : ∀ t ∈ ts, t.held () = 0) :
    ts.flatMap Task.pending = [] :=
  List.flatMap_eq_nil_iff.2 fun t ht => Task.pending_eq_nil (h t ht)

theorem Inv.move {s s' : Session} {m : Move Task Input} (h : Inv file s) (hm : AnyMove m)
    (hmove : s.move (Task.step glob) m = some s') : Inv file s' := by
  have hlock : Balanced Task.held World.booked s' := by
    refine h.lock.move (fun t ht k => ?_) (fun l t r i w new hi htasks hstep k => ?_) hmove
    · subst ht
      obtain ⟨store, request, rfl⟩ := hm
      rfl
    · have ht : t ∈ s.tasks := by
        rw [htasks]
        simp
      exact (Task.step_progress (h.tasks t ht) (h.lock.le ht ()) hstep).lock
  rcases move_cases hmove with ⟨t, rfl, rfl⟩ | ⟨l, t, r, i, w, new, rfl, htasks, hstep, rfl⟩
  · obtain ⟨store, request, rfl⟩ := hm
    have hsame : (s.tasks ++ [Task.entry store request]).flatMap Task.pending =
        s.tasks.flatMap Task.pending := by
      simp [Task.pending]
    refine ⟨hlock, ?_, ?_, List.forall_mem_append.2 ⟨h.tasks, List.forall_mem_singleton.2 trivial⟩⟩
    · rw [hsame]
      exact h.history
    · rw [hsame]
      exact h.succeeds
  · have ht : t ∈ s.tasks := by
      rw [htasks]
      simp
    obtain ⟨-, hhistory, hframe, hnew⟩ :=
      Task.step_progress (h.tasks t ht) (h.lock.le ht ()) hstep
    have hold := h.history
    have hsucceeds := h.succeeds
    rw [htasks] at hold hsucceeds
    rcases Nat.eq_zero_or_pos (t.held ()) with hfree | hheld
    · -- the step is outside of the lock, and another task may be under it
      obtain ⟨hfile, hcache, hlog, hpending⟩ := hframe hfree
      have hsame : (l ++ new ++ r).flatMap Task.pending =
          (l ++ t :: r).flatMap Task.pending := by
        simp [hpending, Task.pending_eq_nil hfree]
      refine ⟨hlock, ?_, ?_, forall_replaced htasks h.tasks (fun t' _ ht' => ?_) hnew⟩
      · rw [hsame, hfile, hlog]
        exact hold
      · rw [hsame, hlog]
        exact hsucceeds
      · exact (Task.sound_congr hfile hcache).2 ht'
    · -- the task has the lock, and no other one has it
      have hone : s.world.booked () ≤ t.held () := by
        unfold World.booked
        split_ifs
        · exact hheld
        · exact Nat.zero_le _
      have halone := h.lock.covered.alone htasks hone
      have hl := flatMap_pending_eq_nil fun t' ht' => halone t' (List.mem_append_left r ht')
      have hr := flatMap_pending_eq_nil fun t' ht' => halone t' (List.mem_append_right l ht')
      have hbefore : (l ++ t :: r).flatMap Task.pending = t.pending := by
        simp [hl, hr]
      have hafter : (l ++ new ++ r).flatMap Task.pending = new.flatMap Task.pending := by
        simp [hl, hr]
      rw [hbefore] at hold hsucceeds
      have hgoes : Succeeds file (w.log ++ new.flatMap Task.pending) ∧
          w.file = replay file (w.log ++ new.flatMap Task.pending) := by
        rcases hhistory with ⟨hfile, hlog⟩ | ⟨entry, hnone, hentry, hcommit⟩
        · rw [hlog, hfile]
          exact ⟨hsucceeds, hold⟩
        · rw [hnone, List.append_nil] at hold hsucceeds
          rw [hentry, hcommit.log]
          exact hsucceeds.commit hold hcommit
      refine ⟨hlock, ?_, ?_, forall_replaced htasks h.tasks (fun t' ht' _ => ?_) hnew⟩
      · rw [hafter]
        exact hgoes.2
      · rw [hafter]
        exact hgoes.1
      · exact Task.sound_of_held (halone t' ht')

/-- **Mutations serialize, and file and caches agree.**  In every state the file is
    what the successful mutations made of it, one after another: those that have
    released the advisory lock, and the one that is about to.  Each of them
    succeeds on the file that the ones before it left.  A task about to release
    the lock has the file in the cache of its store if it was successful;
    otherwise the file is as it was when the task took the lock, and the cache as
    it was or as the file is.  Without the lock a task changes neither. -/
theorem stores_serialized {file : Except String (List Profile)} {cache : ℕ → List Profile}
    {s : Session}
    (h : Runs (Task.step glob) (fun _ m => AnyMove m) (Session.init file cache) s) :
    s.world.file = replay file (s.world.log ++ s.tasks.flatMap Task.pending) ∧
    Succeeds file (s.world.log ++ s.tasks.flatMap Task.pending) ∧
    (s.world.lock = false → s.tasks.flatMap Task.pending = []) ∧
    (∀ c before answer, .blocking c ∈ s.tasks →
      c.stage = .holding before (.releasing (.ok answer)) →
      s.world.file = .ok (s.world.cache c.store)) ∧
    (∀ c before e, .blocking c ∈ s.tasks →
      c.stage = .holding before (.releasing (.error e)) →
      s.world.file = before.file ∧
        (s.world.cache c.store = before.cache ∨ s.world.file = .ok (s.world.cache c.store))) ∧
    ∀ t ∈ s.tasks, t.held () = 0 → ∀ i w new, Task.step glob t i s.world = some (w, new) →
      w.file = s.world.file ∧ w.cache = s.world.cache ∧ w.log = s.world.log := by
  have hinit : Inv file (Session.init file cache) := by
    refine ⟨fun k => rfl, ?_, fun older entry newer heq => ?_, fun t ht => by cases ht⟩
    · rcases file with e | profiles <;> rfl
    · cases older <;> cases heq
  have hinv := h.invariant (J := Inv file) (fun hs hm hmove => hs.move hm hmove) hinit
  refine ⟨hinv.history, hinv.succeeds, fun hfree => ?_, fun c before answer hc hstage => ?_,
    fun c before e hc hstage => ?_, fun t ht hheld i w new hstep => ?_⟩
  · refine flatMap_pending_eq_nil fun t ht => ?_
    have hle := hinv.lock.le ht ()
    rw [World.booked, hfree] at hle
    exact Nat.le_zero.1 hle
  · have hsound := hinv.tasks _ hc
    simpa only [Task.Sound, hstage, Call.Sound] using hsound
  · have hsound := hinv.tasks _ hc
    simpa only [Task.Sound, hstage, Call.Sound] using hsound
  · have hprogress := Task.step_progress (hinv.tasks t ht) (hinv.lock.le ht ()) hstep
    obtain ⟨hfile, hcache, hlog, -⟩ := hprogress.frame hheld
    exact ⟨hfile, hcache, hlog⟩

/-- Two stores: the caller of the first one is dropped under the lock, and the
    second one, whose cache is old, replaces what the first one wrote. -/
def twoStores : List (Move Task Input) :=
  let p : Profile := ⟨"dev-a", {}, {}, ⟨false, 0, none, none, none, 0⟩, []⟩
  [.start (.entry 0 (.mutate (.upsert p false))), .start (.entry 1 (.mutate (.upsert p true))),
    .run 0 (.turn 10), .run 1 (.turn 11), .run 0 (.io none), .run 0 (.io none), .run 0 .dropped,
    .run 0 (.io none), .run 0 (.turn 12), .run 0 (.turn 12), .run 1 (.io none), .run 1 (.io none),
    .run 1 (.io none), .run 1 (.turn 13)]

theorem stores_serialized_twoStores : ∃ s,
    (Session.init (.ok []) fun _ => []).play (Task.step fun _ _ => false) twoStores = some s ∧
      s.world.log.map Entry.now = [10] ∧
      (s.world.cache 1).map (fun p => (p.metadata.revision, p.revisions.length)) = [(2, 1)] ∧
      s.world.file = .ok (s.world.cache 1) ∧
      s.world.file = replay (.ok []) (s.world.log ++ s.tasks.flatMap Task.pending) := by
  obtain ⟨s, c, before, answer, hplay, hlog, hcache, hc, hstage⟩ : ∃ s c before answer,
      (Session.init (.ok []) fun _ => []).play (Task.step fun _ _ => false) twoStores = some s ∧
      s.world.log.map Entry.now = [10] ∧
      (s.world.cache 1).map (fun p => (p.metadata.revision, p.revisions.length)) = [(2, 1)] ∧
      s.tasks[1]? = some (.blocking c) ∧
      c.store = 1 ∧ c.stage = .holding before (.releasing (.ok answer)) :=
    ⟨_, _, _, _, rfl, rfl, rfl, rfl, rfl, rfl⟩
  have hrun : Runs (Task.step fun _ _ => false) (fun _ m => AnyMove m)
      (Session.init (.ok []) fun _ => []) s := by
    refine Runs.of_play (D := AnyMove) ?_ hplay
    simp [twoStores, AnyMove]
  obtain ⟨hhistory, -, -, hok, -⟩ := stores_serialized hrun
  obtain ⟨hstore, hstage⟩ := hstage
  have hagree := hok c before answer (List.mem_of_getElem? hc) hstage
  rw [hstore] at hagree
  exact ⟨s, hplay, hlog, hcache, hagree, hhistory⟩

end SerialMcp.Files
