/-
  Capture quotas hold across stores on one directory.

  * `stepLock_spec`, `stepScan_sound`, `stepCommit_spec`: what the blocking task of a
    call does to the directory, with the advisory lock and without it;
  * `Inv.move`: the invariant, with the scans and temp files in progress;
  * `quotas_hold`: in every run the managed files are those of the beginning and the
    commits in their order, within the limits, and a call has committed its file just
    if it came to a success, which reports the usage behind its commit.
-/
import SerialMcp.Captures.Store

namespace SerialMcp.Captures

open Tasks

/-! ## What tasks and results rest on -/

def Commit.file (x : Commit) : ManagedFile := (x.name, x.bytes)

/-- The commit of a call. -/
def Call.commit (c : Call) : Commit := ⟨c.id, c.dest, c.bytes⟩

/-- The files behind some commits. -/
def filesOf (base : List ManagedFile) (commits : List Commit) : List ManagedFile :=
  base ++ commits.map Commit.file

/-- A call has committed its file, and this was the usage then. -/
def Committed (base : List ManagedFile) (w : World) (c : Call) (usage : RootUsage) : Prop :=
  ∃ pre post, w.commits = pre ++ c.commit :: post ∧ usage = usageOf (filesOf base (pre ++ [c.commit]))

/-- A success reports the usage behind the commit. -/
def Reported (base : List ManagedFile) (w : World) (c : Call) (r : CaptureWriteResult) : Prop :=
  ∃ usage warning, Committed base w c usage ∧ r = c.committed usage warning

/-- A scan with names that are left. -/
def Scanned (d : Directory) (rest : List FileName) (usage : RootUsage) : Prop :=
  usage.files + (usageOf (rest.filterMap d.managedFile)).files = (usageOf d.managed).files ∧
    usage.totalBytes + (usageOf (rest.filterMap d.managedFile)).totalBytes =
      (usageOf d.managed).totalBytes

/-- The destination is free, and the quotas allow the new file. -/
structure Ready (d : Directory) (c : Call) (usage : RootUsage) : Prop where
  free : c.dest ∉ d.names
  files : usage.files = (usageOf d.managed).files + 1
  total : usage.totalBytes = (usageOf d.managed).totalBytes + c.bytes.length
  count : usage.files ≤ c.limits.maxFiles
  quota : usage.totalBytes ≤ c.limits.maxTotalBytes

/-- What a blocking task rests on. -/
def Phase.Sound (base : List ManagedFile) (w : World) (c : Call) : Phase → Prop
  | scan rest usage => Scanned w.dir rest usage
  | stat name rest usage =>
    (FileName.text name).isManaged = true ∧ Scanned w.dir (.text name :: rest) usage
  | statDest usage => usage = usageOf w.dir.managed
  | createTemp usage | writeTemp _ usage => Ready w.dir c usage
  | syncTemp temp usage | persist temp usage =>
    Ready w.dir c usage ∧ w.dir.entry (tempName temp) = .file c.bytes
  | syncRoot usage => Committed base w c usage
  | unlock (.ok r) => Reported base w c r
  | _ => True

/-- What a task rests on. -/
def Task.Sound (limits : CaptureLimits) (base : List ManagedFile) (w : World) : Task → Prop
  | .entering request => request.store.limits = limits
  | .waiting c | .awaiting c => c.limits = limits ∧ w.calls[c.id]? = some c.request
  | .blocking c phase =>
    c.limits = limits ∧ w.calls[c.id]? = some c.request ∧ phase.Sound base w c

/-- Whether a blocking task has not committed its file. -/
def Phase.uncommitted : Phase → Bool
  | syncRoot _ | unlock (.ok _) => false
  | _ => true

section
variable {base : List ManagedFile} {w w' : World} {c : Call} {p p' : Phase} {i : Input}

theorem Phase.sound_of_unlocked (h : p.locked = false) : p.Sound base w c := by
  cases p with
  | queued | statLock | openLock | locking => trivial
  | _ => cases h

/-! ## The blocking task -/

/-- **Up to the lock** the directory gets the lock file at most. -/
theorem stepLock_spec {next : Option Phase} (h : c.stepLock p i w = some (w', next)) :
    p.locked = false ∧ p.uncommitted = true ∧
    ((∃ e, w' = w.result c.id (.error e) ∧ next = none) ∨
      (∃ p', next = some p' ∧ p'.locked = false ∧ p'.uncommitted = true ∧
        (w' = w ∨ ∃ hfree, w' = { w with dir := w.dir.insert lockName (.file []) hfree })) ∨
      w.advisory = false ∧ w' = { w with advisory := true } ∧ next = some .readDir) := by
  unfold Call.stepLock at h
  split at h
  · cases h
    exact ⟨rfl, rfl, .inl ⟨_, rfl, rfl⟩⟩
  · split at h <;> cases h
    · exact ⟨rfl, rfl, .inl ⟨_, rfl, rfl⟩⟩
    · exact ⟨rfl, rfl, .inl ⟨_, rfl, rfl⟩⟩
    · exact ⟨rfl, rfl, .inr (.inl ⟨_, rfl, rfl, rfl, .inl rfl⟩)⟩
  · cases h
    exact ⟨rfl, rfl, .inl ⟨_, rfl, rfl⟩⟩
  · split_ifs at h with hmem <;> cases h
    · exact ⟨rfl, rfl, .inr (.inl ⟨_, rfl, rfl, rfl, .inl rfl⟩)⟩
    · exact ⟨rfl, rfl, .inr (.inl ⟨_, rfl, rfl, rfl, .inr ⟨hmem, rfl⟩⟩)⟩
  · cases h
    exact ⟨rfl, rfl, .inl ⟨_, rfl, rfl⟩⟩
  · split_ifs at h with hfree
    cases h
    exact ⟨rfl, rfl, .inr (.inr ⟨Bool.not_eq_true _ ▸ hfree, rfl, rfl⟩)⟩
  · cases h

theorem scanned_start {d : Directory} {names : List FileName} (h : names.Perm d.names) :
    Scanned d names ⟨0, 0⟩ := by
  rw [Scanned, usageOf_perm (d.managed_perm h)]
  exact ⟨Nat.zero_add _, Nat.zero_add _⟩

theorem Scanned.all {d : Directory} {usage : RootUsage} (h : Scanned d [] usage) :
    usage = usageOf d.managed := by
  obtain ⟨hfiles, htotal⟩ := h
  rcases usage with ⟨files, total⟩
  exact congrArg₂ RootUsage.mk hfiles htotal

theorem Scanned.skip {d : Directory} {n : FileName} {rest : List FileName} {usage : RootUsage}
    (h : Scanned d (n :: rest) usage) (hn : d.managedFile n = none) : Scanned d rest usage := by
  rw [Scanned, List.filterMap_cons, hn] at h
  exact h

theorem Scanned.count {d : Directory} {n : FileName} {rest : List FileName} {usage : RootUsage}
    {bytes : Bytes} (h : Scanned d (n :: rest) usage) (hn : d.managedFile n = some (n, bytes)) :
    Scanned d rest ⟨usage.files + 1, usage.totalBytes + bytes.length⟩ := by
  rw [Scanned, List.filterMap_cons, hn] at h
  simp only [usageOf, List.length_cons, List.map_cons, List.sum_cons] at h
  simp only [Scanned, usageOf]
  omega

theorem managedFile_lookup {d : Directory} {n : FileName} {e : Entry} (h : d.lookup n = some e)
    (hn : n.isManaged = true) : d.managedFile n = e.content.map fun bytes => (n, bytes) := by
  rw [Directory.lookup] at h
  split_ifs at h
  cases h
  rw [Directory.managedFile, if_pos hn]

/-- A scan has the advisory lock and keeps it, and has committed nothing. -/
theorem stepScan_locked (h : c.stepScan p i w = some p') :
    p.locked = true ∧ p'.locked = true ∧ p.uncommitted = true ∧ p'.uncommitted = true := by
  unfold Call.stepScan at h
  split at h
  all_goals try split at h
  all_goals try split_ifs at h
  all_goals cases h
  all_goals exact ⟨rfl, rfl, rfl, rfl⟩

/-- **The scan** finds the usage. -/
theorem stepScan_sound (h : c.stepScan p i w = some p') (hs : p.Sound base w c) :
    p'.Sound base w c := by
  unfold Call.stepScan at h
  split at h
  · cases h
    exact trivial
  · split_ifs at h with hperm
    cases h
    exact scanned_start hperm
  · cases h
    exact trivial
  · cases h
    exact Scanned.all hs
  · cases h
    exact Scanned.skip hs rfl
  · split_ifs at h with hname <;> cases h
    · exact ⟨hname, hs⟩
    · refine Scanned.skip hs ?_
      exact Directory.managedFile_unmanaged (Bool.not_eq_true _ ▸ hname)
  · cases h
    exact trivial
  · split at h
    · cases h
    · cases h
      exact trivial
    · rename_i hlookup
      cases h
      refine Scanned.skip hs.2 ?_
      exact managedFile_lookup hlookup hs.1
    · rename_i hlookup
      split_ifs at h <;> cases h
      · exact trivial
      · exact trivial
      · refine Scanned.count hs.2 ?_
        exact managedFile_lookup hlookup hs.1
  · cases h

/-! ### The commit -/

theorem Call.file_ok (c : Call) : checkFile c.limits c.name c.bytes = .ok () := c.checked

theorem Call.dest_managed (c : Call) : c.dest.isManaged = true := by
  have hfile := c.file_ok
  rw [checkFile] at hfile
  split at hfile
  · cases hfile
  · exact isManaged_of_validate (by assumption)

theorem Call.bytes_le (c : Call) : c.bytes.length ≤ c.limits.maxFileBytes := by
  have hfile := c.file_ok
  rw [checkFile] at hfile
  split at hfile
  · cases hfile
  · split_ifs at hfile with hlen
    exact Nat.le_of_not_lt hlen

theorem newUsage_ready {d : Directory} {usage : RootUsage} (hfree : c.dest ∉ d.names)
    (h : c.newUsage (usageOf d.managed) = .ok usage) : Ready d c usage := by
  rw [Call.newUsage] at h
  split_ifs at h with _ hcount _ htotal
  cases h
  exact ⟨hfree, rfl, rfl, Nat.le_of_not_lt hcount, Nat.le_of_not_lt htotal⟩

theorem Ready.congr {d d' : Directory} {usage : RootUsage} (h : Ready d c usage)
    (hfree : c.dest ∉ d'.names) (hmanaged : d'.managed = d.managed) : Ready d' c usage :=
  ⟨hfree, hmanaged ▸ h.files, hmanaged ▸ h.total, h.count, h.quota⟩

theorem dest_ne_of_unmanaged {n : FileName} (hn : n.isManaged = false) : c.dest ≠ n := by
  rintro rfl
  rw [c.dest_managed] at hn
  cases hn

theorem Ready.allow {d : Directory} {usage : RootUsage} (h : Ready d c usage)
    (hallow : c.limits.Allow d.managed) : c.limits.Allow (d.managed ++ [(c.dest, c.bytes)]) := by
  obtain ⟨-, hfiles, htotal, hcount, hquota⟩ := h
  refine ⟨?_, ?_, List.forall_mem_append.2 ⟨hallow.each, List.forall_mem_singleton.2 c.bytes_le⟩⟩
  · rw [usageOf_concat]
    exact hfiles ▸ hcount
  · rw [usageOf_concat]
    exact htotal ▸ hquota

theorem stepCommit_locked (h : c.stepCommit p i w = some (w', p')) :
    p.locked = true ∧ p'.locked = true ∧ w'.advisory = w.advisory := by
  unfold Call.stepCommit at h
  split at h
  all_goals try split_ifs at h
  all_goals try split at h
  all_goals cases h
  all_goals exact ⟨rfl, rfl, rfl⟩

/-- What a step of a blocking task with the advisory lock does to the directory. -/
inductive Effect (c : Call) (p p' : Phase) (w w' : World) : Prop where
  /-- the managed files are left alone -/
  | aside (dir : Directory) (hw : w' = { w with dir }) (hmanaged : dir.managed = w.dir.managed)
      (hsame : p.uncommitted = p'.uncommitted)
  | commit (dir : Directory) (usage : RootUsage)
      (hw : w' = { w with dir, commits := w.commits ++ [c.commit] })
      (hready : Ready w.dir c usage)
      (hmanaged : dir.managed = w.dir.managed ++ [(c.dest, c.bytes)])
      (hbefore : p.uncommitted = true) (hbehind : p'.uncommitted = false)

theorem Effect.still (hsame : p.uncommitted = p'.uncommitted) : Effect c p p' w w :=
  .aside w.dir rfl rfl hsame

/-- **Behind the scan** a step changes temp files, or commits the file. -/
theorem stepCommit_spec (h : c.stepCommit p i w = some (w', p')) (hs : p.Sound base w c)
    (hfiles : w.dir.managed = filesOf base w.commits) :
    p'.Sound base w' c ∧ Effect c p p' w w' := by
  unfold Call.stepCommit at h
  split at h
  · cases h
    exact ⟨trivial, .still rfl⟩
  · split_ifs at h with hdest
    · cases h
      exact ⟨trivial, .still rfl⟩
    · cases hs
      split at h <;> cases h
      · exact ⟨trivial, .still rfl⟩
      · exact ⟨newUsage_ready hdest (by assumption), .still rfl⟩
  · cases h
    exact ⟨trivial, .still rfl⟩
  · rename_i usage temp
    split_ifs at h with hmem
    cases h
    have hmanaged := Directory.managed_insert_unmanaged (e := .file []) hmem
      (tempName_unmanaged temp)
    refine ⟨hs.congr ?_ hmanaged, .aside _ rfl hmanaged rfl⟩
    simp only [Directory.insert, List.mem_append, List.mem_singleton, not_or]
    exact ⟨hs.free, dest_ne_of_unmanaged (tempName_unmanaged temp)⟩
  · cases h
    exact ⟨trivial, .still rfl⟩
  · rename_i temp usage
    cases h
    have hmanaged := Directory.managed_set (d := w.dir) (e := .file c.bytes) (tempName_unmanaged temp)
    refine ⟨⟨hs.congr hs.free hmanaged, ?_⟩, .aside _ rfl hmanaged rfl⟩
    exact Function.update_self ..
  · cases h
    exact ⟨trivial, .still rfl⟩
  · cases h
    exact ⟨hs, .still rfl⟩
  · cases h
    exact ⟨trivial, .still rfl⟩
  · rename_i temp usage
    obtain ⟨hready, hbytes⟩ := hs
    split_ifs at h with hmem <;> cases h
    · exact ⟨trivial, .still rfl⟩
    · have hmanaged := Directory.managed_rename hmem (tempName_unmanaged temp) c.dest_managed hbytes
      refine ⟨⟨w.commits, [], rfl, ?_⟩, .commit _ usage rfl hready hmanaged rfl rfl⟩
      have hnow : filesOf base (w.commits ++ [c.commit]) = w.dir.managed ++ [(c.dest, c.bytes)] := by
        rw [hfiles]
        simp [filesOf, Commit.file, Call.commit]
      rw [hnow, usageOf_concat, ← hready.files, ← hready.total]
  · cases h
    exact ⟨trivial, .still rfl⟩
  · rename_i temp e
    cases h
    exact ⟨trivial, .aside _ rfl (Directory.managed_erase (tempName_unmanaged temp)) rfl⟩
  · cases h
    exact ⟨⟨_, _, hs, rfl⟩, .still rfl⟩
  · cases h

/-- A step of a blocking task. -/
inductive Blocked (c : Call) (p : Phase) (i : Input) (w : World) : World → List Task → Prop
  /-- an error before the lock -/
  | fails (e : String) (hlocked : p.locked = false) (huncommitted : p.uncommitted = true) :
      Blocked c p i w (w.result c.id (.error e)) []
  /-- on the way to the lock; the lock file may come into being -/
  | goes (p' : Phase) (dir : Directory) (hlocked : p.locked = false) (hlocked' : p'.locked = false)
      (huncommitted : p.uncommitted = true) (huncommitted' : p'.uncommitted = true)
      (hdir : dir = w.dir ∨ ∃ hfree, dir = w.dir.insert lockName (.file []) hfree) :
      Blocked c p i w { w with dir } [.blocking c p']
  | locks (hlocked : p.locked = false) (huncommitted : p.uncommitted = true)
      (hfree : w.advisory = false) :
      Blocked c p i w { w with advisory := true } [.blocking c .readDir]
  | scans (p' : Phase) (h : c.stepScan p i w = some p') : Blocked c p i w w [.blocking c p']
  | commits (p' : Phase) (w' : World) (h : c.stepCommit p i w = some (w', p')) :
      Blocked c p i w w' [.blocking c p']
  | unlocks (answer : Answer) (hp : p = .unlock answer) :
      Blocked c p i w { w.result c.id answer with advisory := false } []
  | killed : Blocked c p i w { w with advisory := w.advisory && !p.locked } []

theorem Blocked.of_steps {new : List Task}
    (h : (((c.stepLock p i w).map fun r => (r.1, r.2.toList.map (Task.blocking c))) <|>
      ((c.stepScan p i w).map fun phase => (w, [Task.blocking c phase])) <|>
      ((c.stepCommit p i w).map fun r => (r.1, [Task.blocking c r.2]))) = some (w', new)) :
    Blocked c p i w w' new := by
  cases hlock : c.stepLock p i w with
  | some r =>
    rw [hlock] at h
    cases h
    obtain ⟨hlocked, huncommitted, hcases⟩ := stepLock_spec hlock
    rcases r with ⟨w', next⟩
    rcases hcases with ⟨e, rfl, rfl⟩ | ⟨p', rfl, hlocked', huncommitted', hw⟩ | ⟨hfree, rfl, rfl⟩
    · exact .fails e hlocked huncommitted
    · rcases hw with rfl | ⟨hfree, rfl⟩
      · exact .goes p' _ hlocked hlocked' huncommitted huncommitted' (.inl rfl)
      · exact .goes p' _ hlocked hlocked' huncommitted huncommitted' (.inr ⟨hfree, rfl⟩)
    · exact .locks hlocked huncommitted hfree
  | none =>
    rw [hlock] at h
    cases hscan : c.stepScan p i w with
    | some p' =>
      rw [hscan] at h
      cases h
      exact .scans p' hscan
    | none =>
      rw [hscan] at h
      cases hcommit : c.stepCommit p i w with
      | some r =>
        rw [hcommit] at h
        cases h
        exact .commits r.2 r.1 hcommit
      | none =>
        rw [hcommit] at h
        cases h

/-- **What a step of a blocking task does.** -/
theorem blocking_cases {new : List Task}
    (h : Task.step (.blocking c p) i w = some (w', new)) : Blocked c p i w w' new := by
  unfold Task.step at h
  split at h
  all_goals try contradiction
  · rename_i heq
    cases heq
    cases h
    exact .fails _ rfl rfl
  · rename_i heq
    cases heq
    rw [c.file_ok] at h
    cases h
    exact .goes _ _ rfl rfl rfl rfl (.inl rfl)
  · rename_i heq
    cases heq
    cases h
    exact .unlocks _ rfl
  · rename_i heq
    cases heq
    cases h
    exact .killed
  · rename_i heq _ _ _ _
    cases heq
    exact .of_steps h

/-! ## The locks and the calls -/

/-- What a task has of the advisory lock. -/
def Task.held : Task → Unit → ℕ
  | .blocking _ phase, _ => phase.locked.toNat
  | _, _ => 0

def World.booked (w : World) (_ : Unit) : ℕ := w.advisory.toNat

/-- Whether a task can still settle a call. -/
def Task.token : Task → ℕ → ℕ
  | .waiting c, id => if c.id = id then 1 else 0
  | .blocking c phase, id => if c.id = id ∧ phase.uncommitted then 1 else 0
  | _, _ => 0

/-- How often a call was settled: by its commit, or by an error. -/
def World.settled (w : World) (id : ℕ) : ℕ :=
  w.commits.countP (fun x => x.call = id) +
    w.results.countP (fun r => r.1 = id ∧ r.2.isOk = false)

/-- A call is settled once. -/
def World.capacity (w : World) (id : ℕ) : ℕ := if id < w.calls.length then 1 else 0

variable {t : Task} {new : List Task} {s s' : Stores} {limits : CaptureLimits}

/-- The advisory lock is taken and given back by the tasks that have it. -/
theorem Task.step_locks (h : Task.step t i w = some (w', new)) (k : Unit) :
    w.booked k + heldBy Task.held new k ≤ w'.booked k + t.held k := by
  have hle : ∀ b : Bool, b.toNat ≤ 1 := Bool.toNat_le
  cases t with
  | blocking c p =>
    cases blocking_cases h with
    | fails _ hlocked =>
      simp [World.booked, World.result, Task.held, hlocked]
    | goes p' _ hlocked hlocked' =>
      simp [World.booked, Task.held, hlocked, hlocked']
    | locks hlocked _ hfree =>
      simp [World.booked, Task.held, hfree, Phase.locked]
    | scans p' hscan =>
      obtain ⟨hlocked, hlocked', -, -⟩ := stepScan_locked hscan
      simp [World.booked, Task.held, hlocked, hlocked']
    | commits p' _ hcommit =>
      obtain ⟨hlocked, hlocked', hadvisory⟩ := stepCommit_locked hcommit
      simp [World.booked, Task.held, hlocked, hlocked', hadvisory]
    | unlocks answer hp =>
      rw [hp]
      simpa [World.booked, Task.held, Phase.locked] using hle w.advisory
    | killed =>
      cases hlocked : p.locked <;> simp [World.booked, Task.held, hlocked, hle]
  | entering request =>
    cases i with
    | turn =>
      simp only [Task.step] at h
      split at h
      · cases h
        exact Nat.le_refl _
      · split at h <;> cases h <;> exact Nat.le_refl _
    | _ => cases h
  | waiting c =>
    cases i with
    | turn =>
      simp only [Task.step] at h
      split_ifs at h
      cases h
      exact Nat.le_refl _
    | dropped =>
      cases h
      exact Nat.le_refl _
    | _ => cases h
  | awaiting c =>
    cases i with
    | turn =>
      obtain ⟨r, -, hr⟩ := Option.map_eq_some_iff.1 h
      cases hr
      exact Nat.le_refl _
    | dropped =>
      cases h
      exact Nat.le_refl _
    | _ => cases h

theorem locks_move {m : Move Task Input} (h : Covered Task.held World.booked s)
    (hm : AnyMove limits s m) (hmove : s.move Task.step m = some s') :
    Covered Task.held World.booked s' := by
  refine h.move (fun t ht k => ?_) (fun l t r i w new _ _ hstep k => Task.step_locks hstep k) hmove
  subst ht
  cases hm
  rfl

theorem settled_result (id k : ℕ) (answer : Answer) :
    (w.result id answer).settled k =
      w.settled k + if id = k ∧ answer.isOk = false then 1 else 0 := by
  simp [World.settled, World.result, List.countP_append, List.countP_singleton, Nat.add_assoc]

theorem settled_commit (dir : Directory) (c : Call) (k : ℕ) :
    World.settled { w with dir, commits := w.commits ++ [c.commit] } k =
      w.settled k + if c.id = k then 1 else 0 := by
  simp only [World.settled, List.countP_append, List.countP_singleton, Call.commit,
    decide_eq_true_eq]
  omega

theorem capacity_called (request : Request) (k : ℕ) :
    World.capacity { w with calls := w.calls ++ [request] } k =
      w.capacity k + if w.calls.length = k then 1 else 0 := by
  simp only [World.capacity, List.length_append, List.length_singleton]
  split_ifs <;> omega

/-- What settles no call. -/
theorem token_still {k : ℕ} (hcommits : w'.commits = w.commits) (hresults : w'.results = w.results)
    (hcalls : w'.calls = w.calls) (htoken : heldBy Task.token new k ≤ t.token k) :
    heldBy Task.token new k + w'.settled k + w.capacity k ≤
      t.token k + w.settled k + w'.capacity k := by
  have hsettled : w'.settled k = w.settled k := by
    rw [World.settled, World.settled, hcommits, hresults]
  have hcapacity : w'.capacity k = w.capacity k := by
    rw [World.capacity, World.capacity, hcalls]
  omega

/-- A blocking task settles its call with an error. -/
theorem token_result (huncommitted : p.uncommitted = true) (e : String) (k : ℕ)
    (hsettled : w'.settled k = (w.result c.id (.error e)).settled k) (hcalls : w'.calls = w.calls) :
    heldBy Task.token [] k + w'.settled k + w.capacity k ≤
      (Task.blocking c p).token k + w.settled k + w'.capacity k := by
  have hcapacity : w'.capacity k = w.capacity k := by
    rw [World.capacity, World.capacity, hcalls]
  rw [hsettled, settled_result, hcapacity, heldBy_nil]
  simp only [Task.token, huncommitted, Except.isOk, Except.toBool, and_true]
  omega

/-- **A call is settled once**: by its commit, or by an error. -/
theorem Task.step_token (h : Task.step t i w = some (w', new)) (hs : t.Sound limits base w)
    (hfiles : w.dir.managed = filesOf base w.commits) (k : ℕ) :
    heldBy Task.token new k + w'.settled k + w.capacity k ≤
      t.token k + w.settled k + w'.capacity k := by
  cases t with
  | entering request =>
    cases i with
    | turn =>
      have hrefuse : ∀ e, heldBy Task.token [] k +
          (World.refuse { w with calls := w.calls ++ [request] } w.calls.length e).settled k +
            w.capacity k ≤ (entering request).token k + w.settled k +
              World.capacity { w with calls := w.calls ++ [request] } k := by
        intro e
        have hsettled := settled_result (w := w) w.calls.length k (.error e)
        rw [capacity_called, heldBy_nil]
        simp only [Except.isOk, Except.toBool, and_true] at hsettled
        change 0 + (w.result w.calls.length (.error e)).settled k + w.capacity k ≤ _
        omega
      simp only [Task.step] at h
      split at h
      · cases h
        exact hrefuse _
      · split at h <;> cases h
        · exact hrefuse _
        · rw [capacity_called]
          simp [Task.token, World.settled]
          omega
    | _ => cases h
  | waiting c =>
    cases i with
    | turn =>
      simp only [Task.step] at h
      split_ifs at h
      cases h
      exact token_still rfl rfl rfl (by simp [Task.token, Phase.uncommitted])
    | dropped =>
      cases h
      exact token_still rfl rfl rfl (Nat.zero_le _)
    | _ => cases h
  | awaiting c =>
    cases i with
    | turn =>
      obtain ⟨r, -, hr⟩ := Option.map_eq_some_iff.1 h
      cases hr
      exact token_still rfl rfl rfl (Nat.zero_le _)
    | dropped =>
      cases h
      exact token_still rfl rfl rfl (Nat.zero_le _)
    | _ => cases h
  | blocking c p =>
    cases blocking_cases h with
    | fails e _ huncommitted => exact token_result huncommitted e k rfl rfl
    | goes p' _ _ _ huncommitted huncommitted' =>
      exact token_still rfl rfl rfl (by simp [Task.token, huncommitted, huncommitted'])
    | locks _ huncommitted _ =>
      refine token_still rfl rfl rfl ?_
      have hread : Phase.readDir.uncommitted = true := rfl
      simp [Task.token, huncommitted, hread]
    | scans p' hscan =>
      obtain ⟨-, -, huncommitted, huncommitted'⟩ := stepScan_locked hscan
      exact token_still rfl rfl rfl (by simp [Task.token, huncommitted, huncommitted'])
    | commits p' _ hcommit =>
      obtain ⟨-, heffect⟩ := stepCommit_spec hcommit hs.2.2 hfiles
      cases heffect with
      | aside dir hw hmanaged hsame =>
        subst hw
        exact token_still rfl rfl rfl (by simp [Task.token, hsame])
      | commit dir usage hw hready hmanaged hbefore hbehind =>
        subst hw
        have hcapacity : World.capacity { w with dir, commits := w.commits ++ [c.commit] } k =
            w.capacity k := rfl
        rw [settled_commit, hcapacity]
        simp only [heldBy_cons, heldBy_nil, Task.token, hbefore, hbehind]
        grind
    | unlocks answer hp =>
      subst hp
      cases answer with
      | error e => exact token_result rfl e k rfl rfl
      | ok r =>
        have hsettled := settled_result (w := w) c.id k (.ok r)
        simp only [Except.isOk, Except.toBool, Bool.true_eq_false, and_false, if_false] at hsettled
        change 0 + (w.result c.id (.ok r)).settled k + w.capacity k ≤ _ + w.settled k + w.capacity k
        omega
    | killed => exact token_still rfl rfl rfl (Nat.zero_le _)

/-! ## The invariant -/

/-- What the logs of a later state begin with. -/
structure Later (w w' : World) : Prop where
  calls : w.calls <+: w'.calls
  commits : w.commits <+: w'.commits
  results : w.results <+: w'.results

theorem Committed.later {usage : RootUsage} (h : Committed base w c usage) (hlater : Later w w') :
    Committed base w' c usage := by
  obtain ⟨pre, post, hcommits, husage⟩ := h
  obtain ⟨rest, hrest⟩ := hlater.commits
  refine ⟨pre, post ++ rest, ?_, husage⟩
  rw [← hrest, hcommits, List.append_assoc, List.cons_append]

theorem Reported.later {r : CaptureWriteResult} (h : Reported base w c r) (hlater : Later w w') :
    Reported base w' c r := by
  obtain ⟨usage, warning, hcommitted, hr⟩ := h
  exact ⟨usage, warning, hcommitted.later hlater, hr⟩

theorem called_later {id : ℕ} {request : Request} (h : w.calls[id]? = some request)
    (hlater : Later w w') : w'.calls[id]? = some request := by
  obtain ⟨rest, hrest⟩ := hlater.calls
  rw [← hrest, List.getElem?_append_left (List.getElem?_eq_some_iff.1 h).1, h]

/-- What a directory may come to without the advisory lock. -/
def Aside (d d' : Directory) : Prop :=
  d' = d ∨ ∃ hfree, d' = d.insert lockName (.file []) hfree

theorem Aside.managedFile {d d' : Directory} (h : Aside d d') : d'.managedFile = d.managedFile := by
  rcases h with rfl | ⟨hfree, rfl⟩
  · rfl
  · exact Directory.managedFile_set lockName_unmanaged

theorem Aside.managed {d d' : Directory} (h : Aside d d') : d'.managed = d.managed := by
  rcases h with rfl | ⟨hfree, rfl⟩
  · rfl
  · exact Directory.managed_insert_unmanaged hfree lockName_unmanaged

theorem Aside.ready {d d' : Directory} {usage : RootUsage} (h : Aside d d')
    (hready : Ready d c usage) : Ready d' c usage := by
  refine hready.congr ?_ h.managed
  rcases h with rfl | ⟨hfree, rfl⟩
  · exact hready.free
  · simp only [Directory.insert, List.mem_append, List.mem_singleton, not_or]
    exact ⟨hready.free, dest_ne_of_unmanaged lockName_unmanaged⟩

theorem Aside.temp {d d' : Directory} (h : Aside d d') (temp : Text) :
    d'.entry (tempName temp) = d.entry (tempName temp) := by
  rcases h with rfl | ⟨hfree, rfl⟩
  · rfl
  · have hne : tempName temp ≠ lockName := by
      intro heq
      have hprefix : captureTempPrefix.isPrefixOf captureLockFile = true := by
        rw [List.isPrefixOf_iff_prefix]
        exact ⟨temp, FileName.text.inj heq⟩
      exact absurd hprefix (by decide +kernel)
    exact Function.update_of_ne hne (.file []) d.entry

/-- What a blocking task rests on outlives the steps of others. -/
theorem Phase.Sound.later (h : p.Sound base w c) (hlater : Later w w')
    (hdir : p.locked = true → Aside w.dir w'.dir) : p.Sound base w' c := by
  cases p with
  | scan rest usage =>
    have haside := hdir rfl
    simp only [Phase.Sound, Scanned] at h ⊢
    rwa [haside.managedFile, haside.managed]
  | stat name rest usage =>
    have haside := hdir rfl
    simp only [Phase.Sound, Scanned] at h ⊢
    rwa [haside.managedFile, haside.managed]
  | statDest usage => exact h.trans (congrArg usageOf (hdir rfl).managed.symm)
  | createTemp usage | writeTemp temp usage => exact (hdir rfl).ready h
  | syncTemp temp usage | persist temp usage =>
    exact ⟨(hdir rfl).ready h.1, ((hdir rfl).temp temp).trans h.2⟩
  | syncRoot usage => exact Committed.later h hlater
  | unlock answer =>
    cases answer with
    | error e => trivial
    | ok r => exact Reported.later h hlater
  | _ => trivial

/-- A result is true to the commits. -/
def Settled (base : List ManagedFile) (w : World) (r : ℕ × Answer) : Prop :=
  ∀ reply, r.2 = .ok reply → ∃ c : Call, c.id = r.1 ∧ w.calls[c.id]? = some c.request ∧
    Reported base w c reply

/-- What a step leaves. -/
structure Outcome (limits : CaptureLimits) (base : List ManagedFile) (t : Task) (w w' : World)
    (new : List Task) : Prop where
  later : Later w w'
  dir : t.held () = 0 → Aside w.dir w'.dir
  files : w'.dir.managed = filesOf base w'.commits
  allowed : limits.Allow w'.dir.managed
  tasks : ∀ t' ∈ new, t'.Sound limits base w'
  results : ∀ r ∈ w'.results, r ∈ w.results ∨ Settled base w' r
  answers : ∀ r ∈ w'.answers, r ∈ w.answers ∨ r ∈ w'.results

/-- The invariant. -/
structure Inv (limits : CaptureLimits) (base : List ManagedFile) (s : Stores) : Prop where
  locks : Covered Task.held World.booked s
  tokens : Within Task.token World.settled World.capacity s
  files : s.world.dir.managed = filesOf base s.world.commits
  allowed : limits.Allow s.world.dir.managed
  tasks : ∀ t ∈ s.tasks, t.Sound limits base s.world
  results : ∀ r ∈ s.world.results, Settled base s.world r
  answers : ∀ r ∈ s.world.answers, r ∈ s.world.results

/-- A step that leaves the files and the logs alone, but for errors. -/
theorem Outcome.of_errors (hfiles : w.dir.managed = filesOf base w.commits)
    (hallow : limits.Allow w.dir.managed) (hdir : Aside w.dir w'.dir)
    (hcommits : w'.commits = w.commits) (hcalls : w.calls <+: w'.calls)
    (hresults : w'.results = w.results ∨ ∃ id e, w'.results = w.results ++ [(id, .error e)])
    (htasks : ∀ t' ∈ new, t'.Sound limits base w')
    (hanswers : ∀ r ∈ w'.answers, r ∈ w.answers ∨ r ∈ w'.results) :
    Outcome limits base t w w' new := by
  refine ⟨⟨hcalls, hcommits ▸ List.prefix_rfl, ?_⟩, fun _ => hdir, ?_, ?_, htasks, ?_, hanswers⟩
  · rcases hresults with hresults | ⟨id, e, hresults⟩
    · exact hresults ▸ List.prefix_rfl
    · exact hresults ▸ List.prefix_append _ _
  · rw [hdir.managed, hcommits, hfiles]
  · rw [hdir.managed]
    exact hallow
  · rcases hresults with hresults | ⟨id, e, hresults⟩ <;> rw [hresults]
    · exact fun r hr => .inl hr
    · refine List.forall_mem_append.2 ⟨fun r hr => .inl hr, List.forall_mem_singleton.2 (.inr ?_)⟩
      intro reply hreply
      cases hreply

/-- A step of a blocking task behind its scan. -/
theorem commit_outcome {p' : Phase} (hlimits : c.limits = limits)
    (hcall : w.calls[c.id]? = some c.request) (hsound : p.Sound base w c)
    (hfiles : w.dir.managed = filesOf base w.commits) (hallow : limits.Allow w.dir.managed)
    (hcommit : c.stepCommit p i w = some (w', p')) :
    Outcome limits base (.blocking c p) w w' [.blocking c p'] := by
  obtain ⟨hlocked, -, -⟩ := stepCommit_locked hcommit
  obtain ⟨hsound', heffect⟩ := stepCommit_spec hcommit hsound hfiles
  have hdir : (Task.blocking c p).held () = 0 → Aside w.dir w'.dir := by
    simp [Task.held, hlocked]
  cases heffect with
  | aside dir hw hmanaged _ =>
    subst hw
    refine ⟨⟨List.prefix_rfl, List.prefix_rfl, List.prefix_rfl⟩, hdir, hmanaged.trans hfiles,
      hmanaged ▸ hallow, List.forall_mem_singleton.2 ⟨hlimits, hcall, hsound'⟩,
      fun r hr => .inl hr, fun r hr => .inl hr⟩
  | commit dir usage hw hready hmanaged _ _ =>
    subst hw
    refine ⟨⟨List.prefix_rfl, List.prefix_append _ _, List.prefix_rfl⟩, hdir, ?_, ?_,
      List.forall_mem_singleton.2 ⟨hlimits, hcall, hsound'⟩, fun r hr => .inl hr,
      fun r hr => .inl hr⟩
    · rw [hmanaged, hfiles]
      simp [filesOf, Commit.file, Call.commit]
    · rw [hmanaged, ← hlimits]
      exact hready.allow (hlimits ▸ hallow)

/-- **What a step leaves**, from the invariant on. -/
theorem Task.step_outcome (hstep : Task.step t i w = some (w', new))
    (hs : t.Sound limits base w) (hfiles : w.dir.managed = filesOf base w.commits)
    (hallow : limits.Allow w.dir.managed) : Outcome limits base t w w' new := by
  cases t with
  | entering request =>
    cases i with
    | turn =>
      have hrefuse : ∀ e, Outcome limits base (entering request) w
          (World.refuse { w with calls := w.calls ++ [request] } w.calls.length e) [] := by
        intro e
        refine .of_errors hfiles hallow (.inl rfl) rfl (List.prefix_append _ _)
          (.inr ⟨_, e, rfl⟩) (fun t ht => by cases ht) ?_
        exact List.forall_mem_append.2 ⟨fun r hr => .inl hr,
          List.forall_mem_singleton.2 (.inr (List.mem_append_right _ (List.mem_singleton_self _)))⟩
      simp only [Task.step] at hstep
      split at hstep
      · cases hstep
        exact hrefuse _
      · split at hstep <;> cases hstep
        · exact hrefuse _
        · refine .of_errors hfiles hallow (.inl rfl) rfl (List.prefix_append _ _) (.inl rfl) ?_
            fun r hr => .inl hr
          exact List.forall_mem_singleton.2 ⟨hs, List.getElem?_concat_length⟩
    | _ => cases hstep
  | waiting c =>
    cases i with
    | turn =>
      simp only [Task.step] at hstep
      split_ifs at hstep
      cases hstep
      refine .of_errors hfiles hallow (.inl rfl) rfl List.prefix_rfl (.inl rfl) ?_ fun r hr => .inl hr
      intro t ht
      rcases List.mem_pair.1 ht with rfl | rfl
      · exact hs
      · exact ⟨hs.1, hs.2, trivial⟩
    | dropped =>
      cases hstep
      exact .of_errors hfiles hallow (.inl rfl) rfl List.prefix_rfl (.inl rfl)
        (fun t ht => by cases ht) fun r hr => .inl hr
    | _ => cases hstep
  | awaiting c =>
    cases i with
    | turn =>
      obtain ⟨r, hr, hanswer⟩ := Option.map_eq_some_iff.1 hstep
      cases hanswer
      refine .of_errors hfiles hallow (.inl rfl) rfl List.prefix_rfl (.inl rfl)
        (fun t ht => by cases ht) ?_
      exact List.forall_mem_append.2 ⟨fun r hr => .inl hr,
        List.forall_mem_singleton.2 (.inr (List.mem_of_find?_eq_some hr))⟩
    | dropped =>
      cases hstep
      exact .of_errors hfiles hallow (.inl rfl) rfl List.prefix_rfl (.inl rfl)
        (fun t ht => by cases ht) fun r hr => .inl hr
    | _ => cases hstep
  | blocking c p =>
    obtain ⟨hlimits, hcall, hsound⟩ := hs
    cases blocking_cases hstep with
    | fails e _ _ =>
      exact .of_errors hfiles hallow (.inl rfl) rfl List.prefix_rfl (.inr ⟨c.id, e, rfl⟩)
        (fun t ht => by cases ht) fun r hr => .inl hr
    | goes p' dir _ hlocked' _ _ hdir =>
      refine .of_errors hfiles hallow hdir rfl List.prefix_rfl (.inl rfl) ?_ fun r hr => .inl hr
      exact List.forall_mem_singleton.2 ⟨hlimits, hcall, Phase.sound_of_unlocked hlocked'⟩
    | locks _ _ _ =>
      refine .of_errors hfiles hallow (.inl rfl) rfl List.prefix_rfl (.inl rfl) ?_ fun r hr => .inl hr
      exact List.forall_mem_singleton.2 ⟨hlimits, hcall, trivial⟩
    | scans p' hscan =>
      refine .of_errors hfiles hallow (.inl rfl) rfl List.prefix_rfl (.inl rfl) ?_ fun r hr => .inl hr
      exact List.forall_mem_singleton.2 ⟨hlimits, hcall, stepScan_sound hscan hsound⟩
    | commits p' _ hcommit => exact commit_outcome hlimits hcall hsound hfiles hallow hcommit
    | unlocks answer hp =>
      subst hp
      refine ⟨⟨List.prefix_rfl, List.prefix_rfl, List.prefix_append _ _⟩, fun _ => .inl rfl, hfiles,
        hallow, fun t ht => (by cases ht), ?_, fun r hr => .inl hr⟩
      refine List.forall_mem_append.2 ⟨fun r hr => .inl hr, List.forall_mem_singleton.2 (.inr ?_)⟩
      intro reply hreply
      cases hreply
      exact ⟨c, rfl, hcall, hsound⟩
    | killed =>
      exact .of_errors hfiles hallow (.inl rfl) rfl List.prefix_rfl (.inl rfl)
        (fun t ht => by cases ht) fun r hr => .inl hr

theorem Task.Starts.sound (h : t.Starts limits) : t.Sound limits base w := by
  cases h with
  | entering request hlimits => exact hlimits

theorem Task.Sound.later (h : t.Sound limits base w) (hlater : Later w w')
    (hdir : t.held () ≠ 0 → Aside w.dir w'.dir) : t.Sound limits base w' := by
  cases t with
  | entering request => exact h
  | waiting c | awaiting c => exact ⟨h.1, called_later h.2 hlater⟩
  | blocking c p =>
    refine ⟨h.1, called_later h.2.1 hlater, h.2.2.later hlater fun hlocked => hdir ?_⟩
    simp [Task.held, hlocked]

theorem Settled.later {r : ℕ × Answer} (h : Settled base w r) (hlater : Later w w') :
    Settled base w' r := by
  intro reply hreply
  obtain ⟨c, hid, hcall, hreported⟩ := h reply hreply
  exact ⟨c, hid, called_later hcall hlater, hreported.later hlater⟩

/-- **A move keeps the invariant**, and what was committed before. -/
theorem Inv.move {m : Move Task Input} (h : Inv limits base s) (hm : AnyMove limits s m)
    (hmove : s.move Task.step m = some s') :
    Inv limits base s' ∧ s.world.commits <+: s'.world.commits := by
  have hlocks := locks_move h.locks hm hmove
  have htokens : Within Task.token World.settled World.capacity s' := by
    refine h.tokens.move (fun t ht k => ?_) (fun l t r i w new _ htasks hstep k => ?_) hmove
    · subst ht
      cases hm
      rfl
    · exact Task.step_token hstep (h.tasks t (by simp [htasks])) h.files k
  obtain ⟨t, rfl, rfl⟩ | ⟨l, t, r, i, w, new, rfl, htasks, hstep, rfl⟩ := move_cases hmove
  · refine ⟨⟨hlocks, htokens, h.files, h.allowed, ?_, h.results, h.answers⟩, List.prefix_rfl⟩
    exact List.forall_mem_append.2 ⟨h.tasks, List.forall_mem_singleton.2 hm.sound⟩
  · have hout := Task.step_outcome hstep (h.tasks t (by simp [htasks])) h.files h.allowed
    refine ⟨⟨hlocks, htokens, hout.files, hout.allowed, ?_, ?_, ?_⟩, hout.later.commits⟩
    · refine forall_replaced htasks h.tasks (fun t' ht' hsound => ?_) hout.tasks
      refine hsound.later hout.later fun hheld => hout.dir ?_
      -- another task has the advisory lock, so this one has not
      by_contra hne
      have hbooked : s.world.booked () ≤ t.held () :=
        (Bool.toNat_le _).trans (Nat.one_le_iff_ne_zero.2 hne)
      exact hheld (h.locks.alone htasks hbooked t' ht')
    · intro r hr
      rcases hout.results r hr with hold | hnew
      · exact (h.results r hold).later hout.later
      · exact hnew
    · intro r hr
      rcases hout.answers r hr with hold | hnew
      · exact hout.later.results.subset (h.answers r hold)
      · exact hnew

theorem Inv.init {dir : Directory} (hallow : limits.Allow dir.managed) :
    Inv limits dir.managed (Stores.init dir) where
  locks k := Nat.zero_le _
  tokens k := Nat.zero_le _
  files := (List.append_nil _).symm
  allowed := hallow
  tasks t ht := by cases ht
  results r hr := by cases hr
  answers r hr := by cases hr

theorem Inv.no_commit {id : ℕ} {e : String} (h : Inv limits base s)
    (hr : (id, .error e) ∈ s.world.results) : ∀ x ∈ s.world.commits, x.call ≠ id := by
  have htokens := h.tokens id
  have hcap : s.world.capacity id ≤ 1 := by
    rw [World.capacity]
    split_ifs <;> omega
  have herror : 0 < s.world.results.countP (fun r => r.1 = id ∧ r.2.isOk = false) :=
    List.countP_pos_iff.2 ⟨_, hr, by simp [Except.isOk, Except.toBool]⟩
  have hcommits : s.world.commits.countP (fun x => x.call = id) = 0 := by
    rw [World.settled] at htokens
    omega
  intro x hx
  simpa using List.countP_eq_zero.1 hcommits x hx

theorem Inv.one_commit {pre post : List Commit} {x : Commit} (h : Inv limits base s)
    (hcommits : s.world.commits = pre ++ x :: post) : ∀ y ∈ pre ++ post, y.call ≠ x.call := by
  have htokens := h.tokens x.call
  have hcap : s.world.capacity x.call ≤ 1 := by
    rw [World.capacity]
    split_ifs <;> omega
  have hothers : (pre ++ post).countP (fun y => y.call = x.call) = 0 := by
    rw [World.settled, hcommits, List.countP_append, List.countP_cons] at htokens
    rw [List.countP_append]
    simp only [decide_true, if_true] at htokens
    omega
  intro y hy
  simpa using List.countP_eq_zero.1 hothers y hy

/-! ## The quotas -/

/-- **Capture quotas hold across stores**, from a directory within the limits on. The
    managed files are the first ones and then the commits, no two of one name, and what
    was committed stays. A call that has returned an error has no commit; one that has
    returned a success has one commit, of its bytes under its name, and reports the
    usage behind it. -/
theorem quotas_hold {dir : Directory} (hallow : limits.Allow dir.managed)
    (h : Runs Task.step (AnyMove limits) (Stores.init dir) s) :
    limits.Allow s.world.dir.managed ∧ (s.world.dir.managed.map Prod.fst).Nodup ∧
    s.world.dir.managed = dir.managed ++ s.world.commits.map Commit.file ∧
    (∀ s', Runs Task.step (AnyMove limits) s s' → s.world.commits <+: s'.world.commits) ∧
    (∀ id e, (id, .error e) ∈ s.world.answers → ∀ x ∈ s.world.commits, x.call ≠ id) ∧
    ∀ id r, (id, .ok r) ∈ s.world.answers → ∃ request root pre x post,
      s.world.calls[id]? = some request ∧ request.store.root = some root ∧
      s.world.commits = pre ++ x :: post ∧ (∀ y ∈ pre ++ post, y.call ≠ id) ∧
      x = ⟨id, .text request.name, request.bytes⟩ ∧
      r.path = root ++ "/" ++ String.ofList request.name ∧
      r.bytesWritten = request.bytes.length ∧
      r.filesUsed = (dir.managed ++ (pre ++ [x]).map Commit.file).length ∧
      r.totalBytesUsed =
        ((dir.managed ++ (pre ++ [x]).map Commit.file).map fun f => f.2.length).sum := by
  have hinv : Inv limits dir.managed s := h.invariant (J := Inv limits dir.managed)
    (fun hs hm hmove => (hs.move hm hmove).1) (.init hallow)
  refine ⟨hinv.allowed, s.world.dir.managed_names_nodup, hinv.files, fun s' h' => ?_,
    fun id e hr => hinv.no_commit (hinv.answers _ hr), fun id r hr => ?_⟩
  · have hboth : Inv limits dir.managed s' ∧ s.world.commits <+: s'.world.commits := by
      refine h'.invariant (J := fun s' => Inv limits dir.managed s' ∧
        s.world.commits <+: s'.world.commits) (fun hs hm hmove => ?_) ⟨hinv, List.prefix_rfl⟩
      have hmoved := hs.1.move hm hmove
      exact ⟨hmoved.1, hs.2.trans hmoved.2⟩
    exact hboth.2
  · obtain ⟨c, hid, hcall, usage, warning, ⟨pre, post, hcommits, husage⟩, rfl⟩ :=
      hinv.results _ (hinv.answers _ hr) r rfl
    subst husage
    have hone := hinv.one_commit hcommits
    dsimp only at hid
    subst hid
    exact ⟨c.request, c.root, pre, c.commit, post, hcall, c.enabled, hcommits, hone, rfl, rfl, rfl,
      rfl, rfl⟩

end

/-- A directory with one capture of three bytes. -/
def oneCapture : Directory where
  names := [.text "a.jsonl".toList]
  nodup := List.nodup_singleton _
  entry := fun _ => .file [1, 2, 3]

def twoFiles : CaptureLimits := ⟨4, 8, 2⟩

/-- A call of a store, for a file of four bytes. -/
def request (lock : ℕ) (name : Text) : Request :=
  ⟨⟨some "/captures", twoFiles, lock⟩, name, [1, 2, 3, 4]⟩

/-- Calls of two stores come to the advisory lock; the one that gets it first commits its
    file, and the other finds the directory full. -/
def twoStores : List (Move Task Input) :=
  let a := FileName.text "a.jsonl".toList
  [.start (.entering (request 0 "b.jsonl".toList)), .start (.entering (request 1 "c.jsonl".toList)),
    .run 0 .turn, .run 1 .turn, .run 0 .turn, .run 2 .turn] ++
  [.run 1 .turn, .run 1 (.io none), .run 3 .turn, .run 3 (.io none), .run 1 (.io none),
    .run 3 (.io none), .run 1 .turn, .run 1 (.listed [a, lockName])] ++
  List.replicate 5 (.run 1 (.io none)) ++ [.run 1 (.temp ['x'])] ++
  List.replicate 4 (.run 1 (.io none)) ++ [.run 1 .turn, .run 0 .turn] ++
  [.run 1 .turn, .run 1 (.listed [.text "b.jsonl".toList, lockName, a])] ++
  List.replicate 7 (.run 1 (.io none)) ++ [.run 1 .turn, .run 0 .turn]

theorem quotas_hold_twoStores : ∃ s,
    (Stores.init oneCapture).play Task.step twoStores = some s ∧
      s.world.answers.map (fun r => (r.1, r.2.isOk)) = [(0, true), (1, false)] ∧
      s.world.dir.managed = [(.text "a.jsonl".toList, [1, 2, 3]),
        (.text "b.jsonl".toList, [1, 2, 3, 4])] ∧
      twoFiles.Allow s.world.dir.managed := by
  have hrun : ((Stores.init oneCapture).play Task.step twoStores).map
      (fun s => (s.world.answers.map (fun r => (r.1, r.2.isOk)), s.world.dir.managed)) =
        some ([(0, true), (1, false)], [(.text "a.jsonl".toList, [1, 2, 3]),
          (.text "b.jsonl".toList, [1, 2, 3, 4])]) := by
    decide +kernel
  obtain ⟨s, hplay, heq⟩ := Option.map_eq_some_iff.1 hrun
  obtain ⟨hanswers, hmanaged⟩ := Prod.mk.inj heq
  have hmoves : ∀ m ∈ twoStores, AnyMove twoFiles (Stores.init oneCapture) m := by
    have hrequest : ∀ lock name, (Task.entering (request lock name)).Starts twoFiles :=
      fun lock name => .entering _ rfl
    simp [twoStores, AnyMove, hrequest]
  have hallow : twoFiles.Allow oneCapture.managed := by
    have hone : oneCapture.managed = [(.text "a.jsonl".toList, [1, 2, 3])] := by decide +kernel
    rw [hone]
    exact ⟨by decide, by decide, List.forall_mem_singleton.2 (by decide)⟩
  have hruns := (Runs.of_play hmoves hplay).mono fun hm => hm
  exact ⟨s, hplay, hanswers, hmanaged, (quotas_hold hallow hruns).1⟩

end SerialMcp.Captures
