/-
  How many tasks a connection has: the duplicate check and the handles of
  `start_reconnect`, against `cancel_reconnect` and `close`.

  Between its check and the entry of the handle, a `start_reconnect` is alone
  in knowing of its task.  If no two of these windows of a connection overlap,
  and the close keeps out of them, the check sees every task there is, but for
  those that were aborted and have not ended yet.

  * `Deed`, `Task.step_deed`: what one step does to the handles and the tasks;
  * `Tracked`: the invariant, and `Tracked.deed`, one case for each deed;
  * `single_task`: at most one unfinished task for a connection, and none that
    is not aborted after its close.
-/
import SerialMcp.Reconnect.World

namespace SerialMcp.Reconnect

open Tasks

/-! ## What a step does to the handles -/

/-- An unfinished task of a connection. -/
def Task.tasksOf : Task → String → ℕ
  | .reconnect _ id' _ _ _, id => if id' = id then 1 else 0
  | _, _ => 0

/-- A `start_reconnect` between its check and the entry of the handle. -/
def Task.windowsOf : Task → String → ℕ
  | .spawning id' _ _, id | .registering id' _ _, id => if id' = id then 1 else 0
  | _, _ => 0

/-- The tasks that the invariant is about. -/
def Task.isTracked : Task → Bool
  | .spawning _ _ _ | .registering _ _ _ | .reconnect _ _ _ _ _ | .aborting _ => true
  | _ => false

/-- What one step does to everything but the entries. -/
inductive Deed (w : Manager) : Task → Manager → List Task → Prop
  | quiet {t new} (entries : String → Entry) (ht : t.isTracked = false) (hnew : ∀ t' ∈ new, t'.isTracked = false) :
      Deed w t { w with entries := entries } new
  /-- the check finds no task -/
  | checks {id policy rest} (hnone : w.prune.handles id = none) :
      Deed w (.pruning id policy rest) w.prune [.spawning id policy rest]
  | prunes {id policy rest new} (hnew : ∀ t' ∈ new, t'.isTracked = false) :
      Deed w (.pruning id policy rest) w.prune new
  | spawns {id policy rest} : Deed w (.spawning id policy rest) w.spawn
      [.registering id w.spawned rest, .reconnect w.spawned id policy 0 .spawned]
  | registers {id n rest new} (hnew : ∀ t' ∈ new, t'.isTracked = false) :
      Deed w (.registering id n rest) (w.register id n) new
  | works {n id policy attempts stage attempts' stage'} (entries : String → Entry) :
      Deed w (.reconnect n id policy attempts stage) { w with entries := entries }
        [.reconnect n id policy attempts' stage']
  | finishes {n id policy attempts stage} (entries : String → Entry) :
      Deed w (.reconnect n id policy attempts stage) { w.finish n with entries := entries } []
  | cancels {id} : Deed w (.cancelEntry id) (w.abort id) []
  | unregisters {id} : Deed w (.closeEntry id) (w.unregister id) [.aborting id]
  | aborts {id new} (entries : String → Entry) (hnew : ∀ t' ∈ new, t'.isTracked = false) :
      Deed w (.aborting id) { w.abort id with entries := entries } new

section
variable {w w' : Manager} {t : Task} {i : Input} {new : List Task}

theorem Manager.poll_untracked (ids : List String) : ∀ t ∈ [w.poll ids], t.isTracked = false := by
  obtain h | ⟨_, _, h⟩ := w.poll_cases ids <;> simp [h, Task.isTracked]

theorem Deed.same (ht : t.isTracked = false) (hnew : ∀ t' ∈ new, t'.isTracked = false) : Deed w t w new :=
  .quiet w.entries ht hnew

theorem Task.step_deed (h : Task.step t i w = some (w', new)) : Deed w t w' new := by
  cases t with
  | supervisor =>
    cases i with
    | listed ids =>
      simp only [Task.step] at h
      split_ifs at h
      cases h
      exact .same rfl (w.poll_untracked ids)
    | _ => cases h
  | getting id rest =>
    cases i with
    | lock =>
      simp only [Task.step] at h
      split_ifs at h <;> cases h
      · exact .same rfl (by simp [Task.isTracked])
      · exact .same rfl (w.poll_untracked rest)
    | _ => cases h
  | pruning id policy rest =>
    cases i with
    | lock =>
      simp only [Task.step] at h
      split_ifs at h with hsome
      · cases h
        exact .prunes (w.prune.poll_untracked rest)
      · cases h
        exact .checks (by simpa using hsome)
    | _ => cases h
  | spawning id policy rest =>
    cases i with
    | go =>
      cases h
      exact .spawns
    | _ => cases h
  | registering id n rest =>
    cases i with
    | lock =>
      cases h
      exact .registers ((w.register id n).poll_untracked rest)
    | _ => cases h
  | reconnect n id policy attempts stage =>
    obtain ⟨e, next, -, heq⟩ := Manager.taskStep_work h
    rcases next with _ | ⟨attempts', stage'⟩
    · cases heq
      exact .finishes _
    · cases heq
      exact .works _
  | cancelEntry id =>
    cases i with
    | lock =>
      cases h
      exact .cancels
    | _ => cases h
  | closeEntry id =>
    cases i with
    | lock =>
      simp only [Task.step] at h
      split_ifs at h <;> cases h
      · exact .unregisters
      · exact .same rfl (by simp)
    | _ => cases h
  | aborting id =>
    cases i with
    | lock =>
      cases h
      exact .aborts _ (by simp [Task.isTracked])
    | _ => cases h
  | closing id c =>
    cases i with
    | call i =>
      simp only [Task.step, Manager.callStep, Option.map_map, Option.map_eq_some_iff] at h
      obtain ⟨⟨conn, next⟩, -, heq⟩ := h
      cases heq
      refine .quiet _ rfl ?_
      by_cases hend : next = [] <;> simp [hend, Task.isTracked]
    | _ => cases h
  | ending id =>
    cases i with
    | lock =>
      cases h
      exact .same rfl (by simp)
    | _ => cases h
  | call id c =>
    cases i with
    | call i =>
      simp only [Task.step, Manager.callStep, Option.map_map, Option.map_eq_some_iff] at h
      obtain ⟨⟨conn, next⟩, -, heq⟩ := h
      cases heq
      exact .quiet _ rfl (by simp [Task.isTracked])
    | _ => cases h
  | configure id policy =>
    cases i with
    | go =>
      cases h
      exact .quiet _ rfl (by simp)
    | _ => cases h

end

/-! ## The invariant -/

/-- A task of the connection with that handle has not finished. -/
def Running (ts : List Task) (n : ℕ) (id : String) : Prop :=
  ∃ policy attempts stage, .reconnect n id policy attempts stage ∈ ts

/-- What is known about the tasks, the windows and the handles. -/
structure Tracked (w : Manager) (ts : List Task) : Prop where
  single : ∀ id, heldBy Task.tasksOf ts id ≤ 1
  /-- windows do not overlap -/
  alone : ∀ id, heldBy Task.windowsOf ts id ≤ 1
  /-- after a check there is no task -/
  ready : ∀ id policy rest, .spawning id policy rest ∈ ts → ∀ n, ¬Running ts n id
  /-- every task is aborted, has its handle entered, or waits for that -/
  known : ∀ n id, Running ts n id →
    n ∈ w.aborted ∨ w.handles id = some n ∨ ∃ rest, .registering id n rest ∈ ts
  /-- the handle that is to be entered is that of the only task -/
  own : ∀ id m rest n, .registering id m rest ∈ ts → Running ts n id → n = m
  owner : ∀ n id id', Running ts n id → Running ts n id' → id = id'
  live : ∀ n id, Running ts n id → n < w.spawned ∧ n ∉ w.finished
  past : ∀ n ∈ w.finished, n < w.spawned
  /-- a connection that has left the registry has no task, or its close has yet
      to look for one -/
  left : ∀ id ∉ w.registered, .aborting id ∈ ts ∨
    heldBy Task.windowsOf ts id = 0 ∧ ∀ n, Running ts n id → n ∈ w.aborted

section
variable {w : Manager} {t : Task} {ts ts' : List Task} {n m : ℕ} {id id' : String}
  {policy : ReconnectPolicy} {attempts : ℕ} {stage : Stage} {rest : List String}

@[simp] theorem running_cons : Running (t :: ts) n id ↔
    (∃ policy attempts stage, t = .reconnect n id policy attempts stage) ∨ Running ts n id := by
  simp only [Running, List.mem_cons]
  constructor
  · rintro ⟨policy, attempts, stage, h | h⟩
    · exact .inl ⟨policy, attempts, stage, h.symm⟩
    · exact .inr ⟨policy, attempts, stage, h⟩
  · rintro (⟨policy, attempts, stage, h⟩ | ⟨policy, attempts, stage, h⟩)
    · exact ⟨policy, attempts, stage, .inl h.symm⟩
    · exact ⟨policy, attempts, stage, .inr h⟩

theorem tasksOf_eq_zero : heldBy Task.tasksOf ts id = 0 ↔ ∀ n, ¬Running ts n id := by
  rw [heldBy_eq_zero]
  constructor
  · rintro h n ⟨policy, attempts, stage, hmem⟩
    simpa [Task.tasksOf] using h _ hmem
  · intro h t ht
    cases t with
    | reconnect n id' policy attempts stage =>
      have hid : id' ≠ id := by
        rintro rfl
        exact h n ⟨policy, attempts, stage, ht⟩
      simp [Task.tasksOf, hid]
    | _ => rfl

theorem windowsOf_eq_zero : heldBy Task.windowsOf ts id = 0 ↔
    (∀ policy rest, .spawning id policy rest ∉ ts) ∧ ∀ n rest, .registering id n rest ∉ ts := by
  rw [heldBy_eq_zero]
  constructor
  · intro h
    refine ⟨fun policy rest hmem => ?_, fun n rest hmem => ?_⟩
    · simpa [Task.windowsOf] using h _ hmem
    · simpa [Task.windowsOf] using h _ hmem
  · rintro ⟨hspawning, hregistering⟩ t ht
    cases t with
    | spawning id' policy rest =>
      have hid : id' ≠ id := by
        rintro rfl
        exact hspawning policy rest ht
      simp [Task.windowsOf, hid]
    | registering id' n rest =>
      have hid : id' ≠ id := by
        rintro rfl
        exact hregistering n rest ht
      simp [Task.windowsOf, hid]
    | _ => rfl

theorem Tracked.perm (h : Tracked w ts)
    (hperm : (ts.filter Task.isTracked).Perm (ts'.filter Task.isTracked)) : Tracked w ts' := by
  have hmem : ∀ {t : Task}, t.isTracked = true → (t ∈ ts' ↔ t ∈ ts) := by
    intro t ht
    simpa [ht] using (hperm.mem_iff (a := t)).symm
  have hrunning : ∀ {n id}, Running ts' n id ↔ Running ts n id := by
    intro n id
    simp only [Running, hmem (t := .reconnect n id _ _ _) rfl]
  have hcount : ∀ (f : Task → String → ℕ), (∀ t id, t.isTracked = false → f t id = 0) →
      ∀ id, heldBy f ts' id = heldBy f ts id := by
    intro f hf id
    rw [← heldBy_filter (hf · id) ts', ← heldBy_filter (hf · id) ts, heldBy_perm hperm.symm]
  have htasks : ∀ id, heldBy Task.tasksOf ts' id = heldBy Task.tasksOf ts id :=
    hcount _ fun t id ht => by cases t <;> first | rfl | cases ht
  have hwindows : ∀ id, heldBy Task.windowsOf ts' id = heldBy Task.windowsOf ts id :=
    hcount _ fun t id ht => by cases t <;> first | rfl | cases ht
  obtain ⟨hsingle, halone, hready, hknown, hown, howner, hlive, hpast, hleft⟩ := h
  refine ⟨?_, ?_, ?_, ?_, ?_, ?_, ?_, hpast, ?_⟩
  · simpa only [htasks] using hsingle
  · simpa only [hwindows] using halone
  · simpa only [hmem (t := .spawning _ _ _) rfl, hrunning] using hready
  · simpa only [hmem (t := .registering _ _ _) rfl, hrunning] using hknown
  · simpa only [hmem (t := .registering _ _ _) rfl, hrunning] using hown
  · simpa only [hrunning] using howner
  · simpa only [hrunning] using hlive
  · simpa only [hmem (t := .aborting _) rfl, hwindows, hrunning] using hleft

theorem Tracked.setEntries (h : Tracked w ts) (entries : String → Entry) :
    Tracked { w with entries := entries } ts :=
  ⟨h.single, h.alone, h.ready, h.known, h.own, h.owner, h.live, h.past, h.left⟩

theorem Tracked.prune (h : Tracked w ts) : Tracked w.prune ts := by
  refine { h with known := fun n id hrun => ?_ }
  obtain haborted | hhandle | hregistering := h.known n id hrun
  · exact .inl haborted
  · have hlive := (h.live n id hrun).2
    exact .inr (.inl (by simp [Manager.prune, hhandle, hlive]))
  · exact .inr (.inr hregistering)

/-- A window opens: with no other, no aborted task and no handle, there is no task. -/
theorem Tracked.checks (h : Tracked w ts) (hnone : w.handles id = none)
    (hregistered : id ∈ w.registered) (halone : heldBy Task.windowsOf ts id = 0)
    (haborted : ∀ n, Running ts n id → n ∉ w.aborted) :
    Tracked w (.spawning id policy rest :: ts) := by
  have hnothing : ∀ n, ¬Running ts n id := by
    intro n hrun
    obtain hmem | hhandle | ⟨rest, hregistering⟩ := h.known n id hrun
    · exact haborted n hrun hmem
    · rw [hnone] at hhandle
      cases hhandle
    · exact (windowsOf_eq_zero.1 halone).2 n rest hregistering
  obtain ⟨hsingle, halone', hready, hknown, hown, howner, hlive, hpast, hleft⟩ := h
  refine ⟨?_, ?_, ?_, ?_, ?_, ?_, ?_, hpast, ?_⟩
  · simpa [Task.tasksOf] using hsingle
  · intro id'
    by_cases hid : id = id'
    · subst hid
      simp [Task.windowsOf, halone]
    · simpa [Task.windowsOf, hid] using halone' id'
  · intro id' policy' rest' hmem n
    rw [List.mem_cons] at hmem
    rcases hmem with heq | hmem
    · cases heq
      simpa using hnothing n
    · simpa using hready id' policy' rest' hmem n
  · simpa using hknown
  · simpa using hown
  · simpa using howner
  · simpa using hlive
  · intro id' hid'
    have hid : id ≠ id' := by
      rintro rfl
      exact hid' hregistered
    simpa [Task.windowsOf, hid] using hleft id' hid'

theorem Tracked.spawns (h : Tracked w (.spawning id policy rest :: ts)) :
    Tracked w.spawn (.registering id w.spawned rest ::
      .reconnect w.spawned id policy 0 .spawned :: ts) := by
  have hnothing : ∀ n, ¬Running ts n id := by simpa using h.ready id policy rest (by simp)
  have hfree := tasksOf_eq_zero.2 hnothing
  have hwindow : heldBy Task.windowsOf ts id = 0 := by
    have := h.alone id
    simp only [heldBy_cons, Task.windowsOf, ↓reduceIte] at this
    omega
  have hnew : ∀ id, ¬Running ts w.spawned id := by
    intro id hrun
    have := (h.live _ id (by simpa using hrun)).1
    omega
  obtain ⟨hsingle, halone, hready, hknown, hown, howner, hlive, hpast, hleft⟩ := h
  simp only [running_cons, reduceCtorEq, exists_false, false_or] at hknown hown howner hlive hleft
  refine ⟨?_, ?_, ?_, ?_, ?_, ?_, ?_, ?_, ?_⟩
  · intro id'
    by_cases hid : id = id'
    · subst hid
      simp [Task.tasksOf, hfree]
    · simpa [Task.tasksOf, hid] using hsingle id'
  · simpa [Task.windowsOf] using halone
  · intro id' policy' rest' hmem n
    have hmem : .spawning id' policy' rest' ∈ ts := by simpa using hmem
    have hid : id ≠ id' := by
      rintro rfl
      exact (windowsOf_eq_zero.1 hwindow).1 policy' rest' hmem
    simpa [hid] using hready id' policy' rest' (by simp [hmem]) n
  · intro n id' hrun
    simp only [running_cons, reduceCtorEq, exists_false, false_or] at hrun
    rcases hrun with ⟨_, _, _, heq⟩ | hrun
    · cases heq
      exact .inr (.inr ⟨rest, by simp⟩)
    · refine (hknown n id' hrun).imp_right (.imp_right ?_)
      rintro ⟨rest', hmem⟩
      have hmem : .registering id' n rest' ∈ ts := by simpa using hmem
      exact ⟨rest', by simp [hmem]⟩
  · intro id' m rest' n hmem hrun
    simp only [running_cons, reduceCtorEq, exists_false, false_or] at hrun
    simp only [List.mem_cons, reduceCtorEq, false_or] at hmem
    rcases hmem with heq | hmem
    · cases heq
      rcases hrun with ⟨_, _, _, heq⟩ | hrun
      · cases heq
        rfl
      · exact absurd hrun (hnothing n)
    · rcases hrun with ⟨_, _, _, heq⟩ | hrun
      · cases heq
        exact absurd hmem ((windowsOf_eq_zero.1 hwindow).2 m rest')
      · exact hown id' m rest' n (by simp [hmem]) hrun
  · intro n id₁ id₂ hrun₁ hrun₂
    simp only [running_cons, reduceCtorEq, exists_false, false_or] at hrun₁ hrun₂
    rcases hrun₁ with ⟨_, _, _, heq⟩ | hrun₁
    · cases heq
      rcases hrun₂ with ⟨_, _, _, heq⟩ | hrun₂
      · cases heq
        rfl
      · exact absurd hrun₂ (hnew id₂)
    · rcases hrun₂ with ⟨_, _, _, heq⟩ | hrun₂
      · cases heq
        exact absurd hrun₁ (hnew id₁)
      · exact howner n id₁ id₂ hrun₁ hrun₂
  · intro n id' hrun
    simp only [running_cons, reduceCtorEq, exists_false, false_or] at hrun
    rcases hrun with ⟨_, _, _, heq⟩ | hrun
    · cases heq
      exact ⟨Nat.lt_succ_self _, fun hmem => absurd (hpast _ hmem) (Nat.lt_irrefl _)⟩
    · exact ⟨Nat.lt_succ_of_lt (hlive n id' hrun).1, (hlive n id' hrun).2⟩
  · intro n hn
    exact Nat.lt_succ_of_lt (hpast n hn)
  · intro id' hid'
    by_cases hid : id = id'
    · subst hid
      simpa [Task.windowsOf] using hleft id hid'
    · simpa [Task.windowsOf, hid, Manager.spawn] using hleft id' hid'

/-- The handle is entered: the window closes. -/
theorem Tracked.registers (h : Tracked w (.registering id n rest :: ts)) :
    Tracked (w.register id n) ts := by
  have honly : ∀ m, Running ts m id → m = n :=
    fun m hrun => h.own id n rest m (by simp) (by simpa using hrun)
  obtain ⟨hsingle, halone, hready, hknown, hown, howner, hlive, hpast, hleft⟩ := h
  simp only [running_cons, reduceCtorEq, exists_false, false_or] at hready hknown hown howner hlive hleft
  refine ⟨?_, ?_, ?_, ?_, ?_, ?_, ?_, hpast, ?_⟩
  · simpa [Task.tasksOf] using hsingle
  · intro id'
    have := halone id'
    rw [heldBy_cons] at this
    omega
  · exact fun id' policy' rest' hmem => hready id' policy' rest' (by simp [hmem])
  · intro m id' hrun
    by_cases hid : id' = id
    · subst hid
      rw [honly m hrun]
      exact .inr (.inl (by simp [Manager.register]))
    · simpa [Manager.register, hid] using hknown m id' hrun
  · exact fun id' m rest' n' hmem => hown id' m rest' n' (by simp [hmem])
  · exact howner
  · exact hlive
  · intro id' hid'
    refine (hleft id' hid').imp (by simp) ?_
    rintro ⟨hwindow, haborted⟩
    rw [heldBy_cons] at hwindow
    exact ⟨by omega, haborted⟩

theorem Tracked.works {attempts' : ℕ} {stage' : Stage}
    (h : Tracked w (.reconnect n id policy attempts stage :: ts)) :
    Tracked w (.reconnect n id policy attempts' stage' :: ts) := by
  obtain ⟨hsingle, halone, hready, hknown, hown, howner, hlive, hpast, hleft⟩ := h
  refine ⟨?_, ?_, ?_, ?_, ?_, ?_, ?_, hpast, ?_⟩
  · simpa [Task.tasksOf] using hsingle
  · simpa [Task.windowsOf] using halone
  · simpa using hready
  · simpa using hknown
  · simpa using hown
  · simpa using howner
  · simpa using hlive
  · simpa [Task.windowsOf] using hleft

theorem Tracked.finishes (h : Tracked w (.reconnect n id policy attempts stage :: ts)) :
    Tracked (w.finish n) ts := by
  have hrest : ∀ {m id'}, Running ts m id' →
      Running (.reconnect n id policy attempts stage :: ts) m id' :=
    fun hrun => running_cons.2 (.inr hrun)
  have hnothing : ∀ m, ¬Running ts m id := by
    refine tasksOf_eq_zero.1 ?_
    have := h.single id
    simp only [heldBy_cons, Task.tasksOf, ↓reduceIte] at this
    omega
  -- no other task has the number of this one
  have hother : ∀ m id', Running ts m id' → m ≠ n := by
    rintro m id' hrun rfl
    have hid : id = id' := h.owner m id id' ⟨policy, attempts, stage, by simp⟩ (hrest hrun)
    subst hid
    exact hnothing m hrun
  have hnow : n < w.spawned := (h.live n id ⟨policy, attempts, stage, by simp⟩).1
  obtain ⟨hsingle, halone, hready, hknown, hown, howner, hlive, hpast, hleft⟩ := h
  refine ⟨?_, ?_, ?_, ?_, ?_, ?_, ?_, ?_, ?_⟩
  · intro id'
    have := hsingle id'
    rw [heldBy_cons] at this
    omega
  · simpa [Task.windowsOf] using halone
  · exact fun id' policy' rest' hmem m hrun =>
      hready id' policy' rest' (by simp [hmem]) m (hrest hrun)
  · intro m id' hrun
    simpa [Manager.finish] using hknown m id' (hrest hrun)
  · exact fun id' m rest' n' hmem hrun => hown id' m rest' n' (by simp [hmem]) (hrest hrun)
  · exact fun m id₁ id₂ hrun₁ hrun₂ => howner m id₁ id₂ (hrest hrun₁) (hrest hrun₂)
  · intro m id' hrun
    refine ⟨(hlive m id' (hrest hrun)).1, ?_⟩
    simpa [Manager.finish, hother m id' hrun] using (hlive m id' (hrest hrun)).2
  · intro m hm
    simp only [Manager.finish, Finset.mem_insert] at hm
    rcases hm with rfl | hm
    · exact hnow
    · exact hpast m hm
  · intro id' hid'
    refine (hleft id' hid').imp (by simp) ?_
    rintro ⟨hwindow, haborted⟩
    exact ⟨by simpa [Task.windowsOf] using hwindow, fun m hrun => haborted m (hrest hrun)⟩

/-- What `abort` does to the handles and to the aborted tasks. -/
theorem Manager.abort_eq (w : Manager) (id : String) : ∃ aborted, w.aborted ⊆ aborted ∧
    (∀ n, w.handles id = some n → n ∈ aborted) ∧
      w.abort id = { w with handles := Function.update w.handles id none, aborted := aborted } := by
  rcases hhandle : w.handles id with _ | n
  · refine ⟨w.aborted, subset_rfl, nofun, ?_⟩
    have : Function.update w.handles id none = w.handles := by
      rw [← hhandle, Function.update_eq_self]
    simp [abort, hhandle, this]
  · refine ⟨insert n w.aborted, Finset.subset_insert n w.aborted, ?_, by simp [abort, hhandle]⟩
    rintro m ⟨⟩
    exact Finset.mem_insert_self n w.aborted

/-- The task of a connection is aborted, if its handle is entered. -/
theorem Tracked.abort (h : Tracked w ts) (id : String) : Tracked (w.abort id) ts := by
  obtain ⟨aborted, hsub, hmem, heq⟩ := w.abort_eq id
  rw [heq]
  refine { h with known := fun n id' hrun => ?_, left := fun id' hid' => ?_ }
  · obtain haborted | hhandle | hregistering := h.known n id' hrun
    · exact .inl (hsub haborted)
    · by_cases hid : id' = id
      · subst hid
        exact .inl (hmem n hhandle)
      · exact .inr (.inl (by simpa [hid] using hhandle))
    · exact .inr (.inr hregistering)
  · exact (h.left id' hid').imp_right fun hl => ⟨hl.1, fun n hrun => hsub (hl.2 n hrun)⟩

theorem Tracked.unregisters (h : Tracked w ts) :
    Tracked (w.unregister id) (.aborting id :: ts) := by
  obtain ⟨hsingle, halone, hready, hknown, hown, howner, hlive, hpast, hleft⟩ := h
  refine ⟨?_, ?_, ?_, ?_, ?_, ?_, ?_, hpast, ?_⟩
  · simpa [Task.tasksOf] using hsingle
  · simpa [Task.windowsOf] using halone
  · simpa using hready
  · simpa [Manager.unregister] using hknown
  · simpa using hown
  · simpa using howner
  · simpa [Manager.unregister] using hlive
  · intro id' hid'
    by_cases hid : id' = id
    · exact .inl (by simp [hid])
    · have hreg : id' ∉ w.registered := by simpa [Manager.unregister, hid] using hid'
      simpa [Task.windowsOf, hid, Manager.unregister] using hleft id' hreg

/-- After the close has looked for a task, outside of any window. -/
theorem Tracked.aborts (h : Tracked w (.aborting id :: ts))
    (halone : heldBy Task.windowsOf ts id = 0) : Tracked (w.abort id) ts := by
  have hafter := h.abort id
  obtain ⟨hsingle, halone', hready, hknown, hown, howner, hlive, hpast, hleft⟩ := hafter
  simp only [running_cons, reduceCtorEq, exists_false, false_or] at hready hknown hown howner hlive hleft
  refine ⟨?_, ?_, ?_, ?_, ?_, howner, hlive, hpast, ?_⟩
  · simpa [Task.tasksOf] using hsingle
  · simpa [Task.windowsOf] using halone'
  · exact fun id' policy' rest' hmem => hready id' policy' rest' (by simp [hmem])
  · simpa using hknown
  · exact fun id' m rest' n' hmem => hown id' m rest' n' (by simp [hmem])
  · intro id' hid'
    by_cases hid : id' = id
    · subst hid
      refine .inr ⟨halone, fun n hrun => ?_⟩
      obtain haborted | hhandle | ⟨rest, hregistering⟩ := hknown n id' hrun
      · exact haborted
      · obtain ⟨aborted, -, -, heq⟩ := w.abort_eq id'
        rw [heq] at hhandle
        simp at hhandle
      · exact absurd (by simpa using hregistering) ((windowsOf_eq_zero.1 halone).2 n rest)
    · simpa [Task.windowsOf, hid] using hleft id' hid'

theorem Tracked.drop (h : Tracked w (t :: ts)) (ht : t.isTracked = false) : Tracked w ts := by
  refine h.perm ?_
  rw [List.filter_cons_of_neg (by simp [ht])]

theorem Tracked.add {new : List Task} (h : Tracked w ts)
    (hnew : ∀ t' ∈ new, t'.isTracked = false) : Tracked w (new ++ ts) := by
  have hnil : new.filter Task.isTracked = [] := List.filter_eq_nil_iff.2 (by simpa using hnew)
  refine h.perm ?_
  rw [List.filter_append, hnil, List.nil_append]

end

/-! ## The condition and the result -/

/-- No check for a task is passed while another `start_reconnect` is between its
    check and its handle, before an aborted task has ended, or after the close;
    and no close looks for a task while a `start_reconnect` is in between. -/
def Apart (s : Session) : Move Task Input → Prop
  | .start t => t.Starts
  | .run n _ =>
    (∀ id policy rest, s.tasks[n]? = some (.pruning id policy rest) →
      s.world.prune.handles id = none →
        id ∈ s.world.registered ∧ (∀ t ∈ s.tasks, t.windowsOf id = 0) ∧
          ∀ m, Running s.tasks m id → m ∉ s.world.aborted) ∧
    ∀ id, s.tasks[n]? = some (.aborting id) → ∀ t ∈ s.tasks, t.windowsOf id = 0

section
variable {s s' : Session} {m : Move Task Input} {registered : Finset String}
  {streams : String → Connection.Stream} {policies : String → ReconnectPolicy}

theorem Tracked.opened : Tracked (Session.opened registered streams policies).world [] where
  single _ := Nat.zero_le _
  alone _ := Nat.zero_le _
  ready := nofun
  known := nofun
  own := nofun
  owner := nofun
  live := nofun
  past := nofun
  left _ _ := .inr ⟨rfl, nofun⟩

/-- **Step**: one case for each deed. -/
theorem Tracked.move (h : Tracked s.world s.tasks) (hm : Apart s m)
    (hs : s.move Task.step m = some s') : Tracked s'.world s'.tasks := by
  obtain ⟨t, rfl, rfl⟩ | ⟨left, t, right, i, w, new, rfl, htasks, hstep, rfl⟩ := move_cases hs
  · have ht : t.isTracked = false := by
      cases t <;> first | rfl | exact hm.elim
    have hadd : Tracked s.world ([t] ++ s.tasks) := h.add (by simpa using ht)
    exact hadd.perm (List.perm_append_comm.filter _)
  · obtain ⟨hcheck, habort⟩ := hm
    have hat : s.tasks[left.length]? = some t := by simp [htasks]
    have hfirst : Tracked s.world (t :: (left ++ right)) := by
      refine h.perm (List.Perm.filter _ ?_)
      rw [htasks]
      exact List.perm_middle
    have hmem : ∀ t' ∈ left ++ right, t' ∈ s.tasks := fun _ => mem_of_other htasks
    suffices hlast : Tracked w (new ++ (left ++ right)) by
      refine hlast.perm (List.Perm.filter _ ?_)
      rw [← List.append_assoc]
      exact List.perm_append_comm.append_right right
    cases Task.step_deed hstep with
    | quiet entries ht hnew => exact ((hfirst.drop ht).setEntries entries).add hnew
    | checks hnone =>
      obtain ⟨hregistered, halone, haborted⟩ := hcheck _ _ _ hat hnone
      refine (hfirst.drop rfl).prune.checks hnone hregistered ?_ ?_
      · exact heldBy_eq_zero.2 fun t' ht' => halone t' (hmem t' ht')
      · rintro n ⟨policy', attempts, stage, hrun⟩
        exact haborted n ⟨policy', attempts, stage, hmem _ hrun⟩
    | prunes hnew => exact (hfirst.drop rfl).prune.add hnew
    | spawns => exact hfirst.spawns
    | registers hnew => exact hfirst.registers.add hnew
    | works entries => exact hfirst.works.setEntries entries
    | finishes entries => exact hfirst.finishes.setEntries entries
    | cancels => exact (hfirst.drop rfl).abort _
    | unregisters => exact (hfirst.drop rfl).unregisters
    | aborts entries hnew =>
      have halone := heldBy_eq_zero.2 fun t' ht' => habort _ hat t' (hmem t' ht')
      exact ((hfirst.aborts halone).setEntries entries).add hnew

/-- **One task, and none after the close.** In every state of a run in which the
    windows are kept apart, at most one task is unfinished for a connection; and
    once a close has taken a connection out and looked for its task, every task
    of it that has not ended is aborted. -/
theorem single_task (h : Runs Task.step Apart (Session.opened registered streams policies) s) :
    (∀ id, heldBy Task.tasksOf s.tasks id ≤ 1) ∧
      ∀ id ∉ s.world.registered, .aborting id ∉ s.tasks →
        ∀ n policy attempts stage, .reconnect n id policy attempts stage ∈ s.tasks →
          n ∈ s.world.aborted := by
  have htracked : Tracked s.world s.tasks :=
    h.invariant (J := fun s => Tracked s.world s.tasks) (fun ht hm hs => ht.move hm hs) .opened
  refine ⟨htracked.single, fun id hid hclosed n policy attempts stage hmem => ?_⟩
  obtain hin | ⟨-, haborted⟩ := htracked.left id hid
  · exact absurd hin hclosed
  · exact haborted n ⟨policy, attempts, stage, hmem⟩

end

/-- Neither spawning nor registering. -/
def Task.noWindow : Task → Bool
  | .spawning _ _ _ | .registering _ _ _ => false
  | _ => true

theorem noWindow_windowsOf {t : Task} (h : t.noWindow = true) (id : String) : t.windowsOf id = 0 := by
  cases t with
  | spawning id' policy rest => cases h
  | registering id' n rest => cases h
  | _ => rfl

/-- A test for `Apart`, in a run in which nothing is aborted before a check. -/
def apart (s : Session) : Move Task Input → Bool
  | .start t => t = .supervisor || t = .call "c" (.markEntry "EIO") || t = .closeEntry "c"
  | .run n _ => match s.tasks[n]? with
    | some (.pruning id _ _) =>
      id ∈ s.world.registered && s.world.aborted = ∅ && s.tasks.all Task.noWindow
    | some (.aborting _) => s.tasks.all Task.noWindow
    | _ => true

theorem apart_apart {s : Session} {m : Move Task Input} (h : apart s m = true) : Apart s m := by
  have hwindow : s.tasks.all Task.noWindow = true → ∀ id, ∀ t ∈ s.tasks, t.windowsOf id = 0 :=
    fun hall id t ht => noWindow_windowsOf (List.all_eq_true.1 hall t ht) id
  cases m with
  | start t =>
    simp only [apart, Bool.or_eq_true, decide_eq_true_eq] at h
    rcases h with (rfl | rfl) | rfl <;> trivial
  | run n i =>
    refine ⟨fun id policy rest hat _ => ?_, fun id hat => ?_⟩
    · simp only [apart, hat, Bool.and_eq_true, decide_eq_true_eq] at h
      obtain ⟨⟨hregistered, haborted⟩, hall⟩ := h
      exact ⟨hregistered, hwindow hall id, by simp [haborted]⟩
    · simp only [apart, hat] at h
      exact hwindow h id

/-- A task is spawned, and the connection is closed. -/
def pollAndClose : List (Move Task Input) :=
  portFails ++ [.run 0 (.listed ["c"]), .run 0 .lock, .run 0 .lock, .run 0 .go, .run 0 .lock,
    .start (.closeEntry "c"), .run 2 .lock, .run 2 .lock]

theorem single_task_closed : ∃ s, oneAttempt.play Task.step pollAndClose = some s ∧
    heldBy Task.tasksOf s.tasks "c" = 1 ∧ heldBy Task.tasksOf s.tasks "c" ≤ 1 ∧
      0 ∈ s.world.aborted := by
  obtain ⟨s, hif, hplay, hone, hregistered, htasks⟩ : ∃ s,
      oneAttempt.playIf Task.step apart pollAndClose = some s ∧
        oneAttempt.play Task.step pollAndClose = some s ∧ heldBy Task.tasksOf s.tasks "c" = 1 ∧
          s.world.registered = ∅ ∧ s.tasks = [.supervisor,
            .reconnect 0 "c" { enabled := true, maxAttempts := 1 } 0 .spawned,
            .closing "c" .closeEntry] :=
    ⟨_, rfl, rfl, rfl, by decide, rfl⟩
  obtain ⟨hsingle, hleft⟩ := single_task (.of_playIf apart_apart hif)
  refine ⟨s, hplay, hone, hsingle "c", ?_⟩
  exact hleft "c" (by simp [hregistered]) (by simp [htasks]) 0 { enabled := true, maxAttempts := 1 }
    0 .spawned (by simp [htasks])

/-- Two supervisors look for a task before either has entered its handle, and
    then the connection is closed. -/
def pollTwiceAndClose : List (Move Task Input) :=
  portFails ++ [.start .supervisor, .run 0 (.listed ["c"]), .run 1 (.listed ["c"]), .run 0 .lock,
    .run 1 .lock, .run 0 .lock, .run 1 .lock, .run 0 .go, .run 2 .go, .run 0 .lock, .run 2 .lock,
    .start (.closeEntry "c"), .run 4 .lock, .run 4 .lock, .run 4 (.call .go),
    .run 4 (.call (.cleared (.ok ()))), .run 4 .lock]

/-- **Two tasks**, and one of them after the close: it finds only the handle that
    was entered last. -/
theorem tasks_doubled :
    ¬∀ (registered : Finset String) (streams : String → Connection.Stream)
      (policies : String → ReconnectPolicy) (s : Session),
      Runs Task.step AnyMove (Session.opened registered streams policies) s →
      (∀ id, heldBy Task.tasksOf s.tasks id ≤ 1) ∨
        ∀ id ∉ s.world.registered, .aborting id ∉ s.tasks →
          ∀ n policy attempts stage, .reconnect n id policy attempts stage ∈ s.tasks →
            n ∈ s.world.aborted := by
  intro h
  obtain ⟨s, hplay, htwo, hregistered, haborted, htasks⟩ : ∃ s,
      oneAttempt.play Task.step pollTwiceAndClose = some s ∧ heldBy Task.tasksOf s.tasks "c" = 2 ∧
        s.world.registered = ∅ ∧ s.world.aborted = {1} ∧ s.tasks = [.supervisor,
          .reconnect 0 "c" { enabled := true, maxAttempts := 1 } 0 .spawned, .supervisor,
          .reconnect 1 "c" { enabled := true, maxAttempts := 1 } 0 .spawned] :=
    ⟨_, rfl, rfl, by decide, by decide, rfl⟩
  have hrun : Runs Task.step AnyMove oneAttempt s := by
    refine (Runs.of_play (D := AnyMove oneAttempt) ?_ hplay).mono fun hm => hm
    simp [pollTwiceAndClose, portFails, AnyMove, Task.Starts, Connection.Task.Starts]
  rcases h {"c"} (fun _ => ⟨0⟩) (fun _ => { enabled := true, maxAttempts := 1 }) s hrun with
    hsingle | hleft
  · have := hsingle "c"
    omega
  · have := hleft "c" (by simp [hregistered]) (by simp [htasks]) 0
      { enabled := true, maxAttempts := 1 } 0 .spawned (by simp [htasks])
    simp [haborted] at this

end SerialMcp.Reconnect
