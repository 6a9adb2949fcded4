/-
  The shared buffer budget (`buffer_budget.rs`): a pool of bytes from which
  tools and RX rings reserve, without a lock.

  `try_reserve` loads the pool and exchanges it for a smaller value if it is
  still what was loaded, and starts again if not; a dropped reservation adds
  its bytes back.  Any number of calls and drops run at once.

  * `AtomicBudget.tryReserve`: the call on its own, and `play_tryReserve`: the
    loop gives this result when nothing comes between its two accesses;
  * `Task.step_effect`: what one atomic step may do to the pool;
  * `budget_conserved`: at every point of every run the pool and the outstanding
    reservations make up the program limit, and a call that is not granted a
    reservation never touches the pool.
-/
import Mathlib.Algebra.Order.BigOperators.Group.List
import Mathlib.Algebra.Order.Group.Nat
import SerialMcp.Lib.Tasks
import SerialMcp.RxRing

namespace SerialMcp.Budget

open Tasks

/-! ## The pool -/

/-- `BufferBudgetError` -/
inductive BufferBudgetError where
  | overToolLimit (requested toolLimit : ℕ)
  | zeroRequest
  | insufficientProgramBudget (requested available : ℕ)
  deriving DecidableEq, Repr

/-- The two limits, as `AtomicBudget::new` accepts them. -/
structure Limits where
  programLimit : ℕ
  toolLimit : ℕ
  program_pos : 0 < programLimit
  tool_pos : 0 < toolLimit
  tool_le : toolLimit ≤ programLimit
  /-- a `usize` -/
  program_lt : programLimit < u64Size

structure AtomicBudget where
  limits : Limits
  available : ℕ

/-- `AtomicBudget::new` -/
def AtomicBudget.new (limits : Limits) : AtomicBudget := ⟨limits, limits.programLimit⟩

/-- The checks of `try_reserve` in front of its loop. -/
def Limits.check (l : Limits) (bytes : ℕ) : Except BufferBudgetError Unit :=
  if bytes = 0 then .error .zeroRequest
  else if l.toolLimit < bytes then .error (.overToolLimit bytes l.toolLimit)
  else .ok ()

/-- `try_reserve` as one step: the budget after it. -/
def AtomicBudget.tryReserve (b : AtomicBudget) (bytes : ℕ) :
    Except BufferBudgetError AtomicBudget := do
  b.limits.check bytes
  if b.available < bytes then throw (.insufficientProgramBudget bytes b.available)
  return { b with available := b.available - bytes }

/-- `fetch_add` -/
def AtomicBudget.giveBack (b : AtomicBudget) (bytes : ℕ) : AtomicBudget :=
  { b with available := wrappingAdd b.available bytes }

/-! ## Calls and reservations -/

/-- `AtomicReservation` -/
structure AtomicReservation where
  bytes : ℕ
  released : Bool
  deriving DecidableEq, Repr

/-- A call of `try_reserve` at its next atomic access, and what became of it. -/
inductive Task where
  | entry (bytes : ℕ)
  /-- at the top of the loop -/
  | loading (bytes : ℕ)
  /-- with what it loaded -/
  | exchanging (bytes current : ℕ)
  | failed (bytes : ℕ) (error : BufferBudgetError)
  | reserved (reservation : AtomicReservation)
  /-- dropped, behind the swap of `released` -/
  | returning (reservation : AtomicReservation)
  deriving DecidableEq, Repr

/-- What happens to a task. -/
inductive Input where
  /-- its next atomic access -/
  | go
  /-- the reservation is dropped -/
  | drop
  deriving DecidableEq, Repr

/-- One atomic step: the budget after it, and what goes on in the task's place. -/
def Task.step : Task → Input → AtomicBudget → Option (AtomicBudget × List Task)
  | .entry bytes, .go, b =>
    match b.limits.check bytes with
    | .error e => some (b, [.failed bytes e])
    | .ok () => some (b, [.loading bytes])
  | .loading bytes, .go, b =>
    if b.available < bytes then
      some (b, [.failed bytes (.insufficientProgramBudget bytes b.available)])
    else some (b, [.exchanging bytes b.available])
  | .exchanging bytes current, .go, b =>
    if b.available = current then
      some ({ b with available := current - bytes }, [.reserved ⟨bytes, false⟩])
    -- a concurrent update won
    else some (b, [.loading bytes])
  | .reserved r, .drop, b =>
    if r.released then some (b, []) else some (b, [.returning { r with released := true }])
  | .returning r, .go, b => some (b.giveBack r.bytes, [])
  | _, _, _ => none

/-- The budget with the calls in progress and the reservations that are held. -/
abbrev Pool : Type := State AtomicBudget Task

def Pool.new (limits : Limits) : Pool := ⟨.new limits, []⟩

/-- Any number of calls, in any order of their atomic steps. -/
def AnyMove : Move Task Input → Prop
  | .start t => ∃ bytes, t = .entry bytes
  | .run _ _ => True

/-! ## What a step does -/

/-- The bytes of a reservation that was granted and has not been given back. -/
def Task.outstanding : Task → ℕ
  | .reserved r => if r.released then 0 else r.bytes
  | .returning r => r.bytes
  | _ => 0

/-- What a task keeps up: a size within the limits behind the checks, a loaded
    value that suffices, and a reservation that is dropped once. -/
def Task.Sized (l : Limits) : Task → Prop
  | .loading bytes => 0 < bytes ∧ bytes ≤ l.toolLimit
  | .exchanging bytes current => (0 < bytes ∧ bytes ≤ l.toolLimit) ∧ bytes ≤ current
  | .reserved r => (0 < r.bytes ∧ r.bytes ≤ l.toolLimit) ∧ r.released = false
  | .returning r => 0 < r.bytes ∧ r.bytes ≤ l.toolLimit
  | _ => True

/-- A call that has not been answered. -/
def Task.Calling : Task → Prop
  | .entry _ | .loading _ | .exchanging _ _ => True
  | _ => False

theorem Limits.check_eq_ok {l : Limits} {bytes : ℕ} :
    l.check bytes = .ok () ↔ 0 < bytes ∧ bytes ≤ l.toolLimit := by
  unfold check
  split_ifs with hzero hover
  · simp [hzero]
  · simp only [false_iff]
    omega
  · simp only [true_iff]
    omega

/-- The four things a step may do. -/
inductive Effect (b : AtomicBudget) (t : Task) : AtomicBudget → List Task → Prop
  /-- the pool is left alone, and nothing is granted or given back -/
  | quiet {new} (hsized : ∀ t' ∈ new, t'.Sized b.limits)
      (hkept : (new.map Task.outstanding).sum = t.outstanding) : Effect b t b new
  /-- a reservation is granted -/
  | granted {bytes} (hcall : t.Calling) (hout : t.outstanding = 0) (hle : bytes ≤ b.available)
      (hpos : 0 < bytes) (htool : bytes ≤ b.limits.toolLimit) :
      Effect b t { b with available := b.available - bytes } [.reserved ⟨bytes, false⟩]
  /-- a reservation is given back -/
  | returned (r : AtomicReservation) (ht : t = .returning r) : Effect b t (b.giveBack r.bytes) []

section
variable {b b' : AtomicBudget} {t : Task} {i : Input} {new : List Task}

theorem Task.step_effect (h : Task.step t i b = some (b', new)) (ht : t.Sized b.limits) :
    Effect b t b' new := by
  cases t with
  | entry bytes =>
    cases i with
    | go =>
      simp only [Task.step] at h
      rcases hc : b.limits.check bytes with e | _
      · rw [hc] at h
        cases h
        exact .quiet (by simp [Sized]) rfl
      · rw [hc] at h
        cases h
        exact .quiet (by simpa [Sized] using Limits.check_eq_ok.1 hc) rfl
    | drop => cases h
  | loading bytes =>
    cases i with
    | go =>
      simp only [Task.step] at h
      split_ifs at h with hlt
      · cases h
        exact .quiet (by simp [Sized]) rfl
      · cases h
        refine .quiet ?_ rfl
        simpa [Sized] using And.intro ht (Nat.le_of_not_lt hlt)
    | drop => cases h
  | exchanging bytes current =>
    obtain ⟨⟨hpos, htool⟩, hle⟩ := ht
    cases i with
    | go =>
      simp only [Task.step] at h
      split_ifs at h with heq
      · cases h
        subst heq
        exact .granted trivial rfl hle hpos htool
      · cases h
        exact .quiet (by simpa [Sized] using ⟨hpos, htool⟩) rfl
    | drop => cases h
  | failed bytes e => cases i <;> cases h
  | reserved r =>
    cases i with
    | go => cases h
    | drop =>
      simp only [Task.step, ht.2, Bool.false_eq_true, if_false] at h
      cases h
      exact .quiet (by simpa [Sized] using ht.1) (by simp [outstanding, ht.2])
  | returning r =>
    cases i with
    | go =>
      cases h
      exact .returned r rfl
    | drop => cases h

end


/-! ## Runs -/

/-- What every run keeps up. -/
structure Conserved (l : Limits) (s : Pool) : Prop where
  limits : s.world.limits = l
  total : s.world.available + (s.tasks.map Task.outstanding).sum = l.programLimit
  sized : ∀ t ∈ s.tasks, t.Sized l

section
variable {l : Limits} {s s' : Pool} {m : Move Task Input} {t : Task} {i : Input} {n : ℕ}

theorem Conserved.new (l : Limits) : Conserved l (Pool.new l) where
  limits := rfl
  total := rfl
  sized _ ht := by cases ht

theorem Conserved.outstanding_le (h : Conserved l s) (ht : t ∈ s.tasks) :
    s.world.available + t.outstanding ≤ l.programLimit := by
  have hmem := List.le_sum_of_mem (List.mem_map_of_mem (f := Task.outstanding) ht)
  have htotal := h.total
  omega

/-- **Step**: the pool and the reservations still make up the limit. -/
theorem Conserved.move (h : Conserved l s) (hm : AnyMove m) (hs : s.move Task.step m = some s') :
    Conserved l s' := by
  obtain ⟨t, rfl, rfl⟩ | ⟨left, t, right, i, b, new, rfl, htasks, hstep, rfl⟩ := move_cases hs
  · obtain ⟨bytes, rfl⟩ := hm
    refine ⟨h.limits, ?_, ?_⟩
    · simpa [Task.outstanding] using h.total
    · exact List.forall_mem_append.2 ⟨h.sized, List.forall_mem_singleton.2 trivial⟩
  · have ht : t ∈ s.tasks := by simp [htasks]
    have hout := h.outstanding_le ht
    have htotal := h.total
    have hsized {new : List Task} (hnew : ∀ t' ∈ new, t'.Sized l) :
        ∀ t' ∈ left ++ new ++ right, t'.Sized l :=
      forall_replaced htasks h.sized (fun _ _ ht' => ht') hnew
    simp only [htasks, List.map_append, List.map_cons, List.sum_append, List.sum_cons] at htotal
    cases Task.step_effect hstep (h.limits ▸ h.sized t ht) with
    | quiet hnew hkept =>
      refine ⟨h.limits, ?_, hsized (h.limits ▸ hnew)⟩
      simp only [List.map_append, List.sum_append]
      omega
    | @granted bytes hcall hzero hle hpos htool =>
      refine ⟨h.limits, ?_, hsized ?_⟩
      · simp only [List.map_append, List.sum_append, List.map_cons, List.map_nil, List.sum_cons,
          List.sum_nil, Task.outstanding, Bool.false_eq_true, if_false]
        omega
      · simp only [List.mem_singleton, forall_eq, Task.Sized, and_true]
        exact ⟨hpos, h.limits ▸ htool⟩
    | returned r hr =>
      subst hr
      simp only [Task.outstanding] at hout htotal
      have hwrap : (s.world.giveBack r.bytes).available = s.world.available + r.bytes :=
        wrappingAdd_eq (by have := l.program_lt; omega)
      refine ⟨h.limits, ?_, hsized (by simp)⟩
      simp only [hwrap, List.map_append, List.sum_append, List.map_nil, List.sum_nil]
      omega

/-- **Run**: it is so at every point of every run. -/
theorem Conserved.runs (h : Conserved l s) (hr : Runs Task.step (fun _ m => AnyMove m) s s') :
    Conserved l s' :=
  hr.invariant (J := Conserved l) Conserved.move h

/-- A call in progress leaves the pool alone until it is granted a reservation. -/
theorem Conserved.calling (h : Conserved l s) (ht : s.tasks[n]? = some t) (hcall : t.Calling)
    (hs : s.move Task.step (.run n i) = some s') :
    s'.world = s.world ∨ ∃ bytes ≤ s.world.available,
      s'.world = { s.world with available := s.world.available - bytes } ∧
        s'.tasks[n]? = some (.reserved ⟨bytes, false⟩) := by
  obtain ⟨t', hm, -⟩ | ⟨left, t', right, i', b, new, hm, htasks, hstep, rfl⟩ := move_cases hs
  · cases hm
  · cases hm
    obtain rfl : t' = t := by simpa [htasks] using ht
    cases Task.step_effect hstep (h.limits ▸ h.sized t' (by simp [htasks])) with
    | quiet _ _ => exact .inl rfl
    | @granted bytes _ _ hle _ _ => exact .inr ⟨bytes, hle, rfl, by simp⟩
    | returned r hr =>
      subst hr
      exact hcall.elim

/-- **Conservation.** At every point of every run, the pool and the reservations
    that have been granted and not given back make up the program limit; every
    reservation is within the tool limit and fits back into the pool; and a
    call that is in progress changes nothing unless it is granted its bytes. -/
theorem budget_conserved (h : Runs Task.step (fun _ m => AnyMove m) (Pool.new l) s) :
    s.world.available + (s.tasks.map Task.outstanding).sum = l.programLimit ∧
      s.world.available ≤ l.programLimit ∧
      (∀ r, .reserved r ∈ s.tasks → 0 < r.bytes ∧ r.bytes ≤ l.toolLimit) ∧
      (∀ r, .returning r ∈ s.tasks → s.world.available + r.bytes ≤ l.programLimit) ∧
      ∀ n t i s', s.tasks[n]? = some t → t.Calling → s.move Task.step (.run n i) = some s' →
        s'.world = s.world ∨ ∃ bytes ≤ s.world.available,
          s'.world = { s.world with available := s.world.available - bytes } ∧
            s'.tasks[n]? = some (.reserved ⟨bytes, false⟩) := by
  have hc := (Conserved.new l).runs h
  have htotal := hc.total
  refine ⟨htotal, by omega, ?_, ?_, ?_⟩
  · intro r hr
    exact (hc.sized _ hr).1
  · intro r hr
    exact hc.outstanding_le hr
  · intro n t i s' ht hcall hs
    exact hc.calling ht hcall hs

end

/-- Two calls that load the same value: the second exchange fails, and so does
    the call, as the pool has become too small. -/
theorem budget_conserved_contended : ∃ (l : Limits) (s : Pool),
    s.tasks = [.reserved ⟨6, false⟩, .failed 6 (.insufficientProgramBudget 6 4)] ∧
      s.world.available + (s.tasks.map Task.outstanding).sum = l.programLimit := by
  let l : Limits := ⟨10, 8, by decide, by decide, by decide, by decide⟩
  obtain ⟨ms, s, hmoves, hplay, htasks⟩ : ∃ ms s, (∀ m ∈ ms, AnyMove m) ∧
      (Pool.new l).play Task.step ms = some s ∧
        s.tasks = [.reserved ⟨6, false⟩, .failed 6 (.insufficientProgramBudget 6 4)] :=
    ⟨[.start (.entry 6), .start (.entry 6), .run 0 .go, .run 1 .go, .run 0 .go, .run 1 .go,
      .run 0 .go, .run 1 .go, .run 1 .go], _, by simp [AnyMove], rfl, rfl⟩
  exact ⟨l, s, htasks, (budget_conserved (Runs.of_play hmoves hplay)).1⟩

/-! ## A call on its own -/

theorem AtomicBudget.tryReserve_eq_ok {b b' : AtomicBudget} {bytes : ℕ}
    (h : b.tryReserve bytes = .ok b') :
    bytes ≤ b.available ∧ b' = { b with available := b.available - bytes } := by
  rcases hc : b.limits.check bytes with e | _
  · simp [tryReserve, hc, bind, Except.bind] at h
  · rcases Nat.lt_or_ge b.available bytes with hlt | hle
    · simp [tryReserve, hc, bind, Except.bind, hlt, throw, throwThe, MonadExceptOf.throw] at h
    · simp only [tryReserve, hc, bind, Except.bind, Nat.not_lt.2 hle, ↓reduceIte, pure,
        Except.pure, Except.ok.injEq] at h
      exact ⟨hle, h.symm⟩

theorem AtomicBudget.tryReserve_eq_error {b : AtomicBudget} {bytes : ℕ} (hpos : 0 < bytes) :
    (∃ e, b.tryReserve bytes = .error e) ↔ b.limits.toolLimit < bytes ∨ b.available < bytes := by
  have hne : bytes ≠ 0 := by omega
  by_cases htool : b.limits.toolLimit < bytes
  · simp [tryReserve, Limits.check, hne, htool, bind, Except.bind]
  · by_cases hlt : b.available < bytes
    · simp [tryReserve, Limits.check, hne, htool, hlt, bind, Except.bind, throw, throwThe,
        MonadExceptOf.throw]
    · simp [tryReserve, Limits.check, hne, htool, hlt, bind, Except.bind, pure, Except.pure]

theorem AtomicBudget.giveBack_eq {b : AtomicBudget} {bytes : ℕ}
    (h : b.available + bytes < u64Size) :
    b.giveBack bytes = { b with available := b.available + bytes } := by
  rw [giveBack, wrappingAdd_eq h]

/-- The task in which an answered call ends. -/
def Task.answer (bytes : ℕ) : Except BufferBudgetError AtomicBudget → Task
  | .error e => .failed bytes e
  | .ok _ => .reserved ⟨bytes, false⟩

/-- **`tryReserve` is the loop** of a call whose accesses nothing comes between:
    at most three steps, one turn. -/
theorem play_tryReserve (b : AtomicBudget) (bytes : ℕ) : ∃ k ≤ 3,
    State.play Task.step ⟨b, [.entry bytes]⟩ (List.replicate k (.run 0 .go)) =
      some ⟨(b.tryReserve bytes).toOption.getD b, [.answer bytes (b.tryReserve bytes)]⟩ := by
  rcases hc : b.limits.check bytes with e | _
  · refine ⟨1, by omega, ?_⟩
    simp [State.play, State.move, Task.step, hc, AtomicBudget.tryReserve, Task.answer, bind,
      Except.bind, Except.toOption]
  · rcases Nat.lt_or_ge b.available bytes with hlt | hle
    · refine ⟨2, by omega, ?_⟩
      simp [State.play, State.move, Task.step, hc, AtomicBudget.tryReserve, Task.answer, bind,
        Except.bind, Except.toOption, hlt, throw, throwThe, MonadExceptOf.throw]
    · refine ⟨3, le_refl 3, ?_⟩
      simp [State.play, State.move, Task.step, hc, AtomicBudget.tryReserve, Task.answer, bind,
        Except.bind, Except.toOption, Nat.not_lt.2 hle, pure, Except.pure]

end SerialMcp.Budget
