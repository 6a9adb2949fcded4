/-
  Tasks that share a state and may hold resources of it.

  A task takes one step at a time, on an input that the scheduler or the
  outside world chooses (its turn, the result of a call it waits for, or that
  its future is dropped).  After a step it is replaced by the tasks that go on
  in its place: none if it has ended, itself at its next stop, a task it spawned.

  * `State.move`: one step of the whole system, as a function of the move;
  * `Runs`: the runs whose moves all meet a condition, with the invariant rule
    `Runs.invariant`;
  * `forall_replaced`: what every task has, and a step leaves to the others;
  * `Balanced`: what the shared state has booked for a resource is what the
    tasks hold of it; `Balanced.move` keeps it up, one task at a time; so do
    `Covered.move` and `Within.move` for bounds on what the tasks hold;
  * `Conserved`: what the tasks hold and what the shared state has used up are
    all there is, with `Conserved.move`; `Backed`, when what is booked has been
    used up or is held.
-/
import Mathlib.Data.List.Basic
import Mathlib.Tactic.Common

namespace Tasks

variable {W T I K : Type}

/-- The shared state and the tasks in progress. -/
structure State (W T : Type) where
  world : W
  tasks : List T

/-- A new task, or an input for the task at a position. -/
inductive Move (T I : Type) where
  | start (t : T)
  | run (n : ℕ) (i : I)

section
variable (step : T → I → W → Option (W × List T))

/-- One step of the system, if the task at the position can take it. -/
def State.move (s : State W T) : Move T I → Option (State W T)
  | .start t => some ⟨s.world, s.tasks ++ [t]⟩
  | .run n i => s.tasks[n]?.bind fun t => (step t i s.world).map fun r =>
      ⟨r.1, s.tasks.take n ++ r.2 ++ s.tasks.drop (n + 1)⟩

/-- The runs whose moves all meet the condition `C`. -/
inductive Runs (C : State W T → Move T I → Prop) : State W T → State W T → Prop
  | refl {s} : Runs C s s
  | tail {s s' s'' m} : Runs C s s' → C s' m → s'.move step m = some s'' → Runs C s s''

/-- Make the moves one after another. -/
def State.play (s : State W T) : List (Move T I) → Option (State W T)
  | [] => some s
  | m :: ms => (s.move step m).bind fun s' => s'.play ms

/-- The same, as long as the moves pass a test. -/
def State.playIf (test : State W T → Move T I → Bool) (s : State W T) :
    List (Move T I) → Option (State W T)
  | [] => some s
  | m :: ms => if test s m then (s.move step m).bind fun s' => s'.playIf test ms else none

end

variable {step : T → I → W → Option (W × List T)} {C : State W T → Move T I → Prop}
  {s s' s'' : State W T}

theorem Runs.trans (h : Runs step C s s') (h' : Runs step C s' s'') : Runs step C s s'' := by
  induction h' with
  | refl => exact h
  | tail _ hC hm ih => exact .tail ih hC hm

/-- What holds at first and is kept by every move holds throughout. -/
theorem Runs.invariant {J : State W T → Prop}
    (hstep : ∀ {s s' m}, J s → C s m → s.move step m = some s' → J s')
    (h : Runs step C s s') (hs : J s) : J s' := by
  induction h with
  | refl => exact hs
  | tail _ hC hm ih => exact hstep ih hC hm

theorem Runs.mono {C' : State W T → Move T I → Prop} (hC : ∀ {s m}, C s m → C' s m)
    (h : Runs step C s s') : Runs step C' s s' := by
  induction h with
  | refl => exact .refl
  | tail _ hm hmove ih => exact .tail ih (hC hm) hmove

theorem Runs.of_play {D : Move T I → Prop} {ms : List (Move T I)} (hms : ∀ m ∈ ms, D m)
    (h : s.play step ms = some s') : Runs step (fun _ m => D m) s s' := by
  induction ms generalizing s with
  | nil =>
    cases h
    exact .refl
  | cons m ms ih =>
    simp only [State.play, Option.bind_eq_some_iff] at h
    obtain ⟨s₁, hm, h⟩ := h
    have hfirst : Runs step (fun _ m => D m) s s₁ := .tail .refl (hms m (by simp)) hm
    exact hfirst.trans (ih (fun m' hm' => hms m' (by simp [hm'])) h)

theorem Runs.of_playIf {test : State W T → Move T I → Bool} {ms : List (Move T I)}
    (htest : ∀ {s m}, test s m = true → C s m) (h : s.playIf step test ms = some s') :
    Runs step C s s' := by
  induction ms generalizing s with
  | nil =>
    cases h
    exact .refl
  | cons m ms ih =>
    rw [State.playIf] at h
    split_ifs at h with hm
    rw [Option.bind_eq_some_iff] at h
    obtain ⟨s₁, hmove, h⟩ := h
    have hfirst : Runs step C s s₁ := .tail .refl (htest hm) hmove
    exact hfirst.trans (ih h)

/-- **What a move does**: a new task comes last, or one task of the list takes a
    step and is replaced. -/
theorem move_cases {m : Move T I} (h : s.move step m = some s') :
    (∃ t, m = .start t ∧ s' = ⟨s.world, s.tasks ++ [t]⟩) ∨
    ∃ l t r i w new, m = .run l.length i ∧ s.tasks = l ++ t :: r ∧
      step t i s.world = some (w, new) ∧ s' = ⟨w, l ++ new ++ r⟩ := by
  cases m with
  | start t => exact .inl ⟨t, rfl, (Option.some.inj h).symm⟩
  | run n i =>
    simp only [State.move, Option.bind_eq_some_iff, Option.map_eq_some_iff] at h
    obtain ⟨t, ht, ⟨w, new⟩, hstep, rfl⟩ := h
    obtain ⟨hn, rfl⟩ := List.getElem?_eq_some_iff.1 ht
    refine .inr ⟨s.tasks.take n, s.tasks[n], s.tasks.drop (n + 1), i, w, new, ?_, ?_, hstep, rfl⟩
    · rw [List.length_take_of_le (Nat.le_of_lt hn)]
    · rw [List.getElem_cons_drop, List.take_append_drop]

theorem move_run {l r new : List T} {t : T} {i : I} {w : W} (htasks : s.tasks = l ++ t :: r)
    (h : step t i s.world = some (w, new)) :
    s.move step (.run l.length i) = some ⟨w, l ++ new ++ r⟩ := by
  obtain ⟨world, tasks⟩ := s
  subst htasks
  simp [State.move, h]

/-! ## Every task -/

section
variable {ts l r new : List T} {t t' : T}

theorem mem_of_other (htasks : ts = l ++ t :: r) (h : t' ∈ l ++ r) : t' ∈ ts := by
  rw [htasks, List.mem_append, List.mem_cons]
  exact (List.mem_append.1 h).imp_right .inr

/-- What every task has, every task has behind a step: the others keep it, and what
    goes on in the place of the one that took the step gets it. -/
theorem forall_replaced {P Q : T → Prop} (htasks : ts = l ++ t :: r) (h : ∀ t' ∈ ts, P t')
    (hkeep : ∀ t' ∈ l ++ r, P t' → Q t') (hnew : ∀ t' ∈ new, Q t') :
    ∀ t' ∈ l ++ new ++ r, Q t' := by
  have hothers : ∀ t' ∈ l ++ r, Q t' := fun t' ht' =>
    hkeep t' ht' (h t' (mem_of_other htasks ht'))
  rw [List.forall_mem_append] at hothers
  rw [List.forall_mem_append, List.forall_mem_append]
  exact ⟨⟨hothers.1, hnew⟩, hothers.2⟩

end

/-! ## Resources -/

section
variable (held : T → K → ℕ)

/-- What some tasks hold of a resource. -/
def heldBy : List T → K → ℕ
  | [], _ => 0
  | t :: ts, k => held t k + heldBy ts k

/-- The shared state has booked exactly what the tasks hold. -/
def Balanced (booked : W → K → ℕ) (s : State W T) : Prop :=
  ∀ k, booked s.world k = heldBy held s.tasks k

end

variable {held : T → K → ℕ} {booked : W → K → ℕ}

@[simp] theorem heldBy_nil (k : K) : heldBy held [] k = 0 := rfl

@[simp] theorem heldBy_cons (t : T) (ts : List T) (k : K) :
    heldBy held (t :: ts) k = held t k + heldBy held ts k := rfl

@[simp] theorem heldBy_append (ts ts' : List T) (k : K) :
    heldBy held (ts ++ ts') k = heldBy held ts k + heldBy held ts' k := by
  induction ts with
  | nil => simp
  | cons t ts ih => simp [ih, Nat.add_assoc]

theorem heldBy_eq_zero {ts : List T} {k : K} : heldBy held ts k = 0 ↔ ∀ t ∈ ts, held t k = 0 := by
  induction ts with
  | nil => simp
  | cons t ts ih => simp [ih]

theorem heldBy_perm {ts ts' : List T} (h : ts.Perm ts') (k : K) :
    heldBy held ts k = heldBy held ts' k := by
  induction h with
  | nil => rfl
  | cons t _ ih => simp [ih]
  | swap t t' ts => simp [Nat.add_left_comm]
  | trans _ _ ih ih' => exact ih.trans ih'

theorem heldBy_filter {p : T → Bool} {k : K} (h : ∀ t, p t = false → held t k = 0) (ts : List T) :
    heldBy held (ts.filter p) k = heldBy held ts k := by
  induction ts with
  | nil => rfl
  | cons t ts ih =>
    by_cases hp : p t
    · simp [hp, ih]
    · simp [hp, ih, h t]

theorem heldBy_set {ts : List T} {n : ℕ} {t : T} (h : ts[n]? = some t) (t' : T) (k : K) :
    heldBy held (ts.set n t') k + held t k = heldBy held ts k + held t' k := by
  induction ts generalizing n with
  | nil => simp at h
  | cons t₁ ts ih =>
    cases n with
    | zero =>
      cases h
      simp only [List.set_cons_zero, heldBy_cons]
      omega
    | succ n =>
      have hrest := ih h
      simp only [List.set_cons_succ, heldBy_cons]
      omega

theorem held_le {ts : List T} {t : T} (ht : t ∈ ts) (k : K) : held t k ≤ heldBy held ts k := by
  obtain ⟨l, r, rfl⟩ := List.append_of_mem ht
  rw [heldBy_append, heldBy_cons]
  omega

theorem Balanced.le (h : Balanced held booked s) {t : T} (ht : t ∈ s.tasks) (k : K) :
    held t k ≤ booked s.world k := by
  rw [h k]
  exact held_le ht k

/-- **One task at a time**: the balance is kept if new tasks hold nothing and
    every step books what it takes and gives back. -/
theorem Balanced.move {m : Move T I} (h : Balanced held booked s)
    (hstart : ∀ t, m = .start t → ∀ k, held t k = 0)
    (hstep : ∀ l t r i w new, m = .run l.length i → s.tasks = l ++ t :: r →
      step t i s.world = some (w, new) →
        ∀ k, booked w k + held t k = booked s.world k + heldBy held new k)
    (hm : s.move step m = some s') : Balanced held booked s' := by
  intro k
  obtain ⟨t, rfl, rfl⟩ | ⟨l, t, r, i, w, new, rfl, htasks, hst, rfl⟩ := move_cases hm
  · have hbal := h k
    rw [heldBy_append, heldBy_cons, hstart t rfl k, hbal]
    rfl
  · have hbal := h k
    have hlocal := hstep l t r i w new rfl htasks hst k
    rw [htasks] at hbal
    simp only [heldBy_append, heldBy_cons] at hbal ⊢
    omega

/-- The shared state has booked at least what the tasks hold. -/
def Covered (held : T → K → ℕ) (booked : W → K → ℕ) (s : State W T) : Prop :=
  ∀ k, heldBy held s.tasks k ≤ booked s.world k

theorem Balanced.covered (h : Balanced held booked s) : Covered held booked s :=
  fun k => Nat.le_of_eq (h k).symm

/-- A task that holds all that is booked is the only one that holds something. -/
theorem Covered.alone (h : Covered held booked s) {l r : List T} {t : T} {k : K}
    (htasks : s.tasks = l ++ t :: r) (hall : booked s.world k ≤ held t k) :
    ∀ t' ∈ l ++ r, held t' k = 0 := by
  have hcov := h k
  rw [htasks, heldBy_append, heldBy_cons] at hcov
  rw [← heldBy_eq_zero, heldBy_append]
  omega

/-- One task at a time, for a state that may book more than is held. -/
theorem Covered.move {m : Move T I} (h : Covered held booked s)
    (hstart : ∀ t, m = .start t → ∀ k, held t k = 0)
    (hstep : ∀ l t r i w new, m = .run l.length i → s.tasks = l ++ t :: r →
      step t i s.world = some (w, new) →
        ∀ k, booked s.world k + heldBy held new k ≤ booked w k + held t k)
    (hm : s.move step m = some s') : Covered held booked s' := by
  intro k
  have hcov := h k
  obtain ⟨t, rfl, rfl⟩ | ⟨l, t, r, i, w, new, rfl, htasks, hst, rfl⟩ := move_cases hm
  · rw [heldBy_append, heldBy_cons, hstart t rfl k]
    exact hcov
  · have hlocal := hstep l t r i w new rfl htasks hst k
    rw [htasks] at hcov
    simp only [heldBy_append, heldBy_cons] at hcov ⊢
    omega

/-- What the tasks hold and what the shared state has used up are within its capacity. -/
def Within (held : T → K → ℕ) (used capacity : W → K → ℕ) (s : State W T) : Prop :=
  ∀ k, heldBy held s.tasks k + used s.world k ≤ capacity s.world k

/-- One task at a time, for what may be used up for good. -/
theorem Within.move {used capacity : W → K → ℕ} {m : Move T I} (h : Within held used capacity s)
    (hstart : ∀ t, m = .start t → ∀ k, held t k = 0)
    (hstep : ∀ l t r i w new, m = .run l.length i → s.tasks = l ++ t :: r →
      step t i s.world = some (w, new) → ∀ k,
        heldBy held new k + used w k + capacity s.world k ≤
          held t k + used s.world k + capacity w k)
    (hm : s.move step m = some s') : Within held used capacity s' := by
  intro k
  have hwithin := h k
  obtain ⟨t, rfl, rfl⟩ | ⟨l, t, r, i, w, new, rfl, htasks, hst, rfl⟩ := move_cases hm
  · rw [heldBy_append, heldBy_cons, hstart t rfl k]
    exact hwithin
  · have hlocal := hstep l t r i w new rfl htasks hst k
    rw [htasks] at hwithin
    simp only [heldBy_append, heldBy_cons] at hwithin ⊢
    omega

/-- What the tasks hold and what the shared state has used up are all there is. -/
def Conserved (held : T → K → ℕ) (used capacity : W → K → ℕ) (s : State W T) : Prop :=
  ∀ k, heldBy held s.tasks k + used s.world k = capacity s.world k

/-- One task at a time, if every step uses up what it does not pass on. -/
theorem Conserved.move {used capacity : W → K → ℕ} {m : Move T I}
    (h : Conserved held used capacity s) (hstart : ∀ t, m = .start t → ∀ k, held t k = 0)
    (hstep : ∀ l t r i w new, m = .run l.length i → s.tasks = l ++ t :: r →
      step t i s.world = some (w, new) → ∀ k,
        heldBy held new k + used w k + capacity s.world k =
          held t k + used s.world k + capacity w k)
    (hm : s.move step m = some s') : Conserved held used capacity s' := by
  intro k
  have hall := h k
  obtain ⟨t, rfl, rfl⟩ | ⟨l, t, r, i, w, new, rfl, htasks, hst, rfl⟩ := move_cases hm
  · rw [heldBy_append, heldBy_cons, hstart t rfl k]
    exact hall
  · have hlocal := hstep l t r i w new rfl htasks hst k
    rw [htasks] at hall
    simp only [heldBy_append, heldBy_cons] at hall ⊢
    omega

/-- What is booked has been used up, or a task holds it. -/
def Backed (held : T → K → ℕ) (booked used : W → K → ℕ) (s : State W T) : Prop :=
  ∀ k, booked s.world k ≤ used s.world k + heldBy held s.tasks k

/-- One task at a time, if every step accounts for what it books. -/
theorem Backed.move {used : W → K → ℕ} {m : Move T I} (h : Backed held booked used s)
    (hstep : ∀ l t r i w new, m = .run l.length i → s.tasks = l ++ t :: r →
      step t i s.world = some (w, new) → ∀ k,
        booked w k + used s.world k + held t k ≤ booked s.world k + used w k + heldBy held new k)
    (hm : s.move step m = some s') : Backed held booked used s' := by
  intro k
  have hall := h k
  obtain ⟨t, rfl, rfl⟩ | ⟨l, t, r, i, w, new, rfl, htasks, hst, rfl⟩ := move_cases hm
  · rw [heldBy_append, heldBy_cons]
    dsimp only
    omega
  · have hlocal := hstep l t r i w new rfl htasks hst k
    rw [htasks] at hall
    simp only [heldBy_append, heldBy_cons] at hall ⊢
    omega

end Tasks
