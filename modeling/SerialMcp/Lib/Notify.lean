/-
  Waiting for a condition on a shared state, with notifications that wake all who wait.

  A waiter takes a ticket first, then looks at the state under its lock, and sleeps until a
  notification is sent behind its ticket.  Who changes the state sends one when the lock
  is given back.  Some changes are silent; they must not make a condition true.

  * `Waiting.Task.step`: waiters and writers, one lock or notification at a time;
  * `Inv.move`: a waiter that sleeps on a true condition has been notified, or is about to be;
  * `returns_alone`: then it returns on its own, within three turns;
  * `Inv.returned`: the conditions of the waits that returned hold, if they stay true.
-/
import SerialMcp.Lib.Tasks

namespace Waiting

open Tasks

/-- A state that is waited on: `A` are the changes that are announced, `Q` the silent ones, and
    `K` is what can be waited for. -/
structure Monitor (S A Q K : Type) where
  /-- a change, if it changes something -/
  write : A → S → Option S
  silent : Q → S → S
  cond : K → S → Bool

/-- The shared state and its notifications. -/
structure World (S K : Type) where
  state : S
  /-- how many notifications were sent -/
  calls : ℕ
  /-- the waits that returned -/
  returned : List K

inductive Task (A Q K : Type) where
  /-- a waiter, about to take a ticket -/
  | waiting (k : K)
  /-- at the lock -/
  | ticketed (k : K) (ticket : ℕ)
  | sleeping (k : K) (ticket : ℕ)
  /-- a writer, at the lock -/
  | writing (a : A)
  /-- with the lock given back -/
  | notifying
  | silent (q : Q)

inductive Input where
  | turn
  | dropped

variable {S A Q K : Type}

/-- One step of a task. -/
def Task.step (M : Monitor S A Q K) :
    Task A Q K → Input → World S K → Option (World S K × List (Task A Q K))
  | .waiting k, .turn, w => some (w, [.ticketed k w.calls])
  | .ticketed k ticket, .turn, w =>
    if M.cond k w.state then some ({ w with returned := w.returned ++ [k] }, [])
    else some (w, [.sleeping k ticket])
  | .sleeping k ticket, .turn, w => if ticket < w.calls then some (w, [.waiting k]) else none
  | .writing a, .turn, w =>
    match M.write a w.state with
    | some state => some ({ w with state }, [.notifying])
    | none => some (w, [])
  | .notifying, .turn, w => some ({ w with calls := w.calls + 1 }, [])
  | .silent q, .turn, w => some ({ w with state := M.silent q w.state }, [])
  -- only a waiter has something to wait for
  | .waiting _, .dropped, w | .ticketed _ _, .dropped, w | .sleeping _ _, .dropped, w => some (w, [])
  | _, _, _ => none

/-- What can come in. -/
inductive Task.Starts : Task A Q K → Prop
  | waiting (k : K) : Task.Starts (.waiting k)
  | writing (a : A) : Task.Starts (.writing a)
  | silent (q : Q) : Task.Starts (.silent q)

/-- Every interleaving. -/
def AnyMove (_ : State (World S K) (Task A Q K)) : Move (Task A Q K) Input → Prop
  | .start t => t.Starts
  | .run _ _ => True

/-- What a task waits for. -/
def Task.awaits : Task A Q K → Option K
  | .waiting k | .ticketed k _ | .sleeping k _ => some k
  | _ => none

/-- Nobody waits, and the state is as given. -/
def init (state : S) : State (World S K) (Task A Q K) := ⟨⟨state, 0, []⟩, []⟩

/-- A waiter, as its notifications are: it sleeps on a true condition only until its turn, or
    until a writer has sent its notification. -/
def Task.Awake (M : Monitor S A Q K) (w : World S K) (pending : Prop) : Task A Q K → Prop
  | .ticketed _ ticket => ticket ≤ w.calls
  | .sleeping k ticket => ticket ≤ w.calls ∧
      (M.cond k w.state = true → ticket < w.calls ∨ pending)
  | _ => True

/-- The invariant. -/
def Inv (M : Monitor S A Q K) (s : State (World S K) (Task A Q K)) : Prop :=
  ∀ t ∈ s.tasks, t.Awake M s.world (.notifying ∈ s.tasks)

section
variable {M : Monitor S A Q K} {w w' : World S K} {t : Task A Q K} {i : Input}
  {new : List (Task A Q K)} {s s' : State (World S K) (Task A Q K)} {p p' : Prop}

/-- What a step does to those who sleep: no condition gets true but for a notification to
    come, and none to come goes away but by being sent. -/
structure Outcome (M : Monitor S A Q K) (w w' : World S K) (t : Task A Q K)
    (new : List (Task A Q K)) : Prop where
  calls : w.calls ≤ w'.calls
  conds : ∀ k, M.cond k w'.state = true → M.cond k w.state = true ∨ .notifying ∈ new
  notified : t = .notifying → w.calls < w'.calls
  tasks : ∀ t' ∈ new, t'.Awake M w' (.notifying ∈ new)

theorem Outcome.of_still (hcalls : w'.calls = w.calls) (hstate : w'.state = w.state)
    (ht : t ≠ .notifying) (hnew : ∀ t' ∈ new, t'.Awake M w' (.notifying ∈ new)) :
    Outcome M w w' t new :=
  ⟨Nat.le_of_eq hcalls.symm, fun _ hk => .inl (hstate ▸ hk), fun h => absurd h ht, hnew⟩

theorem Task.Awake.mono (h : t.Awake M w p) (hcalls : w.calls ≤ w'.calls)
    (hconds : ∀ k, M.cond k w'.state = true → M.cond k w.state = true ∨ p')
    (hpending : p → w.calls < w'.calls ∨ p') : t.Awake M w' p' := by
  cases t with
  | ticketed k ticket => exact Nat.le_trans h hcalls
  | sleeping k ticket =>
    obtain ⟨hle, hawake⟩ := h
    refine ⟨Nat.le_trans hle hcalls, fun hcond => ?_⟩
    rcases hconds k hcond with hcond | hp
    · rcases hawake hcond with hlt | hp
      · exact .inl (Nat.lt_of_lt_of_le hlt hcalls)
      · exact (hpending hp).imp_left fun hlt => by omega
    · exact .inr hp
  | _ => trivial

/-- **What a step does**, if silent changes make no condition true. -/
theorem step_outcome (hsilent : ∀ q k state, M.cond k (M.silent q state) = true →
      M.cond k state = true)
    (ht : t.Awake M w p) (h : t.step M i w = some (w', new)) : Outcome M w w' t new := by
  cases t with
  | waiting k =>
    cases i with
    | turn =>
      cases h
      exact .of_still rfl rfl nofun (List.forall_mem_singleton.2 (Nat.le_refl _))
    | dropped =>
      cases h
      exact .of_still rfl rfl nofun (List.forall_mem_nil _)
  | ticketed k ticket =>
    cases i with
    | turn =>
      simp only [Task.step] at h
      split_ifs at h with hcond <;> cases h
      · exact .of_still rfl rfl nofun (List.forall_mem_nil _)
      · exact .of_still rfl rfl nofun (List.forall_mem_singleton.2 ⟨ht, fun hk => absurd hk hcond⟩)
    | dropped =>
      cases h
      exact .of_still rfl rfl nofun (List.forall_mem_nil _)
  | sleeping k ticket =>
    cases i with
    | turn =>
      simp only [Task.step] at h
      split_ifs at h
      cases h
      exact .of_still rfl rfl nofun (List.forall_mem_singleton.2 trivial)
    | dropped =>
      cases h
      exact .of_still rfl rfl nofun (List.forall_mem_nil _)
  | writing a =>
    cases i with
    | turn =>
      simp only [Task.step] at h
      split at h <;> cases h
      · exact ⟨Nat.le_refl _, fun k _ => .inr (List.mem_singleton.2 rfl), nofun,
          List.forall_mem_singleton.2 trivial⟩
      · exact .of_still rfl rfl nofun (List.forall_mem_nil _)
    | dropped => cases h
  | notifying =>
    cases i with
    | turn =>
      cases h
      exact ⟨Nat.le_succ _, fun k hk => .inl hk, fun _ => Nat.lt_succ_self _, List.forall_mem_nil _⟩
    | dropped => cases h
  | silent q =>
    cases i with
    | turn =>
      cases h
      exact ⟨Nat.le_refl _, fun k hk => .inl (hsilent q k _ hk), nofun, List.forall_mem_nil _⟩
    | dropped => cases h

/-- **No wake-up is lost.** -/
theorem Inv.move {m : Move (Task A Q K) Input} (hs : Inv M s) (hm : AnyMove s m)
    (hsilent : ∀ q k state, M.cond k (M.silent q state) = true → M.cond k state = true)
    (h : s.move (Task.step M) m = some s') : Inv M s' := by
  rcases move_cases h with ⟨t, rfl, rfl⟩ | ⟨l, t, r, i, w, new, rfl, htasks, hstep, rfl⟩
  · refine List.forall_mem_append.2 ⟨fun t' ht' => ?_, List.forall_mem_singleton.2 ?_⟩
    · exact (hs t' ht').mono (Nat.le_refl _) (fun k hk => .inl hk)
        fun hp => .inr (List.mem_append_left _ hp)
    · cases hm <;> trivial
  · obtain ⟨hcalls, hconds, hnotified, hnew⟩ :=
      step_outcome hsilent (hs t (by simp [htasks])) hstep
    have hin : Task.notifying ∈ new → Task.notifying ∈ l ++ new ++ r := fun h => by simp [h]
    refine forall_replaced htasks hs (fun t' _ ht' => ?_) fun t' ht' => ?_
    · refine ht'.mono hcalls (fun k hk => (hconds k hk).imp_right hin) fun hp => ?_
      -- the notification to come is sent by this step, or by another task
      rw [htasks] at hp
      simp only [List.mem_append, List.mem_cons] at hp ⊢
      rcases hp with hp | rfl | hp
      · exact .inr (.inl (.inl hp))
      · exact .inl (hnotified rfl)
      · exact .inr (.inr hp)
    · exact (hnew t' ht').mono (Nat.le_refl _) (fun k hk => .inl hk) fun hp => .inr (hin hp)

/-- The conditions of the waits that returned hold. -/
def Returned (M : Monitor S A Q K) (w : World S K) : Prop :=
  ∀ k ∈ w.returned, M.cond k w.state = true

/-- **What a wait returned for is there**, if no change makes a condition false. -/
theorem Returned.step
    (hwrite : ∀ a k state state', M.write a state = some state' → M.cond k state = true →
      M.cond k state' = true)
    (hsilent : ∀ q k state, M.cond k state = true → M.cond k (M.silent q state) = true)
    (hw : Returned M w) (h : t.step M i w = some (w', new)) : Returned M w' := by
  cases t with
  | ticketed k ticket =>
    cases i with
    | turn =>
      simp only [Task.step] at h
      split_ifs at h with hcond <;> cases h
      · exact List.forall_mem_append.2 ⟨hw, List.forall_mem_singleton.2 hcond⟩
      · exact hw
    | dropped =>
      cases h
      exact hw
  | writing a =>
    cases i with
    | turn =>
      simp only [Task.step] at h
      split at h
      · next hstate =>
        cases h
        exact fun k hk => hwrite a k _ _ hstate (hw k hk)
      · cases h
        exact hw
    | dropped => cases h
  | silent q =>
    cases i with
    | turn =>
      cases h
      exact fun k hk => hsilent q k _ (hw k hk)
    | dropped => cases h
  | sleeping k ticket =>
    cases i with
    | turn =>
      simp only [Task.step] at h
      split_ifs at h
      cases h
      exact hw
    | dropped =>
      cases h
      exact hw
  | waiting k =>
    cases i <;> cases h <;> exact hw
  | notifying =>
    cases i <;> cases h
    exact hw

/-- A turn of the task at a position. -/
theorem play_turn {l r : List (Task A Q K)} {n : ℕ} (htasks : s.tasks = l ++ t :: r)
    (h : t.step M .turn s.world = some (w', new)) :
    s.play (Task.step M) (List.replicate (n + 1) (.run l.length .turn)) =
      State.play (Task.step M) ⟨w', l ++ new ++ r⟩ (List.replicate n (.run l.length .turn)) := by
  rw [List.replicate_succ, State.play, move_run htasks h]
  rfl

/-- **A waiter returns on its own** within three turns, once its condition holds and no
    notification is to come. -/
theorem returns_alone (hs : Inv M s) {l r : List (Task A Q K)} {k : K}
    (htasks : s.tasks = l ++ t :: r) (ht : t.awaits = some k)
    (hcond : M.cond k s.world.state = true) (hnone : .notifying ∉ s.tasks) :
    ∃ n ≤ 3, s.play (Task.step M) (List.replicate n (.run l.length .turn)) =
      some ⟨{ s.world with returned := s.world.returned ++ [k] }, l ++ r⟩ := by
  have hend : ∀ ticket {s : State (World S K) (Task A Q K)}, s.tasks = l ++ .ticketed k ticket :: r →
      M.cond k s.world.state = true →
      s.play (Task.step M) (List.replicate 1 (.run l.length .turn)) =
        some ⟨{ s.world with returned := s.world.returned ++ [k] }, l ++ r⟩ := by
    intro ticket s htasks hcond
    rw [play_turn htasks (if_pos hcond), List.append_nil]
    rfl
  have hbegin : ∀ {s : State (World S K) (Task A Q K)}, s.tasks = l ++ .waiting k :: r →
      M.cond k s.world.state = true →
      s.play (Task.step M) (List.replicate 2 (.run l.length .turn)) =
        some ⟨{ s.world with returned := s.world.returned ++ [k] }, l ++ r⟩ := by
    intro s htasks hcond
    rw [play_turn htasks rfl]
    exact hend s.world.calls (by simp) hcond
  cases t with
  | waiting k' =>
    cases ht
    exact ⟨2, by omega, hbegin htasks hcond⟩
  | ticketed k' ticket =>
    cases ht
    exact ⟨1, by omega, hend ticket htasks hcond⟩
  | sleeping k' ticket =>
    cases ht
    obtain ⟨-, hawake⟩ := hs (.sleeping k ticket) (by simp [htasks])
    have hlt : ticket < s.world.calls := (hawake hcond).resolve_right hnone
    refine ⟨3, Nat.le_refl _, ?_⟩
    rw [play_turn htasks (if_pos hlt)]
    exact hbegin (by simp) hcond
  | _ => cases ht

end

end Waiting
