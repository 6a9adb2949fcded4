/-
  The reset pulse of `capture_boot` is exclusive, and its lines are released.

  * `Task.step_line`: a step sets the lines with the control lock only, and a task that
    owes a release makes an attempt or leaves it to another task;
  * `Pulsed.move`, `Numbered.move`: the invariants of the pulses and of the numbers that
    captures get as they come to their asserts;
  * `pulses_released`: both, in every run.

  A capture that is dropped gives the control lock back, and the task that its release
  guard spawns queues for it like any other call.
-/
import SerialMcp.Capture.Boot

namespace SerialMcp.Capture

open Tasks Interact

/-! ## Releases that are owed -/

/-- The pulse that a task is in. -/
def Task.pulse : Task → Option (ℕ × Reset)
  | .captureHolding id _ reset _ | .captureReleasing id _ reset _ _ => some (id, reset)
  | _ => none

/-- The release that a task will try to make. -/
def Task.owes : Task → Option (ℕ × Reset)
  | .captureHolding id _ reset _ | .captureReleasing id _ reset _ _ => some (id, reset)
  | .cleanup id reset | .cleaning id reset => some (id, reset)
  | _ => none

/-- The capture that a task is about to assert the lines of. -/
def Task.asserting : Task → Option ℕ
  | .captureAsserting id .. => some id
  | _ => none

/-- The capture that a command asserts the lines for. -/
def LineCommand.asserts (e : LineCommand) : Option ℕ :=
  match e.caller with
  | .assert id _ => some id
  | _ => none

/-- The assert of a capture, when it has succeeded. -/
def asserted (id : ℕ) (reset : Reset) : LineCommand :=
  ⟨.assert id reset, reset.assertDtr, reset.assertRts, .ok⟩

/-- An attempt to release the lines of a capture, as it was configured. -/
def LineCommand.Releases (e : LineCommand) (id : ℕ) (reset : Reset) : Prop :=
  (e.caller = .release id reset ∨ e.caller = .cleanup id reset) ∧
    e.dtr = reset.releaseDtr ∧ e.rts = reset.releaseRts

/-- What a step does to the lines. -/
inductive Line (t : Task) (w w' : World) (new : List Task) : Prop where
  /-- no command, and what was owed is still owed -/
  | none (hlines : w'.lines = w.lines)
      (howes : ∀ x, t.owes = some x → ∃ t' ∈ new, t'.owes = some x)
      (hpulse : ∀ t' ∈ new, ∀ x, t'.pulse = some x → t.pulse = some x)
  /-- a command, with the control lock -/
  | command (e : LineCommand) (hlines : w'.lines = w.lines ++ [e])
      (hcontrol : t.held .control = 1)
      (hassert : ∀ id reset, e.caller = .assert id reset →
        t.asserting = some id ∧ ∃ t' ∈ new, t'.owes = some (id, reset))
      (hrelease : ∀ id reset, e.caller = .release id reset → t.pulse = some (id, reset))
      (howes : ∀ id reset, t.owes = some (id, reset) → e.Releases id reset)
      (hpulse : ∀ t' ∈ new, ∀ id reset, t'.pulse = some (id, reset) → e = asserted id reset)

section
variable {crates : Crates} {polls : ℕ} {w w' : World} {t : Task} {i : Input} {new : List Task}
  {s s' : Session}

theorem Line.aside (hlines : w'.lines = w.lines) (ht : t.owes = Option.none)
    (hnew : ∀ t' ∈ new, t'.pulse = Option.none) : Line t w w' new := by
  refine .none hlines (fun x hx => ?_) fun t' ht' x hx => ?_
  · rw [ht] at hx
    cases hx
  · rw [hnew t' ht'] at hx
    cases hx

theorem Line.passes {t' : Task} (hlines : w'.lines = w.lines)
    (howes : ∀ x, t.owes = some x → t'.owes = some x)
    (hpulse : ∀ x, t'.pulse = some x → t.pulse = some x) : Line t w w' [t'] :=
  .none hlines (fun x hx => ⟨t', List.mem_singleton_self _, howes x hx⟩)
    (List.forall_mem_singleton.2 hpulse)

theorem cleanups_pulse (armed : Option (ℕ × Reset)) :
    ∀ t ∈ cleanups armed, t.pulse = Option.none := by
  rcases armed with _ | ⟨id, reset⟩
  · exact fun t ht => by cases ht
  · exact List.forall_mem_singleton.2 rfl

/-- The assert of a capture. -/
theorem asserting_line {id : ℕ} {args : CaptureArgs} {reset : Reset} {mark : ℕ}
    {answer : Answer}
    (hstep : Task.step crates polls (.captureAsserting id args reset mark) (.port answer) w =
      some (w', new)) : Line (.captureAsserting id args reset mark) w w' new := by
  simp only [Task.step] at hstep
  split_ifs at hstep with hanswers hok <;> cases hstep
  · refine .command _ rfl rfl (fun id' reset' h => ?_) (fun id' reset' h => by cases h)
      (fun id' reset' h => by cases h) (List.forall_mem_singleton.2 fun id' reset' h => ?_)
    · cases h
      exact ⟨rfl, _, List.mem_singleton_self _, rfl⟩
    · cases h
      rw [hok]
      rfl
  · refine .command _ rfl rfl (fun id' reset' h => ?_) (fun id' reset' h => by cases h)
      (fun id' reset' h => by cases h) (List.forall_mem_singleton.2 fun id' reset' h => by cases h)
    cases h
    exact ⟨rfl, _, List.mem_singleton_self _, rfl⟩

/-- A release, of the capture or of its release guard. -/
theorem releasing_line {id : ℕ} {reset : Reset} {e : LineCommand}
    (hlines : w'.lines = w.lines ++ [e]) (hcontrol : t.held .control = 1)
    (howes : t.owes = some (id, reset)) (he : e.Releases id reset)
    (hpulse : ∀ id' reset', e.caller = .release id' reset' → t.pulse = some (id', reset'))
    (hnew : ∀ t' ∈ new, t'.pulse = Option.none) : Line t w w' new := by
  refine .command e hlines hcontrol (fun id' reset' h => ?_) hpulse (fun id' reset' h => ?_)
    fun t' ht' id' reset' h => ?_
  · rcases he.1 with he | he <;> cases he.symm.trans h
  · cases howes.symm.trans h
    exact he
  · rw [hnew t' ht'] at h
    cases h

/-- **What a step does to the lines.** -/
theorem Task.step_line (hstep : Task.step crates polls t i w = some (w', new)) :
    Line t w w' new := by
  cases t with
  | captureAsserting id args reset mark =>
    cases i with
    | port answer => exact asserting_line hstep
    | dropped =>
      cases hstep
      exact .aside rfl rfl (List.forall_mem_singleton.2 rfl)
    | _ => cases hstep
  | captureHolding id args reset mark =>
    cases i with
    | turn | cancelled =>
      cases hstep
      exact .passes rfl (fun x hx => hx) fun x hx => hx
    | dropped =>
      cases hstep
      exact .passes rfl (fun x hx => hx) fun x hx => by cases hx
    | _ => cases hstep
  | captureReleasing id args reset mark cancelled =>
    cases i with
    | port answer =>
      simp only [Task.step] at hstep
      split_ifs at hstep <;> cases hstep
      all_goals
        refine releasing_line rfl rfl rfl ⟨.inl rfl, rfl, rfl⟩ (fun id' reset' h => ?_)
          (List.forall_mem_singleton.2 rfl)
        cases h
        rfl
    | dropped =>
      cases hstep
      exact .passes rfl (fun x hx => hx) fun x hx => by cases hx
    | _ => cases hstep
  | cleanup id reset =>
    cases i with
    | turn =>
      simp only [Task.step] at hstep
      split_ifs at hstep
      cases hstep
      exact .passes rfl (fun x hx => hx) fun x hx => by cases hx
    | _ => cases hstep
  | cleaning id reset =>
    cases i with
    | port answer =>
      simp only [Task.step] at hstep
      split_ifs at hstep
      cases hstep
      exact releasing_line rfl rfl rfl ⟨.inr rfl, rfl, rfl⟩ (fun id' reset' h => by cases h)
        fun t ht => by cases ht
    | _ => cases hstep
  | settingDtrRts dtr rts =>
    cases i with
    | port answer =>
      simp only [Task.step] at hstep
      split_ifs at hstep
      cases hstep
      exact .command _ rfl rfl (fun id reset h => by cases h) (fun id reset h => by cases h)
        (fun id reset h => by cases h) fun t ht => by cases ht
    | dropped =>
      cases hstep
      exact .aside rfl rfl fun t ht => by cases ht
    | _ => cases hstep
  | captureReading armed p =>
    cases i with
    | turn =>
      rcases p with _ | ⟨op, k⟩ <;> cases hstep
      · exact .aside rfl rfl (cleanups_pulse armed)
      · exact .aside rfl rfl (List.forall_mem_singleton.2 rfl)
    | dropped =>
      simp only [Task.step] at hstep
      cases hstep
      exact .aside rfl rfl (cleanups_pulse armed)
    | _ => rcases p with _ | ⟨op, k⟩ <;> cases hstep
  | captureMarking args purged =>
    cases i with
    | turn =>
      simp only [Task.step] at hstep
      split at hstep <;> cases hstep <;>
        exact .aside rfl rfl (List.forall_mem_singleton.2 rfl)
    | _ => cases hstep
  | pumpReading tr p | pumpPausing p | other p =>
    cases i
    all_goals rcases p with p | ⟨op, k⟩
    all_goals try rcases p with e | bytes
    all_goals simp only [Task.step, reduceCtorEq] at hstep
    all_goals try split_ifs at hstep
    all_goals cases hstep
    all_goals exact .aside rfl rfl (by simp [Task.pulse])
  | _ =>
    cases i
    all_goals simp only [Task.step, reduceCtorEq] at hstep
    all_goals try split_ifs at hstep
    all_goals cases hstep
    all_goals exact .aside rfl rfl (by simp [Task.pulse])

theorem cleanups_asserting (armed : Option (ℕ × Reset)) :
    ∀ t ∈ cleanups armed, t.asserting = Option.none := by
  rcases armed with _ | ⟨id, reset⟩
  · exact fun t ht => by cases ht
  · exact List.forall_mem_singleton.2 rfl

/-- What a step does to the numbers of the captures. -/
def Numbers (t : Task) (w w' : World) (new : List Task) : Prop :=
  w.resets ≤ w'.resets ∧ ∀ t' ∈ new, ∀ id, t'.asserting = some id →
    t.held .control = 1 ∧ id = w.resets ∧ w'.resets = w.resets + 1

theorem numbers_aside (hresets : w'.resets = w.resets)
    (hnew : ∀ t' ∈ new, t'.asserting = Option.none) : Numbers t w w' new := by
  refine ⟨Nat.le_of_eq hresets.symm, fun t' ht' id hid => ?_⟩
  rw [hnew t' ht'] at hid
  cases hid

/-- **Captures are numbered** as they come to their asserts. -/
theorem Task.step_numbers (hstep : Task.step crates polls t i w = some (w', new)) :
    Numbers t w w' new := by
  cases t with
  | captureMarking args purged =>
    cases i with
    | turn =>
      simp only [Task.step] at hstep
      split at hstep <;> rename_i hreset <;> cases hstep
      · exact numbers_aside rfl (List.forall_mem_singleton.2 rfl)
      · refine ⟨Nat.le_succ _, List.forall_mem_singleton.2 fun id hid => ?_⟩
        cases hid
        exact ⟨by rw [Task.held, hreset]; rfl, rfl, rfl⟩
    | _ => cases hstep
  | pumpReading tr p | pumpPausing p | other p | captureReading armed p =>
    cases i
    all_goals rcases p with p | ⟨op, k⟩
    all_goals try rcases p with e | bytes
    all_goals simp only [Task.step, reduceCtorEq] at hstep
    all_goals try split_ifs at hstep
    all_goals cases hstep
    all_goals refine numbers_aside rfl ?_
    all_goals first | exact cleanups_asserting _ | simp [Task.asserting]
  | _ =>
    cases i
    all_goals simp only [Task.step, reduceCtorEq] at hstep
    all_goals try split_ifs at hstep
    all_goals cases hstep
    all_goals exact numbers_aside rfl (by simp [Task.asserting])

/-! ## Every run -/

theorem concat_cut {xs pre post : List LineCommand} {y e : LineCommand}
    (h : xs ++ [y] = pre ++ e :: post) :
    (pre = xs ∧ e = y ∧ post = []) ∨ ∃ post', xs = pre ++ e :: post' ∧ post = post' ++ [y] := by
  rcases List.eq_nil_or_concat post with rfl | ⟨post', y', rfl⟩
  · obtain ⟨hpre, hlast⟩ := List.append_inj' h rfl
    exact .inl ⟨hpre.symm, (List.singleton_inj.1 hlast).symm, rfl⟩
  · rw [List.concat_eq_append, ← List.cons_append, ← List.append_assoc] at h
    obtain ⟨hpre, hlast⟩ := List.append_inj' h rfl
    cases List.singleton_inj.1 hlast
    exact .inr ⟨post', hpre, List.concat_eq_append⟩

/-- The invariant of the pulses. -/
structure Pulsed (s : Session) : Prop where
  locks : Covered Task.held World.booked s
  /-- in a pulse, the lines are as the capture has asserted them -/
  pulse : ∀ t ∈ s.tasks, ∀ id reset, t.pulse = some (id, reset) →
    s.world.lines.getLast? = some (asserted id reset)
  released : ∀ pre e post id reset, s.world.lines = pre ++ e :: post →
    e.caller = .release id reset → pre.getLast? = some (asserted id reset)
  resolved : ∀ pre e post id reset, s.world.lines = pre ++ e :: post →
    e.caller = .assert id reset →
      (∃ t ∈ s.tasks, t.owes = some (id, reset)) ∨ ∃ x ∈ post, x.Releases id reset

theorem Task.pulse_held {x : ℕ × Reset} (h : t.pulse = some x) : t.held .control = 1 := by
  cases t with
  | captureHolding | captureReleasing => rfl
  | _ => cases h

theorem Task.Starts.pulse (h : t.Starts crates) : t.pulse = none := by
  cases h <;> rfl

theorem owed_replaced {l r : List Task} {x : ℕ × Reset} (htasks : s.tasks = l ++ t :: r)
    (howes : t.owes = some x → ∃ t' ∈ new, t'.owes = some x)
    (h : ∃ t' ∈ s.tasks, t'.owes = some x) : ∃ t' ∈ l ++ new ++ r, t'.owes = some x := by
  obtain ⟨t', ht', hx⟩ := h
  simp only [htasks, List.mem_append, List.mem_cons] at ht'
  rcases ht' with ht' | rfl | ht'
  · exact ⟨t', by simp [ht'], hx⟩
  · obtain ⟨t'', ht'', hx'⟩ := howes hx
    exact ⟨t'', by simp [ht''], hx'⟩
  · exact ⟨t', by simp [ht'], hx⟩

/-- **A move keeps the invariant.** -/
theorem Pulsed.move {m : Move Task Input} (h : Pulsed s) (hm : AnyMove crates s m)
    (hmove : s.move (Task.step crates polls) m = some s') : Pulsed s' := by
  have hlocks := locks_move h.locks hm hmove
  obtain ⟨t, rfl, rfl⟩ | ⟨l, t, r, i, w, new, rfl, htasks, hstep, rfl⟩ := move_cases hmove
  · refine ⟨hlocks, ?_, h.released, fun pre e post id reset hcut he => ?_⟩
    · refine List.forall_mem_append.2 ⟨h.pulse, List.forall_mem_singleton.2 fun id reset hx => ?_⟩
      rw [hm.pulse] at hx
      cases hx
    · refine (h.resolved pre e post id reset hcut he).imp_left ?_
      rintro ⟨t', ht', hx⟩
      exact ⟨t', List.mem_append_left _ ht', hx⟩
  · have ht : t ∈ s.tasks := by simp [htasks]
    cases Task.step_line hstep with
    | none hlines howes hpulse =>
      refine ⟨hlocks, ?_, ?_, ?_⟩ <;> dsimp only <;> rw [hlines]
      · exact forall_replaced htasks h.pulse (fun _ _ hkeep => hkeep)
          fun t' ht' id reset hx => h.pulse t ht id reset (hpulse t' ht' _ hx)
      · exact h.released
      · intro pre e post id reset hcut he
        exact (h.resolved pre e post id reset hcut he).imp_left
          (owed_replaced htasks (howes (id, reset)))
    | command e hlines hcontrol hassert hrelease howes hpulse =>
      refine ⟨hlocks, ?_, ?_, ?_⟩ <;> dsimp only <;> rw [hlines]
      · refine forall_replaced htasks h.pulse (fun t' ht' _ id reset hx => ?_)
          fun t' ht' id reset hx => ?_
        · -- nobody else has the control lock
          have hzero := lock_alone h.locks htasks hcontrol t' ht'
          rw [Task.pulse_held hx] at hzero
          cases hzero
        · rw [List.getLast?_concat, hpulse t' ht' id reset hx]
      · intro pre e' post id reset hcut he
        rcases concat_cut hcut with ⟨rfl, rfl, rfl⟩ | ⟨post', hcut', rfl⟩
        · exact h.pulse t ht id reset (hrelease id reset he)
        · exact h.released pre e' post' id reset hcut' he
      · intro pre e' post id reset hcut he
        rcases concat_cut hcut with ⟨rfl, rfl, rfl⟩ | ⟨post', hcut', rfl⟩
        · obtain ⟨-, t', ht', hx⟩ := hassert id reset he
          exact .inl ⟨t', by simp [ht'], hx⟩
        · rcases h.resolved pre e' post' id reset hcut' he with howed | ⟨x, hx, hreleases⟩
          · by_cases hx : t.owes = some (id, reset)
            · exact .inr ⟨e, by simp, howes id reset hx⟩
            · exact .inl (owed_replaced htasks (fun hx' => (hx hx').elim) howed)
          · exact .inr ⟨x, by simp [hx], hreleases⟩

/-- The invariant of the numbers: a capture asserts its lines once. -/
structure Numbered (s : Session) : Prop where
  locks : Covered Task.held World.booked s
  /-- a capture that comes to its assert has a number of its own -/
  fresh : ∀ t ∈ s.tasks, ∀ id, t.asserting = some id →
    id < s.world.resets ∧ ∀ e ∈ s.world.lines, e.asserts ≠ some id
  old : ∀ e ∈ s.world.lines, ∀ id, e.asserts = some id → id < s.world.resets
  once : (s.world.lines.filterMap LineCommand.asserts).Nodup

theorem Task.asserting_held {id : ℕ} (h : t.asserting = some id) : t.held .control = 1 := by
  cases t with
  | captureAsserting => rfl
  | _ => cases h

theorem Task.Starts.asserting (h : t.Starts crates) : t.asserting = none := by
  cases h <;> rfl

/-- **A move keeps the numbers.** -/
theorem Numbered.move {m : Move Task Input} (h : Numbered s) (hm : AnyMove crates s m)
    (hmove : s.move (Task.step crates polls) m = some s') : Numbered s' := by
  have hlocks := locks_move h.locks hm hmove
  obtain ⟨t, rfl, rfl⟩ | ⟨l, t, r, i, w, new, rfl, htasks, hstep, rfl⟩ := move_cases hmove
  · refine ⟨hlocks, ?_, h.old, h.once⟩
    refine List.forall_mem_append.2 ⟨h.fresh, List.forall_mem_singleton.2 fun id hid => ?_⟩
    rw [hm.asserting] at hid
    cases hid
  · have ht : t ∈ s.tasks := by simp [htasks]
    obtain ⟨hresets, hnew⟩ := Task.step_numbers hstep
    have hfresh : ∀ t' ∈ new, ∀ id, t'.asserting = some id →
        id < w.resets ∧ ∀ e ∈ s.world.lines, e.asserts ≠ some id := by
      intro t' ht' id hid
      obtain ⟨-, rfl, hcount⟩ := hnew t' ht' id hid
      exact ⟨by omega, fun e he hasserts => Nat.lt_irrefl _ (h.old e he _ hasserts)⟩
    cases Task.step_line hstep with
    | none hlines _ _ =>
      refine ⟨hlocks, ?_, ?_, ?_⟩ <;> dsimp only <;> rw [hlines]
      · refine forall_replaced htasks h.fresh (fun t' _ hkeep id hid => ?_) hfresh
        exact ⟨(hkeep id hid).1.trans_le hresets, (hkeep id hid).2⟩
      · exact fun e he id hid => (h.old e he id hid).trans_le hresets
      · exact h.once
    | command e hlines hcontrol hassert _ _ _ =>
      have hself : ∀ id, e.asserts = some id → t.asserting = some id := by
        intro id hid
        rcases hcaller : e.caller with ⟨id', reset⟩ | _ | _ | _ <;>
          rw [LineCommand.asserts, hcaller] at hid <;> cases hid
        exact (hassert _ _ hcaller).1
      refine ⟨hlocks, ?_, ?_, ?_⟩ <;> dsimp only <;> rw [hlines]
      · refine forall_replaced htasks h.fresh (fun t' ht' _ id hid => ?_) fun t' ht' id hid => ?_
        · -- nobody else has the control lock
          have hzero := lock_alone h.locks htasks hcontrol t' ht'
          rw [Task.asserting_held hid] at hzero
          cases hzero
        · obtain ⟨hlt, hold⟩ := hfresh t' ht' id hid
          refine ⟨hlt, List.forall_mem_append.2 ⟨hold, List.forall_mem_singleton.2 fun he => ?_⟩⟩
          have hbelow := (h.fresh t ht id (hself id he)).1
          obtain ⟨-, rfl, -⟩ := hnew t' ht' id hid
          exact Nat.lt_irrefl _ hbelow
      · refine List.forall_mem_append.2 ⟨fun e he id hid => (h.old e he id hid).trans_le hresets,
          List.forall_mem_singleton.2 fun id hid => ?_⟩
        exact (h.fresh t ht id (hself id hid)).1.trans_le hresets
      · rw [List.filterMap_append]
        cases hid : e.asserts with
        | none => simpa [hid] using h.once
        | some id =>
          have hold : ∀ id' e', e' ∈ s.world.lines → e'.asserts = some id' → id' ≠ id := by
            rintro _ e' he' hid' rfl
            exact (h.fresh t ht _ (hself _ hid)).2 e' he' hid'
          simpa [hid, List.nodup_append, h.once] using hold

/-! ## The pulses -/

/-- **Reset pulses are exclusive, and always released.** A capture asserts its lines once.
    The command before its release is that assert, as long as a capture is in its pulse
    the assert is the last command, and when no command took effect after the assert, then
    the capture is in its pulse, or a task is about to release its lines as configured,
    or such a release was tried and failed. -/
theorem pulses_released {link : Link} {io : Bool}
    (h : Runs (Task.step crates polls) (AnyMove crates) (Session.init link io) s) :
    (s.world.lines.filterMap LineCommand.asserts).Nodup ∧
    (∀ pre e post id reset, s.world.lines = pre ++ e :: post → e.caller = .release id reset →
      pre.getLast? = some (asserted id reset)) ∧
    (∀ t ∈ s.tasks, ∀ id reset, t.pulse = some (id, reset) →
      s.world.lines.getLast? = some (asserted id reset)) ∧
    ∀ pre e post id reset, s.world.lines = pre ++ e :: post → e.caller = .assert id reset →
      (∀ x ∈ post, x.answer ≠ .ok) →
        (∃ t ∈ s.tasks, t.pulse = some (id, reset)) ∨
        (∃ t ∈ s.tasks, t = .cleanup id reset ∨ t = .cleaning id reset) ∨
        ∃ x ∈ post, x.Releases id reset ∧ x.answer ≠ .ok := by
  have hempty : ∀ {pre : List LineCommand} {e post}, [] ≠ pre ++ e :: post := by simp
  have hpulsed : Pulsed (Session.init link io) :=
    ⟨fun k => Nat.zero_le _, fun t ht => (by cases ht), fun _ _ _ _ _ hcut => (hempty hcut).elim,
      fun _ _ _ _ _ hcut => (hempty hcut).elim⟩
  have hnumbered : Numbered (Session.init link io) :=
    ⟨fun k => Nat.zero_le _, fun t ht => (by cases ht), fun e he => (by cases he), List.nodup_nil⟩
  have hp := h.invariant (J := Pulsed) (fun hs hm hmove => hs.move hm hmove) hpulsed
  have hn := h.invariant (J := Numbered) (fun hs hm hmove => hs.move hm hmove) hnumbered
  refine ⟨hn.once, hp.released, hp.pulse, fun pre e post id reset hcut he hvain => ?_⟩
  rcases hp.resolved pre e post id reset hcut he with ⟨t, ht, howes⟩ | ⟨x, hx, hreleases⟩
  · cases t with
    | captureHolding | captureReleasing => exact .inl ⟨_, ht, howes⟩
    | cleanup =>
      cases howes
      exact .inr (.inl ⟨_, ht, .inl rfl⟩)
    | cleaning =>
      cases howes
      exact .inr (.inl ⟨_, ht, .inr rfl⟩)
    | _ => cases howes
  · exact .inr (.inr ⟨x, hx, hreleases, hvain x hx⟩)

end

/-- A pulse of the line DTR. -/
def pulseDtr : Reset := ⟨true, false, false, false⟩

/-- A capture up to its hold. -/
def captureHold (n : ℕ) : List (Move Task Input) :=
  [.start (.capture { reset := some pulseDtr, request := { maxBytes := 4 }, turns := 1 }),
    .run n .turn, .run n .turn, .run n (.port .ok), .run n .turn, .run n (.port .ok)]

/-- A capture releases its lines, a second one is dropped in its hold, and RTS is set
    before its lines are released. -/
def heldAndDropped : List (Move Task Input) :=
  captureHold 0 ++ [.run 0 .turn, .run 0 (.port .ok)] ++ captureHold 1 ++
    [.run 1 .dropped, .start (.setDtrRts true true), .run 2 .turn, .run 2 (.port .failed)]

theorem pulses_released_dropped : ∃ s,
    (Session.init okLink true).play (Task.step .refusing 1) heldAndDropped = some s ∧
      s.world.lines = [asserted 0 pulseDtr, ⟨.release 0 pulseDtr, false, false, .ok⟩,
        asserted 1 pulseDtr, ⟨.tool, true, true, .failed⟩] ∧
      (s.world.lines.filterMap LineCommand.asserts).Nodup ∧
      ((∃ t ∈ s.tasks, t.pulse = some (1, pulseDtr)) ∨
        (∃ t ∈ s.tasks, t = .cleanup 1 pulseDtr ∨ t = .cleaning 1 pulseDtr) ∨
        ∃ x : LineCommand, x.Releases 1 pulseDtr ∧ x.answer ≠ .ok) := by
  have hrun : ((Session.init okLink true).play (Task.step .refusing 1) heldAndDropped).map
      (fun s => s.world.lines) = some [asserted 0 pulseDtr,
        ⟨.release 0 pulseDtr, false, false, .ok⟩, asserted 1 pulseDtr,
        ⟨.tool, true, true, .failed⟩] := by
    decide +kernel
  obtain ⟨s, hplay, hlines⟩ := Option.map_eq_some_iff.1 hrun
  have hmoves : ∀ m ∈ heldAndDropped, AnyMove .refusing (Session.init okLink true) m := by
    simp [heldAndDropped, captureHold, AnyMove, Task.Starts.capture, Task.Starts.setDtrRts]
  have hruns := (Runs.of_play hmoves hplay).mono fun hm => hm
  obtain ⟨honce, -, -, hresolved⟩ := pulses_released hruns
  refine ⟨s, hplay, hlines, honce, ?_⟩
  rcases hresolved [_, _] (asserted 1 pulseDtr) [_] 1 pulseDtr hlines rfl (by simp) with
    hpulse | hpending | ⟨x, -, hx⟩
  · exact .inl hpulse
  · exact .inr (.inl hpending)
  · exact .inr (.inr ⟨x, hx⟩)

end SerialMcp.Capture
