/-
  How many attempts the tasks make: `max_attempts` of `ReconnectPolicy`.

  A task has a budget of `max_attempts` attempts.  What the tasks of a
  connection have left, and what has been attempted since the last success, are
  together within the policy as long as every task starts from nothing: no
  other task can make an attempt, and none has been made since the success.

  * `Spends`, `Task.step_spends`: a step makes an attempt only out of the budget
    of its task;
  * `attempts_le`: no window of the log without a success has more than
    `max_attempts` attempts.
-/
import SerialMcp.Reconnect.World

namespace SerialMcp.Reconnect

open Tasks

/-! ## Attempts in the log -/

/-- Neither an attempt nor a success. -/
def LogEvent.Inert : LogEvent → Prop
  | .reconnectStart _ | .reconnectSuccess => False
  | _ => True

def LogEvent.isStart : LogEvent → Bool
  | .reconnectStart _ => true
  | _ => false

/-- The attempts since the last success; the newest event comes first. -/
def sinceSuccess : List LogEvent → ℕ
  | [] => 0
  | .reconnectSuccess :: _ => 0
  | .reconnectStart _ :: log => sinceSuccess log + 1
  | _ :: log => sinceSuccess log

/-- At no point of its history has a log more than `k` attempts since a success. -/
def Within (k : ℕ) (log : List LogEvent) : Prop := ∀ l, l <:+ log → sinceSuccess l ≤ k

section
variable {k : ℕ} {log events window older : List LogEvent} {ev : LogEvent}

theorem sinceSuccess_cons_inert (h : ev.Inert) : sinceSuccess (ev :: log) = sinceSuccess log := by
  cases ev <;> first | rfl | cases h

theorem sinceSuccess_append_inert (h : ∀ ev ∈ events, ev.Inert) :
    sinceSuccess (events ++ log) = sinceSuccess log := by
  induction events with
  | nil => rfl
  | cons ev events ih =>
    rw [List.cons_append, sinceSuccess_cons_inert (h ev (by simp))]
    exact ih fun ev' hev' => h ev' (by simp [hev'])

theorem countP_le_sinceSuccess (h : .reconnectSuccess ∉ window) :
    window.countP LogEvent.isStart ≤ sinceSuccess (window ++ older) := by
  induction window with
  | nil => exact Nat.zero_le _
  | cons ev window ih =>
    rw [List.mem_cons, not_or] at h
    have hle := ih h.2
    rw [List.cons_append, List.countP_cons]
    cases ev with
    | reconnectSuccess => exact absurd rfl h.1
    | reconnectStart attempt => exact Nat.add_le_add_right hle 1
    | _ => exact hle

theorem Within.cons (h : Within k log) (hev : sinceSuccess (ev :: log) ≤ k) :
    Within k (ev :: log) := by
  intro l hl
  rcases List.suffix_cons_iff.1 hl with rfl | hl
  · exact hev
  · exact h l hl

theorem Within.append_inert (h : Within k log) (hevents : ∀ ev ∈ events, ev.Inert) :
    Within k (events ++ log) := by
  induction events with
  | nil => exact h
  | cons ev events ih =>
    have hrest : Within k (events ++ log) := ih fun ev' hev' => hevents ev' (by simp [hev'])
    refine hrest.cons ?_
    rw [sinceSuccess_cons_inert (hevents ev (by simp))]
    exact hrest _ List.suffix_rfl

end

/-! ## The budget of a task -/

/-- The attempts that a task has left. -/
def Stage.remaining (k attempts : ℕ) : Stage → ℕ
  | .spawned | .sleeping => k - attempts
  | .installing _ => k - attempts - 1
  | .resuming => 0

/-- The attempts that a task has left for a connection. -/
def Task.remaining (k : ℕ) : Task → String → ℕ
  | .reconnect _ id' _ attempts stage, id => if id' = id then stage.remaining k attempts else 0
  | _, _ => 0

/-- A task may still call `reconnect`, or is in it. -/
def Task.MayAttempt (id : String) : Task → Prop
  | .reconnect _ id' _ _ stage => id' = id ∧ stage ≠ .resuming
  | _ => False

/-- The tasks of a connection have its policy, and some of their attempts left;
    nobody reconnects it by hand or changes the policy. -/
def Task.Sound (id : String) (k : ℕ) : Task → Prop
  | .pruning id' policy _ | .spawning id' policy _ => id' = id → policy.maxAttempts = k
  | .reconnect _ id' policy attempts stage =>
    id' = id → policy.maxAttempts = k ∧ (stage ≠ .resuming → attempts < k)
  | .closing id' c | .call id' c => id' = id → ¬c.Reconnects
  | .configure id' _ => id' ≠ id
  | _ => True

/-- What a step does to a connection, and to the attempts that its task has left. -/
inductive Spends (e : Entry) (before : ℕ) : Entry → ℕ → Prop
  | keeps {e' after} (events : List LogEvent) (hevents : ∀ ev ∈ events, ev.Inert)
      (hlog : e'.log = events ++ e.log)
      (hcount : e'.connection.reconnectAttempts = e.connection.reconnectAttempts)
      (hstate : e'.connection.state = .opened → e.connection.state = .opened)
      (hafter : after ≤ before) : Spends e before e' after
  | attempts {e' after} (attempt : ℕ) (events : List LogEvent) (hevents : ∀ ev ∈ events, ev.Inert)
      (hlog : e'.log = events ++ .reconnectStart attempt :: e.log)
      (hcount : e'.connection.reconnectAttempts = e.connection.reconnectAttempts + 1)
      (hstate : e'.connection.state ≠ .opened) (hafter : after + 1 ≤ before) :
      Spends e before e' after
  /-- a success, or the finding that there was one -/
  | resets {e'} (hlog : e'.log = .reconnectSuccess :: e.log ∨
        e'.log = e.log ∧ e.connection.state = .opened)
      (hcount : e'.connection.reconnectAttempts = 0) : Spends e before e' 0

section
variable {id id' : String} {k : ℕ} {e e' : Entry} {w w' : Manager} {t : Task} {i : Input}
  {new : List Task}

theorem Spends.same {before after : ℕ} (h : after ≤ before) : Spends e before e after :=
  .keeps [] (by simp) rfl rfl id h

@[simp] theorem Manager.poll_remaining (ids : List String) :
    (w.poll ids).remaining k id = 0 := by
  obtain h | ⟨_, _, h⟩ := w.poll_cases ids <;> rw [h] <;> rfl

@[simp] theorem Manager.poll_sound (ids : List String) : (w.poll ids).Sound id k := by
  obtain h | ⟨_, _, h⟩ := w.poll_cases ids <;> rw [h] <;> trivial

theorem logged_inert {c : Connection.Task} {i : Connection.Input}
    {conn : Connection.SerialConnection} (h : ¬c.Reconnects) : ∀ ev ∈ logged c i conn, ev.Inert := by
  cases c with
  | reconnectEntry => exact absurd trivial h
  | installing stream => exact absurd trivial h
  | markEntry error => cases i <;> simp [logged, LogEvent.Inert]
  | _ => simp [logged]

/-- A call that is not a `reconnect`, or on another connection. -/
theorem Manager.callStep_spends {c : Connection.Task} {i : Connection.Input}
    {next : List Connection.Task} (h : w.callStep id' c i = some (w', next))
    (hc : id' = id → ¬c.Reconnects) :
    Spends (w.entries id) 0 (w'.entries id) 0 ∧
      (w'.entries id).policy = (w.entries id).policy ∧
      (id' = id → ∀ c' ∈ next, ¬c'.Reconnects) := by
  simp only [callStep, Option.map_eq_some_iff] at h
  obtain ⟨⟨conn, next'⟩, hstep, heq⟩ := h
  obtain ⟨rfl, rfl⟩ := Prod.mk.inj heq
  by_cases hid : id' = id
  · subst hid
    obtain ⟨hcount, hstate, hnext⟩ := (Connection.Task.step_effect hstep).frame (hc rfl)
    rw [setEntry_entries]
    exact ⟨.keeps _ (logged_inert (hc rfl)) rfl hcount hstate (Nat.le_refl 0), rfl, fun _ => hnext⟩
  · rw [setEntry_entries_ne (Ne.symm hid)]
    exact ⟨.same (Nat.le_refl 0), rfl, fun h => absurd h hid⟩

/-- A step of a task spends its own attempts. -/
theorem Work.spends {policy : ReconnectPolicy} {attempts : ℕ} {stage : Stage}
    {next : Option (ℕ × Stage)} (h : Work e policy attempts stage e' next) (hk : 0 < k)
    (hmax : policy.maxAttempts = k) (ha : stage ≠ .resuming → attempts < k) :
    Spends e (stage.remaining k attempts) e' (next.elim 0 fun r => r.2.remaining k r.1) ∧
      e'.policy = e.policy ∧ ∀ r ∈ next, r.2 ≠ .resuming → r.1 < k := by
  cases h with
  | ends stage => exact ⟨.same (Nat.zero_le _), rfl, nofun⟩
  | sleeps =>
    refine ⟨.same (Nat.le_refl _), rfl, ?_⟩
    rintro r ⟨⟩ _
    exact ha nofun
  | already hstate =>
    refine ⟨.resets (.inr ⟨rfl, hstate⟩) rfl, rfl, ?_⟩
    rintro r ⟨⟩ hr
    exact absurd rfl hr
  | refused events hevents =>
    refine ⟨.keeps events ?_ rfl rfl id (Nat.zero_le _), rfl, nofun⟩
    intro ev hev
    rw [hevents ev hev]
    trivial
  | exhausted error hex =>
    refine ⟨.attempts _ [.reconnectExhausted, .reconnectFailed _ error] ?_ rfl rfl nofun ?_, rfl,
      nofun⟩
    · simp [LogEvent.Inert]
    · have := ha nofun
      simp only [Option.elim_none, Stage.remaining]
      omega
  | again error hex =>
    have hlt : attempts + 1 < k := by
      unfold Exhausts at hex
      omega
    refine ⟨.attempts _ [.reconnectFailed _ error] (by simp [LogEvent.Inert]) rfl rfl nofun ?_, rfl,
      ?_⟩
    · simp only [Option.elim_some, Stage.remaining]
      omega
    · rintro r ⟨⟩ _
      exact hlt
  | opens stream =>
    have hlt := ha nofun
    refine ⟨.attempts _ [] (by simp) rfl rfl nofun ?_, rfl, ?_⟩
    · simp only [Option.elim_some, Stage.remaining]
      omega
    · rintro r ⟨⟩ _
      exact hlt
  | installs stream =>
    refine ⟨.resets (.inl rfl) rfl, rfl, ?_⟩
    rintro r ⟨⟩ hr
    exact absurd rfl hr

/-- A step that leaves the entries alone, of a task without attempts. -/
theorem untouched (hw : w'.entries = w.entries) (hnew : heldBy (Task.remaining k) new id = 0)
    (hsound : ∀ t' ∈ new, t'.Sound id k) :
    Spends (w.entries id) (t.remaining k id) (w'.entries id) (heldBy (Task.remaining k) new id) ∧
      (w'.entries id).policy = (w.entries id).policy ∧ ∀ t' ∈ new, t'.Sound id k := by
  rw [hw, hnew]
  exact ⟨.same (Nat.zero_le _), rfl, hsound⟩

theorem Manager.abort_entries (w : Manager) (id : String) : (w.abort id).entries = w.entries := by
  unfold abort
  split <;> rfl

section
variable {n : ℕ} {policy : ReconnectPolicy} {next : Option (ℕ × Stage)}

@[simp] theorem Manager.goOn_entries : (w.goOn n id policy e next).1.entries id = e := by
  rcases next with _ | ⟨attempts, stage⟩
  · simp [goOn, finish]
  · simp [goOn]

theorem Manager.goOn_entries_ne (h : id ≠ id') :
    (w.goOn n id' policy e next).1.entries id = w.entries id := by
  rcases next with _ | ⟨attempts, stage⟩
  · exact setEntry_entries_ne h
  · exact setEntry_entries_ne h

theorem Manager.goOn_remaining : heldBy (Task.remaining k) (w.goOn n id policy e next).2 id =
    next.elim 0 fun r => r.2.remaining k r.1 := by
  rcases next with _ | ⟨attempts, stage⟩
  · rfl
  · simp [goOn, Task.remaining]

theorem Manager.goOn_remaining_ne (h : id' ≠ id) :
    heldBy (Task.remaining k) (w.goOn n id' policy e next).2 id = 0 := by
  rcases next with _ | ⟨attempts, stage⟩
  · rfl
  · simp [goOn, Task.remaining, h]

theorem Manager.goOn_sound (hpolicy : id' = id → policy.maxAttempts = k)
    (hnext : id' = id → ∀ r ∈ next, r.2 ≠ .resuming → r.1 < k) :
    ∀ t ∈ (w.goOn n id' policy e next).2, t.Sound id k := by
  rcases next with _ | ⟨attempts, stage⟩
  · simp [goOn]
  · simpa [goOn, Task.Sound] using fun hid => ⟨hpolicy hid, hnext hid _ rfl⟩

end

/-- **Step**: what is spent on a connection, unless a task is spawned for it. -/
theorem Task.step_spends (h : Task.step t i w = some (w', new)) (hk : 0 < k)
    (hmax : (w.entries id).policy.maxAttempts = k) (ht : t.Sound id k)
    (hspawn : ∀ policy rest, t ≠ .spawning id policy rest) :
    Spends (w.entries id) (t.remaining k id) (w'.entries id) (heldBy (Task.remaining k) new id) ∧
      (w'.entries id).policy = (w.entries id).policy ∧ ∀ t' ∈ new, t'.Sound id k := by
  cases t with
  | supervisor =>
    cases i with
    | listed ids =>
      simp only [Task.step] at h
      split_ifs at h
      cases h
      exact untouched rfl (by simp) (by simp)
    | _ => cases h
  | getting id' rest =>
    cases i with
    | lock =>
      simp only [Task.step] at h
      split_ifs at h
      · cases h
        refine untouched rfl rfl ?_
        simp only [List.mem_singleton, forall_eq, Task.Sound]
        rintro rfl
        exact hmax
      · cases h
        exact untouched rfl (by simp) (by simp)
    | _ => cases h
  | pruning id' policy rest =>
    cases i with
    | lock =>
      simp only [Task.step] at h
      split_ifs at h
      · cases h
        exact untouched rfl (by simp) (by simp)
      · cases h
        exact untouched rfl rfl (by simpa [Task.Sound] using ht)
    | _ => cases h
  | spawning id' policy rest =>
    cases i with
    | go =>
      have hid : id' ≠ id := by
        rintro rfl
        exact hspawn policy rest rfl
      cases h
      exact untouched rfl (by simp [Task.remaining, hid]) (by simp [Task.Sound, hid])
    | _ => cases h
  | registering id' n rest =>
    cases i with
    | lock =>
      cases h
      exact untouched rfl (by simp) (by simp)
    | _ => cases h
  | reconnect n id' policy attempts stage =>
    obtain ⟨e, next, hwork, heq⟩ := Manager.taskStep_work h
    obtain ⟨rfl, rfl⟩ : w' = (w.goOn n id' policy e next).1 ∧ new = (w.goOn n id' policy e next).2 :=
      Prod.ext_iff.1 heq
    by_cases hid : id' = id
    · subst hid
      obtain ⟨hpolicy, ha⟩ := ht rfl
      obtain ⟨hspends, hpolicy', hnext⟩ := hwork.spends hk hpolicy ha
      simp only [Task.remaining, ↓reduceIte, Manager.goOn_entries, Manager.goOn_remaining]
      exact ⟨hspends, hpolicy', Manager.goOn_sound (fun _ => hpolicy) fun _ => hnext⟩
    · rw [Manager.goOn_entries_ne (Ne.symm hid), Manager.goOn_remaining_ne hid]
      exact ⟨.same (Nat.zero_le _), rfl,
        Manager.goOn_sound (fun h => absurd h hid) fun h => absurd h hid⟩
  | cancelEntry id' =>
    cases i with
    | lock =>
      cases h
      exact untouched (w.abort_entries id') rfl (by simp)
    | _ => cases h
  | closeEntry id' =>
    cases i with
    | lock =>
      simp only [Task.step] at h
      split_ifs at h <;> cases h
      · exact untouched rfl rfl (by simp [Task.Sound])
      · exact untouched rfl rfl (by simp)
    | _ => cases h
  | aborting id' =>
    cases i with
    | lock =>
      cases h
      by_cases hid : id = id'
      · subst hid
        simp only [Manager.record, Manager.setEntry_entries, Manager.abort_entries]
        refine ⟨.keeps [.closed] (by simp [LogEvent.Inert]) rfl rfl (fun h => h) (Nat.zero_le _),
          trivial, ?_⟩
        simp [Task.Sound, Connection.Task.Reconnects]
      · have hentries : (((w.abort id').record id' .closed).entries id) = w.entries id := by
          rw [Manager.record, Manager.setEntry_entries_ne hid, Manager.abort_entries]
        rw [hentries]
        exact ⟨.same (Nat.zero_le _), rfl, by simp [Task.Sound, Connection.Task.Reconnects]⟩
    | _ => cases h
  | closing id' c =>
    cases i with
    | call i =>
      simp only [Task.step, Option.map_eq_some_iff] at h
      obtain ⟨⟨w₁, next⟩, hstep, heq⟩ := h
      obtain ⟨rfl, rfl⟩ := Prod.mk.inj heq
      obtain ⟨hspends, hpolicy, hnext⟩ := Manager.callStep_spends hstep ht
      have hclosing : ∀ t' ∈ next.map (Task.closing id'), t'.remaining k id = 0 := by
        simp [Task.remaining]
      by_cases hend : next = []
      · simp only [hend, ↓reduceIte]
        exact ⟨hspends, hpolicy, by simp [Task.Sound]⟩
      · simp only [hend, ↓reduceIte, heldBy_eq_zero.2 hclosing]
        exact ⟨hspends, hpolicy, by simpa [Task.Sound] using fun c hc hid => hnext hid c hc⟩
    | _ => cases h
  | ending id' =>
    cases i with
    | lock =>
      cases h
      exact untouched rfl rfl (by simp)
    | _ => cases h
  | call id' c =>
    cases i with
    | call i =>
      simp only [Task.step, Option.map_eq_some_iff] at h
      obtain ⟨⟨w₁, next⟩, hstep, heq⟩ := h
      obtain ⟨rfl, rfl⟩ := Prod.mk.inj heq
      obtain ⟨hspends, hpolicy, hnext⟩ := Manager.callStep_spends hstep ht
      rw [heldBy_eq_zero.2 (by simp [Task.remaining])]
      exact ⟨hspends, hpolicy, by simpa [Task.Sound] using fun c hc hid => hnext hid c hc⟩
    | _ => cases h
  | configure id' policy =>
    cases i with
    | go =>
      cases h
      have hid : id ≠ id' := fun hid => ht hid.symm
      simp only [Manager.setPolicy, Manager.setEntry_entries_ne hid]
      exact ⟨.same (Nat.zero_le _), trivial, by simp⟩
    | _ => cases h

end

/-! ## The bound -/

/-- Nobody reconnects the connection by hand or changes its policy, and a task
    is spawned for it only when no attempt has been made since the last success
    and no other task can make one. -/
def Once (id : String) (s : Session) : Move Task Input → Prop
  | .start t => t.Starts ∧ t ≠ .call id .reconnectEntry ∧ ∀ policy, t ≠ .configure id policy
  | .run n _ => ∀ policy rest, s.tasks[n]? = some (.spawning id policy rest) →
      (s.world.entries id).connection.reconnectAttempts = 0 ∧ ∀ t ∈ s.tasks, ¬t.MayAttempt id

/-- What the policy leaves at every point. -/
structure Bounded (id : String) (k : ℕ) (s : Session) : Prop where
  policy : (s.world.entries id).policy.maxAttempts = k
  sound : ∀ t ∈ s.tasks, t.Sound id k
  within : Within k (s.world.entries id).log
  counted : sinceSuccess (s.world.entries id).log =
    (s.world.entries id).connection.reconnectAttempts
  idle : (s.world.entries id).connection.state = .opened →
    (s.world.entries id).connection.reconnectAttempts = 0
  budget : (s.world.entries id).connection.reconnectAttempts +
    heldBy (Task.remaining k) s.tasks id ≤ k

section
variable {id : String} {k : ℕ} {s s' : Session} {m : Move Task Input} {registered : Finset String}
  {streams : String → Connection.Stream} {policies : String → ReconnectPolicy}

theorem Bounded.opened :
    Bounded id (policies id).maxAttempts (Session.opened registered streams policies) where
  policy := rfl
  sound := nofun
  within := by
    rintro l hl
    rw [List.suffix_nil.1 hl]
    exact Nat.zero_le _
  counted := rfl
  idle _ := rfl
  budget := Nat.zero_le _

theorem remaining_eq_zero {t : Task} (h : ¬t.MayAttempt id) : t.remaining k id = 0 := by
  cases t with
  | reconnect n id' policy attempts stage =>
    by_cases hid : id' = id
    · have hstage : stage = .resuming := by
        by_contra hne
        exact h ⟨hid, hne⟩
      simp [Task.remaining, hstage, Stage.remaining]
    · simp [Task.remaining, hid]
  | _ => rfl

/-- What a step leaves of a connection and of the attempts of its tasks. -/
theorem Spends.bounded {e e' : Entry} {before after r : ℕ} (h : Spends e before e' after)
    (hwithin : Within k e.log)
    (hcounted : sinceSuccess e.log = e.connection.reconnectAttempts)
    (hidle : e.connection.state = .opened → e.connection.reconnectAttempts = 0)
    (hbudget : e.connection.reconnectAttempts + (before + r) ≤ k) :
    Within k e'.log ∧ sinceSuccess e'.log = e'.connection.reconnectAttempts ∧
      (e'.connection.state = .opened → e'.connection.reconnectAttempts = 0) ∧
      e'.connection.reconnectAttempts + (after + r) ≤ k := by
  cases h with
  | keeps events hevents hlog hcount hstate hafter =>
    rw [hlog, hcount, sinceSuccess_append_inert hevents]
    exact ⟨hwithin.append_inert hevents, hcounted, fun h => hidle (hstate h), by omega⟩
  | attempts attempt events hevents hlog hcount hstate hafter =>
    have hsince : sinceSuccess (.reconnectStart attempt :: e.log) =
        e.connection.reconnectAttempts + 1 := congrArg (· + 1) hcounted
    rw [hlog, hcount, sinceSuccess_append_inert hevents]
    refine ⟨(hwithin.cons ?_).append_inert hevents, hsince, fun h => absurd h hstate, by omega⟩
    omega
  | resets hlog hcount =>
    rw [hcount]
    refine ⟨?_, ?_, fun _ => rfl, by omega⟩
    · rcases hlog with hlog | ⟨hlog, -⟩
      · rw [hlog]
        exact hwithin.cons (Nat.zero_le k)
      · rwa [hlog]
    · rcases hlog with hlog | ⟨hlog, hopen⟩
      · rw [hlog]
        rfl
      · rw [hlog, hcounted, hidle hopen]

theorem starts_sound {t : Task} (ht : t.Starts) (hcall : t ≠ .call id .reconnectEntry)
    (hconfigure : ∀ policy, t ≠ .configure id policy) : t.Sound id k := by
  cases t with
  | call id' c =>
    rintro rfl
    cases c with
    | reconnectEntry => exact absurd rfl hcall
    | installing stream => exact ht.elim
    | _ => exact fun h => h
  | configure id' policy =>
    rintro rfl
    exact hconfigure policy rfl
  | supervisor => trivial
  | cancelEntry id' => trivial
  | closeEntry id' => trivial
  | _ => exact ht.elim

theorem starts_remaining {t : Task} (ht : t.Starts) : t.remaining k id = 0 := by
  cases t with
  | reconnect n id' policy attempts stage => exact ht.elim
  | _ => rfl

/-- **Step**: the budget is kept. -/
theorem Bounded.move (h : Bounded id k s) (hk : 0 < k) (hm : Once id s m)
    (hs : s.move Task.step m = some s') : Bounded id k s' := by
  obtain ⟨hpolicy, hsound, hwithin, hcounted, hidle, hbudget⟩ := h
  obtain ⟨t, rfl, rfl⟩ | ⟨left, t, right, i, w, new, rfl, htasks, hstep, rfl⟩ := move_cases hs
  · obtain ⟨ht, hcall, hconfigure⟩ := hm
    refine ⟨hpolicy, ?_, hwithin, hcounted, hidle, ?_⟩
    · exact List.forall_mem_append.2
        ⟨hsound, List.forall_mem_singleton.2 (starts_sound ht hcall hconfigure)⟩
    · simpa [starts_remaining ht] using hbudget
  · rw [htasks] at hbudget hsound
    simp only [heldBy_append, heldBy_cons] at hbudget
    have ht : t.Sound id k := hsound t (by simp)
    have hsound' : (∀ t' ∈ new, t'.Sound id k) → ∀ t' ∈ left ++ new ++ right, t'.Sound id k :=
      forall_replaced rfl hsound fun _ _ ht' => ht'
    by_cases hspawn : ∃ policy rest, t = .spawning id policy rest
    · -- the whole budget is free
      obtain ⟨policy, rest, rfl⟩ := hspawn
      obtain ⟨hzero, hnone⟩ := hm policy rest (by simp [htasks])
      have hleft : heldBy (Task.remaining k) left id = 0 :=
        heldBy_eq_zero.2 fun t' ht' => remaining_eq_zero (hnone t' (by simp [htasks, ht']))
      have hright : heldBy (Task.remaining k) right id = 0 :=
        heldBy_eq_zero.2 fun t' ht' => remaining_eq_zero (hnone t' (by simp [htasks, ht']))
      obtain ⟨rfl, rfl⟩ : w = s.world.spawn ∧ new = [.registering id s.world.spawned rest,
          .reconnect s.world.spawned id policy 0 .spawned] := by
        cases i with
        | go => cases hstep; exact ⟨rfl, rfl⟩
        | _ => cases hstep
      refine ⟨hpolicy, hsound' ?_, hwithin, hcounted, hidle, ?_⟩
      · simpa [Task.Sound] using ⟨ht rfl, hk⟩
      · simp only [Manager.spawn, hzero, heldBy_append, hleft, hright]
        simp [Task.remaining, Stage.remaining]
    · have hspawn' : ∀ policy rest, t ≠ .spawning id policy rest :=
        fun policy rest h => hspawn ⟨policy, rest, h⟩
      obtain ⟨hspends, hpolicy', hnew⟩ := Task.step_spends hstep hk hpolicy ht hspawn'
      obtain ⟨hwithin', hcounted', hidle', hbudget'⟩ := hspends.bounded
        (r := heldBy (Task.remaining k) left id + heldBy (Task.remaining k) right id)
        hwithin hcounted hidle (by omega)
      refine ⟨(congrArg _ hpolicy').trans hpolicy, hsound' hnew, hwithin', hcounted', hidle', ?_⟩
      simp only [heldBy_append]
      omega

/-- **The attempts respect the policy.** Between a disconnect and the next
    success, and in fact in any window of the log without a success, there are
    at most `max_attempts` attempts, after a run in which nobody reconnects by
    hand and every task that is spawned starts from nothing. -/
theorem attempts_le (hk : 0 < (policies id).maxAttempts)
    (h : Runs Task.step (Once id) (Session.opened registered streams policies) s) :
    ∀ newer window older, (s.world.entries id).log = newer ++ window ++ older →
      .reconnectSuccess ∉ window →
        window.countP LogEvent.isStart ≤ (policies id).maxAttempts := by
  have hbounded : Bounded id (policies id).maxAttempts s :=
    h.invariant (fun hb hm hs => hb.move hk hm hs) .opened
  intro newer window older hlog hsuccess
  have hcount : window.countP LogEvent.isStart ≤ sinceSuccess (window ++ older) :=
    countP_le_sinceSuccess hsuccess
  exact hcount.trans (hbounded.within _ ⟨newer, by rw [hlog, List.append_assoc]⟩)

end

/-- A supervisor polls and has a task spawned, which fails at its first attempt. -/
def pollAndFail : List (Move Task Input) :=
  [.run 0 (.listed ["c"]), .run 0 .lock, .run 0 .lock, .run 0 .go, .run 0 .lock, .run 1 .go,
    .run 1 (.call (.built (.error "ENOENT")))]

/-- Only these two start, and a task only while there is no other. -/
def startsOnce (s : Session) : Move Task Input → Bool
  | .start t => t = .supervisor || t = .call "c" (.markEntry "EIO")
  | .run _ _ => s.tasks.length = 1 && (s.world.entries "c").connection.reconnectAttempts = 0 ||
      s.tasks.all fun t => match t with
        | .spawning _ _ _ => false
        | _ => true

theorem startsOnce_once {s : Session} {m : Move Task Input} (h : startsOnce s m = true) :
    Once "c" s m := by
  cases m with
  | start t =>
    simp only [startsOnce, Bool.or_eq_true, decide_eq_true_eq] at h
    rcases h with rfl | rfl
    · exact ⟨trivial, nofun, nofun⟩
    · exact ⟨trivial, nofun, nofun⟩
  | run n i =>
    intro policy rest hspawning
    have hmem := List.mem_of_getElem? hspawning
    simp only [startsOnce, Bool.or_eq_true, Bool.and_eq_true, decide_eq_true_eq,
      List.all_eq_true] at h
    rcases h with ⟨hone, hzero⟩ | h
    · obtain ⟨t, ht⟩ := List.length_eq_one_iff.1 hone
      rw [ht, List.mem_singleton] at hmem
      subst hmem
      exact ⟨hzero, by simp [ht, Task.MayAttempt]⟩
    · cases h _ hmem

theorem attempts_le_once : ∃ s, Runs Task.step (Once "c") oneAttempt s ∧ s.tasks = [.supervisor] ∧
    (s.world.entries "c").log.countP LogEvent.isStart = 1 ∧
      (s.world.entries "c").log.countP LogEvent.isStart ≤ 1 := by
  obtain ⟨s, hplay, htasks, hcount, hsuccess⟩ : ∃ s,
      oneAttempt.playIf Task.step startsOnce (portFails ++ pollAndFail) = some s ∧
        s.tasks = [.supervisor] ∧ (s.world.entries "c").log.countP LogEvent.isStart = 1 ∧
          .reconnectSuccess ∉ (s.world.entries "c").log :=
    ⟨_, rfl, rfl, rfl, by decide⟩
  have hrun : Runs Task.step (Once "c") oneAttempt s := .of_playIf startsOnce_once hplay
  exact ⟨s, hrun, htasks, hcount,
    attempts_le Nat.one_pos hrun [] _ [] (by simp) hsuccess⟩

/-- **Exhausted and started again**: the next poll finds that the task has
    finished and has another one spawned, which counts from nothing. -/
theorem attempts_unbounded :
    ¬∀ (registered : Finset String) (streams : String → Connection.Stream)
      (policies : String → ReconnectPolicy) (id : String) (s : Session),
      (policies id).enabled → 0 < (policies id).maxAttempts →
      Runs Task.step (fun s m => AnyMove s m ∧ m ≠ .start (.call id .reconnectEntry) ∧
        ∀ policy, m ≠ .start (.configure id policy)) (Session.opened registered streams policies) s →
      ∀ newer window older, (s.world.entries id).log = newer ++ window ++ older →
        .reconnectSuccess ∉ window →
          window.countP LogEvent.isStart ≤ (policies id).maxAttempts := by
  intro h
  obtain ⟨s, hplay, hcount, hsuccess⟩ : ∃ s,
      oneAttempt.play Task.step (portFails ++ pollAndFail ++ pollAndFail) = some s ∧
        (s.world.entries "c").log.countP LogEvent.isStart = 2 ∧
          .reconnectSuccess ∉ (s.world.entries "c").log :=
    ⟨_, rfl, rfl, by decide⟩
  have hrun : Runs Task.step (fun s m => AnyMove s m ∧ m ≠ .start (.call "c" .reconnectEntry) ∧
      ∀ policy, m ≠ .start (.configure "c" policy)) oneAttempt s := by
    refine (Runs.of_play (D := fun m => AnyMove oneAttempt m ∧
      m ≠ .start (.call "c" .reconnectEntry) ∧ ∀ policy, m ≠ .start (.configure "c" policy))
      ?_ hplay).mono fun hm => hm
    simp [portFails, pollAndFail, AnyMove, Task.Starts, Connection.Task.Starts]
  have hle := h {"c"} (fun _ => ⟨0⟩) (fun _ => { enabled := true, maxAttempts := 1 }) "c" s rfl
    Nat.one_pos hrun [] _ [] (by simp) hsuccess
  rw [hcount] at hle
  exact absurd hle (by simp)

end SerialMcp.Reconnect
