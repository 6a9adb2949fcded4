/-
  The mark of `capture_boot` is atomic: the ring holds what the pump has read, in
  order, and a capture marks it between the reads of the pump.

  * `Task.step_ring`: what a step does to the ring and to the bytes on their way
    there; only with the pump gate does it do anything;
  * `capture_mark_atomic`: in every run, the bytes that the pump had read before a
    capture purged the port are in the ring before its mark, the bytes from the mark
    on were read after it, and no step of a capture changes the ring or the shared
    read cursor.
-/
import SerialMcp.Capture.Boot
import SerialMcp.Read.Concurrent

namespace SerialMcp.Capture

open Tasks Interact

/-! ## Bytes on their way -/

/-- The bytes that a task has read and not appended yet. -/
def Task.hand : Task → Bytes
  | .pumpReading tr _ => inFlight tr
  | .pumpAppending bytes => bytes
  | _ => []

/-- Operations that leave the ring, its cursor and the port alone. -/
def Quiet : LinkOp → Prop
  | .rx op => op.Private
  | _ => False

/-- What holds of a task that is on its way. -/
def Task.Sound (w : World) : Task → Prop
  | .pumpReading tr p =>
    wpg linkAct Anything PumpGuarantee p Holding tr w.link ∧ p.All LinkOp.NoAppend
  | .captureMarking _ purged => purged = w.stream.length
  | .captureReading _ p => p.All Quiet
  | .pumpPausing p => p.All LinkOp.NoAppend
  | .other p => p.All LinkOp.NoAppend
  | _ => True

section
variable {crates : Crates} {polls : ℕ} {w w' : World} {t : Task} {i : Input} {new : List Task}
  {s s' : Session}

theorem hand_of_held (h : t.held .pumpGate = 0) : t.hand = [] := by
  cases t with
  | pumpReading | pumpAppending => cases h
  | _ => rfl

theorem cleanups_hand (armed : Option (ℕ × Reset)) : (cleanups armed).flatMap Task.hand = [] := by
  rcases armed with _ | ⟨id, reset⟩ <;> rfl

theorem captureRead_all (crates : Crates) (args : CaptureArgs) (mark : ℕ) :
    (captureRead crates args mark).All Quiet := by
  refine Prog.All.bind (Prog.All.lift ?_) fun _ => trivial
  exact readFromPrivateCursor_all crates args.turns args.request mark

theorem Quiet.noAppend {op : LinkOp} (h : Quiet op) : op.NoAppend := by
  rintro bytes rfl
  exact h.elim

/-- A quiet operation changes neither the ring nor the shared cursor. -/
theorem Quiet.frame {op : LinkOp} (h : Quiet op) (w : World) :
    (w.perform op).link.rx.feed = w.link.rx.feed ∧
      (w.perform op).link.rx.readCursor = w.link.rx.readCursor := by
  cases op with
  | rx op =>
    refine ⟨act_feed op w.link.rx, ?_⟩
    cases op <;> first | rfl | exact h.elim
  | _ => exact h.elim

theorem stream_perform {op : LinkOp} (h : op.NoAppend) (w : World) :
    (w.perform op).stream = w.stream := by
  change (linkAct op w.link).2.rx.feed.stream = w.link.rx.feed.stream
  cases linkAct_effect op w.link with
  | polled _ _ _ hfeed => rw [hfeed]
  | appended he _ _ =>
    cases he
    exact absurd rfl (h _)
  | none _ _ _ hfeed => rw [hfeed]

theorem pumpPause_all (turns : ℕ) : (pumpPause turns).All LinkOp.NoAppend := by
  induction turns with
  | zero => exact trivial
  | succ turns ih =>
    refine ⟨nofun, fun cancelled => .ite trivial ⟨nofun, fun state => ?_⟩⟩
    cases state with
    | opened | closed => exact trivial
    | disconnected | reconnecting => exact ⟨nofun, fun _ => ih⟩

/-! ## Steps -/

/-- What a step does to the bytes on their way, and to the marks. -/
structure Moves (t : Task) (w w' : World) (new : List Task) : Prop where
  bytes : ∃ x y, w'.pumped = w.pumped ++ x ∧ w'.stream = w.stream ++ y ∧
    y ++ new.flatMap Task.hand = t.hand ++ x ∧ (t.held .pumpGate = 0 → x = [] ∧ y = [])
  marks : w'.marks = w.marks ∨ ∃ args purged, t = .captureMarking args purged ∧
    w'.marks = w.marks ++ [⟨w.link.rx.feed.ring.endOffset, purged⟩]
  tasks : ∀ t' ∈ new, t'.Sound w'

/-- A step that reads and appends nothing. -/
theorem Moves.still (hpumped : w'.pumped = w.pumped) (hstream : w'.stream = w.stream)
    (hmarks : w'.marks = w.marks) (hhand : new.flatMap Task.hand = t.hand)
    (hnew : ∀ t' ∈ new, t'.Sound w') : Moves t w w' new where
  bytes := ⟨[], [], by rw [hpumped, List.append_nil], by rw [hstream, List.append_nil],
    by rw [hhand, List.append_nil, List.nil_append], fun _ => ⟨rfl, rfl⟩⟩
  marks := .inl hmarks
  tasks := hnew

/-- A step of a read of the pump. -/
theorem pumpReading_moves {tr : List LinkEvent} {op : LinkOp}
    {k : op.Resp → LinkProg (Except SerialError Bytes)}
    (ht : (Task.pumpReading tr (.call op k)).Sound w) :
    Moves (.pumpReading tr (.call op k)) w
      { w.perform op with pumped := w.pumped ++ obtains ⟨op, (linkAct op w.link).1⟩ }
      [.pumpReading (tr ++ [⟨op, (linkAct op w.link).1⟩]) (k (linkAct op w.link).1)] := by
  obtain ⟨hwpg, hall, hk⟩ := ht
  obtain ⟨hguarantee, hrest⟩ := hwpg w.link trivial
  have hstream := stream_perform hall w
  have hflight := inFlight_snoc tr ⟨op, (linkAct op w.link).1⟩
  refine ⟨⟨_, [], rfl, by rw [List.append_nil]; exact hstream, ?_, fun h => (by cases h)⟩,
    .inl rfl, List.forall_mem_singleton.2 ⟨hrest, hk _⟩⟩
  simp only [List.flatMap_cons, List.flatMap_nil, Task.hand, List.append_nil, List.nil_append]
  rw [hflight]
  cases linkAct_effect op w.link with
  | polled he _ _ _ =>
    rw [he] at hflight ⊢
    cases op with
    | poll =>
      have hempty : inFlight tr = [] := hguarantee
      rw [hempty]
      rfl
    | _ => cases he
  | appended he _ _ =>
    cases he
    exact absurd rfl (hall _)
  | none hsame hobtains _ _ => rw [hsame, hobtains, List.append_nil]

/-- The read of the pump goes on, ends with what it has, or is called off with nothing. -/
theorem pumpRead_moves {tr : List LinkEvent} {p : LinkProg (Except SerialError Bytes)}
    (ht : (Task.pumpReading tr p).Sound w)
    (hstep : Task.step crates polls (.pumpReading tr p) i w = some (w', new)) :
    Moves (.pumpReading tr p) w w' new := by
  cases i with
  | turn =>
    rcases p with (e | bytes) | ⟨op, k⟩
    · have hempty : inFlight tr = [] := ht.1
      simp only [Task.step] at hstep
      split_ifs at hstep <;> cases hstep
      · exact .still rfl rfl rfl hempty.symm (List.forall_mem_singleton.2 trivial)
      · exact .still rfl rfl rfl hempty.symm (List.forall_mem_singleton.2 trivial)
      · exact .still rfl rfl rfl hempty.symm fun t ht => by cases ht
    · have hbytes : inFlight tr = bytes := ht.1
      simp only [Task.step] at hstep
      split_ifs at hstep with hempty <;> cases hstep
      · refine .still rfl rfl rfl ?_ (List.forall_mem_singleton.2 trivial)
        exact (hbytes.trans (List.isEmpty_iff.1 hempty)).symm
      · refine .still rfl rfl rfl ?_ (List.forall_mem_singleton.2 trivial)
        simp only [List.flatMap_cons, List.flatMap_nil, Task.hand, List.append_nil, hbytes]
    · cases hstep
      exact pumpReading_moves ht
  | cancelled =>
    simp only [Task.step] at hstep
    split_ifs at hstep with hcancelled
    cases hstep
    exact .still rfl rfl rfl hcancelled.2.symm fun t ht => by cases ht
  | _ => rcases p with (e | bytes) | ⟨op, k⟩ <;> cases hstep

/-- A purge, while the capture has the gate. -/
theorem purge_moves {args : CaptureArgs}
    (hhand : w.pumped = w.stream ++ (Task.capturePurging args).hand)
    (hstep : Task.step crates polls (.capturePurging args) i w = some (w', new)) :
    Moves (.capturePurging args) w w' new := by
  cases i with
  | port answer =>
    simp only [Task.step] at hstep
    split_ifs at hstep <;> cases hstep
    · -- nothing is on its way to the ring while the capture has the gate
      have hempty : w.pumped = w.stream := hhand.trans (List.append_nil _)
      refine .still rfl rfl rfl rfl (List.forall_mem_singleton.2 ?_)
      exact congrArg List.length hempty
    · exact .still rfl rfl rfl rfl fun t ht => by cases ht
  | dropped =>
    cases hstep
    exact .still rfl rfl rfl rfl fun t ht => by cases ht
  | _ => cases hstep

theorem mark_moves {args : CaptureArgs} {purged : ℕ}
    (hstep : Task.step crates polls (.captureMarking args purged) i w = some (w', new)) :
    Moves (.captureMarking args purged) w w' new := by
  cases i with
  | turn =>
    simp only [Task.step] at hstep
    split at hstep <;> cases hstep
    · refine ⟨⟨[], [], (List.append_nil _).symm, (List.append_nil _).symm, rfl, fun _ => ⟨rfl, rfl⟩⟩,
        .inr ⟨args, purged, rfl, rfl⟩, List.forall_mem_singleton.2 ?_⟩
      exact captureRead_all crates args _
    · exact ⟨⟨[], [], (List.append_nil _).symm, (List.append_nil _).symm, rfl, fun _ => ⟨rfl, rfl⟩⟩,
        .inr ⟨args, purged, rfl, rfl⟩, List.forall_mem_singleton.2 trivial⟩
  | _ => cases hstep

/-- The read of a capture, until its guard is dropped. -/
theorem captureRead_moves {armed : Option (ℕ × Reset)} {p : LinkProg Unit}
    (ht : (Task.captureReading armed p).Sound w)
    (hstep : Task.step crates polls (.captureReading armed p) i w = some (w', new)) :
    Moves (.captureReading armed p) w w' new := by
  have hcleanups : ∀ t ∈ cleanups armed, t.Sound w := by
    rcases armed with _ | ⟨id, reset⟩
    · exact fun t ht => by cases ht
    · exact List.forall_mem_singleton.2 trivial
  cases i with
  | turn =>
    rcases p with _ | ⟨op, k⟩
    · cases hstep
      exact .still rfl rfl rfl (cleanups_hand armed) hcleanups
    · cases hstep
      exact .still rfl (stream_perform ht.1.noAppend w) rfl rfl
        (List.forall_mem_singleton.2 (ht.2 _))
  | dropped =>
    simp only [Task.step] at hstep
    cases hstep
    exact .still rfl rfl rfl (cleanups_hand armed) hcleanups
  | _ => rcases p with _ | ⟨op, k⟩ <;> cases hstep

/-- **What a step does to the ring**: with the gate the pump obtains bytes and appends
    what it has. -/
theorem Task.step_moves (ht : t.Sound w)
    (hhand : t.held .pumpGate = 1 → w.pumped = w.stream ++ t.hand)
    (hstep : Task.step crates polls t i w = some (w', new)) : Moves t w w' new := by
  cases t with
  | pump =>
    cases i with
    | turn =>
      cases hstep
      refine .still rfl rfl rfl ?_ fun t ht => ?_
      · split <;> rfl
      · split at ht
        · cases ht
        · rw [List.mem_singleton.1 ht]
          trivial
    | _ => cases hstep
  | pumpWaiting =>
    cases i with
    | turn =>
      simp only [Task.step] at hstep
      split_ifs at hstep
      cases hstep
      refine .still rfl rfl rfl rfl (List.forall_mem_singleton.2 ?_)
      exact ⟨SerialConnection.read_wpg polls _ _ rfl, SerialConnection.read_all polls _ _⟩
    | _ => cases hstep
  | pumpReading tr p => exact pumpRead_moves ht hstep
  | pumpAppending bytes =>
    cases i with
    | turn =>
      simp only [Task.step] at hstep
      split_ifs at hstep with hlt
      cases hstep
      refine ⟨⟨[], bytes, (List.append_nil _).symm, Feed.push_stream hlt, ?_, fun h => (by cases h)⟩,
        .inl rfl, List.forall_mem_singleton.2 trivial⟩
      simp [Task.hand]
    | _ => cases hstep
  | pumpMarking =>
    cases i with
    | turn =>
      cases hstep
      exact .still rfl rfl rfl rfl (List.forall_mem_singleton.2 (pumpPause_all polls))
    | _ => cases hstep
  | pumpPausing p =>
    cases i with
    | turn =>
      rcases p with resumes | ⟨op, k⟩
      · cases hstep
        refine .still rfl rfl rfl ?_ fun t ht => ?_
        · split <;> rfl
        · split at ht
          · rw [List.mem_singleton.1 ht]
            trivial
          · cases ht
      · cases hstep
        exact .still rfl (stream_perform ht.1 w) rfl rfl (List.forall_mem_singleton.2 (ht.2 _))
    | _ => rcases p with _ | ⟨op, k⟩ <;> cases hstep
  | capture args =>
    cases i with
    | turn =>
      simp only [Task.step] at hstep
      split_ifs at hstep <;> cases hstep <;>
        exact .still rfl rfl rfl rfl (List.forall_mem_singleton.2 trivial)
    | dropped =>
      cases hstep
      exact .still rfl rfl rfl rfl fun t ht => by cases ht
    | _ => cases hstep
  | captureWaiting args =>
    cases i with
    | turn =>
      simp only [Task.step] at hstep
      split_ifs at hstep
      cases hstep
      exact .still rfl rfl rfl rfl (List.forall_mem_singleton.2 trivial)
    | dropped =>
      cases hstep
      exact .still rfl rfl rfl rfl fun t ht => by cases ht
    | _ => cases hstep
  | capturePurging args => exact purge_moves (hhand rfl) hstep
  | captureMarking args purged => exact mark_moves hstep
  | captureAsserting id args reset mark =>
    cases i with
    | port answer =>
      simp only [Task.step] at hstep
      split_ifs at hstep <;> cases hstep <;>
        exact .still rfl rfl rfl rfl (List.forall_mem_singleton.2 trivial)
    | dropped =>
      cases hstep
      exact .still rfl rfl rfl rfl (List.forall_mem_singleton.2 trivial)
    | _ => cases hstep
  | captureHolding id args reset mark =>
    cases i with
    | turn | cancelled | dropped =>
      cases hstep
      exact .still rfl rfl rfl rfl (List.forall_mem_singleton.2 trivial)
    | _ => cases hstep
  | captureReleasing id args reset mark cancelled =>
    cases i with
    | port answer =>
      have hread := captureRead_all crates args mark
      simp only [Task.step] at hstep
      split_ifs at hstep <;> cases hstep
      · exact .still rfl rfl rfl rfl (List.forall_mem_singleton.2 hread)
      · exact .still rfl rfl rfl rfl (List.forall_mem_singleton.2 trivial)
      · exact .still rfl rfl rfl rfl (List.forall_mem_singleton.2 hread)
    | dropped =>
      cases hstep
      exact .still rfl rfl rfl rfl (List.forall_mem_singleton.2 trivial)
    | _ => cases hstep
  | captureReading armed p => exact captureRead_moves ht hstep
  | setDtrRts dtr rts =>
    cases i with
    | turn =>
      simp only [Task.step] at hstep
      split_ifs at hstep
      cases hstep
      exact .still rfl rfl rfl rfl (List.forall_mem_singleton.2 trivial)
    | dropped =>
      cases hstep
      exact .still rfl rfl rfl rfl fun t ht => by cases ht
    | _ => cases hstep
  | settingDtrRts dtr rts =>
    cases i with
    | port answer =>
      simp only [Task.step] at hstep
      split_ifs at hstep
      cases hstep
      exact .still rfl rfl rfl rfl fun t ht => by cases ht
    | dropped =>
      cases hstep
      exact .still rfl rfl rfl rfl fun t ht => by cases ht
    | _ => cases hstep
  | cleanup id reset =>
    cases i with
    | turn =>
      simp only [Task.step] at hstep
      split_ifs at hstep
      cases hstep
      exact .still rfl rfl rfl rfl (List.forall_mem_singleton.2 trivial)
    | _ => cases hstep
  | cleaning id reset =>
    cases i with
    | port answer =>
      simp only [Task.step] at hstep
      split_ifs at hstep
      cases hstep
      exact .still rfl rfl rfl rfl fun t ht => by cases ht
    | _ => cases hstep
  | other p =>
    cases i with
    | turn =>
      rcases p with _ | ⟨op, k⟩
      · cases hstep
        exact .still rfl rfl rfl rfl fun t ht => by cases ht
      · cases hstep
        exact .still rfl (stream_perform ht.1 w) rfl rfl (List.forall_mem_singleton.2 (ht.2 _))
    | dropped =>
      simp only [Task.step] at hstep
      cases hstep
      exact .still rfl rfl rfl rfl fun t ht => by cases ht
    | _ => rcases p with _ | ⟨op, k⟩ <;> cases hstep
  | clearing =>
    cases i with
    | turn =>
      cases hstep
      exact .still rfl rfl rfl rfl (List.forall_mem_singleton.2 trivial)
    | _ => cases hstep
  | clamping =>
    cases i with
    | turn =>
      cases hstep
      exact .still rfl rfl rfl rfl fun t ht => by cases ht
    | _ => cases hstep
  | outside =>
    cases i with
    | changes link io =>
      cases hstep
      exact .still rfl rfl rfl rfl fun t ht => by cases ht
    | _ => cases hstep

/-! ## Runs -/

/-- What holds in every state. -/
structure Inv (s : Session) : Prop where
  locks : Covered Task.held World.booked s
  bytes : s.world.pumped = s.world.stream ++ s.tasks.flatMap Task.hand
  marks : ∀ m ∈ s.world.marks, m.purged = m.offset ∧ m.offset ≤ s.world.stream.length
  tasks : ∀ t ∈ s.tasks, t.Sound s.world

theorem flatMap_hand {ts : List Task} (h : ∀ t ∈ ts, t.held .pumpGate = 0) :
    ts.flatMap Task.hand = [] :=
  List.flatMap_eq_nil_iff.2 fun t ht => hand_of_held (h t ht)

theorem Task.Sound.mono (h : t.Sound w)
    (hstream : t.held .pumpGate = 1 → w'.stream = w.stream) : t.Sound w' := by
  cases t with
  | pumpReading tr p =>
    exact ⟨wpg_rely (fun _ _ _ _ _ => trivial) (fun _ _ _ _ _ h => h) trivial h.1, h.2⟩
  | captureMarking args purged => exact h.trans (congrArg List.length (hstream rfl).symm)
  | captureReading | pumpPausing | other => exact h
  | _ => trivial

theorem Task.Starts.sound (h : t.Starts crates) : t.Sound w := by
  cases h with
  | other hp => exact hp.all
  | _ => trivial

theorem Inv.move {m : Move Task Input} (h : Inv s) (hm : AnyMove crates s m)
    (hmove : s.move (Task.step crates polls) m = some s') : Inv s' := by
  have hlocks := locks_move h.locks hm hmove
  rcases move_cases hmove with ⟨t, rfl, rfl⟩ | ⟨l, t, r, i, w, new, rfl, htasks, hstep, rfl⟩
  · have hhand : [t].flatMap Task.hand = [] :=
      flatMap_hand (List.forall_mem_singleton.2 (Task.Starts.held hm _))
    refine ⟨hlocks, ?_, h.marks,
      List.forall_mem_append.2 ⟨h.tasks, List.forall_mem_singleton.2 (Task.Starts.sound hm)⟩⟩
    dsimp only
    rw [List.flatMap_append, hhand, List.append_nil]
    exact h.bytes
  · have hothers : t.held .pumpGate = 1 → (l ++ r).flatMap Task.hand = [] := fun ht =>
      flatMap_hand (lock_alone h.locks htasks ht)
    have hbytes := h.bytes
    rw [htasks, List.flatMap_append, List.flatMap_cons] at hbytes
    have hhand : t.held .pumpGate = 1 → s.world.pumped = s.world.stream ++ t.hand := by
      intro ht
      have hnone := hothers ht
      rw [List.flatMap_append, List.append_eq_nil_iff] at hnone
      rw [hbytes, hnone.1, hnone.2, List.nil_append, List.append_nil]
    have hsound := h.tasks t (by simp [htasks])
    obtain ⟨⟨x, y, hpumped, hstream, hflow, hstill⟩, hmarks, hnew⟩ :=
      Task.step_moves hsound hhand hstep
    have hle : t.held .pumpGate ≤ 1 :=
      (held_le (by simp [htasks]) _).trans ((h.locks _).trans (booked_le_one _ _))
    refine ⟨hlocks, ?_, ?_, ?_⟩
    · dsimp only
      rw [List.flatMap_append, List.flatMap_append]
      rcases Nat.le_one_iff_eq_zero_or_eq_one.1 hle with ht | ht
      · obtain ⟨rfl, rfl⟩ := hstill ht
        rw [List.append_nil] at hpumped hstream hflow
        rw [hpumped, hstream, hbytes, ← hflow, List.nil_append, List.append_assoc]
      · have hnone := hothers ht
        rw [List.flatMap_append, List.append_eq_nil_iff] at hnone
        rw [hpumped, hstream, hhand ht, hnone.1, hnone.2, List.nil_append, List.append_nil,
          List.append_assoc, ← hflow, List.append_assoc]
    · have hlen : s.world.stream.length ≤ w.stream.length := by
        rw [hstream, List.length_append]
        omega
      have hold : ∀ m ∈ s.world.marks, m.purged = m.offset ∧ m.offset ≤ w.stream.length :=
        fun m hm => ⟨(h.marks m hm).1, (h.marks m hm).2.trans hlen⟩
      rcases hmarks with hmarks | ⟨args, purged, rfl, hmarks⟩
      · rw [hmarks]
        exact hold
      · have hend : s.world.link.rx.feed.ring.endOffset = s.world.stream.length :=
          s.world.link.rx.feed.refines.stop
        rw [hmarks, hend]
        exact List.forall_mem_append.2 ⟨hold, List.forall_mem_singleton.2 ⟨hsound, hlen⟩⟩
    · refine forall_replaced htasks h.tasks (fun t' ht' hsound' => hsound'.mono fun hheld => ?_) hnew
      -- another task has the gate, so this one has not
      have ht : t.held .pumpGate = 0 := by
        by_contra hne
        have hone : t.held .pumpGate = 1 := by omega
        have hzero := lock_alone h.locks htasks hone t' ht'
        omega
      rw [hstream, (hstill ht).2, List.append_nil]

/-- The tasks of a capture. -/
def Task.captures : Task → Bool
  | .capture _ | .captureWaiting _ | .capturePurging _ | .captureMarking .. => true
  | .captureAsserting .. | .captureHolding .. | .captureReleasing .. | .captureReading .. => true
  | _ => false

/-- **A capture changes neither the ring nor the shared cursor.** -/
theorem captures_frame (ht : t.Sound w) (hcaptures : t.captures = true)
    (hstep : Task.step crates polls t i w = some (w', new)) :
    w'.link.rx.feed = w.link.rx.feed ∧ w'.link.rx.readCursor = w.link.rx.readCursor := by
  cases t with
  | captureReading armed p =>
    cases i with
    | turn =>
      rcases p with _ | ⟨op, k⟩ <;> cases hstep
      · exact ⟨rfl, rfl⟩
      · exact ht.1.frame w
    | dropped =>
      simp only [Task.step] at hstep
      cases hstep
      exact ⟨rfl, rfl⟩
    | _ => rcases p with _ | ⟨op, k⟩ <;> cases hstep
  | capture | captureWaiting | capturePurging | captureMarking | captureAsserting
  | captureHolding | captureReleasing =>
    cases i
    all_goals simp only [Task.step, reduceCtorEq] at hstep
    all_goals try split at hstep
    all_goals try split_ifs at hstep
    all_goals cases hstep
    all_goals exact ⟨rfl, rfl⟩
  | _ => cases hcaptures

/-- **The mark of a capture is atomic.** The ring holds the bytes that the pump has read,
    each at the offset of its number. Those it had read before the purge of a capture are
    in the ring below the mark, and those at the mark and above were read after it. -/
theorem capture_mark_atomic {link : Link} {io : Bool}
    (h : Runs (Task.step crates polls) (AnyMove crates) (Session.init link io) s) :
    s.world.stream <+: s.world.pumped ∧
    (∀ m ∈ s.world.marks,
      (∀ n < m.purged, n < s.world.stream.length ∧ n < m.offset) ∧
      ∀ o < s.world.stream.length, m.offset ≤ o → m.purged ≤ o) ∧
    ∀ l t r i w new, s.tasks = l ++ t :: r → t.captures = true →
      Task.step crates polls t i s.world = some (w, new) →
        w.link.rx.feed = s.world.link.rx.feed ∧
          w.link.rx.readCursor = s.world.link.rx.readCursor := by
  have hinit : Inv (Session.init link io) :=
    ⟨fun k => Nat.zero_le _, (List.append_nil _).symm, fun m hm => (by cases hm),
      fun t ht => (by cases ht)⟩
  have hinv := h.invariant (J := Inv) (fun hs hm hmove => hs.move hm hmove) hinit
  refine ⟨⟨_, hinv.bytes.symm⟩, fun m hm => ?_, fun l t r i w new htasks hcaptures hstep => ?_⟩
  · obtain ⟨hpurged, hle⟩ := hinv.marks m hm
    exact ⟨fun n hn => ⟨by omega, by omega⟩, fun o _ ho => by omega⟩
  · exact captures_frame (hinv.tasks t (by simp [htasks])) hcaptures hstep

end

/-- One turn of the pump, that finds bytes. -/
def pumpTurn : List (Move Task Input) := List.replicate 10 (.run 0 .turn)

/-- The pump appends three bytes, a capture purges the port and makes its mark, and the
    pump appends a byte that arrives then. -/
def pumpAndCapture : List (Move Task Input) :=
  [.start .pump] ++ pumpTurn ++
    [.start (.capture { reset := none, request := { maxBytes := 4 }, turns := 1 }),
      .run 1 .turn, .run 1 .turn, .run 1 (.port .ok), .run 1 .turn, .start .outside,
      .run 2 (.changes { okLink with osBuffer := [7], osRead := [111, 107, 33] } true)] ++ pumpTurn

theorem capture_mark_atomic_ok : ∃ s,
    (Session.init okLink true).play (Task.step .refusing 1) pumpAndCapture = some s ∧
      s.world.marks = [⟨3, 3⟩] ∧ s.world.stream = [111, 107, 33, 7] ∧
      s.world.stream <+: s.world.pumped := by
  have hrun : ((Session.init okLink true).play (Task.step .refusing 1) pumpAndCapture).map
      (fun s => (s.world.marks, s.world.stream)) = some ([⟨3, 3⟩], [111, 107, 33, 7]) := by
    decide +kernel
  obtain ⟨s, hplay, heq⟩ := Option.map_eq_some_iff.1 hrun
  obtain ⟨hmarks, hstream⟩ := Prod.mk.inj heq
  have hmoves : ∀ m ∈ pumpAndCapture, AnyMove .refusing (Session.init okLink true) m := by
    simp [pumpAndCapture, pumpTurn, AnyMove, Task.Starts.pump, Task.Starts.capture,
      Task.Starts.outside]
  have hruns := (Runs.of_play hmoves hplay).mono fun hm => hm
  exact ⟨s, hplay, hmarks, hstream, (capture_mark_atomic hruns).1⟩

end SerialMcp.Capture
