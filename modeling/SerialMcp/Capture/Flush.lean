/-
  `flush` (`tools/io_ops.rs`) on a connection with its pump, its captures and its reads.

  A flush of the input purges the port, then clears the ring and sets the shared cursor to
  the ring's end, each under a lock of its own: the pump, that a flush does not wait for,
  may read and append in between.  A flush of the output goes to the TX session, whose
  answer is an input here.

  * `Task.step`: the flushes, beside all that goes on on the connection;
  * `Read.chunk`: the pump has one chunk of the port on its way at most;
  * `flush_discards`: behind a flush no read obtains what the pump had read before it,
    but for the chunk that was on its way to the ring.
-/
import SerialMcp.Capture.Mark

namespace SerialMcp.Flush

open Tasks Interact

/-! ## The flushes -/

/-- `FlushTarget` -/
inductive FlushTarget where
  | input
  | output
  | both
  deriving DecidableEq, Repr

/-- A purge of the port: how much the pump had read and appended by then, and whether its
    gate was free. -/
structure Purge where
  pumped : ℕ
  appended : ℕ
  idle : Bool
  deriving DecidableEq, Repr

/-- A flush that got to the end of `discard_rx_backlog`. -/
structure Discard where
  purge : Purge
  /-- the ring's end when it was cleared -/
  cleared : ℕ
  /-- what the shared cursor was set to -/
  cursor : ℕ
  deriving DecidableEq, Repr

/-- What a flush returns. -/
inductive Reply where
  /-- success, with what was discarded if the connection had an RX session -/
  | flushed (target : FlushTarget) (discard : Option Discard)
  | notFound
  | failed (answer : Capture.Answer)
  deriving DecidableEq, Repr

structure World where
  base : Capture.World
  replies : List Reply

inductive Task where
  /-- `flush`, at the lookup of the connection -/
  | flush (target : FlushTarget)
  /-- at the TX session -/
  | flushingOutput (target : FlushTarget)
  /-- at `flush_buffers(Input)` -/
  | flushingInput (target : FlushTarget)
  /-- `discard_rx_backlog`, at the lookup of the RX session -/
  | discarding (target : FlushTarget) (purge : Purge)
  /-- with the ring cleared -/
  | measuring (target : FlushTarget) (purge : Purge) (cleared : ℕ)
  /-- with the ring's end -/
  | clamping (target : FlushTarget) (purge : Purge) (cleared cursor : ℕ)
  /-- all else that goes on on the connection -/
  | link (t : Capture.Task)

inductive Input where
  | turn
  /-- there is no such connection, or no RX session any more -/
  | missing
  /-- what the TX session, or the port, answers -/
  | answer (a : Capture.Answer)
  | dropped
  | link (i : Capture.Input)

namespace World

def ring (w : World) : RxRing := w.base.link.rx.feed.ring

def reply (w : World) (r : Reply) : World := { w with replies := w.replies ++ [r] }

def withLink (w : World) (link : Link) : World := { w with base := { w.base with link } }

/-- The port drops what it has received. -/
def purge (w : World) : World := w.withLink { w.base.link with osBuffer := [] }

/-- What there is to say of a purge now. -/
def purged (w : World) : Purge :=
  ⟨w.base.pumped.length, w.base.stream.length, !w.base.pumpGate⟩

/-- `RxRing::clear` -/
def clear (w : World) : World :=
  let feed := w.base.link.rx.feed
  let cleared : Feed := ⟨feed.ring.clear, feed.stream, RxRing.clear_refines feed.refines⟩
  w.withLink { w.base.link with rx := { w.base.link.rx with feed := cleared } }

/-- `set_read_cursor` -/
def setReadCursor (w : World) (cursor : ℕ) : World :=
  w.withLink (linkAct (.rx (.setReadCursor cursor)) w.base.link).2

end World

section
variable (crates : Crates) (polls : ℕ)

/-- One step of a task. -/
def Task.step : Task → Input → World → Option (World × List Task)
  | .flush target, .turn, w =>
    some (w, [if target = .input then .flushingInput target else .flushingOutput target])
  | .flush _, .missing, w => some (w.reply .notFound, [])
  | .flushingOutput target, .answer a, w =>
    if a = .ok then
      if target = .both then some (w, [.flushingInput target])
      else some (w.reply (.flushed target none), [])
    else some (w.reply (.failed a), [])
  | .flushingInput target, .answer a, w =>
    if w.base.answers a = false then none
    else if a = .ok then some (w.purge, [.discarding target w.purged])
    else some (w.reply (.failed a), [])
  | .discarding target purge, .turn, w => some (w.clear, [.measuring target purge w.ring.endOffset])
  | .discarding target _, .missing, w => some (w.reply (.flushed target none), [])
  | .measuring target purge cleared, .turn, w =>
    some (w, [.clamping target purge cleared w.ring.endOffset])
  | .clamping target purge cleared cursor, .turn, w =>
    some ((w.setReadCursor cursor).reply (.flushed target (some ⟨purge, cleared, cursor⟩)), [])
  -- nothing is awaited behind the clear
  | .flush _, .dropped, w | .flushingOutput _, .dropped, w | .flushingInput _, .dropped, w
  | .discarding _ _, .dropped, w => some (w, [])
  | .link t, .link i, w =>
    (t.step crates polls i w.base).map fun r => ({ w with base := r.1 }, r.2.map .link)
  | _, _, _ => none

/-- The tasks that can come in. -/
inductive Task.Starts : Task → Prop
  | flush (target : FlushTarget) : Task.Starts (.flush target)
  | link {t : Capture.Task} (h : t.Starts crates) : Task.Starts (.link t)

abbrev Session := State World Task

/-- Every interleaving. -/
def AnyMove (_ : Session) : Move Task Input → Prop
  | .start t => t.Starts crates
  | .run _ _ => True

end

def Session.init (link : Link) (io : Bool) : Session :=
  ⟨⟨(Capture.Session.init link io).world, []⟩, []⟩

/-! ## The chunk of the pump -/

/-- A poll asks for one chunk at most. -/
def Chunked : LinkOp → Prop
  | .poll max _ => max ≤ pumpReadSize
  | _ => True

theorem recorded_chunked (r : Except SerialError Bytes) :
    (SerialConnection.recorded r).All Chunked := by
  rcases r with e | bytes
  · exact trivial
  · exact ⟨trivial, fun _ => trivial⟩

theorem readPolls_chunked (deadline polls : ℕ) :
    (SerialConnection.readPolls pumpReadSize deadline polls).All Chunked := by
  induction polls with
  | zero => exact trivial
  | succ polls ih =>
    refine ⟨trivial, fun closing => .ite trivial ?_⟩
    refine ⟨trivial, fun now => .ite trivial ?_⟩
    refine ⟨Nat.le_refl _, fun polled => ?_⟩
    rcases polled with bytes | _ | _ | fatal | _
    · exact recorded_chunked (.ok bytes)
    · exact ⟨trivial, fun _ => ih⟩
    · exact trivial
    · exact trivial
    · exact trivial

theorem read_chunked (polls : ℕ) :
    (SerialConnection.read polls pumpReadSize (some 100)).All Chunked := by
  refine ⟨trivial, fun opened => .ite ?_ trivial⟩
  exact ⟨trivial, fun now => readPolls_chunked _ polls⟩

/-- The pump has at most one chunk on its way to the ring. -/
def Small : Capture.Task → Prop
  | .pumpReading tr p => (inFlight tr).length ≤ pumpReadSize ∧ p.All Chunked
  | .pumpAppending bytes => bytes.length ≤ pumpReadSize
  | _ => True

theorem flight_chunked {op : LinkOp} (h : Chunked op) {tr : List LinkEvent}
    (htr : (inFlight tr).length ≤ pumpReadSize) (l : Link) :
    (inFlight (tr ++ [⟨op, (linkAct op l).1⟩])).length ≤ pumpReadSize := by
  rw [inFlight_snoc]
  cases op with
  | poll max wait =>
    have hready : (l.ready max).length ≤ pumpReadSize := by
      refine Nat.le_trans ?_ h
      unfold Link.ready
      split
      · rw [List.length_take]
        omega
      · exact Nat.zero_le _
    simp only [linkAct, Link.poll]
    split
    · split
      · exact htr
      · exact hready
    · exact htr
    · exact htr
    · exact htr
  | append bytes => exact Nat.zero_le _
  | _ => exact htr

section
variable {crates : Crates} {polls : ℕ} {w w' : Capture.World} {t : Capture.Task}
  {i : Capture.Input} {new : List Capture.Task}

theorem Starts.small (h : t.Starts crates) : Small t := by
  cases h <;> trivial

/-- **One chunk at most is on its way.** -/
theorem step_small (hsound : t.Sound w) (ht : Small t)
    (h : t.step crates polls i w = some (w', new)) : ∀ t' ∈ new, Small t' := by
  cases t with
  | pumpWaiting =>
    cases i with
    | turn =>
      simp only [Capture.Task.step] at h
      split_ifs at h
      cases h
      exact List.forall_mem_singleton.2 ⟨Nat.zero_le _, read_chunked polls⟩
    | _ => cases h
  | pumpReading tr p =>
    cases i with
    | turn =>
      rcases p with (e | bytes) | ⟨op, k⟩
      · simp only [Capture.Task.step] at h
        split_ifs at h <;> cases h <;> simp [Small]
      · have hbytes : inFlight tr = bytes := hsound.1
        simp only [Capture.Task.step] at h
        split_ifs at h <;> cases h
        · exact List.forall_mem_singleton.2 trivial
        · exact List.forall_mem_singleton.2 (hbytes ▸ ht.1)
      · cases h
        exact List.forall_mem_singleton.2 ⟨flight_chunked ht.2.1 ht.1 w.link, ht.2.2 _⟩
    | cancelled =>
      simp only [Capture.Task.step] at h
      split_ifs at h
      cases h
      exact fun t' ht' => by cases ht'
    | _ => rcases p with (e | bytes) | ⟨op, k⟩ <;> cases h
  | captureReading armed p =>
    have hcleanups : ∀ t ∈ Capture.cleanups armed, Small t := by
      rcases armed with _ | ⟨id, reset⟩
      · exact fun t ht => by cases ht
      · exact List.forall_mem_singleton.2 trivial
    cases i with
    | turn =>
      rcases p with _ | ⟨op, k⟩ <;> cases h
      · exact hcleanups
      · exact List.forall_mem_singleton.2 trivial
    | dropped =>
      simp only [Capture.Task.step] at h
      cases h
      exact hcleanups
    | _ => rcases p with _ | ⟨op, k⟩ <;> cases h
  | pumpPausing p | other p =>
    cases i
    all_goals rcases p with _ | ⟨op, k⟩
    all_goals simp only [Capture.Task.step, reduceCtorEq] at h
    all_goals cases h
    all_goals try split
    all_goals first | exact List.forall_mem_nil _ | exact List.forall_mem_singleton.2 trivial
  | _ =>
    cases i
    all_goals simp only [Capture.Task.step, reduceCtorEq] at h
    all_goals try split at h
    all_goals try split_ifs at h
    all_goals cases h
    all_goals first | exact List.forall_mem_nil _ | exact List.forall_mem_singleton.2 trivial

end

/-! ## The ring later on -/

/-- A later ring: more has been appended, and no more is retained. -/
structure Later (f f' : Feed) : Prop where
  stream : f.stream <+: f'.stream
  start : f.ring.startOffset ≤ f'.ring.startOffset

theorem Later.refl (f : Feed) : Later f f := ⟨List.prefix_rfl, Nat.le_refl _⟩

theorem Later.of_grows {f f' : Feed} (h : f.Grows f') : Later f f' := ⟨h.stream, h.start_le⟩

theorem Later.of_clear (f : Feed) :
    Later f ⟨f.ring.clear, f.stream, RxRing.clear_refines f.refines⟩ :=
  ⟨List.prefix_rfl, f.ring.start_le_end⟩

theorem perform_later (w : Capture.World) (op : LinkOp) :
    Later w.link.rx.feed (w.perform op).link.rx.feed := by
  show Later w.link.rx.feed (linkAct op w.link).2.rx.feed
  cases linkAct_effect op w.link with
  | polled _ _ _ hfeed =>
    rw [hfeed]
    exact .refl _
  | appended _ _ hfeed =>
    rw [hfeed]
    exact .of_grows (Feed.push_grows _ _)
  | none _ _ _ hfeed =>
    rw [hfeed]
    exact .refl _

/-- **What is gone from the ring stays gone**, whatever a task does. -/
theorem step_later {crates : Crates} {polls : ℕ} {w w' : Capture.World} {t : Capture.Task}
    {i : Capture.Input} {new : List Capture.Task}
    (h : t.step crates polls i w = some (w', new)) :
    Later w.link.rx.feed w'.link.rx.feed := by
  unfold Capture.Task.step at h
  split at h
  all_goals try split at h
  all_goals try split_ifs at h
  all_goals cases h
  all_goals first | exact .refl _ | exact perform_later _ _ | exact .of_clear _

/-! ## What a flush knows -/

/-- The ring of a world with its stream. -/
def World.feed (w : World) : Feed := w.base.link.rx.feed

/-- The pump had one chunk on its way at most, and none with its gate free. -/
structure Purge.Sound (w : World) (p : Purge) : Prop where
  appended : p.appended ≤ w.feed.stream.length
  chunk : p.pumped ≤ p.appended + pumpReadSize
  idle : p.idle = true → p.pumped = p.appended

/-- The ring was cleared at an offset. -/
structure Cleared (w : World) (p : Purge) (cleared : ℕ) : Prop where
  purge : p.Sound w
  le : p.appended ≤ cleared
  start : cleared ≤ w.feed.ring.startOffset

/-- What a flush left. -/
structure Discard.Sound (w : World) (d : Discard) : Prop where
  cleared : Cleared w d.purge d.cleared
  le : d.cleared ≤ d.cursor
  stop : d.cursor ≤ w.feed.stream.length

def Reply.Sound (w : World) : Reply → Prop
  | .flushed _ (some d) => d.Sound w
  | _ => True

def Task.Sound (w : World) : Task → Prop
  | .discarding _ p => p.Sound w
  | .measuring _ p cleared => Cleared w p cleared
  | .clamping _ p cleared cursor => Discard.Sound w ⟨p, cleared, cursor⟩
  | .link t => Small t
  | _ => True

/-- The tasks of the connection. -/
def Task.link? : Task → Option Capture.Task
  | .link t => some t
  | _ => none

/-- The connection without its flushes. -/
def lowered (s : Session) : Capture.Session := ⟨s.world.base, s.tasks.filterMap Task.link?⟩

/-- The invariant. -/
structure Inv (s : Session) : Prop where
  lowers : Capture.Inv (lowered s)
  replies : ∀ r ∈ s.world.replies, r.Sound s.world
  tasks : ∀ t ∈ s.tasks, t.Sound s.world

section
variable {crates : Crates} {polls : ℕ} {w w' : World} {s s' : Session} {t : Task} {i : Input}
  {new : List Task} {p : Purge}

theorem Purge.Sound.later (h : p.Sound w) (hlater : Later w.feed w'.feed) : p.Sound w' :=
  ⟨h.appended.trans hlater.stream.length_le, h.chunk, h.idle⟩

theorem Cleared.later {cleared : ℕ} (h : Cleared w p cleared) (hlater : Later w.feed w'.feed) :
    Cleared w' p cleared :=
  ⟨h.purge.later hlater, h.le, h.start.trans hlater.start⟩

theorem Discard.Sound.later {d : Discard} (h : d.Sound w) (hlater : Later w.feed w'.feed) :
    d.Sound w' :=
  ⟨h.cleared.later hlater, h.le, h.stop.trans hlater.stream.length_le⟩

theorem Reply.Sound.later {r : Reply} (h : r.Sound w) (hlater : Later w.feed w'.feed) :
    r.Sound w' := by
  cases r with
  | flushed target discard =>
    cases discard with
    | none => trivial
    | some d => exact Discard.Sound.later h hlater
  | _ => trivial

theorem Task.Sound.later (h : t.Sound w) (hlater : Later w.feed w'.feed) : t.Sound w' := by
  cases t with
  | discarding target p => exact Purge.Sound.later h hlater
  | measuring target p cleared => exact Cleared.later h hlater
  | clamping target p cleared cursor => exact Discard.Sound.later h hlater
  | link t => exact h
  | _ => trivial

/-! ## One chunk at a purge -/

open Capture (lock_alone hand_of_held flatMap_hand)

theorem hands_small {b : Capture.Session} (hinv : Capture.Inv b) (hsmall : ∀ t ∈ b.tasks, Small t) :
    (b.tasks.flatMap Capture.Task.hand).length ≤ pumpReadSize := by
  by_cases hgate : ∀ t ∈ b.tasks, t.held .pumpGate = 0
  · rw [flatMap_hand hgate]
    exact Nat.zero_le _
  · push Not at hgate
    obtain ⟨t, ht, hheld⟩ := hgate
    have hle : t.held .pumpGate ≤ 1 :=
      (held_le ht _).trans ((hinv.locks _).trans (Capture.booked_le_one _ _))
    obtain ⟨l, r, htasks⟩ := List.append_of_mem ht
    have hothers := flatMap_hand (lock_alone hinv.locks htasks (by omega))
    rw [List.flatMap_append, List.append_eq_nil_iff] at hothers
    rw [htasks, List.flatMap_append, List.flatMap_cons, hothers.1, hothers.2, List.append_nil,
      List.nil_append]
    have hone := hsmall t ht
    have hsound := hinv.tasks t ht
    cases t with
    | pumpReading tr p => exact hone.1
    | pumpAppending bytes => exact hone
    | _ => exact Nat.zero_le _

theorem purged_sound (h : Inv s) : s.world.purged.Sound s.world := by
  have hsmall : ∀ t ∈ (lowered s).tasks, Small t := by
    intro t ht
    obtain ⟨t', ht', hlink⟩ := List.mem_filterMap.1 ht
    cases t' with
    | link t' =>
      cases hlink
      exact h.tasks _ ht'
    | _ => cases hlink
  have hbytes := congrArg List.length h.lowers.bytes
  rw [List.length_append] at hbytes
  refine ⟨Nat.le_refl _, ?_, fun hidle => ?_⟩
  · have hchunk := hands_small h.lowers hsmall
    show s.world.base.pumped.length ≤ s.world.base.stream.length + pumpReadSize
    simp only [lowered] at hbytes hchunk
    omega
  · have hgate : s.world.base.pumpGate = false := by simpa [World.purged] using hidle
    have hheld : heldBy Capture.Task.held (lowered s).tasks .pumpGate = 0 := by
      have hlocks := h.lowers.locks .pumpGate
      simp only [lowered, Capture.World.booked, hgate, Bool.toNat_false] at hlocks ⊢
      omega
    have hnone : (lowered s).tasks.flatMap Capture.Task.hand = [] :=
      flatMap_hand (heldBy_eq_zero.1 hheld)
    rw [hnone, List.length_nil, Nat.add_zero] at hbytes
    exact hbytes

/-! ## Steps -/

/-- What a flush leaves to the pump and the captures. -/
structure Aside (b b' : Capture.World) : Prop where
  pumped : b'.pumped = b.pumped
  stream : b'.stream = b.stream
  marks : b'.marks = b.marks
  booked : b'.booked = b.booked

theorem Aside.refl (b : Capture.World) : Aside b b := ⟨rfl, rfl, rfl, rfl⟩

theorem inv_aside {b b' : Capture.World} {ts : List Capture.Task} (h : Capture.Inv ⟨b, ts⟩)
    (haside : Aside b b') : Capture.Inv ⟨b', ts⟩ where
  locks := fun k => by
    rw [haside.booked]
    exact h.locks k
  bytes := by
    show b'.pumped = b'.stream ++ _
    rw [haside.pumped, haside.stream]
    exact h.bytes
  marks := by
    show ∀ m ∈ b'.marks, _ ∧ m.offset ≤ b'.stream.length
    rw [haside.marks, haside.stream]
    exact h.marks
  tasks := fun t ht => (h.tasks t ht).mono fun _ => haside.stream

/-- What a step of a flush leaves. -/
structure Outcome (w w' : World) (new : List Task) : Prop where
  aside : Aside w.base w'.base
  later : Later w.feed w'.feed
  replies : ∀ r ∈ w'.replies, r ∈ w.replies ∨ r.Sound w'
  tasks : ∀ t ∈ new, t.link? = none ∧ t.Sound w'

theorem Outcome.of_on (h : t.link? = none ∧ t.Sound w) : Outcome w w [t] :=
  ⟨.refl _, .refl _, fun _ hr => .inl hr, List.forall_mem_singleton.2 h⟩

theorem Outcome.of_end (w : World) : Outcome w w [] :=
  ⟨.refl _, .refl _, fun _ hr => .inl hr, List.forall_mem_nil _⟩

theorem Outcome.of_reply {r : Reply} (h : r.Sound w) : Outcome w (w.reply r) [] := by
  refine ⟨.refl _, .refl _, fun r' hr' => ?_, List.forall_mem_nil _⟩
  rcases List.mem_append.1 hr' with hr' | hr'
  · exact .inl hr'
  · rw [List.mem_singleton.1 hr']
    exact .inr (h.later (.refl _))

theorem World.ring_end (w : World) : w.ring.endOffset = w.feed.stream.length :=
  w.feed.refines.stop

/-- **What a step of a flush does.** -/
theorem step_outcome (hs : Inv s) (ht : t.Sound s.world) (hlink : t.link? = none)
    (h : t.step crates polls i s.world = some (w', new)) : Outcome s.world w' new := by
  cases t with
  | flush target =>
    cases i with
    | turn =>
      cases h
      refine .of_on ?_
      split <;> exact ⟨rfl, trivial⟩
    | missing =>
      cases h
      exact .of_reply trivial
    | dropped =>
      cases h
      exact .of_end _
    | _ => cases h
  | flushingOutput target =>
    cases i with
    | answer a =>
      simp only [Task.step] at h
      split_ifs at h <;> cases h
      · exact .of_on ⟨rfl, trivial⟩
      · exact .of_reply trivial
      · exact .of_reply trivial
    | dropped =>
      cases h
      exact .of_end _
    | _ => cases h
  | flushingInput target =>
    cases i with
    | answer a =>
      simp only [Task.step] at h
      split_ifs at h <;> cases h
      · have hpurged : s.world.purged.Sound s.world.purge := (purged_sound hs).later (.refl _)
        exact ⟨⟨rfl, rfl, rfl, rfl⟩, .refl _, fun _ hr => .inl hr,
          List.forall_mem_singleton.2 ⟨rfl, hpurged⟩⟩
      · exact .of_reply trivial
    | dropped =>
      cases h
      exact .of_end _
    | _ => cases h
  | discarding target p =>
    cases i with
    | turn =>
      cases h
      have hlater : Later s.world.feed s.world.clear.feed := .of_clear _
      refine ⟨⟨rfl, rfl, rfl, rfl⟩, hlater, fun _ hr => .inl hr,
        List.forall_mem_singleton.2 ⟨rfl, ?_⟩⟩
      exact ⟨Purge.Sound.later ht hlater, s.world.ring_end ▸ Purge.Sound.appended ht, Nat.le_refl _⟩
    | missing =>
      cases h
      exact .of_reply trivial
    | dropped =>
      cases h
      exact .of_end _
    | _ => cases h
  | measuring target p cleared =>
    cases i with
    | turn =>
      cases h
      refine .of_on ⟨rfl, ht, ?_, Nat.le_of_eq s.world.ring_end⟩
      exact (Cleared.start ht).trans s.world.ring.start_le_end
    | _ => cases h
  | clamping target p cleared cursor =>
    cases i with
    | turn =>
      cases h
      have hreply := Outcome.of_reply (w := s.world.setReadCursor cursor)
        (r := .flushed target (some ⟨p, cleared, cursor⟩)) (Discard.Sound.later ht (.refl _))
      exact ⟨⟨rfl, rfl, rfl, rfl⟩, .refl _, hreply.replies, hreply.tasks⟩
    | _ => cases h
  | link t => cases hlink

/-- **The invariant is kept**, over the one of the pump and the captures. -/
theorem Inv.move {m : Move Task Input} (hs : Inv s) (hm : AnyMove crates s m)
    (h : s.move (Task.step crates polls) m = some s') : Inv s' := by
  rcases move_cases h with ⟨t, rfl, rfl⟩ | ⟨l, t, r, i, w, new, rfl, htasks, hstep, rfl⟩
  · cases hm with
    | flush target =>
      refine ⟨?_, hs.replies, List.forall_mem_append.2 ⟨hs.tasks,
        List.forall_mem_singleton.2 trivial⟩⟩
      have hnone : [Task.flush target].filterMap Task.link? = [] := rfl
      show Capture.Inv ⟨s.world.base, (s.tasks ++ [Task.flush target]).filterMap Task.link?⟩
      rw [List.filterMap_append, hnone, List.append_nil]
      exact hs.lowers
    | @link t hstarts =>
      refine ⟨?_, hs.replies, List.forall_mem_append.2 ⟨hs.tasks,
        List.forall_mem_singleton.2 (Starts.small hstarts)⟩⟩
      have hmove : (lowered s).move (Capture.Task.step crates polls) (.start t) =
          some (lowered ⟨s.world, s.tasks ++ [.link t]⟩) := by
        simp [lowered, State.move, List.filterMap_append, Task.link?]
      exact hs.lowers.move (m := .start t) hstarts hmove
  · have ht := hs.tasks t (by simp [htasks])
    cases hlink : t.link? with
    | none =>
      obtain ⟨haside, hlater, hreplies, hnew⟩ := step_outcome hs ht hlink hstep
      refine ⟨?_, fun r' hr' => ?_, ?_⟩
      · have hnone : new.filterMap Task.link? = [] :=
          List.filterMap_eq_nil_iff.2 fun t' ht' => (hnew t' ht').1
        have hsame : (l ++ new ++ r).filterMap Task.link? = s.tasks.filterMap Task.link? := by
          simp [htasks, hlink, hnone]
        show Capture.Inv ⟨w.base, (l ++ new ++ r).filterMap Task.link?⟩
        rw [hsame]
        exact inv_aside hs.lowers haside
      · exact (hreplies r' hr').elim (fun hr => (hs.replies r' hr).later hlater) id
      · exact forall_replaced htasks hs.tasks (fun _ _ ht' => ht'.later hlater)
          fun t' ht' => (hnew t' ht').2
    | some t' =>
      cases t with
      | link t =>
        cases i with
        | link i =>
          obtain ⟨⟨b, new'⟩, hbase, heq⟩ := Option.map_eq_some_iff.1 hstep
          cases heq
          have htasks' : (lowered s).tasks =
              l.filterMap Task.link? ++ t :: r.filterMap Task.link? := by
            simp [lowered, htasks, Task.link?]
          have hnew : (new'.map Task.link).filterMap Task.link? = new' := by
            simp [List.filterMap_map, Function.comp_def, Task.link?]
          have hlater := step_later hbase
          have hsmall := step_small (hs.lowers.tasks t (by simp [htasks'])) ht hbase
          refine ⟨?_, fun r' hr' => (hs.replies r' hr').later hlater, ?_⟩
          · have hmove := hs.lowers.move (m := .run _ i) trivial (move_run htasks' hbase)
            simpa [lowered, hnew] using hmove
          · refine forall_replaced htasks hs.tasks (fun _ _ ht' => ht'.later hlater) ?_
            intro t' ht'
            obtain ⟨t'', ht'', rfl⟩ := List.mem_map.1 ht'
            exact hsmall t'' ht''
        | _ => cases hstep
      | _ => cases hlink

/-! ## Behind a flush -/

/-- **A flush discards what was received before it.** In every run, whatever the pump, the
    captures, the reads and other flushes do: once a flush of the input has returned, the
    ring never again gives out a byte from before its clear, and of what the pump had read
    when the port was purged only the chunk that was on its way can be behind it, none if
    the pump's gate was free.  The shared cursor was set to the ring's end of a moment
    behind the clear. -/
theorem flush_discards {link : Link} {io : Bool} {target : FlushTarget} {d : Discard}
    (h : Runs (Task.step crates polls) (AnyMove crates) (Session.init link io) s)
    (hd : .flushed target (some d) ∈ s.world.replies) :
    (∀ cursor max, d.cleared ≤ (s.world.ring.readFrom cursor max).fromOffset ∧
      (s.world.ring.readFrom cursor max).bytes <+:
        s.world.base.pumped.drop (s.world.ring.readFrom cursor max).fromOffset) ∧
    d.purge.pumped ≤ d.cleared + pumpReadSize ∧
    (d.purge.idle = true → d.purge.pumped ≤ d.cleared) ∧
    d.cleared ≤ d.cursor ∧ d.cursor ≤ s.world.ring.endOffset := by
  have hinit : Inv (Session.init link io) := by
    refine ⟨⟨fun k => Nat.zero_le _, (List.append_nil _).symm, ?_, ?_⟩, ?_, ?_⟩
    · exact fun m hm => by cases hm
    · exact fun t ht => by cases ht
    · exact fun r hr => by cases hr
    · exact fun t ht => by cases ht
  have hinv := h.invariant (J := Inv) (fun hs hm hmove => hs.move hm hmove) hinit
  obtain ⟨⟨⟨-, hchunk, hidle⟩, hle, hstart⟩, hcursor, hstop⟩ : d.Sound s.world :=
    hinv.replies _ hd
  have hfeed := s.world.feed.refines
  refine ⟨fun cursor max => ?_, by omega, fun h => ?_, hcursor, ?_⟩
  · have hslice : s.world.ring.readFrom cursor max = _ := RxRing.readFrom_eq hfeed cursor max
    have hbytes : s.world.base.pumped = s.world.feed.stream ++ _ := hinv.lowers.bytes
    have hclamp : s.world.feed.ring.startOffset ≤ s.world.feed.ring.clampOffset cursor := by
      have := s.world.feed.ring.start_le_end
      unfold RxRing.clampOffset
      omega
    rw [hslice, hbytes]
    refine ⟨hstart.trans hclamp, (List.take_prefix _ _).trans ?_⟩
    exact (List.prefix_append _ _).drop _
  · have := hidle h
    omega
  · exact hstop.trans (Nat.le_of_eq hfeed.stop.symm)

end

/-- The pump, for some turns. -/
def pumps (n : ℕ) : List (Move Task Input) := List.replicate n (.run 0 (.link .turn))

/-- A flush meets the pump with a chunk in its hands, that it appends behind the clear; the
    next one discards it, and then a byte arrives. -/
def twoFlushes : List (Move Task Input) :=
  [.start (.link .pump)] ++ pumps 9 ++
    [.start (.flush .input), .run 1 .turn, .run 1 (.answer .ok), .run 1 .turn] ++ pumps 1 ++
    [.run 1 .turn, .run 1 .turn, .start (.flush .both), .run 1 .turn, .run 1 (.answer .ok),
      .run 1 (.answer .ok), .run 1 .turn, .run 1 .turn, .run 1 .turn, .start (.link .outside),
      .run 1 (.link (.changes { okLink with osBuffer := [7], osRead := [111, 107, 33] } true))] ++
    pumps 10

theorem flush_discards_two : ∃ s,
    (Session.init okLink true).play (Task.step .refusing 1) twoFlushes = some s ∧
      s.world.replies = [.flushed .input (some ⟨⟨3, 0, false⟩, 0, 3⟩),
        .flushed .both (some ⟨⟨3, 3, true⟩, 3, 3⟩)] ∧
      s.world.ring.readFrom 0 8 = ⟨[7], 3, 4, 3⟩ ∧
      ∀ cursor max, 3 ≤ (s.world.ring.readFrom cursor max).fromOffset := by
  have hrun : ((Session.init okLink true).play (Task.step .refusing 1) twoFlushes).map
      (fun s => (s.world.replies, s.world.ring.readFrom 0 8)) =
      some ([.flushed .input (some ⟨⟨3, 0, false⟩, 0, 3⟩),
        .flushed .both (some ⟨⟨3, 3, true⟩, 3, 3⟩)], ⟨[7], 3, 4, 3⟩) := by
    decide +kernel
  obtain ⟨s, hplay, heq⟩ := Option.map_eq_some_iff.1 hrun
  obtain ⟨hreplies, hslice⟩ := Prod.mk.inj heq
  have hmoves : ∀ m ∈ twoFlushes, AnyMove .refusing (Session.init okLink true) m := by
    simp [twoFlushes, pumps, AnyMove, Task.Starts.flush, Task.Starts.link,
      Capture.Task.Starts.pump, Capture.Task.Starts.outside]
  have hruns := (Runs.of_play hmoves hplay).mono fun hm => hm
  have hlast : Reply.flushed .both (some ⟨⟨3, 3, true⟩, 3, 3⟩) ∈ s.world.replies := by
    rw [hreplies]
    decide
  obtain ⟨hslices, -⟩ := flush_discards hruns hlast
  exact ⟨s, hplay, hreplies, hslice, fun cursor max => (hslices cursor max).1⟩

end SerialMcp.Flush
