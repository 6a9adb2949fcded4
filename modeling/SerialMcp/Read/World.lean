/-
  The state shared by the reads of a connection, and the atomic operations
  they perform on it.

  Every lock acquisition of the source is one operation: a slice of the ring,
  a look at its start or end offset, a load or store of the shared cursor, a
  look at the clock or the connection, a wait.  Between two operations of a
  read the RX pump appends to the ring and everything else moves on.

  * `Feed`: a ring together with the stream of all bytes appended to it;
  * `World` and `act`: the shared state and what an operation does to it;
  * `Rely`: what happens between two operations; the ring grows by appends.
-/
import SerialMcp.RxRing
import SerialMcp.Lib.Prog

namespace SerialMcp

open Interact

/-! ## The ring and its stream -/

/-- A ring with the stream of all bytes ever appended to it. -/
structure Feed where
  ring : RxRing
  stream : List UInt8
  refines : ring.Refines stream

namespace Feed

/-- A fresh ring. -/
def new (capacity : ℕ) (h : 0 < capacity) : Feed := ⟨.new capacity h, [], RxRing.new_refines h⟩

/-- A fresh ring of four bytes, for small examples. -/
def four : Feed := new 4 (by decide)

/-- A fresh ring of eight bytes. -/
def eight : Feed := new 8 (by decide)

/-- Appends, one after another. -/
inductive Grows : Feed → Feed → Prop where
  | refl {f : Feed} : Grows f f
  | append {f g : Feed} {bs : List UInt8} {r : RxRing} (h : Grows f g)
      (happ : g.ring.append bs = some r) :
      Grows f ⟨r, g.stream ++ bs, RxRing.append_refines happ g.refines⟩

theorem Grows.trans {f g k : Feed} (h₁ : Grows f g) (h₂ : Grows g k) : Grows f k := by
  induction h₂ with
  | refl => exact h₁
  | append _ happ ih => exact .append ih happ

theorem Grows.stream {f g : Feed} (h : Grows f g) : f.stream <+: g.stream := by
  induction h with
  | refl => exact List.prefix_refl _
  | append _ _ ih => exact ih.trans (List.prefix_append ..)

theorem Grows.start_le {f g : Feed} (h : Grows f g) :
    f.ring.startOffset ≤ g.ring.startOffset := by
  induction h with
  | refl => exact Nat.le_refl _
  | append _ happ ih =>
    have := (RxRing.append_appended happ).start
    simp only at this ⊢
    omega

theorem Grows.end_le {f g : Feed} (h : Grows f g) : f.ring.endOffset ≤ g.ring.endOffset := by
  rw [f.refines.stop, g.refines.stop]
  exact h.stream.length_le

/-- One append, if the offsets allow it. -/
def push (f : Feed) (bs : List UInt8) : Feed :=
  match h : f.ring.append bs with
  | some r => ⟨r, f.stream ++ bs, RxRing.append_refines h f.refines⟩
  | none => f

theorem push_grows (f : Feed) (bs : List UInt8) : Grows f (f.push bs) := by
  unfold push
  split
  · next happ => exact .append .refl happ
  · exact .refl

theorem push_stream {f : Feed} {bs : List UInt8} (h : f.stream.length + bs.length < u64Size) :
    (f.push bs).stream = f.stream ++ bs := by
  rw [← f.refines.stop] at h
  obtain ⟨r, hr⟩ := RxRing.append_isSome bs h
  unfold push
  split
  · rfl
  · next hnone => rw [hr] at hnone; cases hnone

end Feed

/-! ## Shared state and operations -/

/-- `ConnectionState` -/
inductive ConnectionState where
  | opened
  | disconnected
  | reconnecting
  | closed
  deriving DecidableEq, Repr

/-- What woke the read loop from its ring wait. -/
inductive WaitWake where
  | cancelled
  | data
  | poll
  deriving DecidableEq, Repr

/-- The state that a read shares with the rest of the server. -/
structure World where
  feed : Feed
  /-- the session's `read_cursor` -/
  readCursor : ℕ
  /-- the clock, in nanoseconds -/
  now : ℕ
  /-- the request's cancellation token -/
  cancelled : Bool
  connection : ConnectionState
  reconnectEnabled : Bool
  /-- the branch `select!` picks, if it is ready -/
  wake : WaitWake

/-- An open connection at time 0, before anything was read. -/
def World.opened (feed : Feed) : World := ⟨feed, 0, 0, false, .opened, false, .poll⟩

/-- The atomic operations of a read. -/
inductive RxOp where
  | readFrom (cursor max : ℕ)
  | startOffset
  | endOffset
  | now
  | connState
  | reconnectEnabled
  /-- `select!` over cancellation, `wait_for_data` and the poll timer -/
  | select (clockedCursor pollMs : ℕ)
  | sleep (ms : ℕ)
  | readCursor
  | setReadCursor (off : ℕ)
  deriving DecidableEq, Repr

/-- What an operation answers. -/
abbrev RxOp.Resp : RxOp → Type
  | .readFrom .. => RingSlice
  | .startOffset | .endOffset | .now | .readCursor => ℕ
  | .connState => ConnectionState
  | .reconnectEnabled => Bool
  | .select .. => WaitWake
  | .sleep _ | .setReadCursor _ => Unit

/-- A program over these operations. -/
abbrev RxProg (α : Type) := Prog RxOp RxOp.Resp α

/-- An operation performed, with its answer. -/
abbrev RxEvent := Event RxOp RxOp.Resp

namespace RxOp

abbrev ringRead (cursor max : ℕ) : RxProg RingSlice := Prog.perform (RxOp.readFrom cursor max)
abbrev ringStart : RxProg ℕ := Prog.perform RxOp.startOffset
abbrev ringEnd : RxProg ℕ := Prog.perform RxOp.endOffset
abbrev clock : RxProg ℕ := Prog.perform RxOp.now
abbrev getConnState : RxProg ConnectionState := Prog.perform RxOp.connState
abbrev isReconnectEnabled : RxProg Bool := Prog.perform RxOp.reconnectEnabled
abbrev selectWake (clockedCursor pollMs : ℕ) : RxProg WaitWake :=
  Prog.perform (RxOp.select clockedCursor pollMs)
abbrev pause (ms : ℕ) : RxProg Unit := Prog.perform (RxOp.sleep ms)
abbrev loadCursor : RxProg ℕ := Prog.perform RxOp.readCursor
abbrev storeCursor (off : ℕ) : RxProg Unit := Prog.perform (RxOp.setReadCursor off)

end RxOp

/-- The picked branch of `select!`; a branch that is not ready does not win.
    The timer runs for a millisecond or more, so it does not win against a
    token that has fired. -/
def World.woken (w : World) (clockedCursor : ℕ) : WaitWake :=
  let unread := if w.cancelled then WaitWake.cancelled else .poll
  match w.wake with
  | .data => if clockedCursor < w.feed.ring.endOffset then .data else unread
  | .cancelled | .poll => unread

/-- What an operation answers and does. -/
def act : (op : RxOp) → World → op.Resp × World
  | .readFrom cursor max, w => (w.feed.ring.readFrom cursor max, w)
  | .startOffset, w => (w.feed.ring.startOffset, w)
  | .endOffset, w => (w.feed.ring.endOffset, w)
  | .now, w => (w.now, w)
  | .connState, w => (w.connection, w)
  | .reconnectEnabled, w => (w.reconnectEnabled, w)
  | .select clockedCursor _, w => (w.woken clockedCursor, w)
  | .sleep _, w => ((), w)
  | .readCursor, w => (w.readCursor, w)
  | .setReadCursor off, w => ((), { w with readCursor := off })

/-- Between two operations the ring grows by appends, and the rest may change
    in any way. -/
def Rely (w w' : World) : Prop := w.feed.Grows w'.feed

theorem Rely.refl (w : World) : Rely w w := Feed.Grows.refl

theorem Rely.trans {w w' w'' : World} (h₁ : Rely w w') (h₂ : Rely w' w'') : Rely w w'' :=
  Feed.Grows.trans h₁ h₂

theorem act_feed (op : RxOp) (w : World) : (act op w).2.feed = w.feed := by
  cases op <;> rfl

/-- The RX pump appends a chunk. -/
def World.receive (bs : List UInt8) (w : World) : World := { w with feed := w.feed.push bs }

theorem receive_rely (bs : List UInt8) (w : World) : Rely w (w.receive bs) :=
  Feed.push_grows w.feed bs

theorem arrival_rely (bs : List UInt8) :
    ∀ e ∈ [id, id, World.receive bs], ∀ w, Rely w (e w) := by
  intro e he w
  simp only [List.mem_cons, List.not_mem_nil, or_false, or_self_left] at he
  rcases he with rfl | rfl
  · exact Rely.refl w
  · exact receive_rely bs w

/-- The slices a trace took from the ring. -/
def slicesOf : List RxEvent → List RingSlice
  | [] => []
  | ⟨.readFrom _ _, s⟩ :: tr => s :: slicesOf tr
  | _ :: tr => slicesOf tr

theorem slicesOf_append (tr tr' : List RxEvent) :
    slicesOf (tr ++ tr') = slicesOf tr ++ slicesOf tr' := by
  induction tr with
  | nil => rfl
  | cons e tr ih =>
    obtain ⟨op, r⟩ := e
    cases op with
    | readFrom cursor max => exact congrArg (r :: ·) ih
    | _ => exact ih

end SerialMcp
