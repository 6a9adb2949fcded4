/-
  Requests, workers and the `io` lock: what is there exactly once.

  * `locks_move`: the `io` lock is held by one task at a time;
  * `workers_move`: a session has one worker until its receiver is dropped, and
    none afterwards;
  * `requests_move`: every request ever issued is, at any moment, in one place:
    with its caller, in the channel, in the hands of the worker, or resolved.
    None is lost, and none is there twice.
-/
import SerialMcp.Tx.Session

namespace SerialMcp.Tx

open Tasks Channels
open Connection (SerialConnection Stream)

/-! ## The lock -/

/-- Whether a call of the life cycle holds the `io` lock. -/
def lifeLocks : Connection.Task → Unit → ℕ
  | .closeShutdown, _ | .markShutdown, _ | .ioHolding, _ => 1
  | _, _ => 0

/-- Whether a task holds the `io` lock. -/
def Task.locks : Task → Unit → ℕ
  | .writing _ _ _, _ | .flushing _ _, _ => 1
  | .life t, u => lifeLocks t u
  | _, _ => 0

def connectionLocked (c : SerialConnection) (_ : Unit) : ℕ := if c.locked then 1 else 0

def World.locked (w : World) : Unit → ℕ := connectionLocked w.connection

section
variable {w w' : World} {t : Task} {i : Input} {new : List Task} {k : ℕ} {r : TxRequest}
  {s s' : Link} {m : Move Task Input}

/-- A call of the life cycle takes the lock when it is free, and gives back its own. -/
theorem life_locks {c c' : SerialConnection} {t : Connection.Task} {i : Connection.Input}
    {new : List Connection.Task} (h : t.step i c = some (c', new))
    (hle : lifeLocks t () ≤ connectionLocked c ()) :
    connectionLocked c' () + lifeLocks t () = connectionLocked c () + heldBy lifeLocks new () := by
  cases t with
  | closeEntry =>
    cases i with
    | go =>
      simp only [Connection.Task.step] at h
      split_ifs at h <;> cases h <;> rfl
    | _ => cases h
  | closing =>
    cases i with
    | cleared result =>
      simp only [Connection.Task.step] at h
      split_ifs at h with hlocked
      rw [Bool.not_eq_true] at hlocked
      split at h
      · cases h
        rfl
      · split at h <;> cases h
        · simp [connectionLocked, SerialConnection.take, SerialConnection.unlock, hlocked, lifeLocks]
        · simp [connectionLocked, SerialConnection.take, hlocked, lifeLocks]
    | _ => cases h
  | closeShutdown =>
    cases i with
    | finished =>
      cases h
      simp only [lifeLocks, connectionLocked] at hle ⊢
      split_ifs at hle with hlocked
      · simp [SerialConnection.unlock, hlocked]
      · omega
    | _ => cases h
  | markEntry error =>
    cases i with
    | go =>
      cases h
      rfl
    | _ => cases h
  | marking =>
    cases i with
    | go =>
      simp only [Connection.Task.step] at h
      split_ifs at h with hlocked
      rw [Bool.not_eq_true] at hlocked
      split at h <;> cases h
      · rfl
      · simp [connectionLocked, SerialConnection.take, hlocked, lifeLocks]
    | _ => cases h
  | markShutdown =>
    cases i with
    | finished =>
      cases h
      simp only [lifeLocks, connectionLocked] at hle ⊢
      split_ifs at hle with hlocked
      · simp [SerialConnection.unlock, hlocked]
      · omega
    | _ => cases h
  | reconnectEntry =>
    cases i with
    | built result =>
      simp only [Connection.Task.step] at h
      split_ifs at h
      · cases h
        rfl
      · split at h <;> cases h <;> rfl
    | _ => cases h
  | installing stream =>
    cases i with
    | go =>
      simp only [Connection.Task.step] at h
      split_ifs at h
      cases h
      rfl
    | _ => cases h
  | ioEntry =>
    cases i with
    | go =>
      simp only [Connection.Task.step] at h
      split_ifs at h <;> cases h <;> rfl
    | _ => cases h
  | ioWaiting =>
    cases i with
    | go =>
      simp only [Connection.Task.step] at h
      split_ifs at h with hlocked
      rw [Bool.not_eq_true] at hlocked
      split at h <;> cases h
      · rfl
      · simp [connectionLocked, SerialConnection.lock, hlocked, lifeLocks]
    | _ => cases h
  | ioHolding =>
    have hunlock : ∀ new', heldBy lifeLocks new' () = 0 →
        connectionLocked c.unlock () + lifeLocks .ioHolding () =
          connectionLocked c () + heldBy lifeLocks new' () := by
      intro new' hnew
      rw [hnew]
      simp only [lifeLocks, connectionLocked] at hle ⊢
      split_ifs at hle with hlocked
      · simp [SerialConnection.unlock, hlocked]
      · omega
    cases i with
    | finished =>
      cases h
      exact hunlock [] rfl
    | again =>
      simp only [Connection.Task.step] at h
      split_ifs at h <;> cases h
      · exact hunlock [] rfl
      · exact hunlock [.ioWaiting] rfl
    | _ => cases h

theorem heldBy_life (new : List Connection.Task) :
    heldBy Task.locks (new.map .life) () = heldBy lifeLocks new () := by
  induction new with
  | nil => rfl
  | cons t new ih =>
    rw [List.map_cons, heldBy_cons, heldBy_cons, ih]
    rfl

theorem writeOn_locks (k : ℕ) (r : TxRequest) (sent : ℕ) : (writeOn k r sent).locks () = 1 := by
  unfold writeOn
  split_ifs <;> rfl

/-- A step gives back the lock it holds, or takes the free one. -/
theorem Effect.locks (h : Effect w t w' new) (hle : t.locks () ≤ w.locked ()) :
    w'.locked () + t.locks () = w.locked () + heldBy Task.locks new () := by
  cases h with
  | ends ht => rcases ht with ⟨op, rfl⟩ | ⟨k, op, rfl⟩ | rfl | ⟨k, rfl⟩ <;> rfl
  | begins hlocked hio hop =>
    rw [heldBy_cons, writeOn_locks]
    simp [World.locked, connectionLocked, World.lock, World.perform, SerialConnection.lock,
      hlocked, Task.locks]
  | proceeds n hn =>
    rw [heldBy_cons, writeOn_locks]
    rfl
  | breaks fatal ht =>
    have hheld : t.locks () = 1 := by
      rcases ht with ⟨sent, rfl⟩ | rfl <;> rfl
    rw [hheld] at hle ⊢
    simp only [World.locked, connectionLocked] at hle ⊢
    split_ifs at hle with hlocked
    · simp [World.unlock, World.resolve, SerialConnection.unlock, hlocked, Task.locks]
    · omega
  | completes =>
    simp only [Task.locks, World.locked, connectionLocked] at hle ⊢
    split_ifs at hle with hlocked
    · simp [World.unlock, World.resolve, World.recordTxBytes, SerialConnection.unlock, hlocked,
        Task.locks]
    · omega
  | lives hstep =>
    rw [heldBy_life]
    exact life_locks hstep hle
  | _ => rfl

theorem Starts.locks (h : t.Starts) : t.locks () = 0 := by
  cases t with
  | life t => cases t <;> first | rfl | exact absurd h id
  | acquire op => rfl
  | remove => rfl
  | _ => exact absurd h id

/-- **One holder**: the lock is held by the tasks exactly as often as it is taken, that
    is, at most once. -/
theorem locks_move (hbal : Balanced Task.locks World.locked s) (hm : AnyMove s m)
    (hs : s.move Task.step m = some s') : Balanced Task.locks World.locked s' := by
  refine hbal.move (fun t ht u => ?_) (fun l t r i w new hmove htasks hstep u => ?_) hs
  · rw [ht] at hm
    exact Starts.locks hm
  · have hmem : t ∈ s.tasks := by simp [htasks]
    exact (Task.step_effect hstep).locks (hbal.le hmem ())

/-! ## The workers -/

/-- Whether a task is the worker of a session. -/
def Task.serves : Task → ℕ → ℕ
  | .idle k, k' | .locking k _, k' | .writing k _ _, k' | .flushing k _, k' =>
    if k = k' then 1 else 0
  | _, _ => 0

/-- Whether a session has a receiver. -/
def World.receivers (w : World) (k : ℕ) : ℕ :=
  match w.sessions[k]? with
  | some s => if s.chan.closed then 0 else 1
  | none => 0

theorem receivers_of_some {sess : TxSession} (hs : w.sessions[k]? = some sess) :
    w.receivers k = if sess.chan.closed then 0 else 1 := by
  rw [World.receivers, hs]

theorem receivers_update {sess sess' : TxSession} (hs : w.sessions[k]? = some sess) (k' : ℕ) :
    (w.update k sess').receivers k' =
      if k = k' then (if sess'.chan.closed then 0 else 1) else w.receivers k' := by
  obtain ⟨hlt, -⟩ := List.getElem?_eq_some_iff.1 hs
  by_cases hk : k = k'
  · subst hk
    rw [if_pos rfl]
    exact receivers_of_some (List.getElem?_set_self hlt)
  · rw [if_neg hk, World.receivers, World.receivers]
    change (match (w.sessions.set k sess')[k']? with | some s => _ | none => _) = _
    rw [List.getElem?_set_ne hk]

theorem receivers_same {sess : TxSession} (sess' : TxSession) (hs : w.sessions[k]? = some sess)
    (hclosed : sess'.chan.closed = sess.chan.closed) :
    (w.update k sess').receivers = w.receivers := by
  funext k'
  rw [receivers_update hs]
  split_ifs with hk hc
  · subst hk
    rw [receivers_of_some hs, ← hclosed, if_pos hc]
  · subst hk
    rw [receivers_of_some hs, ← hclosed, if_neg hc]
  · rfl

theorem heldBy_life_serves (new : List Connection.Task) (k : ℕ) :
    heldBy Task.serves (new.map .life) k = 0 := by
  rw [heldBy_eq_zero]
  intro t ht
  obtain ⟨t', -, rfl⟩ := List.mem_map.1 ht
  rfl

theorem writeOn_serves (k : ℕ) (r : TxRequest) (sent k' : ℕ) :
    (writeOn k r sent).serves k' = if k = k' then 1 else 0 := by
  unfold writeOn
  split_ifs <;> simp [Task.serves, *]

/-- A step that creates a session starts its worker, and a worker that ends drops its
    receiver. -/
theorem Effect.workers (h : Effect w t w' new) (hle : ∀ k, t.serves k ≤ w.receivers k) (k' : ℕ) :
    w'.receivers k' + t.serves k' = w.receivers k' + heldBy Task.serves new k' := by
  cases h with
  | ends ht => rcases ht with ⟨op, rfl⟩ | ⟨k, op, rfl⟩ | rfl | ⟨k, rfl⟩ <;> rfl
  | creates hk =>
    simp only [World.receivers, heldBy_cons, heldBy_nil, Task.serves]
    rcases Nat.lt_trichotomy k' w.sessions.length with hlt | rfl | hlt
    · rw [List.getElem?_append_left hlt, if_neg (Nat.ne_of_gt hlt)]
    · simp [TxSession.new]
    · rw [List.getElem?_eq_none (by simp; omega), List.getElem?_eq_none (by omega),
        if_neg (Nat.ne_of_lt hlt)]
  | issues sess hs _ =>
    have hsame := receivers_same (w := w.issue) sess.clone hs rfl
    rw [hsame]
    rfl
  | returns sess hs _ =>
    have hsame := receivers_same sess.release hs rfl
    exact congrFun hsame k'
  | withdraws sess hs =>
    have hsame := receivers_same sess.release hs rfl
    exact congrFun hsame k'
  | sends sess c hs hc =>
    obtain ⟨hclosed, hclosed', -⟩ := Chan.send_eq hc
    have hsame := receivers_same (sess.withChan c) hs (hclosed'.trans hclosed.symm)
    exact congrFun hsame k'
  | replies sess outcome hs _ =>
    have hsame := receivers_same sess.release hs rfl
    exact congrFun hsame k'
  | leaves sess hs =>
    have hsame := receivers_same sess.release hs rfl
    exact congrFun hsame k'
  | @finishes k sess hs =>
    have hone := hle k
    rw [receivers_of_some hs] at hone
    have hafter : (w.finish k sess).receivers k' =
        if k = k' then 0 else w.receivers k' := receivers_update hs k'
    rw [hafter]
    simp only [Task.serves, if_true] at hone ⊢
    split_ifs with hk
    · subst hk
      rw [receivers_of_some hs]
      split_ifs at hone ⊢ with hclosed
      · exact absurd hone (by omega)
      · rfl
    · rfl
  | rejects sess r c hs hr _ =>
    obtain ⟨-, -, -, hclosed⟩ := Chan.recv_eq hr
    have hsame := receivers_same (sess.withChan c) hs hclosed
    exact congrArg (· + _) (congrFun hsame k')
  | takes sess r c hs hr =>
    obtain ⟨-, -, -, hclosed⟩ := Chan.recv_eq hr
    have hsame := receivers_same (sess.withChan c) hs hclosed
    exact congrArg (· + _) (congrFun hsame k')
  | begins hlocked hio hop =>
    rw [heldBy_cons, writeOn_serves]
    rfl
  | proceeds n hn =>
    rw [heldBy_cons, writeOn_serves]
    rfl
  | breaks fatal ht => rcases ht with ⟨sent, rfl⟩ | rfl <;> rfl
  | removes sess hk hs =>
    have hsame := receivers_same (w := { w with registered := none }) sess.shutdown hs rfl
    exact congrFun hsame k'
  | lives hstep =>
    rw [heldBy_life_serves]
    rfl
  | _ => rfl

theorem Starts.serves (h : t.Starts) (k : ℕ) : t.serves k = 0 := by
  cases t with
  | life t => rfl
  | acquire op => rfl
  | remove => rfl
  | _ => exact absurd h id

/-- **One worker for each session**, until it drops the receiver. -/
theorem workers_move (hbal : Balanced Task.serves World.receivers s) (hm : AnyMove s m)
    (hs : s.move Task.step m = some s') : Balanced Task.serves World.receivers s' := by
  refine hbal.move (fun t ht k => ?_) (fun l t r i w new hmove htasks hstep k => ?_) hs
  · rw [ht] at hm
    exact Starts.serves hm k
  · have hmem : t ∈ s.tasks := by simp [htasks]
    exact (Task.step_effect hstep).workers (fun k => hbal.le hmem k) k

end

/-! ## The requests -/

/-- Whether a task has a request in its hands. -/
def Task.holds : Task → ℕ → ℕ
  | .sending _ r, x | .locking _ r, x | .writing _ r _, x | .flushing _ r, x =>
    if r.ack = x then 1 else 0
  | _, _ => 0

/-- How often a request is in the channel of a session. -/
def TxSession.queued (s : TxSession) (x : ℕ) : ℕ := s.chan.queue.countP (·.ack = x)

/-- How often a oneshot was resolved. -/
def World.resolved (w : World) (x : ℕ) : ℕ := w.acks.countP (·.1 = x)

/-- How often a request is in a channel, or was resolved. -/
def World.settled (w : World) (x : ℕ) : ℕ :=
  heldBy TxSession.queued w.sessions x + w.resolved x

/-- The requests that were issued. -/
def World.issued (w : World) (x : ℕ) : ℕ := if x < w.nextAck then 1 else 0

section
variable {w w' : World} {t : Task} {new : List Task} {k : ℕ} {r : TxRequest}
  {s s' : Link} {m : Move Task Input} {sess sess' : TxSession}

theorem resolved_resolve (w : World) (ack : ℕ) (outcome : Option Answer) (x : ℕ) :
    (w.resolve ack outcome).resolved x = w.resolved x + if ack = x then 1 else 0 := by
  simp [World.resolved, World.resolve, List.countP_cons]

theorem settled_update (sess' : TxSession) (hs : w.sessions[k]? = some sess) (x : ℕ) :
    (w.update k sess').settled x + sess.queued x = w.settled x + sess'.queued x := by
  have hset : heldBy TxSession.queued (w.sessions.set k sess') x + sess.queued x =
      heldBy TxSession.queued w.sessions x + sess'.queued x := heldBy_set hs sess' x
  have hresolved : (w.update k sess').resolved x = w.resolved x := rfl
  simp only [World.settled, hresolved]
  change heldBy TxSession.queued (w.sessions.set k sess') x + _ + _ = _
  omega

theorem settled_same (sess' : TxSession) (hs : w.sessions[k]? = some sess)
    (hqueue : sess'.chan.queue = sess.chan.queue) (x : ℕ) :
    (w.update k sess').settled x = w.settled x := by
  have hset := settled_update sess' hs x
  have hqueued : sess'.queued x = sess.queued x := by
    rw [TxSession.queued, TxSession.queued, hqueue]
  omega

theorem settled_resolve (w : World) (ack : ℕ) (outcome : Option Answer) (x : ℕ) :
    (w.resolve ack outcome).settled x = w.settled x + if ack = x then 1 else 0 := by
  rw [World.settled, resolved_resolve, ← Nat.add_assoc]
  rfl

theorem queued_recv {c : Chan TxRequest txChannelCapacity} (hr : sess.chan.recv = some (r, c))
    (x : ℕ) : sess.queued x = (sess.withChan c).queued x + if r.ack = x then 1 else 0 := by
  obtain ⟨hqueue, -⟩ := Chan.recv_eq hr
  simp [TxSession.queued, TxSession.withChan, hqueue, List.countP_cons]

theorem queued_send {c : Chan TxRequest txChannelCapacity} (hc : sess.chan.send r = some c)
    (x : ℕ) : (sess.withChan c).queued x = sess.queued x + if r.ack = x then 1 else 0 := by
  obtain ⟨-, -, -, hqueue, -⟩ := Chan.send_eq hc
  simp [TxSession.queued, TxSession.withChan, hqueue, List.countP_cons]

/-- What is queued when the receiver is dropped is resolved then. -/
theorem settled_finish (hs : w.sessions[k]? = some sess) (x : ℕ) :
    (w.finish k sess).settled x = w.settled x := by
  have hset := settled_update (sess.withChan sess.chan.close) hs x
  have hempty : (sess.withChan sess.chan.close).queued x = 0 := rfl
  have hresolved : (w.finish k sess).settled x =
      (w.update k (sess.withChan sess.chan.close)).settled x + sess.queued x := by
    have hcount : (sess.chan.queue.map fun r => (r.ack, (none : Option Answer))).countP
        (·.1 = x) = sess.queued x := List.countP_map
    simp only [World.settled, World.resolved, World.finish, World.update, List.countP_append,
      hcount]
    omega
  omega

theorem writeOn_holds (k : ℕ) (r : TxRequest) (sent x : ℕ) :
    (writeOn k r sent).holds x = if r.ack = x then 1 else 0 := by
  unfold writeOn
  split_ifs <;> simp [Task.holds, *]

theorem heldBy_life_holds (new : List Connection.Task) (x : ℕ) :
    heldBy Task.holds (new.map .life) x = 0 := by
  rw [heldBy_eq_zero]
  intro t ht
  obtain ⟨t', -, rfl⟩ := List.mem_map.1 ht
  rfl

theorem issued_issue (w : World) (x : ℕ) :
    w.issue.issued x = w.issued x + if w.nextAck = x then 1 else 0 := by
  have hstep : (x < w.nextAck + 1) ↔ (x < w.nextAck ∨ w.nextAck = x) := by omega
  simp only [World.issued, World.issue, hstep]
  by_cases hx : x < w.nextAck
  · have hne : w.nextAck ≠ x := by omega
    simp [hx, hne]
  · simp [hx]

/-! What has nothing to do with the requests. -/

@[simp] theorem settled_reply (w : World) (ack : ℕ) (a : Answer) :
    (w.reply ack a).settled = w.settled := rfl

@[simp] theorem settled_issue (w : World) : w.issue.settled = w.settled := rfl

@[simp] theorem settled_perform (w : World) (k : ℕ) (r : TxRequest) (n : ℕ) :
    (w.perform k r n).settled = w.settled := rfl

@[simp] theorem settled_unlock (w : World) : w.unlock.settled = w.settled := rfl

@[simp] theorem settled_recordTxBytes (w : World) (n : ℕ) :
    (w.recordTxBytes n).settled = w.settled := rfl

@[simp] theorem issued_reply (w : World) (ack : ℕ) (a : Answer) :
    (w.reply ack a).issued = w.issued := rfl

@[simp] theorem issued_resolve (w : World) (ack : ℕ) (outcome : Option Answer) :
    (w.resolve ack outcome).issued = w.issued := rfl

@[simp] theorem issued_update (w : World) (k : ℕ) (sess : TxSession) :
    (w.update k sess).issued = w.issued := rfl

@[simp] theorem issued_perform (w : World) (k : ℕ) (r : TxRequest) (n : ℕ) :
    (w.perform k r n).issued = w.issued := rfl

@[simp] theorem issued_unlock (w : World) : w.unlock.issued = w.issued := rfl

@[simp] theorem issued_recordTxBytes (w : World) (n : ℕ) :
    (w.recordTxBytes n).issued = w.issued := rfl

/-- A step passes each request on, or resolves it; a new one has a new number. -/
theorem Effect.requests (h : Effect w t w' new) (x : ℕ) :
    heldBy Task.holds new x + w'.settled x + w.issued x = t.holds x + w.settled x + w'.issued x := by
  cases h with
  | ends ht => rcases ht with ⟨op, rfl⟩ | ⟨k, op, rfl⟩ | rfl | ⟨k, rfl⟩ <;> rfl
  | creates hk =>
    have hsettled : World.settled { w with
        sessions := w.sessions ++ [.new], registered := some w.sessions.length } x =
        w.settled x := by
      simp only [World.settled, heldBy_append]
      rfl
    rw [hsettled]
    rfl
  | issues sess hs _ =>
    have hsettled := settled_same (w := w.issue) sess.clone hs rfl x
    simp only [hsettled, settled_issue, issued_update, issued_issue, heldBy_cons, heldBy_nil,
      Task.holds]
    omega
  | refuses sess hs _ =>
    simp only [settled_reply, settled_resolve, settled_issue, issued_reply, issued_resolve,
      issued_issue, heldBy_nil, Task.holds]
    omega
  | returns sess hs _ =>
    have hsettled := settled_same sess.release hs rfl x
    simp only [settled_reply, settled_resolve, hsettled, issued_reply, issued_resolve,
      issued_update, heldBy_nil, Task.holds]
    omega
  | withdraws sess hs =>
    have hsettled := settled_same sess.release hs rfl x
    simp only [settled_resolve, hsettled, issued_resolve, issued_update, heldBy_nil, Task.holds]
    omega
  | sends sess c hs hc =>
    have hsettled := settled_update (sess.withChan c) hs x
    rw [queued_send hc] at hsettled
    simp only [issued_update, heldBy_cons, heldBy_nil, Task.holds]
    omega
  | replies sess outcome hs _ =>
    have hsettled := settled_same sess.release hs rfl x
    simp only [settled_reply, hsettled, issued_reply, issued_update, heldBy_nil, Task.holds]
  | leaves sess hs =>
    have hsettled := settled_same sess.release hs rfl x
    simp only [hsettled, issued_update, heldBy_nil, Task.holds]
  | finishes sess hs =>
    rw [settled_finish hs]
    rfl
  | rejects sess r c hs hr _ =>
    have hsettled := settled_update (sess.withChan c) hs x
    rw [queued_recv hr] at hsettled
    simp only [settled_resolve, issued_resolve, issued_update, heldBy_cons, heldBy_nil, Task.holds]
    omega
  | takes sess r c hs hr =>
    have hsettled := settled_update (sess.withChan c) hs x
    rw [queued_recv hr] at hsettled
    simp only [issued_update, heldBy_cons, heldBy_nil, Task.holds]
    omega
  | misses _ _ =>
    simp only [settled_resolve, issued_resolve, heldBy_cons, heldBy_nil, Task.holds]
    omega
  | begins hlocked hio hop =>
    rw [heldBy_cons, writeOn_holds]
    rfl
  | clears hlocked hio hop =>
    simp only [settled_resolve, settled_perform, issued_resolve, issued_perform, heldBy_cons,
      heldBy_nil, Task.holds]
    omega
  | clearFails fatal hlocked hio hop =>
    simp only [settled_resolve, settled_perform, issued_resolve, issued_perform, heldBy_cons,
      heldBy_nil, Task.holds]
    omega
  | proceeds n hn =>
    rw [heldBy_cons, writeOn_holds]
    rfl
  | @breaks t k r fatal ht =>
    have hheld : t.holds x = if r.ack = x then 1 else 0 := by
      rcases ht with ⟨sent, rfl⟩ | rfl <;> rfl
    have hidle : (Task.idle k).holds x = 0 := rfl
    simp only [settled_resolve, settled_unlock, issued_resolve, issued_unlock, hheld, hidle,
      heldBy_cons, heldBy_nil]
    omega
  | completes =>
    simp only [settled_resolve, settled_recordTxBytes, settled_unlock, issued_resolve,
      issued_recordTxBytes, issued_unlock, heldBy_cons, heldBy_nil, Task.holds]
    omega
  | removes sess hk hs =>
    have hsettled := settled_same (w := { w with registered := none }) sess.shutdown
      hs rfl x
    exact congrArg (_ + · + _) hsettled
  | lives hstep =>
    rw [heldBy_life_holds]
    rfl
  | _ => rfl

theorem Starts.holds (h : t.Starts) (x : ℕ) : t.holds x = 0 := by
  cases t with
  | life t => rfl
  | acquire op => rfl
  | remove => rfl
  | _ => exact absurd h id

/-- **No request is lost, and none is there twice**: with its caller, in the hands of a
    worker, in a channel or resolved, each that was issued is in one place. -/
theorem requests_move (hcons : Conserved Task.holds World.settled World.issued s)
    (hm : AnyMove s m) (hs : s.move Task.step m = some s') :
    Conserved Task.holds World.settled World.issued s' := by
  refine hcons.move (fun t ht x => ?_) (fun l t r i w new hmove htasks hstep x => ?_) hs
  · rw [ht] at hm
    exact Starts.holds hm x
  · exact (Task.step_effect hstep).requests x

end

end SerialMcp.Tx
