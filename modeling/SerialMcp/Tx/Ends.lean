/-
  The ends of a TX session, and its books.

  * `requests_conserved`: where each request is, and what `tx_bytes` counts;
  * `joined_silent`: once `shutdown_and_join` has waited for the worker, the
    session does nothing more, whoever still has a clone of its sender;
  * `offline_silent`: without a port and a `reconnect`, nothing is given to the
    port, and every request is refused as closed.
-/
import SerialMcp.Tx.Order

namespace SerialMcp.Tx

open Tasks Channels
open Connection (SerialConnection Stream)

/-! ## The books -/

/-- The bytes that an answer reports. -/
def ackedBytes : ℕ × Option Answer → ℕ
  | (_, some (.ok d)) => d.bytes
  | _ => 0

section
variable {w w' : World} {t : Task} {new : List Task} {k x : ℕ} {r : TxRequest}
  {sess sess' : TxSession} {s s' s₁ : Link} {stream : Stream}

theorem ackedBytes_lost (rs : List TxRequest) :
    ((rs.map fun r => (r.ack, (none : Option Answer))).map ackedBytes).sum = 0 := by
  induction rs with
  | nil => rfl
  | cons r rs ih =>
    simp only [List.map_cons, List.sum_cons, ih]
    rfl

theorem Effect.counts (h : Effect w t w' new) (hbytes : w.txBytes = (w.acks.map ackedBytes).sum) :
    w'.txBytes = (w'.acks.map ackedBytes).sum := by
  have hmore : ∀ {w'' : World} (acks : List (ℕ × Option Answer)), w''.acks = w.acks ++ acks →
      w''.txBytes = w.txBytes + (acks.map ackedBytes).sum →
        w''.txBytes = (w''.acks.map ackedBytes).sum := by
    intro w'' acks hacks htx
    rw [hacks, htx, List.map_append, List.sum_append, hbytes]
  cases h with
  | refuses => exact hmore [(w.nextAck, none)] rfl rfl
  | @returns k r sess => exact hmore [(r.ack, none)] rfl rfl
  | @withdraws k r sess => exact hmore [(r.ack, none)] rfl rfl
  | finishes sess hs =>
    refine hmore (sess.chan.queue.map fun r => (r.ack, none)) rfl ?_
    rw [ackedBytes_lost]
    rfl
  | rejects sess r c => exact hmore [(r.ack, some (.error .connectionClosed))] rfl rfl
  | @misses k r => exact hmore [(r.ack, some (.error .connectionClosed))] rfl rfl
  | @clears k r => exact hmore [(r.ack, some (.ok .flushed))] rfl rfl
  | @clearFails k r fatal => exact hmore [(r.ack, some (.error (.ioError fatal)))] rfl rfl
  | @breaks t k r fatal => exact hmore [(r.ack, some (.error (.ioError fatal)))] rfl rfl
  | @completes k r => exact hmore [(r.ack, some (.ok r.op.done))] rfl rfl
  | _ => exact hbytes

/-- **Where each request is**: with its caller or a worker, in a channel or resolved,
    and in one of these only; `tx_bytes` counts what the answers reported. -/
theorem requests_conserved (h : Runs Task.step AnyMove (Link.opened stream) s) :
    (∀ x, heldBy Task.holds s.tasks x + heldBy TxSession.queued s.world.sessions x +
      s.world.resolved x = if x < s.world.nextAck then 1 else 0) ∧
    s.world.txBytes = (s.world.acks.map ackedBytes).sum := by
  constructor
  · intro x
    have hcons := (Sound.of_runs h).requests x
    rw [Nat.add_assoc]
    exact hcons
  · refine h.invariant (J := fun s => s.world.txBytes = (s.world.acks.map ackedBytes).sum) ?_ rfl
    intro s s' m hbytes _ hs
    obtain ⟨t, rfl, rfl⟩ | ⟨l, t, r, i, w, new, rfl, htasks, hstep, rfl⟩ := move_cases hs
    · exact hbytes
    · exact (Task.step_effect hstep).counts hbytes

/-! ## After the join -/

theorem getElem?_update (hs : w.sessions[k]? = some sess) (k' : ℕ) :
    (w.update k sess').sessions[k']? = if k = k' then some sess' else w.sessions[k']? := by
  obtain ⟨hlt, -⟩ := List.getElem?_eq_some_iff.1 hs
  by_cases hk : k = k'
  · subst hk
    rw [if_pos rfl]
    exact List.getElem?_set_self hlt
  · rw [if_neg hk]
    exact List.getElem?_set_ne hk

theorem chan_update {k' : ℕ} {sess'' : TxSession} (hs : w.sessions[k]? = some sess)
    (hs' : w.sessions[k']? = some sess') (hchan : sess''.chan = sess'.chan) :
    ∃ sess₁, (w.update k' sess'').sessions[k]? = some sess₁ ∧ sess₁.chan = sess.chan := by
  rw [getElem?_update hs']
  split_ifs with hk
  · subst hk
    obtain rfl := Option.some.inj (hs.symm.trans hs')
    exact ⟨sess'', rfl, hchan⟩
  · exact ⟨sess, hs, rfl⟩

theorem Effect.ended (h : Effect w t w' new) (hs : w.sessions[k]? = some sess)
    (hclosed : sess.chan.closed = true) (hserves : t.serves k = 0) :
    ∃ sess₁, w'.sessions[k]? = some sess₁ ∧ sess₁.chan = sess.chan := by
  have hother : ∀ {k' : ℕ} {sess' sess'' : TxSession}, w.sessions[k']? = some sess' → k' ≠ k →
      ∃ sess₁, (w.update k' sess'').sessions[k]? = some sess₁ ∧ sess₁.chan = sess.chan := by
    intro k' sess' sess'' hs' hne
    rw [getElem?_update hs', if_neg hne]
    exact ⟨sess, hs, rfl⟩
  cases h with
  | creates =>
    obtain ⟨hlt, -⟩ := List.getElem?_eq_some_iff.1 hs
    exact ⟨sess, (List.getElem?_append_left hlt).trans hs, rfl⟩
  | issues sess' hs' _ => exact chan_update (w := w.issue) hs hs' rfl
  | returns sess' hs' _ => exact chan_update hs hs' rfl
  | withdraws sess' hs' => exact chan_update hs hs' rfl
  | @sends k' r sess' c hs' hc =>
    refine hother hs' fun hk => ?_
    subst hk
    obtain rfl := Option.some.inj (hs.symm.trans hs')
    obtain ⟨hopen, -⟩ := Chan.send_eq hc
    rw [hclosed] at hopen
    cases hopen
  | replies sess' outcome hs' _ => exact chan_update hs hs' rfl
  | leaves sess' hs' => exact chan_update hs hs' rfl
  | @finishes k' sess' hs' =>
    exact hother hs' fun hk => by simp [Task.serves, hk] at hserves
  | @rejects k' sess' r c hs' _ _ =>
    exact hother hs' fun hk => by simp [Task.serves, hk] at hserves
  | @takes k' sess' r c hs' _ =>
    exact hother hs' fun hk => by simp [Task.serves, hk] at hserves
  | removes sess' _ hs' => exact chan_update (w := { w with registered := none }) hs hs' rfl
  | _ => exact ⟨sess, hs, rfl⟩

/-- `shutdown_and_join` returns from its wait only when the worker has ended. -/
theorem joined_closed {n : ℕ} (ht : s.tasks[n]? = some (.joining k))
    (hs : s.move Task.step (.run n .go) = some s₁) :
    s₁.world = s.world ∧ ∃ sess, s.world.sessions[k]? = some sess ∧ sess.chan.closed = true := by
  simp only [State.move, ht, Option.bind_some, Task.step, Option.map_eq_some_iff,
    Option.bind_eq_some_iff] at hs
  obtain ⟨⟨w, new⟩, ⟨sess, hsess, hstep⟩, rfl⟩ := hs
  split_ifs at hstep with hclosed
  obtain ⟨rfl, -⟩ := Prod.mk.inj (Option.some.inj hstep)
  exact ⟨rfl, sess, hsess, hclosed⟩

/-- **Nothing follows the join**: after `shutdown_and_join` no worker of the session is
    left, and the session neither accepts a request nor gives one to the port. -/
theorem joined_silent {n : ℕ} (h : Runs Task.step AnyMove (Link.opened stream) s)
    (ht : s.tasks[n]? = some (.joining k)) (hs : s.move Task.step (.run n .go) = some s₁)
    (hr : Runs Task.step AnyMove s₁ s') :
    s'.world.performedBy k = s.world.performedBy k ∧
      s'.world.accepted k = s.world.accepted k ∧ ∀ t ∈ s'.tasks, t.serves k = 0 := by
  obtain ⟨hworld, sess, hsess, hclosed⟩ := joined_closed ht hs
  have hsound := (Sound.of_runs h).move (m := .run n .go) trivial hs
  have hidle : ∀ {s : Link} {sess : TxSession}, Sound s → s.world.sessions[k]? = some sess →
      sess.chan.closed = true → ∀ t ∈ s.tasks, t.serves k = 0 := by
    intro s sess hsound hsess hclosed t ht
    have hle := hsound.workers.le ht k
    rw [receivers_of_some hsess, if_pos hclosed] at hle
    omega
  have hrun : Sound s' ∧ s'.world.performedBy k = s.world.performedBy k ∧
      ∃ sess', s'.world.sessions[k]? = some sess' ∧ sess'.chan = sess.chan := by
    refine hr.invariant (J := fun s' => Sound s' ∧
      s'.world.performedBy k = s.world.performedBy k ∧
        ∃ sess', s'.world.sessions[k]? = some sess' ∧ sess'.chan = sess.chan) ?_
        ⟨hsound, by rw [hworld], sess, by rw [hworld]; exact hsess, rfl⟩
    rintro s₂ s₃ m ⟨hsound₂, hperformed, sess₂, hsess₂, hchan⟩ hm hs
    refine ⟨hsound₂.move hm hs, ?_⟩
    obtain ⟨t, rfl, rfl⟩ | ⟨l, t, r, i, w, new, rfl, htasks, hstep, rfl⟩ := move_cases hs
    · exact ⟨hperformed, sess₂, hsess₂, hchan⟩
    · have hmem : t ∈ s₂.tasks := by simp [htasks]
      have hclosed₂ : sess₂.chan.closed = true := by rw [hchan, hclosed]
      have hserves := hidle hsound₂ hsess₂ hclosed₂ t hmem
      have heffect := Task.step_effect hstep
      obtain ⟨-, hsame⟩ := heffect.own_worker (hsound₂.inHand t hmem) hserves
      obtain ⟨sess₃, hsess₃, hchan₃⟩ := heffect.ended hsess₂ hclosed₂ hserves
      exact ⟨hsame.trans hperformed, sess₃, hsess₃, hchan₃.trans hchan⟩
  obtain ⟨hsound', hperformed, sess', hsess', hchan⟩ := hrun
  refine ⟨hperformed, ?_, hidle hsound' hsess' (by rw [hchan, hclosed])⟩
  rw [World.accepted, World.accepted, hsess', hsess]
  exact congrArg Chan.accepted hchan

/-! ## Without a port -/

/-- A `reconnect` in progress. -/
def Task.Reconnects : Task → Prop
  | .life t => t.Reconnects
  | _ => False

/-- Nobody reconnects. -/
def Offline (s : Link) (m : Move Task Input) : Prop :=
  AnyMove s m ∧ ∀ t, m = .start t → ¬ t.Reconnects

/-- An outcome that is no success and no error of the port. -/
def Refused (a : ℕ × Option Answer) : Prop :=
  a.2 = none ∨ a.2 = some (.error .connectionClosed)

theorem Effect.offline (h : Effect w t w' new) (hin : t.InHand w)
    (hio : w.connection.io = none) (ht : ¬ t.Reconnects) :
    w'.connection.io = none ∧ w'.port = w.port ∧ (∀ t' ∈ new, ¬ t'.Reconnects) ∧
      ∃ more, w'.acks = w.acks ++ more ∧ ∀ a ∈ more, Refused a := by
  have hsame : ∃ more, w.acks = w.acks ++ more ∧ ∀ a ∈ more, Refused a :=
    ⟨[], (List.append_nil _).symm, by simp⟩
  cases h with
  | refuses => exact ⟨hio, rfl, by simp, [_], rfl, by simp [Refused]⟩
  | returns => exact ⟨hio, rfl, by simp, [_], rfl, by simp [Refused]⟩
  | withdraws => exact ⟨hio, rfl, by simp, [_], rfl, by simp [Refused]⟩
  | finishes sess hs =>
    refine ⟨hio, rfl, by simp, _, rfl, fun a ha => ?_⟩
    obtain ⟨r, -, rfl⟩ := List.mem_map.1 ha
    exact .inl rfl
  | rejects => exact ⟨hio, rfl, by simp [Task.Reconnects], [_], rfl, by simp [Refused]⟩
  | misses => exact ⟨hio, rfl, by simp [Task.Reconnects], [_], rfl, by simp [Refused]⟩
  | begins _ hport => exact absurd hio hport
  | clears _ hport => exact absurd hio hport
  | clearFails _ _ hport => exact absurd hio hport
  | proceeds => exact absurd hio hin.1
  | breaks fatal ht => rcases ht with ⟨sent, rfl⟩ | rfl <;> exact absurd hio hin.1
  | completes => exact absurd hio hin.1
  | lives hstep =>
    have heffect := Connection.Task.step_effect hstep
    refine ⟨?_, rfl, fun t' ht' => ?_, hsame⟩
    · cases heffect with
      | takes => rfl
      | installs => exact absurd trivial ht
      | _ => exact hio
    · obtain ⟨t'', ht'', rfl⟩ := List.mem_map.1 ht'
      exact (heffect.frame ht).2.2 t'' ht''
  | ends => exact ⟨hio, rfl, by simp, hsame⟩
  | replies => exact ⟨hio, rfl, by simp, hsame⟩
  | leaves => exact ⟨hio, rfl, by simp, hsame⟩
  | finds => exact ⟨hio, rfl, by simp [Task.Reconnects], hsame⟩
  | creates => exact ⟨hio, rfl, by simp [Task.Reconnects], hsame⟩
  | issues => exact ⟨hio, rfl, by simp [Task.Reconnects], hsame⟩
  | sends => exact ⟨hio, rfl, by simp [Task.Reconnects], hsame⟩
  | takes => exact ⟨hio, rfl, by simp [Task.Reconnects], hsame⟩
  | removes => exact ⟨hio, rfl, by simp [Task.Reconnects], hsame⟩

/-- **Nothing is written without a port**: from the loss of the stream on, and until a
    `reconnect`, nothing is given to the port, and every request is refused. -/
theorem offline_silent (h : Runs Task.step AnyMove (Link.opened stream) s)
    (hio : s.world.connection.io = none) (ht : ∀ t ∈ s.tasks, ¬ t.Reconnects)
    (hr : Runs Task.step Offline s s') :
    s'.world.port = s.world.port ∧
      ∃ more, s'.world.acks = s.world.acks ++ more ∧ ∀ a ∈ more, Refused a := by
  have hrun : Sound s' ∧ s'.world.connection.io = none ∧ (∀ t ∈ s'.tasks, ¬ t.Reconnects) ∧
      s'.world.port = s.world.port ∧
        ∃ more, s'.world.acks = s.world.acks ++ more ∧ ∀ a ∈ more, Refused a := by
    refine hr.invariant (J := fun s' => Sound s' ∧ s'.world.connection.io = none ∧
      (∀ t ∈ s'.tasks, ¬ t.Reconnects) ∧ s'.world.port = s.world.port ∧
        ∃ more, s'.world.acks = s.world.acks ++ more ∧ ∀ a ∈ more, Refused a) ?_
        ⟨Sound.of_runs h, hio, ht, rfl, [], (List.append_nil _).symm, by simp⟩
    rintro s₂ s₃ m ⟨hsound, hio₂, ht₂, hport, more, hacks, hmore⟩ hm hs
    refine ⟨hsound.move hm.1 hs, ?_⟩
    obtain ⟨t, rfl, rfl⟩ | ⟨l, t, r, i, w, new, rfl, htasks, hstep, rfl⟩ := move_cases hs
    · refine ⟨hio₂, fun t' ht' => ?_, hport, more, hacks, hmore⟩
      rcases List.mem_append.1 ht' with ht' | ht'
      · exact ht₂ t' ht'
      · obtain rfl := List.mem_singleton.1 ht'
        exact hm.2 t' rfl
    · have hmem : t ∈ s₂.tasks := by simp [htasks]
      obtain ⟨hio₃, hport₃, hnew, more₃, hacks₃, hmore₃⟩ :=
        (Task.step_effect hstep).offline (hsound.inHand t hmem) hio₂ (ht₂ t hmem)
      refine ⟨hio₃, forall_replaced htasks ht₂ (fun _ _ h => h) hnew, hport₃.trans hport,
        more ++ more₃, ?_, fun a ha => ?_⟩
      · rw [hacks₃, hacks, List.append_assoc]
      · exact (List.mem_append.1 ha).elim (hmore a) (hmore₃ a)
  exact ⟨hrun.2.2.2.1, hrun.2.2.2.2⟩

end

/-- `requests_conserved` on `talk`: of its two requests one is answered and one queued. -/
theorem requests_conserved_talk :
    (∀ x, heldBy Task.holds talked.tasks x + heldBy TxSession.queued talked.world.sessions x +
      talked.world.resolved x = if x < 2 then 1 else 0) ∧
    2 = (talked.world.acks.map ackedBytes).sum := requests_conserved talk_runs

/-- `close` goes on and empties the slot, and the session is removed. -/
def ending : List (Move Task Input) :=
  [.run 1 (.life (.cleared (.ok ()))), .run 1 (.life .finished), .start .remove, .run 1 .go,
    .run 0 .cancelled]

/-- What `refusal` and then `ending` lead to. -/
def ended : Link where
  world := {
    connection := ⟨.closed, true, true, none, false, 0, none⟩
    port := [.byte 65, .byte 66]
    txBytes := 2
    sessions := [⟨false, 0, drained.close⟩]
    registered := none
    nextAck := 2
    acks := [(0, some (.ok (.written 2))), (1, some (.error .connectionClosed))]
    replies := [(0, .ok (.written 2)), (1, .error .connectionClosed)]
    performed := [⟨0, ⟨0, .write [65, 66]⟩, 2⟩] }
  tasks := [.joining 0]

theorem ending_runs : Runs Task.step AnyMove (Link.opened ⟨0⟩) ended := by
  have hplay : refused.play Task.step ending = some ended := rfl
  refine (talk_runs.trans refusal_runs).trans
    ((Runs.of_play (D := AnyMove refused) ?_ hplay).mono fun hm => hm)
  simp [ending, AnyMove, Task.Starts]

theorem joined_silent_ending :
    ended.world.accepted 0 = [⟨0, .write [65, 66]⟩, ⟨1, .flush⟩] ∧
      ∀ t ∈ ([] : List Task), t.serves 0 = 0 := by
  have hmove : ended.move Task.step (.run 0 .go) = some ⟨ended.world, []⟩ := rfl
  obtain ⟨-, haccepted, hidle⟩ := joined_silent ending_runs rfl hmove .refl
  exact ⟨haccepted.symm.trans rfl, hidle⟩

/-- A write that comes too late gets a session of its own, and is refused. -/
def late : List (Move Task Input) :=
  [.start (.acquire (.write [67])), .run 1 .go, .run 2 .go, .run 2 .go, .run 1 .cancelled]

theorem offline_silent_late : ∃ s', Runs Task.step Offline ended s' ∧
    s'.world.port = [.byte 65, .byte 66] ∧ (2, none) ∈ s'.world.acks := by
  have hplay : (ended.play Task.step late).isSome = true := rfl
  obtain ⟨s', hs'⟩ := Option.isSome_iff_exists.1 hplay
  have hrun : Runs Task.step Offline ended s' := by
    refine (Runs.of_play (D := Offline ended) ?_ hs').mono fun hm => hm
    simp [late, Offline, AnyMove, Task.Starts, Task.Reconnects]
  obtain ⟨hport, -⟩ := offline_silent ending_runs rfl (by simp [ended, Task.Reconnects]) hrun
  refine ⟨s', hrun, hport, ?_⟩
  have hacks : (ended.play Task.step late).map (·.world.acks) =
      some (ended.world.acks ++ [(2, none)]) := rfl
  rw [hs', Option.map_some] at hacks
  rw [Option.some.inj hacks]
  simp

end SerialMcp.Tx
