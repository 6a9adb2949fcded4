/-
  `listen` (`server.rs`) on the resource event hub (`resource_events.rs`): listeners of
  one hub, with publishers at any time.

  A listener takes the URIs it was accepted for once each, subscribes to the hub, and
  then passes on what it receives, one notification after another.  It ends when it is
  cancelled or dropped, when its sink fails, or when the hub is closed.

  The broadcast channel of the hub is any that answers in order and reports a lag when
  it skips.

  * `dedupe`: the accepted URIs in the order in which they occur first;
  * `Listener.response`: the notifications that a listener makes of what it gets;
  * `no_lost_wakeup`: a listener that has nothing left to receive has notified every
    accepted URI since its last publication.
-/
import SerialMcp.Lib.Tasks
import SerialMcp.Lib.Broadcast

namespace SerialMcp.Listen

open Tasks Broadcast

abbrev Uri := String

inductive ResourceEvent where
  /-- the resource at this URI may have changed -/
  | updated (uri : Uri)
  deriving DecidableEq, Repr

/-! ## The accepted URIs -/

section
variable {α : Type} [DecidableEq α]

/-- Keep what was not seen before (`HashSet::insert` as a filter). -/
def dedupe (seen : List α) : List α → List α
  | [] => []
  | x :: xs => if x ∈ seen then dedupe seen xs else x :: dedupe (x :: seen) xs

variable {seen xs : List α} {x : α}

theorem mem_dedupe : x ∈ dedupe seen xs ↔ x ∈ xs ∧ x ∉ seen := by
  induction xs generalizing seen with
  | nil => simp [dedupe]
  | cons y ys ih =>
    simp only [dedupe]
    split_ifs with hseen
    · rw [ih, List.mem_cons]
      constructor
      · rintro ⟨hys, hnot⟩
        exact ⟨.inr hys, hnot⟩
      · rintro ⟨rfl | hys, hnot⟩
        · exact absurd hseen hnot
        · exact ⟨hys, hnot⟩
    · rw [List.mem_cons, ih, List.mem_cons, List.mem_cons, not_or]
      by_cases hx : x = y
      · simp [hx, hseen]
      · simp [hx]

theorem dedupe_pairwise (seen xs : List α) :
    (dedupe seen xs).Pairwise fun x y => xs.idxOf x < xs.idxOf y := by
  induction xs generalizing seen with
  | nil => exact .nil
  | cons y ys ih =>
    have hlater : ∀ seen', y ∈ seen' → (dedupe seen' ys).Pairwise fun x x' =>
        (y :: ys).idxOf x < (y :: ys).idxOf x' := by
      intro seen' hy
      refine (ih seen').imp_of_mem fun {x x'} hx hx' hlt => ?_
      have hne : ∀ z ∈ dedupe seen' ys, y ≠ z := by
        rintro z hz rfl
        exact (mem_dedupe.1 hz).2 hy
      rw [List.idxOf_cons_ne _ (hne x hx), List.idxOf_cons_ne _ (hne x' hx')]
      omega
    simp only [dedupe]
    split_ifs with hseen
    · exact hlater seen hseen
    · refine .cons (fun x hx => ?_) (hlater _ List.mem_cons_self)
      have hne : y ≠ x := by
        rintro rfl
        exact (mem_dedupe.1 hx).2 List.mem_cons_self
      rw [List.idxOf_cons_self, List.idxOf_cons_ne _ hne]
      omega

theorem dedupe_congr {seen' : List α} (h : ∀ x ∈ xs, x ∈ seen ↔ x ∈ seen') :
    dedupe seen xs = dedupe seen' xs := by
  induction xs generalizing seen seen' with
  | nil => rfl
  | cons y ys ih =>
    have hys : ∀ x ∈ ys, x ∈ seen ↔ x ∈ seen' := by
      intro x hx
      exact h x (List.mem_cons_of_mem y hx)
    simp only [dedupe]
    by_cases hy : y ∈ seen
    · rw [if_pos hy, if_pos ((h y List.mem_cons_self).1 hy), ih hys]
    · rw [if_neg hy, if_neg fun hy' => hy ((h y List.mem_cons_self).2 hy')]
      refine congrArg (y :: ·) (ih ?_)
      intro x hx
      rw [List.mem_cons, List.mem_cons, hys x hx]

theorem dedupe_filter (p : α → Bool) (seen xs : List α) :
    dedupe seen (xs.filter p) = (dedupe seen xs).filter p := by
  induction xs generalizing seen with
  | nil => rfl
  | cons y ys ih =>
    by_cases hp : p y = true
    · rw [List.filter_cons_of_pos hp, dedupe, dedupe]
      split_ifs with hseen
      · exact ih seen
      · rw [List.filter_cons_of_pos hp, ih]
    · rw [List.filter_cons_of_neg hp, dedupe]
      split_ifs with hseen
      · exact ih seen
      · rw [List.filter_cons_of_neg hp, ← ih]
        -- what is kept of the rest is not `y`
        refine dedupe_congr ?_
        intro x hx
        have hne : x ≠ y := by
          rintro rfl
          exact hp (List.mem_filter.1 hx).2
        rw [List.mem_cons, or_iff_right hne]

end

/-! ## Publishers and listeners -/

structure Listener where
  /-- the URIs it was accepted for -/
  requested : List Uri
  receiver : Receiver ResourceEvent
  /-- the notifications that it is about to make -/
  pending : List Uri
  /-- the notifications made, with the number of events published by then -/
  notified : List (Uri × ℕ)
  ended : Bool

namespace Listener

/-- The URIs that it looks for. -/
def accepted (l : Listener) : List Uri := dedupe [] l.requested

/-- The notifications for what it gets. -/
def response (l : Listener) : Received ResourceEvent → List Uri
  | .value (.updated uri) => if uri ∈ l.accepted then [uri] else []
  | .lagged _ => l.accepted

end Listener

structure World where
  /-- all the events that were published -/
  sent : List ResourceEvent

inductive Task where
  /-- a publisher, with the hints that it has left (`publish_connection_changed` has three) -/
  | publishing (uris : List Uri)
  /-- `listen`, with the accepted filter -/
  | entering (resourceSubscriptions : Option (List Uri))
  | listening (l : Listener)

inductive Input where
  | turn
  | cancelled
  /-- a notification fails -/
  | sinkFails
  /-- the hub is closed -/
  | closed
  | dropped

section
variable (channel : Channel ResourceEvent)

/-- One step of a task. -/
def Task.step : Task → Input → World → Option (World × List Task)
  | .publishing [], .turn, w => some (w, [])
  | .publishing (uri :: uris), .turn, w =>
    some ({ w with sent := w.sent ++ [.updated uri] }, [.publishing uris])
  | .entering resourceSubscriptions, .turn, w =>
    some (w, [.listening {
      requested := resourceSubscriptions.getD []
      receiver := .subscribe w.sent
      pending := []
      notified := []
      ended := false }])
  | .listening l, i, w =>
    if l.ended then none
    else match i, l.pending with
      | .turn, [] => (channel.recv w.sent l.receiver.next).map fun r =>
          (w, [.listening { l with
            receiver := l.receiver.receive w.sent r.1 r.2
            pending := l.response r.1 }])
      | .turn, uri :: uris => some (w, [.listening { l with
          pending := uris
          notified := l.notified ++ [(uri, w.sent.length)] }])
      | .cancelled, [] => some (w, [.listening { l with ended := true }])
      -- what was sent before the hub was closed is received first
      | .closed, [] =>
        if (channel.recv w.sent l.receiver.next).isNone then
          some (w, [.listening { l with ended := true }])
        else none
      | .sinkFails, _ :: _ => some (w, [.listening { l with ended := true }])
      | .dropped, _ => some (w, [.listening { l with ended := true }])
      | _, _ => none
  | _, _, _ => none

/-- The tasks that can come in. -/
inductive Task.Starts : Task → Prop
  | publishing (uris : List Uri) : Task.Starts (.publishing uris)
  | entering (resourceSubscriptions : Option (List Uri)) :
      Task.Starts (.entering resourceSubscriptions)

abbrev Hub := State World Task

/-- Every interleaving. -/
def AnyMove (_ : Hub) : Move Task Input → Prop
  | .start t => t.Starts
  | .run _ _ => True

/-- A hub without listeners, with what was published before. -/
def Hub.init (sent : List ResourceEvent) : Hub := ⟨⟨sent⟩, []⟩

end

/-! ## Listeners -/

namespace Listener

/-- What a listener received was answered, or is about to be. -/
def Answered (l : Listener) (x : Received ResourceEvent × ℕ) : Prop :=
  ∀ uri ∈ l.response x.1, uri ∈ l.pending ∨ ∃ n, (uri, n) ∈ l.notified ∧ x.2 ≤ n

/-- The invariant of a listener. -/
structure Sound (sent : List ResourceEvent) (l : Listener) : Prop where
  accounted : l.receiver.Accounted sent
  stamps : ∀ x ∈ l.receiver.log, x.2 ≤ sent.length
  answered : l.ended = false → ∀ x ∈ l.receiver.log, l.Answered x
  responses : l.notified.map Prod.fst ++ l.pending = l.receiver.log.flatMap fun x => l.response x.1

variable {sent : List ResourceEvent} {l : Listener} {channel : Channel ResourceEvent}

theorem accepted_of_response {x : Received ResourceEvent} {uri : Uri}
    (h : uri ∈ l.response x) : uri ∈ l.accepted := by
  cases x with
  | value e =>
    rw [response] at h
    split_ifs at h with huri
    · rw [List.mem_singleton.1 h]
      exact huri
    · cases h
  | lagged missed => exact h

theorem Sound.send (h : l.Sound sent) (e : ResourceEvent) : l.Sound (sent ++ [e]) where
  accounted := h.accounted.send e
  stamps x hx := Nat.le_trans (h.stamps x hx) (by simp)
  answered := h.answered
  responses := h.responses

/-- **A listener receives**, with nothing pending. -/
theorem Sound.receive {x : Received ResourceEvent} {next : ℕ} (h : l.Sound sent)
    (hpending : l.pending = []) (hrecv : channel.recv sent l.receiver.next = some (x, next)) :
    Sound sent { l with
      receiver := l.receiver.receive sent x next
      pending := l.response x } where
  accounted := h.accounted.receive hrecv
  stamps := List.forall_mem_append.2 ⟨h.stamps, List.forall_mem_singleton.2 (Nat.le_refl _)⟩
  answered := by
    intro hended
    refine List.forall_mem_append.2 ⟨fun y hy uri huri => ?_,
      List.forall_mem_singleton.2 fun uri huri => .inl huri⟩
    rcases h.answered hended y hy uri huri with hold | hold
    · rw [hpending] at hold
      cases hold
    · exact .inr hold
  responses := by
    have hresponses := h.responses
    rw [hpending, List.append_nil] at hresponses
    simp only [Receiver.receive, List.flatMap_append, List.flatMap_singleton]
    exact congrArg (· ++ l.response x) hresponses

/-- **A listener notifies.** -/
theorem Sound.notify {uri : Uri} {uris : List Uri} (h : l.Sound sent)
    (hpending : l.pending = uri :: uris) :
    Sound sent { l with
      pending := uris
      notified := l.notified ++ [(uri, sent.length)] } where
  accounted := h.accounted
  stamps := h.stamps
  answered := by
    intro hended x hx uri' huri'
    rcases h.answered hended x hx uri' huri' with hold | ⟨n, hn, hle⟩
    · rw [hpending] at hold
      rcases List.mem_cons.1 hold with rfl | hold
      · exact .inr ⟨sent.length, by simp, h.stamps x hx⟩
      · exact .inl hold
    · exact .inr ⟨n, List.mem_append_left _ hn, hle⟩
  responses := by
    have hresponses := h.responses
    rw [hpending] at hresponses
    rw [List.map_append, List.append_assoc]
    exact hresponses

theorem Sound.end (h : l.Sound sent) : Sound sent { l with ended := true } where
  accounted := h.accounted
  stamps := h.stamps
  answered hended := by cases hended
  responses := h.responses

theorem sound_subscribe (requested : List Uri) (sent : List ResourceEvent) :
    Sound sent ⟨requested, .subscribe sent, [], [], false⟩ where
  accounted := Receiver.accounted_subscribe sent
  stamps x hx := by cases hx
  answered _ x hx := by cases hx
  responses := rfl

end Listener

/-! ## Every run -/

section
variable {channel : Channel ResourceEvent} {s s' : Hub} {w w' : World} {t : Task} {i : Input}
  {new : List Task}

/-- What a task rests on. -/
def Task.Sound (w : World) : Task → Prop
  | .listening l => l.Sound w.sent
  | _ => True

/-- A step publishes at most one event, and leaves sound tasks. -/
theorem Task.step_sound (hstep : Task.step channel t i w = some (w', new)) (h : t.Sound w) :
    (w' = w ∨ ∃ e, w' = ⟨w.sent ++ [e]⟩) ∧ ∀ t' ∈ new, t'.Sound w' := by
  cases t with
  | publishing uris =>
    cases i with
    | turn =>
      rcases uris with _ | ⟨uri, uris⟩ <;> cases hstep
      · exact ⟨.inl rfl, fun t ht => by cases ht⟩
      · exact ⟨.inr ⟨_, rfl⟩, List.forall_mem_singleton.2 trivial⟩
    | _ => rcases uris with _ | ⟨uri, uris⟩ <;> cases hstep
  | entering resourceSubscriptions =>
    cases i with
    | turn =>
      cases hstep
      exact ⟨.inl rfl, List.forall_mem_singleton.2 (Listener.sound_subscribe _ _)⟩
    | _ => cases hstep
  | listening l =>
    simp only [Task.step] at hstep
    by_cases hended : l.ended = true
    · rw [if_pos hended] at hstep
      cases hstep
    rw [if_neg hended] at hstep
    split at hstep
    · rename_i hpending
      obtain ⟨r, hrecv, heq⟩ := Option.map_eq_some_iff.1 hstep
      cases heq
      exact ⟨.inl rfl, List.forall_mem_singleton.2 (Listener.Sound.receive h hpending hrecv)⟩
    · rename_i hpending
      cases hstep
      exact ⟨.inl rfl, List.forall_mem_singleton.2 (Listener.Sound.notify h hpending)⟩
    · cases hstep
      exact ⟨.inl rfl, List.forall_mem_singleton.2 (Listener.Sound.end h)⟩
    · split_ifs at hstep
      cases hstep
      exact ⟨.inl rfl, List.forall_mem_singleton.2 (Listener.Sound.end h)⟩
    · cases hstep
      exact ⟨.inl rfl, List.forall_mem_singleton.2 (Listener.Sound.end h)⟩
    · cases hstep
      exact ⟨.inl rfl, List.forall_mem_singleton.2 (Listener.Sound.end h)⟩
    · cases hstep

theorem Task.Sound.send (h : t.Sound w) (e : ResourceEvent) : t.Sound ⟨w.sent ++ [e]⟩ := by
  cases t with
  | listening l => exact Listener.Sound.send h e
  | _ => trivial

/-- **A move leaves sound tasks.** -/
theorem sound_move {m : Move Task Input} (h : ∀ t ∈ s.tasks, t.Sound s.world) (hm : AnyMove s m)
    (hmove : s.move (Task.step channel) m = some s') : ∀ t ∈ s'.tasks, t.Sound s'.world := by
  obtain ⟨t, rfl, rfl⟩ | ⟨l, t, r, i, w, new, rfl, htasks, hstep, rfl⟩ := move_cases hmove
  · refine List.forall_mem_append.2 ⟨h, List.forall_mem_singleton.2 ?_⟩
    cases hm <;> trivial
  · obtain ⟨hw, hnew⟩ := Task.step_sound hstep (h t (by simp [htasks]))
    refine forall_replaced htasks h (fun t' _ hsound => ?_) hnew
    rcases hw with rfl | ⟨e, rfl⟩
    · exact hsound
    · exact hsound.send e

/-- **No wake-up is lost.** The accepted URIs of a listener are those it was accepted for,
    once each and in the order in which they occur first. It notifies nothing else, what
    it has notified are its responses to what it received, and they are complete but for
    those that are pending. When it waits for the hub, then every accepted URI that was
    published since the subscription has been notified after that. -/
theorem no_lost_wakeup {sent : List ResourceEvent} {l : Listener}
    (h : Runs (Task.step channel) AnyMove (Hub.init sent) s) (hl : .listening l ∈ s.tasks) :
    ((∀ uri, uri ∈ l.accepted ↔ uri ∈ l.requested) ∧
      l.accepted.Pairwise fun uri uri' => l.requested.idxOf uri < l.requested.idxOf uri') ∧
    (∀ missed, l.response (.lagged missed) = l.accepted) ∧
    (∀ x ∈ l.notified, x.1 ∈ l.requested) ∧
    l.notified.map Prod.fst ++ l.pending =
      l.receiver.log.flatMap (fun x => l.response x.1) ∧
    (l.ended = false → l.pending = [] → channel.recv s.world.sent l.receiver.next = none →
      ∀ i uri, l.receiver.start ≤ i → s.world.sent[i]? = some (.updated uri) →
        uri ∈ l.requested → ∃ n, (uri, n) ∈ l.notified ∧ i < n) := by
  have hsound : l.Sound s.world.sent := by
    refine h.invariant (J := fun s => ∀ t ∈ s.tasks, t.Sound s.world)
      (fun hs hm hmove => sound_move hs hm hmove) (fun t ht => ?_) _ hl
    cases ht
  have haccepted : ∀ uri, uri ∈ l.accepted ↔ uri ∈ l.requested := by
    intro uri
    simp [Listener.accepted, mem_dedupe]
  refine ⟨⟨haccepted, dedupe_pairwise [] l.requested⟩, fun missed => rfl, fun x hx => ?_,
    hsound.responses, fun hended hpending hwaits i uri hstart hi huri => ?_⟩
  · have hmem : x.1 ∈ l.receiver.log.flatMap fun x => l.response x.1 := by
      rw [← hsound.responses]
      exact List.mem_append_left _ (List.mem_map_of_mem hx)
    obtain ⟨y, -, hresponse⟩ := List.mem_flatMap.1 hmem
    exact (haccepted x.1).1 (Listener.accepted_of_response hresponse)
  · obtain ⟨x, hx, hlt, hreport⟩ := hsound.accounted.waiting hwaits hstart hi
    have hresponse : uri ∈ l.response x.1 := by
      rcases hreport with hvalue | ⟨missed, hlagged⟩
      · rw [hvalue, Listener.response, if_pos ((haccepted uri).2 huri)]
        exact List.mem_singleton_self _
      · rw [hlagged]
        exact (haccepted uri).2 huri
    rcases hsound.answered hended x hx uri hresponse with hpend | ⟨n, hn, hle⟩
    · rw [hpending] at hpend
      cases hpend
    · exact ⟨n, hn, Nat.lt_of_lt_of_le hlt hle⟩

end

/-- Five events for a listener of two URIs, on a hub that keeps two of them: it gets the
    first one, and is behind then. -/
def slowListener : List (Move Task Input) :=
  [.start (.entering (some ["a", "b", "a"])), .run 0 .turn,
    .start (.publishing ["a", "c", "b", "c", "a"]), .run 1 .turn, .run 0 .turn, .run 0 .turn] ++
  List.replicate 4 (.run 1 .turn) ++ List.replicate 6 (.run 0 .turn)

theorem no_lost_wakeup_slow : ∃ s l,
    (Hub.init []).play (Task.step (.bounded _ 2)) slowListener = some s ∧
      s.tasks[0]? = some (.listening l) ∧
      l.notified = [("a", 1), ("a", 5), ("b", 5), ("a", 5)] ∧
      ∃ n, ("b", n) ∈ l.notified ∧ 2 < n := by
  obtain ⟨s, l, hplay, hl, hlists, hwaits⟩ : ∃ s l,
      (Hub.init []).play (Task.step (.bounded _ 2)) slowListener = some s ∧
        s.tasks[0]? = some (.listening l) ∧
        (l.notified = [("a", 1), ("a", 5), ("b", 5), ("a", 5)] ∧ l.requested = ["a", "b", "a"] ∧
          s.world.sent[2]? = some (.updated "b")) ∧
        l.ended = false ∧ l.pending = [] ∧ l.receiver.start = 0 ∧
          (Channel.bounded _ 2).recv s.world.sent l.receiver.next = none :=
    ⟨_, _, rfl, rfl, by decide, rfl, rfl, rfl, rfl⟩
  obtain ⟨hnotified, hrequested, hpublished⟩ := hlists
  obtain ⟨hended, hpending, hstart, hrecv⟩ := hwaits
  have hmoves : ∀ m ∈ slowListener, AnyMove (Hub.init []) m := by
    simp [slowListener, AnyMove, Task.Starts.publishing, Task.Starts.entering]
  have hruns := (Runs.of_play hmoves hplay).mono fun hm => hm
  have hb := (no_lost_wakeup hruns (List.mem_of_getElem? hl)).2.2.2.2 hended hpending hrecv 2 "b"
    (by omega) hpublished (by simp [hrequested])
  exact ⟨s, l, hplay, hl, hnotified, hb⟩

end SerialMcp.Listen
