/-
  What the TX sessions give to the port, and what their callers are told.

  * `Sound`: the invariant; `Sound.move` keeps it up;
  * `port_ordered`: the port gets one request after another, each in one piece
    and at most once, and those of a session in the order in which they were
    accepted;
  * `reply_sound`: what succeeded is on the port in full, and what was refused as
    closed is not there at all.
-/
import SerialMcp.Tx.Requests
import Mathlib.Data.List.Nodup

namespace SerialMcp.Tx

open Tasks Channels
open Connection (SerialConnection Stream)

/-! ## What was taken and what was performed -/

/-- What the worker of a session has taken from the channel. -/
def World.taken (w : World) (k : ℕ) : List TxRequest :=
  (w.sessions[k]?.map fun s => s.chan.taken).getD []

/-- What a session has accepted, in order. -/
def World.accepted (w : World) (k : ℕ) : List TxRequest :=
  (w.sessions[k]?.map fun s => s.chan.accepted).getD []

/-- The requests of a session that got to the port, in order. -/
def World.performedBy (w : World) (k : ℕ) : List TxRequest :=
  (w.performed.filter (·.session = k)).map (·.request)

/-- How often a request got to the port. -/
def World.performs (w : World) (x : ℕ) : ℕ := w.performed.countP (·.request.ack = x)

/-- Whether a worker is at the port with a request. -/
def Task.atPort : Task → ℕ → ℕ
  | .writing _ r _, x | .flushing _ r, x => if r.ack = x then 1 else 0
  | _, _ => 0

/-- What a worker knows of the request in its hands. -/
def Task.InHand (w : World) : Task → Prop
  | .locking k r => ∃ earlier, w.taken k = earlier ++ [r] ∧ (w.performedBy k).Sublist earlier
  | .writing k r sent => w.connection.io ≠ none ∧ sent < r.op.ops.length ∧
      ∃ earlier, w.performed = earlier ++ [⟨k, r, sent⟩]
  | .flushing k r => w.connection.io ≠ none ∧
      ∃ earlier, w.performed = earlier ++ [⟨k, r, r.op.ops.length⟩]
  | _ => True

section
variable {w w' : World} {t : Task} {new : List Task} {k : ℕ} {r : TxRequest}
  {sess sess' : TxSession}

theorem taken_of_some (hs : w.sessions[k]? = some sess) : w.taken k = sess.chan.taken := by
  rw [World.taken, hs]
  rfl

theorem taken_update (hs : w.sessions[k]? = some sess) (k' : ℕ) :
    (w.update k sess').taken k' = if k = k' then sess'.chan.taken else w.taken k' := by
  obtain ⟨hlt, -⟩ := List.getElem?_eq_some_iff.1 hs
  by_cases hk : k = k'
  · subst hk
    rw [if_pos rfl]
    exact taken_of_some (List.getElem?_set_self hlt)
  · rw [if_neg hk, World.taken, World.taken]
    change ((w.sessions.set k sess')[k']?.map _).getD [] = _
    rw [List.getElem?_set_ne hk]

theorem taken_same (sess' : TxSession) (hs : w.sessions[k]? = some sess)
    (htaken : sess'.chan.taken = sess.chan.taken) : (w.update k sess').taken = w.taken := by
  funext k'
  rw [taken_update hs]
  split_ifs with hk
  · subst hk
    rw [taken_of_some hs, htaken]
  · rfl

theorem taken_recv {c : Chan TxRequest txChannelCapacity} (hs : w.sessions[k]? = some sess)
    (hr : sess.chan.recv = some (r, c)) (k' : ℕ) :
    (w.update k (sess.withChan c)).taken k' = if k = k' then w.taken k ++ [r] else w.taken k' := by
  obtain ⟨-, htaken, -⟩ := Chan.recv_eq hr
  rw [taken_update hs, taken_of_some hs]
  exact if_congr Iff.rfl htaken rfl

theorem performedBy_perform (w : World) (k : ℕ) (r : TxRequest) (n k' : ℕ) :
    (w.perform k r n).performedBy k' =
      if k = k' then w.performedBy k' ++ [r] else w.performedBy k' := by
  simp only [World.performedBy, World.perform, List.filter_append]
  split_ifs with hk <;> simp [hk]

theorem performedBy_proceed {earlier : List Performed} {sent : ℕ} (n : ℕ)
    (hlast : w.performed = earlier ++ [⟨k, r, sent⟩]) :
    (w.proceed k r sent n).performedBy = w.performedBy := by
  funext k'
  simp only [World.performedBy, World.proceed, hlast, List.dropLast_concat, List.filter_append]
  by_cases hk : k = k'
  · simp [hk]
  · simp [hk]

theorem performs_proceed {earlier : List Performed} {sent : ℕ} (n : ℕ)
    (hlast : w.performed = earlier ++ [⟨k, r, sent⟩]) :
    (w.proceed k r sent n).performs = w.performs := by
  funext x
  simp [World.performs, World.proceed, hlast, List.countP_append, List.countP_cons]

theorem performs_perform (w : World) (k : ℕ) (r : TxRequest) (n x : ℕ) :
    (w.perform k r n).performs x = w.performs x + if r.ack = x then 1 else 0 := by
  simp [World.performs, World.perform, List.countP_append, List.countP_cons]

theorem not_mem_of_performs {x : ℕ} (h : w.performs x = 0) :
    ∀ p ∈ w.performed, p.request.ack ≠ x := by
  intro p hp hx
  have hnone := List.countP_eq_zero.1 h p hp
  exact hnone (decide_eq_true hx)

/-! ## Others are left alone -/

/-- A call of the life cycle empties the slot under the free lock only. -/
theorem life_io {c c' : SerialConnection} {t : Connection.Task} {i : Connection.Input}
    {new : List Connection.Task} (h : t.step i c = some (c', new)) (hio : c.io ≠ none)
    (hio' : c'.io = none) : c.locked = false := by
  cases Connection.Task.step_effect h with
  | quiet => exact absurd hio' hio
  | closes => exact absurd hio' hio
  | takes locked ht =>
    rcases ht with rfl | rfl
    · cases i with
      | cleared result =>
        simp only [Connection.Task.step] at h
        split_ifs at h with hlocked
        exact Bool.not_eq_true _ ▸ hlocked
      | _ => cases h
    · cases i with
      | go =>
        simp only [Connection.Task.step] at h
        split_ifs at h with hlocked
        exact Bool.not_eq_true _ ▸ hlocked
      | _ => cases h
  | disconnects => exact absurd hio' hio
  | fails => exact absurd hio' hio
  | opens => exact absurd hio' hio
  | installs => cases hio'

/-- Only under the lock is something given to the port, or the port taken away. -/
theorem Effect.under_lock (h : Effect w t w' new) :
    (w'.performed = w.performed ∧ (w.connection.io ≠ none → w'.connection.io ≠ none)) ∨
      t.locks () = 1 ∨ w.locked () = 0 := by
  cases h with
  | begins hlocked =>
    refine .inr (.inr ?_)
    simp [World.locked, connectionLocked, hlocked]
  | clears hlocked =>
    refine .inr (.inr ?_)
    simp [World.locked, connectionLocked, hlocked]
  | clearFails fatal hlocked =>
    refine .inr (.inr ?_)
    simp [World.locked, connectionLocked, hlocked]
  | proceeds => exact .inr (.inl rfl)
  | breaks => exact .inl ⟨rfl, id⟩
  | @lives t i c new hstep =>
    by_cases hio : w.connection.io ≠ none ∧ c.io = none
    · refine .inr (.inr ?_)
      simp [World.locked, connectionLocked, life_io hstep hio.1 hio.2]
    · exact .inl ⟨rfl, fun hw hc => hio ⟨hw, hc⟩⟩
  | _ => exact .inl ⟨rfl, id⟩

/-- Only its own worker takes and performs the requests of a session. -/
theorem Effect.own_worker (h : Effect w t w' new) (hin : t.InHand w) (hk : t.serves k = 0) :
    w'.taken k = w.taken k ∧ w'.performedBy k = w.performedBy k := by
  cases h with
  | creates =>
    refine ⟨?_, rfl⟩
    simp only [World.taken]
    rcases Nat.lt_trichotomy k w.sessions.length with hlt | rfl | hlt
    · rw [List.getElem?_append_left hlt]
    · simp [TxSession.new]
    · rw [List.getElem?_eq_none (by simp; omega), List.getElem?_eq_none (by omega)]
  | issues sess hs _ =>
    have hsame := taken_same (w := w.issue) sess.clone hs rfl
    exact ⟨congrFun hsame k, rfl⟩
  | returns sess hs _ =>
    have hsame := taken_same sess.release hs rfl
    exact ⟨congrFun hsame k, rfl⟩
  | withdraws sess hs =>
    have hsame := taken_same sess.release hs rfl
    exact ⟨congrFun hsame k, rfl⟩
  | sends sess c hs hc =>
    obtain ⟨-, -, htaken, -⟩ := Chan.send_eq hc
    have hsame := taken_same (sess.withChan c) hs htaken
    exact ⟨congrFun hsame k, rfl⟩
  | replies sess outcome hs _ =>
    have hsame := taken_same sess.release hs rfl
    exact ⟨congrFun hsame k, rfl⟩
  | leaves sess hs =>
    have hsame := taken_same sess.release hs rfl
    exact ⟨congrFun hsame k, rfl⟩
  | finishes sess hs =>
    have hsame := taken_same (sess.withChan sess.chan.close) hs rfl
    exact ⟨congrFun hsame k, rfl⟩
  | @rejects k' sess r c hs hr _ =>
    have hne : k' ≠ k := fun heq => by simp [Task.serves, heq] at hk
    refine ⟨(taken_recv hs hr k).trans (if_neg hne), rfl⟩
  | @takes k' sess r c hs hr =>
    have hne : k' ≠ k := fun heq => by simp [Task.serves, heq] at hk
    exact ⟨(taken_recv hs hr k).trans (if_neg hne), rfl⟩
  | @begins k' r data _ _ _ =>
    have hne : k' ≠ k := fun heq => by simp [Task.serves, heq] at hk
    exact ⟨rfl, (performedBy_perform w k' r 0 k).trans (if_neg hne)⟩
  | @clears k' r _ _ _ =>
    have hne : k' ≠ k := fun heq => by simp [Task.serves, heq] at hk
    exact ⟨rfl, (performedBy_perform w k' r 1 k).trans (if_neg hne)⟩
  | @clearFails k' r fatal _ _ _ =>
    have hne : k' ≠ k := fun heq => by simp [Task.serves, heq] at hk
    exact ⟨rfl, (performedBy_perform w k' r 0 k).trans (if_neg hne)⟩
  | @proceeds k' r sent n hn =>
    obtain ⟨-, -, earlier, hlast⟩ := hin
    exact ⟨rfl, congrFun (performedBy_proceed n hlast) k⟩
  | removes sess hk' hs =>
    have hsame := taken_same (w := { w with registered := none }) sess.shutdown hs rfl
    exact ⟨congrFun hsame k, rfl⟩
  | _ => exact ⟨rfl, rfl⟩

/-- What another worker knows stays true: it has its own session, and the lock if it is
    at the port. -/
theorem Effect.others (h : Effect w t w' new) (hin : t.InHand w) {t' : Task}
    (hin' : t'.InHand w) (hserves : ∀ k, t'.serves k = 1 → t.serves k = 0)
    (hlocks : t'.locks () = 1 → t.locks () = 0 ∧ w.locked () = 1) : t'.InHand w' := by
  have hport : t'.locks () = 1 → w'.performed = w.performed ∧
      (w.connection.io ≠ none → w'.connection.io ≠ none) := by
    intro hlock
    obtain ⟨hlock', hlocked⟩ := hlocks hlock
    rcases h.under_lock with hsame | hmine | hfree
    · exact hsame
    · omega
    · omega
  cases t' with
  | locking k r =>
    obtain ⟨htaken, hperformed⟩ := h.own_worker hin (hserves k (if_pos rfl))
    obtain ⟨earlier, hearlier, hsub⟩ := hin'
    exact ⟨earlier, htaken.trans hearlier, hperformed ▸ hsub⟩
  | writing k r sent =>
    obtain ⟨hsame, hio⟩ := hport rfl
    obtain ⟨hio', hlt, earlier, hlast⟩ := hin'
    exact ⟨hio hio', hlt, earlier, hsame.trans hlast⟩
  | flushing k r =>
    obtain ⟨hsame, hio⟩ := hport rfl
    obtain ⟨hio', earlier, hlast⟩ := hin'
    exact ⟨hio hio', earlier, hsame.trans hlast⟩
  | _ => trivial

/-- What a step of a worker does to the port, and what it knows afterwards. -/
theorem Effect.own (h : Effect w t w' new) (hin : t.InHand w)
    (hport : w.port = w.performed.flatMap Performed.ops)
    (horder : ∀ k, (w.performedBy k).Sublist (w.taken k)) :
    w'.port = w'.performed.flatMap Performed.ops ∧
      (∀ k, t.serves k = 1 → (w'.performedBy k).Sublist (w'.taken k)) ∧
      ∀ t' ∈ new, t'.InHand w' := by
  have hperform : ∀ k r n, (w.perform k r n).port =
      (w.perform k r n).performed.flatMap Performed.ops := by
    intro k r n
    simp [World.perform, hport, Performed.ops]
  have hadd : ∀ k r n, Task.InHand w (.locking k r) →
      ((w.perform k r n).performedBy k).Sublist (w.taken k) := by
    rintro k r n ⟨earlier, hearlier, hsub⟩
    rw [performedBy_perform, if_pos rfl, hearlier]
    exact hsub.append_right [r]
  cases h with
  | finds => exact ⟨hport, by simp [Task.serves], by simp [Task.InHand]⟩
  | creates => exact ⟨hport, by simp [Task.serves], by simp [Task.InHand]⟩
  | ends ht =>
    refine ⟨hport, fun k _ => horder k, by simp⟩
  | issues => exact ⟨hport, by simp [Task.serves], by simp [Task.InHand]⟩
  | refuses => exact ⟨hport, by simp [Task.serves], by simp⟩
  | returns => exact ⟨hport, by simp [Task.serves], by simp⟩
  | withdraws => exact ⟨hport, by simp [Task.serves], by simp⟩
  | sends => exact ⟨hport, by simp [Task.serves], by simp [Task.InHand]⟩
  | replies => exact ⟨hport, by simp [Task.serves], by simp⟩
  | leaves => exact ⟨hport, by simp [Task.serves], by simp⟩
  | finishes sess hs =>
    have hsame := taken_same (sess.withChan sess.chan.close) hs rfl
    refine ⟨hport, fun k _ => ?_, by simp⟩
    change (w.performedBy k).Sublist _
    exact (congrFun hsame k) ▸ horder k
  | @rejects k sess r c hs hr _ =>
    refine ⟨hport, fun k' _ => ?_, by simp [Task.InHand]⟩
    change (w.performedBy k').Sublist ((w.update k (sess.withChan c)).taken k')
    rw [taken_recv hs hr]
    split_ifs with hk
    · subst hk
      exact (horder k).trans (List.sublist_append_left _ _)
    · exact horder k'
  | @takes k sess r c hs hr =>
    have htaken := taken_recv hs hr
    refine ⟨hport, fun k' _ => ?_, List.forall_mem_singleton.2 ⟨w.taken k, ?_, horder k⟩⟩
    · change (w.performedBy k').Sublist ((w.update k (sess.withChan c)).taken k')
      rw [htaken]
      split_ifs with hk
      · subst hk
        exact (horder k).trans (List.sublist_append_left _ _)
      · exact horder k'
    · rw [htaken, if_pos rfl]
  | misses => exact ⟨hport, fun k _ => horder k, by simp [Task.InHand]⟩
  | @begins k r data hlocked hio hop =>
    refine ⟨hperform k r 0, fun k' hk => ?_, List.forall_mem_singleton.2 ?_⟩
    · obtain rfl : k = k' := by simpa [Task.serves] using hk
      exact hadd k r 0 hin
    · have hlast : (w.perform k r 0).lock.performed = w.performed ++ [⟨k, r, 0⟩] := rfl
      unfold writeOn
      split_ifs with hlt
      · exact ⟨hio, hlt, w.performed, hlast⟩
      · have hempty : r.op.ops.length = 0 := by omega
        exact ⟨hio, w.performed, hempty ▸ hlast⟩
  | @clears k r hlocked hio hop =>
    refine ⟨hperform k r 1, fun k' hk => ?_, by simp [Task.InHand]⟩
    obtain rfl : k = k' := by simpa [Task.serves] using hk
    exact hadd k r 1 hin
  | @clearFails k r fatal hlocked hio hop =>
    refine ⟨hperform k r 0, fun k' hk => ?_, by simp [Task.InHand]⟩
    obtain rfl : k = k' := by simpa [Task.serves] using hk
    exact hadd k r 0 hin
  | @proceeds k r sent n hn =>
    obtain ⟨hio, hlt, earlier, hlast⟩ := hin
    have hperformed : (w.proceed k r sent n).performed = earlier ++ [⟨k, r, sent + n⟩] := by
      simp [World.proceed, hlast]
    refine ⟨?_, fun k' _ => ?_, List.forall_mem_singleton.2 ?_⟩
    · rw [hperformed]
      simp only [World.proceed, hport, hlast, List.flatMap_append, List.flatMap_cons,
        List.flatMap_nil, List.append_nil, Performed.ops, List.append_assoc, List.take_add]
    · rw [performedBy_proceed n hlast]
      exact horder k'
    · unfold writeOn
      split_ifs with hlt'
      · exact ⟨hio, hlt', earlier, hperformed⟩
      · have hall : sent + n = r.op.ops.length := by omega
        exact ⟨hio, earlier, hall ▸ hperformed⟩
  | breaks fatal ht => exact ⟨hport, fun k _ => horder k, by simp [Task.InHand]⟩
  | completes => exact ⟨hport, fun k _ => horder k, by simp [Task.InHand]⟩
  | removes => exact ⟨hport, by simp [Task.serves], by simp [Task.InHand]⟩
  | lives hstep =>
    refine ⟨hport, by simp [Task.serves], fun t' ht' => ?_⟩
    obtain ⟨t'', -, rfl⟩ := List.mem_map.1 ht'
    trivial

/-! ## Performed at most once -/

@[simp] theorem performs_resolve (w : World) (ack : ℕ) (outcome : Option Answer) :
    (w.resolve ack outcome).performs = w.performs := rfl

@[simp] theorem resolved_perform (w : World) (k : ℕ) (r : TxRequest) (n : ℕ) :
    (w.perform k r n).resolved = w.resolved := rfl

theorem writeOn_atPort (k : ℕ) (r : TxRequest) (sent x : ℕ) :
    (writeOn k r sent).atPort x = if r.ack = x then 1 else 0 := by
  unfold writeOn
  split_ifs <;> simp [Task.atPort, *]

theorem heldBy_life_atPort (new : List Connection.Task) (x : ℕ) :
    heldBy Task.atPort (new.map .life) x = 0 := by
  rw [heldBy_eq_zero]
  intro t ht
  obtain ⟨t', -, rfl⟩ := List.mem_map.1 ht
  rfl

theorem resolved_finish (w : World) (k : ℕ) (sess : TxSession) (x : ℕ) :
    w.resolved x ≤ (w.finish k sess).resolved x := by
  simp only [World.resolved, World.finish, World.update, List.countP_append]
  omega

theorem Effect.once (h : Effect w t w' new) (hin : t.InHand w) (x : ℕ) :
    w'.performs x + w.resolved x + t.atPort x ≤
      w.performs x + w'.resolved x + heldBy Task.atPort new x := by
  cases h with
  | ends ht => rcases ht with ⟨op, rfl⟩ | ⟨k, op, rfl⟩ | rfl | ⟨k, rfl⟩ <;> exact Nat.le_refl _
  | refuses =>
    have hmore := resolved_resolve w.issue w.nextAck none x
    change w.performs x + w.resolved x + 0 ≤ w.performs x + (w.issue.resolve w.nextAck none).resolved x + 0
    have hsame : w.issue.resolved x = w.resolved x := rfl
    omega
  | @returns k r sess =>
    have hmore := resolved_resolve (w.update k sess.release) r.ack none x
    change w.performs x + w.resolved x + 0 ≤
      w.performs x + ((w.update k sess.release).resolve r.ack none).resolved x + 0
    have hsame : (w.update k sess.release).resolved x = w.resolved x := rfl
    omega
  | @withdraws k r sess =>
    have hmore := resolved_resolve (w.update k sess.release) r.ack none x
    change w.performs x + w.resolved x + 0 ≤
      w.performs x + ((w.update k sess.release).resolve r.ack none).resolved x + 0
    have hsame : (w.update k sess.release).resolved x = w.resolved x := rfl
    omega
  | @finishes k sess hs =>
    have hmore := resolved_finish w k sess x
    change w.performs x + w.resolved x + 0 ≤ w.performs x + _ + 0
    omega
  | @rejects k sess r c =>
    have hmore := resolved_resolve (w.update k (sess.withChan c)) r.ack
      (some (.error .connectionClosed)) x
    change w.performs x + w.resolved x + 0 ≤ w.performs x + _ + 0
    have hsame : (w.update k (sess.withChan c)).resolved x = w.resolved x := rfl
    omega
  | @misses k r =>
    have hmore := resolved_resolve w r.ack (some (.error .connectionClosed)) x
    change w.performs x + w.resolved x + 0 ≤ w.performs x + _ + 0
    omega
  | @begins k r data hlocked hio hop =>
    have hperforms := performs_perform w k r 0 x
    rw [heldBy_cons, writeOn_atPort]
    change (w.perform k r 0).performs x + w.resolved x + 0 ≤ w.performs x + w.resolved x + _
    simp only [heldBy_nil]
    omega
  | @clears k r hlocked hio hop =>
    have hperforms := performs_perform w k r 1 x
    have hmore := resolved_resolve (w.perform k r 1) r.ack (some (.ok .flushed)) x
    rw [resolved_perform] at hmore
    rw [performs_resolve]
    change _ + _ + 0 ≤ _ + _ + 0
    omega
  | @clearFails k r fatal hlocked hio hop =>
    have hperforms := performs_perform w k r 0 x
    have hmore := resolved_resolve (w.perform k r 0) r.ack (some (.error (.ioError fatal))) x
    rw [resolved_perform] at hmore
    rw [performs_resolve]
    change _ + _ + 0 ≤ _ + _ + 0
    omega
  | @proceeds k r sent n hn =>
    obtain ⟨-, -, earlier, hlast⟩ := hin
    rw [performs_proceed n hlast, heldBy_cons, writeOn_atPort]
    exact Nat.le_refl _
  | @breaks t k r fatal ht =>
    have hheld : t.atPort x = if r.ack = x then 1 else 0 := by
      rcases ht with ⟨sent, rfl⟩ | rfl <;> rfl
    have hmore := resolved_resolve w.unlock r.ack (some (.error (.ioError fatal))) x
    have hsame : w.unlock.resolved x = w.resolved x := rfl
    rw [hheld, performs_resolve]
    change w.performs x + _ + _ ≤ w.performs x + _ + 0
    omega
  | @completes k r =>
    have hmore := resolved_resolve (w.unlock.recordTxBytes r.op.done.bytes) r.ack
      (some (.ok r.op.done)) x
    have hsame : (w.unlock.recordTxBytes r.op.done.bytes).resolved x = w.resolved x := rfl
    have hheld : Task.atPort (.flushing k r) x = if r.ack = x then 1 else 0 := rfl
    rw [performs_resolve, hheld]
    change w.performs x + _ + _ ≤ w.performs x + _ + 0
    omega
  | lives hstep =>
    rw [heldBy_life_atPort]
    exact Nat.le_refl _
  | _ => exact Nat.le_refl _

/-! ## What the oneshots say -/

/-- A request that got to the port in full. -/
def World.Wrote (w : World) (x : ℕ) (d : Done) : Prop :=
  ∃ p ∈ w.performed, p.request.ack = x ∧ p.request.op.done = d ∧
    p.sent = p.request.op.ops.length

/-- Nothing of a request got to the port. -/
def World.Untouched (w : World) (x : ℕ) : Prop := ∀ p ∈ w.performed, p.request.ack ≠ x

/-- What became of a oneshot is true. -/
def World.Told (w : World) : ℕ × Option Answer → Prop
  | (x, some (.ok d)) => w.Wrote x d
  | (x, some (.error .connectionClosed)) | (x, none) => w.Untouched x
  | _ => True

/-- What was told stays true if what was written in full and what was not there stay so. -/
theorem Told.mono {a : ℕ × Option Answer} (h : w.Told a)
    (hwrote : ∀ d, w.Wrote a.1 d → w'.Wrote a.1 d)
    (huntouched : w.Untouched a.1 → w'.Untouched a.1) : w'.Told a := by
  obtain ⟨x, o⟩ := a
  rcases o with _ | (e | d)
  · exact huntouched h
  · cases e with
    | connectionClosed => exact huntouched h
    | _ => trivial
  · exact hwrote d h

theorem Told.perform {a : ℕ × Option Answer} (h : w.Told a) (n : ℕ) (hne : r.ack ≠ a.1) :
    (w.perform k r n).Told a := by
  refine Told.mono h ?_ ?_
  · rintro d ⟨p, hp, hx⟩
    exact ⟨p, List.mem_append_left _ hp, hx⟩
  · intro hnot p hp
    rcases List.mem_append.1 hp with hp | hp
    · exact hnot p hp
    · rw [List.mem_singleton.1 hp]
      exact hne

theorem Told.proceed {a : ℕ × Option Answer} {earlier : List Performed} {sent : ℕ} (n : ℕ)
    (h : w.Told a) (hlt : sent < r.op.ops.length)
    (hlast : w.performed = earlier ++ [⟨k, r, sent⟩]) : (w.proceed k r sent n).Told a := by
  have hperformed : (w.proceed k r sent n).performed = earlier ++ [⟨k, r, sent + n⟩] := by
    simp [World.proceed, hlast]
  refine Told.mono h ?_ ?_
  · rintro d ⟨p, hp, hx, hd, hall⟩
    rw [hlast] at hp
    rcases List.mem_append.1 hp with hp | hp
    · exact ⟨p, by rw [hperformed]; exact List.mem_append_left _ hp, hx, hd, hall⟩
    · rw [List.mem_singleton.1 hp] at hall
      exact absurd hall (Nat.ne_of_lt hlt)
  · intro hnot p hp
    rw [hperformed] at hp
    rw [World.Untouched, hlast] at hnot
    rcases List.mem_append.1 hp with hp | hp
    · exact hnot p (List.mem_append_left _ hp)
    · rw [List.mem_singleton.1 hp]
      exact hnot ⟨k, r, sent⟩ (List.mem_append_right _ (List.mem_singleton_self _))

/-- **What a oneshot says is true** when a step resolves it.  The facts needed of the
    state before: a request in hand is not resolved, and nothing of it has got to the
    port unless its worker is there. -/
theorem Effect.told (h : Effect w t w' new) (hin : t.InHand w) (hacks : ∀ a ∈ w.acks, w.Told a)
    (hheld : ∀ a ∈ w.acks, t.holds a.1 = 0)
    (huntouched : ∀ x, (t.holds x = 1 ∧ t.atPort x = 0) ∨
      1 ≤ heldBy TxSession.queued w.sessions x ∨ w.issued x = 0 → w.Untouched x) :
    ∀ a ∈ w'.acks, w'.Told a := by
  have hqueue : ∀ {k : ℕ} {sess : TxSession} {r : TxRequest}, w.sessions[k]? = some sess → r ∈ sess.chan.queue →
      w.Untouched r.ack := by
    intro k sess r hs hr
    refine huntouched _ (.inr (.inl ?_))
    have hone : 1 ≤ sess.queued r.ack := by
      rw [TxSession.queued, Nat.one_le_iff_ne_zero, Nat.ne_zero_iff_zero_lt, List.countP_pos_iff]
      exact ⟨r, hr, decide_eq_true rfl⟩
    exact hone.trans (held_le (List.mem_of_getElem? hs) _)
  have hresolve : ∀ (w'' : World) {x o}, w''.performed = w.performed → w''.acks = w.acks →
      w.Told (x, o) → ∀ a ∈ (w''.resolve x o).acks, (w''.resolve x o).Told a := by
    intro w'' x o hperformed hacks'' hnew a ha
    have hsame : ∀ {a}, w.Told a → (w''.resolve x o).Told a := by
      intro a ha
      refine Told.mono ha (fun d hd => ?_) fun hnot => ?_
      · obtain ⟨p, hp, hd⟩ := hd
        exact ⟨p, hperformed ▸ hp, hd⟩
      · exact fun p hp => hnot p (hperformed ▸ hp)
    rcases List.mem_append.1 ha with ha | ha
    · exact hsame (hacks a (hacks'' ▸ ha))
    · rw [List.mem_singleton.1 ha]
      exact hsame hnew
  cases h with
  | refuses sess hs _ =>
    refine hresolve w.issue rfl rfl (huntouched _ (.inr (.inr ?_)))
    exact if_neg (Nat.lt_irrefl _)
  | @returns k r sess hs _ =>
    refine hresolve (w.update k sess.release) rfl rfl (huntouched _ (.inl ⟨?_, rfl⟩))
    exact if_pos rfl
  | @withdraws k r sess hs =>
    refine hresolve (w.update k sess.release) rfl rfl (huntouched _ (.inl ⟨?_, rfl⟩))
    exact if_pos rfl
  | finishes sess hs =>
    intro a ha
    rcases List.mem_append.1 ha with ha | ha
    · exact hacks a ha
    · obtain ⟨r, hr, rfl⟩ := List.mem_map.1 ha
      exact hqueue hs hr
  | @rejects k sess r c hs hr _ =>
    obtain ⟨hhead, -⟩ := Chan.recv_eq hr
    have hmem : r ∈ sess.chan.queue := hhead ▸ List.mem_cons_self
    exact hresolve (w.update k (sess.withChan c)) rfl rfl (hqueue hs hmem)
  | @misses k r =>
    refine hresolve w rfl rfl (huntouched _ (.inl ⟨?_, rfl⟩))
    exact if_pos rfl
  | @begins k r data _ _ _ =>
    intro a ha
    refine Told.perform (hacks a ha) 0 fun heq => ?_
    have hzero := hheld a ha
    rw [← heq] at hzero
    exact absurd ((if_pos rfl).symm.trans hzero) Nat.one_ne_zero
  | @clears k r _ _ hop =>
    intro a ha
    rcases List.mem_append.1 ha with ha | ha
    · refine Told.perform (hacks a ha) 1 fun heq => ?_
      have hzero := hheld a ha
      rw [← heq] at hzero
      exact absurd ((if_pos rfl).symm.trans hzero) Nat.one_ne_zero
    · rw [List.mem_singleton.1 ha]
      refine ⟨⟨k, r, 1⟩, List.mem_append_right _ (List.mem_singleton_self _), rfl, ?_, ?_⟩
      · simp only [hop, TxOp.done]
      · simp only [hop, TxOp.ops, List.length_singleton]
  | @clearFails k r fatal _ _ _ =>
    intro a ha
    rcases List.mem_append.1 ha with ha | ha
    · refine Told.perform (hacks a ha) 0 fun heq => ?_
      have hzero := hheld a ha
      rw [← heq] at hzero
      exact absurd ((if_pos rfl).symm.trans hzero) Nat.one_ne_zero
    · rw [List.mem_singleton.1 ha]
      trivial
  | proceeds n hn =>
    obtain ⟨-, hlt, earlier, hlast⟩ := hin
    exact fun a ha => Told.proceed n (hacks a ha) hlt hlast
  | breaks fatal ht => exact hresolve w.unlock rfl rfl trivial
  | @completes k r =>
    obtain ⟨-, earlier, hlast⟩ := hin
    refine hresolve (w.unlock.recordTxBytes r.op.done.bytes) rfl rfl ?_
    exact ⟨⟨k, r, r.op.ops.length⟩, by rw [hlast]; simp, rfl, rfl, rfl⟩
  | _ => exact hacks

/-- A call returns what became of its oneshot. -/
theorem Effect.replied (h : Effect w t w' new)
    (hreplies : ∀ x a, (x, a) ∈ w.replies →
      ∃ o, (x, o) ∈ w.acks ∧ a = o.getD (.error .connectionClosed)) :
    ∀ x a, (x, a) ∈ w'.replies →
      ∃ o, (x, o) ∈ w'.acks ∧ a = o.getD (.error .connectionClosed) := by
  have hmore : ∀ (w'' : World) {acks}, w''.replies = w.replies → w''.acks = w.acks ++ acks →
      ∀ x a, (x, a) ∈ w''.replies →
        ∃ o, (x, o) ∈ w''.acks ∧ a = o.getD (.error .connectionClosed) := by
    intro w'' acks hsame hacks x a ha
    obtain ⟨o, ho, hao⟩ := hreplies x a (hsame ▸ ha)
    exact ⟨o, by rw [hacks]; exact List.mem_append_left _ ho, hao⟩
  have hrefused : ∀ (w'' : World) {x}, w''.replies = w.replies → w''.acks = w.acks →
      ∀ x' a, (x', a) ∈ ((w''.resolve x none).reply x (.error .connectionClosed)).replies →
        ∃ o, (x', o) ∈ ((w''.resolve x none).reply x (.error .connectionClosed)).acks ∧
          a = o.getD (.error .connectionClosed) := by
    intro w'' x hsame hacks x' a ha
    rcases List.mem_append.1 ha with ha | ha
    · obtain ⟨o, ho, hao⟩ := hreplies x' a (hsame ▸ ha)
      exact ⟨o, List.mem_append_left _ (hacks ▸ ho), hao⟩
    · obtain ⟨rfl, rfl⟩ := Prod.mk.inj (List.mem_singleton.1 ha)
      exact ⟨none, List.mem_append_right _ (List.mem_singleton_self _), rfl⟩
  cases h with
  | refuses => exact hrefused w.issue rfl rfl
  | @returns k r sess => exact hrefused (w.update k sess.release) rfl rfl
  | withdraws => exact hmore ((w.update _ _).resolve _ _) rfl rfl
  | replies sess outcome hs hack =>
    intro x a ha
    rcases List.mem_append.1 ha with ha | ha
    · exact hreplies x a ha
    · obtain ⟨rfl, rfl⟩ := Prod.mk.inj (List.mem_singleton.1 ha)
      obtain ⟨front, back, hacks, -⟩ := List.lookup_eq_some_iff.1 hack
      refine ⟨outcome, ?_, rfl⟩
      change _ ∈ w.acks
      rw [hacks]
      exact List.mem_append_right _ List.mem_cons_self
  | finishes => exact hmore (w.finish _ _) rfl rfl
  | rejects => exact hmore ((w.update _ _).resolve _ _) rfl rfl
  | misses => exact hmore (w.resolve _ _) rfl rfl
  | clears => exact hmore ((w.perform _ _ _).resolve _ _) rfl rfl
  | clearFails => exact hmore ((w.perform _ _ _).resolve _ _) rfl rfl
  | breaks => exact hmore (w.unlock.resolve _ _) rfl rfl
  | completes => exact hmore ((w.unlock.recordTxBytes _).resolve _ _) rfl rfl
  | _ => exact hreplies

end

/-! ## Every run -/

/-- What holds between any two steps. -/
structure Sound (s : Link) : Prop where
  locks : Balanced Task.locks World.locked s
  workers : Balanced Task.serves World.receivers s
  requests : Conserved Task.holds World.settled World.issued s
  port : s.world.port = s.world.performed.flatMap Performed.ops
  order : ∀ k, (s.world.performedBy k).Sublist (s.world.taken k)
  inHand : ∀ t ∈ s.tasks, t.InHand s.world
  once : Backed Task.atPort World.performs World.resolved s
  acks : ∀ a ∈ s.world.acks, s.world.Told a
  replies : ∀ x a, (x, a) ∈ s.world.replies →
    ∃ o, (x, o) ∈ s.world.acks ∧ a = o.getD (.error .connectionClosed)

section
variable {s s' : Link} {m : Move Task Input} {stream : Stream} {t : Task} {k x : ℕ}

theorem Sound.opened : Sound (Link.opened stream) where
  locks _ := rfl
  workers _ := rfl
  requests _ := rfl
  port := rfl
  order _ := List.Sublist.refl []
  inHand t ht := by cases ht
  once _ := Nat.le_refl 0
  acks a ha := by cases ha
  replies x a ha := by cases ha

theorem atPort_le_holds (t : Task) (x : ℕ) : t.atPort x ≤ t.holds x := by
  cases t <;> first | exact Nat.le_refl _ | exact Nat.zero_le _

theorem heldBy_atPort_le (ts : List Task) (x : ℕ) :
    heldBy Task.atPort ts x ≤ heldBy Task.holds ts x := by
  induction ts with
  | nil => exact Nat.le_refl _
  | cons t ts ih => exact Nat.add_le_add (atPort_le_holds t x) ih

theorem issued_le (w : World) (x : ℕ) : w.issued x ≤ 1 := by
  unfold World.issued
  split_ifs <;> omega

/-- A request that is with its caller or with a worker on its way, that is queued, or
    that was never issued has not got to the port. -/
theorem Sound.untouched (h : Sound s) (ht : t ∈ s.tasks)
    (hx : (t.holds x = 1 ∧ t.atPort x = 0) ∨
      1 ≤ heldBy TxSession.queued s.world.sessions x ∨ s.world.issued x = 0) :
    s.world.Untouched x := by
  obtain ⟨l, r, htasks⟩ := List.append_of_mem ht
  have hcons := h.requests x
  have honce := h.once x
  have hissued := issued_le s.world x
  have hl := heldBy_atPort_le l x
  have hr := heldBy_atPort_le r x
  have hat := atPort_le_holds t x
  rw [htasks] at hcons honce
  simp only [heldBy_append, heldBy_cons, World.settled] at hcons honce
  apply not_mem_of_performs
  rcases hx with ⟨hholds, hport⟩ | hqueued | hnever
  · omega
  · omega
  · omega

theorem Sound.unresolved (h : Sound s) (ht : t ∈ s.tasks) :
    ∀ a ∈ s.world.acks, t.holds a.1 = 0 := by
  intro a ha
  have hcons := h.requests a.1
  have hissued := issued_le s.world a.1
  have hheld : Task.holds _ a.1 ≤ _ := held_le ht a.1
  have hone : 0 < s.world.resolved a.1 :=
    List.countP_pos_iff.2 ⟨a, ha, decide_eq_true rfl⟩
  simp only [World.settled] at hcons
  omega

/-- **Step**: every move keeps the invariant. -/
theorem Sound.move (h : Sound s) (hm : AnyMove s m) (hs : s.move Task.step m = some s') :
    Sound s' := by
  have hlocks := locks_move h.locks hm hs
  have hworkers := workers_move h.workers hm hs
  have hrequests := requests_move h.requests hm hs
  have honce : Backed Task.atPort World.performs World.resolved s' := by
    refine h.once.move (fun l t r i w new hmove htasks hstep x => ?_) hs
    have hmem : t ∈ s.tasks := by simp [htasks]
    exact (Task.step_effect hstep).once (h.inHand t hmem) x
  obtain ⟨t, rfl, rfl⟩ | ⟨l, t, r, i, w, new, rfl, htasks, hstep, rfl⟩ := move_cases hs
  · refine ⟨hlocks, hworkers, hrequests, h.port, h.order, ?_, honce, h.acks, h.replies⟩
    intro t' ht'
    rcases List.mem_append.1 ht' with ht' | ht'
    · exact h.inHand t' ht'
    · obtain rfl := List.mem_singleton.1 ht'
      cases t' <;> trivial
  · have hmem : t ∈ s.tasks := by simp [htasks]
    have heffect := Task.step_effect hstep
    have hin := h.inHand t hmem
    obtain ⟨hport, horder, hnew⟩ := heffect.own hin h.port h.order
    refine ⟨hlocks, hworkers, hrequests, hport, fun k => ?_, ?_, honce, ?_, ?_⟩
    · by_cases hserves : t.serves k = 1
      · exact horder k hserves
      · have hle := h.workers.le hmem k
        have hreceivers : s.world.receivers k ≤ 1 := by
          unfold World.receivers
          split <;> [split_ifs <;> omega; omega]
        obtain ⟨htaken, hperformed⟩ := heffect.own_worker hin (k := k) (by omega)
        rw [htaken, hperformed]
        exact h.order k
    · refine forall_replaced htasks h.inHand (fun t' ht' hin' => ?_) hnew
      refine heffect.others hin hin' (fun k hserves => ?_) fun hlock => ?_
      · have hbal := h.workers k
        have hheld : Task.serves _ k ≤ _ := held_le ht' k
        have hreceivers : s.world.receivers k ≤ 1 := by
          unfold World.receivers
          split <;> [split_ifs <;> omega; omega]
        rw [htasks] at hbal
        simp only [heldBy_append, heldBy_cons] at hbal hheld
        omega
      · have hbal := h.locks ()
        have hheld : Task.locks _ () ≤ _ := held_le ht' ()
        have hlocked : s.world.locked () ≤ 1 := by
          simp only [World.locked, connectionLocked]
          split_ifs <;> omega
        rw [htasks] at hbal
        simp only [heldBy_append, heldBy_cons] at hbal hheld
        omega
    · exact heffect.told hin h.acks (h.unresolved hmem) fun x hx => h.untouched hmem hx
    · exact heffect.replied h.replies

theorem Sound.of_runs (h : Runs Task.step AnyMove (Link.opened stream) s) : Sound s :=
  h.invariant (fun hsound hm hs => hsound.move hm hs) Sound.opened

theorem Sound.runs (h : Sound s) (hr : Runs Task.step AnyMove s s') : Sound s' :=
  hr.invariant (fun hsound hm hs => hsound.move hm hs) h

theorem Sound.performs_le (h : Sound s) (x : ℕ) : s.world.performs x ≤ 1 := by
  have honce := h.once x
  have hcons := h.requests x
  have hissued := issued_le s.world x
  have hat := heldBy_atPort_le s.tasks x
  simp only [World.settled] at hcons
  omega

theorem taken_sublist (w : World) (k : ℕ) : (w.taken k).Sublist (w.accepted k) := by
  unfold World.taken World.accepted
  rcases w.sessions[k]? with _ | sess
  · exact List.Sublist.refl _
  · exact sess.chan.taken_first.sublist

theorem Sound.nodup (h : Sound s) : (s.world.performed.map (·.request.ack)).Nodup := by
  rw [List.nodup_iff_count_le_one]
  intro x
  have hcount : (s.world.performed.map (·.request.ack)).count x = s.world.performs x := by
    rw [List.count, List.countP_map]
    exact List.countP_congr fun p _ => by simp
  rw [hcount]
  exact h.performs_le x

/-- The requests of a session get to the port in the order in which they were
    accepted. -/
theorem Sound.accepted (h : Sound s) (k : ℕ) :
    (s.world.performedBy k).Sublist (s.world.accepted k) :=
  (h.order k).trans (taken_sublist s.world k)

/-- **The port gets one request after another**: each in one piece, as far as the port
    took it, each at most once, and those of a session in the order in which they were
    accepted. -/
theorem port_ordered (h : Runs Task.step AnyMove (Link.opened stream) s) :
    s.world.port = s.world.performed.flatMap Performed.ops ∧
      (s.world.performed.map (·.request.ack)).Nodup ∧
      ∀ k, (s.world.performedBy k).Sublist (s.world.accepted k) := by
  have hsound := Sound.of_runs h
  exact ⟨hsound.port, hsound.nodup, hsound.accepted⟩

/-- A write and a flush that are queued one after another, up to the reply to the write. -/
def talk : List (Move Task Input) :=
  [.start (.acquire (.write [65, 66])), .run 0 .go, .run 1 .go, .run 1 .go,
    .start (.acquire .flush), .run 2 .go, .run 2 .go, .run 2 .go,
    .run 0 .go, .run 0 .go, .run 0 (.took 1), .run 0 (.took 1), .run 0 .finished, .run 1 .go]

/-- What `talk` leads to. -/
def talked : Link where
  world := {
    connection := .opened ⟨0⟩
    port := [.byte 65, .byte 66]
    txBytes := 2
    sessions := [⟨true, 1, ⟨[⟨0, .write [65, 66]⟩], [⟨1, .flush⟩], [], false, by decide,
      by simp, by simp⟩⟩]
    registered := some 0
    nextAck := 2
    acks := [(0, some (.ok (.written 2)))]
    replies := [(0, .ok (.written 2))]
    performed := [⟨0, ⟨0, .write [65, 66]⟩, 2⟩] }
  tasks := [.idle 0, .awaiting 0 ⟨1, .flush⟩]

theorem talk_runs : Runs Task.step AnyMove (Link.opened ⟨0⟩) talked := by
  have hplay : (Link.opened ⟨0⟩).play Task.step talk = some talked := rfl
  refine (Runs.of_play (D := AnyMove (Link.opened ⟨0⟩)) ?_ hplay).mono fun hm => hm
  simp [talk, AnyMove, Task.Starts]

theorem port_ordered_talk :
    [PortOp.byte 65, .byte 66] = talked.world.performed.flatMap Performed.ops ∧
      (talked.world.performed.map (·.request.ack)).Nodup ∧
      ∀ k, (talked.world.performedBy k).Sublist (talked.world.accepted k) :=
  port_ordered talk_runs

/-! ## What the callers are told -/

theorem replies_mono (hr : Runs Task.step AnyMove s s') {a : ℕ × Answer}
    (ha : a ∈ s.world.replies) : a ∈ s'.world.replies := by
  refine hr.invariant (J := fun s' => a ∈ s'.world.replies) ?_ ha
  intro s s' m ha _ hs
  obtain ⟨t, rfl, rfl⟩ | ⟨l, t, r, i, w, new, rfl, htasks, hstep, rfl⟩ := move_cases hs
  · exact ha
  · cases Task.step_effect hstep with
    | refuses => exact List.mem_append_left _ ha
    | returns => exact List.mem_append_left _ ha
    | replies => exact List.mem_append_left _ ha
    | _ => exact ha

/-- **What a call is told is true from then on**: a request that succeeded is on the port
    in full, and of one that was refused as closed nothing is there, nor will be. -/
theorem reply_sound (h : Runs Task.step AnyMove (Link.opened stream) s) {a : Answer}
    (ha : (x, a) ∈ s.world.replies) (hr : Runs Task.step AnyMove s s') :
    (∀ d, a = .ok d → s'.world.Wrote x d) ∧
      (a = .error .connectionClosed → s'.world.Untouched x) := by
  have hsound := (Sound.of_runs h).runs hr
  obtain ⟨o, ho, hao⟩ := hsound.replies x a (replies_mono hr ha)
  have htold := hsound.acks _ ho
  rcases o with _ | b
  · refine ⟨fun d hd => ?_, fun _ => htold⟩
    cases hao.symm.trans hd
  · obtain rfl : a = b := hao
    refine ⟨fun d hd => ?_, fun he => ?_⟩
    · subst hd
      exact htold
    · subst he
      exact htold

end

/-- `close` begins before the worker gets to the flush. -/
def refusal : List (Move Task Input) :=
  [.start (.life .closeEntry), .run 2 (.life .go), .run 0 .go, .run 1 .go]

/-- The channel, when the worker has taken both requests. -/
def drained : Channels.Chan TxRequest txChannelCapacity :=
  ⟨[⟨0, .write [65, 66]⟩, ⟨1, .flush⟩], [], [], false, by decide, by simp, by simp⟩

/-- What `talk` and then `refusal` lead to. -/
def refused : Link where
  world := {
    connection := (SerialConnection.opened ⟨0⟩).beginClose
    port := [.byte 65, .byte 66]
    txBytes := 2
    sessions := [⟨true, 0, drained⟩]
    registered := some 0
    nextAck := 2
    acks := [(0, some (.ok (.written 2))), (1, some (.error .connectionClosed))]
    replies := [(0, .ok (.written 2)), (1, .error .connectionClosed)]
    performed := [⟨0, ⟨0, .write [65, 66]⟩, 2⟩] }
  tasks := [.idle 0, .life .closing]

theorem refusal_runs : Runs Task.step AnyMove talked refused := by
  have hplay : talked.play Task.step refusal = some refused := rfl
  refine (Runs.of_play (D := AnyMove talked) ?_ hplay).mono fun hm => hm
  simp [refusal, AnyMove, Task.Starts, Connection.Task.Starts]

/-- The write got through, and nothing of the flush will. -/
theorem reply_sound_talk : refused.world.Wrote 0 (.written 2) ∧ refused.world.Untouched 1 := by
  have hwrite := reply_sound talk_runs (x := 0) (a := .ok (.written 2)) (by simp [talked])
    refusal_runs
  have hflush := reply_sound (talk_runs.trans refusal_runs) (x := 1)
    (a := .error .connectionClosed) (by simp [refused]) .refl
  exact ⟨hwrite.1 _ rfl, hflush.2 rfl⟩

end SerialMcp.Tx
