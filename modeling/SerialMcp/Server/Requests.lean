/-
  Requests and the RX sessions they leave (`tools/io_ops.rs`,
  `tools/control_ops.rs`, `open` and `close` of `server.rs` and
  `tools/port_ops.rs`), interleaved at their awaits.

  `open`, `read`, `transact` and `capture_boot` look a connection up first and
  get or make its session later.  `close` takes the connection out of the
  registry, closes the hardware, and takes the session out last, if all went
  well.

  * `Task.step`: the requests at their awaits;
  * `budget_accounted`: in every run, what the budget lacks is in the rings and
    in the reservations of requests in progress;
  * `sessions_registered`: with no request in progress every session belongs to
    a registered connection, if no session is made for a connection that is
    gone, and no hardware close of a connection with a session fails.
-/
import SerialMcp.Profile.Data
import SerialMcp.Server.Sessions

namespace SerialMcp.Server

open Tasks
open Registry (ConnectionRegistry SerialConnection SerialError)

/-- `SerialHandler`, as far as connections and sessions go. -/
structure SerialHandler where
  registry : ConnectionRegistry
  /-- `rx_buffer_size` of every connection, by its id -/
  rxBufferSize : String → ℕ
  rx : RxSessionManager

/-- The tools that read. -/
inductive Tool where
  | read
  | transact
  | captureBoot
  deriving DecidableEq, Repr

/-- A request at one of its awaits, or at an access to the budget. -/
inductive Task where
  /-- `open`, waiting for the registry -/
  | openEntry (port : String) (ring : ℕ)
  /-- `open` in the opener -/
  | opening (port : String) (ring : ℕ)
  | opened (port : String) (ring : ℕ)
      (result : Except SerialError {c : SerialConnection // c.port = port})
  /-- `open` with its connection registered, waiting for the registry to get it -/
  | openAccess (id : String) (ring : ℕ)
  /-- `open`, waiting for the sessions -/
  | openSession (id : String) (ring : ℕ)
  /-- `open`, at its profile -/
  | openBinding
  /-- a tool that waits for the registry; it will reserve a number of bytes -/
  | lookup (tool : Tool) (id : String) (bytes : ℕ)
  /-- `transact`, writing -/
  | writing (id : String) (bytes : ℕ)
  | reserving (tool : Tool) (id : String) (bytes : ℕ)
  /-- a tool that waits for the sessions, with its reservation -/
  | session (tool : Tool) (id : String) (held : ℕ)
  | reading (held : ℕ)
  /-- a tool that drops its reservation -/
  | returning (held : ℕ)
  | flushEntry (id : String)
  | flushing (id : String)
  /-- `flush`, waiting for the sessions -/
  | discarding (id : String)
  /-- `close`, waiting for the registry to cancel a reconnect task -/
  | closeEntry (id : String)
  | closeLookup (id : String)
  /-- `close`, waiting for the learning lock and the registry -/
  | closeBegin (id : String)
  | aborting (id : String) (connection : SerialConnection)
  /-- `close` in `SerialConnection::close` -/
  | closing (id : String) (connection : SerialConnection)
  | closed (id port : String) (result : Except SerialError Unit)
  /-- `close`, at its profile -/
  | learning (id : String)
  /-- `close`, waiting for the sessions -/
  | removing (id : String)
  /-- `close`, waiting for the pump of a session that it has taken out -/
  | joining (ring : ℕ)

/-- What a request waits for. -/
inductive Input where
  /-- a lock, or its turn -/
  | go
  | opener (result : Except SerialError SerialConnection)
  | written (result : Except String Unit)
  | flushed (result : Except String Unit)
  | hardware (result : Except SerialError Unit)
  /-- the work is done -/
  | finished

/-- The capacity of a ring that a tool makes. -/
def Tool.ring (w : SerialHandler) (id : String) : Tool → ℕ
  | .read | .transact => defaultRxBufferSize
  | .captureBoot => w.rxBufferSize id

/-- What a request does next: the handler after it, and what goes on in its place. -/
def Task.step : Task → Input → SerialHandler → Option (SerialHandler × List Task)
  | .openEntry port ring, .go, w =>
    match w.registry.reserve port with
    | .error _ => some (w, [])
    | .ok reg => some ({ w with registry := reg }, [.opening port ring])
  | .opening port ring, .opener (.error e), w => some (w, [.opened port ring (.error e)])
  | .opening port ring, .opener (.ok c), w =>
    if h : c.port = port then some (w, [.opened port ring (.ok ⟨c, h⟩)]) else none
  -- the guard gives the port back
  | .opened port _ (.error _), .go, w =>
    some ({ w with registry := w.registry.release port }, [])
  | .opened port ring (.ok c), .go, w =>
    some ({ w with
      registry := w.registry.register port c
      rxBufferSize := Function.update w.rxBufferSize c.1.id ring }, [.openAccess c.1.id ring])
  | .openAccess id ring, .go, w =>
    if id ∈ w.registry.connections then some (w, [.openSession id ring]) else some (w, [])
  | .openSession id ring, .go, w =>
    match w.rx.getOrCreate id ring with
    | .error _ => some (w, [])
    | .ok rx => some ({ w with rx := rx }, [.openBinding])
  | .openBinding, .finished, w => some (w, [])
  | .lookup tool id bytes, .go, w =>
    if id ∈ w.registry.connections then
      some (w, if tool = .transact then [.writing id bytes] else [.reserving tool id bytes])
    else some (w, [])
  | .writing _ _, .written (.error _), w => some (w, [])
  | .writing id bytes, .written (.ok ()), w => some (w, [.reserving .transact id bytes])
  | .reserving tool id bytes, .go, w =>
    match w.rx.budget.tryReserve bytes with
    | .error _ => some (w, [])
    | .ok budget => some ({ w with rx := { w.rx with budget := budget } }, [.session tool id bytes])
  | .session tool id held, .go, w =>
    match w.rx.getOrCreate id (tool.ring w id) with
    | .error _ => some (w, [.returning held])
    | .ok rx => some ({ w with rx := rx }, [.reading held])
  | .reading held, .finished, w => some (w, [.returning held])
  | .returning held, .go, w =>
    some ({ w with rx := { w.rx with budget := w.rx.budget.giveBack held } }, [])
  | .flushEntry id, .go, w =>
    if id ∈ w.registry.connections then some (w, [.flushing id]) else some (w, [])
  | .flushing _, .flushed (.error _), w => some (w, [])
  | .flushing id, .flushed (.ok ()), w => some (w, [.discarding id])
  | .discarding _, .go, w => some (w, [])
  | .closeEntry id, .go, w =>
    some ({ w with registry := w.registry.abortReconnect id }, [.closeLookup id])
  | .closeLookup id, .go, w =>
    if id ∈ w.registry.connections then some (w, [.closeBegin id]) else some (w, [])
  | .closeBegin id, .go, w =>
    match w.registry.beginClose id with
    | .error _ => some (w, [])
    | .ok (c, reg) => some ({ w with registry := reg }, [.aborting id c])
  | .aborting id c, .go, w =>
    some ({ w with registry := w.registry.abortReconnect id }, [.closing id c])
  | .closing id c, .hardware r, w => some (w, [.closed id c.port r])
  | .closed _ port (.error _), .go, w =>
    some ({ w with registry := w.registry.endClose port }, [])
  | .closed id port (.ok ()), .go, w =>
    some ({ w with registry := w.registry.endClose port }, [.learning id])
  | .learning id, .finished, w => some (w, [.removing id])
  | .removing id, .go, w =>
    match w.rx.sessions.lookup id with
    | none => some (w, [])
    | some ring => some ({ w with rx := { w.rx with sessions := w.rx.sessions.erase id } },
        [.joining ring])
  | .joining ring, .finished, w =>
    some ({ w with rx := { w.rx with budget := w.rx.budget.giveBack ring } }, [])
  | _, _, _ => none

/-- A handler with the requests in progress. -/
abbrev Session : Type := State SerialHandler Task

/-- The requests. -/
def Task.Starts : Task → Prop
  | .openEntry _ _ | .lookup _ _ _ | .flushEntry _ | .closeEntry _ => True
  | _ => False

/-- Every interleaving of any number of requests. -/
def AnyMove (_ : Session) : Move Task Input → Prop
  | .start t => t.Starts
  | .run _ _ => True

/-- A handler that was just built. -/
def Session.new (limits : Budget.Limits) : Session where
  world := { registry := .empty, rxBufferSize := fun _ => defaultRxBufferSize, rx := .new limits }
  tasks := []

/-! ## What a step does -/

/-- The bytes that a request holds, or has taken out of the map. -/
def Task.holds : Task → Unit → ℕ
  | .session _ _ held, _ | .reading held, _ | .returning held, _ | .joining held, _ => held
  | _, _ => 0

/-- A `close` that has taken the connection out and will take its session out. -/
def Task.Removes (id : String) : Task → Prop
  | .aborting id' _ | .closing id' _ | .closed id' _ (.ok ()) | .learning id' | .removing id' =>
    id' = id
  | _ => False

/-- The session that a request is about to get or make. -/
def Task.wants (w : SerialHandler) : Task → Option (String × ℕ)
  | .openSession id ring => some (id, ring)
  | .session tool id _ => some (id, tool.ring w id)
  | _ => none

/-- What one step does to the connections, the sessions and the budget. -/
inductive Deed (w : SerialHandler) : Task → SerialHandler → List Task → Prop
  | quiet {t new} (registry : ConnectionRegistry) (rxBufferSize : String → ℕ)
      (hconnections : ∀ id, id ∈ w.registry.connections → id ∈ registry.connections)
      (hremoves : ∀ id, t.Removes id → ∃ t' ∈ new, t'.Removes id)
      (hholds : heldBy Task.holds new () = t.holds ()) :
      Deed w t { w with registry := registry, rxBufferSize := rxBufferSize } new
  | gets {t new id ring rx} (hwants : t.wants w = some (id, ring))
      (hrx : w.rx.getOrCreate id ring = .ok rx) (hholds : heldBy Task.holds new () = t.holds ()) :
      Deed w t { w with rx := rx } new
  | reserves {tool id bytes budget} (hbudget : w.rx.budget.tryReserve bytes = .ok budget) :
      Deed w (.reserving tool id bytes) { w with rx := { w.rx with budget := budget } }
        [.session tool id bytes]
  | returns {t} (ht : ∀ id, ¬t.Removes id) :
      Deed w t { w with rx := { w.rx with budget := w.rx.budget.giveBack (t.holds ()) } } []
  | begins {id c registry} (hbegin : w.registry.beginClose id = .ok (c, registry)) :
      Deed w (.closeBegin id) { w with registry := registry } [.aborting id c]
  /-- the hardware does not close -/
  | fails {id c} (e : SerialError) : Deed w (.closing id c) w [.closed id c.port (.error e)]
  | takes {id ring} (hring : w.rx.sessions.lookup id = some ring) :
      Deed w (.removing id) { w with rx := { w.rx with sessions := w.rx.sessions.erase id } }
        [.joining ring]
  | misses {id} (hnone : w.rx.sessions.lookup id = none) : Deed w (.removing id) w []

section
variable {w w' : SerialHandler} {t : Task} {i : Input} {new : List Task}

theorem Deed.same (hremoves : ∀ id, t.Removes id → ∃ t' ∈ new, t'.Removes id)
    (hholds : heldBy Task.holds new () = t.holds ()) : Deed w t w new :=
  .quiet w.registry w.rxBufferSize (fun _ h => h) hremoves hholds

/-- A request that is no `close` goes on as requests that hold as much. -/
theorem Deed.idle (ht : ∀ id, ¬t.Removes id) (hholds : heldBy Task.holds new () = t.holds ()) :
    Deed w t w new :=
  .same (fun id h => absurd h (ht id)) hholds

theorem Task.step_deed (h : Task.step t i w = some (w', new)) : Deed w t w' new := by
  cases t with
  | openEntry port ring =>
    cases i with
    | go =>
      simp only [Task.step] at h
      split at h
      · cases h
        exact .idle (fun _ h => h) rfl
      · next reg hreserve =>
        cases h
        obtain ⟨-, rfl⟩ := ConnectionRegistry.reserve_eq_ok hreserve
        exact .quiet _ w.rxBufferSize (fun _ h => h) (fun _ h => h.elim) rfl
    | _ => cases h
  | opening port ring =>
    cases i with
    | opener r =>
      rcases r with e | c
      · cases h
        exact .idle (fun _ h => h) rfl
      · simp only [Task.step] at h
        split_ifs at h
        cases h
        exact .idle (fun _ h => h) rfl
    | _ => cases h
  | opened port ring r =>
    cases i with
    | go =>
      rcases r with e | c
      · cases h
        exact .quiet _ w.rxBufferSize (fun _ h => h) (fun _ h => h.elim) rfl
      · cases h
        refine .quiet _ _ (fun id hid => ?_) (fun _ h => h.elim) rfl
        simp [ConnectionRegistry.register, hid]
    | _ => rcases r with e | c <;> cases h
  | openAccess id ring =>
    cases i with
    | go =>
      simp only [Task.step] at h
      split_ifs at h <;> cases h
      · exact .idle (fun _ h => h) rfl
      · exact .idle (fun _ h => h) rfl
    | _ => cases h
  | openSession id ring =>
    cases i with
    | go =>
      simp only [Task.step] at h
      split at h
      · cases h
        exact .idle (fun _ h => h) rfl
      · next rx hrx =>
        cases h
        exact .gets rfl hrx rfl
    | _ => cases h
  | openBinding =>
    cases i with
    | finished =>
      cases h
      exact .idle (fun _ h => h) rfl
    | _ => cases h
  | lookup tool id bytes =>
    cases i with
    | go =>
      simp only [Task.step] at h
      split_ifs at h <;> cases h
      · exact .idle (fun _ h => h) rfl
      · exact .idle (fun _ h => h) rfl
      · exact .idle (fun _ h => h) rfl
    | _ => cases h
  | writing id bytes =>
    cases i with
    | written r =>
      rcases r with e | u <;> cases h
      · exact .idle (fun _ h => h) rfl
      · exact .idle (fun _ h => h) rfl
    | _ => cases h
  | reserving tool id bytes =>
    cases i with
    | go =>
      simp only [Task.step] at h
      split at h
      · cases h
        exact .idle (fun _ h => h) rfl
      · next budget hbudget =>
        cases h
        exact .reserves hbudget
    | _ => cases h
  | session tool id held =>
    cases i with
    | go =>
      simp only [Task.step] at h
      split at h
      · cases h
        exact .idle (fun _ h => h) rfl
      · next rx hrx =>
        cases h
        exact .gets rfl hrx rfl
    | _ => cases h
  | reading held =>
    cases i with
    | finished =>
      cases h
      exact .idle (fun _ h => h) rfl
    | _ => cases h
  | returning held =>
    cases i with
    | go =>
      cases h
      exact .returns fun _ h => h
    | _ => cases h
  | flushEntry id =>
    cases i with
    | go =>
      simp only [Task.step] at h
      split_ifs at h <;> cases h
      · exact .idle (fun _ h => h) rfl
      · exact .idle (fun _ h => h) rfl
    | _ => cases h
  | flushing id =>
    cases i with
    | flushed r =>
      rcases r with e | u <;> cases h
      · exact .idle (fun _ h => h) rfl
      · exact .idle (fun _ h => h) rfl
    | _ => cases h
  | discarding id =>
    cases i with
    | go =>
      cases h
      exact .idle (fun _ h => h) rfl
    | _ => cases h
  | closeEntry id =>
    cases i with
    | go =>
      cases h
      exact .quiet _ w.rxBufferSize (fun _ h => h) (fun _ h => h.elim) rfl
    | _ => cases h
  | closeLookup id =>
    cases i with
    | go =>
      simp only [Task.step] at h
      split_ifs at h <;> cases h
      · exact .idle (fun _ h => h) rfl
      · exact .idle (fun _ h => h) rfl
    | _ => cases h
  | closeBegin id =>
    cases i with
    | go =>
      simp only [Task.step] at h
      split at h
      · cases h
        exact .idle (fun _ h => h) rfl
      · next c reg hbegin =>
        cases h
        exact .begins hbegin
    | _ => cases h
  | aborting id c =>
    cases i with
    | go =>
      cases h
      exact .quiet _ w.rxBufferSize (fun _ h => h) (fun _ h => ⟨_, List.mem_singleton_self _, h⟩) rfl
    | _ => cases h
  | closing id c =>
    cases i with
    | hardware r =>
      rcases r with e | u <;> cases h
      · exact .fails e
      · exact .same (fun _ h => ⟨_, List.mem_singleton_self _, h⟩) rfl
    | _ => cases h
  | closed id port r =>
    cases i with
    | go =>
      rcases r with e | u <;> cases h
      · exact .quiet _ w.rxBufferSize (fun _ h => h) (fun _ h => h.elim) rfl
      · exact .quiet _ w.rxBufferSize (fun _ h => h) (fun _ h => ⟨_, List.mem_singleton_self _, h⟩) rfl
    | _ => rcases r with e | u <;> cases h
  | learning id =>
    cases i with
    | finished =>
      cases h
      exact .same (fun _ h => ⟨_, List.mem_singleton_self _, h⟩) rfl
    | _ => cases h
  | removing id =>
    cases i with
    | go =>
      simp only [Task.step] at h
      split at h
      · next hnone =>
        cases h
        exact .misses hnone
      · next ring hring =>
        cases h
        exact .takes hring
    | _ => cases h
  | joining ring =>
    cases i with
    | finished =>
      cases h
      exact .returns fun _ h => h
    | _ => cases h

/-! ## The budget -/

/-- What is free and what is in the rings of the map. -/
def RxSessionManager.total (m : RxSessionManager) : ℕ := m.budget.available + m.reserved

theorem RxSessionManager.getOrCreate_total {m m' : RxSessionManager} {id : String} {ring : ℕ}
    (h : m.getOrCreate id ring = .ok m') : m'.total = m.total := by
  obtain ⟨-, rfl⟩ | ⟨hmem, hreserve, hsessions⟩ := getOrCreate_eq_ok h
  · rfl
  · obtain ⟨hle, hbudget⟩ := Budget.AtomicBudget.tryReserve_eq_ok hreserve
    simp only [total, reserved, hsessions, hbudget, sum_insert hmem]
    omega

/-- **Step**: what is free, in the rings and with the request is the same after it. -/
theorem Deed.total (h : Deed w t w' new) (hlt : w.rx.total + t.holds () < u64Size) :
    w'.rx.total + heldBy Task.holds new () = w.rx.total + t.holds () := by
  cases h with
  | quiet registry rxBufferSize _ _ hholds => rw [hholds]
  | gets _ hrx hholds => rw [hholds, RxSessionManager.getOrCreate_total hrx]
  | reserves hbudget =>
    obtain ⟨hle, rfl⟩ := Budget.AtomicBudget.tryReserve_eq_ok hbudget
    simp only [RxSessionManager.total, RxSessionManager.reserved, heldBy_cons, heldBy_nil,
      Task.holds]
    omega
  | returns _ =>
    have hroom : w.rx.budget.available + t.holds () < u64Size := by
      unfold RxSessionManager.total at hlt
      omega
    simp only [RxSessionManager.total, RxSessionManager.reserved, heldBy_nil,
      Budget.AtomicBudget.giveBack_eq hroom]
    omega
  | begins _ => rfl
  | fails e => rfl
  | takes hring =>
    have hsum := RxSessionManager.sum_erase hring
    simp only [RxSessionManager.total, RxSessionManager.reserved, heldBy_cons, heldBy_nil,
      Task.holds]
    omega
  | misses _ => rfl

/-! ## The sessions -/

/-- A session belongs to a registered connection, or a `close` is about to take it out. -/
def Attached (w : SerialHandler) (ts : List Task) : Prop :=
  ∀ id ∈ w.rx.sessions, id ∈ w.registry.connections ∨ ∃ t ∈ ts, t.Removes id

/-- No session is made for a connection that is gone and past the end of its
    `close`, and no hardware close of a connection with a session fails. -/
def Guarded (s : Session) : Move Task Input → Prop
  | .start t => t.Starts
  | .run n i => ∀ t ∈ s.tasks[n]?,
    (∀ id ring rx, t.wants s.world = some (id, ring) → id ∉ s.world.rx.sessions →
      s.world.rx.getOrCreate id ring = .ok rx →
        id ∈ s.world.registry.connections ∨ ∃ t' ∈ s.tasks, t'.Removes id) ∧
    ∀ id c e, t = .closing id c → i = .hardware (.error e) → id ∉ s.world.rx.sessions

/-- A task that removes what the others do not is replaced by tasks that remove it too. -/
theorem exists_removes {left right : List Task} {id : String}
    (ht : t.Removes id → ∃ t' ∈ new, t'.Removes id)
    (h : ∃ t' ∈ left ++ t :: right, t'.Removes id) :
    ∃ t' ∈ left ++ new ++ right, t'.Removes id := by
  obtain ⟨t', hmem, hremoves⟩ := h
  simp only [List.mem_append, List.mem_cons] at hmem
  rcases hmem with hmem | rfl | hmem
  · exact ⟨t', by simp [hmem], hremoves⟩
  · obtain ⟨t'', hmem'', hremoves''⟩ := ht hremoves
    exact ⟨t'', by simp [hmem''], hremoves''⟩
  · exact ⟨t', by simp [hmem], hremoves⟩

theorem wants_removes {w : SerialHandler} {id ring} (h : t.wants w = some (id, ring)) (id' : String) :
    ¬t.Removes id' := by
  cases t with
  | openSession _ _ => exact fun h => h
  | session _ _ _ => exact fun h => h
  | _ => cases h

theorem fails_input {id : String} {c : SerialConnection} {e : SerialError}
    (h : Task.step (.closing id c) i w = some (w', [.closed id c.port (.error e)])) :
    i = .hardware (.error e) := by
  cases i with
  | hardware r =>
    cases h
    rfl
  | _ => cases h

/-- **Step**: one case for each deed. -/
theorem Attached.move {s s' : Session} {m : Move Task Input} (h : Attached s.world s.tasks)
    (hm : Guarded s m) (hs : s.move Task.step m = some s') : Attached s'.world s'.tasks := by
  obtain ⟨t, rfl, rfl⟩ | ⟨left, t, right, i, w, new, rfl, htasks, hstep, rfl⟩ := move_cases hs
  · intro id hid
    refine (h id hid).imp_right ?_
    rintro ⟨t', hmem, hremoves⟩
    exact ⟨t', List.mem_append_left _ hmem, hremoves⟩
  · obtain ⟨hcreate, hfail⟩ := hm t (by simp [htasks])
    unfold Attached at h
    rw [htasks] at h hcreate
    -- sessions that were there, while no `close` in progress ends
    have hkeep : (∀ id, t.Removes id → ∃ t' ∈ new, t'.Removes id) → ∀ id ∈ s.world.rx.sessions,
        id ∈ s.world.registry.connections ∨ ∃ t' ∈ left ++ new ++ right, t'.Removes id :=
      fun ht id hid => (h id hid).imp_right (exists_removes (ht id))
    cases Task.step_deed hstep with
    | quiet registry rxBufferSize hconnections hremoves _ =>
      exact fun id hid => (hkeep hremoves id hid).imp_left (hconnections id)
    | @gets _ _ id ring rx hwants hrx _ =>
      have hidle : ∀ id', t.Removes id' → ∃ t' ∈ new, t'.Removes id' :=
        fun id' h => absurd h (wants_removes hwants id')
      obtain ⟨-, rfl⟩ | ⟨hmem, -, hsessions⟩ := RxSessionManager.getOrCreate_eq_ok hrx
      · exact hkeep hidle
      · intro id' hid'
        rw [hsessions, AList.mem_insert] at hid'
        rcases hid' with rfl | hid'
        · exact (hcreate id' ring rx hwants hmem hrx).imp_right (exists_removes (hidle id'))
        · exact hkeep hidle id' hid'
    | reserves _ => exact hkeep fun _ h => h.elim
    | returns ht => exact hkeep fun id h => absurd h (ht id)
    | @begins id c registry hbegin =>
      obtain ⟨-, rfl⟩ := ConnectionRegistry.beginClose_eq_ok hbegin
      intro id' hid'
      by_cases heq : id' = id
      · exact .inr ⟨.aborting id c, by simp, heq.symm⟩
      · refine (hkeep (fun _ h => h.elim) id' hid').imp_left fun hconn => ?_
        exact AList.mem_erase.2 ⟨heq, hconn⟩
    | @fails id c e =>
      have hgone := hfail id c e rfl (fails_input hstep)
      intro id' hid'
      refine (h id' hid').imp_right (exists_removes fun hremoves => ?_)
      obtain rfl : id = id' := hremoves
      exact absurd hid' hgone
    | @takes id ring hring =>
      intro id' hid'
      obtain ⟨hne, hmem⟩ := AList.mem_erase.1 hid'
      refine (h id' hmem).imp_right (exists_removes fun hremoves => ?_)
      exact absurd (Eq.symm hremoves) hne
    | @misses id hnone =>
      intro id' hid'
      refine (h id' hid').imp_right (exists_removes fun hremoves => ?_)
      obtain rfl : id = id' := hremoves
      exact absurd hid' (AList.lookup_eq_none.1 hnone)

end

/-! ## Between requests -/

section
variable {s : Session} {l : Budget.Limits}

/-- **The budget is accounted for** at every point of every run. -/
theorem budget_accounted (h : Runs Task.step AnyMove (Session.new l) s) :
    s.world.rx.total + heldBy Task.holds s.tasks () = l.programLimit := by
  refine h.invariant (J := fun s =>
    s.world.rx.total + heldBy Task.holds s.tasks () = l.programLimit) ?_ rfl
  intro s s' m hs hm hmove
  obtain ⟨t, rfl, rfl⟩ | ⟨left, t, right, i, w, new, rfl, htasks, hstep, rfl⟩ := move_cases hmove
  · have ht : t.holds () = 0 := by
      cases t <;> first | rfl | exact hm.elim
    simpa [ht] using hs
  · rw [htasks] at hs
    simp only [heldBy_append, heldBy_cons] at hs ⊢
    have hlt := l.program_lt
    have htotal := (Task.step_deed hstep).total (by omega)
    omega

theorem Guarded.anyMove {m : Move Task Input} (h : Guarded s m) : AnyMove s m := by
  cases m with
  | start t => exact h
  | run n i => trivial

/-- **No session outlives its connection.** Between requests, the sessions belong
    to registered connections, and the budget lacks just their rings: after a
    run in which no session is made for a connection that is gone, and every
    hardware close of a connection with a session succeeds. -/
theorem sessions_registered (h : Runs Task.step Guarded (Session.new l) s) (hidle : s.tasks = []) :
    (∀ id ∈ s.world.rx.sessions, id ∈ s.world.registry.connections) ∧
      s.world.rx.budget.available + s.world.rx.reserved = l.programLimit := by
  have hattached : Attached s.world s.tasks :=
    h.invariant (J := fun s => Attached s.world s.tasks) (fun ha hm hs => ha.move hm hs) nofun
  have htotal := budget_accounted (h.mono Guarded.anyMove)
  rw [hidle] at hattached htotal
  refine ⟨fun id hid => ?_, htotal⟩
  obtain hconn | ⟨t, hmem, -⟩ := hattached id hid
  · exact hconn
  · cases hmem

end

/-- A connection is opened. -/
def openOne : List (Move Task Input) :=
  [.start (.openEntry "/dev/ttyUSB0" 1024), .run 0 .go,
    .run 0 (.opener (.ok ⟨"c", "/dev/ttyUSB0", none⟩)), .run 0 .go, .run 0 .go, .run 0 .go,
    .run 0 .finished]

/-- The request at a position closes the connection, with nothing in between. -/
def closeAt (n : ℕ) : List (Move Task Input) :=
  [.start (.closeEntry "c"), .run n .go, .run n .go, .run n .go, .run n .go,
    .run n (.hardware (.ok ())), .run n .go, .run n .finished, .run n .go, .run n .finished]

/-- A request that has looked the connection up reads. -/
def readOn : List (Move Task Input) :=
  [.run 0 .go, .run 0 .go, .run 0 .finished, .run 0 .go]

/-- A test for `Guarded`. -/
def guarded (s : Session) : Move Task Input → Bool
  | .start (.openEntry _ _) | .start (.lookup _ _ _) | .start (.closeEntry _) => true
  | .start _ => false
  | .run n i =>
    (match i with
      | .hardware (.error _) => false
      | _ => true) &&
    match s.tasks[n]? with
    | some (.openSession id _) | some (.session _ id _) => id ∈ s.world.registry.connections
    | _ => true

theorem guarded_guarded {s : Session} {m : Move Task Input} (h : guarded s m = true) :
    Guarded s m := by
  cases m with
  | start t => cases t <;> trivial
  | run n i =>
    intro t ht
    rw [Option.mem_def] at ht
    simp only [guarded, ht, Bool.and_eq_true] at h
    obtain ⟨hi, hmem⟩ := h
    refine ⟨fun id ring rx hwants _ _ => .inl ?_, fun _ _ e _ hfail => ?_⟩
    · cases t with
      | openSession id' ring' =>
        cases hwants
        simpa using hmem
      | session tool id' held =>
        cases hwants
        simpa using hmem
      | _ => cases hwants
    · subst hfail
      cases hi

/-- A connection is opened, read from and closed. -/
theorem sessions_registered_closed : ∃ s, (Session.new defaultLimits).play Task.step
    (openOne ++ [.start (.lookup .read "c" 100), .run 0 .go] ++ readOn ++ closeAt 0) = some s ∧
      s.world.rx.budget.available + s.world.rx.reserved = 2 ^ 30 ∧
        ∀ id ∈ s.world.rx.sessions, id ∈ s.world.registry.connections := by
  obtain ⟨s, hif, hplay, hidle⟩ : ∃ s, (Session.new defaultLimits).playIf Task.step guarded
      (openOne ++ [.start (.lookup .read "c" 100), .run 0 .go] ++ readOn ++ closeAt 0) = some s ∧
    (Session.new defaultLimits).play Task.step
      (openOne ++ [.start (.lookup .read "c" 100), .run 0 .go] ++ readOn ++ closeAt 0) = some s ∧
        s.tasks = [] :=
    ⟨_, rfl, rfl, rfl⟩
  obtain ⟨hregistered, htotal⟩ := sessions_registered (.of_playIf guarded_guarded hif) hidle
  exact ⟨s, hplay, htotal, hregistered⟩

/-- **A session for a connection that is gone**: a `read` has looked the connection
    up when it is closed, and makes a session that nobody will take out. -/
theorem session_leaks :
    ¬∀ (l : Budget.Limits) (s : Session), Runs Task.step AnyMove (Session.new l) s →
      s.tasks = [] → ∀ id ∈ s.world.rx.sessions, id ∈ s.world.registry.connections := by
  intro h
  obtain ⟨s, hplay, hidle, hconnections, hsessions⟩ : ∃ s,
      (Session.new defaultLimits).play Task.step
        (openOne ++ [.start (.lookup .read "c" 100), .run 0 .go] ++ closeAt 1 ++ readOn) = some s ∧
      s.tasks = [] ∧ s.world.registry.connections.entries = [] ∧
        s.world.rx.sessions.entries = [⟨"c", defaultRxBufferSize⟩] :=
    ⟨_, rfl, rfl, rfl, rfl⟩
  have hrun : Runs Task.step AnyMove (Session.new defaultLimits) s := by
    refine (Runs.of_play (D := AnyMove (Session.new defaultLimits)) ?_ hplay).mono fun hm => hm
    simp [openOne, closeAt, readOn, AnyMove, Task.Starts]
  have hmem := h _ s hrun hidle "c" (by simp [AList.mem_keys, AList.keys, hsessions])
  simp [AList.mem_keys, AList.keys, hconnections] at hmem

end SerialMcp.Server
