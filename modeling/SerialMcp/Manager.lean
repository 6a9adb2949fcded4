/-
  The connection registry (`serial/manager.rs`): `open`, `insert` and `close`,
  interleaved at their awaits, with every future that may be dropped there.

  A port in the registry has an owner: a registered connection, an `open` that
  has reserved it (`opening_ports`), or a `close` that shuts it down
  (`closing_ports`).  A reservation is held by an `OpeningReservationGuard`,
  and behind a contended drop by the cleanup task that it schedules; a port in
  `closing_ports` is held by nothing but the straight-line code of `close`.

  * `Task`, `Task.step`: the calls at their awaits and what each of them does
    with its next critical section;
  * `openings_balanced`: in every run, `opening_ports` are exactly the ports
    that some guard or cleanup task holds;
  * `single_owner`: no port ever has two owners;
  * `closings_balanced`, `no_port_wedged`: `closing_ports` go with the `close`
    calls in progress as long as none of them is dropped between its first
    critical section and its end; one that is dropped there wedges its port.
-/
import Mathlib.Data.List.AList
import Mathlib.Data.Finset.Basic
import SerialMcp.Lib.Tasks

namespace SerialMcp.Registry

open Tasks

/-! ## The registry -/

/-- `SerialError`, as far as the manager makes or passes on errors. -/
inductive SerialError where
  | portAlreadyOpen (port : String) (connectionId name : Option String)
  | portAlreadyOpening (port : String)
  | connectionNotFound (id : String)
  /-- any error of the opener or of the hardware close -/
  | backend (text : String)
  deriving DecidableEq, Repr

/-- `SerialConnection`, as far as the manager reads it. -/
structure SerialConnection where
  id : String
  port : String
  name : Option String
  deriving DecidableEq, Repr

structure ConnectionRegistry where
  connections : AList fun _ : String => SerialConnection
  openingPorts : Finset String
  closingPorts : Finset String
  /-- the connections with a reconnect task -/
  reconnectTasks : Finset String

/-- `ConnectionRegistry::default` -/
def ConnectionRegistry.empty : ConnectionRegistry := ⟨∅, ∅, ∅, ∅⟩

/-- `find_connection_by_port` -/
def findConnectionByPort (connections : AList fun _ : String => SerialConnection)
    (port : String) : Option SerialConnection :=
  (connections.entries.map Sigma.snd).find? fun c => c.port = port

namespace ConnectionRegistry

/-- The checks at the beginning of `open` and `insert`. -/
def checkPort (reg : ConnectionRegistry) (port : String) : Except SerialError Unit :=
  match findConnectionByPort reg.connections port with
  | some c => .error (.portAlreadyOpen port (some c.id) c.name)
  | none =>
    if port ∈ reg.openingPorts ∨ port ∈ reg.closingPorts then .error (.portAlreadyOpening port)
    else .ok ()

/-- The first critical section of `open`. -/
def reserve (reg : ConnectionRegistry) (port : String) : Except SerialError ConnectionRegistry :=
  (reg.checkPort port).map fun _ => { reg with openingPorts := insert port reg.openingPorts }

/-- The second critical section of `open`, with a connection. -/
def register (reg : ConnectionRegistry) (port : String) (connection : SerialConnection) :
    ConnectionRegistry :=
  { reg with
    openingPorts := reg.openingPorts.erase port
    connections := reg.connections.insert connection.id connection }

/-- What a guard does to the registry, at once or in its cleanup task. -/
def release (reg : ConnectionRegistry) (port : String) : ConnectionRegistry :=
  { reg with openingPorts := reg.openingPorts.erase port }

/-- `ConnectionManager::insert` -/
def insert (reg : ConnectionRegistry) (connection : SerialConnection) :
    Except SerialError ConnectionRegistry :=
  (reg.checkPort connection.port).map fun _ =>
    { reg with connections := reg.connections.insert connection.id connection }

/-- The first critical section of `close`. -/
def beginClose (reg : ConnectionRegistry) (id : String) :
    Except SerialError (SerialConnection × ConnectionRegistry) :=
  match reg.connections.lookup id with
  | none => .error (.connectionNotFound id)
  | some c => .ok (c, { reg with
      connections := reg.connections.erase id
      closingPorts := Insert.insert c.port reg.closingPorts })

/-- The second one: the reconnect task is aborted. -/
def abortReconnect (reg : ConnectionRegistry) (id : String) : ConnectionRegistry :=
  { reg with reconnectTasks := reg.reconnectTasks.erase id }

/-- The last one. -/
def endClose (reg : ConnectionRegistry) (port : String) : ConnectionRegistry :=
  { reg with closingPorts := reg.closingPorts.erase port }

/-- The last critical section of `start_reconnect`. -/
def addReconnect (reg : ConnectionRegistry) (id : String) : ConnectionRegistry :=
  { reg with reconnectTasks := Insert.insert id reg.reconnectTasks }

end ConnectionRegistry

/-! ## The calls in progress -/

/-- A call at one of its awaits, or a guard that gives its reservation back. -/
inductive Task where
  /-- `open`, waiting for the registry lock -/
  | openEntry (port : String)
  /-- `open` in the opener, with an active guard -/
  | opening (port : String)
  /-- `open` with the opener's result, waiting for the lock; the opener returns
      connections of the port it was asked for -/
  | opened (port : String) (result : Except SerialError {c : SerialConnection // c.port = port})
  /-- an active guard that goes out of scope -/
  | dropping (port : String)
  /-- the cleanup task of a guard that found the lock contended -/
  | cleanup (port : String)
  /-- `insert`, waiting for the lock -/
  | insertEntry (connection : SerialConnection)
  /-- `close`, waiting for the lock -/
  | closeEntry (id : String)
  /-- `close`, waiting for the lock to abort the reconnect task -/
  | aborting (id : String) (connection : SerialConnection)
  /-- `close` in `SerialConnection::close` -/
  | closing (connection : SerialConnection)
  /-- `close` with the result, waiting for the lock -/
  | closed (port : String) (result : Except SerialError Unit)
  /-- `start_reconnect` with a new task, waiting for the lock -/
  | reconnecting (id : String)

/-- What a task waits for, or what happens to it. -/
inductive Input where
  /-- the registry lock; for a guard, a `try_lock` that succeeds -/
  | lock
  /-- a `try_lock` that fails -/
  | contended
  | opener (result : Except SerialError SerialConnection)
  | hardware (result : Except SerialError Unit)
  /-- the future is dropped -/
  | drop

/-- What a task does with an input: the registry after it, and what goes on in
    its place. -/
def Task.step : Task → Input → ConnectionRegistry → Option (ConnectionRegistry × List Task)
  | .openEntry port, .lock, reg =>
    match reg.reserve port with
    | .error _ => some (reg, [])
    | .ok reg' => some (reg', [.opening port])
  | .openEntry _, .drop, reg => some (reg, [])
  | .opening port, .opener (.error e), reg => some (reg, [.opened port (.error e)])
  | .opening port, .opener (.ok c), reg =>
    if h : c.port = port then some (reg, [.opened port (.ok ⟨c, h⟩)]) else none
  | .opening port, .drop, reg => some (reg, [.dropping port])
  -- on an error the lock is given back before the guard is dropped
  | .opened port (.error _), .lock, reg => some (reg, [.dropping port])
  | .opened port (.ok c), .lock, reg => some (reg.register port c, [])
  | .opened port _, .drop, reg => some (reg, [.dropping port])
  | .dropping port, .lock, reg => some (reg.release port, [])
  | .dropping port, .contended, reg => some (reg, [.cleanup port])
  | .cleanup port, .lock, reg => some (reg.release port, [])
  | .insertEntry c, .lock, reg =>
    match reg.insert c with
    | .error _ => some (reg, [])
    | .ok reg' => some (reg', [])
  | .insertEntry _, .drop, reg => some (reg, [])
  | .closeEntry id, .lock, reg =>
    match reg.beginClose id with
    | .error _ => some (reg, [])
    | .ok (c, reg') => some (reg', [.aborting id c])
  | .closeEntry _, .drop, reg => some (reg, [])
  | .aborting id c, .lock, reg => some (reg.abortReconnect id, [.closing c])
  | .closing c, .hardware r, reg => some (reg, [.closed c.port r])
  | .closed port _, .lock, reg => some (reg.endClose port, [])
  -- nothing holds the port of a `close` but its own code
  | .aborting _ _, .drop, reg => some (reg, [])
  | .closing _, .drop, reg => some (reg, [])
  | .closed _ _, .drop, reg => some (reg, [])
  | .reconnecting id, .lock, reg => some (reg.addReconnect id, [])
  | .reconnecting _, .drop, reg => some (reg, [])
  | _, _, _ => none

/-- A manager: the registry and the calls in progress. -/
abbrev Manager : Type := State ConnectionRegistry Task

/-! ## Owners of a port -/

/-- 1 for a port in the set. -/
def marked (ports : Finset String) (port : String) : ℕ := if port ∈ ports then 1 else 0

section
variable {ports : Finset String} {p q : String}

theorem marked_le (ports : Finset String) (p : String) : marked ports p ≤ 1 := by
  unfold marked
  split <;> omega

theorem marked_eq_zero : marked ports p = 0 ↔ p ∉ ports := by
  simp [marked]

theorem marked_eq_one : marked ports p = 1 ↔ p ∈ ports := by
  simp [marked]

theorem marked_insert (h : p ∉ ports) (q : String) :
    marked (insert p ports) q = marked ports q + if p = q then 1 else 0 := by
  by_cases hq : p = q
  · subst hq
    simp [marked, h]
  · simp [marked, hq, Ne.symm hq]

theorem marked_erase (h : p ∈ ports) (q : String) :
    marked (ports.erase p) q + (if p = q then 1 else 0) = marked ports q := by
  by_cases hq : p = q
  · subst hq
    simp [marked, h]
  · simp [marked, hq, Ne.symm hq]

theorem marked_erase_le (ports : Finset String) (p q : String) :
    marked (ports.erase p) q ≤ marked ports q := by
  unfold marked
  split
  · next hq => simp [Finset.mem_of_mem_erase hq]
  · omega

end

namespace ConnectionRegistry

/-- The number of registered connections on a port. -/
def connectionsOn (reg : ConnectionRegistry) (port : String) : ℕ :=
  reg.connections.entries.countP fun e => e.2.port = port

/-- The number of owners of a port. -/
def owners (reg : ConnectionRegistry) (port : String) : ℕ :=
  reg.connectionsOn port + marked reg.openingPorts port + marked reg.closingPorts port

/-- No port has two owners. -/
def Sole (reg : ConnectionRegistry) : Prop := ∀ port, reg.owners port ≤ 1

section
variable {reg reg' : ConnectionRegistry} {p q id : String} {c : SerialConnection}

theorem connectionsOn_eq_zero :
    reg.connectionsOn p = 0 ↔ findConnectionByPort reg.connections p = none := by
  simp [connectionsOn, findConnectionByPort, List.countP_eq_zero]

theorem checkPort_eq_ok : reg.checkPort p = .ok () ↔ reg.owners p = 0 := by
  rcases hfind : findConnectionByPort reg.connections p with _ | c
  · have hzero := connectionsOn_eq_zero.2 hfind
    simp only [checkPort, hfind, owners, hzero]
    split
    · next h =>
      constructor
      · intro h'
        cases h'
      · intro h'
        have hopening : p ∉ reg.openingPorts := marked_eq_zero.1 (by omega)
        have hclosing : p ∉ reg.closingPorts := marked_eq_zero.1 (by omega)
        exact absurd h (by simp [hopening, hclosing])
    · next h =>
      rw [not_or] at h
      simp [marked_eq_zero.2 h.1, marked_eq_zero.2 h.2]
  · have hpos : reg.connectionsOn p ≠ 0 := by
      rw [Ne, connectionsOn_eq_zero, hfind]
      simp
    simp only [checkPort, hfind, owners]
    constructor
    · intro h'
      cases h'
    · intro h'
      exact absurd (by omega) hpos

theorem map_checkPort {f : Unit → ConnectionRegistry} (h : (reg.checkPort p).map f = .ok reg') :
    reg.owners p = 0 ∧ reg' = f () := by
  rcases hcheck : reg.checkPort p with e | u
  · rw [hcheck] at h
    cases h
  · rw [hcheck] at h
    cases h
    exact ⟨checkPort_eq_ok.1 hcheck, rfl⟩

theorem kerase_countP_le (id : String) (entries : List (Sigma fun _ : String => SerialConnection))
    (f : (Sigma fun _ : String => SerialConnection) → Bool) :
    (entries.kerase id).countP f ≤ entries.countP f :=
  (List.kerase_sublist id entries).countP_le

/-- Registering adds one connection on its port, and may replace another. -/
theorem insert_countP_le (reg : ConnectionRegistry) (c : SerialConnection) (q : String) :
    ((reg.connections.insert c.id c).entries.countP fun e => e.2.port = q) ≤
      reg.connectionsOn q + if c.port = q then 1 else 0 := by
  rw [AList.entries_insert, List.countP_cons]
  have hle := kerase_countP_le c.id reg.connections.entries fun e => e.2.port = q
  simp only [decide_eq_true_eq]
  exact Nat.add_le_add_right hle _

/-- Taking an entry out of a map puts it in front of the others. -/
theorem kerase_perm {β : Type} {b : β} {entries : List (Sigma fun _ : String => β)}
    (h : entries.dlookup id = some b) : entries.Perm (⟨id, b⟩ :: entries.kerase id) := by
  induction entries with
  | nil => cases h
  | cons e entries ih =>
    obtain ⟨k, b'⟩ := e
    by_cases hk : id = k
    · subst hk
      rw [List.dlookup_cons_eq] at h
      obtain rfl := Option.some.inj h
      have hcons : List.kerase id (⟨id, b'⟩ :: entries) = entries := List.kerase_cons_eq rfl
      rw [hcons]
    · rw [List.dlookup_cons_ne entries ⟨k, b'⟩ hk] at h
      rw [List.kerase_cons_ne hk]
      exact ((ih h).cons _).trans (List.Perm.swap ..)

/-- Taking a connection out leaves one less on its port. -/
theorem kerase_countP {entries : List (Sigma fun _ : String => SerialConnection)}
    (h : entries.dlookup id = some c) (q : String) :
    ((entries.kerase id).countP fun e => e.2.port = q) + (if c.port = q then 1 else 0) =
      entries.countP fun e => e.2.port = q := by
  rw [(kerase_perm h).countP_eq, List.countP_cons]
  simp

/-! What the critical sections do to the owners. -/

theorem not_mem_of_free (h : reg.owners p = 0) : p ∉ reg.openingPorts ∧ p ∉ reg.closingPorts := by
  unfold owners at h
  exact ⟨marked_eq_zero.1 (by omega), marked_eq_zero.1 (by omega)⟩

theorem reserve_eq_ok (h : reg.reserve p = .ok reg') : reg.owners p = 0 ∧
    reg' = { reg with openingPorts := Insert.insert p reg.openingPorts } := map_checkPort h

theorem insert_eq_ok (h : reg.insert c = .ok reg') : reg.owners c.port = 0 ∧
    reg' = { reg with connections := reg.connections.insert c.id c } := map_checkPort h

theorem beginClose_eq_ok (h : reg.beginClose id = .ok (c, reg')) :
    reg.connections.lookup id = some c ∧ reg' = { reg with
      connections := reg.connections.erase id
      closingPorts := Insert.insert c.port reg.closingPorts } := by
  unfold beginClose at h
  split at h
  · cases h
  · next hlookup =>
    cases h
    exact ⟨hlookup, rfl⟩

theorem connectionsOn_beginClose (h : reg.beginClose id = .ok (c, reg')) (q : String) :
    reg'.connectionsOn q + (if c.port = q then 1 else 0) = reg.connectionsOn q := by
  obtain ⟨hlookup, rfl⟩ := beginClose_eq_ok h
  exact kerase_countP hlookup q

theorem Sole.reserve (h : reg.Sole) (hr : reg.reserve p = .ok reg') : reg'.Sole := by
  obtain ⟨hfree, rfl⟩ := reserve_eq_ok hr
  intro q
  have hq := h q
  have hmarked := marked_insert (not_mem_of_free hfree).1 q
  unfold owners connectionsOn at hfree hq ⊢
  simp only [hmarked]
  split
  · next heq =>
    subst heq
    omega
  · omega

theorem Sole.insert (h : reg.Sole) (hr : reg.insert c = .ok reg') : reg'.Sole := by
  obtain ⟨hfree, rfl⟩ := insert_eq_ok hr
  intro q
  have hq := h q
  have hcount := insert_countP_le reg c q
  unfold owners connectionsOn at hfree hq ⊢
  unfold connectionsOn at hcount
  simp only
  split at hcount
  · next heq =>
    subst heq
    omega
  · omega

theorem Sole.register (h : reg.Sole) (hc : c.port = p) (hp : p ∈ reg.openingPorts) :
    (reg.register p c).Sole := by
  intro q
  have hq := h q
  have hcount := insert_countP_le reg c q
  have hmarked := marked_erase hp q
  rw [hc] at hcount
  unfold owners connectionsOn at hq ⊢
  unfold connectionsOn at hcount
  simp only [ConnectionRegistry.register]
  omega

theorem Sole.release (h : reg.Sole) (p : String) : (reg.release p).Sole := by
  intro q
  have hq := h q
  have hmarked := marked_erase_le reg.openingPorts p q
  unfold owners connectionsOn at hq ⊢
  simp only [ConnectionRegistry.release]
  omega

theorem Sole.not_closing (h : reg.Sole) (hr : reg.beginClose id = .ok (c, reg')) :
    c.port ∉ reg.closingPorts := by
  have hcount := connectionsOn_beginClose hr c.port
  have hport := h c.port
  rw [if_pos rfl] at hcount
  unfold owners at hport
  exact marked_eq_zero.1 (by omega)

theorem Sole.beginClose (h : reg.Sole) (hr : reg.beginClose id = .ok (c, reg')) : reg'.Sole := by
  intro q
  have hq := h q
  have hcount := connectionsOn_beginClose hr q
  have hmarked := marked_insert (h.not_closing hr) q
  obtain ⟨-, rfl⟩ := beginClose_eq_ok hr
  unfold owners connectionsOn at hq ⊢
  unfold connectionsOn at hcount
  simp only at hcount ⊢
  omega

theorem Sole.endClose (h : reg.Sole) (p : String) : (reg.endClose p).Sole := by
  intro q
  have hq := h q
  have hmarked := marked_erase_le reg.closingPorts p q
  unfold owners connectionsOn at hq ⊢
  simp only [ConnectionRegistry.endClose]
  omega

end

end ConnectionRegistry

/-! ## What a step does -/

namespace Task

/-- The port that a task has reserved. -/
def reserves : Task → Option String
  | opening port => some port
  | opened port _ => some port
  | dropping port => some port
  | cleanup port => some port
  | _ => none

/-- The port that a `close` is shutting down. -/
def shuts : Task → Option String
  | aborting _ c => some c.port
  | closing c => some c.port
  | closed port _ => some port
  | _ => none

/-- The steps by what they do to the registry and to the task's own port. -/
inductive Effect (reg : ConnectionRegistry) :
    Task → Input → ConnectionRegistry → List Task → Prop
  /-- a task that holds no port ends -/
  | ends {t i} (tasks : Finset String) : t.reserves = none → t.shuts = none →
      Effect reg t i { reg with reconnectTasks := tasks } []
  /-- a task goes on with the port it holds; a dropped `close` does not -/
  | goesOn {t t' i} (tasks : Finset String) : t'.reserves = t.reserves → t'.shuts = t.shuts →
      (i = .drop → t.shuts = none) → Effect reg t i { reg with reconnectTasks := tasks } [t']
  | reserve {port reg'} : reg.reserve port = .ok reg' →
      Effect reg (openEntry port) .lock reg' [opening port]
  | register {port c} : Effect reg (opened port (.ok c)) .lock (reg.register port c) []
  | release {t port} : t.reserves = some port → t.shuts = none →
      Effect reg t .lock (reg.release port) []
  | insert {c reg'} : reg.insert c = .ok reg' → Effect reg (insertEntry c) .lock reg' []
  | beginClose {id c reg'} : reg.beginClose id = .ok (c, reg') →
      Effect reg (closeEntry id) .lock reg' [aborting id c]
  | endClose {port r} : Effect reg (closed port r) .lock (reg.endClose port) []
  /-- a `close` is dropped with its port in `closing_ports` -/
  | lost {t port} : t.shuts = some port → t.reserves = none → Effect reg t .drop reg []

theorem step_effect {t : Task} {i : Input} {reg reg' : ConnectionRegistry} {new : List Task}
    (h : t.step i reg = some (reg', new)) : Effect reg t i reg' new := by
  unfold step at h
  split at h
  · split at h
    · cases h
      exact .ends _ rfl rfl
    · next hr =>
      cases h
      exact .reserve hr
  · cases h
    exact .ends _ rfl rfl
  · cases h
    exact .goesOn _ rfl rfl fun _ => rfl
  · split at h
    · cases h
      exact .goesOn _ rfl rfl fun _ => rfl
    · cases h
  · cases h
    exact .goesOn _ rfl rfl fun _ => rfl
  · cases h
    exact .goesOn _ rfl rfl fun _ => rfl
  · cases h
    exact .register
  · cases h
    exact .goesOn _ rfl rfl fun _ => rfl
  · cases h
    exact .release rfl rfl
  · cases h
    exact .goesOn _ rfl rfl fun _ => rfl
  · cases h
    exact .release rfl rfl
  · split at h
    · cases h
      exact .ends _ rfl rfl
    · next hr =>
      cases h
      exact .insert hr
  · cases h
    exact .ends _ rfl rfl
  · split at h
    · cases h
      exact .ends _ rfl rfl
    · next hr =>
      cases h
      exact .beginClose hr
  · cases h
    exact .ends _ rfl rfl
  · cases h
    exact .goesOn _ rfl rfl (by simp)
  · cases h
    exact .goesOn _ rfl rfl (by simp)
  · cases h
    exact .endClose
  · cases h
    exact .lost rfl rfl
  · cases h
    exact .lost rfl rfl
  · cases h
    exact .lost rfl rfl
  · cases h
    exact .ends _ rfl rfl
  · cases h
    exact .ends _ rfl rfl
  · cases h

end Task

/-! ## Runs of a manager -/

namespace Manager

/-- A manager before its first call. -/
def new : Manager := ⟨.empty, []⟩

/-- The calls that may be made. -/
def Starts : Task → Prop
  | .openEntry _ => True
  | .insertEntry _ => True
  | .closeEntry _ => True
  | .reconnecting _ => True
  | _ => False

/-- Every interleaving, with every call dropped at any await. -/
def AnyMove (_ : Manager) : Move Task Input → Prop
  | .start t => Starts t
  | .run _ _ => True

/-- No `close` is dropped behind its first critical section. -/
def ClosesKept (s : Manager) : Move Task Input → Prop
  | .start t => Starts t
  | .run n i => i = .drop → ∀ t ∈ s.tasks[n]?, t.shuts = none

/-- Whether a task holds a port in one of the two ways. -/
def holds (port : Task → Option String) (t : Task) (p : String) : ℕ :=
  if port t = some p then 1 else 0

theorem Starts.holds_nothing {t : Task} (h : Starts t) : t.reserves = none ∧ t.shuts = none := by
  cases t with
  | openEntry _ => exact ⟨rfl, rfl⟩
  | insertEntry _ => exact ⟨rfl, rfl⟩
  | closeEntry _ => exact ⟨rfl, rfl⟩
  | reconnecting _ => exact ⟨rfl, rfl⟩
  | opening _ => exact h.elim
  | opened _ _ => exact h.elim
  | dropping _ => exact h.elim
  | cleanup _ => exact h.elim
  | aborting _ _ => exact h.elim
  | closing _ => exact h.elim
  | closed _ _ => exact h.elim

theorem ClosesKept.anyMove {s : Manager} {m : Move Task Input} (h : ClosesKept s m) :
    AnyMove s m := by
  cases m with
  | start t => exact h
  | run n i => trivial

theorem AnyMove.closesKept {s : Manager} {m : Move Task Input}
    (h : AnyMove s m ∧ ∀ n, m ≠ .run n .drop) : ClosesKept s m := by
  cases m with
  | start t => exact h.1
  | run n i =>
    rintro rfl
    exact absurd rfl (h.2 n)

/-- `opening_ports` are the ports that guards and cleanup tasks hold. -/
def Openings (s : Manager) : Prop :=
  Balanced (holds Task.reserves) (fun reg => marked reg.openingPorts) s

/-- `closing_ports` are the ports of the `close` calls in progress. -/
def Closings (s : Manager) : Prop :=
  Balanced (holds Task.shuts) (fun reg => marked reg.closingPorts) s

/-- `closing_ports` hold at least the ports of the `close` calls in progress. -/
def ClosingsCovered (s : Manager) : Prop :=
  Covered (holds Task.shuts) (fun reg => marked reg.closingPorts) s

/-- What every run keeps up. -/
structure Sound (s : Manager) : Prop where
  openings : Openings s
  covered : ClosingsCovered s
  sole : s.world.Sole

/-- A port that `closing_ports` hold without a `close` in progress. -/
def Wedged (p : String) (s : Manager) : Prop :=
  p ∈ s.world.closingPorts ∧ ∀ t ∈ s.tasks, t.shuts ≠ some p

/-- No `open` and no `close` is executing, and no cleanup task is pending. -/
def Idle (s : Manager) : Prop :=
  ∀ t ∈ s.tasks, (∃ c, t = .insertEntry c) ∨ ∃ id, t = .reconnecting id

section
variable {s s' : Manager} {t : Task} {p : String} {m : Move Task Input}

@[simp] theorem holds_none {port : Task → Option String} (h : port t = none) (p : String) :
    holds port t p = 0 := by
  simp [holds, h]

@[simp] theorem holds_some {port : Task → Option String} {q : String} (h : port t = some q)
    (p : String) : holds port t p = if q = p then 1 else 0 := by
  simp [holds, h]

theorem Openings.mem (h : Openings s) (ht : t ∈ s.tasks) (hp : t.reserves = some p) :
    p ∈ s.world.openingPorts := by
  have hle := h.le ht p
  rw [holds_some hp, if_pos rfl] at hle
  exact marked_eq_one.1 (Nat.le_antisymm (marked_le _ _) hle)

theorem ClosingsCovered.mem (h : ClosingsCovered s) (ht : t ∈ s.tasks) (hp : t.shuts = some p) :
    p ∈ s.world.closingPorts := by
  have hle := (held_le ht p).trans (h p)
  rw [holds_some hp, if_pos rfl] at hle
  exact marked_eq_one.1 (Nat.le_antisymm (marked_le _ _) hle)

/-- **One move keeps the books of `opening_ports`.** -/
theorem Openings.move (h : Openings s) (hm : AnyMove s m) (hs : s.move Task.step m = some s') :
    Openings s' := by
  refine Balanced.move h ?_ ?_ hs
  · rintro t rfl p
    exact holds_none (Starts.holds_nothing hm).1 p
  · intro l t r i reg' new _ htasks hstep p
    have ht : t ∈ s.tasks := by simp [htasks]
    cases Task.step_effect hstep with
    | ends tasks hr _ => simp [hr]
    | goesOn tasks hr _ _ => simp [holds, hr]
    | @reserve port reg' hr =>
      obtain ⟨hfree, rfl⟩ := ConnectionRegistry.reserve_eq_ok hr
      have hmarked := marked_insert (ConnectionRegistry.not_mem_of_free hfree).1 p
      simp only [hmarked]
      simp [holds, Task.reserves]
    | @register port c =>
      have hmarked := marked_erase (h.mem ht rfl) p
      simp only [ConnectionRegistry.register, heldBy_nil, Nat.add_zero, holds, Task.reserves,
        Option.some.injEq]
      exact hmarked
    | @release t port hr _ =>
      have hmarked := marked_erase (h.mem ht hr) p
      simp only [ConnectionRegistry.release, heldBy_nil, Nat.add_zero, holds_some hr]
      exact hmarked
    | insert hr =>
      obtain ⟨-, rfl⟩ := ConnectionRegistry.insert_eq_ok hr
      simp [holds, Task.reserves]
    | beginClose hr =>
      obtain ⟨-, rfl⟩ := ConnectionRegistry.beginClose_eq_ok hr
      simp [holds, Task.reserves]
    | endClose => simp [holds, Task.reserves, ConnectionRegistry.endClose]
    | lost _ hr => simp [hr]

/-- **One move gives no port a second owner.** -/
theorem sole_move (h : Openings s) (hsole : s.world.Sole)
    (hs : s.move Task.step m = some s') : s'.world.Sole := by
  obtain ⟨t, rfl, rfl⟩ | ⟨l, t, r, i, reg', new, rfl, htasks, hstep, rfl⟩ := move_cases hs
  · exact hsole
  · have ht : t ∈ s.tasks := by simp [htasks]
    cases Task.step_effect hstep with
    | ends tasks _ _ => exact hsole
    | goesOn tasks _ _ _ => exact hsole
    | reserve hr => exact hsole.reserve hr
    | @register port c => exact hsole.register c.2 (h.mem ht rfl)
    | release _ _ => exact hsole.release _
    | insert hr => exact hsole.insert hr
    | beginClose hr => exact hsole.beginClose hr
    | endClose => exact hsole.endClose _
    | lost _ _ => exact hsole

/-- What a step takes and gives back of `closing_ports`, unless a `close` is dropped. -/
theorem shuts_step {i : Input} {reg' : ConnectionRegistry} {new : List Task}
    (h : ClosingsCovered s) (hsole : s.world.Sole) (ht : t ∈ s.tasks)
    (hstep : t.step i s.world = some (reg', new)) (hkept : i = .drop → t.shuts = none)
    (p : String) : marked reg'.closingPorts p + holds Task.shuts t p =
      marked s.world.closingPorts p + heldBy (holds Task.shuts) new p := by
  cases Task.step_effect hstep with
  | ends tasks _ hsh => simp [hsh]
  | goesOn tasks _ hsh _ => simp [holds, hsh]
  | reserve hr =>
    obtain ⟨-, rfl⟩ := ConnectionRegistry.reserve_eq_ok hr
    simp [holds, Task.shuts]
  | register => simp [holds, Task.shuts, ConnectionRegistry.register]
  | release _ hsh => simp [hsh, ConnectionRegistry.release]
  | insert hr =>
    obtain ⟨-, rfl⟩ := ConnectionRegistry.insert_eq_ok hr
    simp [holds, Task.shuts]
  | @beginClose id c reg' hr =>
    have hmarked := marked_insert (hsole.not_closing hr) p
    obtain ⟨-, rfl⟩ := ConnectionRegistry.beginClose_eq_ok hr
    simp only [hmarked]
    simp [holds, Task.shuts]
  | @endClose port r =>
    have hmarked := marked_erase (h.mem ht rfl) p
    simp only [ConnectionRegistry.endClose, heldBy_nil, Nat.add_zero, holds, Task.shuts,
      Option.some.injEq]
    exact hmarked
  | lost hsh _ =>
    rw [hkept rfl] at hsh
    cases hsh

theorem ClosingsCovered.move (h : ClosingsCovered s) (hsole : s.world.Sole) (hm : AnyMove s m)
    (hs : s.move Task.step m = some s') : ClosingsCovered s' := by
  refine Covered.move h ?_ ?_ hs
  · rintro t rfl p
    exact holds_none (Starts.holds_nothing hm).2 p
  · intro l t r i reg' new _ htasks hstep p
    by_cases hlost : i = .drop ∧ t.shuts ≠ none
    · -- a `close` is dropped: its port stays booked
      obtain ⟨rfl, hsh⟩ := hlost
      cases Task.step_effect hstep with
      | lost _ _ => simp
      | ends _ _ hsh' => exact absurd hsh' hsh
      | goesOn _ _ hsh' _ => simp [holds, hsh']
    · refine Nat.le_of_eq (shuts_step h hsole (by simp [htasks]) hstep ?_ p).symm
      rintro rfl
      by_contra hsh
      exact hlost ⟨rfl, hsh⟩

/-- **One move keeps the books of `closing_ports`**, unless a `close` is dropped. -/
theorem Closings.move (h : Closings s) (hsole : s.world.Sole) (hm : ClosesKept s m)
    (hs : s.move Task.step m = some s') : Closings s' := by
  have hcov : ClosingsCovered s := fun p => Nat.le_of_eq (h p).symm
  refine Balanced.move h ?_ ?_ hs
  · rintro t rfl p
    exact holds_none (Starts.holds_nothing hm).2 p
  · rintro l t r i reg' new rfl htasks hstep p
    refine shuts_step hcov hsole (by simp [htasks]) hstep ?_ p
    rintro rfl
    exact hm rfl t (by simp [htasks])

/-! ## Whole runs -/

theorem new_sound : Sound Manager.new where
  openings _ := rfl
  covered _ := Nat.le_refl _
  sole _ := Nat.zero_le _

theorem Sound.move (h : Sound s) (hm : AnyMove s m) (hs : s.move Task.step m = some s') :
    Sound s' where
  openings := h.openings.move hm hs
  covered := h.covered.move h.sole hm hs
  sole := sole_move h.openings h.sole hs

theorem Sound.runs (h : Sound s) (hr : Runs Task.step AnyMove s s') : Sound s' :=
  hr.invariant (J := Sound) Sound.move h

/-- As long as no `close` is dropped, the books of `closing_ports` are right. -/
theorem closings_runs (hr : Runs Task.step ClosesKept Manager.new s) : Sound s ∧ Closings s := by
  refine hr.invariant (J := fun s => Sound s ∧ Closings s) ?_ ⟨new_sound, fun _ => rfl⟩
  intro s s' m h hm hs
  exact ⟨h.1.move hm.anyMove hs, h.2.move h.1.sole hm hs⟩

/-- A `close` that is dropped behind its first critical section wedges its port. -/
theorem Sound.wedged {n : ℕ} (h : Sound s) (ht : s.tasks[n]? = some t) (hsh : t.shuts = some p)
    (hs : s.move Task.step (.run n .drop) = some s') : Wedged p s' := by
  obtain ⟨t', hm, -⟩ | ⟨l, t', r, i, reg', new, hm, htasks, hstep, rfl⟩ := move_cases hs
  · cases hm
  · cases hm
    obtain rfl : t' = t := by simpa [htasks] using ht
    have hall : marked s.world.closingPorts p ≤ holds Task.shuts t' p := by
      rw [holds_some hsh, if_pos rfl]
      exact marked_le s.world.closingPorts p
    cases Task.step_effect hstep with
    | ends _ _ hnone =>
      rw [hsh] at hnone
      cases hnone
    | goesOn _ _ _ hnone =>
      rw [hsh] at hnone
      cases hnone rfl
    | lost _ _ =>
      refine ⟨h.covered.mem (by simp [htasks]) hsh, ?_⟩
      intro t₁ ht₁ hsh₁
      rw [List.append_nil] at ht₁
      have hzero := h.covered.alone htasks hall t₁ ht₁
      simp [holds_some hsh₁] at hzero

theorem Wedged.move (h : Wedged p s) (hsound : Sound s) (hm : AnyMove s m)
    (hs : s.move Task.step m = some s') : Wedged p s' := by
  obtain ⟨hp, hnone⟩ := h
  obtain ⟨t, rfl, rfl⟩ | ⟨l, t, r, i, reg', new, rfl, htasks, hstep, rfl⟩ := move_cases hs
  · refine ⟨hp, List.forall_mem_append.2 ⟨hnone, List.forall_mem_singleton.2 ?_⟩⟩
    rw [(Starts.holds_nothing hm).2]
    simp
  · have hkeep (hreg : p ∈ reg'.closingPorts) (hnew : ∀ t' ∈ new, t'.shuts ≠ some p) :
        Wedged p ⟨reg', l ++ new ++ r⟩ :=
      ⟨hreg, forall_replaced htasks hnone (fun _ _ ht' => ht') hnew⟩
    have ht := hnone t (by simp [htasks])
    cases Task.step_effect hstep with
    | ends _ _ _ => exact hkeep hp (by simp)
    | goesOn _ _ hsh _ => exact hkeep hp (by simpa [hsh] using ht)
    | reserve hr =>
      obtain ⟨-, rfl⟩ := ConnectionRegistry.reserve_eq_ok hr
      exact hkeep hp (by simp [Task.shuts])
    | register => exact hkeep hp (by simp)
    | release _ _ => exact hkeep hp (by simp)
    | insert hr =>
      obtain ⟨-, rfl⟩ := ConnectionRegistry.insert_eq_ok hr
      exact hkeep hp (by simp)
    | @beginClose id c reg' hr =>
      have hc : c.port ≠ p := by
        rintro rfl
        exact hsound.sole.not_closing hr hp
      obtain ⟨-, rfl⟩ := ConnectionRegistry.beginClose_eq_ok hr
      exact hkeep (Finset.mem_insert_of_mem hp) (by simp [Task.shuts, hc])
    | @endClose port r =>
      have hport : p ≠ port := by
        rintro rfl
        exact ht rfl
      exact hkeep (Finset.mem_erase_of_ne_of_mem hport hp) (by simp)
    | lost _ _ => exact hkeep hp (by simp)

theorem Wedged.runs (h : Wedged p s) (hsound : Sound s) (hr : Runs Task.step AnyMove s s') :
    Wedged p s' ∧ Sound s' := by
  refine hr.invariant (J := fun s => Wedged p s ∧ Sound s) ?_ ⟨h, hsound⟩
  intro s s' m h hm hs
  exact ⟨h.1.move h.2 hm hs, h.2.move hm hs⟩

theorem Wedged.refused (h : Wedged p s) (hsound : Sound s) :
    s.world.reserve p = .error (.portAlreadyOpening p) := by
  have hmarked := marked_eq_one.2 h.1
  have hsole := hsound.sole p
  have hzero : s.world.connectionsOn p = 0 := by
    unfold ConnectionRegistry.owners at hsole
    omega
  simp [ConnectionRegistry.reserve, ConnectionRegistry.checkPort,
    ConnectionRegistry.connectionsOn_eq_zero.1 hzero, h.1, Except.map]

theorem eq_empty_of_balanced {port : Task → Option String} {ports : ConnectionRegistry → Finset String}
    (h : Balanced (holds port) (fun reg => marked (ports reg)) s)
    (hnone : ∀ t ∈ s.tasks, port t = none) : ports s.world = ∅ := by
  ext p
  have hzero : heldBy (holds port) s.tasks p = 0 := by
    rw [heldBy_eq_zero]
    intro t ht
    exact holds_none (hnone t ht) p
  have hp : marked (ports s.world) p = 0 := (h p).trans hzero
  simp [marked_eq_zero.1 hp]

theorem Idle.holds_nothing (h : Idle s) (ht : t ∈ s.tasks) :
    t.reserves = none ∧ t.shuts = none := by
  rcases h t ht with ⟨c, rfl⟩ | ⟨id, rfl⟩
  · exact ⟨rfl, rfl⟩
  · exact ⟨rfl, rfl⟩

/-- **One owner per port.** In every run, with any number of calls in progress
    and each of them dropped at any await, every port has at most one owner;
    and a cleanup task gives back no other reservation than its own. -/
theorem single_owner (h : Runs Task.step AnyMove Manager.new s) :
    (∀ p, s.world.connectionsOn p + (if p ∈ s.world.openingPorts then 1 else 0) +
      (if p ∈ s.world.closingPorts then 1 else 0) ≤ 1) ∧
    ∀ n p s', s.tasks[n]? = some (.cleanup p) → s.move Task.step (.run n .lock) = some s' →
      s'.world.openingPorts = s.world.openingPorts.erase p ∧
        ∀ t ∈ s'.tasks, ∀ q, t.reserves = some q → q ≠ p ∧ q ∈ s'.world.openingPorts := by
  have hsound := new_sound.runs h
  refine ⟨hsound.sole, ?_⟩
  intro n p s' ht hs
  have hsound' := hsound.move (m := .run n .lock) trivial hs
  have herase : s'.world.openingPorts = s.world.openingPorts.erase p := by
    simp only [State.move, ht, Option.bind_some, Task.step, Option.map_some,
      Option.some.injEq] at hs
    rw [← hs]
    rfl
  refine ⟨herase, ?_⟩
  intro t ht' q hq
  have hmem := hsound'.openings.mem ht' hq
  refine ⟨?_, hmem⟩
  rw [herase] at hmem
  exact Finset.ne_of_mem_erase hmem

/-- An `open` dropped while the lock is taken, and another one on its way. -/
theorem single_owner_cleanup : ∃ s s' : Manager,
    s.tasks = [.cleanup "a", .opening "b"] ∧
      s.move Task.step (.run 0 .lock) = some s' ∧ "b" ∈ s'.world.openingPorts := by
  obtain ⟨ms, s, hmoves, hplay, htasks⟩ : ∃ ms s, (∀ m ∈ ms, AnyMove Manager.new m) ∧
      Manager.new.play Task.step ms = some s ∧ s.tasks = [.cleanup "a", .opening "b"] :=
    ⟨[.start (.openEntry "a"), .run 0 .lock, .run 0 .drop, .run 0 .contended,
      .start (.openEntry "b"), .run 1 .lock], _, by simp [AnyMove, Starts], rfl, rfl⟩
  obtain ⟨s', hs⟩ : ∃ s', s.move Task.step (.run 0 .lock) = some s' := by
    simp [State.move, htasks, Task.step]
  have hrun : Runs Task.step AnyMove Manager.new s :=
    Runs.of_play (D := AnyMove Manager.new) hmoves hplay
  refine ⟨s, s', htasks, hs, ?_⟩
  have hkept := ((single_owner hrun).2 0 "a" s' (by simp [htasks]) hs).2
  have hmem : Task.opening "b" ∈ s'.tasks := by
    simp only [State.move, htasks, Task.step] at hs
    cases hs
    simp
  exact (hkept _ hmem "b" rfl).2

/-- **No port is wedged, as long as no `close` is dropped.** In every run in
    which no `close` is dropped behind its first critical section, an idle
    manager has no port in `opening_ports` or `closing_ports`, and a port without a
    connection can be opened.  A `close` that is dropped there wedges its port:
    in every later state, every `open` of it is refused. -/
theorem no_port_wedged (s : Manager) :
    (Runs Task.step ClosesKept Manager.new s → Idle s →
      s.world.openingPorts = ∅ ∧ s.world.closingPorts = ∅ ∧
        ∀ p, s.world.connectionsOn p = 0 → ∃ reg, s.world.reserve p = .ok reg) ∧
    (Runs Task.step AnyMove Manager.new s → ∀ n t p s' s'', s.tasks[n]? = some t →
      t.shuts = some p → s.move Task.step (.run n .drop) = some s' →
      Runs Task.step AnyMove s' s'' →
        p ∈ s''.world.closingPorts ∧ s''.world.reserve p = .error (.portAlreadyOpening p)) := by
  constructor
  · intro h hidle
    obtain ⟨hsound, hclosings⟩ := closings_runs h
    have hopening : s.world.openingPorts = ∅ :=
      eq_empty_of_balanced hsound.openings fun t ht => (hidle.holds_nothing ht).1
    have hclosing : s.world.closingPorts = ∅ :=
      eq_empty_of_balanced hclosings fun t ht => (hidle.holds_nothing ht).2
    refine ⟨hopening, hclosing, ?_⟩
    intro p hp
    have hfree : s.world.checkPort p = .ok () := by
      rw [ConnectionRegistry.checkPort_eq_ok, ConnectionRegistry.owners, hp, hopening, hclosing]
      rfl
    exact ⟨_, by rw [ConnectionRegistry.reserve, hfree]; rfl⟩
  · intro h n t p s' s'' ht hsh hs h'
    have hsound := new_sound.runs h
    have hwedged := hsound.wedged ht hsh hs
    obtain ⟨hwedged', hsound'⟩ := hwedged.runs (hsound.move (m := .run n .drop) trivial hs) h'
    exact ⟨hwedged'.1, hwedged'.refused hsound'⟩

/-- A `close` that fails in the hardware, and one that is dropped there. -/
theorem no_port_wedged_close : ∃ s s' : Manager,
    s.tasks = [] ∧ (∃ reg, s.world.reserve "a" = .ok reg) ∧
      s'.tasks = [] ∧ s'.world.reserve "a" = .error (.portAlreadyOpening "a") := by
  obtain ⟨ms, s₀, hmoves, hplay, htasks, ⟨s, hend, hidle, hfree⟩, s', hdrop, hidle'⟩ : ∃ ms s₀,
      (∀ m ∈ ms, AnyMove Manager.new m ∧ ∀ n, m ≠ .run n .drop) ∧
        Manager.new.play Task.step ms = some s₀ ∧ s₀.tasks[0]? = some (.closing ⟨"1", "a", none⟩) ∧
        (∃ s, s₀.play Task.step [.run 0 (.hardware (.error (.backend "io"))), .run 0 .lock] = some s ∧
          s.tasks = [] ∧ s.world.connectionsOn "a" = 0) ∧
        ∃ s', s₀.move Task.step (.run 0 .drop) = some s' ∧ s'.tasks = [] :=
    ⟨[.start (.insertEntry ⟨"1", "a", none⟩), .run 0 .lock, .start (.closeEntry "1"),
      .run 0 .lock, .run 0 .lock], _, by simp [AnyMove, Starts], rfl, rfl, ⟨_, rfl, rfl, rfl⟩,
      _, rfl, rfl⟩
  have hrun := Runs.of_play hmoves hplay
  have hrun' := hrun.trans (Runs.of_play (by simp [AnyMove]) hend)
  have hopen := (no_port_wedged s).1 (hrun'.mono AnyMove.closesKept) (by simp [Idle, hidle])
  have hwedged := (no_port_wedged s₀).2 (hrun.mono And.left) 0 _ "a" s' s' htasks rfl hdrop .refl
  exact ⟨s, s', hidle, hopen.2.2 "a" hfree, hidle', hwedged.2⟩

/-- A `close` that is dropped while the hardware shuts down. -/
theorem port_wedged : ¬ ∀ s, Runs Task.step AnyMove Manager.new s → Idle s →
    s.world.openingPorts = ∅ ∧ s.world.closingPorts = ∅ := by
  intro h
  obtain ⟨ms, s, hmoves, hplay, htasks, hclosing⟩ : ∃ ms s,
      (∀ m ∈ ms, AnyMove Manager.new m) ∧ Manager.new.play Task.step ms = some s ∧
        s.tasks = [] ∧ s.world.closingPorts = {"a"} :=
    ⟨[.start (.insertEntry ⟨"1", "a", none⟩), .run 0 .lock, .start (.closeEntry "1"),
      .run 0 .lock, .run 0 .lock, .run 0 .drop], _, by simp [AnyMove, Starts], rfl, rfl, rfl⟩
  have hrun : Runs Task.step AnyMove Manager.new s :=
    Runs.of_play (D := AnyMove Manager.new) hmoves hplay
  have hidle : Idle s := by
    intro t ht
    rw [htasks] at ht
    cases ht
  have hempty := (h s hrun hidle).2
  rw [hclosing] at hempty
  exact Finset.singleton_ne_empty "a" hempty

end

end Manager

end SerialMcp.Registry
