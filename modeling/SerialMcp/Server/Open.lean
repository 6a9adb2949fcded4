/-
  `open` and `open_profile` (`tools/port_ops.rs`), one call at a time: a plan, the
  checks of its settings, the hardware open, the RX session, the binding, and what
  the binding has to learn.

  * `Request.run`: a call on a handler;
  * `open_unchanged_iff`: a call that fails leaves connections, reservations,
    sessions, budget and profiles as they were, exactly if it is not one whose
    ring is refused behind an open of the hardware.
-/
import SerialMcp.Profile.Session
import SerialMcp.Server.Sessions
import SerialMcp.Server.Settings

namespace SerialMcp.Open

open ProfileStore
open Registry (ConnectionRegistry SerialConnection SerialError findConnectionByPort)
open Server (RxSessionManager defaultLimits)

/-! ## The handler and its surroundings -/

/-- `SerialHandler`, with what an open changes. -/
structure Handler where
  registry : ConnectionRegistry
  rx : RxSessionManager
  /-- the stored profiles -/
  profiles : List Profile
  reconnectPolicy : String → ReconnectPolicy
  binding : String → Option ActiveProfileBinding

/-- What a call finds outside of the handler. -/
structure Env where
  /-- whether a pattern is a glob that matches a text -/
  glob : String → String → Bool
  /-- the patterns of the `SecurityManager` -/
  allowlist : List String
  listAvailable : Except String (List PortInfo)
  /-- it opens the port that it is asked for -/
  opener : (config : ConnectionConfig) →
    Except SerialError {c : SerialConnection // c.port = config.port}
  now : ℕ
  /-- I/O failures of the store, when it is read, at the binding and at the learning -/
  readIo : Option String
  bindIo : Option String
  learnIo : Option String

/-- Whether the patterns of a `SecurityManager` allow a port. -/
def allows (glob : String → String → Bool) (allowlist : List String) (port : String) : Bool :=
  allowlist.isEmpty || allowlist.any (glob · port)

/-- `is_port_allowed` -/
def Env.isPortAllowed (env : Env) (port : String) : Bool := allows env.glob env.allowlist port

/-- `allowlist_summary` -/
def Env.allowlistSummary (env : Env) : String :=
  if env.allowlist.isEmpty then "(all ports allowed)" else ", ".intercalate env.allowlist

/-- `format_port_owner` -/
def formatPortOwner : Option String → Option String → String
  | some id, some name => " (owned by " ++ id ++ ", name=" ++ debugStr name ++ ")"
  | some id, none => " (owned by " ++ id ++ ")"
  | none, some name => " (name=" ++ debugStr name ++ ")"
  | none, none => ""

/-- `SerialError` as a text -/
def errorText : SerialError → String
  | .portAlreadyOpen port connectionId name =>
    "Port already open: " ++ port ++ formatPortOwner connectionId name
  | .portAlreadyOpening port => "Port already opening: " ++ port
  | .connectionNotFound id => "Connection not found: " ++ id
  | .backend text => text

/-- `log_tool_err` -/
def logToolErr (context err : String) : String := context ++ " - " ++ err

/-! ## The plan -/

/-- `OpenArgs`, with its settings as an overlay. -/
structure OpenArgs where
  port : String
  settings : OpenOverlay
  profileMode : Option ProfileMode

/-- `OpenProfileArgs` -/
structure OpenProfileArgs where
  profile : String
  name : Option String
  logCapacity : Option ℕ
  logEnabled : Option Bool
  rxBufferSize : Option ℕ

inductive Request where
  | open (args : OpenArgs)
  /-- with the profile that the store has under the name -/
  | openProfile (profile : Option Profile) (args : OpenProfileArgs)

/-- What goes into `open_connection`. -/
structure Planned where
  port : String
  overlay : OpenOverlay
  profileDefaults : Option ProfileDefaults
  portInfo : Option PortInfo
  plan : SessionPlan

/-- `open` up to `open_connection` -/
def planOpen (env : Env) (h : Handler) (args : OpenArgs) : Except String Planned := do
  let livePorts ← env.listAvailable.mapError (logToolErr "Failed to list ports")
  let portInfo := livePorts.find? (·.name = args.port)
  let fresh : Except String (List Profile) := match env.readIo with
    | some e => .error e
    | none => .ok h.profiles
  let plan ← planSession env.glob fresh args.profileMode portInfo livePorts
  let profileDefaults := match plan with
    | .selected profile => some profile.defaults
    | _ => none
  return { port := args.port, overlay := args.settings, profileDefaults, portInfo, plan }

/-- `open_profile` up to `open_connection` -/
def planOpenProfile (env : Env) (profile : Option Profile) (args : OpenProfileArgs) :
    Except String Planned :=
  match profile with
  | none => .error (notFound args.profile)
  | some profile => match env.listAvailable with
    | .error e => .error (logToolErr "Failed to list ports" e)
    | .ok ports =>
      match ports.filter (profile.matchesPort env.glob) with
      | [] => .error ("No port matches profile '" ++ args.profile ++ "' selector: " ++
          profile.selector.debug)
      | [port] => .ok
        { port := port.name
          overlay :=
            { name := args.name
              logCapacity := args.logCapacity
              logEnabled := args.logEnabled
              rxBufferSize := args.rxBufferSize }
          profileDefaults := some profile.defaults
          portInfo := some port
          plan := .explicit profile }
      | matched => .error ("Profile '" ++ args.profile ++ "' selector matches " ++
          toString matched.length ++ " live ports (" ++
          ", ".intercalate (matched.map PortInfo.name) ++ ") — refusing to choose. " ++
          "Narrow the selector so exactly one port matches.")

def Request.plan (env : Env) (h : Handler) : Request → Except String Planned
  | .open args => planOpen env h args
  | .openProfile profile args => planOpenProfile env profile args

/-! ## The open -/

/-- `profile_only_differs` -/
def profileOnlyDiffers (resolved : ResolvedOpenSettings) (profile : Profile) :
    Except String Bool :=
  (ResolvedOpenSettings.fromProfile resolved.port profile).map fun only => !resolved.eq only

/-- `open_connection` before the hardware: the settings, and whether they differ from
    those of the profile. -/
def openSettings (env : Env) (p : Planned) :
    Except String (ResolvedOpenSettings × Option Bool) :=
  if !env.isPortAllowed p.port then
    .error ("Port '" ++ p.port ++ "' is not in the allowlist. Allowed patterns: " ++
      env.allowlistSummary)
  else do
    let resolved ← ResolvedOpenSettings.resolve p.port p.overlay p.profileDefaults
    match p.plan.profile with
    | none => return (resolved, none)
    | some profile =>
      let dirty ← profileOnlyDiffers resolved profile
      return (resolved, some dirty)

/-- `ConnectionManager::open` -/
def openPort (env : Env) (reg : ConnectionRegistry) (config : ConnectionConfig) :
    Except SerialError String × ConnectionRegistry :=
  match reg.reserve config.port with
  | .error e => (.error e, reg)
  | .ok reserved => match env.opener config with
    | .error e => (.error e, reserved.release config.port)
    | .ok c => (.ok c.1.id, reserved.register config.port c)

/-- `learn` in an open, where nothing else changes the binding. -/
def learn (profiles : List Profile) (now : ℕ) (io : Option String)
    (operation : ProfilePersistenceOperation) (binding : ActiveProfileBinding)
    (defaults : ProfileDefaults) :
    ActiveProfileBinding × ProfilePersistenceResult × List Profile :=
  match learnStart operation (some binding) with
  | .ends result update => (update binding, result, profiles)
  | .stores b =>
    let (outcome, next) := learnStore profiles now io b defaults
    let (result, update) := learnEnd operation b outcome
    (update binding, result, next)

/-- `OpenResult` -/
structure OpenResult where
  connectionId : String
  name : Option String
  port : String
  baudRate : ℕ
  profile : ActiveProfileBinding
  profilePersistence : Option ProfilePersistenceResult
  deriving DecidableEq, Repr

/-- `open_connection` behind the RX session -/
def finishOpen (env : Env) (h : Handler) (p : Planned) (resolved : ResolvedOpenSettings)
    (dirty : Option Bool) (id : String) : Except String OpenResult × Handler :=
  match attachSessionBinding h.profiles env.now env.bindIo p.plan resolved.asProfileDefaults
    p.portInfo dirty with
  | (.error e, profiles) => (.error e, { h with profiles })
  | (.ok binding, profiles) =>
    let result (session : ActiveProfileBinding) (persistence : Option ProfilePersistenceResult) :
        OpenResult :=
      { connectionId := id
        name := resolved.name
        port := resolved.port
        baudRate := resolved.baudRate
        profile := session
        profilePersistence := persistence }
    if binding.dirty then
      -- the effective defaults of a connection that was just opened
      let (session, persistence, profiles) :=
        learn profiles env.now env.learnIo .openOverride binding resolved.asProfileDefaults
      (.ok (result session persistence),
        { h with profiles, binding := Function.update h.binding id (some session) })
    else (.ok (result binding none),
      { h with profiles, binding := Function.update h.binding id (some binding) })

/-- `open_connection` -/
def openConnection (env : Env) (h : Handler) (p : Planned) : Except String OpenResult × Handler :=
  match openSettings env p with
  | .error e => (.error e, h)
  | .ok (resolved, dirty) =>
    match openPort env h.registry (resolved.intoConnectionConfig p.portInfo) with
    | (.error e, registry) =>
      (.error (logToolErr ("Failed to open port " ++ p.port) (errorText e)), { h with registry })
    | (.ok id, registry) => match registry.connections.lookup id with
      | none =>
        (.error (logToolErr ("Failed to access opened connection " ++ id)
          (errorText (.connectionNotFound id))), { h with registry })
      | some connection =>
        let reconnectPolicy :=
          Function.update h.reconnectPolicy connection.id resolved.reconnectPolicy
        match h.rx.getOrCreate connection.id resolved.rxBufferSize with
        | .error e =>
          (.error (logToolErr "Failed to create RX session" e),
            { h with registry, reconnectPolicy })
        | .ok rx => finishOpen env { h with registry, reconnectPolicy, rx } p resolved dirty id

/-- A call. -/
def Request.run (env : Env) (h : Handler) (r : Request) : Except String OpenResult × Handler :=
  match r.plan env h with
  | .error e => (.error e, h)
  | .ok p => openConnection env h p

/-! ## What a call leaves behind -/

/-- The connections, reservations, sessions, budget and profiles are the same. -/
structure Unchanged (h h' : Handler) : Prop where
  connections : h'.registry.connections = h.registry.connections
  openingPorts : h'.registry.openingPorts = h.registry.openingPorts
  sessions : h'.rx.sessions = h.rx.sessions
  available : h'.rx.budget.available = h.rx.budget.available
  profiles : h'.profiles = h.profiles

/-- An open whose hardware opens, for which there is then no ring. -/
def Planned.RingRefused (env : Env) (h : Handler) (p : Planned) : Prop :=
  ∃ resolved dirty c, openSettings env p = .ok (resolved, dirty) ∧
    h.registry.checkPort resolved.port = .ok () ∧
    env.opener (resolved.intoConnectionConfig p.portInfo) = .ok c ∧ c.1.id ∉ h.rx.sessions ∧
    (h.rx.budget.limits.toolLimit < resolved.rxBufferSize ∨
      h.rx.budget.available < resolved.rxBufferSize)

/-- A call that comes to such an open. -/
def Request.RingRefused (env : Env) (h : Handler) (r : Request) : Prop :=
  ∃ p, r.plan env h = .ok p ∧ p.RingRefused env h

section
variable {env : Env} {h h' : Handler} {p : Planned} {r : Request} {e : String}
variable {reg reg' : ConnectionRegistry} {config : ConnectionConfig}
variable {resolved : ResolvedOpenSettings} {dirty : Option Bool}

theorem Unchanged.refl (h : Handler) : Unchanged h h := ⟨rfl, rfl, rfl, rfl, rfl⟩

/-- A reservation that is given back leaves the registry as it was. -/
theorem release_reserve {port : String} (h : reg.reserve port = .ok reg') :
    reg'.release port = reg := by
  obtain ⟨hfree, rfl⟩ := ConnectionRegistry.reserve_eq_ok h
  have hopening := (ConnectionRegistry.not_mem_of_free hfree).1
  simp only [ConnectionRegistry.release, Finset.erase_insert hopening]

theorem openPort_eq_error {err : SerialError} (h : openPort env reg config = (.error err, reg')) :
    reg' = reg := by
  unfold openPort at h
  split at h
  · cases h
    rfl
  · next reserved hreserve =>
    split at h
    · cases h
      exact release_reserve hreserve
    · cases h

/-- **An open of the hardware** registers a connection on a port that had no owner. -/
theorem openPort_eq_ok {id : String} : openPort env reg config = (.ok id, reg') ↔
    reg.checkPort config.port = .ok () ∧ ∃ c, env.opener config = .ok c ∧ id = c.1.id ∧
      reg' = { reg with connections := reg.connections.insert c.1.id c.1 } := by
  rcases hcheck : reg.checkPort config.port with err | _
  · simp [openPort, ConnectionRegistry.reserve, hcheck, Except.map]
  · have hopening :=
      (ConnectionRegistry.not_mem_of_free (ConnectionRegistry.checkPort_eq_ok.1 hcheck)).1
    rcases hopener : env.opener config with err | c
    · simp [openPort, ConnectionRegistry.reserve, hcheck, Except.map, hopener]
    · simp [openPort, ConnectionRegistry.reserve, hcheck, Except.map, hopener,
        ConnectionRegistry.register, Finset.erase_insert hopening, eq_comm]

theorem connections_insert_ne {c : SerialConnection} (h : reg.checkPort c.port = .ok ()) :
    reg.connections.insert c.id c ≠ reg.connections := by
  intro heq
  have hfree := ConnectionRegistry.checkPort_eq_ok.1 h
  have hnone : findConnectionByPort reg.connections c.port = none :=
    ConnectionRegistry.connectionsOn_eq_zero.1 (by unfold ConnectionRegistry.owners at hfree; omega)
  have hmem : ⟨c.id, c⟩ ∈ (reg.connections.insert c.id c).entries := by
    simp [AList.entries_insert]
  rw [heq] at hmem
  have hport := List.find?_eq_none.1 hnone c (List.mem_map_of_mem (f := Sigma.snd) hmem)
  simp at hport

theorem openSettings_eq_ok (h : openSettings env p = .ok (resolved, dirty)) :
    resolved.port = p.port ∧ 0 < resolved.rxBufferSize := by
  unfold openSettings at h
  split_ifs at h with hallowed
  obtain ⟨settings, hsettings, h⟩ := Except.bind_eq_ok h
  obtain ⟨hport, hpos, -⟩ := ResolvedOpenSettings.resolve_ring hsettings
  split at h
  · cases h
    exact ⟨hport, hpos⟩
  · obtain ⟨differs, -, h⟩ := Except.bind_eq_ok h
    cases h
    exact ⟨hport, hpos⟩

/-- A plan generates a profile only for a port with an identity. -/
theorem Request.plan_generate (h : r.plan env h' = .ok p) (hp : p.plan = .generate) :
    p.portInfo.bind canonicalHighSelector ≠ none := by
  cases r with
  | «open» args =>
    obtain ⟨livePorts, -, h⟩ := Except.bind_eq_ok h
    obtain ⟨plan, hplan, h⟩ := Except.bind_eq_ok h
    cases h
    obtain rfl : plan = .generate := hp
    exact planSession_generate hplan
  | openProfile profile args =>
    simp only [Request.plan, planOpenProfile] at h
    split at h
    · cases h
    · split at h
      · cases h
      · split at h
        · cases h
        · cases h
          cases hp
        · cases h

theorem finishOpen_eq_error {id : String}
    (h : finishOpen env h p resolved dirty id = (.error e, h')) :
    p.plan = .generate ∧ p.portInfo.bind canonicalHighSelector = none := by
  unfold finishOpen at h
  split at h
  · next hattach => exact attachSessionBinding_eq_error hattach
  · dsimp only at h
    split at h
    · cases h
    · cases h

/-- **An open that fails** changes nothing, is one that is refused its ring, or has to
    generate a profile for a port without an identity. -/
theorem openConnection_eq_error (hrun : openConnection env h p = (.error e, h')) :
    Unchanged h h' ∨ p.RingRefused env h ∨
      p.plan = .generate ∧ p.portInfo.bind canonicalHighSelector = none := by
  unfold openConnection at hrun
  split at hrun
  · cases hrun
    exact .inl (.refl h)
  · next resolved dirty hsettings =>
    obtain ⟨-, hpos⟩ := openSettings_eq_ok hsettings
    split at hrun
    · next err registry hopen =>
      cases hrun
      obtain rfl := openPort_eq_error hopen
      exact .inl (.refl h)
    · next id registry hopen =>
      obtain ⟨hcheck, c, hc, rfl, rfl⟩ := openPort_eq_ok.1 hopen
      simp only [AList.lookup_insert] at hrun
      split at hrun
      · next err hrx =>
        obtain ⟨hmem, hring⟩ := (RxSessionManager.getOrCreate_eq_error hpos).1 ⟨err, hrx⟩
        exact .inr (.inl ⟨resolved, dirty, c, hsettings, hcheck, hc, hmem, hring⟩)
      · exact .inr (.inr (finishOpen_eq_error hrun))

/-- **A ring that is refused** makes the call fail behind the open of the hardware,
    and all that it leaves behind is the connection. -/
theorem openConnection_ringRefused (hring : p.RingRefused env h) : ∃ e h',
    openConnection env h p = (.error e, h') ∧
      h'.registry.connections ≠ h.registry.connections ∧
      h'.registry.openingPorts = h.registry.openingPorts ∧ h'.rx = h.rx ∧
      h'.profiles = h.profiles := by
  obtain ⟨resolved, dirty, c, hsettings, hcheck, hc, hmem, hsize⟩ := hring
  obtain ⟨-, hpos⟩ := openSettings_eq_ok hsettings
  have hopen : openPort env h.registry (resolved.intoConnectionConfig p.portInfo) =
      (.ok c.1.id, { h.registry with connections := h.registry.connections.insert c.1.id c.1 }) :=
    openPort_eq_ok.2 ⟨hcheck, c, hc, rfl, rfl⟩
  obtain ⟨err, hrx⟩ := (RxSessionManager.getOrCreate_eq_error hpos).2 ⟨hmem, hsize⟩
  have hport : c.1.port = resolved.port := c.2
  simp only [openConnection, hsettings, hopen, AList.lookup_insert, hrx]
  exact ⟨_, _, rfl, connections_insert_ne (hport ▸ hcheck), rfl, rfl, rfl⟩

/-- **A call that fails leaves nothing behind** exactly if it is not one whose
    hardware opens while the ring does not fit into the limit of a tool or into what
    is left of the budget: the ring is reserved behind the open, and nothing closes
    the connection again. -/
theorem open_unchanged_iff (env : Env) (h : Handler) (r : Request) :
    (∀ e h', r.run env h = (.error e, h') → Unchanged h h') ↔ ¬ r.RingRefused env h := by
  constructor
  · rintro hall ⟨p, hplan, hring⟩
    obtain ⟨e, h', hrun, hne, -⟩ := openConnection_ringRefused hring
    refine hne (hall e h' ?_).connections
    simp only [Request.run, hplan, hrun]
  · intro hring e h' hrun
    rcases hplan : r.plan env h with err | p
    · simp only [Request.run, hplan] at hrun
      cases hrun
      exact .refl h
    · simp only [Request.run, hplan] at hrun
      obtain hsame | hrefused | ⟨hgenerate, hnone⟩ := openConnection_eq_error hrun
      · exact hsame
      · exact absurd ⟨p, hplan, hrefused⟩ hring
      · exact absurd hnone (Request.plan_generate hplan hgenerate)

end

/-- A handler with the default limits. -/
def Handler.new : Handler where
  registry := .empty
  rx := .new defaultLimits
  profiles := []
  reconnectPolicy _ := {}
  binding _ := none

/-- Every port is allowed, and every port opens. -/
def Env.opens : Env where
  glob _ _ := false
  allowlist := []
  listAvailable := .ok []
  opener config := .ok ⟨⟨"c", config.port, config.name⟩, rfl⟩
  now := 0
  readIo := none
  bindIo := none
  learnIo := none

/-- A ring of 2 MiB is asked for. -/
def openLarge : Request :=
  .open
    { port := "/dev/ttyUSB0"
      settings := { rxBufferSize := some 2097152 }
      profileMode := some .none }

/-- **A ring that is too large for a tool**: it is within the 16 MiB that an open may
    ask for, so the port opens; it is above the limit of 1 MiB, so the call fails, and
    the port stays open. -/
theorem connection_left_behind :
    (openLarge.run .opens .new).1 = .error ("Failed to create RX session - " ++
        "open.rx_buffer_size=2097152 exceeds per-tool limit 1048576") ∧
      Handler.new.registry.connections.entries = [] ∧
      (openLarge.run .opens .new).2.registry.connections.entries =
        [⟨"c", "c", "/dev/ttyUSB0", none⟩] ∧
      ¬Unchanged .new (openLarge.run .opens .new).2 := by
  have hleft : (openLarge.run .opens .new).2.registry.connections.entries =
      [⟨"c", "c", "/dev/ttyUSB0", none⟩] := by decide +kernel
  refine ⟨by decide +kernel, rfl, hleft, fun hsame => ?_⟩
  rw [hsame.connections] at hleft
  cases hleft

end SerialMcp.Open
