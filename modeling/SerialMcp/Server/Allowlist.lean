/-
  The port allowlist (`security.rs`) over the calls that open, close and reconnect
  connections, one after another.  Only an open is checked: `reconnect` asks for the
  port of its connection without a look at the allowlist.

  * `fromPatterns`: the patterns of a `SecurityManager`;
  * `reconnect`: the tool, for a connection in any state;
  * `ClientCall.guarded`: the same call, where the operating system refuses every port
    outside of the allowlist;
  * `ClientCall.run_guarded`: a call does not tell them apart, if all connections are
    on ports that are allowed;
  * `allowlist_holds`: nor does a session of calls, and all its connections are on
    ports that the allowlist allows.
-/
import SerialMcp.Read.World
import SerialMcp.Server.Close

namespace SerialMcp.Open

open Registry (ConnectionRegistry SerialConnection SerialError)

/-- `SecurityManager::from_patterns`: what is not a glob is left out, with a warning. -/
def fromPatterns (valid : String → Bool) (patterns : List String) : List String :=
  patterns.filter valid

/-! ## Reconnects -/

/-- What a reconnect finds outside of the handler. -/
structure Reconnecting where
  /-- the state of the connection when it is looked at -/
  state : ConnectionState
  live : LiveSettings
  portInfo : Option PortInfo
  /-- `build_stream`: it asks the operating system for the port -/
  buildStream : ConnectionConfig → Except SerialError Unit

/-- `ReconnectResult` -/
structure ReconnectResult where
  connectionId : String
  name : Option String
  port : String
  state : ConnectionState
  deriving DecidableEq, Repr

/-- `SerialConnection::reconnect`, where nothing comes between its steps; without an error it
    leaves the connection open. -/
def reconnectPort (r : Reconnecting) (c : SerialConnection) : Except SerialError Unit :=
  match r.state with
  | .opened => .ok ()
  | .closed => .error (.backend ("Connection closed: " ++ c.name.getD c.id))
  | .disconnected | .reconnecting => r.buildStream (r.live.buildConfig c.port r.portInfo)

/-- `reconnect` -/
def reconnect (r : Reconnecting) (h : Handler) (id : String) : Except String ReconnectResult :=
  match h.registry.connections.lookup id with
  | none => .error ("Connection ID " ++ id ++ " not found")
  | some c => match reconnectPort r c with
    | .error e => .error ("Reconnect failed: " ++ errorText e)
    | .ok () => .ok { connectionId := id, name := c.name, port := c.port, state := .opened }

/-! ## Sessions -/

/-- A call of a client. -/
inductive ClientCall where
  | open (env : Env) (request : Request)
  | close (closing : Closing) (id : String) (live : LiveSettings)
  | reconnect (r : Reconnecting) (id : String)

inductive Reply where
  | opened (result : Except String OpenResult)
  | closed (result : Except String CloseResult)
  | reconnected (result : Except String ReconnectResult)
  deriving DecidableEq

def ClientCall.run (h : Handler) : ClientCall → Reply × Handler
  | .open env request =>
    let (result, h) := request.run env h
    (.opened result, h)
  | .close c id live =>
    let (result, h) := Open.close c h id live
    (.closed result, h)
  | .reconnect r id => (.reconnected (Open.reconnect r h id), h)

/-- The calls one after another. -/
def runCalls : List ClientCall → Handler → List Reply × Handler
  | [], h => ([], h)
  | call :: calls, h =>
    let (reply, h) := call.run h
    let (replies, h) := runCalls calls h
    (reply :: replies, h)

/-- The server has this allowlist. -/
def ClientCall.Under (glob : String → String → Bool) (allowlist : List String) : ClientCall → Prop
  | .open env _ => env.glob = glob ∧ env.allowlist = allowlist
  | .close .. | .reconnect .. => True

/-- Every connection is on a port with the property. -/
def Handler.OnPorts (P : String → Prop) (h : Handler) : Prop :=
  ∀ id c, h.registry.connections.lookup id = some c → P c.port

/-! ## An operating system that refuses other ports -/

/-- An opener that refuses every other port. -/
def Env.guarded (allowed : String → Bool) (refusal : ConnectionConfig → SerialError) (env : Env) :
    Env :=
  { env with
    opener := fun config =>
      if allowed config.port then env.opener config else .error (refusal config) }

def Reconnecting.guarded (allowed : String → Bool) (refusal : ConnectionConfig → SerialError)
    (r : Reconnecting) : Reconnecting :=
  { r with
    buildStream := fun config =>
      if allowed config.port then r.buildStream config else .error (refusal config) }

/-- The same call, where every other port is refused. -/
def ClientCall.guarded (allowed : String → Bool) (refusal : ConnectionConfig → SerialError) :
    ClientCall → ClientCall
  | .open env request => .open (env.guarded allowed refusal) request
  | .close c id live => .close c id live
  | .reconnect r id => .reconnect (r.guarded allowed refusal) id

section
variable {env : Env} {h h' : Handler} {p : Planned} {resolved : ResolvedOpenSettings}
  {dirty : Option Bool} {refusal : ConnectionConfig → SerialError} {P : String → Prop}
  {reg reg' : ConnectionRegistry} {config : ConnectionConfig} {glob : String → String → Bool}
  {valid : String → Bool} {patterns allowlist : List String} {allowed : String → Bool}
  {calls : List ClientCall}

/-! ## Calls -/

theorem openSettings_allowed (hs : openSettings env p = .ok (resolved, dirty)) :
    env.isPortAllowed resolved.port = true := by
  have hport := (openSettings_eq_ok hs).1
  unfold openSettings at hs
  split_ifs at hs with hallowed
  rw [hport]
  simpa using hallowed

/-- **An open does not ask the opener** for a port outside of the allowlist. -/
theorem Request.run_guarded (refusal : ConnectionConfig → SerialError)
    (hallowed : ∀ port, env.isPortAllowed port = true → allowed port = true) (h : Handler)
    (r : Request) : r.run (env.guarded allowed refusal) h = r.run env h := by
  have hplan : r.plan (env.guarded allowed refusal) h = r.plan env h := by
    cases r <;> rfl
  rw [Request.run, Request.run, hplan]
  rcases r.plan env h with e | p
  · rfl
  · have hsettings : openSettings (env.guarded allowed refusal) p = openSettings env p := rfl
    show openConnection (env.guarded allowed refusal) h p = openConnection env h p
    rw [openConnection, openConnection, hsettings]
    rcases hs : openSettings env p with e | ⟨resolved, dirty⟩
    · rfl
    · have hopener : (env.guarded allowed refusal).opener
          (resolved.intoConnectionConfig p.portInfo) =
            env.opener (resolved.intoConnectionConfig p.portInfo) :=
        if_pos (hallowed _ (openSettings_allowed hs))
      have hopen : openPort (env.guarded allowed refusal) h.registry
          (resolved.intoConnectionConfig p.portInfo) =
            openPort env h.registry (resolved.intoConnectionConfig p.portInfo) := by
        rw [openPort, openPort, hopener]
      dsimp only
      rw [hopen]
      rfl

/-- **A reconnect asks for the port of its connection**, and for no other. -/
theorem reconnect_guarded (refusal : ConnectionConfig → SerialError)
    (hh : h.OnPorts fun port => allowed port = true) (r : Reconnecting) (id : String) :
    reconnect (r.guarded allowed refusal) h id = reconnect r h id := by
  rw [reconnect, reconnect]
  rcases hlookup : h.registry.connections.lookup id with _ | c
  · rfl
  · have hport : reconnectPort (r.guarded allowed refusal) c = reconnectPort r c := by
      have hbuild : (r.guarded allowed refusal).buildStream (r.live.buildConfig c.port r.portInfo) =
          r.buildStream (r.live.buildConfig c.port r.portInfo) := if_pos (hh id c hlookup)
      rw [reconnectPort, reconnectPort, ← hbuild]
      rfl
    dsimp only
    rw [hport]

theorem ClientCall.run_guarded (refusal : ConnectionConfig → SerialError)
    (hh : h.OnPorts fun port => allows glob allowlist port = true) {call : ClientCall}
    (hcall : call.Under glob allowlist) :
    (call.guarded (allows glob allowlist) refusal).run h = call.run h := by
  cases call with
  | «open» env request =>
    obtain ⟨rfl, rfl⟩ := hcall
    have hsame : request.run (env.guarded (allows env.glob env.allowlist) refusal) h =
        request.run env h := Request.run_guarded refusal (fun _ hport => hport) h request
    rw [guarded, run, run, hsame]
  | close c id live => rfl
  | reconnect r id => rw [guarded, run, run, reconnect_guarded refusal hh]

/-- What an open of a port makes of the connections. -/
theorem openPort_connections {result : Except SerialError String}
    (hrun : openPort env reg config = (result, reg')) : reg'.connections = reg.connections ∨
      ∃ c : SerialConnection, c.port = config.port ∧
        reg'.connections = reg.connections.insert c.id c := by
  cases result with
  | error e =>
    rw [openPort_eq_error hrun]
    exact .inl rfl
  | ok id =>
    obtain ⟨-, c, -, -, rfl⟩ := openPort_eq_ok.1 hrun
    exact .inr ⟨c.1, c.2, rfl⟩

theorem finishOpen_registry (env : Env) (h : Handler) (p : Planned)
    (resolved : ResolvedOpenSettings) (dirty : Option Bool) (id : String) :
    (finishOpen env h p resolved dirty id).2.registry = h.registry := by
  unfold finishOpen
  split
  · rfl
  · dsimp only
    split <;> rfl

/-- The registry behind a call is that of the call's open of a port, if there is one. -/
theorem openConnection_registry {result : Except String OpenResult}
    (hrun : openConnection env h p = (result, h')) : h'.registry = h.registry ∨
      ∃ resolved dirty opened, openSettings env p = .ok (resolved, dirty) ∧
        openPort env h.registry (resolved.intoConnectionConfig p.portInfo) =
          (opened, h'.registry) := by
  unfold openConnection at hrun
  split at hrun
  · cases hrun
    exact .inl rfl
  · next resolved dirty hsettings =>
    refine .inr ⟨resolved, dirty, ?_⟩
    split at hrun
    · next hopen =>
      cases hrun
      exact ⟨_, hsettings, hopen⟩
    · next id registry hopen =>
      split at hrun
      · cases hrun
        exact ⟨_, hsettings, hopen⟩
      · split at hrun
        · cases hrun
          exact ⟨_, hsettings, hopen⟩
        · next rx _ =>
          have hregistry : h'.registry = registry :=
            (congrArg (fun r => r.2.registry) hrun).symm.trans (finishOpen_registry ..)
          exact ⟨_, hsettings, hregistry ▸ hopen⟩

/-- **A call adds a connection** on a port that is allowed, if any. -/
theorem Request.run_connections (env : Env) (h : Handler) (r : Request) :
    (r.run env h).2.registry.connections = h.registry.connections ∨
      ∃ c : SerialConnection, env.isPortAllowed c.port = true ∧
        (r.run env h).2.registry.connections = h.registry.connections.insert c.id c := by
  rw [Request.run]
  rcases r.plan env h with e | p
  · exact .inl rfl
  · show (openConnection env h p).2.registry.connections = _ ∨ _
    have hrun : openConnection env h p =
        ((openConnection env h p).1, (openConnection env h p).2) := rfl
    rcases openConnection_registry hrun with hsame | ⟨resolved, dirty, opened, hsettings, hopen⟩
    · exact .inl (congrArg _ hsame)
    · rcases openPort_connections hopen with hsame | ⟨c, hport, hinsert⟩
      · exact .inl hsame
      · refine .inr ⟨c, ?_, hinsert⟩
        rw [hport]
        exact openSettings_allowed hsettings

theorem close_connections (c : Closing) (h : Handler) (id : String) (live : LiveSettings) :
    (Open.close c h id live).2.registry.connections = h.registry.connections ∨
      (Open.close c h id live).2.registry.connections = h.registry.connections.erase id := by
  have hclose : (closePort h.registry c.hardware id).2.connections = h.registry.connections ∨
      (closePort h.registry c.hardware id).2.connections = h.registry.connections.erase id := by
    rw [closePort]
    rcases hbegin : h.registry.beginClose id with e | ⟨connection, reg⟩
    · exact .inl rfl
    · obtain ⟨-, rfl⟩ := ConnectionRegistry.beginClose_eq_ok hbegin
      exact .inr rfl
  unfold Open.close
  split
  · exact .inl rfl
  · split
    · next hport =>
      rwa [hport] at hclose
    · next hport =>
      rw [hport] at hclose
      dsimp only
      split <;> exact hclose

theorem ClientCall.run_onPorts {call : ClientCall} (hcall : call.Under glob allowlist)
    (hh : h.OnPorts fun port => allows glob allowlist port = true) :
    (call.run h).2.OnPorts fun port => allows glob allowlist port = true := by
  intro id c hc
  cases call with
  | «open» env request =>
    obtain ⟨rfl, rfl⟩ := hcall
    change (request.run env h).2.registry.connections.lookup id = some c at hc
    rcases request.run_connections env h with hsame | ⟨c', hallowed, hinsert⟩
    · exact hh id c (hsame ▸ hc)
    · rw [hinsert] at hc
      by_cases hid : id = c'.id
      · rw [hid, AList.lookup_insert] at hc
        obtain rfl := Option.some.inj hc
        exact hallowed
      · rw [AList.lookup_insert_ne hid] at hc
        exact hh id c hc
  | close closing id' live =>
    change (Open.close closing h id' live).2.registry.connections.lookup id = some c at hc
    rcases close_connections closing h id' live with hsame | herase
    · exact hh id c (hsame ▸ hc)
    · rw [herase] at hc
      by_cases hid : id = id'
      · rw [hid, AList.lookup_erase] at hc
        cases hc
      · rw [AList.lookup_erase_ne hid] at hc
        exact hh id c hc
  | reconnect r id' => exact hh id c hc

/-! ## The allowlist -/

/-- **Sessions** stay on allowed ports, and ask for no other. -/
theorem runCalls_allowed (refusal : ConnectionConfig → SerialError)
    (hcalls : ∀ call ∈ calls, call.Under glob allowlist)
    (hh : h.OnPorts fun port => allows glob allowlist port = true) :
    ((runCalls calls h).2.OnPorts fun port => allows glob allowlist port = true) ∧
      runCalls (calls.map (ClientCall.guarded (allows glob allowlist) refusal)) h =
        runCalls calls h := by
  induction calls generalizing h with
  | nil => exact ⟨hh, rfl⟩
  | cons call calls ih =>
    rw [List.forall_mem_cons] at hcalls
    obtain ⟨hports, hsame⟩ := ih hcalls.2 (call.run_onPorts hcalls.1 hh)
    refine ⟨hports, ?_⟩
    rw [List.map_cons, runCalls, runCalls, ClientCall.run_guarded refusal hh hcalls.1]
    dsimp only
    rw [hsame]

theorem allows_fromPatterns {port : String} :
    allows glob (fromPatterns valid patterns) port = true ↔
      (∀ p ∈ patterns, valid p = false) ∨ ∃ p ∈ patterns, valid p = true ∧ glob p port = true := by
  simp [allows, fromPatterns, List.filter_eq_nil_iff]

/-- **The allowlist holds** for any calls with any live ports, devices, profiles and failures:
    every connection is on a port that some valid pattern matches, or no pattern is
    valid; and all replies and all that is stored are the same if the operating system
    refuses every other port, so it is never asked for one, by a reconnect neither. -/
theorem allowlist_holds (hcalls : ∀ call ∈ calls, call.Under glob (fromPatterns valid patterns))
    (hnew : h.registry.connections = ∅) :
    ((runCalls calls h).2.OnPorts fun port => (∀ p ∈ patterns, valid p = false) ∨
      ∃ p ∈ patterns, valid p = true ∧ glob p port = true) ∧
    ∀ refusal, runCalls (calls.map
      (ClientCall.guarded (allows glob (fromPatterns valid patterns)) refusal)) h =
        runCalls calls h := by
  have hh : h.OnPorts fun port => allows glob (fromPatterns valid patterns) port = true := by
    intro id c hc
    rw [hnew] at hc
    cases hc
  constructor
  · intro id c hc
    exact allows_fromPatterns.1 ((runCalls_allowed (fun _ => .backend "") hcalls hh).1 id c hc)
  · intro refusal
    exact (runCalls_allowed refusal hcalls hh).2

end

/-- The settings of a connection that was opened with the defaults. -/
def boardSettings : LiveSettings :=
  ⟨none, 115200, .eight, .one, .none, .none, ⟨1024, true⟩, {}, none, none, none, none, 32768, 1048576⟩

/-- The bare `open` of the board and of another port, on a server with one valid pattern, and
    a reconnect of the board. -/
def boardCalls : List ClientCall :=
  let env : Env := { Env.opens with
    glob := fun pattern port => pattern = "/dev/ttyUSB*" && port.startsWith "/dev/ttyUSB"
    allowlist := fromPatterns (· ≠ "[invalid") ["[invalid", "/dev/ttyUSB*"]
    listAvailable := .ok [board] }
  [.open env (.open { port := "/dev/ttyUSB0", settings := {}, profileMode := some .none }),
    .open env (.open { port := "/dev/ttyS0", settings := {}, profileMode := some .none }),
    .reconnect ⟨.disconnected, boardSettings, some board, fun _ => .ok ()⟩ "c"]

theorem allowlist_holds_board :
    (runCalls boardCalls .new).2.registry.connections.entries =
      [⟨"c", "c", "/dev/ttyUSB0", none⟩] ∧
    (runCalls boardCalls .new).1.getLast? =
      some (.reconnected (.ok ⟨"c", none, "/dev/ttyUSB0", .opened⟩)) ∧
    ∀ refusal, runCalls (boardCalls.map (ClientCall.guarded
      (allows (fun pattern port => pattern = "/dev/ttyUSB*" && port.startsWith "/dev/ttyUSB")
        (fromPatterns (· ≠ "[invalid") ["[invalid", "/dev/ttyUSB*"])) refusal)) .new =
      runCalls boardCalls .new := by
  have hcalls : ∀ call ∈ boardCalls, call.Under
      (fun pattern port => pattern = "/dev/ttyUSB*" && port.startsWith "/dev/ttyUSB")
      (fromPatterns (· ≠ "[invalid") ["[invalid", "/dev/ttyUSB*"]) := by
    simp [boardCalls, ClientCall.Under]
  have hholds := allowlist_holds hcalls (h := .new) rfl
  exact ⟨by decide +kernel, by decide +kernel, hholds.2⟩

end SerialMcp.Open
