/-
  The tools that work on profiles (`tools/port_ops.rs`): `open`, `open_profile`,
  `close`, `configure`, `reconfigure`, `save_profile`, `delete_profile` and
  `rollback_profile`, on the connections of one server and one call at a time.

  * `Desk`: the handler, and the connections that it has opened;
  * `Call.run`: a call.
-/
import SerialMcp.Profile.Learning
import SerialMcp.Server.LineSettings

namespace SerialMcp.ProfileTools

open Open ProfileStore
open Learning (Origin markRolledBack)
open Line (Setting)

/-! ## A server and its connections -/

/-- `SerialConnection`, with the identity of its port. -/
structure Connection where
  device : Line.SerialConnection
  portInfo : Option PortInfo

/-- A connection that was opened with these settings. -/
def Connection.opened (id : String) (resolved : ResolvedOpenSettings)
    (portInfo : Option PortInfo) : Connection where
  device := { Line.SerialConnection.opened id (resolved.intoConnectionConfig portInfo) with
    settings := .opened resolved portInfo }
  portInfo

/-- The handler, and the connections that it has opened, by their id. -/
structure Desk where
  handler : Handler
  live : String → Option Connection
  /-- the stored settings behind the open of a connection, or that its last learn wrote -/
  origin : String → Option Origin

namespace Desk

/-- No connection, and some stored profiles. -/
def new (profiles : List Profile) : Desk where
  handler := { Handler.new with profiles }
  live _ := none
  origin _ := none

/-- The stored profiles. -/
def profiles (d : Desk) : List Profile := d.handler.profiles

/-- The connection is in the registry. -/
def registered (d : Desk) (id : String) : Bool :=
  (d.handler.registry.connections.lookup id).isSome

/-- Other profiles are stored. -/
def store (d : Desk) (profiles : List Profile) : Desk :=
  { d with handler := { d.handler with profiles } }

/-- A connection has other settings. -/
def put (d : Desk) (id : String) (c : Connection) : Desk :=
  let policy := c.device.settings.reconnectPolicy
  { d with
    handler := { d.handler with
      reconnectPolicy := Function.update d.handler.reconnectPolicy id policy }
    live := Function.update d.live id (some c) }

@[simp] theorem put_live (d : Desk) (id : String) (c : Connection) :
    (d.put id c).live = Function.update d.live id (some c) := rfl

/-- `lookup_connection` -/
def lookupConnection (d : Desk) (id : String) : Except String Connection :=
  match d.registered id, d.live id with
  | true, some c => .ok c
  | _, _ => .error ("Connection ID " ++ id ++ " not found")

/-- `learn` -/
def learn (d : Desk) (now : ℕ) (io : Option String) (operation : ProfilePersistenceOperation)
    (id : String) (c : Connection) :
    (Option ActiveProfileBinding × ProfilePersistenceResult) × Desk :=
  match d.handler.binding id with
  | none => ((none, { state := .transient, operation }), d)
  | some binding =>
    let (session, persistence, profiles) :=
      Open.learn d.handler.profiles now io operation binding c.device.settings.effectiveDefaults
    ((some session, persistence),
      { d with
        handler := { d.handler with
          profiles, binding := Function.update d.handler.binding id (some session) }
        origin := if persistence.state = .persisted then
          Function.update d.origin id ((get profiles binding.profileName).map .of) else d.origin })

/-! ## The calls -/

/-- `open` or `open_profile`, with the connection that it registers, if any. -/
def openWith (d : Desk) (env : Env) (r : Request) : Except String OpenResult × Desk :=
  let (result, handler) := r.run env d.handler
  let isNew (id : String) : Bool :=
    (handler.registry.connections.lookup id).isSome && !d.registered id
  let settings := (r.plan env d.handler).toOption.bind fun p =>
    (openSettings env p).toOption.map fun (resolved, _) => (resolved, p.portInfo)
  (result,
    { handler
      live := fun id =>
        if isNew id then settings.map fun (resolved, portInfo) => .opened id resolved portInfo
        else d.live id
      origin := fun id =>
        if isNew id then
          (handler.binding id).bind fun b => (get handler.profiles b.profileName).map .of
        else d.origin id })

/-- `open` -/
def «open» (d : Desk) (env : Env) (args : OpenArgs) : Except String OpenResult × Desk :=
  d.openWith env (.open args)

/-- `open_profile` -/
def openProfile (d : Desk) (env : Env) (args : OpenProfileArgs) :
    Except String OpenResult × Desk :=
  d.openWith env (.openProfile (get d.profiles args.profile) args)

/-- `close` -/
def close (d : Desk) (c : Closing) (id : String) : Except String CloseResult × Desk :=
  match d.lookupConnection id with
  | .error e => (.error e, d)
  | .ok connection =>
    let (result, handler) := Open.close c d.handler id connection.device.settings
    let device := { connection.device with closed := true, io := false }
    (result, { d with handler }.put id { connection with device })

end Desk

/-- `ConfigureArgs` -/
structure ConfigureArgs where
  profile : Option String
  connectionId : Option String
  overwrite : Bool
  defaults : ProfileDefaults

/-- `ConfigureResult` -/
structure ConfigureResult where
  mode : String
  defaults : ProfileDefaults
  created : Option Bool := none
  profile : Option ActiveProfileBinding := none
  profilePersistence : Option ProfilePersistenceResult := none

/-- The settings that `configure` changes on a connection. -/
def configured (s : LiveSettings) (defaults : ProfileDefaults) : LiveSettings :=
  { s with
    txFramingDefault := defaults.txFraming
    rxFramingDefault := defaults.rxFraming
    rxParserDefault := defaults.rxParser
    protocolDefault := defaults.protocol
    reconnectPolicy := defaults.reconnectPolicy
    maxBufferedBytesDefault := defaults.maxBufferedBytes }

/-- `ReconfigureArgs` -/
structure ReconfigureArgs where
  connectionId : String
  baudRate : Option ℕ
  dataBits : Option String
  stopBits : Option String
  parity : Option String
  flowControl : Option String

/-- A setting that is parsed, if it is given. -/
def parseOption {β : Type} (parse : String → Except String β) :
    Option String → Except String (Option β)
  | none => .ok none
  | some s => (parse s).map some

/-- The settings that are asked for, or the first one that is invalid. -/
def ReconfigureArgs.parse (args : ReconfigureArgs) : Except String Line.ReconfigureArgs := do
  let dataBits ← parseOption DataBits.fromStr args.dataBits
  let stopBits ← parseOption StopBits.fromStr args.stopBits
  let parity ← parseOption Parity.fromStr args.parity
  let flowControl ← parseOption FlowControl.fromStr args.flowControl
  return { baudRate := args.baudRate, dataBits, stopBits, parity, flowControl }

/-- `ReconfigureResult`, as far as its settings and its profile go. -/
structure ReconfigureResult where
  status : Line.ConnectionStatus
  profile : Option ActiveProfileBinding
  profilePersistence : Option ProfilePersistenceResult

/-- `SerialError` of a port that is set, as a text; the one of an I/O error is given. -/
def settingErrorText (io : Setting → String) : Line.SerialError → String
  | .connectionClosed name => "Connection closed: " ++ name
  | .invalidBaudRate rate => "Invalid baud rate: " ++ toString rate
  | .ioError of => "I/O error: " ++ io of

/-- What a port does about its setters. -/
structure Port where
  fails : Setting → Bool
  ioError : Setting → String

/-- `SaveProfileArgs` -/
structure SaveProfileArgs where
  connectionId : String
  profileName : String
  overwrite : Bool

/-- `SaveProfileResult` -/
structure SaveProfileResult where
  name : String
  selector : ProfileSelector
  defaults : ProfileDefaults
  created : Bool
  deriving DecidableEq, Repr

/-- The selector that `save_profile` takes from a port. -/
def savedSelector (info : PortInfo) : ProfileSelector where
  vid := info.vid
  pid := info.pid
  serialNumber := info.serialNumber
  manufacturer := info.manufacturer
  product := info.product
  interface := info.interface
  transport := some info.transport.toString
  hardwareId := info.hardwareId

/-- `ProfileMetadata::default` -/
def defaultMetadata : ProfileMetadata := ⟨false, 0, none, none, none, 0⟩

/-- The profile that `save_profile` takes from a connection. -/
def savedProfile (name : String) (info : PortInfo) (settings : LiveSettings) : Profile where
  name
  selector := savedSelector info
  defaults := settings.effectiveDefaults
  metadata := defaultMetadata
  revisions := []

/-- `RollbackProfileArgs` -/
structure RollbackProfileArgs where
  profileName : String
  revision : ℕ
  expectedRevision : ℕ

/-- `RollbackProfileResult` -/
structure RollbackProfileResult where
  profileName : String
  restoredFromRevision : ℕ
  previousRevision : ℕ
  revision : ℕ
  selector : ProfileSelector
  defaults : ProfileDefaults
  metadata : ProfileMetadata
  activeConnectionsUnchanged : ℕ
  persistence : ProfilePersistenceResult

namespace Desk

/-- `configure` -/
def configure (d : Desk) (now : ℕ) (io : Option String) (args : ConfigureArgs) :
    Except String ConfigureResult × Desk :=
  match args.profile, args.connectionId with
  | some _, some _ =>
    (.error "configure: provide exactly one of `profile` or `connection_id`, not both", d)
  | none, none => (.error "configure: provide exactly one of `profile` or `connection_id`", d)
  | some name, none =>
    match runMutation d.profiles io
      (applyUpdateDefaults d.profiles name args.defaults args.overwrite now) with
    | (.error e, profiles) => (.error e, d.store profiles)
    | (.ok (created, profile), profiles) =>
      (.ok { mode := "profile", defaults := profile.defaults, created := some created },
        d.store profiles)
  | none, some id => match d.lookupConnection id with
    | .error e => (.error e, d)
    | .ok c =>
      let device := { c.device with settings := configured c.device.settings args.defaults }
      let c := { c with device }
      let ((profile, persistence), d) := (d.put id c).learn now io .learned id c
      (.ok { mode := "connection", defaults := args.defaults, profile
             profilePersistence := some persistence }, d)

/-- `reconfigure` -/
def reconfigure (d : Desk) (now : ℕ) (io : Option String) (port : Port)
    (args : ReconfigureArgs) : Except String ReconfigureResult × Desk :=
  match d.lookupConnection args.connectionId with
  | .error e => (.error e, d)
  | .ok c => match args.parse with
    | .error e => (.error e, d)
    | .ok settings => match c.device.reconfigure settings port.fails with
      | (.error e, device) =>
        (.error (logToolErr ("Failed to reconfigure connection " ++ args.connectionId)
          (settingErrorText port.ioError e)), d.put args.connectionId { c with device })
      | (.ok status, device) =>
        let c := { c with device }
        let ((profile, persistence), d) :=
          (d.put args.connectionId c).learn now io .learned args.connectionId c
        (.ok { status, profile, profilePersistence := some persistence }, d)

/-- `save_profile` -/
def saveProfile (d : Desk) (now : ℕ) (io : Option String) (args : SaveProfileArgs) :
    Except String SaveProfileResult × Desk :=
  match d.lookupConnection args.connectionId with
  | .error e => (.error e, d)
  | .ok c => match c.portInfo with
    | none => (.error ("No port identity available for " ++ args.connectionId), d)
    | some info =>
      let profile := savedProfile args.profileName info c.device.settings
      match runMutation d.profiles io (applyUpsert d.profiles profile args.overwrite now) with
      | (.error e, profiles) => (.error e, d.store profiles)
      | (.ok created, profiles) =>
        (.ok ⟨profile.name, profile.selector, profile.defaults, created⟩, d.store profiles)

/-- The connections that are bound to a profile, in some order. -/
def boundTo (d : Desk) (name : String) : List String :=
  d.handler.registry.connections.keys.filter fun id =>
    (d.handler.binding id).any fun b => b.persistent && b.profileName = name

/-- `delete_profile` -/
def deleteProfile (d : Desk) (io : Option String) (profileName : String) :
    Except String Unit × Desk :=
  match d.boundTo profileName with
  | [] =>
    let (result, profiles) := runMutation d.profiles io (applyDelete d.profiles profileName)
    (result, d.store profiles)
  | bound => (.error ("Cannot delete profile '" ++ profileName ++
      "': bound to open connection(s) " ++ ", ".intercalate bound), d)

/-- `rollback_profile` -/
def rollbackProfile (d : Desk) (now : ℕ) (io : Option String) (args : RollbackProfileArgs) :
    Except String RollbackProfileResult × Desk :=
  match runMutation d.profiles io
    (rollback d.profiles args.profileName args.expectedRevision args.revision now) with
  | (.error e, profiles) => (.error e, d.store profiles)
  | (.ok rolledBack, profiles) =>
    let binding (id : String) : Option ActiveProfileBinding :=
      if d.registered id then
        (d.handler.binding id).map (markRolledBack args.profileName args.revision)
      else d.handler.binding id
    (.ok
      { profileName := args.profileName
        restoredFromRevision := args.revision
        previousRevision := args.expectedRevision
        revision := rolledBack.metadata.revision
        selector := rolledBack.selector
        defaults := rolledBack.defaults
        metadata := rolledBack.metadata
        activeConnectionsUnchanged := (d.boundTo args.profileName).length
        persistence :=
          { state := .persisted
            operation := .rollback
            profileName := some rolledBack.name
            revision := some rolledBack.metadata.revision } },
      { d with handler := { d.handler with profiles, binding } })

end Desk

/-- A call, with what it finds outside of the server. -/
inductive Call where
  | open (env : Env) (args : OpenArgs)
  | openProfile (env : Env) (args : OpenProfileArgs)
  | close (closing : Closing) (id : String)
  | configure (now : ℕ) (io : Option String) (args : ConfigureArgs)
  | reconfigure (now : ℕ) (io : Option String) (port : Port) (args : ReconfigureArgs)
  | saveProfile (now : ℕ) (io : Option String) (args : SaveProfileArgs)
  | deleteProfile (io : Option String) (profileName : String)
  | rollbackProfile (now : ℕ) (io : Option String) (args : RollbackProfileArgs)

/-- The server after a call. -/
def Call.run (d : Desk) : Call → Desk
  | .open env args => (d.open env args).2
  | .openProfile env args => (d.openProfile env args).2
  | .close closing id => (d.close closing id).2
  | .configure now io args => (d.configure now io args).2
  | .reconfigure now io port args => (d.reconfigure now io port args).2
  | .saveProfile now io args => (d.saveProfile now io args).2
  | .deleteProfile io profileName => (d.deleteProfile io profileName).2
  | .rollbackProfile now io args => (d.rollbackProfile now io args).2

/-- The ids of the connections that it opens are new. -/
def Call.Fresh (d : Desk) : Call → Prop
  | .open env _ | .openProfile env _ =>
    ∀ config c, env.opener config = .ok c → d.live c.1.id = none
  | _ => True

/-- The call is asked to write the profile of a name. -/
def Call.Writes (n : String) : Call → Prop
  | .configure _ _ args => args.profile = some n ∧ args.overwrite = true
  | .saveProfile _ _ args => args.profileName = n ∧ args.overwrite = true
  | .deleteProfile _ profileName => profileName = n
  | .rollbackProfile _ _ args => args.profileName = n
  | _ => False

/-- The request of an open. -/
def Call.request (d : Desk) : Call → Option (Env × Request)
  | .open env args => some (env, .open args)
  | .openProfile env args => some (env, .openProfile (get d.profiles args.profile) args)
  | _ => none

/-- The call opens a connection with the settings of a profile. -/
def Call.Selects (d : Desk) (p : Profile) (call : Call) : Prop :=
  ∃ env r planned, call.request d = some (env, r) ∧ r.plan env d.handler = .ok planned ∧
    planned.plan.profile = some p

/-- The connection that a call is about. -/
def Call.connection : Call → Option String
  | .close _ id => some id
  | .configure _ _ args => args.connectionId
  | .reconfigure _ _ _ args => some args.connectionId
  | _ => none

/-- Some calls one after another, each with a property. -/
inductive Calls (P : Desk → Call → Prop) (d : Desk) : List Call → Desk → Prop
  | nil : Calls P d [] d
  | snoc {calls : List Call} {d' : Desk} {call : Call} (h : Calls P d calls d')
      (hcall : P d' call) : Calls P d (calls ++ [call]) (call.run d')

end SerialMcp.ProfileTools
