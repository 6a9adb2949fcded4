/-
  `close` (`tools/port_ops.rs`), and a connection that is opened and closed again
  without a change (`serial/connection.rs`, `learning.rs`).

  * `LiveSettings.effectiveDefaults_of_opened`: the live settings of a connection
    are turned back into the defaults that its open resolved;
  * `Cycle.run`: an open and a close;
  * `cycle_settled_iff`: the profile stays as it is exactly if its defaults have no
    name, are in lower case and have a number as backoff, and then any number of
    such cycles changes nothing but the use of profiles.
-/
import SerialMcp.Server.Open

namespace SerialMcp.Open

open ProfileStore
open Registry (ConnectionRegistry SerialConnection SerialError)

/-! ## Live settings -/

/-- `LogBuffer`, with what it is configured to. -/
structure LogBuffer where
  capacity : ℕ
  enabled : Bool

/-- The settings of a `SerialConnection`. -/
structure LiveSettings where
  name : Option String
  baudRate : ℕ
  dataBits : DataBits
  stopBits : StopBits
  parity : Parity
  flowControl : FlowControl
  log : LogBuffer
  reconnectPolicy : ReconnectPolicy
  txFramingDefault : Option TxFramingConfig
  rxFramingDefault : Option RxFramingConfig
  rxParserDefault : Option ParserConfig
  protocolDefault : Option ProtocolPreset
  maxBufferedBytesDefault : ℕ
  rxBufferSize : ℕ

namespace LiveSettings

/-- `from_io_with_config` -/
def fromIoWithConfig (config : ConnectionConfig) : LiveSettings where
  name := config.name
  baudRate := config.baudRate
  dataBits := config.dataBits
  stopBits := config.stopBits
  parity := config.parity
  flowControl := config.flowControl
  log := ⟨config.logCapacity, config.logEnabled⟩
  reconnectPolicy := {}
  txFramingDefault := config.txFraming
  rxFramingDefault := config.rxFraming
  rxParserDefault := config.rxParser
  protocolDefault := config.protocol
  maxBufferedBytesDefault := config.maxBufferedBytes
  rxBufferSize := config.rxBufferSize

/-- `build_config`, for a reconnect to the port. -/
def buildConfig (s : LiveSettings) (port : String) (portInfo : Option PortInfo) :
    ConnectionConfig where
  port
  name := s.name
  baudRate := s.baudRate
  dataBits := s.dataBits
  stopBits := s.stopBits
  parity := s.parity
  flowControl := s.flowControl
  portInfo
  logCapacity := 1024
  logEnabled := s.log.enabled
  txFraming := s.txFramingDefault
  rxFraming := s.rxFramingDefault
  rxParser := s.rxParserDefault
  protocol := s.protocolDefault
  rxBufferSize := s.rxBufferSize
  maxBufferedBytes := s.maxBufferedBytesDefault

/-- `effective_defaults` -/
def effectiveDefaults (s : LiveSettings) : ProfileDefaults where
  baudRate := s.baudRate
  dataBits := dataBitsToStr s.dataBits
  stopBits := stopBitsToStr s.stopBits
  parity := parityToStr s.parity
  flowControl := flowControlToStr s.flowControl
  name := s.name
  txFraming := s.txFramingDefault
  rxFraming := s.rxFramingDefault
  rxParser := s.rxParserDefault
  protocol := s.protocolDefault
  rxBufferSize := s.rxBufferSize
  maxBufferedBytes := s.maxBufferedBytesDefault
  reconnectPolicy := s.reconnectPolicy
  logCapacity := s.log.capacity
  logEnabled := s.log.enabled

/-- The settings of a connection that was opened: `open_connection` sets the policy. -/
def opened (resolved : ResolvedOpenSettings) (portInfo : Option PortInfo) : LiveSettings :=
  { fromIoWithConfig (resolved.intoConnectionConfig portInfo) with
    reconnectPolicy := resolved.reconnectPolicy }

/-- **The two conversions agree**: what is read off a connection that was opened is
    what its open resolved. -/
theorem effectiveDefaults_of_opened (resolved : ResolvedOpenSettings)
    (portInfo : Option PortInfo) :
    (opened resolved portInfo).effectiveDefaults = resolved.asProfileDefaults := rfl

end LiveSettings

/-! ## The close -/

/-- What a close finds outside of the handler. -/
structure Closing where
  /-- the result of `SerialConnection::close` -/
  hardware : Except SerialError Unit
  now : ℕ
  /-- an I/O failure of the store -/
  io : Option String

/-- `CloseResult` -/
structure CloseResult where
  connectionId : String
  name : Option String
  profile : Option ActiveProfileBinding
  profilePersistence : ProfilePersistenceResult
  deriving DecidableEq, Repr

/-- `ConnectionManager::close`, where nothing comes between its critical sections. -/
def closePort (reg : ConnectionRegistry) (hardware : Except SerialError Unit) (id : String) :
    Except SerialError Unit × ConnectionRegistry :=
  match reg.beginClose id with
  | .error e => (.error e, reg)
  | .ok (c, reg) => (hardware, (reg.abortReconnect id).endClose c.port)

/-- `close` of a connection with the settings `live` -/
def close (c : Closing) (h : Handler) (id : String) (live : LiveSettings) :
    Except String CloseResult × Handler :=
  match h.registry.connections.lookup id with
  | none => (.error ("Connection ID " ++ id ++ " not found"), h)
  | some _ => match closePort h.registry c.hardware id with
    | (.error e, registry) =>
      (.error (logToolErr ("Failed to close connection " ++ id) (errorText e)),
        { h with registry })
    | (.ok (), registry) =>
      let result (profile : Option ActiveProfileBinding)
          (profilePersistence : ProfilePersistenceResult) : CloseResult :=
        { connectionId := id, name := live.name, profile, profilePersistence }
      match h.binding id with
      | none =>
        (.ok (result none { state := .transient, operation := .closeSnapshot }),
          { h with registry })
      | some binding =>
        let (session, persistence, profiles) :=
          learn h.profiles c.now c.io .closeSnapshot binding live.effectiveDefaults
        (.ok (result (some session) persistence),
          { h with
            registry, profiles
            binding := Function.update h.binding id (some session) })

/-! ## Cycles -/

/-- An open and a close of the connection. -/
structure Cycle where
  env : Env
  request : Request
  closing : Closing

/-- A request without overrides: a bare `open`, or `open_profile`. -/
def Request.Plain : Request → Prop
  | .open args => args.settings = {}
  | .openProfile _ args =>
    args.name = none ∧ args.logCapacity = none ∧ args.logEnabled = none ∧
      args.rxBufferSize = none

/-- The open selects the stored profile, and overrides none of its defaults. -/
def Cycle.Through (c : Cycle) (h : Handler) (p : Profile) : Prop :=
  c.request.Plain ∧ get h.profiles p.name = some p ∧
    ∃ planned, c.request.plan c.env h = .ok planned ∧ planned.plan.profile = some p

/-- The open and the close, with no live change in between; no result where one of
    them fails. -/
def Cycle.run (c : Cycle) (h : Handler) : Option (CloseResult × Handler) :=
  match c.request.plan c.env h with
  | .error _ => none
  | .ok p => match openSettings c.env p with
    | .error _ => none
    | .ok (resolved, _) => match c.request.run c.env h with
      | (.error _, _) => none
      | (.ok result, h) =>
        match close c.closing h result.connectionId (.opened resolved p.portInfo) with
        | (.error _, _) => none
        | (.ok closed, h) => some (closed, h)

/-- Defaults that an open and a close leave as they are. -/
structure Settled (d : ProfileDefaults) : Prop where
  name : d.name = none
  parity : d.parity.toLower = d.parity
  flowControl : d.flowControl.toLower = d.flowControl
  backoff : d.reconnectPolicy.backoffMultiplier.isNan = false

/-- Any number of cycles through settled profiles, whose closes meet no I/O failure. -/
inductive Cycles : Handler → Handler → Prop
  | refl {h : Handler} : Cycles h h
  | tail {h h' h'' : Handler} {c : Cycle} {p : Profile} {closed : CloseResult} : Cycles h h' → c.Through h' p → Settled p.defaults →
      c.closing.io = none → c.run h' = some (closed, h'') → Cycles h h''

/-! ## What a learn finds -/

section
variable {ps ps' : List Profile} {now : ℕ} {io : Option String} {p q : Profile}
  {operation : ProfilePersistenceOperation} {b b' : ActiveProfileBinding}
  {defaults : ProfileDefaults} {result : ProfilePersistenceResult}

/-- A learn that is not needed has found the defaults in the store. -/
theorem learn_notNeeded (h : learn ps now io operation b defaults = (b', result, ps'))
    (hstate : result.state = .notNeeded) :
    io = none ∧ ps' = ps ∧ ∃ q, get ps b.profileName = some q ∧ (q.defaults == defaults) = true := by
  unfold learn at h
  split at h
  · next hends =>
    unfold learnStart at hends
    split at hends
    · cases hends
      cases h
      cases hstate
    · split_ifs at hends <;> cases hends <;> cases h <;> cases hstate
  · next b₀ hstores =>
    obtain ⟨hb₀, -, -⟩ := learnStart_stores hstores
    cases hb₀
    rcases hstore : learnStore ps now io b defaults with ⟨e | ⟨found, _ | _⟩, next⟩
    · rw [hstore] at h
      cases h
      cases hstate
    · rw [hstore] at h
      cases h
      obtain ⟨hio, stored, hupdate, hnext⟩ := runConditionalMutation_eq_ok hstore
      obtain ⟨i, q, hq, -, ⟨hsame, -, rfl⟩ | ⟨-, hfalse, -⟩⟩ := updateLearnedDefaults_eq_ok hupdate
      · exact ⟨hio, hnext, q, get_of_lookup hq, hsame⟩
      · cases hfalse
    · rw [hstore] at h
      cases h
      cases hstate

/-- The defaults that a persistent binding expects need not be learned. -/
theorem learn_same (now : ℕ) (operation : ProfilePersistenceOperation) (hpers : b.persistent = true) (hstale : b.stale = false)
    (hq : get ps b.profileName = some q) (hrev : b.revision = some q.metadata.revision)
    (hsame : (q.defaults == defaults) = true) :
    (learn ps now none operation b defaults).2.1.state = .notNeeded := by
  obtain ⟨i, hlookup⟩ : ∃ i, lookup ps b.profileName = some (i, q) := by
    rcases hlookup : lookup ps b.profileName with _ | ⟨i, q'⟩
    · rw [get_eq_none.2 hlookup] at hq
      cases hq
    · obtain rfl := Option.some.inj ((get_of_lookup hlookup).symm.trans hq)
      exact ⟨i, rfl⟩
  simp [learn, learnStart, hpers, hstale, learnStore, runConditionalMutation,
    updateLearnedDefaults, hlookup, hrev, hsame, learnEnd]

theorem settings_of_withoutUse (h : q.withoutUse = p.withoutUse) :
    q.selector = p.selector ∧ q.defaults = p.defaults ∧
      q.metadata.revision = p.metadata.revision := by
  simp only [Profile.withoutUse, Profile.mk.injEq, ProfileMetadata.mk.injEq] at h
  exact ⟨h.2.1, h.2.2.1, h.2.2.2.1.2.1⟩

/-- What is not a number is never found in the store. -/
theorem backoff_of_beq {d e : ProfileDefaults} (h : (d == e) = true) :
    e.reconnectPolicy.backoffMultiplier.isNan = false := by
  have hpolicy : (d.reconnectPolicy == e.reconnectPolicy) = true := by
    change instBEqProfileDefaults.beq d e = true at h
    obtain ⟨⟩ := d
    obtain ⟨⟩ := e
    simp only [instBEqProfileDefaults.beq, Bool.and_eq_true] at h
    exact h.2.2.2.2.2.2.2.2.2.2.2.2.1
  have hbackoff : (d.reconnectPolicy.backoffMultiplier ==
      e.reconnectPolicy.backoffMultiplier) = true := by
    change instBEqReconnectPolicy.beq d.reconnectPolicy e.reconnectPolicy = true at hpolicy
    simp only [instBEqReconnectPolicy.beq, Bool.and_eq_true] at hpolicy
    exact hpolicy.2.2.2.2
  change (!_ && !_ && _) = true at hbackoff
  simp only [Bool.and_eq_true, Bool.not_eq_true'] at hbackoff
  exact hbackoff.1.2

end

/-! ## What an open leaves -/

section
variable {env : Env} {h h' h'' : Handler} {planned : Planned} {p : Profile} {r : Request}
  {resolved : ResolvedOpenSettings} {dirty : Option Bool} {c : Cycle} {closed : CloseResult}

theorem Request.plan_plain (hr : r.Plain) (hplan : r.plan env h = .ok planned)
    (hp : planned.plan.profile = some p) :
    planned.overlay = {} ∧ planned.profileDefaults = some p.defaults ∧
      (planned.plan = .selected p ∨ planned.plan = .explicit p) := by
  cases r with
  | «open» args =>
    obtain ⟨livePorts, -, hplan⟩ := Except.bind_eq_ok hplan
    obtain ⟨plan, hsession, hplan⟩ := Except.bind_eq_ok hplan
    cases hplan
    obtain rfl := planSession_profile hsession hp
    exact ⟨hr, rfl, .inl rfl⟩
  | openProfile profile args =>
    obtain ⟨hname, hcapacity, henabled, hsize⟩ := hr
    simp only [Request.plan, planOpenProfile, hname, hcapacity, henabled, hsize] at hplan
    split at hplan
    · cases hplan
    · split at hplan
      · cases hplan
      · split at hplan
        · cases hplan
        · cases hplan
          cases hp
          exact ⟨rfl, rfl, .inr rfl⟩
        · cases hplan

theorem ResolvedOpenSettings.eq_self (r : ResolvedOpenSettings) :
    r.eq r = !r.reconnectPolicy.backoffMultiplier.isNan := by
  simp [ResolvedOpenSettings.eq, ReconnectPolicy.beq_self]

/-- Settings without overrides differ from the profile's only if they differ from
    themselves. -/
theorem openSettings_plain (hoverlay : planned.overlay = {})
    (hdefaults : planned.profileDefaults = some p.defaults) (hp : planned.plan.profile = some p)
    (hsettings : openSettings env planned = .ok (resolved, dirty)) :
    ResolvedOpenSettings.resolve planned.port {} (some p.defaults) = .ok resolved ∧
      dirty = some p.defaults.reconnectPolicy.backoffMultiplier.isNan := by
  unfold openSettings at hsettings
  split_ifs at hsettings with hallowed
  obtain ⟨settings, hresolve, hsettings⟩ := Except.bind_eq_ok hsettings
  rw [hoverlay, hdefaults] at hresolve
  simp only [hp] at hsettings
  obtain ⟨differs, hdiffers, hsettings⟩ := Except.bind_eq_ok hsettings
  cases hsettings
  refine ⟨hresolve, ?_⟩
  have hport := (ResolvedOpenSettings.resolve_ring hresolve).1
  have hpolicy : resolved.reconnectPolicy = p.defaults.reconnectPolicy :=
    congrArg ProfileDefaults.reconnectPolicy
      (ResolvedOpenSettings.asProfileDefaults_of_resolve hresolve)
  simp only [profileOnlyDiffers, ResolvedOpenSettings.fromProfile, hport, hresolve, Except.map,
    ResolvedOpenSettings.eq_self, hpolicy, Bool.not_not, Except.ok.injEq] at hdiffers
  rw [hdiffers]

/-- **An open without overrides** binds the connection to the profile at its revision,
    and changes nothing but the profile's use. -/
theorem openConnection_bound {result : OpenResult}
    (hplan : planned.plan = .selected p ∨ planned.plan = .explicit p)
    (hsettings : openSettings env planned = .ok (resolved, some false))
    (hp : get h.profiles p.name = some p)
    (hrun : openConnection env h planned = (.ok result, h')) :
    h'.profiles.map Profile.withoutUse = h.profiles.map Profile.withoutUse ∧
      ∃ b, h'.binding result.connectionId = some b ∧ b.persistent = true ∧ b.stale = false ∧
        b.profileName = p.name ∧ b.revision = some p.metadata.revision := by
  unfold openConnection at hrun
  rw [hsettings] at hrun
  dsimp only at hrun
  split at hrun
  · cases hrun
  · split at hrun
    · cases hrun
    · split at hrun
      · cases hrun
      · next rx hrx =>
        obtain ⟨source, confidence, hattach⟩ : ∃ source confidence,
            attachSessionBinding h.profiles env.now env.bindIo planned.plan
              resolved.asProfileDefaults planned.portInfo (some false) =
            (.ok (markUsedBinding h.profiles env.now env.bindIo p source confidence false).1,
              (markUsedBinding h.profiles env.now env.bindIo p source confidence false).2) := by
          rcases hplan with hplan | hplan <;> rw [hplan] <;> exact ⟨_, _, rfl⟩
        rcases hmark : markUsedBinding h.profiles env.now env.bindIo p source confidence false
          with ⟨b, profiles⟩
        obtain ⟨hsame, hpers, hstale, hdirty, hname, hrev⟩ := markUsedBinding_binding hmark hp
        rw [hmark] at hattach
        simp only [finishOpen, hattach, hdirty, Bool.false_eq_true, if_false] at hrun
        cases hrun
        exact ⟨hsame, _, Function.update_self .., hpers, hstale, hname, hrev⟩

/-- A close that is done ends with a learn, if the connection has a binding. -/
theorem close_eq_ok {cl : Closing} {id : String} {live : LiveSettings}
    (hclose : close cl h id live = (.ok closed, h')) :
    (closed.profilePersistence.state = .transient ∧ h.binding id = none) ∨
      ∃ b b', h.binding id = some b ∧
        learn h.profiles cl.now cl.io .closeSnapshot b live.effectiveDefaults =
          (b', closed.profilePersistence, h'.profiles) := by
  unfold close at hclose
  split at hclose
  · cases hclose
  · split at hclose
    · cases hclose
    · dsimp only at hclose
      split at hclose
      · next hnone =>
        cases hclose
        exact .inl ⟨rfl, hnone⟩
      · next b hb =>
        cases hclose
        exact .inr ⟨b, _, hb, rfl⟩

/-- A cycle is an open of the profile's settings, and a close. -/
theorem Cycle.run_eq_some (hthrough : c.Through h p) (hrun : c.run h = some (closed, h'')) :
    ∃ planned resolved dirty result h', c.request.plan c.env h = .ok planned ∧
      (planned.plan = .selected p ∨ planned.plan = .explicit p) ∧
      ResolvedOpenSettings.resolve planned.port {} (some p.defaults) = .ok resolved ∧
      openSettings c.env planned = .ok (resolved, some dirty) ∧
      dirty = p.defaults.reconnectPolicy.backoffMultiplier.isNan ∧
      openConnection c.env h planned = (.ok result, h') ∧
      close c.closing h' result.connectionId (.opened resolved planned.portInfo) =
        (.ok closed, h'') := by
  obtain ⟨hplain, -, planned, hplan, hprofile⟩ := hthrough
  obtain ⟨hoverlay, hdefaults, hselected⟩ := Request.plan_plain hplain hplan hprofile
  unfold Cycle.run at hrun
  rw [hplan] at hrun
  dsimp only at hrun
  split at hrun
  · cases hrun
  · next resolved dirty hsettings =>
    obtain ⟨hresolve, rfl⟩ := openSettings_plain hoverlay hdefaults hprofile hsettings
    split at hrun
    · cases hrun
    · next result h' hopen =>
      split at hrun
      · cases hrun
      · next closed' h₂ hclose =>
        cases hrun
        simp only [Request.run, hplan] at hopen
        exact ⟨planned, resolved, _, result, h', hplan, hselected, hresolve, hsettings, rfl,
          hopen, hclose⟩

/-- Defaults are found again exactly if they are settled. -/
theorem beq_effectiveDefaults {port : String} (portInfo : Option PortInfo)
    (hresolve : ResolvedOpenSettings.resolve port {} (some p.defaults) = .ok resolved) :
    (p.defaults == (LiveSettings.opened resolved portInfo).effectiveDefaults) = true ↔
      Settled p.defaults := by
  rw [LiveSettings.effectiveDefaults_of_opened,
    ResolvedOpenSettings.asProfileDefaults_of_resolve hresolve, ProfileDefaults.beq_with]
  simp only [Bool.and_eq_true, beq_iff_eq, Bool.not_eq_true']
  constructor
  · rintro ⟨⟨⟨hname, hparity⟩, hflow⟩, hnan⟩
    refine ⟨?_, hparity.symm, hflow.symm, hnan⟩
    -- a name with the port's is longer
    rcases hd : p.defaults.name with _ | pre
    · rfl
    · rw [hd, Option.map_some, Option.some.injEq] at hname
      have hlen := congrArg String.length hname
      have hdash : "-".length = 1 := rfl
      simp only [String.length_append, hdash] at hlen
      omega
  · rintro ⟨hname, hparity, hflow, hnan⟩
    rw [hname]
    exact ⟨⟨⟨rfl, hparity.symm⟩, hflow.symm⟩, hnan⟩

/-- A cycle through settled defaults changes the use of the profile only. -/
theorem cycle_settled (hthrough : c.Through h p) (hsettled : Settled p.defaults)
    (hio : c.closing.io = none) (hrun : c.run h = some (closed, h'')) :
    closed.profilePersistence.state = .notNeeded ∧
      h''.profiles.map Profile.withoutUse = h.profiles.map Profile.withoutUse := by
  obtain ⟨planned, resolved, dirty, result, h', -, hselected, hresolve, hsettings, hdirty, hopen,
    hclose⟩ := Cycle.run_eq_some hthrough hrun
  rw [hdirty, hsettled.backoff] at hsettings
  obtain ⟨hsame, b, hb, hpers, hstale, hname, hrev⟩ :=
    openConnection_bound hselected hsettings hthrough.2.1 hopen
  rcases close_eq_ok hclose with ⟨-, hnone⟩ | ⟨b₀, b', hb₀, hlearn⟩
  · rw [hb] at hnone
    cases hnone
  · obtain rfl : b = b₀ := Option.some.inj (hb.symm.trans hb₀)
    have hget := get_withoutUse hsame p.name
    rw [hthrough.2.1, Option.map_some, Option.map_eq_some_iff] at hget
    obtain ⟨q, hq, hqp⟩ := hget
    obtain ⟨-, hdefaults, hrevision⟩ := settings_of_withoutUse hqp
    have hfound := (beq_effectiveDefaults planned.portInfo hresolve).2 hsettled
    have hstate := learn_same c.closing.now .closeSnapshot hpers hstale (by rw [hname]; exact hq)
      (by rw [hrev, hrevision]) (by rw [hdefaults]; exact hfound)
    rw [← hio, hlearn] at hstate
    exact ⟨hstate, by rw [(learn_notNeeded hlearn hstate).2.1, hsame]⟩

theorem settled_of_notNeeded (hthrough : c.Through h p) (hrun : c.run h = some (closed, h''))
    (hstate : closed.profilePersistence.state = .notNeeded) :
    Settled p.defaults ∧ c.closing.io = none := by
  obtain ⟨planned, resolved, dirty, result, h', -, hselected, hresolve, hsettings, hdirty, hopen,
    hclose⟩ := Cycle.run_eq_some hthrough hrun
  rcases close_eq_ok hclose with ⟨htransient, -⟩ | ⟨b, b', hb, hlearn⟩
  · rw [htransient] at hstate
    cases hstate
  · obtain ⟨hio, -, q, hq, hfound⟩ := learn_notNeeded hlearn hstate
    refine ⟨?_, hio⟩
    -- a number as backoff, so the open had nothing to learn
    have hnan := backoff_of_beq hfound
    rw [LiveSettings.effectiveDefaults_of_opened,
      ResolvedOpenSettings.asProfileDefaults_of_resolve hresolve] at hnan
    dsimp only at hnan
    rw [hdirty, hnan] at hsettings
    obtain ⟨hsame, b₀, hb₀, -, -, hname, -⟩ :=
      openConnection_bound hselected hsettings hthrough.2.1 hopen
    obtain rfl : b = b₀ := Option.some.inj (hb.symm.trans hb₀)
    have hget := get_withoutUse hsame p.name
    rw [hname] at hq
    rw [hq, hthrough.2.1, Option.map_some, Option.map_some, Option.some.injEq] at hget
    obtain ⟨-, hdefaults, -⟩ := settings_of_withoutUse hget
    rw [hdefaults] at hfound
    exact (beq_effectiveDefaults planned.portInfo hresolve).1 hfound

theorem Cycles.withoutUse (hc : Cycles h h') :
    h'.profiles.map Profile.withoutUse = h.profiles.map Profile.withoutUse := by
  induction hc with
  | refl => rfl
  | tail _ hthrough hsettled hio hrun ih =>
    exact (cycle_settled hthrough hsettled hio hrun).2.trans ih

/-- **Opening and closing leaves a profile as it is**, and the close has nothing to
    learn, exactly if the defaults are settled and the close meets no I/O failure;
    then any number of cycles changes nothing but the use of profiles. -/
theorem cycle_settled_iff (hthrough : c.Through h p) (hrun : c.run h = some (closed, h')) :
    ((closed.profilePersistence.state = .notNeeded ∧ ∃ q, get h'.profiles p.name = some q ∧
        q.selector = p.selector ∧ q.defaults = p.defaults ∧
        q.metadata.revision = p.metadata.revision) ↔
      Settled p.defaults ∧ c.closing.io = none) ∧
    ∀ h₀ h₁ : Handler, Cycles h₀ h₁ →
      h₁.profiles.map Profile.withoutUse = h₀.profiles.map Profile.withoutUse := by
  refine ⟨⟨?_, ?_⟩, fun h₀ h₁ => Cycles.withoutUse⟩
  · rintro ⟨hstate, -⟩
    exact settled_of_notNeeded hthrough hrun hstate
  · rintro ⟨hsettled, hio⟩
    obtain ⟨hstate, hsame⟩ := cycle_settled hthrough hsettled hio hrun
    refine ⟨hstate, ?_⟩
    have hget := get_withoutUse hsame p.name
    rw [hthrough.2.1, Option.map_some, Option.map_eq_some_iff] at hget
    obtain ⟨q, hq, hqp⟩ := hget
    exact ⟨q, hq, settings_of_withoutUse hqp⟩

end

/-- A board that can be told from all others. -/
def board : PortInfo where
  name := "/dev/ttyUSB0"
  displayName := "ttyUSB0"
  description := ""
  hardwareId := none
  transport := .usb
  vid := some 1
  pid := some 2
  serialNumber := some "s"
  manufacturer := none
  product := none
  interface := none

/-- Its profile, with some defaults. -/
def boardProfile (defaults : ProfileDefaults) : Profile where
  name := "dev-a"
  selector := { vid := some 1, pid := some 2, serialNumber := some "s", transport := some "usb" }
  defaults
  metadata := ⟨false, 1, none, none, none, 0⟩
  revisions := []

/-- A handler that has stored the profile. -/
def boardHandler (defaults : ProfileDefaults) : Handler :=
  { Handler.new with profiles := [boardProfile defaults] }

/-- A bare `open` of the board, and its close. -/
def boardCycle : Cycle where
  env := { Env.opens with listAvailable := .ok [board] }
  request := .open { port := "/dev/ttyUSB0", settings := {}, profileMode := none }
  closing := { hardware := .ok (), now := 10, io := none }

theorem boardCycle_through (defaults : ProfileDefaults) :
    boardCycle.Through (boardHandler defaults) (boardProfile defaults) := by
  have hid : highIdentity board = some ⟨"usb", 1, 2, "s", none⟩ := rfl
  have hmatches : ((boardProfile defaults).matchesPort (fun _ _ => false) board &&
      selectorMatchesHighIdentity (boardProfile defaults).selector
        ⟨"usb", 1, 2, "s", none⟩) = true := rfl
  have hresolve : resolveAutomatic (fun _ _ => false) [boardProfile defaults] board =
      .ok { selected := some (boardProfile defaults), candidates := ["dev-a"] } := by
    simp only [resolveAutomatic, hid, hmatches, rankCandidates, List.filter_cons_of_pos,
      List.filter_nil, List.mergeSort_singleton]
    rfl
  have hplan : planSession (fun _ _ => false) (.ok [boardProfile defaults]) none (some board)
      [board] = .ok (.selected (boardProfile defaults)) := by
    simp [planSession, hid, Except.bind, hresolve]
  refine ⟨rfl, rfl, { port := "/dev/ttyUSB0", overlay := {}, profileDefaults := some defaults,
                      portInfo := some board, plan := .selected (boardProfile defaults) }, ?_, rfl⟩
  change (planSession (fun _ _ => false) (.ok [boardProfile defaults]) none (some board)
    [board] >>= _) = _
  rw [hplan]
  rfl

theorem cycle_settled_iff_board : ∃ closed h', boardCycle.run (boardHandler {}) = some (closed, h') ∧
    closed.profilePersistence.state = .notNeeded ∧
      h'.profiles.map Profile.withoutUse = [boardProfile {}] := by
  have hsome : (boardCycle.run (boardHandler {})).isSome = true := by decide +kernel
  obtain ⟨⟨closed, h'⟩, hrun⟩ := Option.isSome_iff_exists.1 hsome
  have hsettled : Settled (boardProfile {}).defaults :=
    ⟨rfl, by decide +kernel, by decide +kernel, rfl⟩
  have hcycles : Cycles (boardHandler {}) h' :=
    .tail .refl (boardCycle_through {}) hsettled rfl hrun
  obtain ⟨hiff, hsame⟩ := cycle_settled_iff (boardCycle_through {}) hrun
  exact ⟨closed, h', hrun, (hiff.2 ⟨hsettled, rfl⟩).1, hsame _ _ hcycles⟩

/-- **A name grows**: the prefix of a profile is replaced by the name of the
    connection, and gets the port's name with every cycle. -/
theorem name_grows :
    boardCycle.Through (boardHandler { name := some "pump" }) (boardProfile { name := some "pump" }) ∧
    (boardCycle.run (boardHandler { name := some "pump" })).map (fun (closed, h) =>
        (closed.profilePersistence.state,
          h.profiles.map fun p => (p.defaults.name, p.metadata.revision))) =
      some (.persisted, [(some "pump-ttyUSB0", 2)]) ∧
    ((boardCycle.run (boardHandler { name := some "pump" })).bind fun (_, h) =>
        boardCycle.run h).map (fun (closed, h) =>
          (closed.profilePersistence.state,
            h.profiles.map fun p => (p.defaults.name, p.metadata.revision))) =
      some (.persisted, [(some "pump-ttyUSB0-ttyUSB0", 3)]) :=
  ⟨boardCycle_through _, by decide +kernel, by decide +kernel⟩

end SerialMcp.Open
