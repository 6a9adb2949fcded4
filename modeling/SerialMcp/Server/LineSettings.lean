/-
  Changes to the line settings of an open connection (`serial/connection.rs`):
  `reconfigure` and `set_flow_control`.

  A call is one step here: nothing else changes the port under the `io` lock, and
  the settings are stored without an await after it.

  * `LineSettings`: the settings that the port was last given;
  * `SerialConnection.reconfigure`: the setters one after another, then the record;
  * `Harmless`: a setter that refuses comes after setters that change nothing;
  * `stored_settings_iff`: the record is right after every call exactly if all calls
    are harmless.
-/
import SerialMcp.Server.Close

namespace SerialMcp.Line

open Open (LiveSettings LogBuffer)

/-! ## Settings -/

/-- The settings that a port has. -/
structure LineSettings where
  baudRate : ℕ
  dataBits : DataBits
  stopBits : StopBits
  parity : Parity
  flowControl : FlowControl
  deriving DecidableEq, Repr

/-- A call of one of the setters of `SerialIo`. -/
inductive Setting where
  /-- `reconfigure_baud_rate` -/
  | baudRate (rate : ℕ)
  /-- `reconfigure_data_bits` -/
  | dataBits (db : DataBits)
  /-- `reconfigure_stop_bits` -/
  | stopBits (sb : StopBits)
  /-- `reconfigure_parity` -/
  | parity (p : Parity)
  /-- `set_flow_control` -/
  | flowControl (fc : FlowControl)
  deriving DecidableEq, Repr

/-- Which of the setters it is. -/
def Setting.setter : Setting → Fin 5
  | .baudRate _ => 0
  | .dataBits _ => 1
  | .stopBits _ => 2
  | .parity _ => 3
  | .flowControl _ => 4

/-- The setter, where it succeeds. -/
def LineSettings.set (l : LineSettings) : Setting → LineSettings
  | .baudRate rate => { l with baudRate := rate }
  | .dataBits db => { l with dataBits := db }
  | .stopBits sb => { l with stopBits := sb }
  | .parity p => { l with parity := p }
  | .flowControl fc => { l with flowControl := fc }

/-- The settings have the value already. -/
def LineSettings.Has (l : LineSettings) : Setting → Prop
  | .baudRate rate => l.baudRate = rate
  | .dataBits db => l.dataBits = db
  | .stopBits sb => l.stopBits = sb
  | .parity p => l.parity = p
  | .flowControl fc => l.flowControl = fc

instance (l : LineSettings) (s : Setting) : Decidable (l.Has s) := by
  cases s <;> exact inferInstanceAs (Decidable (_ = _))

section
variable {l : LineSettings} {s t : Setting}

theorem LineSettings.set_has : (l.set s).Has s := by
  cases s <;> rfl

theorem LineSettings.set_has_iff (h : s.setter ≠ t.setter) : (l.set t).Has s ↔ l.Has s := by
  cases s <;> cases t <;> first | exact Iff.rfl | exact absurd rfl h

theorem LineSettings.set_of_has (h : l.Has s) : l.set s = l := by
  cases s <;> cases h <;> rfl

end

/-- The line settings among the stored ones. -/
def line (s : LiveSettings) : LineSettings where
  baudRate := s.baudRate
  dataBits := s.dataBits
  stopBits := s.stopBits
  parity := s.parity
  flowControl := s.flowControl

/-- One value is stored. -/
def store (s : LiveSettings) : Setting → LiveSettings
  | .baudRate rate => { s with baudRate := rate }
  | .dataBits db => { s with dataBits := db }
  | .stopBits sb => { s with stopBits := sb }
  | .parity p => { s with parity := p }
  | .flowControl fc => { s with flowControl := fc }

@[simp] theorem line_store (live : LiveSettings) (s : Setting) :
    line (store live s) = (line live).set s := by
  cases s <;> rfl

theorem line_foldl_store (live : LiveSettings) (asked : List Setting) :
    line (asked.foldl store live) = asked.foldl LineSettings.set (line live) := by
  induction asked generalizing live with
  | nil => rfl
  | cons s asked ih => rw [List.foldl_cons, ih, line_store, List.foldl_cons]

/-! ## The port -/

/-- `SerialError` of these calls; an I/O error is named by the setter it is of. -/
inductive SerialError where
  | connectionClosed (name : String)
  | invalidBaudRate (rate : ℕ)
  | ioError (of : Setting)
  deriving DecidableEq, Repr

/-- `MAX_BAUD_RATE` -/
def maxBaudRate : ℕ := 4000000

/-- `ensure_valid_baud_rate` -/
def ensureValidBaudRate (rate : ℕ) : Except SerialError Unit :=
  if rate = 0 ∨ maxBaudRate < rate then .error (.invalidBaudRate rate) else .ok ()

/-- The setters one after another, up to the first that fails. -/
def applyAll (fails : Setting → Bool) :
    List Setting → LineSettings → Except SerialError Unit × LineSettings
  | [], l => (.ok (), l)
  | s :: asked, l => if fails s then (.error (.ioError s), l) else applyAll fails asked (l.set s)

/-- Settings that `reconfigure` is asked for. -/
structure ReconfigureArgs where
  baudRate : Option ℕ := none
  dataBits : Option DataBits := none
  stopBits : Option StopBits := none
  parity : Option Parity := none
  flowControl : Option FlowControl := none
  deriving DecidableEq, Repr

/-- The setters to be called, in their order. -/
def ReconfigureArgs.asked (args : ReconfigureArgs) : List Setting :=
  (args.baudRate.map .baudRate).toList ++ (args.dataBits.map .dataBits).toList ++
    (args.stopBits.map .stopBits).toList ++ (args.parity.map .parity).toList ++
    (args.flowControl.map .flowControl).toList

theorem ReconfigureArgs.asked_pairwise (args : ReconfigureArgs) :
    args.asked.Pairwise (·.setter ≠ ·.setter) := by
  obtain ⟨baudRate, dataBits, stopBits, parity, flowControl⟩ := args
  cases baudRate <;> cases dataBits <;> cases stopBits <;> cases parity <;> cases flowControl <;>
    simp [asked, Setting.setter]

/-- `SerialConnection`, with what its port was last given. -/
structure SerialConnection where
  id : String
  port : String
  settings : LiveSettings
  closed : Bool
  /-- the slot holds a backend -/
  io : Bool
  /-- the values last applied with success, from the open on -/
  applied : LineSettings

/-- `ConnectionStatus`, as far as the settings go. -/
structure ConnectionStatus where
  connectionId : String
  name : Option String
  port : String
  baudRate : ℕ
  dataBits : String
  stopBits : String
  parity : String
  flowControl : String
  isClosed : Bool

namespace SerialConnection

/-- A connection that was just opened with a configuration. -/
def opened (id : String) (config : ConnectionConfig) : SerialConnection where
  id
  port := config.port
  settings := .fromIoWithConfig config
  closed := false
  io := true
  applied := line (.fromIoWithConfig config)

def displayName (c : SerialConnection) : String := c.settings.name.getD c.id

/-- `status_snapshot` -/
def statusSnapshot (c : SerialConnection) : ConnectionStatus where
  connectionId := c.id
  name := c.settings.name
  port := c.port
  baudRate := c.settings.baudRate
  dataBits := dataBitsToStr c.settings.dataBits
  stopBits := stopBitsToStr c.settings.stopBits
  parity := parityToStr c.settings.parity
  flowControl := flowControlToStr c.settings.flowControl
  isClosed := c.closed

/-- `build_config` -/
def buildConfig (c : SerialConnection) (portInfo : Option PortInfo) : ConnectionConfig :=
  c.settings.buildConfig c.port portInfo

/-- `set_flow_control` -/
def setFlowControl (c : SerialConnection) (fc : FlowControl) (fails : Setting → Bool) :
    Except SerialError Unit × SerialConnection :=
  if c.closed ∨ ¬ c.io then (.error (.connectionClosed c.displayName), c)
  else if fails (.flowControl fc) then (.error (.ioError (.flowControl fc)), c)
  else (.ok (), { c with
    applied := c.applied.set (.flowControl fc)
    settings := store c.settings (.flowControl fc) })

/-- `reconfigure` -/
def reconfigure (c : SerialConnection) (args : ReconfigureArgs) (fails : Setting → Bool) :
    Except SerialError ConnectionStatus × SerialConnection :=
  if c.closed then (.error (.connectionClosed c.displayName), c)
  else match args.baudRate.elim (.ok ()) ensureValidBaudRate with
    | .error e => (.error e, c)
    | .ok () =>
      if c.io then
        match applyAll fails args.asked c.applied with
        | (.error e, applied) => (.error e, { c with applied })
        | (.ok (), applied) =>
          let c := { c with applied, settings := args.asked.foldl store c.settings }
          (.ok c.statusSnapshot, c)
      else (.error (.connectionClosed c.displayName), c)

/-- The record of the settings is right. -/
def Recorded (c : SerialConnection) : Prop := line c.settings = c.applied

theorem opened_recorded (id : String) (config : ConnectionConfig) : (opened id config).Recorded :=
  rfl

/-- With a right record, a reconnect gives the port the settings that it had, and the
    status and the learned defaults show them. -/
theorem Recorded.used {c : SerialConnection} (hc : c.Recorded) (portInfo : Option PortInfo) :
    line (.fromIoWithConfig (c.buildConfig portInfo)) = c.applied ∧
    c.statusSnapshot = { c.statusSnapshot with
      baudRate := c.applied.baudRate
      dataBits := dataBitsToStr c.applied.dataBits
      stopBits := stopBitsToStr c.applied.stopBits
      parity := parityToStr c.applied.parity
      flowControl := flowControlToStr c.applied.flowControl } ∧
    c.settings.effectiveDefaults = { c.settings.effectiveDefaults with
      baudRate := c.applied.baudRate
      dataBits := dataBitsToStr c.applied.dataBits
      stopBits := stopBitsToStr c.applied.stopBits
      parity := parityToStr c.applied.parity
      flowControl := flowControlToStr c.applied.flowControl } := by
  rw [← show line c.settings = c.applied from hc]
  exact ⟨rfl, rfl, rfl⟩

end SerialConnection

/-! ## Setters -/

section
variable {fails : Setting → Bool} {asked : List Setting} {l : LineSettings}

theorem applyAll_eq : applyAll fails asked l =
    ((asked.find? fails).elim (.ok ()) (.error <| .ioError ·),
      (asked.takeWhile (!fails ·)).foldl LineSettings.set l) := by
  induction asked generalizing l with
  | nil => rfl
  | cons s asked ih =>
    rw [applyAll]
    split_ifs with hs
    · rw [List.find?_cons_of_pos hs, List.takeWhile_cons_of_neg (by simpa using hs)]
      rfl
    · rw [List.find?_cons_of_neg hs, List.takeWhile_cons_of_pos (by simpa using hs), ih]
      rfl

theorem foldl_set_has_iff {s : Setting} (h : ∀ t ∈ asked, s.setter ≠ t.setter) :
    (asked.foldl LineSettings.set l).Has s ↔ l.Has s := by
  induction asked generalizing l with
  | nil => rfl
  | cons t asked ih =>
    rw [List.foldl_cons, ih fun u hu => h u (List.mem_cons_of_mem t hu),
      LineSettings.set_has_iff (h t List.mem_cons_self)]

/-- Setters change nothing exactly if all their values are there. -/
theorem foldl_set_eq_iff (h : asked.Pairwise (·.setter ≠ ·.setter)) :
    asked.foldl LineSettings.set l = l ↔ ∀ s ∈ asked, l.Has s := by
  constructor
  · intro heq s hs
    obtain ⟨before, after, rfl⟩ := List.append_of_mem hs
    have hafter : ∀ t ∈ after, s.setter ≠ t.setter :=
      (List.pairwise_cons.1 (List.pairwise_append.1 h).2.1).1
    rw [← heq, List.foldl_append, List.foldl_cons, foldl_set_has_iff hafter]
    exact LineSettings.set_has
  · intro hhas
    clear h
    induction asked with
    | nil => rfl
    | cons s asked ih =>
      rw [List.foldl_cons, LineSettings.set_of_has (hhas s List.mem_cons_self)]
      exact ih fun t ht => hhas t (List.mem_cons_of_mem s ht)

end

/-! ## Calls -/

/-- A call, with the setters that the port refuses in it. -/
inductive Call where
  | reconfigure (args : ReconfigureArgs) (fails : Setting → Bool)
  | setFlowControl (fc : FlowControl) (fails : Setting → Bool)

/-- The connection after a call. -/
def Call.run (c : SerialConnection) : Call → SerialConnection
  | .reconfigure args fails => (c.reconfigure args fails).2
  | .setFlowControl fc fails => (c.setFlowControl fc fails).2

/-- The call gets to the port. -/
def Reaches (c : SerialConnection) (args : ReconfigureArgs) : Prop :=
  c.closed = false ∧ c.io = true ∧ ∀ rate ∈ args.baudRate, 0 < rate ∧ rate ≤ maxBaudRate

/-- Where a setter fails, the values of those before it are stored already. -/
def Call.Harmless (c : SerialConnection) : Call → Prop
  | .reconfigure args fails => Reaches c args → (∃ s ∈ args.asked, fails s = true) →
      ∀ t ∈ args.asked.takeWhile (!fails ·), (line c.settings).Has t
  | .setFlowControl _ _ => True

section
variable {c : SerialConnection} {call : Call} {args : ReconfigureArgs} {fails : Setting → Bool}

theorem reconfigure_unreached (h : ¬ Reaches c args) : (c.reconfigure args fails).2 = c := by
  simp only [SerialConnection.reconfigure]
  split_ifs with hclosed hio
  · rfl
  · split
    · rfl
    · next hrate =>
      refine absurd ⟨by simpa using hclosed, hio, fun rate hmem => ?_⟩ h
      rw [Option.mem_def] at hmem
      simp only [hmem, Option.elim_some, ensureValidBaudRate] at hrate
      split_ifs at hrate with hvalid
      omega
  · split <;> rfl

/-- The setters are called; the values are stored if all of them succeed. -/
theorem reconfigure_reached (h : Reaches c args) : (c.reconfigure args fails).2 =
    { c with
      applied := (args.asked.takeWhile (!fails ·)).foldl LineSettings.set c.applied
      settings := if ∃ s ∈ args.asked, fails s = true then c.settings
        else args.asked.foldl store c.settings } := by
  obtain ⟨hclosed, hio, hrate⟩ := h
  have hvalid : args.baudRate.elim (.ok ()) ensureValidBaudRate = .ok () := by
    rcases hb : args.baudRate with _ | rate
    · rfl
    · have hrate := hrate rate hb
      rw [Option.elim_some, ensureValidBaudRate, if_neg (by omega)]
  rw [SerialConnection.reconfigure, if_neg (by simp [hclosed]), hvalid]
  dsimp only
  rw [if_pos hio, applyAll_eq]
  rcases hfind : args.asked.find? fails with _ | s
  · have hnone : ¬ ∃ s ∈ args.asked, fails s = true := by simpa using hfind
    rw [if_neg hnone]
    rfl
  · rw [if_pos ⟨s, List.mem_of_find?_eq_some hfind, List.find?_some hfind⟩]
    rfl

/-- **One call**: with a right record before it, the record is right after it exactly
    if the call is harmless. -/
theorem Call.run_recorded_iff (hc : c.Recorded) :
    (call.run c).Recorded ↔ call.Harmless c := by
  rcases call with ⟨args, fails⟩ | ⟨fc, fails⟩
  · by_cases hreach : Reaches c args
    · rw [Call.run, reconfigure_reached hreach, SerialConnection.Recorded, Call.Harmless]
      dsimp only
      split_ifs with hfails
      · have hpair : (args.asked.takeWhile (!fails ·)).Pairwise (·.setter ≠ ·.setter) :=
          args.asked_pairwise.sublist (List.takeWhile_sublist _)
        rw [← hc, eq_comm, foldl_set_eq_iff hpair]
        exact ⟨fun h _ _ => h, fun h => h hreach hfails⟩
      · have hall : args.asked.takeWhile (!fails ·) = args.asked := by
          refine List.takeWhile_eq_self_iff.2 fun s hs => ?_
          simpa using fun h => hfails ⟨s, hs, h⟩
        refine iff_of_true ?_ fun _ h => absurd h hfails
        rw [hall, line_foldl_store, hc]
    · rw [Call.run, reconfigure_unreached hreach]
      exact iff_of_true hc fun h => absurd h hreach
  · refine iff_of_true ?_ trivial
    rw [Call.run, SerialConnection.setFlowControl]
    split_ifs
    · exact hc
    · exact hc
    · change line (store c.settings _) = _
      rw [line_store, hc]

end

/-! ## Runs -/

/-- The connection after calls. -/
def after (c : SerialConnection) (calls : List Call) : SerialConnection := calls.foldl Call.run c

/-- **The stored settings**: from a connection whose record is right, it is right after
    every call exactly if every call is harmless. -/
theorem stored_settings_iff {c : SerialConnection} (hc : c.Recorded) (calls : List Call) :
    (∀ done, done <+: calls → (after c done).Recorded) ↔
      ∀ done call, done ++ [call] <+: calls → call.Harmless (after c done) := by
  have hstep (done : List Call) (call : Call) :
      after c (done ++ [call]) = call.run (after c done) := List.foldl_concat ..
  constructor
  · intro h done call hpre
    have hdone := h done ((List.prefix_append done [call]).trans hpre)
    have hnext := h _ hpre
    rw [hstep] at hnext
    exact (Call.run_recorded_iff hdone).1 hnext
  · intro h done
    induction done using List.reverseRecOn with
    | nil => exact fun _ => hc
    | append_singleton done call ih =>
      intro hpre
      have hdone := ih ((List.prefix_append done [call]).trans hpre)
      rw [hstep]
      exact (Call.run_recorded_iff hdone).2 (h done call hpre)

def stationConfig : ConnectionConfig where
  port := "/dev/ttyUSB0"
  name := none
  baudRate := 9600
  dataBits := .eight
  stopBits := .one
  parity := .none
  flowControl := .none
  portInfo := none
  logCapacity := 1024
  logEnabled := false
  txFraming := none
  rxFraming := none
  rxParser := none
  protocol := none
  rxBufferSize := 65536
  maxBufferedBytes := 65536

def station : SerialConnection := .opened "c1" stationConfig

/-- A new baud rate with a parity that the port refuses. -/
def refusedParity : Call :=
  .reconfigure { baudRate := some 115200, parity := some .even } (· = .parity .even)

/-- The port refuses the baud rate, before anything has changed. -/
def refusedBaudRate : Call :=
  .reconfigure { baudRate := some 115200, parity := some .even } (· = .baudRate 115200)

theorem stored_settings_iff_station : (after station [refusedBaudRate]).Recorded := by
  refine (stored_settings_iff (SerialConnection.opened_recorded "c1" stationConfig)
    [refusedBaudRate]).2 ?_ _ List.prefix_rfl
  intro done call hpre
  rcases done with _ | ⟨first, done⟩
  · obtain rfl : call = refusedBaudRate := (List.cons_prefix_cons.1 hpre).1
    -- the first setter fails, so that none was applied before
    intro _ _ t ht
    cases ht
  · have hlen := hpre.length_le
    simp at hlen

/-- The port runs at 115200 baud after the call has failed, and 9600 is stored. -/
theorem stored_settings_stale :
    (∃ c : SerialConnection, after station [refusedParity] = c ∧ c.applied.baudRate = 115200 ∧
      c.settings.baudRate = 9600) ∧
    ¬ ∀ id config calls done, done <+: calls →
      (after (.opened id config) done).Recorded := by
  have hstale : ¬ (after station [refusedParity]).Recorded := by
    intro h
    have hrate : (9600 : ℕ) = 115200 := congrArg LineSettings.baudRate h
    cases hrate
  exact ⟨⟨_, rfl, rfl, rfl⟩, fun h => hstale (h "c1" stationConfig _ _ List.prefix_rfl)⟩

end SerialMcp.Line
