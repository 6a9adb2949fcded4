/-
  The settings of an open (`serial/config.rs`, `tools/helpers.rs`): what a call
  gives, else what the profile has, else what is built in.

  * `ResolvedOpenSettings.resolve`: the settings, or the first one of them that is
    invalid;
  * `ResolvedOpenSettings.asProfileDefaults_of_resolve`: what a profile's settings are
    turned back into;
  * `ResolvedOpenSettings.resolve_ring`: the ring of an open has a size from 1 byte
    to 16 MiB.
-/
import SerialMcp.Profile.Identity

namespace SerialMcp

theorem Except.bind_eq_ok {ε α β : Type} {x : Except ε α} {f : α → Except ε β} {b : β}
    (h : x >>= f = .ok b) : ∃ a, x = .ok a ∧ f a = .ok b := by
  rcases x with e | a
  · cases h
  · exact ⟨a, rfl, h⟩

/-! ## Texts -/

/-- `{:?}` of a character in a string, if it is printable from U+00A0 on. -/
def escapeDebug (c : Char) : List Char :=
  if c = '"' then ['\\', '"']
  else if c = '\\' then ['\\', '\\']
  else if c = '\n' then ['\\', 'n']
  else if c = '\r' then ['\\', 'r']
  else if c = '\t' then ['\\', 't']
  else if c.toNat = 0 then ['\\', '0']
  else if c.toNat < 0x20 ∨ 0x7f ≤ c.toNat ∧ c.toNat < 0xa0 then
    ['\\', 'u', '\x7b'] ++ Nat.toDigits 16 c.toNat ++ ['\x7d']
  else [c]

/-- `{:?}` of a string -/
def debugStr (s : String) : String :=
  .ofList ('"' :: s.toList.flatMap escapeDebug ++ ['"'])

/-- `{:?}` of an option -/
def debugOption {β : Type} (debug : β → String) : Option β → String
  | none => "None"
  | some b => "Some(" ++ debug b ++ ")"

/-- `{:?}` of a selector -/
def ProfileSelector.debug (s : ProfileSelector) : String :=
  "ProfileSelector \x7b vid: " ++ debugOption toString s.vid ++
    ", pid: " ++ debugOption toString s.pid ++
    ", serial_number: " ++ debugOption debugStr s.serialNumber ++
    ", manufacturer: " ++ debugOption debugStr s.manufacturer ++
    ", product: " ++ debugOption debugStr s.product ++
    ", interface: " ++ debugOption toString s.interface ++
    ", port_pattern: " ++ debugOption debugStr s.portPattern ++
    ", description_pattern: " ++ debugOption debugStr s.descriptionPattern ++
    ", transport: " ++ debugOption debugStr s.transport ++
    ", hardware_id: " ++ debugOption debugStr s.hardwareId ++ " \x7d"

/-! ## Line settings -/

inductive DataBits where
  | five
  | six
  | seven
  | eight
  deriving DecidableEq, Repr

inductive StopBits where
  | one
  | two
  deriving DecidableEq, Repr

inductive Parity where
  | none
  | odd
  | even
  deriving DecidableEq, Repr

inductive FlowControl where
  | none
  | software
  | hardware
  deriving DecidableEq, Repr

/-- `data_bits_to_str` -/
def dataBitsToStr : DataBits → String
  | .five => "5"
  | .six => "6"
  | .seven => "7"
  | .eight => "8"

/-- `stop_bits_to_str` -/
def stopBitsToStr : StopBits → String
  | .one => "1"
  | .two => "2"

/-- `parity_to_str` -/
def parityToStr : Parity → String
  | .none => "none"
  | .odd => "odd"
  | .even => "even"

/-- `flow_control_to_str` -/
def flowControlToStr : FlowControl → String
  | .none => "none"
  | .software => "software"
  | .hardware => "hardware"

/-- The setting with a text, or an error that names the field. -/
def parseSetting {β : Type} (field expected : String) (table : List (String × β)) (s : String) :
    Except String β :=
  match table.lookup s with
  | some value => .ok value
  | none => .error ("Invalid " ++ field ++ " " ++ debugStr s ++ " (expected " ++ expected ++ ")")

/-- `DataBits::from_str` -/
def DataBits.fromStr : String → Except String DataBits :=
  parseSetting "data_bits" "5/6/7/8" [("5", .five), ("6", .six), ("7", .seven), ("8", .eight)]

/-- `StopBits::from_str` -/
def StopBits.fromStr : String → Except String StopBits :=
  parseSetting "stop_bits" "1/2" [("1", .one), ("2", .two)]

/-- `Parity::from_str`, in lower case -/
def Parity.fromStr (s : String) : Except String Parity :=
  parseSetting "parity" "none/odd/even" [("none", .none), ("odd", .odd), ("even", .even)] s.toLower

/-- `FlowControl::from_str`, in lower case -/
def FlowControl.fromStr (s : String) : Except String FlowControl :=
  parseSetting "flow_control" "none/software/hardware"
    [("none", .none), ("software", .software), ("hardware", .hardware)] s.toLower

section
variable {s : String}

theorem parseSetting_eq_ok {β : Type} {field expected : String} {table : List (String × β)}
    {value : β} (h : parseSetting field expected table s = .ok value) : (s, value) ∈ table := by
  unfold parseSetting at h
  split at h
  · next hlookup =>
    cases h
    obtain ⟨l, r, rfl, -⟩ := List.lookup_eq_some_iff.1 hlookup
    exact List.mem_append_right _ List.mem_cons_self
  · cases h

/-- **Settings are printed as they were given**, but in lower case. -/
theorem dataBitsToStr_of_fromStr {b : DataBits} (h : DataBits.fromStr s = .ok b) :
    dataBitsToStr b = s := by
  have hmem := parseSetting_eq_ok h
  simp only [List.mem_cons, Prod.mk.injEq, List.not_mem_nil, or_false] at hmem
  rcases hmem with ⟨rfl, rfl⟩ | ⟨rfl, rfl⟩ | ⟨rfl, rfl⟩ | ⟨rfl, rfl⟩ <;> rfl

theorem stopBitsToStr_of_fromStr {b : StopBits} (h : StopBits.fromStr s = .ok b) :
    stopBitsToStr b = s := by
  have hmem := parseSetting_eq_ok h
  simp only [List.mem_cons, Prod.mk.injEq, List.not_mem_nil, or_false] at hmem
  rcases hmem with ⟨rfl, rfl⟩ | ⟨rfl, rfl⟩ <;> rfl

theorem parityToStr_of_fromStr {p : Parity} (h : Parity.fromStr s = .ok p) :
    parityToStr p = s.toLower := by
  have hmem := parseSetting_eq_ok h
  simp only [List.mem_cons, Prod.mk.injEq, List.not_mem_nil, or_false] at hmem
  rcases hmem with ⟨hs, rfl⟩ | ⟨hs, rfl⟩ | ⟨hs, rfl⟩ <;> rw [hs] <;> rfl

theorem flowControlToStr_of_fromStr {f : FlowControl} (h : FlowControl.fromStr s = .ok f) :
    flowControlToStr f = s.toLower := by
  have hmem := parseSetting_eq_ok h
  simp only [List.mem_cons, Prod.mk.injEq, List.not_mem_nil, or_false] at hmem
  rcases hmem with ⟨hs, rfl⟩ | ⟨hs, rfl⟩ | ⟨hs, rfl⟩ <;> rw [hs] <;> rfl

end

/-! ## Limits -/

/-- `MAX_RX_BUFFER_SIZE` -/
def maxRxBufferSize : ℕ := 16 * 1024 * 1024

/-- `clamp_or_err` -/
def clampOrErr (name : String) (value max : ℕ) : Except String ℕ :=
  if max < value then
    .error (name ++ "=" ++ toString value ++ " exceeds maximum " ++ toString max)
  else .ok value

/-- `require_min_or_err` -/
def requireMinOrErr (name : String) (value min : ℕ) : Except String ℕ :=
  if value < min then
    .error (name ++ "=" ++ toString value ++ " is below minimum " ++ toString min)
  else .ok value

/-- `validate_open_rx_buffer_size` -/
def validateOpenRxBufferSize (size : ℕ) : Except String ℕ := do
  let size ← requireMinOrErr "open.rx_buffer_size" size 1
  clampOrErr "open.rx_buffer_size" size maxRxBufferSize

/-! ## Settings -/

/-- `OpenOverlay`: the settings that a call gives. -/
structure OpenOverlay where
  name : Option String := none
  baudRate : Option ℕ := none
  dataBits : Option String := none
  stopBits : Option String := none
  parity : Option String := none
  flowControl : Option String := none
  logCapacity : Option ℕ := none
  logEnabled : Option Bool := none
  reconnectPolicy : Option ReconnectPolicy := none
  txFraming : Option TxFramingConfig := none
  rxFraming : Option RxFramingConfig := none
  rxParser : Option ParserConfig := none
  protocol : Option ProtocolPreset := none
  rxBufferSize : Option ℕ := none
  maxBufferedBytes : Option ℕ := none

/-- `ConnectionConfig` -/
structure ConnectionConfig where
  port : String
  name : Option String
  baudRate : ℕ
  dataBits : DataBits
  stopBits : StopBits
  parity : Parity
  flowControl : FlowControl
  portInfo : Option PortInfo
  logCapacity : ℕ
  logEnabled : Bool
  txFraming : Option TxFramingConfig
  rxFraming : Option RxFramingConfig
  rxParser : Option ParserConfig
  protocol : Option ProtocolPreset
  rxBufferSize : ℕ
  maxBufferedBytes : ℕ

/-- `ResolvedOpenSettings` -/
structure ResolvedOpenSettings where
  port : String
  name : Option String
  baudRate : ℕ
  dataBits : DataBits
  stopBits : StopBits
  parity : Parity
  flowControl : FlowControl
  logCapacity : ℕ
  logEnabled : Bool
  reconnectPolicy : ReconnectPolicy
  txFraming : Option TxFramingConfig
  rxFraming : Option RxFramingConfig
  rxParser : Option ParserConfig
  protocol : Option ProtocolPreset
  rxBufferSize : ℕ
  maxBufferedBytes : ℕ

namespace ResolvedOpenSettings

/-- `PartialEq` of the settings -/
def eq (r r' : ResolvedOpenSettings) : Bool :=
  r.port == r'.port && r.name == r'.name && r.baudRate == r'.baudRate &&
    dataBitsToStr r.dataBits == dataBitsToStr r'.dataBits &&
    stopBitsToStr r.stopBits == stopBitsToStr r'.stopBits &&
    parityToStr r.parity == parityToStr r'.parity &&
    flowControlToStr r.flowControl == flowControlToStr r'.flowControl &&
    r.logCapacity == r'.logCapacity && r.logEnabled == r'.logEnabled &&
    r.reconnectPolicy == r'.reconnectPolicy && decide (r.txFraming = r'.txFraming) &&
    decide (r.rxFraming = r'.rxFraming) && decide (r.rxParser = r'.rxParser) &&
    decide (r.protocol = r'.protocol) && r.rxBufferSize == r'.rxBufferSize &&
    r.maxBufferedBytes == r'.maxBufferedBytes

/-- The last part of a port's path. -/
def shortPortName (port : String) : String :=
  .ofList (port.toList.reverse.takeWhile (· ≠ '/')).reverse

/-- `resolve` -/
def resolve (port : String) (overlay : OpenOverlay) (profileDefaults : Option ProfileDefaults) :
    Except String ResolvedOpenSettings := do
  let base := profileDefaults.getD {}
  let name := overlay.name.or (base.name.map fun pre => pre ++ "-" ++ shortPortName port)
  let dataBits ← DataBits.fromStr (overlay.dataBits.getD base.dataBits)
  let stopBits ← StopBits.fromStr (overlay.stopBits.getD base.stopBits)
  let parity ← Parity.fromStr (overlay.parity.getD base.parity)
  let flowControl ← FlowControl.fromStr (overlay.flowControl.getD base.flowControl)
  let rxBufferSize ← validateOpenRxBufferSize (overlay.rxBufferSize.getD base.rxBufferSize)
  return {
    port, name, dataBits, stopBits, parity, flowControl, rxBufferSize
    baudRate := overlay.baudRate.getD base.baudRate
    logCapacity := overlay.logCapacity.getD base.logCapacity
    logEnabled := overlay.logEnabled.getD base.logEnabled
    reconnectPolicy := overlay.reconnectPolicy.getD base.reconnectPolicy
    txFraming := overlay.txFraming.or base.txFraming
    rxFraming := overlay.rxFraming.or base.rxFraming
    rxParser := overlay.rxParser.or base.rxParser
    protocol := overlay.protocol.or base.protocol
    maxBufferedBytes := overlay.maxBufferedBytes.getD base.maxBufferedBytes }

/-- `from_profile` -/
def fromProfile (port : String) (profile : Profile) : Except String ResolvedOpenSettings :=
  resolve port {} (some profile.defaults)

/-- `into_connection_config` -/
def intoConnectionConfig (r : ResolvedOpenSettings) (portInfo : Option PortInfo) :
    ConnectionConfig :=
  { r with portInfo }

/-- `as_profile_defaults` -/
def asProfileDefaults (r : ResolvedOpenSettings) : ProfileDefaults where
  baudRate := r.baudRate
  dataBits := dataBitsToStr r.dataBits
  stopBits := stopBitsToStr r.stopBits
  parity := parityToStr r.parity
  flowControl := flowControlToStr r.flowControl
  name := r.name
  txFraming := r.txFraming
  rxFraming := r.rxFraming
  rxParser := r.rxParser
  protocol := r.protocol
  rxBufferSize := r.rxBufferSize
  maxBufferedBytes := r.maxBufferedBytes
  reconnectPolicy := r.reconnectPolicy
  logCapacity := r.logCapacity
  logEnabled := r.logEnabled

section
variable {port : String} {overlay : OpenOverlay} {profileDefaults : Option ProfileDefaults}
  {defaults : ProfileDefaults} {r : ResolvedOpenSettings}

theorem validateOpenRxBufferSize_eq_ok {size n : ℕ} (h : validateOpenRxBufferSize size = .ok n) :
    n = size ∧ 0 < size ∧ size ≤ maxRxBufferSize := by
  obtain ⟨size', hmin, hmax⟩ := Except.bind_eq_ok h
  unfold requireMinOrErr at hmin
  split_ifs at hmin with hlow
  cases hmin
  unfold clampOrErr at hmax
  split_ifs at hmax with hhigh
  cases hmax
  exact ⟨rfl, Nat.not_lt.1 hlow, Nat.not_lt.1 hhigh⟩

/-- **Settings** are for the port that was asked for, and their ring is neither
    empty nor too large. -/
theorem resolve_ring (h : resolve port overlay profileDefaults = .ok r) :
    r.port = port ∧ 0 < r.rxBufferSize ∧ r.rxBufferSize ≤ maxRxBufferSize := by
  obtain ⟨dataBits, -, h⟩ := Except.bind_eq_ok h
  obtain ⟨stopBits, -, h⟩ := Except.bind_eq_ok h
  obtain ⟨parity, -, h⟩ := Except.bind_eq_ok h
  obtain ⟨flowControl, -, h⟩ := Except.bind_eq_ok h
  obtain ⟨size, hsize, h⟩ := Except.bind_eq_ok h
  cases h
  obtain ⟨rfl, hpos, hmax⟩ := validateOpenRxBufferSize_eq_ok hsize
  exact ⟨rfl, hpos, hmax⟩

/-- **Settings that a profile gives alone** are its defaults, but for the name, which
    gets the port's, and for the case of two of them. -/
theorem asProfileDefaults_of_resolve (h : resolve port {} (some defaults) = .ok r) :
    r.asProfileDefaults = { defaults with
      name := defaults.name.map fun pre => pre ++ "-" ++ shortPortName port
      parity := defaults.parity.toLower
      flowControl := defaults.flowControl.toLower } := by
  obtain ⟨dataBits, hdata, h⟩ := Except.bind_eq_ok h
  obtain ⟨stopBits, hstop, h⟩ := Except.bind_eq_ok h
  obtain ⟨parity, hparity, h⟩ := Except.bind_eq_ok h
  obtain ⟨flowControl, hflow, h⟩ := Except.bind_eq_ok h
  obtain ⟨size, hsize, h⟩ := Except.bind_eq_ok h
  cases h
  obtain ⟨rfl, -, -⟩ := validateOpenRxBufferSize_eq_ok hsize
  simp only [asProfileDefaults, dataBitsToStr_of_fromStr hdata, stopBitsToStr_of_fromStr hstop,
    parityToStr_of_fromStr hparity, flowControlToStr_of_fromStr hflow]
  rfl

end

end ResolvedOpenSettings

end SerialMcp
