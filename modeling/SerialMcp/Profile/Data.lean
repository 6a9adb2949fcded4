/-
  Profiles (`profiles.rs`) and the settings they hold.

  Equality of the defaults is the derived `PartialEq` of the source, so it is a
  test and not equality: `backoff_multiplier` is an `f64`, which differs from
  itself when it is not a number, and two zeros of it are equal.
-/
import SerialMcp.Framing.Encode

namespace SerialMcp

/-! ## Numbers -/

/-- The bits of an `f64`. -/
structure F64 where
  bits : UInt64
  deriving DecidableEq, Repr

namespace F64

def two : F64 := ⟨0x4000000000000000⟩

def isNan (x : F64) : Bool := 0x7ff0000000000000 < (x.bits &&& 0x7fffffffffffffff)

def isZero (x : F64) : Bool := (x.bits &&& 0x7fffffffffffffff) == 0

/-- `==` on `f64` -/
instance : BEq F64 where
  beq x y := !x.isNan && !y.isNan && (x.bits == y.bits || x.isZero && y.isZero)

theorem beq_self (x : F64) : (x == x) = !x.isNan := by
  show (!x.isNan && !x.isNan && (x.bits == x.bits || x.isZero && x.isZero)) = !x.isNan
  simp

end F64

/-! ## Settings -/

/-- `TxFramingConfig` -/
structure TxFramingConfig where
  mode : TxFramingMode
  deriving DecidableEq, Repr

/-- `ProtocolPreset` -/
inductive ProtocolPreset where
  | atCommand
  | slip
  | jsonLines
  | cobs
  | ndjson
  | nmea0183
  | modbusAscii
  deriving DecidableEq, Repr

/-- `ReconnectPolicy` -/
structure ReconnectPolicy where
  enabled : Bool := false
  /-- 0 is unlimited -/
  maxAttempts : ℕ := 10
  initialDelayMs : ℕ := 500
  maxDelayMs : ℕ := 30000
  backoffMultiplier : F64 := .two
  deriving DecidableEq, BEq, Repr

/-- `DEFAULT_RX_BUFFER_SIZE` -/
def defaultRxBufferSize : ℕ := 256 * 1024

/-- `ProfileDefaults`, with `ProfileDefaults::default` as the default values. -/
structure ProfileDefaults where
  baudRate : ℕ := 115200
  dataBits : String := "8"
  stopBits : String := "1"
  parity : String := "none"
  flowControl : String := "none"
  /-- the prefix of the connection's name -/
  name : Option String := none
  txFraming : Option TxFramingConfig := none
  rxFraming : Option RxFramingConfig := none
  rxParser : Option ParserConfig := none
  protocol : Option ProtocolPreset := none
  rxBufferSize : ℕ := defaultRxBufferSize
  maxBufferedBytes : ℕ := 32768
  reconnectPolicy : ReconnectPolicy := {}
  logCapacity : ℕ := 1024
  logEnabled : Bool := true
  deriving DecidableEq, BEq, Repr

theorem ReconnectPolicy.beq_self (p : ReconnectPolicy) :
    (p == p) = !p.backoffMultiplier.isNan := by
  show instBEqReconnectPolicy.beq p p = _
  obtain ⟨enabled, maxAttempts, initialDelay, maxDelay, backoff⟩ := p
  simp [instBEqReconnectPolicy.beq, F64.beq_self]

/-- Defaults of which three settings may differ. -/
theorem ProfileDefaults.beq_with (d : ProfileDefaults) (name : Option String)
    (parity flowControl : String) : (d == { d with name, parity, flowControl }) =
      (d.name == name && d.parity == parity && d.flowControl == flowControl &&
        !d.reconnectPolicy.backoffMultiplier.isNan) := by
  show instBEqProfileDefaults.beq _ _ = _
  obtain ⟨⟩ := d
  simp [instBEqProfileDefaults.beq, ReconnectPolicy.beq_self, Bool.and_comm, Bool.and_assoc,
    Bool.and_left_comm]

/-! ## Profiles -/

/-- `ProfileSelector`: every field that is given must agree with the port. -/
structure ProfileSelector where
  vid : Option ℕ := none
  pid : Option ℕ := none
  serialNumber : Option String := none
  manufacturer : Option String := none
  product : Option String := none
  interface : Option ℕ := none
  /-- a glob for the port's name -/
  portPattern : Option String := none
  /-- a glob for its description -/
  descriptionPattern : Option String := none
  transport : Option String := none
  hardwareId : Option String := none
  deriving DecidableEq, Repr

/-- `ProfileMetadata` -/
structure ProfileMetadata where
  generated : Bool
  revision : ℕ
  createdAtMs : Option ℕ
  updatedAtMs : Option ℕ
  lastUsedAtMs : Option ℕ
  useCount : ℕ
  deriving DecidableEq, Repr

/-- `ProfileRevision`: a selector and defaults that were replaced, and the
    revision that had them. -/
structure ProfileRevision where
  revision : ℕ
  savedAtMs : ℕ
  selector : ProfileSelector
  defaults : ProfileDefaults
  deriving DecidableEq, Repr

/-- `Profile` -/
structure Profile where
  name : String
  selector : ProfileSelector
  defaults : ProfileDefaults
  metadata : ProfileMetadata
  /-- what was replaced, oldest first -/
  revisions : List ProfileRevision
  deriving DecidableEq, Repr

/-- A profile but for its use: `use_count` and `last_used_at_ms`. -/
def Profile.withoutUse (p : Profile) : Profile :=
  { p with metadata := { p.metadata with lastUsedAtMs := none, useCount := 0 } }

/-- `MAX_PROFILE_REVISIONS` -/
def maxProfileRevisions : ℕ := 5

end SerialMcp
