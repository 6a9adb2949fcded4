/-
  Protocol presets (`framing/config.rs`) and what decides between them and the
  other sources of a setting (`precedence.rs`).

  * `resolveField`: the call's own field, else its preset, else the default of
    the connection, else the connection's preset;
  * `presetTxFraming`, `presetRxFraming`, `presetRxParser`: what a preset stands
    for;
  * `preset_builds`: every preset is a valid configuration.
-/
import SerialMcp.Profile.Data

namespace SerialMcp

/-! ## Precedence -/

section
variable {α : Type}

/-- `resolve_field` -/
def resolveField (explicit : Option α) (callProtocol : Option ProtocolPreset)
    (applyPreset : ProtocolPreset → α) (connDefault : Option α)
    (connProtocol : Option ProtocolPreset) : Option α :=
  match explicit, callProtocol, connDefault with
  | some explicit, _, _ => some explicit
  | none, some p, _ => some (applyPreset p)
  | none, none, some def_ => some def_
  | none, none, none => connProtocol.map applyPreset

end

/-! ## Presets -/

/-- `preset_tx_framing` -/
def presetTxFraming : ProtocolPreset → TxFramingConfig
  | .atCommand => ⟨.line .cr⟩
  | .slip => ⟨.slip⟩
  | .jsonLines | .ndjson => ⟨.line .lf⟩
  | .cobs => ⟨.cobs⟩
  | .nmea0183 => ⟨.nmea⟩
  | .modbusAscii => ⟨.startEnd [":"] "\r\n" .utf8⟩

/-- The mode and `skip_empty` of `preset_rx_framing`. -/
def presetRxMode : ProtocolPreset → RxFramingMode × Bool
  | .atCommand | .jsonLines => (.line .auto, false)
  | .slip => (.slip, false)
  | .cobs => (.cobs, false)
  | .ndjson => (.line .auto, true)
  | .nmea0183 => (.startEnd ["$", "!"] "\r\n" .utf8 false, false)
  | .modbusAscii => (.startEnd [":"] "\r\n" .utf8 false, false)

/-- `preset_rx_framing` -/
def presetRxFraming (p : ProtocolPreset) : RxFramingConfig where
  mode := (presetRxMode p).1
  maxFrames := none
  includeTerminators := false
  skipEmpty := (presetRxMode p).2

/-- The type and `validate` of `preset_rx_parser`. -/
def presetParserType : ProtocolPreset → ParserType × Bool
  | .atCommand => (.atCommand, false)
  | .slip | .cobs => (.raw, false)
  | .jsonLines | .ndjson => (.jsonLines, false)
  | .nmea0183 => (.nmea, true)
  | .modbusAscii => (.modbusAscii, true)

/-- `preset_rx_parser` -/
def presetRxParser (p : ProtocolPreset) : ParserConfig where
  parserType := (presetParserType p).1
  customPrompt := none
  validate := (presetParserType p).2

/-- **Presets are valid**: the framing and the parser of a preset make a decoder. -/
theorem preset_builds (crates : Crates) (p : ProtocolPreset) :
    ∃ d, FrameDecoder.new crates (presetRxFraming p) (some (presetRxParser p)) = .ok d := by
  cases p with
  | atCommand | slip | jsonLines | cobs | ndjson | nmea0183 | modbusAscii => exact ⟨_, rfl⟩

end SerialMcp
