/-
  RX framing and parser configuration (`framing/config.rs`): the shapes a
  caller supplies with `read`, `transact` and `capture_boot`.
-/
import SerialMcp.Codec

namespace SerialMcp

/-- Line ending style for RX line framing. -/
inductive LineEnding where
  /-- starts in LF/CRLF mode; a bare CR switches to CR mode -/
  | auto
  | lf
  | cr
  | crlf
  deriving DecidableEq, Repr

/-- Byte order for length-prefixed framing. -/
inductive Endianness where
  | big
  | little
  deriving DecidableEq, Repr

/-- How frame boundaries are detected in the byte stream. -/
inductive RxFramingMode where
  | line (ending : LineEnding)
  | delimiter (delimiter : String) (delimiterEncoding : PatternEncoding)
  | lengthPrefixed (prefixSize : ℕ) (endianness : Endianness) (initialOffset : Option ℕ)
  | startEnd (start : List String) (fin : String) (markerEncoding : PatternEncoding)
      (includeMarkers : Bool)
  | slip
  | cobs
  deriving DecidableEq, Repr

/-- RX framing configuration. -/
structure RxFramingConfig where
  mode : RxFramingMode
  /-- stop after this many frames -/
  maxFrames : Option ℕ := none
  /-- keep terminators and delimiters in the frame data -/
  includeTerminators : Bool := false
  /-- skip empty and whitespace-only frames -/
  skipEmpty : Bool := false
  deriving DecidableEq, Repr

/-- Supported parser types. -/
inductive ParserType where
  | atCommand
  | jsonLines
  | shellPrompt
  | raw
  | nmea
  | modbusAscii
  deriving DecidableEq, Repr

/-- Parser configuration for each frame's content. -/
structure ParserConfig where
  parserType : ParserType
  /-- a regex for the shell prompt parser -/
  customPrompt : Option String := none
  /-- drop frames with a wrong checksum -/
  validate : Bool := false
  deriving DecidableEq, Repr

end SerialMcp
