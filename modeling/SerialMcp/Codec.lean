/-
  Decoding tool strings into bytes (`codec.rs`), and the third-party crates
  that the codec, the parsers and the matcher call.

  The crates are not part of the repository: `Crates` collects the functions
  that are called, and every result about the program holds for all of them.
-/
import SerialMcp.Text

namespace SerialMcp

/-! ## Third-party crates -/

/-- A number of `serde_json`: an unsigned or negative 64-bit integer, or the
    bits of an `f64`. -/
inductive JsonNumber where
  | posInt (n : UInt64)
  | negInt (n : Int64)
  | float (bits : UInt64)
  deriving DecidableEq, Repr

/-- `serde_json::Value` -/
inductive JsonValue where
  | null
  | bool (b : Bool)
  | number (n : JsonNumber)
  | string (s : String)
  | array (items : List JsonValue)
  | object (entries : List (String × JsonValue))
  deriving Repr

/-- `Value::is_object` -/
def JsonValue.isObject : JsonValue → Bool
  | .object _ => true
  | _ => false

/-- A compiled `regex::bytes::Regex`. -/
structure Regex where
  /-- the leftmost match, as its start and end -/
  find : Bytes → Option (ℕ × ℕ)
  find_le : ∀ w m, find w = some m → m.1 ≤ m.2 ∧ m.2 ≤ w.length

/-- `Regex::is_match` -/
def Regex.isMatch (re : Regex) (w : Bytes) : Bool := (re.find w).isSome

/-- The functions of third-party crates; errors are given by their text. -/
structure Crates where
  /-- `hex::decode` -/
  hexDecode : Text → Except String Bytes
  /-- `base64` with the engine `STANDARD` -/
  base64Standard : Text → Except String Bytes
  /-- `base64` with the engine `URL_SAFE_NO_PAD` -/
  base64UrlSafeNoPad : Text → Except String Bytes
  /-- `regex::bytes::Regex::new` -/
  regexNew : Text → Except String Regex
  /-- `glob::Pattern::new`, then `Pattern::matches` -/
  globNew : Text → Except String (Text → Bool)
  /-- `serde_json::from_slice::<Value>` -/
  jsonFromSlice : Bytes → Option JsonValue

/-- Crates that refuse every input, for runs in which none of them is called. -/
def Crates.refusing : Crates where
  hexDecode _ := .error ""
  base64Standard _ := .error ""
  base64UrlSafeNoPad _ := .error ""
  regexNew _ := .error ""
  globNew _ := .error ""
  jsonFromSlice _ := none

/-! ## The codec -/

/-- `codec::Encoding` -/
inductive Encoding where
  | utf8
  | hex
  | base64
  deriving DecidableEq, Repr

/-- `match_config::PatternEncoding` has the same values as `Encoding`. -/
inductive PatternEncoding where
  | utf8
  | hex
  | base64
  deriving DecidableEq, Repr

/-- `From<PatternEncoding> for Encoding` -/
def PatternEncoding.toEncoding : PatternEncoding → Encoding
  | .utf8 => .utf8
  | .hex => .hex
  | .base64 => .base64

/-- The errors of `codec::decode`. -/
inductive CodecError where
  | invalidHex (e : String)
  | invalidBase64 (e : String)
  | hexOddLength
  deriving DecidableEq, Repr

/-- `Display for CodecError` -/
def CodecError.toText : CodecError → String
  | .invalidHex e => "Invalid hex: " ++ e
  | .invalidBase64 e => "Invalid base64: " ++ e
  | .hexOddLength => "Hex string must have even length"

section
variable (crates : Crates)

/-- `decode_hex` -/
def decodeHex (input : Text) : Except CodecError Bytes :=
  let stripped := (trim input).filter (· ≠ ' ')
  if (asBytes stripped).length % 2 ≠ 0 then .error .hexOddLength
  else (crates.hexDecode stripped).mapError .invalidHex

/-- `decode_base64`: the error of the second attempt is reported. -/
def decodeBase64 (input : Text) : Except CodecError Bytes :=
  let trimmed := trim input
  match crates.base64Standard trimmed with
  | .ok bytes => .ok bytes
  | .error _ => (crates.base64UrlSafeNoPad trimmed).mapError .invalidBase64

/-- `codec::decode` -/
def decode (encoding : Encoding) (input : Text) : Except CodecError Bytes :=
  match encoding with
  | .utf8 => .ok (asBytes input)
  | .hex => decodeHex crates input
  | .base64 => decodeBase64 crates input

end

end SerialMcp
