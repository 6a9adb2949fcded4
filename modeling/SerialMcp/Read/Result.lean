/-
  The result of a read (`tools/result_builders.rs`), and how its payloads are
  encoded (`codec.rs`).

  * `encodeOrHex`: the encoding that was requested, else spaced hex;
  * `buildReadResult`: the answer of a tool call;
  * `read_lossless`: payloads are always encoded, and decode to their bytes.
-/
import SerialMcp.Read.Loop
import SerialMcp.Utf8

namespace SerialMcp

/-! ## Encoding -/

/-- The functions of third-party crates that encode. -/
structure RxCrates extends Crates where
  /-- `base64` with the engine `STANDARD` -/
  base64Encode : Bytes → Text
  /-- `Display for FromUtf8Error` -/
  fromUtf8Error : Bytes → String

/-- `Display for Encoding` -/
def Encoding.toText : Encoding → String
  | .utf8 => "utf8"
  | .hex => "hex"
  | .base64 => "base64"

/-- `{b:02x}` -/
def hexByteLower (b : UInt8) : Text := [Nat.digitChar (b.toNat / 16), Nat.digitChar (b.toNat % 16)]

/-- `encode_hex_spaced` -/
def encodeHexSpaced (bytes : Bytes) : Text := [' '].intercalate (bytes.map hexByteLower)

section
variable (crates : RxCrates)

/-- `codec::encode`; the error is given by its text. -/
def encode (encoding : Encoding) (bytes : Bytes) : Except String Text :=
  match encoding with
  | .utf8 =>
    match fromUtf8 bytes with
    | some s => .ok s
    | none => .error ("Invalid UTF-8: " ++ crates.fromUtf8Error bytes)
  | .hex => .ok (encodeHexSpaced bytes)
  | .base64 => .ok (crates.base64Encode bytes)

/-- `EncodedPayload` -/
structure EncodedPayload where
  data : Text
  encoding : Encoding
  /-- why the payload is not encoded as requested -/
  fallbackReason : Option String
  deriving DecidableEq, Repr

/-- `encode_or_hex` -/
def encodeOrHex (requested : Encoding) (bytes : Bytes) : Except String EncodedPayload :=
  match encode crates requested bytes with
  | .ok data => .ok ⟨data, requested, none⟩
  | .error e => (encode crates .hex bytes).map fun data => ⟨data, .hex, some e⟩

/-! ## Results -/

/-- `Display for RxStopReason` -/
def RxStopReason.toText : RxStopReason → String
  | .dataComplete => "data_complete"
  | .timeout => "timeout"
  | .matchFound => "match_found"
  | .maxBufferedBytes => "max_buffered_bytes"
  | .noNewRxTimeout => "no_new_rx_timeout"
  | .connectionClosed => "connection_closed"
  | .cancelled => "cancelled"
  | .maxFrames => "max_frames"
  | .framingError => "framing_error"
  | .drained => "drained"

/-- The text of `frame_type_str`. -/
def FrameType.toText : FrameType → String
  | .line => "line"
  | .delimiter => "delimiter"
  | .lengthPrefixed => "length_prefixed"
  | .startEnd => "start_end"
  | .slip => "slip"
  | .cobs => "cobs"

/-- `FrameResult` -/
structure FrameResult where
  data : Text
  encoding : String
  frameIndex : ℕ
  frameType : String
  parsed : Option ParsedFrame

/-- `ReadResult` -/
structure ReadResult where
  connectionId : String
  name : Option String
  bytesRead : ℕ
  encoding : String
  data : Text
  timeoutMs : ℕ
  noNewRxTimeoutMs : Option ℕ
  elapsedMs : ℕ
  stopReason : String
  truncated : Bool
  bytesObserved : ℕ
  bytesReturned : ℕ
  matched : Bool
  matchIndex : Option ℕ
  matchFrameIndex : Option ℕ
  frames : Option (List FrameResult)
  framesDropped : ℕ
  error : Option String
  fromOffset : Option ℕ
  nextOffset : Option ℕ
  bytesLost : ℕ
  bufferedRemaining : ℕ
  startOffset : ℕ
  endOffset : ℕ

/-- A frame of the result; none if it cannot be encoded. -/
def frameResult (encoding : Encoding) (f : Frame) : Option FrameResult :=
  match encodeOrHex crates encoding f.data with
  | .ok payload => some
      { data := payload.data
        encoding := payload.encoding.toText
        frameIndex := f.index
        frameType := f.frameType.toText
        parsed := f.parsed }
  | .error _ => none

/-- `build_read_result` -/
def buildReadResult (outcome : ReadOutcome) (connectionId : String) (name : Option String)
    (encoding : Encoding) (requestedTimeoutMs requestedNoNewRxTimeoutMs : Option ℕ) :
    Except String ReadResult :=
  match encodeOrHex crates encoding outcome.bytes with
  | .error e => .error ("Data encoding failed - " ++ e)
  | .ok payload =>
    let encodedFrames := outcome.frames.filterMap (frameResult crates encoding)
    let failed := outcome.frames.countP fun f => (frameResult crates encoding f).isNone
    .ok
      { connectionId, name
        bytesRead := outcome.bytes.length
        encoding := payload.encoding.toText
        data := payload.data
        timeoutMs := requestedTimeoutMs.getD defaultReadTimeoutMs
        noNewRxTimeoutMs := requestedNoNewRxTimeoutMs
        elapsedMs := outcome.elapsedMs
        stopReason := outcome.metadata.stopReason.toText
        truncated := outcome.metadata.truncated
        bytesObserved := outcome.metadata.bytesObserved
        bytesReturned := outcome.metadata.bytesReturned
        matched := outcome.matched
        matchIndex := outcome.matchIndex
        matchFrameIndex := outcome.matchFrameIndex
        frames := if encodedFrames.isEmpty then none else some encodedFrames
        framesDropped := outcome.framesDropped + failed
        error := outcome.error
        fromOffset := outcome.fromOffset
        nextOffset := outcome.nextOffset
        bytesLost := outcome.bytesLost
        bufferedRemaining := outcome.bufferedRemaining
        startOffset := outcome.startOffset
        endOffset := outcome.endOffset }

end

/-! ## Stripping -/

section
variable {s : Text}

theorem filter_dropWhile (h : ∀ c ∈ s, isWhitespace c = true → c = ' ') :
    (s.dropWhile isWhitespace).filter (· ≠ ' ') = s.filter (· ≠ ' ') := by
  induction s with
  | nil => rfl
  | cons c s ih =>
    rw [List.dropWhile_cons]
    split_ifs with hc
    · rw [ih fun d hd => h d (List.mem_cons_of_mem c hd), h c List.mem_cons_self hc]
      rfl
    · rfl

/-- Where the only white space is the space, trimming strips nothing else. -/
theorem filter_trim (h : ∀ c ∈ s, isWhitespace c = true → c = ' ') :
    (trim s).filter (· ≠ ' ') = s.filter (· ≠ ' ') := by
  have hfront : ∀ c ∈ (s.dropWhile isWhitespace).reverse, isWhitespace c = true → c = ' ' :=
    fun c hc => h c ((List.dropWhile_suffix _).subset (List.mem_reverse.1 hc))
  rw [trim, trimEnd, List.filter_reverse, filter_dropWhile hfront, ← List.filter_reverse,
    List.reverse_reverse, filter_dropWhile h]

theorem trim_of_not_whitespace (h : ∀ c ∈ s, isWhitespace c = false) : trim s = s := by
  have hkeep {t : Text} (ht : ∀ c ∈ t, isWhitespace c = false) : t.dropWhile isWhitespace = t := by
    rcases t with _ | ⟨c, t⟩
    · rfl
    · rw [List.dropWhile_cons, if_neg (by simp [ht c List.mem_cons_self])]
  rw [trim, hkeep h, trimEnd, hkeep fun c hc => h c (List.mem_reverse.1 hc), List.reverse_reverse]

end

/-! ## Hex -/

/-- `hex::encode` -/
def hexEncode (bytes : Bytes) : Text := bytes.flatMap hexByteLower

theorem digitChar_spec {n : ℕ} (hn : n < 16) : isWhitespace (Nat.digitChar n) = false ∧
    Nat.digitChar n ≠ ' ' ∧ (Nat.digitChar n).utf8Size = 1 := by
  revert n
  decide

theorem mem_hexByteLower {b : UInt8} {c : Char} (hc : c ∈ hexByteLower b) :
    isWhitespace c = false ∧ c ≠ ' ' ∧ c.utf8Size = 1 := by
  have hb := b.toNat_lt
  rcases List.mem_pair.1 hc with rfl | rfl
  · exact digitChar_spec (by omega)
  · exact digitChar_spec (by omega)

theorem encodeHexSpaced_cons (b b' : UInt8) (rest : Bytes) :
    encodeHexSpaced (b :: b' :: rest) = hexByteLower b ++ ' ' :: encodeHexSpaced (b' :: rest) := by
  simp [encodeHexSpaced, List.intercalate_cons_cons]

theorem encodeHexSpaced_singleton (b : UInt8) : encodeHexSpaced [b] = hexByteLower b := by
  simp [encodeHexSpaced]

theorem mem_encodeHexSpaced {bytes : Bytes} {c : Char} (hc : c ∈ encodeHexSpaced bytes) :
    c = ' ' ∨ isWhitespace c = false := by
  induction bytes with
  | nil => cases hc
  | cons b rest ih =>
    rcases rest with _ | ⟨b', rest⟩
    · rw [encodeHexSpaced_singleton] at hc
      exact .inr (mem_hexByteLower hc).1
    · rw [encodeHexSpaced_cons, List.mem_append, List.mem_cons] at hc
      rcases hc with hc | rfl | hc
      · exact .inr (mem_hexByteLower hc).1
      · exact .inl rfl
      · exact ih hc

theorem filter_encodeHexSpaced (bytes : Bytes) :
    (encodeHexSpaced bytes).filter (· ≠ ' ') = hexEncode bytes := by
  have hdigits (b : UInt8) : (hexByteLower b).filter (· ≠ ' ') = hexByteLower b := by
    rw [List.filter_eq_self]
    intro c hc
    simpa using (mem_hexByteLower hc).2.1
  induction bytes with
  | nil => rfl
  | cons b rest ih =>
    rw [hexEncode, List.flatMap_cons, ← hexEncode, ← ih]
    rcases rest with _ | ⟨b', rest⟩
    · rw [encodeHexSpaced_singleton, hdigits]
      exact (List.append_nil _).symm
    · rw [encodeHexSpaced_cons, List.filter_append, hdigits]
      rfl

theorem asBytes_hexEncode_length (bytes : Bytes) :
    (asBytes (hexEncode bytes)).length = 2 * bytes.length := by
  induction bytes with
  | nil => rfl
  | cons b rest ih =>
    have hcons : hexEncode (b :: rest) = Nat.digitChar (b.toNat / 16) ::
        Nat.digitChar (b.toNat % 16) :: hexEncode rest := rfl
    have hhigh := (mem_hexByteLower (b := b) List.mem_cons_self).2.2
    have hlow := (mem_hexByteLower (b := b) (List.mem_cons_of_mem _ List.mem_cons_self)).2.2
    rw [hcons, asBytes_cons_length, asBytes_cons_length, hhigh, hlow, ih, List.length_cons]
    omega

/-! ## Lossless payloads -/

/-- What is known of the crates: their decoders invert their encoders, and
    base64 text is made of its alphabet. -/
structure RxCrates.Inverse (crates : RxCrates) : Prop where
  hex : ∀ bytes, crates.hexDecode (hexEncode bytes) = .ok bytes
  base64 : ∀ bytes, crates.base64Standard (crates.base64Encode bytes) = .ok bytes
  alphabet : ∀ bytes, ∀ c ∈ crates.base64Encode bytes,
    c.isAlphanum = true ∨ c = '+' ∨ c = '/' ∨ c = '='

/-- A payload that is shown as `data`, in an encoding that is the requested one
    unless the payload is no text. -/
structure Shows (crates : RxCrates) (requested : Encoding) (bytes : Bytes) (effective : Encoding)
    (data : Text) : Prop where
  decodes : decode crates.toCrates effective data = .ok bytes
  effective : effective ≠ requested → requested = .utf8 ∧ ∀ s : Text, asBytes s ≠ bytes

theorem isWhitespace_alphabet {c : Char}
    (h : c.isAlphanum = true ∨ c = '+' ∨ c = '/' ∨ c = '=') : isWhitespace c = false := by
  rcases h with h | rfl | rfl | rfl
  · have hranges : c.isAlphanum = (decide (c.val ≥ 65 ∧ c.val ≤ 90) ||
        decide (c.val ≥ 97) && decide (c.val ≤ 122) ||
        decide (c.val ≥ 48) && decide (c.val ≤ 57)) := rfl
    simp only [hranges, Bool.or_eq_true, Bool.and_eq_true, decide_eq_true_eq,
      UInt32.le_iff_toNat_le, ge_iff_le, UInt32.reduceToNat] at h
    have hval : c.toNat = c.val.toNat := rfl
    simp only [isWhitespace, hval, decide_eq_false_iff_not]
    omega
  all_goals decide

section
variable {crates : RxCrates}

theorem decode_encodeHexSpaced (h : crates.Inverse) (bytes : Bytes) :
    decode crates.toCrates .hex (encodeHexSpaced bytes) = .ok bytes := by
  have hstripped : (trim (encodeHexSpaced bytes)).filter (· ≠ ' ') = hexEncode bytes := by
    rw [filter_trim, filter_encodeHexSpaced]
    intro c hc hwhite
    refine (mem_encodeHexSpaced hc).resolve_right fun hnot => ?_
    rw [hnot] at hwhite
    cases hwhite
  have heven : ¬ (asBytes (hexEncode bytes)).length % 2 ≠ 0 := by
    rw [asBytes_hexEncode_length]
    omega
  rw [decode, decodeHex, hstripped, if_neg heven, h.hex]
  rfl

theorem decode_base64Encode (h : crates.Inverse) (bytes : Bytes) :
    decode crates.toCrates .base64 (crates.base64Encode bytes) = .ok bytes := by
  have htrim : trim (crates.base64Encode bytes) = crates.base64Encode bytes :=
    trim_of_not_whitespace fun c hc => isWhitespace_alphabet (h.alphabet bytes c hc)
  rw [decode, decodeBase64, htrim, h.base64]

/-- **Encoding succeeds**, with the bytes in it. -/
theorem encodeOrHex_shows (h : crates.Inverse) (requested : Encoding) (bytes : Bytes) :
    ∃ payload, encodeOrHex crates requested bytes = .ok payload ∧
      Shows crates requested bytes payload.encoding payload.data := by
  cases requested with
  | utf8 =>
    rcases htext : fromUtf8 bytes with _ | s
    · refine ⟨⟨encodeHexSpaced bytes, .hex, some ("Invalid UTF-8: " ++ crates.fromUtf8Error bytes)⟩,
        ?_, decode_encodeHexSpaced h bytes, fun _ => ⟨rfl, fun s hs => ?_⟩⟩
      · simp only [encodeOrHex, encode, htext]
        rfl
      rw [fromUtf8_eq_some.2 hs.symm] at htext
      cases htext
    · refine ⟨⟨s, .utf8, none⟩, by simp [encodeOrHex, encode, htext], ?_, fun hne => absurd rfl hne⟩
      rw [decode, fromUtf8_eq_some.1 htext]
  | hex => exact ⟨_, rfl, decode_encodeHexSpaced h bytes, fun hne => absurd rfl hne⟩
  | base64 => exact ⟨_, rfl, decode_base64Encode h bytes, fun hne => absurd rfl hne⟩

/-- A payload of a result: its encoding is named beside it. -/
def ShownAs (crates : RxCrates) (requested : Encoding) (bytes : Bytes) (encoding : String)
    (data : Text) : Prop :=
  ∃ effective : Encoding, encoding = effective.toText ∧ Shows crates requested bytes effective data

theorem frameResult_shown (h : crates.Inverse) (encoding : Encoding) (f : Frame) :
    ∃ r, frameResult crates encoding f = some r ∧
      ShownAs crates encoding f.data r.encoding r.data ∧ r.frameIndex = f.index := by
  obtain ⟨payload, hpayload, hshows⟩ := encodeOrHex_shows h encoding f.data
  rw [frameResult, hpayload]
  exact ⟨_, rfl, ⟨payload.encoding, rfl, hshows⟩, rfl⟩

/-- No frame is left out. -/
theorem filterMap_frameResult (h : crates.Inverse) (encoding : Encoding) (frames : List Frame) :
    List.Forall₂ (fun f r => ShownAs crates encoding f.data r.encoding r.data ∧
        r.frameIndex = f.index)
      frames (frames.filterMap (frameResult crates encoding)) ∧
    frames.countP (fun f => (frameResult crates encoding f).isNone) = 0 := by
  induction frames with
  | nil => exact ⟨.nil, rfl⟩
  | cons f frames ih =>
    obtain ⟨r, hr, hshown⟩ := frameResult_shown h encoding f
    obtain ⟨hrest, hcount⟩ := ih
    rw [List.filterMap_cons, hr, List.countP_cons, hcount, hr]
    exact ⟨.cons hshown hrest, rfl⟩

/-- **Payloads are lossless**: encoding never fails, and the data of a read and of
    all its frames decode to their bytes. -/
theorem read_lossless (h : crates.Inverse) :
    (∀ requested bytes, ∃ payload, encodeOrHex crates requested bytes = .ok payload ∧
      Shows crates requested bytes payload.encoding payload.data) ∧
    ∀ outcome connectionId name encoding timeoutMs noNewRxTimeoutMs, ∃ result,
      buildReadResult crates outcome connectionId name encoding timeoutMs noNewRxTimeoutMs =
        .ok result ∧
      ShownAs crates encoding outcome.bytes result.encoding result.data ∧
      List.Forall₂ (fun f r => ShownAs crates encoding f.data r.encoding r.data ∧
          r.frameIndex = f.index) outcome.frames (result.frames.getD []) ∧
      result.framesDropped = outcome.framesDropped := by
  refine ⟨encodeOrHex_shows h, fun outcome connectionId name encoding _ _ => ?_⟩
  obtain ⟨payload, hpayload, hshows⟩ := encodeOrHex_shows h encoding outcome.bytes
  obtain ⟨hframes, hcount⟩ := filterMap_frameResult h encoding outcome.frames
  rw [buildReadResult, hpayload]
  refine ⟨_, rfl, ⟨payload.encoding, rfl, hshows⟩, ?_, ?_⟩
  · dsimp only
    split_ifs with hempty
    · rw [List.isEmpty_iff.1 hempty] at hframes
      exact hframes
    · exact hframes
  · dsimp only
    rw [hcount, Nat.add_zero]

end

/-! ## Standard crates -/

/-- The character of six bits. -/
def base64Char (n : ℕ) : Char :=
  if n < 26 then Char.ofNat (65 + n)
  else if n < 52 then Char.ofNat (71 + n)
  else if n < 62 then Char.ofNat (n - 4)
  else if n = 62 then '+' else '/'

/-- The six bits of a character. -/
def base64Value (c : Char) : Option ℕ :=
  if 'A' ≤ c ∧ c ≤ 'Z' then some (c.toNat - 65)
  else if 'a' ≤ c ∧ c ≤ 'z' then some (c.toNat - 71)
  else if '0' ≤ c ∧ c ≤ '9' then some (c.toNat + 4)
  else if c = '+' then some 62
  else if c = '/' then some 63
  else none

/-- Three bytes as four characters, with padding at the end. -/
def base64Encode : Bytes → Text
  | [] => []
  | [a] => [base64Char (a.toNat / 4), base64Char (a.toNat % 4 * 16), '=', '=']
  | [a, b] => [base64Char (a.toNat / 4), base64Char (a.toNat % 4 * 16 + b.toNat / 16),
      base64Char (b.toNat % 16 * 4), '=']
  | a :: b :: c :: rest => base64Char (a.toNat / 4) ::
      base64Char (a.toNat % 4 * 16 + b.toNat / 16) ::
      base64Char (b.toNat % 16 * 4 + c.toNat / 64) :: base64Char (c.toNat % 64) ::
      base64Encode rest

/-- Four characters as three bytes; the bits behind the last byte are zero. -/
def base64Decode : Text → Option Bytes
  | [] => some []
  | w :: x :: y :: z :: rest => do
    let w ← base64Value w
    let x ← base64Value x
    if z = '=' ∧ rest = [] then
      if y = '=' then
        if x % 16 = 0 then some [UInt8.ofNat (w * 4 + x / 16)] else none
      else
        let y ← base64Value y
        if y % 4 = 0 then
          some [UInt8.ofNat (w * 4 + x / 16), UInt8.ofNat (x % 16 * 16 + y / 4)]
        else none
    else
      let y ← base64Value y
      let z ← base64Value z
      let rest ← base64Decode rest
      some (UInt8.ofNat (w * 4 + x / 16) :: UInt8.ofNat (x % 16 * 16 + y / 4) ::
        UInt8.ofNat (y % 4 * 64 + z) :: rest)
  | _ => none

theorem base64Char_spec {n : ℕ} (hn : n < 64) : base64Value (base64Char n) = some n ∧
    base64Char n ≠ '=' ∧
    ((base64Char n).isAlphanum = true ∨ base64Char n = '+' ∨ base64Char n = '/') := by
  revert n
  decide

theorem base64Decode_encode (bytes : Bytes) : base64Decode (base64Encode bytes) = some bytes := by
  fun_induction base64Encode bytes with
  | case1 => rfl
  | case2 a =>
    have ha := a.toNat_lt
    have hw := (base64Char_spec (n := a.toNat / 4) (by omega)).1
    have hx := (base64Char_spec (n := a.toNat % 4 * 16) (by omega)).1
    have hbyte : a.toNat / 4 * 4 + a.toNat % 4 * 16 / 16 = a.toNat := by omega
    simp only [base64Decode, hw, hx, hbyte, Option.bind_eq_bind, Option.bind_some, and_self,
      if_true, Nat.mul_mod_left, UInt8.ofNat_toNat]
  | case3 a b =>
    have ha := a.toNat_lt
    have hb := b.toNat_lt
    have hw := (base64Char_spec (n := a.toNat / 4) (by omega)).1
    have hx := (base64Char_spec (n := a.toNat % 4 * 16 + b.toNat / 16) (by omega)).1
    have hy := base64Char_spec (n := b.toNat % 16 * 4) (by omega)
    have hfirst : a.toNat / 4 * 4 + (a.toNat % 4 * 16 + b.toNat / 16) / 16 = a.toNat := by omega
    have hsecond : (a.toNat % 4 * 16 + b.toNat / 16) % 16 * 16 + b.toNat % 16 * 4 / 4 = b.toNat := by
      omega
    simp only [base64Decode, hw, hx, hy.1, hy.2.1, hfirst, hsecond, Option.bind_eq_bind,
      Option.bind_some, and_self, if_true, if_false, Nat.mul_mod_left, UInt8.ofNat_toNat]
  | case4 a b c rest ih =>
    have ha := a.toNat_lt
    have hb := b.toNat_lt
    have hc := c.toNat_lt
    have hw := (base64Char_spec (n := a.toNat / 4) (by omega)).1
    have hx := (base64Char_spec (n := a.toNat % 4 * 16 + b.toNat / 16) (by omega)).1
    have hy := (base64Char_spec (n := b.toNat % 16 * 4 + c.toNat / 64) (by omega)).1
    have hz := base64Char_spec (n := c.toNat % 64) (by omega)
    have hfirst : a.toNat / 4 * 4 + (a.toNat % 4 * 16 + b.toNat / 16) / 16 = a.toNat := by omega
    have hsecond : (a.toNat % 4 * 16 + b.toNat / 16) % 16 * 16 +
        (b.toNat % 16 * 4 + c.toNat / 64) / 4 = b.toNat := by omega
    have hthird : (b.toNat % 16 * 4 + c.toNat / 64) % 4 * 64 + c.toNat % 64 = c.toNat := by omega
    simp only [base64Decode, hw, hx, hy, hz.1, hz.2.1, ih, hfirst, hsecond, hthird,
      Option.bind_eq_bind, Option.bind_some, false_and, if_false, UInt8.ofNat_toNat]

theorem mem_base64Encode {bytes : Bytes} {c : Char} (hc : c ∈ base64Encode bytes) :
    c.isAlphanum = true ∨ c = '+' ∨ c = '/' ∨ c = '=' := by
  have hchar {n : ℕ} (hn : n < 64) : (base64Char n).isAlphanum = true ∨ base64Char n = '+' ∨
      base64Char n = '/' ∨ base64Char n = '=' := by
    rcases (base64Char_spec hn).2.2 with h | h | h <;> simp [h]
  fun_induction base64Encode bytes with
  | case1 => cases hc
  | case2 a =>
    have ha := a.toNat_lt
    simp only [List.mem_cons, List.not_mem_nil, or_false] at hc
    rcases hc with rfl | rfl | rfl | rfl
    · exact hchar (by omega)
    · exact hchar (by omega)
    all_goals decide
  | case3 a b =>
    have ha := a.toNat_lt
    have hb := b.toNat_lt
    simp only [List.mem_cons, List.not_mem_nil, or_false] at hc
    rcases hc with rfl | rfl | rfl | rfl
    · exact hchar (by omega)
    · exact hchar (by omega)
    · exact hchar (by omega)
    · decide
  | case4 a b c' rest ih =>
    have ha := a.toNat_lt
    have hb := b.toNat_lt
    have hc' := c'.toNat_lt
    simp only [List.mem_cons] at hc
    rcases hc with rfl | rfl | rfl | rfl | hc
    · exact hchar (by omega)
    · exact hchar (by omega)
    · exact hchar (by omega)
    · exact hchar (by omega)
    · exact ih hc

/-- Pairs of digits as bytes. -/
def hexDecode : Text → Except String Bytes
  | [] => .ok []
  | [_] => .error "Odd number of digits"
  | c :: d :: rest => do
    match hexDigit c, hexDigit d with
    | some high, some low => return UInt8.ofNat (16 * high + low) :: (← hexDecode rest)
    | _, _ => .error "Invalid character"

theorem hexDigit_digitChar {n : ℕ} (hn : n < 16) : hexDigit (Nat.digitChar n) = some n := by
  revert n
  decide

theorem hexDecode_encode (bytes : Bytes) : hexDecode (hexEncode bytes) = .ok bytes := by
  induction bytes with
  | nil => rfl
  | cons b rest ih =>
    have hb := b.toNat_lt
    have hcons : hexEncode (b :: rest) = Nat.digitChar (b.toNat / 16) ::
        Nat.digitChar (b.toNat % 16) :: hexEncode rest := rfl
    rw [hcons, hexDecode, hexDigit_digitChar (by omega), hexDigit_digitChar (by omega)]
    simp only [ih, Nat.div_add_mod, UInt8.ofNat_toNat]
    rfl

/-- The crates as far as payloads need them. -/
def RxCrates.standard : RxCrates where
  toCrates := { Crates.refusing with
    hexDecode
    base64Standard := fun s => (base64Decode s).elim (.error "Invalid padding") .ok }
  base64Encode := SerialMcp.base64Encode
  fromUtf8Error _ := "invalid utf-8 sequence"

theorem standard_inverse : RxCrates.standard.Inverse where
  hex := hexDecode_encode
  base64 bytes := by
    change (base64Decode (base64Encode bytes)).elim _ _ = _
    rw [base64Decode_encode]
    rfl
  alphabet _ _ hc := mem_base64Encode hc

/-- A payload that is no text is shown in hex. -/
theorem read_lossless_standard :
    ∃ payload, encodeOrHex RxCrates.standard .utf8 [0xFF, 0x20] = .ok payload ∧
      Shows RxCrates.standard .utf8 [0xFF, 0x20] payload.encoding payload.data :=
  (read_lossless standard_inverse).1 .utf8 [0xFF, 0x20]

end SerialMcp
