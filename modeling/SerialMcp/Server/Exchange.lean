/-
  What two ends that use the same protocol preset make of each other's messages.

  A client sends messages through the TX framing of a preset; the other end reads the
  stream, in chunks of any size, through the RX framing and the parser of the preset.

  * `jsonLines_exchange`: JSON lines, with and without blank lines;
  * `modbusAscii_stream`, `modbusAscii_exchange`: lines of hex digits, of which those with a
    wrong checksum are dropped, and requests whose checksum is from `compute_checksum`;
  * `nmea_exchange`: sentences.
-/
import SerialMcp.Framing.ModbusAscii
import SerialMcp.Framing.Nmea
import SerialMcp.Framing.Parsed
import SerialMcp.Read.Result
import SerialMcp.Server.Transact

namespace SerialMcp

open Incremental FrameDecoder

/-! ## JSON lines -/

/-- What the parser makes of a line. -/
def jsonContent (crates : Crates) (data : Bytes) : ParsedFrame :=
  match crates.jsonFromSlice data with
  | some val => if val.isObject then .json val else .raw
  | none => .raw

theorem jsonLinesParser_eq (crates : Crates) (data : Bytes) :
    jsonLinesParser crates data = .ok (jsonContent crates data) := by
  simp only [jsonLinesParser, jsonContent]
  cases crates.jsonFromSlice data with
  | none => rfl
  | some val => exact (apply_ite Except.ok _ _ _).symm

theorem filterMap_jsonLines (crates : Crates) (skip : Bool) (ps : List Bytes) :
    ps.filterMap (readFrame skip (jsonLinesParser crates)) =
      (ps.filter fun p => !(skip && isBlankFrame p)).map fun p => (p, jsonContent crates p) := by
  rw [← List.filterMap_eq_map, List.filterMap_filter]
  refine List.filterMap_congr fun p _ => ?_
  by_cases hblank : (skip && isBlankFrame p) = true
  · simp [readFrame, hblank]
  · simp [readFrame, hblank, jsonLinesParser_eq, Except.toOption]

theorem countP_jsonLines (crates : Crates) (skip : Bool) (ps : List Bytes) :
    ps.countP (drops skip (some (jsonLinesParser crates))) = 0 := by
  refine List.countP_eq_zero.2 fun p _ => ?_
  simp [drops, jsonLinesParser_eq]

/-- **JSON lines**: of lines without CR and LF, sent one after another, each is received once
    and in order, with the JSON object in it if there is one; NDJSON leaves out the blank
    ones, and nothing stays pending. -/
theorem jsonLines_exchange (crates : Crates) {preset : ProtocolPreset}
    (hpreset : preset = .jsonLines ∨ preset = .ndjson) {ps : List Bytes}
    (hps : ∀ p ∈ ps, 13 ∉ p ∧ 10 ∉ p) :
    ∃ d stream, FrameDecoder.new crates (presetRxFraming preset)
        (some (presetRxParser preset)) = .ok d ∧
      (presetTxFraming preset).mode.encodeAll crates ps = .ok stream ∧
      ∀ cs : List Bytes, cs.flatten = stream →
        (decoder.pushAll d cs).1 =
            ⟨numberFrames .line 0
              ((ps.filter fun p => !((presetRxFraming preset).skipEmpty && isBlankFrame p)).map
                fun p => (p, jsonContent crates p)), 0⟩ ∧
          (decoder.pushAll d cs).2.1 = [] ∧ (decoder.pushAll d cs).2.2.buf = [] := by
  have hencode (p : Bytes) : (TxFramingMode.line .lf).encode crates p =
    .ok (p ++ TxLineEnding.lf.bytes) := rfl
  have hstream := TxFramingMode.encodeAll_of_encode fun p (_ : p ∈ ps) => hencode p
  -- the two presets differ in `skip_empty` only
  obtain ⟨skip, d, hskip, hmode, hnew, hparser, hft⟩ : ∃ skip d,
      (presetRxFraming preset).skipEmpty = skip ∧
      (presetTxFraming preset).mode = .line .lf ∧
      FrameDecoder.new crates (presetRxFraming preset) (some (presetRxParser preset)) = .ok d ∧
      d.parser = some (jsonLinesParser crates) ∧ d.mode.frameType = .line := by
    rcases hpreset with rfl | rfl
    · exact ⟨false, _, rfl, rfl, rfl, rfl, rfl⟩
    · exact ⟨true, _, rfl, rfl, rfl, rfl, rfl⟩
  have hcut : FrameDecoder.new crates { presetRxFraming preset with skipEmpty := false } none =
      .ok (plain (.line .autoLf) false false [] 0) := by
    rcases hpreset with rfl | rfl <;> rfl
  refine ⟨d, _, hnew, hmode ▸ hstream, fun cs hcs => ?_⟩
  obtain ⟨hout, hfaults, hbuf⟩ := pushAll_parsed hnew hcut cs
  obtain ⟨hreceived, hrest⟩ := @auto_received .lf (by decide) ps hps cs hcs
  rw [hreceived, hparser, hft, emitAll_reads, hskip, filterMap_jsonLines, countP_jsonLines] at hout
  rw [hskip]
  have hcuts : Cuts .line (plain (.line .autoLf) false false [] 0) := ⟨⟨rfl, rfl⟩, rfl⟩
  exact ⟨hout, hfaults.trans (hcuts.faults_eq (by decide) cs), hbuf.trans hrest⟩

/-- Two lines and a blank one, with NDJSON. -/
theorem jsonLines_exchange_three : ∃ d,
    FrameDecoder.new
      { Crates.refusing with
        jsonFromSlice := fun s => if s = [123, 125] then some (.object []) else none }
      (presetRxFraming .ndjson) (some (presetRxParser .ndjson)) = .ok d ∧
    (decoder.pushAll d [[123, 125, 10, 32], [10, 111, 107, 10]]).1.frames.map Frame.data =
      [[123, 125], [111, 107]] := by
  obtain ⟨d, stream, hnew, hstream, h⟩ := @jsonLines_exchange
    { Crates.refusing with
      jsonFromSlice := fun s => if s = [123, 125] then some (.object []) else none }
    .ndjson (.inr rfl) [[123, 125], [32], [111, 107]] (by decide)
  refine ⟨d, hnew, ?_⟩
  rw [(h _ (Except.ok.inj (hstream.symm.trans rfl) ▸ by decide)).1]
  rfl

/-! ## Modbus ASCII -/

/-- The bytes of a frame, the last of which is the checksum. -/
def modbusContent : Bytes → ParsedFrame
  | address :: functionCode :: rest =>
    .modbusAscii address functionCode rest.dropLast (some true)
  | _ => .raw

theorem colon_ne_nil : ([58] : Bytes) ≠ [] := by decide

theorem crlf_ne_nil : ([13, 10] : Bytes) ≠ [] := by decide

/-- The mode of the preset. -/
def modbusMode : DecoderMode := .startEnd [⟨[58], colon_ne_nil⟩] ⟨[13, 10], crlf_ne_nil⟩ false false

/-- The decoder of the preset. -/
def modbusDecoder : FrameDecoder := ⟨[], modbusMode, 0, false, false, some (modbusAsciiParser true)⟩

theorem new_modbusAscii (crates : Crates) : FrameDecoder.new crates (presetRxFraming .modbusAscii)
    (some (presetRxParser .modbusAscii)) = .ok modbusDecoder := rfl

theorem unambiguous_digits {p : Bytes} (h : ∀ b ∈ p, isAsciiHexdigit b = true) :
    Unambiguous [13, 10] p := by
  refine findSubsequence_crlf fun hcr => ?_
  exact absurd (h 13 hcr) (by decide)

theorem asciiContent_digits {p : Bytes} (h : ∀ b ∈ p, isAsciiHexdigit b = true) :
    asciiContent p = p := by
  have hlead : stripLeadingIfAny [58] p = p := by
    rcases stripLeadingIfAny_cases [58] p with ⟨m, hm, hp⟩ | hp
    · obtain rfl := List.mem_singleton.1 hm
      exact absurd (h 58 (by rw [hp]; exact List.mem_cons_self)) (by decide)
    · exact hp.symm
  rw [asciiContent, hlead]
  refine stripTrailingNewline_of_getLast fun hlast => ?_
  exact absurd (h 10 (List.mem_of_getLast? hlast)) (by decide)

theorem readFrame_modbusAscii {p : Bytes} (h : HexFrame p) :
    readFrame false (modbusAsciiParser true) p =
        (if byteSum (decodePairs p) = 0 then some (p, modbusContent (decodePairs p)) else none) ∧
      drops false (some (modbusAsciiParser true)) p = decide (byteSum (decodePairs p) ≠ 0) := by
  have hcontent := asciiContent_digits h.digits
  obtain ⟨address, functionCode, payload, received, hdecoded, hparse⟩ :=
    @modbusAsciiParser_hex p true (by rwa [hcontent])
  rw [hcontent] at hdecoded hparse
  by_cases hsum : byteSum (decodePairs p) = 0
  · rw [if_pos hsum] at hparse
    rw [if_pos hsum]
    constructor
    · simp [readFrame, hparse, hdecoded, modbusContent, Except.toOption]
    · simp [drops, hparse, hsum]
  · rw [if_neg hsum, if_pos rfl] at hparse
    rw [if_neg hsum]
    constructor
    · simp [readFrame, hparse, Except.toOption]
    · simp [drops, hparse, hsum]

/-- A line as the preset sends it. -/
def modbusMessage (p : Bytes) : Bytes := [58] ++ p ++ [13, 10]

theorem encode_modbusAscii (crates : Crates) (p : Bytes) :
    (presetTxFraming .modbusAscii).mode.encode crates p = .ok (modbusMessage p) := rfl

/-- What the preset makes of lines of hex digits. -/
theorem pushAll_modbusAscii {ps cs : List Bytes} (hps : ∀ p ∈ ps, HexFrame p)
    (hcs : cs.flatten = ps.flatMap modbusMessage) :
    (decoder.pushAll modbusDecoder cs).1 =
        ⟨numberFrames .startEnd 0
          ((ps.filter fun p => byteSum (decodePairs p) = 0).map
            fun p => (p, modbusContent (decodePairs p))),
          ps.countP fun p => byteSum (decodePairs p) ≠ 0⟩ ∧
      (decoder.pushAll modbusDecoder cs).2.1 = [] := by
  have hterm : Terminates modbusMode modbusMessage [13, 10] :=
    Terminates.startEnd ⟨[58], by decide⟩ ⟨[13, 10], by decide⟩
  have hcut : FrameDecoder.new .refusing { presetRxFraming .modbusAscii with skipEmpty := false }
    none = .ok (plain modbusMode false false [] 0) := rfl
  obtain ⟨hreceived, hnone⟩ := hterm.received ⟨_, rfl⟩
    (fun p hp => unambiguous_digits (hps p hp).digits) hcs
  obtain ⟨hout, hfaults, -⟩ := pushAll_parsed (new_modbusAscii .refusing) hcut cs
  have hread : ps.filterMap (readFrame false (modbusAsciiParser true)) =
      (ps.filter fun p => byteSum (decodePairs p) = 0).map
        fun p => (p, modbusContent (decodePairs p)) := by
    rw [← List.filterMap_eq_map, List.filterMap_filter]
    refine List.filterMap_congr fun p hp => ?_
    rw [(readFrame_modbusAscii (hps p hp)).1]
    simp
  have hdrops : ps.countP (drops false (some (modbusAsciiParser true))) =
      ps.countP fun p => byteSum (decodePairs p) ≠ 0 :=
    List.countP_congr fun p hp => by rw [(readFrame_modbusAscii (hps p hp)).2]
  refine ⟨?_, hfaults.trans hnone⟩
  rw [hreceived] at hout
  rw [hout, ← hread, ← hdrops]
  exact emitAll_reads (modbusAsciiParser true) 0 ps

/-- **A line is read or dropped by its own checksum**: of lines of hex digits, sent one after
    another, exactly those are received whose bytes sum to 0, and the others are counted. -/
theorem modbusAscii_stream (crates : Crates) {ps : List Bytes} (hps : ∀ p ∈ ps, HexFrame p) :
    ∃ d stream, FrameDecoder.new crates (presetRxFraming .modbusAscii)
        (some (presetRxParser .modbusAscii)) = .ok d ∧
      (presetTxFraming .modbusAscii).mode.encodeAll crates ps = .ok stream ∧
      ∀ cs : List Bytes, cs.flatten = stream →
        (decoder.pushAll d cs).1 =
            ⟨numberFrames .startEnd 0
              ((ps.filter fun p => byteSum (decodePairs p) = 0).map
                fun p => (p, modbusContent (decodePairs p))),
              ps.countP fun p => byteSum (decodePairs p) ≠ 0⟩ ∧
          (decoder.pushAll d cs).2.1 = [] :=
  ⟨_, _, new_modbusAscii crates,
    TxFramingMode.encodeAll_of_encode fun p _ => encode_modbusAscii crates p,
    fun _ hcs => pushAll_modbusAscii hps hcs⟩

/-- Two requests, between them one with a wrong digit. -/
theorem modbusAscii_stream_three : ∃ d,
    FrameDecoder.new .refusing (presetRxFraming .modbusAscii)
      (some (presetRxParser .modbusAscii)) = .ok d ∧
    (decoder.pushAll d [asBytes ":010300000001FB\r\n:0103000".toList,
      asBytes "00002FB\r\n:010300000001fb\r\n".toList]).1.framesDropped = 1 := by
  obtain ⟨d, stream, hnew, hstream, h⟩ := @modbusAscii_stream .refusing
    [asBytes "010300000001FB".toList, asBytes "010300000002FB".toList,
      asBytes "010300000001fb".toList]
    (by
      intro p hp
      simp only [List.mem_cons, List.not_mem_nil, or_false] at hp
      rcases hp with rfl | rfl | rfl <;>
        exact ⟨by decide +kernel, by decide +kernel, by decide +kernel⟩)
  refine ⟨d, hnew, ?_⟩
  rw [(h _ (Except.ok.inj (hstream.symm.trans rfl) ▸ by decide +kernel)).1]
  decide +kernel

/-! ## Checksums of a client -/

/-- `ChecksumAlgorithm` -/
inductive ChecksumAlgorithm where
  | xor
  | lrc
  deriving DecidableEq, Repr

/-- `ComputeChecksumArgs` -/
structure ComputeChecksumArgs where
  data : String
  encoding : String := "utf8"
  algorithm : ChecksumAlgorithm

/-- `ComputeChecksumResult` -/
structure ComputeChecksumResult where
  algorithm : String
  checksumHex : String
  checksum : UInt8
  byteCount : ℕ
  deriving DecidableEq, Repr

/-- The bytes to be checksummed: the first steps of `compute_checksum`. -/
def ComputeChecksumArgs.bytes (crates : Crates) (args : ComputeChecksumArgs) :
    Except String Bytes := do
  let encoding ← (Server.parseEncoding args.encoding).mapError fun _ =>
    "encoding: Unknown encoding: " ++ args.encoding
  (decode crates encoding args.data.toList).mapError fun e => "data decode: " ++ e.toText

/-- `compute_checksum` -/
def computeChecksum (crates : Crates) (args : ComputeChecksumArgs) :
    Except String ComputeChecksumResult := do
  let bytes ← args.bytes crates
  let (algoName, cs) := match args.algorithm with
    | .xor => ("xor", xorChecksum bytes)
    | .lrc => ("lrc", SerialMcp.lrc bytes)
  .ok { algorithm := algoName, checksumHex := hexByteUpper cs, checksum := cs,
        byteCount := bytes.length }

/-- What a client has to say to a device. -/
structure ModbusRequest where
  address : UInt8
  functionCode : UInt8
  data : Bytes

/-- The bytes in front of the checksum. -/
def ModbusRequest.bytes (r : ModbusRequest) : Bytes := r.address :: r.functionCode :: r.data

/-- The line that a client writes for it, with a checksum that it was given. -/
def ModbusRequest.line (r : ModbusRequest) (checksum : ComputeChecksumResult) : Bytes :=
  r.bytes.flatMap upperDigits ++ asBytes checksum.checksumHex.toList

theorem decodePairs_upperDigits (bytes : Bytes) :
    decodePairs (bytes.flatMap upperDigits) = bytes := by
  induction bytes with
  | nil => rfl
  | cons b bytes ih =>
    rw [List.flatMap_cons, upperDigits, List.cons_append, List.cons_append, List.nil_append,
      decodePairs, hexByte_upperDigits, ih]

theorem length_upperDigits (bytes : Bytes) :
    (bytes.flatMap upperDigits).length = 2 * bytes.length := by
  induction bytes with
  | nil => rfl
  | cons b bytes ih =>
    rw [List.flatMap_cons, List.length_append, ih, List.length_cons]
    simp only [upperDigits, List.length_cons, List.length_nil]
    omega

theorem hexFrame_upperDigits {bytes : Bytes} (h : 3 ≤ bytes.length) :
    HexFrame (bytes.flatMap upperDigits) := by
  have hlen := length_upperDigits bytes
  refine ⟨fun b hb => ?_, by omega, by omega⟩
  obtain ⟨x, -, hx⟩ := List.mem_flatMap.1 hb
  exact isAsciiHexdigit_upperDigits x b hx

/-- The line of a request is its bytes and their checksum, in digits. -/
theorem line_eq {crates : Crates} {args : ComputeChecksumArgs} {r : ModbusRequest}
    (halgorithm : args.algorithm = .lrc) (hbytes : args.bytes crates = .ok r.bytes) :
    (computeChecksum crates args).map r.line =
      .ok ((r.bytes ++ [lrc r.bytes]).flatMap upperDigits) := by
  have hchecksum : computeChecksum crates args =
      .ok ⟨"lrc", hexByteUpper (lrc r.bytes), lrc r.bytes, r.bytes.length⟩ := by
    simp only [computeChecksum, hbytes, halgorithm]
    rfl
  rw [hchecksum, Except.map, ModbusRequest.line, asBytes_hexByteUpper, List.flatMap_append,
    List.flatMap_singleton]

theorem mapM_ok {α β : Type} {f : α → Except String β} {g : α → β} {xs : List α}
    (h : ∀ x ∈ xs, f x = .ok (g x)) : xs.mapM f = .ok (xs.map g) := by
  induction xs with
  | nil => rfl
  | cons x xs ih =>
    have hx := h x List.mem_cons_self
    have hxs := ih fun y hy => h y (List.mem_cons_of_mem x hy)
    rw [List.mapM_cons, hx, hxs]
    rfl

theorem numberFrames_parsed (ft : FrameType) (n : ℕ) (rs : List (Bytes × ParsedFrame)) :
    (numberFrames ft n rs).map Frame.parsed = rs.map fun r => some r.2 := by
  rw [numberFrames, List.map_map]
  conv_rhs => rw [← List.zipIdx_map_fst n rs, List.map_map]
  rfl

/-- **Modbus ASCII**: requests, written as digits behind which the client puts the LRC that
    `compute_checksum` gives it, are all received, each once and in order, with their address,
    function code and data and a valid checksum. -/
theorem modbusAscii_exchange (crates : Crates) {requests : List (ModbusRequest × ComputeChecksumArgs)}
    (h : ∀ r ∈ requests, r.2.algorithm = .lrc ∧ r.2.bytes crates = .ok r.1.bytes) :
    ∃ d lines stream, FrameDecoder.new crates (presetRxFraming .modbusAscii)
        (some (presetRxParser .modbusAscii)) = .ok d ∧
      requests.mapM (fun r => (computeChecksum crates r.2).map r.1.line) = .ok lines ∧
      (presetTxFraming .modbusAscii).mode.encodeAll crates lines = .ok stream ∧
      ∀ cs : List Bytes, cs.flatten = stream →
        (decoder.pushAll d cs).1.frames.map Frame.parsed = requests.map (fun r =>
            some (.modbusAscii r.1.address r.1.functionCode r.1.data (some true))) ∧
          (decoder.pushAll d cs).1.framesDropped = 0 ∧ (decoder.pushAll d cs).2.1 = [] := by
  have hmessages := mapM_ok fun r hr => line_eq (h r hr).1 (h r hr).2
  have hhex : ∀ p ∈ requests.map (fun r => (r.1.bytes ++ [lrc r.1.bytes]).flatMap upperDigits),
      HexFrame p := by
    intro p hp
    obtain ⟨r, -, rfl⟩ := List.mem_map.1 hp
    exact hexFrame_upperDigits (by simp [ModbusRequest.bytes])
  have hsum (r : ModbusRequest) :
      byteSum (decodePairs ((r.bytes ++ [lrc r.bytes]).flatMap upperDigits)) = 0 := by
    rw [decodePairs_upperDigits]
    exact (lrc_eq_iff r.bytes _).1 rfl
  have hcontent (r : ModbusRequest) :
      modbusContent (decodePairs ((r.bytes ++ [lrc r.bytes]).flatMap upperDigits)) =
        .modbusAscii r.address r.functionCode r.data (some true) := by
    rw [decodePairs_upperDigits]
    simp [ModbusRequest.bytes, modbusContent]
  refine ⟨_, _, _, new_modbusAscii crates, hmessages,
    TxFramingMode.encodeAll_of_encode fun p _ => encode_modbusAscii crates p, fun cs hcs => ?_⟩
  obtain ⟨hout, herrors⟩ := pushAll_modbusAscii hhex hcs
  rw [hout]
  refine ⟨?_, ?_, herrors⟩
  · dsimp only
    rw [numberFrames_parsed, List.filter_eq_self.2, List.map_map, List.map_map]
    · exact List.map_congr_left fun r _ => congrArg some (hcontent r.1)
    · intro p hp
      obtain ⟨r, -, rfl⟩ := List.mem_map.1 hp
      exact decide_eq_true (hsum r.1)
  · refine List.countP_eq_zero.2 fun p hp => ?_
    obtain ⟨r, -, rfl⟩ := List.mem_map.1 hp
    exact fun hne => of_decide_eq_true hne (hsum r.1)

/-- Reading a register of device 1, checksummed in hex. -/
theorem modbusAscii_exchange_register : ∃ d,
    FrameDecoder.new RxCrates.standard.toCrates (presetRxFraming .modbusAscii)
      (some (presetRxParser .modbusAscii)) = .ok d ∧
    (decoder.pushAll d [asBytes ":0103000".toList, asBytes "00001FB\r\n".toList]).1.frames.map
      Frame.parsed = [some (.modbusAscii 1 3 [0, 0, 0, 1] (some true))] := by
  obtain ⟨d, lines, stream, hnew, hlines, hstream, h⟩ :=
    @modbusAscii_exchange RxCrates.standard.toCrates
      [(⟨1, 3, [0, 0, 0, 1]⟩, ⟨"01 03 00 00 00 01", "hex", .lrc⟩)]
      (by
        intro r hr
        obtain rfl := List.mem_singleton.1 hr
        exact ⟨rfl, by decide +kernel⟩)
  refine ⟨d, hnew, (h _ ?_).1⟩
  have hline : lines = [asBytes "010300000001FB".toList] :=
    Except.ok.inj (hlines.symm.trans (by decide +kernel))
  subst hline
  have hbytes : (presetTxFraming .modbusAscii).mode.encodeAll RxCrates.standard.toCrates
      [asBytes "010300000001FB".toList] =
        .ok [asBytes ":0103000".toList, asBytes "00001FB\r\n".toList].flatten := by
    decide +kernel
  exact Except.ok.inj (hbytes.symm.trans hstream)

/-! ## NMEA -/

/-- A sentence with its start character, as the preset sends it. -/
def nmeaMessage (p : Bytes) : Bytes := p ++ [13, 10]

/-- A start character, and printable text. -/
structure Sent (p : Bytes) : Prop where
  lead : p.head? = some 36 ∨ p.head? = some 33
  noCr : 13 ∉ p.tail

theorem extract_nmeaMessage {p : Bytes} (h : Sent p) (rest : Bytes) :
    extract false nmeaMode (nmeaMessage p ++ rest) = (some p.tail, nmeaMode, rest) := by
  rcases p with _ | ⟨lead, text⟩
  · rcases h.lead with h | h <;> cases h
  have hlead : lead = 36 ∨ lead = 33 := by
    rcases h.lead with h | h
    · exact .inl (Option.some.inj h)
    · exact .inr (Option.some.inj h)
  have hcr : 13 ∉ text := h.noCr
  have hfin : findSubsequence (text ++ [13, 10] ++ rest) [13, 10] = some text.length :=
    findSubsequence_append (by simp) (findSubsequence_crlf hcr)
  simp only [List.append_assoc, List.cons_append, List.nil_append] at hfin
  simp only [extract, nmeaMode, extractStartEnd, enterFrame, Bool.false_eq_true, if_false,
    nmeaMessage, List.cons_append, List.nil_append, List.append_assoc, bestStart_nmea hlead, Option.map_some,
    List.drop_zero, List.drop_succ_cons, hfin]
  simp

/-- Sentences are cut out as they were sent. -/
theorem nmea_received {ps cs : List Bytes} (hps : ∀ p ∈ ps, Sent p)
    (hcs : cs.flatten = ps.flatMap nmeaMessage) :
    (plain nmeaMode false false [] 0).received cs = ps.map List.tail ∧
      (decoder.pushAll (plain nmeaMode false false [] 0) cs).2.2.buf = [] := by
  have hextracts (buf : Bytes) (count : ℕ) : (plain nmeaMode false false buf count).Extracts :=
    plain_extracts (by simp [nmeaMode, DecoderMode.frameType])
  have hdec := Decodes.messages hextracts rfl (fun p hp rest => extract_nmeaMessage (hps p hp) rest)
    0
  have hnew : FrameDecoder.new .refusing { presetRxFraming .nmea0183 with skipEmpty := false }
    none = .ok (plain nmeaMode false false [] 0) := rfl
  have hapart : KeptApart nmeaStarts false := by decide
  have hone : cs.flatten = [ps.flatMap nmeaMessage].flatten := by simpa using hcs
  rw [FrameDecoder.received, startEnd_pushAll_congr hapart rfl rfl (new_noFatal hnew) hone]
  exact hdec.received_one (hextracts _ 0)

/-- What the parser makes of the text that is sent for a payload. -/
theorem readFrame_nmea {payload text : Bytes} (h : SentText payload text) :
    (Acceptable payload → drops false (some (nmeaParser true)) text = false ∧
        ∃ talkerId sentenceType fields, readFrame false (nmeaParser true) text =
          some (text, .nmea talkerId sentenceType fields (some true))) ∧
      (¬ Acceptable payload → drops false (some (nmeaParser true)) text = true ∧
        readFrame false (nmeaParser true) text = none) := by
  obtain ⟨body, hex, hcontent, hbody⟩ := split_star h.star
  have hascii : ∀ b ∈ body, b < 0x80 := by
    intro b hb
    have hmem : b ∈ nmeaContent text := hcontent ▸ List.mem_append_left _ hb
    rw [nmeaContent_printable h.printable] at hmem
    have hle := (h.printable b (stripLeadingIfAny_subset _ _ hmem)).2
    rw [UInt8.le_iff_toNat_le] at hle
    exact UInt8.lt_iff_toNat_lt.2 (Nat.lt_of_le_of_lt hle (by decide))
  rw [← h.stated, hcontent, stated_iff hbody]
  rcases nmeaParser_verdict true h.comma hcontent hbody with
    ⟨hstated, hparse⟩ | ⟨hne, -, raw, hparse⟩ | ⟨-, hfalse, -⟩
  · obtain ⟨t, s, f, hsentence⟩ := nmeaBody_ascii hascii
    refine ⟨fun _ => ⟨by simp [drops, hparse], t, s, f, ?_⟩, fun hnot => absurd hstated hnot⟩
    simp [readFrame, hparse, hsentence, Except.toOption]
  · exact ⟨fun hstated => absurd hstated hne, fun _ => ⟨by simp [drops, hparse],
      by simp [readFrame, hparse, Except.toOption]⟩⟩
  · cases hfalse

/-- The start character and the text that are sent for a payload. -/
def sentLine (payload : Bytes) : Bytes := ((encodeNmea payload).toOption.getD []).dropLast.dropLast

/-- The text that is sent for a payload. -/
def sentText (payload : Bytes) : Bytes := (sentLine payload).tail

theorem encodeNmea_sent {payload bytes : Bytes} (hcomma : 44 ∈ payload)
    (h : encodeNmea payload = .ok bytes) :
    bytes = nmeaMessage (sentLine payload) ∧ Sent (sentLine payload) ∧
      SentText payload (sentText payload) := by
  obtain ⟨lead, text, hlead, rfl, htext⟩ := encodeNmea_text hcomma h
  have hline : sentLine payload = lead :: text := by
    rw [sentLine, h, show lead :: text ++ [13, 10] = lead :: text ++ [13] ++ [10] by simp]
    simp only [Except.toOption, Option.getD_some, List.dropLast_concat]
  have hsent : sentText payload = text := by rw [sentText, hline, List.tail_cons]
  rw [hsent, hline]
  refine ⟨rfl, ⟨?_, fun hcr => absurd (htext.printable 13 hcr) (by decide)⟩, htext⟩
  rcases hlead with rfl | rfl
  · exact .inl rfl
  · exact .inr rfl

/-- Payloads that are sent one after another. -/
theorem encodeAll_nmea {crates : Crates} {payloads : List Bytes} {stream : Bytes}
    (hcomma : ∀ p ∈ payloads, 44 ∈ p)
    (h : TxFramingMode.nmea.encodeAll crates payloads = .ok stream) :
    stream = (payloads.map sentLine).flatMap nmeaMessage ∧
      ∀ p ∈ payloads, Sent (sentLine p) ∧ SentText p (sentText p) := by
  induction payloads generalizing stream with
  | nil =>
    cases h
    exact ⟨rfl, fun p hp => absurd hp List.not_mem_nil⟩
  | cons payload payloads ih =>
    rcases hone : encodeNmea payload with e | bytes
    · rw [TxFramingMode.encodeAll, TxFramingMode.encode, hone] at h
      cases h
    rcases hall : TxFramingMode.nmea.encodeAll crates payloads with e | rest
    · rw [TxFramingMode.encodeAll, TxFramingMode.encode, hone, hall] at h
      cases h
    rw [TxFramingMode.encodeAll, TxFramingMode.encode, hone, hall] at h
    cases h
    obtain ⟨hbytes, hsent⟩ := encodeNmea_sent (hcomma payload List.mem_cons_self) hone
    obtain ⟨hrest, hsents⟩ := ih (fun p hp => hcomma p (List.mem_cons_of_mem payload hp)) hall
    rw [List.map_cons, List.flatMap_cons, ← hbytes, ← hrest]
    refine ⟨rfl, fun p hp => ?_⟩
    rcases List.mem_cons.1 hp with rfl | hp
    · exact hsent
    · exact hsents p hp

theorem numberFrames_data (ft : FrameType) (n : ℕ) (rs : List (Bytes × ParsedFrame)) :
    (numberFrames ft n rs).map Frame.data = rs.map Prod.fst := by
  rw [numberFrames, List.map_map]
  conv_rhs => rw [← List.zipIdx_map_fst n rs, List.map_map]
  rfl

theorem mem_numberFrames {ft : FrameType} {n : ℕ} {rs : List (Bytes × ParsedFrame)} {f : Frame}
    (h : f ∈ numberFrames ft n rs) : ∃ r ∈ rs, f.parsed = some r.2 := by
  obtain ⟨r, hr, rfl⟩ := List.mem_map.1 h
  exact ⟨r.1, List.fst_mem_of_mem_zipIdx hr, rfl⟩

open Classical in
/-- **NMEA**: of payloads with a comma, sent one after another, exactly the acceptable ones
    are received, each once and in order, as valid sentences; every other one is counted, and
    nothing stays pending. -/
theorem nmea_exchange (crates : Crates) {payloads : List Bytes} {stream : Bytes}
    (hcomma : ∀ p ∈ payloads, 44 ∈ p)
    (hencode : (presetTxFraming .nmea0183).mode.encodeAll crates payloads = .ok stream) :
    ∃ d, FrameDecoder.new crates (presetRxFraming .nmea0183)
        (some (presetRxParser .nmea0183)) = .ok d ∧
      ∀ cs : List Bytes, cs.flatten = stream →
        (decoder.pushAll d cs).1.frames.map Frame.data =
            (payloads.filter fun p => Acceptable p).map sentText ∧
          (∀ f ∈ (decoder.pushAll d cs).1.frames, ∃ talkerId sentenceType fields,
            f.parsed = some (.nmea talkerId sentenceType fields (some true))) ∧
          (decoder.pushAll d cs).1.framesDropped = payloads.countP (fun p => ¬ Acceptable p) ∧
          (decoder.pushAll d cs).2.1 = [] ∧ (decoder.pushAll d cs).2.2.buf = [] := by
  obtain ⟨rfl, hsent⟩ := encodeAll_nmea hcomma hencode
  refine ⟨nmeaDecoder, new_nmea crates, fun cs hcs => ?_⟩
  have hcut : FrameDecoder.new .refusing { presetRxFraming .nmea0183 with skipEmpty := false }
    none = .ok (plain nmeaMode false false [] 0) := rfl
  have hlines : ∀ p ∈ payloads.map sentLine, Sent p := by
    intro p hp
    obtain ⟨payload, hpayload, rfl⟩ := List.mem_map.1 hp
    exact (hsent payload hpayload).1
  obtain ⟨hreceived, hrest⟩ := nmea_received hlines hcs
  rw [List.map_map, show List.tail ∘ sentLine = sentText from rfl] at hreceived
  obtain ⟨hout, hfaults, hbuf⟩ := pushAll_parsed (new_nmea .refusing) hcut cs
  have hcuts : Cuts .startEnd (plain nmeaMode false false [] 0) := ⟨⟨rfl, rfl⟩, rfl⟩
  have hread (p : Bytes) (hp : p ∈ payloads) := readFrame_nmea (hsent p hp).2
  rw [hreceived] at hout
  have hparsed : (decoder.pushAll nmeaDecoder cs).1 = ⟨numberFrames .startEnd 0
      ((payloads.map sentText).filterMap (readFrame false (nmeaParser true))),
      (payloads.map sentText).countP (drops false (some (nmeaParser true)))⟩ :=
    hout.trans (emitAll_reads (nmeaParser true) 0 (payloads.map sentText))
  rw [hparsed]
  refine ⟨?_, ?_, ?_, hfaults.trans (hcuts.faults_eq (by decide) cs), hbuf.trans hrest⟩
  · dsimp only
    rw [numberFrames_data, List.filterMap_map, List.map_filterMap, ← List.filterMap_eq_map,
      List.filterMap_filter]
    refine List.filterMap_congr fun p hp => ?_
    by_cases haccept : Acceptable p
    · obtain ⟨-, t, s, f, hsome⟩ := (hread p hp).1 haccept
      simp [hsome, haccept]
    · simp [((hread p hp).2 haccept).2, haccept]
  · intro f hf
    obtain ⟨r, hr, hparse⟩ := mem_numberFrames hf
    obtain ⟨text, htext, hr⟩ := List.mem_filterMap.1 hr
    obtain ⟨p, hp, rfl⟩ := List.mem_map.1 htext
    by_cases haccept : Acceptable p
    · obtain ⟨-, t, s, fields, hsome⟩ := (hread p hp).1 haccept
      rw [hsome] at hr
      cases hr
      exact ⟨t, s, fields, hparse⟩
    · rw [((hread p hp).2 haccept).2] at hr
      cases hr
  · dsimp only
    rw [List.countP_map]
    refine List.countP_congr fun p hp => ?_
    by_cases haccept : Acceptable p
    · simp [((hread p hp).1 haccept).1, haccept]
    · simp [((hread p hp).2 haccept).1, haccept]

/-- A heading, and a payload with a `*` in it. -/
theorem nmea_exchange_two : ∃ d,
    FrameDecoder.new .refusing (presetRxFraming .nmea0183)
      (some (presetRxParser .nmea0183)) = .ok d ∧
    ∀ f ∈ (decoder.pushAll d [[36, 72, 44, 42, 54, 52, 13, 10, 36, 65, 44], [42, 66, 42, 48, 53,
      13, 10]]).1.frames, ∃ talkerId sentenceType fields,
        f.parsed = some (.nmea talkerId sentenceType fields (some true)) := by
  obtain ⟨d, hnew, h⟩ := @nmea_exchange .refusing [[72, 44], [65, 44, 42, 66]]
    [36, 72, 44, 42, 54, 52, 13, 10, 36, 65, 44, 42, 66, 42, 48, 53, 13, 10]
    (by decide) (by decide +kernel)
  exact ⟨d, hnew, (h _ (by decide)).2.1⟩

end SerialMcp
