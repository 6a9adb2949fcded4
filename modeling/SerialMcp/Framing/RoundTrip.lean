/-
  Round trips of the framings that mark or count the end of a payload.

  * `lengthPrefixed_roundTrip`: behind the bytes of the initial offset, every
    list of payloads whose lengths fit the prefix is received as it was sent;
  * `terminated_roundTrip`: with a terminator, exactly the payloads in which it
    does not occur too early; CR- and LF-free lines also through `auto`.
-/
import Mathlib.Data.List.Chain
import SerialMcp.Framing.Auto
import SerialMcp.Framing.Encode
import SerialMcp.Framing.Streams

namespace SerialMcp

open Incremental FrameDecoder

/-! ## Length prefixes -/

theorem toLeBytes_length (n len : ℕ) : (toLeBytes n len).length = n := by
  induction n generalizing len with
  | zero => rfl
  | succ n ih => rw [toLeBytes, List.length_cons, ih]

theorem lengthBytes_length (n : ℕ) (e : Endianness) (len : ℕ) :
    (lengthBytes n e len).length = n := by
  cases e
  · rw [lengthBytes, List.length_reverse, toLeBytes_length]
  · exact toLeBytes_length n len

theorem foldl_toLeBytes (n len : ℕ) :
    (toLeBytes n len).reverse.foldl (fun acc (b : UInt8) => acc * 256 + b.toNat) 0 =
      len % 256 ^ n := by
  induction n generalizing len with
  | zero => simp [toLeBytes, Nat.mod_one]
  | succ n ih =>
    have hsplit : len % 256 ^ (n + 1) = len % 256 + 256 * (len / 256 % 256 ^ n) := by
      rw [Nat.pow_succ', Nat.mod_mul]
    have hlow : (UInt8.ofNat len).toNat = len % 256 := UInt8.toNat_ofNat'
    rw [toLeBytes, List.reverse_cons, List.foldl_append, ih, List.foldl_cons, List.foldl_nil,
      hlow, hsplit, Nat.mul_comm, Nat.add_comm]

theorem readLengthPrefix_lengthBytes {n len : ℕ} (e : Endianness) (h : len < 256 ^ n) :
    readLengthPrefix (lengthBytes n e len) e = len := by
  have hvalue := foldl_toLeBytes n len
  rw [Nat.mod_eq_of_lt h] at hvalue
  cases e
  · exact hvalue
  · exact hvalue

/-- A message as `encode` builds it. -/
def prefixedMessage (n : ℕ) (e : Endianness) (p : Bytes) : Bytes := lengthBytes n e p.length ++ p

/-- What the decoder shows of a message. -/
def prefixedShown (inc : Bool) (n : ℕ) (e : Endianness) (p : Bytes) : Bytes :=
  if inc then prefixedMessage n e p else p

theorem takePrefixed_message (inc : Bool) {n : ℕ} (e : Endianness) {p : Bytes}
    (hp : p.length < 256 ^ n) (rest : Bytes) :
    takePrefixed inc n e none (prefixedMessage n e p ++ rest) =
      (some (prefixedShown inc n e p), none, rest) := by
  have hn := lengthBytes_length n e p.length
  have hlen : (prefixedMessage n e p).length = n + p.length := by
    rw [prefixedMessage, List.length_append, hn]
  have hread : payloadLen n e none (prefixedMessage n e p ++ rest) = some p.length := by
    have htake : (prefixedMessage n e p ++ rest).take n = lengthBytes n e p.length := by
      rw [prefixedMessage, List.append_assoc]
      exact List.take_left' hn
    rw [payloadLen, if_neg (by rw [List.length_append]; omega), htake,
      readLengthPrefix_lengthBytes e hp]
  have hdrop : (prefixedMessage n e p).drop n = p := by
    rw [prefixedMessage]
    exact List.drop_left' hn
  simp only [takePrefixed, hread]
  rw [if_neg (by rw [List.length_append]; omega), List.take_left' hlen, List.drop_left' hlen,
    hdrop, prefixedShown]

theorem extract_offset (inc : Bool) (n : {n : ℕ // n = 1 ∨ n = 2 ∨ n = 4}) (e : Endianness)
    (junk s : Bytes) : extract inc (.lengthPrefixed n e junk.length none) (junk ++ s) =
      extract inc (.lengthPrefixed n e 0 none) s := by
  have hrem : junk.length - (junk ++ s).length = 0 := by
    rw [List.length_append]
    omega
  simp only [extract, extractLengthPrefixed, List.drop_left, hrem, List.drop_zero, Nat.zero_sub]

theorem encode_lengthPrefixed {crates : Crates} {n : ℕ} (hn : n = 1 ∨ n = 2 ∨ n = 4)
    (e : Endianness) {p : Bytes} (hp : p.length < 256 ^ n) :
    (TxFramingMode.lengthPrefixed n e).encode crates p = .ok (prefixedMessage n e p) := by
  rcases hn with rfl | rfl | rfl
  · exact if_neg (by omega)
  · exact if_neg (by omega)
  · rfl

/-- **Length-prefixed round trip.** Payloads whose lengths fit the prefix, sent
    one after another behind the bytes of the initial offset and cut into any
    chunks, are received as they were sent (behind their prefix, if terminators
    are included), and nothing stays pending. -/
theorem lengthPrefixed_roundTrip (crates : Crates) (maxFrames : Option ℕ) (inc : Bool) (n : ℕ)
    (hn : n = 1 ∨ n = 2 ∨ n = 4) (e : Endianness) (offset : Option ℕ) (junk : Bytes)
    (hjunk : junk.length = offset.getD 0) (ps : List Bytes)
    (hps : ∀ p ∈ ps, p.length < 256 ^ n) :
    ∃ d stream,
      FrameDecoder.new crates ⟨.lengthPrefixed n e offset, maxFrames, inc, false⟩ none = .ok d ∧
      (TxFramingMode.lengthPrefixed n e).encodeAll crates ps = .ok stream ∧
      ∀ cs : List Bytes, cs.flatten = junk ++ stream →
        d.received cs = ps.map (fun p => if inc then lengthBytes n e p.length ++ p else p) ∧
        d.faults cs = [] ∧ (decoder.pushAll d cs).2.2.buf = [] := by
  have hmode : newMode crates (.lengthPrefixed n e offset) =
      .ok (.lengthPrefixed ⟨n, hn⟩ e junk.length none) := by
    rw [newMode, dif_pos hn, hjunk]
  have hpos : 0 < n := by omega
  refine ⟨_, _, new_plain hmode, TxFramingMode.encodeAll_of_encode fun p hp =>
    encode_lengthPrefixed hn e (hps p hp), ?_⟩
  intro cs hcs
  have hextracts (rem : ℕ) (buf : Bytes) (count : ℕ) :
      (plain (.lengthPrefixed ⟨n, hn⟩ e rem none) inc false buf count).Extracts :=
    plain_extracts (by simp [DecoderMode.frameType])
  have hmessages : Decodes (plain (.lengthPrefixed ⟨n, hn⟩ e 0 none) inc false
      (ps.flatMap (prefixedMessage n e)) 0) (ps.map (prefixedShown inc n e)) []
      (.lengthPrefixed ⟨n, hn⟩ e 0 none) [] := by
    refine Decodes.messages (hextracts 0) ?_ ?_ 0
    · simp [extract, extractLengthPrefixed, takePrefixed, payloadLen, hpos]
    · intro p hp rest
      simp only [extract, extractLengthPrefixed, List.drop_zero, Nat.zero_sub,
        takePrefixed_message inc e (hps p hp) rest]
  have hdec := Decodes.of_extract (hextracts junk.length (junk ++ _) 0) (by rfl)
    (extract_offset inc ⟨n, hn⟩ e junk _) hmessages
  have hrest : (plain (.lengthPrefixed ⟨n, hn⟩ e junk.length none) inc false [] 0).next =
      (none, plain (.lengthPrefixed ⟨n, hn⟩ e junk.length none) inc false [] 0) := by
    rw [next_of_extracts (hextracts _ _ _)]
    simp [nextFrame, plain, extract, extractLengthPrefixed, takePrefixed, payloadLen, hpos]
  exact hdec.received (d := plain (.lengthPrefixed ⟨n, hn⟩ e junk.length none) inc false [] 0)
    trivial hrest hcs

/-- Two payloads behind an offset of one byte, cut inside the second prefix. -/
theorem lengthPrefixed_roundTrip_two : ∃ d,
    FrameDecoder.new .refusing ⟨.lengthPrefixed 2 .big (some 1), none, false, false⟩ none = .ok d ∧
      d.received [[7, 0, 2, 65, 66, 0], [1, 67]] = [[65, 66], [67]] := by
  obtain ⟨d, stream, hnew, hstream, h⟩ := lengthPrefixed_roundTrip .refusing none false 2
    (.inr (.inl rfl)) .big (some 1) [7] rfl [[65, 66], [67]] (by decide)
  obtain rfl := Except.ok.inj hstream
  exact ⟨d, hnew, (h [[7, 0, 2, 65, 66, 0], [1, 67]] (by decide)).1⟩

/-! ## Terminators -/

/-- The terminator first occurs where the payload ends. -/
def Unambiguous (t p : Bytes) : Prop := findSubsequence (p ++ t) t = some p.length

/-- Where the terminator first occurs, at the latest at the end of the payload. -/
theorem terminator_found {t : Bytes} (ht : t ≠ []) (p : Bytes) :
    ∃ k, findSubsequence (p ++ t) t = some k ∧ k ≤ p.length := by
  have hend : t <+: (p ++ t).drop p.length := by
    rw [List.drop_left]
  rcases hk : findSubsequence (p ++ t) t with _ | k
  · exact absurd hend ((findSubsequence_eq_none ht).1 hk p.length)
  · refine ⟨k, rfl, ?_⟩
    by_contra hlt
    exact ((findSubsequence_eq_some ht).1 hk).2 p.length (by omega) hend

/-- A mode whose frames end at the terminator `t`, and the messages for it. -/
structure Terminates (mode : DecoderMode) (message : Bytes → Bytes) (t : Bytes) : Prop where
  ne_nil : t ≠ []
  extracts : ∀ buf count, (plain mode false false buf count).Extracts
  nil : extract false mode [] = (none, mode, [])
  takes : ∀ p k rest, findSubsequence (p ++ t) t = some k → k ≤ p.length →
    extract false mode (message p ++ rest) =
      (some (p.take k), mode, (p ++ t).drop (k + t.length) ++ rest)

theorem extractDelimited_message {t : Bytes} (ht : t ≠ []) {p : Bytes} {k : ℕ} (rest : Bytes)
    (hk : findSubsequence (p ++ t) t = some k) (hle : k ≤ p.length) :
    extractDelimited false t (p ++ t ++ rest) =
      (some (p.take k), (p ++ t).drop (k + t.length) ++ rest) := by
  have hfound := findSubsequence_le ht hk
  simp only [extractDelimited, findSubsequence_append ht hk, takeFrame_append hfound]
  simp [takeFrame, List.take_append_of_le_length hle]

/-- Modes that cut at one delimiter. -/
theorem Terminates.delimited {mode : DecoderMode} {t : Bytes} (ht : t ≠ [])
    (hextracts : ∀ buf count, (plain mode false false buf count).Extracts)
    (hx : ∀ buf, extract false mode buf =
      ((extractDelimited false t buf).1, mode, (extractDelimited false t buf).2)) :
    Terminates mode (· ++ t) t where
  ne_nil := ht
  extracts := hextracts
  nil := by
    have hnone : findSubsequence [] t = none := by
      rcases t with _ | ⟨b, t⟩
      · exact absurd rfl ht
      · rfl
    simp only [hx, extractDelimited, hnone]
  takes p k rest hk hle := by
    simp only [hx, extractDelimited_message ht rest hk hle]

theorem Terminates.startEnd (m fin : Marker) :
    Terminates (.startEnd [m] fin false false) (fun p => m.1 ++ p ++ fin.1) fin.1 where
  ne_nil := fin.2
  extracts buf count :=
    plain_extracts (by simp [DecoderMode.frameType])
  nil := by
    have hnone : findSubsequence [] m.1 = none := by
      obtain ⟨_ | ⟨b, m⟩, hm⟩ := m
      · exact absurd rfl hm
      · rfl
    simp [extract, extractStartEnd, enterFrame, bestStart_singleton, hnone]
  takes p k rest hk hle := by
    have hstart : findSubsequence (m.1 ++ p ++ fin.1 ++ rest) m.1 = some 0 := by
      refine (findSubsequence_eq_some m.2).2 ⟨?_, fun j hj => absurd hj (Nat.not_lt_zero j)⟩
      simp only [List.drop_zero, List.append_assoc]
      exact List.prefix_append ..
    have hbody : (m.1 ++ p ++ fin.1 ++ rest).drop m.1.length = p ++ fin.1 ++ rest := by
      simp only [List.append_assoc, List.drop_left]
    have hfound := findSubsequence_le fin.2 hk
    simp only [extract, extractStartEnd, enterFrame, bestStart_singleton, hstart, Option.map_some,
      List.drop_zero, hbody, Bool.false_eq_true, if_false, findSubsequence_append fin.2 hk,
      List.drop_append_of_le_length hfound]
    rw [List.append_assoc, List.take_append_of_le_length hle]

section
variable {mode : DecoderMode} {message : Bytes → Bytes} {t : Bytes}

theorem Terminates.decodes (h : Terminates mode message t) {ps : List Bytes}
    (hps : ∀ p ∈ ps, Unambiguous t p) :
    Decodes (plain mode false false (ps.flatMap message) 0) ps [] mode [] := by
  have hx : ∀ p ∈ ps, ∀ rest, extract false mode (message p ++ rest) = (some (id p), mode, rest) := by
    intro p hp rest
    have hlen : (p ++ t).drop (p.length + t.length) = [] :=
      List.drop_eq_nil_of_le (by rw [List.length_append])
    rw [h.takes p p.length rest (hps p hp) (Nat.le_refl _), hlen, List.take_length]
    rfl
  have hdec := Decodes.messages h.extracts h.nil hx 0
  rwa [List.map_id] at hdec

theorem Terminates.cut (h : Terminates mode message t) {p : Bytes} (hp : ¬Unambiguous t p) :
    ∃ q out m b, q ≠ p ∧ Decodes (plain mode false false (message p) 0) (q :: out) [] m b := by
  obtain ⟨k, hk, hle⟩ := terminator_found h.ne_nil p
  have hlt : k < p.length := by
    refine Nat.lt_of_le_of_ne hle ?_
    rintro rfl
    exact hp hk
  have hx := h.takes p k [] hk hle
  rw [List.append_nil] at hx
  obtain ⟨out, m, b, hdec⟩ := Decodes.first (h.extracts _ 0) hx
  refine ⟨p.take k, out, m, b, ?_, hdec⟩
  intro he
  have := congrArg List.length he
  rw [List.length_take] at this
  omega

end

/-- A TX framing and the RX framing for it, with their terminator. -/
inductive TerminatedPair (crates : Crates) : TxFramingMode → RxFramingMode → Bytes → Prop where
  | lf : TerminatedPair crates (.line .lf) (.line .lf) [10]
  | cr : TerminatedPair crates (.line .cr) (.line .cr) [13]
  | crlf : TerminatedPair crates (.line .crlf) (.line .crlf) [13, 10]
  | delimiter {text : String} {enc : PatternEncoding} {t : Bytes}
      (ht : decode crates enc.toEncoding text.toList = .ok t) (hne : t ≠ []) :
      TerminatedPair crates (.delimiter text enc) (.delimiter text enc) t
  | startEnd {start fin : String} {enc : PatternEncoding} {s t : Bytes}
      (hs : decode crates enc.toEncoding start.toList = .ok s) (hsne : s ≠ [])
      (ht : decode crates enc.toEncoding fin.toList = .ok t) (hne : t ≠ []) :
      TerminatedPair crates (.startEnd [start] fin enc) (.startEnd [start] fin enc false) t

theorem Terminates.line {s : LineState} (hs : s.Fixed) :
    Terminates (.line s) (· ++ s.terminator) s.terminator := by
  refine Terminates.delimited s.terminator_ne_nil (fun buf count => ?_) fun buf => ?_
  · exact plain_extracts (by simp [DecoderMode.frameType])
  · simp only [extract, extractLine_fixed hs]

/-- What the configuration of a pair makes of it. -/
theorem TerminatedPair.terminates {crates : Crates} {tx : TxFramingMode} {rx : RxFramingMode}
    {t : Bytes} (h : TerminatedPair crates tx rx t) :
    ∃ mode message, newMode crates rx = .ok mode ∧ mode.SingleBoundary ∧
      Terminates mode message t ∧ ∀ p, tx.encode crates p = .ok (message p) := by
  cases h with
  | lf => exact ⟨.line .lf, _, rfl, trivial, Terminates.line trivial, fun p => rfl⟩
  | cr => exact ⟨.line .cr, _, rfl, trivial, Terminates.line trivial, fun p => rfl⟩
  | crlf => exact ⟨.line .crlf, _, rfl, trivial, Terminates.line trivial, fun p => rfl⟩
  | @delimiter text enc t ht hne =>
    refine ⟨.delimiter ⟨t, hne⟩, _, ?_, trivial, Terminates.delimited hne (fun buf count => ?_)
      fun buf => rfl, fun p => ?_⟩
    · simp only [newMode, decodeMarker, ht, dif_pos hne]
      rfl
    · exact plain_extracts (by simp [DecoderMode.frameType])
    · simp only [TxFramingMode.encode, decodeTx, ht]
      exact if_neg hne
  | @startEnd start fin enc s t hs hsne ht hne =>
    refine ⟨.startEnd [⟨s, hsne⟩] ⟨t, hne⟩ false false, _, ?_, ⟨_, rfl⟩,
      Terminates.startEnd ⟨s, hsne⟩ ⟨t, hne⟩, fun p => ?_⟩
    · simp only [newMode, decodeMarkers, decodeMarker, hs, ht, dif_pos hne, dif_pos hsne]
      rfl
    · simp only [TxFramingMode.encode, decodeTx, hs, ht]
      exact if_neg (by simp [hsne, hne])

/-! ## Lines through `auto` -/

/-- Every CR is followed by an LF, if by anything. -/
def CrBeforeLf (s : Bytes) : Prop := s.IsChain fun a b => a = 13 → b = 10

theorem not_lfAfterBareCr {s : Bytes} (h : CrBeforeLf s) : ¬ LfAfterBareCr s := by
  rintro ⟨p, b, q, rfl, hb, -⟩
  have htail := (List.isChain_append.1 h).2.1
  exact hb ((List.isChain_cons_cons.1 htail).1 rfl)

theorem crBeforeLf_line {ending : TxLineEnding} (hending : ending ≠ .cr) {p : Bytes}
    (hp : 13 ∉ p) : CrBeforeLf (p ++ ending.bytes) := by
  refine List.isChain_append.2 ⟨?_, ?_, ?_⟩
  · refine List.isChain_iff_getElem.2 fun i hi h13 => ?_
    exact absurd (h13 ▸ List.getElem_mem _) hp
  · cases ending with
    | cr => exact absurd rfl hending
    | lf => simp [TxLineEnding.bytes]
    | crlf => simp [TxLineEnding.bytes]
  · intro a ha b hb h13
    subst h13
    exact absurd (List.mem_of_getLast? ha) hp

theorem crBeforeLf_lines {ending : TxLineEnding} (hending : ending ≠ .cr) {ps : List Bytes}
    (hps : ∀ p ∈ ps, 13 ∉ p) : CrBeforeLf (ps.flatMap (· ++ ending.bytes)) := by
  induction ps with
  | nil => exact List.isChain_nil
  | cons p ps ih =>
    rw [List.flatMap_cons]
    refine List.isChain_append.2 ⟨crBeforeLf_line hending (hps p (by simp)),
      ih fun q hq => hps q (by simp [hq]), ?_⟩
    -- a line ends in an LF
    intro a ha b hb h13
    subst h13
    cases ending with
    | cr => exact absurd rfl hending
    | lf => simp [TxLineEnding.bytes] at ha
    | crlf => simp [TxLineEnding.bytes] at ha

/-- A line without CR and LF, in `auto` mode. -/
theorem extract_auto_line {ending : TxLineEnding} (hending : ending ≠ .cr) {p : Bytes}
    (hcr : 13 ∉ p) (hlf : 10 ∉ p) (rest : Bytes) :
    extract false (.line .autoLf) (p ++ ending.bytes ++ rest) =
      (some p, .line .autoLf, rest) := by
  cases ending with
  | cr => exact absurd rfl hending
  | lf =>
    have hframe : lfFrame false p = p := by
      have : p.getLast? ≠ some 13 := fun h => hcr (List.mem_of_getLast? h)
      simp [lfFrame, this]
    have hx : matchAutoLf false (p ++ 10 :: rest) = _ := matchAutoLf_lf hlf
    simp only [extract, extractLine, TxLineEnding.bytes, List.append_assoc, List.cons_append,
      List.nil_append, hx, hframe]
  | crlf =>
    have hframe : lfFrame false (p ++ [13]) = p := by simp [lfFrame]
    have hlf' : (10 : UInt8) ∉ p ++ [13] := by simp [hlf]
    have hx : matchAutoLf false (p ++ [13] ++ 10 :: rest) = _ := matchAutoLf_lf hlf'
    rw [List.append_assoc] at hx
    simp only [extract, extractLine, TxLineEnding.bytes, List.append_assoc, List.cons_append,
      List.nil_append] at hx ⊢
    rw [hx, hframe]

/-- Lines without CR and LF are received through `auto` as they were sent. -/
theorem auto_received {ending : TxLineEnding} (hending : ending ≠ .cr) {ps : List Bytes}
    (hps : ∀ p ∈ ps, 13 ∉ p ∧ 10 ∉ p) {cs : List Bytes}
    (hcs : cs.flatten = ps.flatMap (· ++ ending.bytes)) :
    (plain (.line .autoLf) false false [] 0).received cs = ps ∧
      (decoder.pushAll (plain (.line .autoLf) false false [] 0) cs).2.2.buf = [] := by
  have hextracts (buf : Bytes) (count : ℕ) :
      (plain (.line .autoLf) false false buf count).Extracts :=
    plain_extracts (by simp [DecoderMode.frameType])
  have hx : ∀ p ∈ ps, ∀ rest, extract false (.line .autoLf) (p ++ ending.bytes ++ rest) =
      (some (id p), .line .autoLf, rest) := fun p hp rest =>
    extract_auto_line hending (hps p hp).1 (hps p hp).2 rest
  have hdec := Decodes.messages hextracts rfl hx 0
  rw [List.map_id] at hdec
  -- all chunkings give what one chunk gives, and that settles without an error
  have hclean := not_lfAfterBareCr (crBeforeLf_lines hending fun p hp => (hps p hp).1)
  have hnew : FrameDecoder.new .refusing ⟨.line .auto, none, false, false⟩ none =
      .ok (plain (.line .autoLf) false false [] 0) := rfl
  have hone : [ps.flatMap (· ++ ending.bytes)].flatten = ps.flatMap (· ++ ending.bytes) := by simp
  rw [received, auto_pushAll_congr hnew rfl hclean hcs hone]
  exact hdec.received_one (hextracts _ 0)

/-! ## Round trip -/

/-- **Terminator round trip.** For a pair of TX and RX framing with a
    terminator: payloads in which it first occurs at their end, sent one after
    another and cut into any chunks, are received as they were sent; of any
    other payload, something else is received first.  Lines without CR and LF
    that end in LF or CRLF are also received through `auto`. -/
theorem terminated_roundTrip (crates : Crates) (maxFrames : Option ℕ) :
    (∀ tx rx t, TerminatedPair crates tx rx t →
      ∃ d, FrameDecoder.new crates ⟨rx, maxFrames, false, false⟩ none = .ok d ∧
        (∀ ps : List Bytes, (∀ p ∈ ps, Unambiguous t p) →
          ∃ stream, tx.encodeAll crates ps = .ok stream ∧
            ∀ cs : List Bytes, cs.flatten = stream → d.received cs = ps ∧ d.faults cs = []) ∧
        ∀ p : Bytes, ¬Unambiguous t p →
          ∃ stream, tx.encode crates p = .ok stream ∧
            ∀ cs : List Bytes, cs.flatten = stream →
              ∃ q, (d.received cs).head? = some q ∧ q ≠ p) ∧
    ∀ ending : TxLineEnding, ending ≠ .cr → ∀ ps : List Bytes, (∀ p ∈ ps, 13 ∉ p ∧ 10 ∉ p) →
      ∃ d stream, FrameDecoder.new crates ⟨.line .auto, maxFrames, false, false⟩ none = .ok d ∧
        (TxFramingMode.line ending).encodeAll crates ps = .ok stream ∧
        ∀ cs : List Bytes, cs.flatten = stream → d.received cs = ps := by
  constructor
  · intro tx rx t hpair
    obtain ⟨mode, message, hmode, hsingle, hterm, hencode⟩ := hpair.terminates
    have hrest : (plain mode false false [] 0).next = (none, plain mode false false [] 0) := by
      rw [next_of_extracts (hterm.extracts [] 0)]
      simp only [nextFrame, plain, hterm.nil]
    refine ⟨_, new_plain hmode, ?_, ?_⟩
    · intro ps hps
      refine ⟨_, TxFramingMode.encodeAll_of_encode fun p _ => hencode p, ?_⟩
      intro cs hcs
      obtain ⟨hreceived, hfaults, -⟩ := Decodes.received (d := plain mode false false [] 0) hsingle
        hrest (hterm.decodes hps) hcs
      exact ⟨hreceived, hfaults⟩
    · intro p hp
      refine ⟨_, hencode p, ?_⟩
      intro cs hcs
      obtain ⟨q, out, m, b, hne, hdec⟩ := hterm.cut hp
      obtain ⟨hreceived, -, -⟩ := Decodes.received (d := plain mode false false [] 0) hsingle hrest
        hdec hcs
      refine ⟨q, ?_, hne⟩
      show List.head? (received _ cs) = some q
      rw [hreceived, List.head?_cons]
  · intro ending hending ps hps
    have hmode : newMode crates (.line .auto) = .ok (.line .autoLf) := rfl
    have hencode (p : Bytes) : (TxFramingMode.line ending).encode crates p =
      .ok (p ++ ending.bytes) := rfl
    refine ⟨_, _, new_plain hmode, TxFramingMode.encodeAll_of_encode fun p _ => hencode p, ?_⟩
    intro cs hcs
    exact (auto_received hending hps hcs).1

/-- Payloads with a lone CR in them, terminated by CRLF. -/
theorem terminated_roundTrip_crlf : ∃ d,
    FrameDecoder.new .refusing ⟨.line .crlf, none, false, false⟩ none = .ok d ∧
      d.received [[97, 13, 13], [10, 98, 13], [10]] = [[97, 13], [98]] := by
  obtain ⟨d, hnew, hps, -⟩ := (terminated_roundTrip .refusing none).1 _ _ _ .crlf
  obtain ⟨stream, hstream, h⟩ := hps [[97, 13], [98]] (by unfold Unambiguous; decide)
  obtain rfl := Except.ok.inj hstream
  exact ⟨d, hnew, (h [[97, 13, 13], [10, 98, 13], [10]] (by decide)).1⟩

end SerialMcp
