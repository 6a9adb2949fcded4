/-
  SLIP: what is sent is what is received, and how far line noise reaches.

  * `slip_roundTrip`: the concatenated encodings of any payloads, in any
    chunking, decode to the payloads, with an empty frame between two of them
    (between the two ENDs) unless blank frames are skipped;
  * `slip_recovers_iff`: noise in front of a packet does no harm, unless it
    leaves the decoder behind an ESC: the END that opens the packet is then
    taken for a malformed escape, and the packet for noise.
-/
import SerialMcp.Framing.Encode
import SerialMcp.Framing.Streams

namespace SerialMcp

open Incremental FrameDecoder

/-! ## The automaton without a parser -/

/-- One byte of `slip_decode` without a parser. -/
def slipStep (skip : Bool) (st : SlipState) (b : UInt8) :
    List Bytes × Option FrameDecodeError × SlipState :=
  let r := slipByte skip none 0 b st
  (r.1.1.frames.map Frame.data, r.1.2, r.2.1)

section
variable {skip : Bool} {b : UInt8} {buf : Bytes}

theorem slipStep_begin : slipStep skip .beforeFirstEnd slipEnd = ([], none, .inFrame [] false) :=
  rfl

theorem slipStep_discard (h : b ≠ slipEnd) :
    slipStep skip .beforeFirstEnd b = ([], none, .beforeFirstEnd) := by
  simp [slipStep, slipByte, h]

theorem slipStep_end :
    slipStep skip (.inFrame buf false) slipEnd = (kept skip buf, none, .inFrame [] false) := by
  obtain ⟨o, n, he, hframes⟩ := emitFrame_plain skip 0 .slip buf
  simp [slipStep, slipByte, he, hframes]

theorem slipStep_esc :
    slipStep skip (.inFrame buf false) slipEsc = ([], none, .inFrame buf true) := rfl

theorem slipStep_data (h : b ≠ slipEnd) (h' : b ≠ slipEsc) :
    slipStep skip (.inFrame buf false) b = ([], none, .inFrame (buf ++ [b]) false) := by
  simp [slipStep, slipByte, h, h']

theorem slipStep_escEnd :
    slipStep skip (.inFrame buf true) slipEscEnd = ([], none, .inFrame (buf ++ [slipEnd]) false) :=
  rfl

theorem slipStep_escEsc :
    slipStep skip (.inFrame buf true) slipEscEsc = ([], none, .inFrame (buf ++ [slipEsc]) false) :=
  rfl

theorem slipStep_malformed : slipStep skip (.inFrame buf true) slipEnd =
    ([], some (.slipInvalidEscape slipEnd), .beforeFirstEnd) := rfl

/-- The frame count only numbers the frames. -/
theorem slipByte_plain (skip : Bool) (n : ℕ) (b : UInt8) (st : SlipState) :
    ∃ o n', slipByte skip none n b st =
        ((o, (slipStep skip st b).2.1), (slipStep skip st b).2.2, n') ∧
      o.frames.map Frame.data = (slipStep skip st b).1 := by
  rcases st with _ | ⟨buf, _ | _⟩
  · exact ⟨1, n, rfl, rfl⟩
  · by_cases hend : b = slipEnd
    · subst hend
      obtain ⟨o, n', he, hframes⟩ := emitFrame_plain skip n .slip buf
      rw [slipStep_end]
      refine ⟨o, n', ?_, hframes⟩
      simp [slipByte, he]
    · by_cases hesc : b = slipEsc
      · subst hesc
        exact ⟨1, n, rfl, rfl⟩
      · rw [slipStep_data hend hesc]
        refine ⟨1, n, ?_, rfl⟩
        simp [slipByte, hend, hesc]
  · simp only [slipByte, slipStep]
    split
    · exact ⟨1, n, rfl, rfl⟩
    · split
      · exact ⟨1, n, rfl, rfl⟩
      · exact ⟨1, n, rfl, rfl⟩

end

/-- **The SLIP decoder is its automaton**, byte by byte. -/
theorem FrameDecoder.Decodes.slip (inc skip : Bool) (st : SlipState) (bs : Bytes) (count : ℕ) :
    Decodes (plain (.slip st) inc skip bs count) (scan (slipStep skip) st bs).1
      (scan (slipStep skip) st bs).2.1 (.slip (scan (slipStep skip) st bs).2.2) [] := by
  induction bs generalizing st count with
  | nil =>
    have hn : (plain (.slip st) inc skip [] count).next =
        (none, plain (.slip st) inc skip [] count) := rfl
    exact Decodes.wait hn
  | cons b bs ih =>
    obtain ⟨o, n, hb, hframes⟩ := slipByte_plain skip count b st
    have hn : (plain (.slip st) inc skip (b :: bs) count).next =
        (some (o, (slipStep skip st b).2.1),
          plain (.slip (slipStep skip st b).2.2) inc skip bs n) := by
      simp only [next, nextSlip, plain, hb]
    simp only [scan]
    rw [← hframes]
    exact Decodes.event hn (ih _ n)

/-! ## Stuffed payloads -/

section
variable {skip : Bool}

theorem scan_slipStuff (buf p : Bytes) :
    scan (slipStep skip) (.inFrame buf false) (slipStuff p) =
      ([], [], .inFrame (buf ++ p) false) := by
  induction p generalizing buf with
  | nil =>
    rw [List.append_nil]
    rfl
  | cons b p ih =>
    have hbyte : scan (slipStep skip) (.inFrame buf false) (slipStuffByte b) =
        ([], [], .inFrame (buf ++ [b]) false) := by
      by_cases hend : b = slipEnd
      · subst hend
        simp [slipStuffByte, scan, slipStep_esc, slipStep_escEnd]
      · by_cases hesc : b = slipEsc
        · subst hesc
          simp [slipStuffByte, hend, scan, slipStep_esc, slipStep_escEsc]
        · simp [slipStuffByte, hend, hesc, scan, slipStep_data hend hesc]
    have hcons : slipStuff (b :: p) = slipStuffByte b ++ slipStuff p := rfl
    rw [hcons, scan_silent hbyte, ih, List.append_assoc]
    rfl

theorem slipEnd_notMem_slipStuff (p : Bytes) : slipEnd ∉ slipStuff p := by
  intro h
  obtain ⟨b, -, hb⟩ := List.mem_flatMap.1 h
  unfold slipStuffByte at hb
  split at hb
  · revert hb
    decide
  · split at hb
    · revert hb
      decide
    · next hend _ => exact hend (List.mem_singleton.1 hb).symm

/-- Bytes without an END are discarded outside a frame. -/
theorem scan_discard {bs : Bytes} (h : slipEnd ∉ bs) :
    scan (slipStep skip) .beforeFirstEnd bs = ([], [], .beforeFirstEnd) := by
  induction bs with
  | nil => rfl
  | cons b bs ih =>
    rw [List.mem_cons, not_or] at h
    obtain ⟨hb, hbs⟩ := h
    simp only [scan, slipStep_discard (Ne.symm hb), ih hbs]
    rfl

/-- A packet as `encode` builds it. -/
def slipPacket (p : Bytes) : Bytes := slipEnd :: slipStuff p ++ [slipEnd]

theorem scan_slipBody (p : Bytes) :
    scan (slipStep skip) (.inFrame [] false) (slipStuff p ++ [slipEnd]) =
      (kept skip p, [], .inFrame [] false) := by
  rw [scan_silent (scan_slipStuff [] p), List.nil_append]
  simp [scan, slipStep_end]

theorem scan_slipPacket_first (p : Bytes) :
    scan (slipStep skip) .beforeFirstEnd (slipPacket p) = (kept skip p, [], .inFrame [] false) := by
  simp only [slipPacket, List.cons_append, scan, slipStep_begin, scan_slipBody]
  rfl

theorem scan_slipPacket (buf p : Bytes) :
    scan (slipStep skip) (.inFrame buf false) (slipPacket p) =
      (kept skip buf ++ kept skip p, [], .inFrame [] false) := by
  simp only [slipPacket, List.cons_append, scan, slipStep_end, scan_slipBody]
  rfl

/-- A packet behind an ESC: its END is a malformed escape, its body is noise,
    and its last END opens a frame. -/
theorem scan_slipPacket_escaped (buf p : Bytes) :
    scan (slipStep skip) (.inFrame buf true) (slipPacket p) =
      ([], [.slipInvalidEscape slipEnd], .inFrame [] false) := by
  have hbody : scan (slipStep skip) .beforeFirstEnd (slipStuff p ++ [slipEnd]) =
      ([], [], .inFrame [] false) := by
    rw [scan_silent (scan_discard (slipEnd_notMem_slipStuff p))]
    rfl
  simp only [slipPacket, List.cons_append, scan, slipStep_malformed, hbody]
  rfl

theorem scan_slipPackets (ps : List Bytes) :
    scan (slipStep skip) (.inFrame [] false) (ps.flatMap slipPacket) =
      (ps.flatMap fun p => kept skip [] ++ kept skip p, [], .inFrame [] false) := by
  induction ps with
  | nil => rfl
  | cons p ps ih =>
    rw [List.flatMap_cons, scan_append, scan_slipPacket, ih]
    rfl

end

/-! ## Round trip -/

theorem newMode_slip (crates : Crates) : newMode crates .slip = .ok (.slip .beforeFirstEnd) := rfl

theorem kept_intersperse (p : Bytes) (ps : List Bytes) :
    kept false p ++ ps.flatMap (fun q => kept false [] ++ kept false q) =
      (p :: ps).intersperse [] := by
  induction ps generalizing p with
  | nil => rfl
  | cons q ps ih =>
    rw [List.flatMap_cons, List.append_assoc, ih q]
    rfl

/-- **SLIP round trip.** The encodings of any payloads, cut into any chunks,
    decode without an error to the payloads with an empty frame between each
    two of them; with `skip_empty`, to the payloads that are not blank. -/
theorem slip_roundTrip (crates : Crates) (maxFrames : Option ℕ) (inc skip : Bool) (p : Bytes)
    (ps : List Bytes) :
    ∃ d stream, FrameDecoder.new crates ⟨.slip, maxFrames, inc, skip⟩ none = .ok d ∧
      TxFramingMode.slip.encodeAll crates (p :: ps) = .ok stream ∧
      ∀ cs : List Bytes, cs.flatten = stream → d.faults cs = [] ∧
        d.received cs = if skip then (p :: ps).filter fun q => !isBlankFrame q
          else (p :: ps).intersperse [] := by
  have hencode (q : Bytes) : TxFramingMode.slip.encode crates q = .ok (slipPacket q) := rfl
  refine ⟨_, _, new_plain (newMode_slip crates),
    TxFramingMode.encodeAll_of_encode fun q _ => hencode q, ?_⟩
  intro cs hcs
  have hscan : scan (slipStep skip) .beforeFirstEnd ((p :: ps).flatMap slipPacket) =
      (kept skip p ++ ps.flatMap (fun q => kept skip [] ++ kept skip q), [],
        .inFrame [] false) := by
    rw [List.flatMap_cons, scan_append, scan_slipPacket_first, scan_slipPackets]
    rfl
  have hdec := Decodes.slip inc skip .beforeFirstEnd ((p :: ps).flatMap slipPacket) 0
  rw [hscan] at hdec
  obtain ⟨hreceived, hfaults, -⟩ := Decodes.received
    (d := plain (.slip .beforeFirstEnd) inc skip [] 0) trivial rfl hdec hcs
  refine ⟨hfaults, ?_⟩
  rw [hreceived]
  rcases skip with _ | _
  · exact kept_intersperse p ps
  · rw [if_pos rfl, ← flatMap_kept_true, List.flatMap_cons]
    rfl

/-- Payloads of special bytes, cut between and inside escapes. -/
theorem slip_roundTrip_special : ∃ d,
    FrameDecoder.new .refusing ⟨.slip, none, false, false⟩ none = .ok d ∧
      d.received [[192, 219], [220, 192, 192, 219, 221], [32, 192]] = [[192], [], [219, 32]] := by
  obtain ⟨d, stream, hnew, hstream, h⟩ :=
    slip_roundTrip .refusing none false false [192] [[219, 32]]
  obtain rfl := Except.ok.inj hstream
  exact ⟨d, hnew, (h [[192, 219], [220, 192, 192, 219, 221], [32, 192]] (by decide)).2⟩

/-! ## Noise -/

/-- What noise leaves behind: the state in which the next packet finds the decoder. -/
def slipAfter (skip : Bool) (noise : Bytes) : SlipState :=
  (scan (slipStep skip) .beforeFirstEnd noise).2.2

/-- Inside a frame, right behind an ESC. -/
def SlipState.MidEscape : SlipState → Prop
  | .inFrame _ escaped => escaped = true
  | .beforeFirstEnd => False

/-- A decoder that receives `noise` and the encoding of `p` emits `p` last,
    however the bytes are cut, once it is drained of errors. -/
def SlipRecovers (crates : Crates) (d : FrameDecoder) (noise p : Bytes) : Prop :=
  ∀ (packet : Bytes) (cs : List Bytes), TxFramingMode.slip.encode crates p = .ok packet →
    cs.flatten = noise ++ packet →
    ((decoder.total d cs).1.frames.map Frame.data).getLast? = some p

theorem slip_total {inc skip : Bool} {noise p : Bytes} {cs : List Bytes}
    (hcs : cs.flatten = noise ++ slipPacket p) :
    (decoder.total (plain (.slip .beforeFirstEnd) inc skip [] 0) cs).1.frames.map Frame.data =
      (scan (slipStep skip) .beforeFirstEnd noise).1 ++
        (scan (slipStep skip) (slipAfter skip noise) (slipPacket p)).1 := by
  have hdec := Decodes.slip inc skip .beforeFirstEnd (noise ++ slipPacket p) 0
  rw [scan_append] at hdec
  exact (Decodes.total (d := plain (.slip .beforeFirstEnd) inc skip [] 0) trivial hdec hcs).1

/-- **SLIP recovers exactly if the noise does not end in an ESC** inside a
    frame: then, and only then, every packet behind it is received as the last
    frame (blank ones apart, if they are skipped). -/
theorem slip_recovers_iff (crates : Crates) (maxFrames : Option ℕ) (inc skip : Bool)
    (noise : Bytes) : ∃ d, FrameDecoder.new crates ⟨.slip, maxFrames, inc, skip⟩ none = .ok d ∧
      ((∀ p, kept skip p = [p] → SlipRecovers crates d noise p) ↔
        ¬(slipAfter skip noise).MidEscape) := by
  refine ⟨_, new_plain (newMode_slip crates), ?_⟩
  constructor
  · intro h hmid
    rcases hst : slipAfter skip noise with _ | ⟨buf, escaped⟩
    · rw [hst] at hmid
      exact hmid
    · rw [hst] at hmid
      obtain rfl : escaped = true := hmid
      -- the packet is lost, so what came last cannot be both of two payloads
      have hlast (p : Bytes) (hp : kept skip p = [p]) :
          (scan (slipStep skip) .beforeFirstEnd noise).1.getLast? = some p := by
        have hcs : [noise ++ slipPacket p].flatten = noise ++ slipPacket p := by simp
        have hrec := h p hp _ _ rfl hcs
        rw [slip_total hcs, hst, scan_slipPacket_escaped, List.append_nil] at hrec
        exact hrec
      have h65 := hlast [65] (by cases skip <;> rfl)
      rw [hlast [66] (by cases skip <;> rfl)] at h65
      exact absurd h65 (by decide)
  · intro hmid p hp packet cs hpacket hcs
    obtain rfl : slipPacket p = packet := Except.ok.inj hpacket
    show List.getLast? (List.map Frame.data _) = some p
    rw [slip_total hcs]
    rcases hst : slipAfter skip noise with _ | ⟨buf, _ | _⟩
    · rw [scan_slipPacket_first, hp, List.getLast?_concat]
    · rw [scan_slipPacket, hp, ← List.append_assoc, List.getLast?_concat]
    · rw [hst] at hmid
      exact absurd rfl hmid

/-- Noise that opens a frame and ends in an ESC: the packet of `A` is lost. -/
theorem slip_not_recovers : ¬∀ (crates : Crates) (d : FrameDecoder) (noise p : Bytes),
    FrameDecoder.new crates ⟨.slip, none, false, false⟩ none = .ok d →
    SlipRecovers crates d noise p := by
  intro h
  have hlast := h .refusing _ [192, 219] [65] rfl _ [[192, 219], [192, 65, 192]] rfl (by decide)
  revert hlast
  decide

end SerialMcp
