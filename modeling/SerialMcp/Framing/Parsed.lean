/-
  Framing and parsing are two passes.

  The decoder runs its parser on a frame as soon as it has cut it out, in the middle of the
  decoding loop.  The result is as if all frames were cut out first, without a parser, and
  then handed to `emit_frame` one after another.

  * `emitAll`: `emit_frame` on a list of frames;
  * `parsing`: the translation of a decoder without a parser into one with it;
  * `parsed_after_framing`: the two agree after any calls, in every push and in every
    `flush_partial`.
-/
import SerialMcp.Framing.Auto
import SerialMcp.Framing.Emission
import SerialMcp.Framing.RoundTrip
import SerialMcp.Lib.Translations

namespace SerialMcp

open Incremental

namespace FrameDecoder

/-! ## The second pass -/

/-- `emit_frame` on the data of frames, one after another. -/
def emitAll (skip : Bool) (parser : Option FrameParser) (ft : FrameType) :
    ℕ → List Bytes → Emitted × ℕ
  | n, [] => (1, n)
  | n, data :: rest =>
    let r := emitFrame skip parser n ft data
    let t := emitAll skip parser ft r.2 rest
    (r.1.1 * t.1, t.2)

/-- A decoder with another number, handling of blank frames and parser. -/
def parsed (skip : Bool) (parser : Option FrameParser) (n : ℕ) (d : FrameDecoder) :
    FrameDecoder :=
  { d with frameCount := n, skipEmpty := skip, parser := parser }

/-- A decoder that only cuts out frames, of the given type. -/
structure Cuts (ft : FrameType) (d : FrameDecoder) : Prop where
  configured : Configured false none d
  frameType : d.mode.frameType = ft

section
variable {skip : Bool} {parser : Option FrameParser} {ft : FrameType} {n : ℕ} {d : FrameDecoder}

theorem emitAll_append (n : ℕ) (xs ys : List Bytes) : emitAll skip parser ft n (xs ++ ys) =
    ((emitAll skip parser ft n xs).1 *
        (emitAll skip parser ft (emitAll skip parser ft n xs).2 ys).1,
      (emitAll skip parser ft (emitAll skip parser ft n xs).2 ys).2) := by
  induction xs generalizing n with
  | nil => simp only [List.nil_append, emitAll, one_mul]
  | cons data xs ih => simp only [List.cons_append, emitAll, ih, mul_assoc]

theorem emitAll_one (data : Bytes) : emitAll skip parser ft n [data] =
    ((emitFrame skip parser n ft data).1.1, (emitFrame skip parser n ft data).2) := by
  simp only [emitAll, mul_one]

/-- The result of the parser for a frame, unless the frame is skipped or dropped. -/
def readFrame (skip : Bool) (p : FrameParser) (data : Bytes) : Option (Bytes × ParsedFrame) :=
  if skip && isBlankFrame data then none else (p data).toOption.map (data, ·)

/-- Frames with these data and contents, numbered from `n` on. -/
def numberFrames (ft : FrameType) (n : ℕ) (rs : List (Bytes × ParsedFrame)) : List Frame :=
  (rs.zipIdx n).map fun r => ⟨r.1.1, r.2, ft, some r.1.2⟩

/-- **What a parser makes of frames.** -/
theorem emitAll_reads (p : FrameParser) (n : ℕ) (xs : List Bytes) :
    (emitAll skip (some p) ft n xs).1 = ⟨numberFrames ft n (xs.filterMap (readFrame skip p)),
      xs.countP (drops skip (some p))⟩ := by
  induction xs generalizing n with
  | nil => rfl
  | cons data xs ih =>
    rw [emitAll, ih]
    by_cases hblank : (skip && isBlankFrame data) = true
    · simp [emitFrame, hblank, readFrame, drops]
    have hblank' : (skip && isBlankFrame data) = false := by simpa using hblank
    rcases hp : p data with e | pf
    · have hread : readFrame skip p data = none := by simp [readFrame, hp, Except.toOption]
      rw [List.filterMap_cons_none hread, List.countP_cons]
      cases e with
      | checksumMismatch expected received =>
        simp [emitFrame, hblank', hp, drops, Emitted.ext_iff, Nat.add_comm]
      | _ => simp [emitFrame, hblank', hp, drops]
    · have hread : readFrame skip p data = some (data, pf) := by
        simp [readFrame, hblank', hp, Except.toOption]
      rw [List.filterMap_cons_some hread]
      simp [emitFrame, hblank', hp, drops, numberFrames, Emitted.ext_iff]

/-! ## One turn -/

/-- The event of a decoder that cuts, handed to the second pass. -/
def translated (skip : Bool) (parser : Option FrameParser) (ft : FrameType) (n : ℕ)
    (r : Option (Emitted × Option FrameDecodeError) × FrameDecoder) :
    Option (Emitted × Option FrameDecodeError) × FrameDecoder :=
  match r with
  | (none, d₁) => (none, parsed skip parser n d₁)
  | (some (o, x), d₁) => (some ((emitAll skip parser ft n (o.frames.map Frame.data)).1, x),
      parsed skip parser (emitAll skip parser ft n (o.frames.map Frame.data)).2 d₁)

theorem emitFrame_cut (count : ℕ) (ft : FrameType) (data : Bytes) :
    emitFrame false none count ft data = ((⟨[⟨data, count, ft, none⟩], 0⟩, none), count + 1) := rfl

section
variable (hparser : ∀ p ∈ parser, ∃ validate, ChecksumErrors validate p)
include hparser

theorem nextFrame_parsed (h : Cuts ft d) :
    (parsed skip parser n d).nextFrame = translated skip parser ft n d.nextFrame := by
  obtain ⟨⟨hskip, hnone⟩, rfl⟩ := h
  simp only [nextFrame, parsed, hskip, hnone]
  rcases extract d.includeTerminators d.mode d.buf with ⟨_ | data, mode, buf⟩
  · simp only [translated, parsed]
  · have hok : (emitFrame skip parser n d.mode.frameType data).1.2 = none := emitFrame_ok hparser
    simp only [translated, emitFrame_cut, List.map_cons, List.map_nil, emitAll_one, parsed]
    rw [← hok]

theorem slipByte_parsed (count : ℕ) (b : UInt8) (st : SlipState) :
    slipByte skip parser n b st =
      let r := slipByte false none count b st
      let second := emitAll skip parser .slip n (r.1.1.frames.map Frame.data)
      ((second.1, r.1.2), r.2.1, second.2) := by
  rcases st with _ | ⟨buf, _ | _⟩
  · rfl
  · have hok : (emitFrame skip parser n .slip buf).1.2 = none := emitFrame_ok hparser
    simp only [slipByte, emitFrame_cut]
    by_cases hend : b = slipEnd
    · simp only [if_pos hend, List.map_cons, List.map_nil, emitAll_one, hok, Option.isNone_none,
        if_true]
      rw [← hok]
    · simp only [if_neg hend]
      split_ifs <;> rfl
  · simp only [slipByte]
    split_ifs <;> rfl

theorem cobsByte_parsed (count : ℕ) (b : UInt8) (st : CobsState) :
    cobsByte skip parser n b st =
      let r := cobsByte false none count b st
      let second := emitAll skip parser .cobs n (r.1.1.frames.map Frame.data)
      ((second.1, r.1.2), r.2.1, second.2) := by
  rcases st with _ | ⟨decoded, _ | remaining, pendingZero⟩
  · rfl
  · have hok : (emitFrame skip parser n .cobs (dropPhantom decoded)).1.2 = none :=
      emitFrame_ok hparser
    simp only [cobsByte, emitFrame_cut]
    by_cases hzero : b = 0
    · simp only [if_pos hzero, List.map_cons, List.map_nil, emitAll_one]
      rw [← hok]
    · simp only [if_neg hzero]
      split_ifs <;> rfl
  · rfl

/-- **One turn with a parser** is one turn without it, and then the second pass. -/
theorem next_parsed (h : Cuts ft d) :
    (parsed skip parser n d).next = translated skip parser ft n d.next := by
  have hframe : (parsed skip parser n d).nextFrame = translated skip parser ft n d.nextFrame :=
    nextFrame_parsed hparser h
  obtain ⟨⟨hskip, hnone⟩, hft⟩ := h
  rcases d with ⟨buf, mode, count, incl, skip', parser'⟩
  obtain rfl : skip' = false := hskip
  obtain rfl : parser' = none := hnone
  cases mode with
  | slip st =>
    obtain rfl : FrameType.slip = ft := hft
    rcases buf with _ | ⟨b, rest⟩
    · rfl
    · simp only [FrameDecoder.next, nextSlip, parsed, translated,
        slipByte_parsed hparser count b st]
  | cobs st =>
    obtain rfl : FrameType.cobs = ft := hft
    rcases buf with _ | ⟨b, rest⟩
    · rfl
    · simp only [FrameDecoder.next, nextCobs, parsed, translated,
        cobsByte_parsed hparser count b (cobsFlush st)]
  | _ => exact hframe

end

theorem Cuts.feed (h : Cuts ft d) (chunk : Bytes) : Cuts ft (d.feed chunk) :=
  ⟨⟨h.configured.skipEmpty, h.configured.parser⟩, h.frameType⟩

theorem Cuts.next (h : Cuts ft d) : Cuts ft d.next.2 := by
  refine ⟨h.configured.next, ?_⟩
  rw [← h.frameType]
  have hframe : d.nextFrame.2.mode.frameType = d.mode.frameType := by
    have hextract := extract_frameType d.includeTerminators d.mode d.buf
    unfold nextFrame
    rcases hx : extract d.includeTerminators d.mode d.buf with ⟨_ | data, mode, buf⟩
    all_goals
      rw [hx] at hextract
      exact hextract
  rcases d with ⟨buf, mode, count, incl, skip, parser⟩
  cases mode with
  | slip st => rcases buf with _ | ⟨b, rest⟩ <;> rfl
  | cobs st => rcases buf with _ | ⟨b, rest⟩ <;> rfl
  | _ => exact hframe

/-- The second pass as a translation of decoders. -/
def parsing (skip : Bool) (ft : FrameType)
    (hparser : ∀ p ∈ parser, ∃ validate, ChecksumErrors validate p) :
    Translation ℕ extractor extractor (Cuts ft) where
  state := parsed skip parser
  out n o := emitAll skip parser ft n (o.frames.map Frame.data)
  out_one n := rfl
  out_mul n a b := by rw [Emitted.mul_frames, List.map_append, emitAll_append]
  feed n d c := rfl
  pending n d := rfl
  keeps_feed c h := h.feed c
  keeps_next h := h.next
  wait {n d d₁} h hnext := by
    have hparsed : (parsed skip parser n d).next = _ := next_parsed hparser h
    rwa [show d.next = _ from hnext] at hparsed
  event {n d o x d₁} h hnext := by
    have hparsed : (parsed skip parser n d).next = _ := next_parsed hparser h
    rwa [show d.next = _ from hnext] at hparsed

/-! ## Calls -/

/-- **A push with a parser** is a push without it, and then the second pass. -/
theorem push_parsed (hparser : ∀ p ∈ parser, ∃ validate, ChecksumErrors validate p)
    (skip : Bool) (n : ℕ) (h : Cuts ft d) (chunk : Bytes) :
    (parsed skip parser n d).push chunk =
      (let second := emitAll skip parser ft n ((d.push chunk).1.frames.map Frame.data)
      (⟨second.1.frames, second.1.framesDropped, (d.push chunk).1.error⟩,
        parsed skip parser second.2 (d.push chunk).2)) ∧
      Cuts ft (d.push chunk).2 := by
  obtain ⟨hsettle, hkept⟩ := (parsing skip ft hparser).settle n (h.feed chunk)
  refine ⟨?_, hkept⟩
  rw [push, show decoder.settle ((parsed skip parser n d).feed chunk) = _ from hsettle]
  rfl

/-- `flush_partial` does not look at the parser. -/
theorem flushPartial_parsed (skip : Bool) (parser : Option FrameParser) (n : ℕ)
    (d : FrameDecoder) :
    (parsed skip parser n d).flushPartial =
      (d.flushPartial.1.map fun f => ⟨f.data, n, f.frameType, none⟩,
        parsed skip parser (n + d.flushPartial.1.toList.length) d.flushPartial.2) := by
  rcases d with ⟨buf, mode, count, incl, skip', parser'⟩
  -- the bytes that are pending: in the buffer, or in an unfinished frame
  cases mode with
  | slip st =>
    rcases st with _ | ⟨data, escaped⟩
    · by_cases hbuf : buf = [] <;> simp [flushPartial, parsed, hbuf]
    · by_cases hdata : data = [] <;> simp [flushPartial, parsed, hdata]
  | cobs st =>
    rcases st with _ | ⟨data, remaining, pendingZero⟩
    · by_cases hbuf : buf = [] <;> simp [flushPartial, parsed, hbuf]
    · by_cases hdata : data = [] <;> simp [flushPartial, parsed, hdata]
  | _ => by_cases hbuf : buf = [] <;> simp [flushPartial, parsed, hbuf]

theorem Cuts.flushPartial (h : Cuts ft d) : Cuts ft d.flushPartial.2 := by
  refine ⟨(flushPartial_numbered h.configured).2, ?_⟩
  rw [← h.frameType]
  unfold FrameDecoder.flushPartial
  split
  all_goals
    rename_i hmode
    dsimp only
    split_ifs
  all_goals simp only [hmode, DecoderMode.frameType]

theorem run_parsed (hparser : ∀ p ∈ parser, ∃ validate, ChecksumErrors validate p)
    (skip : Bool) (n : ℕ) (h : Cuts ft d) (call : Call) :
    (∃ m, call.run (parsed skip parser n d) = parsed skip parser m (call.run d)) ∧
      Cuts ft (call.run d) := by
  cases call with
  | push chunk =>
    obtain ⟨hpush, hkept⟩ := push_parsed hparser skip n h chunk
    exact ⟨⟨_, congrArg Prod.snd hpush⟩, hkept⟩
  | flushPartial =>
    exact ⟨⟨_, congrArg Prod.snd (flushPartial_parsed skip parser n d)⟩, h.flushPartial⟩

/-- Any calls keep the two decoders together. -/
theorem runs_parsed (hparser : ∀ p ∈ parser, ∃ validate, ChecksumErrors validate p)
    (skip : Bool) (n : ℕ) (h : Cuts ft d) (calls : List Call) :
    (∃ m, calls.foldl Call.run (parsed skip parser n d) =
        parsed skip parser m (calls.foldl Call.run d)) ∧
      Cuts ft (calls.foldl Call.run d) := by
  induction calls generalizing n d with
  | nil => exact ⟨⟨n, rfl⟩, h⟩
  | cons call calls ih =>
    obtain ⟨⟨m, hcall⟩, hkept⟩ := run_parsed hparser skip n h call
    rw [List.foldl_cons, List.foldl_cons, hcall]
    exact ih m hkept

end

section
variable {crates : Crates} {config : RxFramingConfig} {pc : Option ParserConfig}
  {d : FrameDecoder}

/-- The decoder with the parser is one that cuts, in another configuration. -/
theorem new_parsed (hnew : new crates config pc = .ok d) :
    ∃ cut, new crates { config with skipEmpty := false } none = .ok cut ∧
      Cuts d.mode.frameType cut ∧ d = parsed config.skipEmpty d.parser 0 cut := by
  rcases hmode : newMode crates config.mode with e | mode
  · simp only [new, hmode] at hnew
    cases hnew
  rcases hparser : newParser crates pc with e | parser
  · simp only [new, hmode, hparser] at hnew
    cases hnew
  simp only [new, hmode, hparser] at hnew
  cases hnew
  exact ⟨_, @new_plain crates { config with skipEmpty := false } mode hmode, ⟨⟨rfl, rfl⟩, rfl⟩, rfl⟩

/-- **Parsing is a pass of its own**: after any calls, a decoder has the same bytes pending
    as one that only cuts frames out; a push emits, drops and numbers what `emit_frame` makes
    of its frames one after another, with the same error; and `flush_partial` returns the
    same bytes. -/
theorem parsed_after_framing (hnew : new crates config pc = .ok d) :
    ∃ cut, new crates { config with skipEmpty := false } none = .ok cut ∧ ∀ calls : List Call,
      let cut' := calls.foldl Call.run cut
      let d' := calls.foldl Call.run d
      (d'.mode = cut'.mode ∧ d'.buf = cut'.buf) ∧
      (∀ chunk : Bytes,
        let second := emitAll config.skipEmpty d.parser d.mode.frameType d'.frameCount
          ((cut'.push chunk).1.frames.map Frame.data)
        (d'.push chunk).1 =
          ⟨second.1.frames, second.1.framesDropped, (cut'.push chunk).1.error⟩) ∧
      d'.flushPartial.1.map Frame.data = cut'.flushPartial.1.map Frame.data := by
  have hparser := new_noFatal hnew
  obtain ⟨cut, hcut, hcuts, heq⟩ := new_parsed hnew
  refine ⟨cut, hcut, fun calls => ?_⟩
  obtain ⟨⟨m, hruns⟩, hkept⟩ := runs_parsed hparser config.skipEmpty 0 hcuts calls
  rw [← heq] at hruns
  intro cut' d'
  have hd : d' = parsed config.skipEmpty d.parser m cut' := hruns
  refine ⟨?_, fun chunk => ?_, ?_⟩
  · rw [hd]
    exact ⟨rfl, rfl⟩
  · rw [hd]
    exact congrArg Prod.fst (push_parsed hparser config.skipEmpty m hkept chunk).1
  · rw [hd, flushPartial_parsed, Option.map_map]
    rfl

/-- A dropped sentence, a blank line, and one that is no sentence. -/
theorem parsed_after_framing_nmea : ∃ d cut,
    new .refusing ⟨.line .lf, none, false, true⟩ (some ⟨.nmea, none, true⟩) = .ok d ∧
    new .refusing ⟨.line .lf, none, false, false⟩ none = .ok cut ∧
    (d.push [36, 65, 44, 42, 48, 48, 10, 32, 10, 104, 105, 10, 120]).1.framesDropped =
      (emitAll true d.parser .line 0
        ((cut.push [36, 65, 44, 42, 48, 48, 10, 32, 10, 104, 105, 10, 120]).1.frames.map
          Frame.data)).1.framesDropped := by
  obtain ⟨d, hnew, hline⟩ : ∃ d,
      new .refusing ⟨.line .lf, none, false, true⟩ (some ⟨.nmea, none, true⟩) = .ok d ∧
        d.mode.frameType = .line ∧ d.frameCount = 0 := ⟨_, rfl, rfl, rfl⟩
  obtain ⟨cut, hcut, h⟩ := parsed_after_framing hnew
  obtain ⟨-, hpush, -⟩ := h []
  refine ⟨d, cut, hnew, hcut, ?_⟩
  rw [← hline.1, show (0 : ℕ) = d.frameCount from hline.2.symm]
  exact congrArg PushOutcome.framesDropped (hpush _)

theorem pushAll_parsed {cut : FrameDecoder} (hnew : new crates config pc = .ok d)
    (hcut : new crates { config with skipEmpty := false } none = .ok cut) (cs : List Bytes) :
    (decoder.pushAll d cs).1 =
        (emitAll config.skipEmpty d.parser d.mode.frameType 0 (cut.received cs)).1 ∧
      (decoder.pushAll d cs).2.1 = cut.faults cs ∧
      (decoder.pushAll d cs).2.2.buf = (decoder.pushAll cut cs).2.2.buf := by
  obtain ⟨cut', hcut', hcuts, heq⟩ := new_parsed hnew
  obtain rfl : cut = cut' := Except.ok.inj (hcut.symm.trans hcut')
  have hpush := ((parsing config.skipEmpty d.mode.frameType (new_noFatal hnew)).pushAll cs 0
    hcuts).1
  rw [show (parsing config.skipEmpty d.mode.frameType (new_noFatal hnew)).state 0 cut = d from
    heq.symm] at hpush
  rw [show decoder.pushAll d cs = _ from hpush]
  exact ⟨rfl, rfl, rfl⟩

end

end FrameDecoder

/-! ## Streams without errors -/

open FrameDecoder

section
variable {d : FrameDecoder} {ft : FrameType} {mode : DecoderMode} {message : Bytes → Bytes}
  {t : Bytes} {ps cs : List Bytes}

theorem FrameDecoder.Cuts.faults_eq (h : Cuts ft d) (hft : ft ≠ .slip ∧ ft ≠ .cobs)
    (cs : List Bytes) : d.faults cs = [] := by
  have hparser : ∀ p ∈ (none : Option FrameParser), ∃ validate, ChecksumErrors validate p := by
    intro p hp
    cases hp
  induction cs generalizing d with
  | nil => rfl
  | cons c cs ih =>
    have hok : (decoder.settle (d.feed c)).2.1 = none := by
      refine settle_noFatal (Q := Cuts ft) (fun {d} hd => ⟨?_, ?_, hd.next⟩) (h.feed c)
      · rw [← hd.frameType] at hft
        exact hft
      · rw [NoFatal, hd.configured.parser]
        exact hparser
    have hrest := ih ((parsing false ft hparser).settle 0 (h.feed c)).2
    rw [FrameDecoder.faults, Decoder.pushAll]
    show (decoder.settle (d.feed c)).2.1.toList ++ _ = []
    rw [hok]
    exact hrest

/-- Payloads that end at their terminators are cut out as they were sent. -/
theorem Terminates.received (h : Terminates mode message t) (hsingle : mode.SingleBoundary)
    (hps : ∀ p ∈ ps, Unambiguous t p) (hcs : cs.flatten = ps.flatMap message) :
    (plain mode false false [] 0).received cs = ps ∧
      (plain mode false false [] 0).faults cs = [] := by
  have hrest : (plain mode false false [] 0).next = (none, plain mode false false [] 0) := by
    rw [next_of_extracts (h.extracts [] 0)]
    simp only [nextFrame, plain, h.nil]
  obtain ⟨hreceived, hfaults, -⟩ :=
    Decodes.received (d := plain mode false false [] 0) hsingle hrest (h.decodes hps) hcs
  exact ⟨hreceived, hfaults⟩

end

end SerialMcp
