/-
  What a decoder without a parser makes of a whole stream.

  * `Decodes d out errs mode buf`: settled on its buffer until no error is
    left, `d` has emitted the payloads `out` and raised `errs`, and rests in
    `mode` with `buf` unread.  The rules follow the decoding loop: one frame
    (`Decodes.frame`), or one byte of the SLIP and COBS automata
    (`Decodes.slip`, `Decodes.cobs`);
  * `Decodes.received`: in the modes with one kind of boundary this is what
    every chunking of the stream gives.
-/
import SerialMcp.Framing.Chunks

namespace SerialMcp

open Incremental

instance : IsLeftCancelMul Emitted where
  mul_left_cancel a b c h := by
    have hframes := congrArg Emitted.frames h
    have hdropped := congrArg Emitted.framesDropped h
    exact Emitted.ext (List.append_cancel_left hframes) (Nat.add_left_cancel hdropped)

namespace FrameDecoder

/-- A decoder without a parser. -/
def plain (mode : DecoderMode) (inc skip : Bool) (buf : Bytes) (count : ℕ) : FrameDecoder :=
  ⟨buf, mode, count, inc, skip, none⟩

theorem new_plain {crates : Crates} {config : RxFramingConfig} {mode : DecoderMode}
    (h : newMode crates config.mode = .ok mode) : new crates config none =
      .ok (plain mode config.includeTerminators config.skipEmpty [] 0) := by
  simp only [new, h]
  rfl

/-- The payloads of the frames that a list of chunks gives. -/
def received (d : FrameDecoder) (cs : List Bytes) : List Bytes :=
  (decoder.pushAll d cs).1.frames.map Frame.data

/-- The errors that a list of chunks gives. -/
def faults (d : FrameDecoder) (cs : List Bytes) : List FrameDecodeError :=
  (decoder.pushAll d cs).2.1

/-- What becomes of a frame: blank ones may be skipped. -/
def kept (skip : Bool) (data : Bytes) : List Bytes :=
  if skip && isBlankFrame data then [] else [data]

theorem flatMap_kept_true (ps : List Bytes) :
    ps.flatMap (kept true) = ps.filter fun q => !isBlankFrame q := by
  induction ps with
  | nil => rfl
  | cons q ps ih =>
    rw [List.flatMap_cons, ih]
    by_cases hq : isBlankFrame q = true
    · simp [kept, hq]
    · simp [kept, hq]

theorem flatMap_kept_false (ps : List Bytes) : ps.flatMap (kept false) = ps := by
  induction ps with
  | nil => rfl
  | cons p ps ih =>
    rw [List.flatMap_cons, ih]
    rfl

theorem emitFrame_plain (skip : Bool) (count : ℕ) (ft : FrameType) (data : Bytes) :
    ∃ o n, emitFrame skip none count ft data = ((o, none), n) ∧
      o.frames.map Frame.data = kept skip data := by
  by_cases h : (skip && isBlankFrame data) = true
  · refine ⟨1, count, ?_, ?_⟩
    · simp [emitFrame, h]
    · simp [kept, h]
  · refine ⟨⟨[⟨data, count, ft, none⟩], 0⟩, count + 1, ?_, ?_⟩
    · simp [emitFrame, h]
    · simp [kept, h]

/-- A frame that is neither skipped as blank nor dropped for its checksum. -/
def shows (skip : Bool) (parser : Option FrameParser) (data : Bytes) : Bool :=
  !(skip && isBlankFrame data) && parser.elim true fun p => (p data).isOk

/-- What becomes of a frame. -/
def shownFrame (skip : Bool) (parser : Option FrameParser) (data : Bytes) : List Bytes :=
  if shows skip parser data then [data] else []

theorem emitFrame_shows (skip : Bool) {parser : Option FrameParser}
    (hparser : ∀ p ∈ parser, ∃ validate, ChecksumErrors validate p) (count : ℕ) (ft : FrameType)
    (data : Bytes) :
    ∃ o n, emitFrame skip parser count ft data = ((o, none), n) ∧
      o.frames.map Frame.data = shownFrame skip parser data := by
  by_cases hblank : (skip && isBlankFrame data) = true
  · exact ⟨1, count, by simp [emitFrame, hblank], by simp [shownFrame, shows, hblank]⟩
  have hblank' : (skip && isBlankFrame data) = false := by simpa using hblank
  rcases parser with _ | p
  · exact ⟨⟨[⟨data, count, ft, none⟩], 0⟩, count + 1, by simp [emitFrame, hblank'],
      by simp [shownFrame, shows, hblank']⟩
  obtain ⟨validate, hv⟩ := hparser p rfl
  rcases hp : p data with x | pf
  · obtain ⟨expected, received, rfl⟩ : ∃ expected received,
        x = .checksumMismatch expected received := (hv data x hp).2
    exact ⟨⟨[], 1⟩, count, by simp [emitFrame, hblank', hp],
      by simp [shownFrame, shows, hp, Except.isOk, Except.toBool]⟩
  · exact ⟨⟨[⟨data, count, ft, some pf⟩], 0⟩, count + 1, by simp [emitFrame, hblank', hp],
      by simp [shownFrame, shows, hblank', hp, Except.isOk, Except.toBool]⟩

theorem eq_of_mem_shownFrame {skip : Bool} {parser : Option FrameParser} {data x : Bytes}
    (h : x ∈ shownFrame skip parser data) :
    x = data ∧ shows skip parser data = true := by
  rw [shownFrame] at h
  split_ifs at h with hshows
  · exact ⟨List.mem_singleton.1 h, hshows⟩
  · cases h

/-! ## The decoding of a buffer -/

/-- The frames of a decoder that settles. -/
def settled (d : FrameDecoder) : List Bytes := (decoder.settle d).1.frames.map Frame.data

theorem settled_nil {d : FrameDecoder} (hx : d.Extracts)
    (h : (extract d.includeTerminators d.mode d.buf).1 = none) : d.settled = [] := by
  have hnext : d.next.1 = none := by rw [next_of_extracts hx, nextFrame, h]
  rw [settled, settle_wait (Prod.ext hnext rfl)]
  rfl

/-- What a decoder emits and where it comes to rest. -/
structure Decodes (d : FrameDecoder) (out : List Bytes) (errs : List FrameDecodeError)
    (mode : DecoderMode) (buf : Bytes) : Prop where
  frames : (decoder.complete d).1.frames.map Frame.data = out
  errors : (decoder.complete d).2.1 = errs
  mode : (decoder.complete d).2.2.mode = mode
  buf : (decoder.complete d).2.2.buf = buf

section
variable {d d₁ : FrameDecoder} {out : List Bytes} {errs : List FrameDecodeError}
  {mode mode₁ mode' : DecoderMode} {buf buf' rest data s : Bytes} {inc skip : Bool} {count : ℕ}

theorem plain_extracts (h : mode.frameType ≠ .slip ∧ mode.frameType ≠ .cobs) :
    (plain mode inc skip buf count).Extracts := h

theorem Decodes.wait (h : d.next = (none, d₁)) : Decodes d [] [] d₁.mode d₁.buf := by
  have hc : decoder.complete d = (1, [], d₁) := Extractor.complete_wait h
  constructor
  all_goals rw [hc]
  rfl

theorem Decodes.event {o : Emitted} {x : Option FrameDecodeError}
    (h : d.next = (some (o, x), d₁)) (hd : Decodes d₁ out errs mode buf) :
    Decodes d (o.frames.map Frame.data ++ out) (x.toList ++ errs) mode buf := by
  have hc : decoder.complete d = _ := singleBoundary_extractor.complete_event h
  constructor
  · rw [hc, ← hd.frames]
    exact List.map_append
  · rw [hc, ← hd.errors]
    rfl
  · rw [hc]
    exact hd.mode
  · rw [hc]
    exact hd.buf

/-- One frame of the modes that extract frames from the buffer. -/
theorem Decodes.frame (hx : (plain mode inc skip buf count).Extracts)
    (h : extract inc mode buf = (some data, mode₁, rest))
    (hd : ∀ n, Decodes (plain mode₁ inc skip rest n) out errs mode' buf') :
    Decodes (plain mode inc skip buf count) (kept skip data ++ out) errs mode' buf' := by
  obtain ⟨o, n, he, hframes⟩ := emitFrame_plain skip count mode.frameType data
  have hn : (plain mode inc skip buf count).next =
      (some (o, none), plain mode₁ inc skip rest n) := by
    rw [next_of_extracts hx]
    simp only [nextFrame, plain, h, he]
  rw [← hframes]
  exact Decodes.event hn (hd n)

theorem Decodes.stop (hx : (plain mode inc skip buf count).Extracts)
    (h : extract inc mode buf = (none, mode₁, rest)) :
    Decodes (plain mode inc skip buf count) [] [] mode₁ rest := by
  have hn : (plain mode inc skip buf count).next = (none, plain mode₁ inc skip rest count) := by
    rw [next_of_extracts hx]
    simp only [nextFrame, plain, h]
  exact Decodes.wait hn

/-- Two buffers from which the same frame is extracted decode alike. -/
theorem Decodes.of_extract (hx : (plain mode inc skip buf count).Extracts)
    (ht : mode.frameType = mode₁.frameType) (h : extract inc mode buf = extract inc mode₁ rest)
    (hd : Decodes (plain mode₁ inc skip rest count) out errs mode' buf') :
    Decodes (plain mode inc skip buf count) out errs mode' buf' := by
  have hx₁ : (plain mode₁ inc skip rest count).Extracts := by
    simpa only [Extracts, plain, ht] using hx
  have hn : (plain mode inc skip buf count).next = (plain mode₁ inc skip rest count).next := by
    rw [next_of_extracts hx, next_of_extracts hx₁]
    simp only [nextFrame, plain, h, ht]
  have hc : decoder.complete (plain mode inc skip buf count) = _ :=
    singleBoundary_extractor.complete_of_next hn
  constructor
  all_goals rw [hc]
  · exact hd.frames
  · exact hd.errors
  · exact hd.mode
  · exact hd.buf

/-- A stream of messages, each of which gives one frame. -/
theorem Decodes.messages {message shown : Bytes → Bytes} {ps : List Bytes}
    (hx : ∀ buf count, (plain mode inc false buf count).Extracts)
    (hnil : extract inc mode [] = (none, mode, []))
    (h : ∀ p ∈ ps, ∀ rest, extract inc mode (message p ++ rest) = (some (shown p), mode, rest))
    (count : ℕ) :
    Decodes (plain mode inc false (ps.flatMap message) count) (ps.map shown) [] mode [] := by
  induction ps generalizing count with
  | nil => exact Decodes.stop (hx _ _) hnil
  | cons p ps ih =>
    refine Decodes.frame (hx _ _) (h p (by simp) (ps.flatMap message)) fun n => ?_
    exact ih (fun q hq => h q (by simp [hq])) n

theorem settle_plain (hx : (plain mode inc skip buf count).Extracts) :
    ∃ o d₁, decoder.settle (plain mode inc skip buf count) = (o, none, d₁) := by
  have hok : (decoder.settle (plain mode inc skip buf count)).2.1 = none := by
    refine Extractor.settle_ok (Q := fun d => d.Extracts ∧ d.parser = none) ?_ ⟨hx, rfl⟩
    rintro d ⟨o, x⟩ d₁ ⟨hd, hp⟩ hn
    have hn' : d.nextFrame = (some (o, x), d₁) := by
      rw [← next_of_extracts hd]
      exact hn
    rcases hf : extract d.includeTerminators d.mode d.buf with ⟨_ | data, mode₁, rest⟩
    · simp [nextFrame, hf] at hn'
    · obtain ⟨o', n, he, -⟩ := emitFrame_plain d.skipEmpty d.frameCount d.mode.frameType data
      have hft : mode₁.frameType = d.mode.frameType := by
        rw [← extract_frameType d.includeTerminators d.mode d.buf, hf]
      simp only [nextFrame, hf, hp, he] at hn'
      cases hn'
      refine ⟨rfl, ?_, rfl⟩
      simpa only [Extracts, hft] using hd
  rcases hs : decoder.settle (plain mode inc skip buf count) with ⟨o, x, d₁⟩
  rw [hs] at hok
  obtain rfl : x = none := hok
  exact ⟨o, d₁, rfl⟩

theorem complete_errors (hx : (plain mode inc skip buf count).Extracts) :
    (decoder.complete (plain mode inc skip buf count)).2.1 = [] := by
  obtain ⟨o, d₁, hs⟩ := settle_plain hx
  rw [Decoder.complete_clean hs]

/-- A stream in one chunk. -/
theorem Decodes.received_one (hx : (plain mode inc skip s count).Extracts)
    (h : Decodes (plain mode inc skip s count) out errs mode' buf') :
    (plain mode inc skip [] count).received [s] = out ∧
      (decoder.pushAll (plain mode inc skip [] count) [s]).2.2.buf = buf' := by
  obtain ⟨o, d₁, hs⟩ := settle_plain hx
  have hpush : decoder.pushAll (plain mode inc skip [] count) [s] = (o * 1, [] ++ [], d₁) := by
    rw [Decoder.pushAll, show decoder.feed (plain mode inc skip [] count) s =
      plain mode inc skip s count from rfl, hs]
    rfl
  rw [FrameDecoder.received, hpush, mul_one, ← h.frames, ← h.buf, Decoder.complete_clean hs]
  exact ⟨rfl, rfl⟩

theorem Decodes.first (hx : (plain mode inc false buf count).Extracts)
    (h : extract inc mode buf = (some data, mode₁, rest)) :
    ∃ out m b, Decodes (plain mode inc false buf count) (data :: out) [] m b := by
  have hn : (plain mode inc false buf count).next =
      (some (⟨[⟨data, count, mode.frameType, none⟩], 0⟩, none),
        plain mode₁ inc false rest (count + 1)) := by
    rw [next_of_extracts hx]
    simp only [nextFrame, plain, h]
    rfl
  have hself : Decodes (plain mode₁ inc false rest (count + 1)) _ _ _ _ := ⟨rfl, rfl, rfl, rfl⟩
  have hfirst := Decodes.event hn hself
  have herrs := hfirst.errors.symm.trans (complete_errors hx)
  rw [herrs] at hfirst
  exact ⟨_, _, _, hfirst⟩

theorem received_first (buf : Bytes) (hx : (plain mode inc false (buf ++ s) count).Extracts)
    (h : extract inc mode (buf ++ s) = (some data, mode₁, rest)) (cs : List Bytes) :
    ((plain mode inc false buf count).received (s :: cs)).head? = some data := by
  obtain ⟨o, d₁, hs⟩ := settle_plain hx
  obtain ⟨out, m, b, hdec⟩ := Decodes.first hx h
  have ho : o.frames.map Frame.data = data :: out := by
    rw [← hdec.frames, Decoder.complete_clean hs]
  rw [received, Decoder.pushAll, show decoder.feed (plain mode inc false buf count) s =
    plain mode inc false (buf ++ s) count from rfl, hs]
  simp [ho]

/-- A chunk that completes none. -/
theorem received_wait (buf : Bytes) (hx : (plain mode inc skip (buf ++ s) count).Extracts)
    (h : extract inc mode (buf ++ s) = (none, mode₁, rest)) (cs : List Bytes) :
    (plain mode inc skip buf count).received (s :: cs) =
      (plain mode₁ inc skip rest count).received cs := by
  have hs : decoder.settle (plain mode inc skip (buf ++ s) count) =
      (1, none, plain mode₁ inc skip rest count) := by
    refine settle_wait ?_
    rw [next_of_extracts hx]
    simp only [nextFrame, plain, h]
  rw [received, Decoder.pushAll, show decoder.feed (plain mode inc skip buf count) s =
    plain mode inc skip (buf ++ s) count from rfl, hs]
  simp [received]

/-- **Every chunking gives what the whole stream gives.** -/
theorem Decodes.total (hd : d.mode.SingleBoundary) (h : Decodes (d.feed s) out errs mode buf)
    {cs : List Bytes} (hcs : cs.flatten = s) :
    (decoder.total d cs).1.frames.map Frame.data = out ∧ (decoder.total d cs).2.1 = errs ∧
      (decoder.total d cs).2.2.mode = mode ∧ (decoder.total d cs).2.2.buf = buf := by
  have ht : decoder.total d cs = decoder.complete (d.feed s) := by
    rw [← hcs]
    exact singleBoundary_lawful.total_eq hd
  rw [ht]
  exact ⟨h.frames, h.errors, h.mode, h.buf⟩

theorem Decodes.received (hd : d.mode.SingleBoundary) (hrest : d.next = (none, d))
    (h : Decodes (d.feed s) out [] mode buf) {cs : List Bytes} (hcs : cs.flatten = s) :
    d.received cs = out ∧ d.faults cs = [] ∧ (decoder.pushAll d cs).2.2.buf = buf := by
  obtain ⟨hframes, herrors, -, hbuf⟩ := h.total hd hcs
  have hpush := singleBoundary_lawful.pushAll_eq_total hd (settle_wait hrest) herrors
  refine ⟨?_, ?_, ?_⟩
  · rw [FrameDecoder.received, hpush, hframes]
  · rw [FrameDecoder.faults, hpush, herrors]
  · rw [hpush, hbuf]

end

end FrameDecoder

end SerialMcp
