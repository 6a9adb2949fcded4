/-
  What becomes of the frames that a decoder extracts.

  Every mode hands its frames to `emit_frame`, from a loop of its own: a frame is
  skipped as blank, dropped for its checksum, emitted with the next number, or ends
  the push.  `flush_partial` numbers a frame of its own.

  * `frameBytes`: what one turn of a loop hands to `emit_frame` (`next_emits`), and
    `extracted`, what a push hands to it;
  * `drops`, beside `shows`: the frames that are dropped and those that are emitted, as
    one sees from the frame, before it is handed over;
  * `Numbered`: consecutive numbers; `Accounts`: so many drops, and these frames;
  * `emitted_numbered`: frames are numbered from 0 on, over any calls, and every push
    accounts for what it extracts.
-/
import SerialMcp.Framing.Streams

namespace SerialMcp

open Incremental

namespace FrameDecoder

/-! ## Extracted frames -/

/-- The frame that a byte ends in SLIP. -/
def slipBytes (b : UInt8) : SlipState → Option Bytes
  | .inFrame buf false => if b = slipEnd then some buf else none
  | _ => none

/-- The frame that a byte ends in COBS, between two code blocks. -/
def cobsBytes (b : UInt8) : CobsState → Option Bytes
  | .inFrame decoded 0 _ => if b = 0 then some (dropPhantom decoded) else none
  | _ => none

/-- The frame that one turn of the decoding loop hands to `emit_frame`. -/
def frameBytes (d : FrameDecoder) : Option Bytes :=
  match d.mode with
  | .slip st => d.buf.head?.bind fun b => slipBytes b st
  | .cobs st => d.buf.head?.bind fun b => cobsBytes b (cobsFlush st)
  | _ => (extract d.includeTerminators d.mode d.buf).1

/-- The frames that are handed over in at most `n` turns. -/
def extractedIn : ℕ → FrameDecoder → List Bytes
  | 0, _ => []
  | n + 1, d => d.frameBytes.toList ++
    match d.next with
    | (some (_, none), d₁) => extractedIn n d₁
    | _ => []

/-- The frames that a push extracts, in as many turns as it takes at most. -/
def extracted (d : FrameDecoder) (chunk : Bytes) : List Bytes :=
  extractedIn ((d.feed chunk).buf.length + 1) (d.feed chunk)

/-- A frame that is not skipped as blank, and whose parser reports a checksum mismatch. -/
def drops (skip : Bool) (parser : Option FrameParser) (data : Bytes) : Bool :=
  !(skip && isBlankFrame data) && parser.elim false fun p =>
    match p data with
    | .error (.checksumMismatch ..) => true
    | _ => false

/-! ## One turn -/

/-- What `emit_frame` makes of a frame, if there is one. -/
def emitBytes (skip : Bool) (parser : Option FrameParser) (n : ℕ) (ft : FrameType)
    (frame : Option Bytes) : Emitted × ℕ :=
  match frame with
  | none => (1, n)
  | some data => ((emitFrame skip parser n ft data).1.1, (emitFrame skip parser n ft data).2)

section
variable (skip : Bool) (parser : Option FrameParser) (n : ℕ)

theorem slipByte_emits (b : UInt8) (st : SlipState) :
    ((slipByte skip parser n b st).1.1, (slipByte skip parser n b st).2.2) =
      emitBytes skip parser n .slip (slipBytes b st) := by
  rcases st with _ | ⟨buf, _ | _⟩
  · rfl
  · simp only [slipByte, slipBytes]
    by_cases hend : b = slipEnd
    · rw [if_pos hend, if_pos hend]
      rfl
    · rw [if_neg hend, if_neg hend]
      split_ifs <;> rfl
  · simp only [slipByte]
    split_ifs <;> rfl

theorem cobsByte_emits (b : UInt8) (st : CobsState) :
    ((cobsByte skip parser n b st).1.1, (cobsByte skip parser n b st).2.2) =
      emitBytes skip parser n .cobs (cobsBytes b st) := by
  rcases st with _ | ⟨decoded, _ | remaining, pendingZero⟩
  · rfl
  · simp only [cobsByte, cobsBytes]
    by_cases hzero : b = 0
    · rw [if_pos hzero, if_pos hzero]
      rfl
    · rw [if_neg hzero, if_neg hzero]
      split_ifs <;> rfl
  · rfl

end

/-- **One turn emits what it hands over**, in every mode. -/
theorem next_emits (d : FrameDecoder) :
    (d.next.1.elim 1 Prod.fst, d.next.2.frameCount) =
      emitBytes d.skipEmpty d.parser d.frameCount d.mode.frameType d.frameBytes := by
  have hframe : (d.nextFrame.1.elim 1 Prod.fst, d.nextFrame.2.frameCount) =
      emitBytes d.skipEmpty d.parser d.frameCount d.mode.frameType
        (extract d.includeTerminators d.mode d.buf).1 := by
    unfold nextFrame
    rcases extract d.includeTerminators d.mode d.buf with ⟨_ | data, mode, buf⟩ <;> rfl
  rcases d with ⟨buf, mode, count, incl, skip, parser⟩
  cases mode with
  | slip st =>
    rcases buf with _ | ⟨b, rest⟩
    · rfl
    · exact slipByte_emits ..
  | cobs st =>
    rcases buf with _ | ⟨b, rest⟩
    · rfl
    · exact cobsByte_emits ..
  | _ => exact hframe

/-! ## Frame numbers -/

/-- Frames numbered from `n` on, up to a new count. -/
def Numbered (n : ℕ) (o : Emitted) (m : ℕ) : Prop :=
  o.frames.map Frame.index = List.range' n o.frames.length ∧ m = n + o.frames.length

section
variable {n m k : ℕ} {o o' : Emitted}

theorem Numbered.one (n : ℕ) : Numbered n 1 n := ⟨rfl, rfl⟩

theorem Numbered.mul (h : Numbered n o m) (h' : Numbered m o' k) : Numbered n (o * o') k := by
  obtain ⟨ho, rfl⟩ := h
  obtain ⟨ho', rfl⟩ := h'
  constructor
  · rw [Emitted.mul_frames, List.map_append, List.length_append, ho, ho', List.range'_append_1]
  · rw [Emitted.mul_frames, List.length_append, Nat.add_assoc]

theorem emitFrame_numbered (skip : Bool) (parser : Option FrameParser) (n : ℕ) (ft : FrameType)
    (data : Bytes) : Numbered n (emitFrame skip parser n ft data).1.1
      (emitFrame skip parser n ft data).2 := by
  unfold emitFrame
  split
  · exact .one n
  · split <;> exact ⟨rfl, rfl⟩

theorem emitBytes_numbered (skip : Bool) (parser : Option FrameParser) (n : ℕ) (ft : FrameType)
    (frame : Option Bytes) : Numbered n (emitBytes skip parser n ft frame).1
      (emitBytes skip parser n ft frame).2 := by
  cases frame with
  | none => exact .one n
  | some data => exact emitFrame_numbered ..

theorem next_numbered (d : FrameDecoder) :
    Numbered d.frameCount (d.next.1.elim 1 Prod.fst) d.next.2.frameCount := by
  obtain ⟨ho, hn⟩ := Prod.ext_iff.1 d.next_emits
  have hnumbered := emitBytes_numbered d.skipEmpty d.parser d.frameCount d.mode.frameType
    d.frameBytes
  rwa [← ho, ← hn] at hnumbered

theorem settle_numbered (n : ℕ) (d : FrameDecoder) :
    Numbered d.frameCount (extractor.settle n d).1 (extractor.settle n d).2.2.frameCount := by
  induction n generalizing d with
  | zero => exact .one _
  | succ n ih =>
    have hnext := d.next_numbered
    rw [Extractor.settle]
    rcases h : extractor.next d with ⟨_ | ⟨o, _ | x⟩, d₁⟩
    all_goals
      rw [show d.next = _ from h] at hnext
    · exact hnext
    · exact hnext.mul (ih d₁)
    · exact hnext

/-- **Frames are numbered consecutively**, whatever is pushed. -/
theorem pushAll_numbered (d : FrameDecoder) (cs : List Bytes) :
    Numbered d.frameCount (decoder.pushAll d cs).1 (decoder.pushAll d cs).2.2.frameCount := by
  induction cs generalizing d with
  | nil => exact .one _
  | cons c cs ih =>
    have hsettle := settle_numbered (extractor.pending (d.feed c) + 1) (d.feed c)
    exact hsettle.mul (ih _)

end

/-! ## Drops and emitted frames -/

/-- The drops of the frames `xs` are counted, and those that show are emitted. -/
structure Accounts (skip : Bool) (parser : Option FrameParser) (o : Emitted) (xs : List Bytes) :
    Prop where
  dropped : o.framesDropped = xs.countP (drops skip parser)
  shown : o.frames.map Frame.data = xs.filter (shows skip parser)

section
variable {d : FrameDecoder} {skip : Bool} {parser : Option FrameParser} {o o' : Emitted}
  {xs ys : List Bytes}

theorem Accounts.nil : Accounts skip parser 1 [] := ⟨rfl, rfl⟩

theorem Accounts.mul (h : Accounts skip parser o xs) (h' : Accounts skip parser o' ys) :
    Accounts skip parser (o * o') (xs ++ ys) := by
  constructor
  · rw [Emitted.mul_framesDropped, List.countP_append, h.dropped, h'.dropped]
  · rw [Emitted.mul_frames, List.map_append, List.filter_append, h.shown, h'.shown]

/-- **`emit_frame`**, once for each of its outcomes. -/
theorem emitFrame_accounts (skip : Bool) (parser : Option FrameParser) (n : ℕ) (ft : FrameType)
    (data : Bytes) : Accounts skip parser (emitFrame skip parser n ft data).1.1 [data] := by
  unfold emitFrame
  by_cases hblank : (skip && isBlankFrame data) = true
  · rw [if_pos hblank]
    constructor
    · simp [drops, hblank]
    · simp [shows, hblank]
  rw [if_neg hblank]
  have hblank' : (skip && isBlankFrame data) = false := by simpa using hblank
  rcases parser with _ | p
  · constructor
    · simp [drops]
    · simp [shows, hblank']
  rcases hp : p data with x | pf
  · cases x with
    | checksumMismatch expected received =>
      constructor
      · simp [drops, hblank', hp]
      · simp [shows, hp, Except.isOk, Except.toBool]
    | _ =>
      constructor
      · simp [drops, hp]
      · simp [shows, hp, Except.isOk, Except.toBool]
  · constructor
    · simp [drops, hp]
    · simp [shows, hblank', hp, Except.isOk, Except.toBool]

theorem emitBytes_accounts (skip : Bool) (parser : Option FrameParser) (n : ℕ) (ft : FrameType)
    (frame : Option Bytes) :
    Accounts skip parser (emitBytes skip parser n ft frame).1 frame.toList := by
  cases frame with
  | none => exact .nil
  | some data => exact emitFrame_accounts ..

theorem next_accounts (d : FrameDecoder) :
    Accounts d.skipEmpty d.parser (d.next.1.elim 1 Prod.fst) d.frameBytes.toList := by
  obtain ⟨ho, -⟩ := Prod.ext_iff.1 d.next_emits
  have haccounts := emitBytes_accounts d.skipEmpty d.parser d.frameCount d.mode.frameType
    d.frameBytes
  rwa [← ho] at haccounts

/-! ## A push -/

/-- The same handling of blank frames and the same parser. -/
structure Configured (skip : Bool) (parser : Option FrameParser) (d : FrameDecoder) : Prop where
  skipEmpty : d.skipEmpty = skip
  parser : d.parser = parser

theorem Configured.next (h : Configured skip parser d) : Configured skip parser d.next.2 := by
  obtain ⟨rfl, rfl⟩ := h
  have hframe : Configured d.skipEmpty d.parser d.nextFrame.2 := by
    unfold nextFrame
    rcases extract d.includeTerminators d.mode d.buf with ⟨_ | data, mode, buf⟩
    all_goals exact ⟨rfl, rfl⟩
  rcases d with ⟨buf, mode, count, incl, skip, parser⟩
  cases mode with
  | slip st => rcases buf with _ | ⟨b, rest⟩ <;> exact ⟨rfl, rfl⟩
  | cobs st => rcases buf with _ | ⟨b, rest⟩ <;> exact ⟨rfl, rfl⟩
  | _ => exact hframe

/-- The turns of a push account for the frames that they hand over, up to the one that
    stops it. -/
theorem settle_accounts (n : ℕ) (h : Configured skip parser d) :
    Accounts skip parser (extractor.settle n d).1 (extractedIn n d) ∧
      Configured skip parser (extractor.settle n d).2.2 := by
  induction n generalizing d with
  | zero => exact ⟨.nil, h⟩
  | succ n ih =>
    have hturn := d.next_accounts
    have hconfigured := h.next
    rw [h.skipEmpty, h.parser] at hturn
    rw [Extractor.settle, extractedIn]
    rcases hnext : d.next with ⟨_ | ⟨o, _ | x⟩, d₁⟩
    all_goals
      rw [hnext] at hturn hconfigured
      rw [show extractor.next d = _ from hnext]
    · rw [List.append_nil]
      exact ⟨hturn, hconfigured⟩
    · obtain ⟨hrest, hconfigured'⟩ := ih hconfigured
      exact ⟨hturn.mul hrest, hconfigured'⟩
    · rw [List.append_nil]
      exact ⟨hturn, hconfigured⟩

/-! ## Calls -/

/-- A call of `push` or of `flush_partial`. -/
inductive Call where
  | push (chunk : Bytes)
  | flushPartial

/-- The decoder after a call. -/
def Call.run (d : FrameDecoder) : Call → FrameDecoder
  | .push chunk => (d.push chunk).2
  | .flushPartial => d.flushPartial.2

/-- The frames that a call emits. -/
def Call.frames (d : FrameDecoder) : Call → List Frame
  | .push chunk => (d.push chunk).1.frames
  | .flushPartial => d.flushPartial.1.toList

/-- The frames that calls emit, partial ones included. -/
def emitted : FrameDecoder → List Call → List Frame
  | _, [] => []
  | d, call :: calls => call.frames d ++ emitted (call.run d) calls

/-- `flush_partial` does nothing, or it emits a frame with the next number. -/
theorem flushPartial_cases (h : Configured skip parser d) : d.flushPartial = (none, d) ∨
    ∃ data ft d', d.flushPartial = (some ⟨data, d.frameCount, ft, none⟩, d') ∧
      d'.frameCount = d.frameCount + 1 ∧ Configured skip parser d' := by
  obtain ⟨rfl, rfl⟩ := h
  unfold flushPartial
  split
  all_goals
    dsimp only
    split_ifs
    · exact .inl rfl
    · exact .inr ⟨_, _, _, rfl, rfl, rfl, rfl⟩

theorem flushPartial_numbered (h : Configured skip parser d) :
    Numbered d.frameCount ⟨d.flushPartial.1.toList, 0⟩ d.flushPartial.2.frameCount ∧
      Configured skip parser d.flushPartial.2 := by
  obtain hnone | ⟨data, ft, d', hsome, hcount, h'⟩ := flushPartial_cases h
  · rw [hnone]
    exact ⟨.one _, h⟩
  · rw [hsome]
    exact ⟨⟨rfl, hcount⟩, h'⟩

/-- A call numbers its frames from where the decoder is on, and keeps the configuration. -/
theorem call_numbered (h : Configured skip parser d) (call : Call) :
    Numbered d.frameCount ⟨call.frames d, 0⟩ (call.run d).frameCount ∧
      Configured skip parser (call.run d) := by
  cases call with
  | push chunk =>
    have hfed : Configured skip parser (d.feed chunk) := ⟨h.skipEmpty, h.parser⟩
    exact ⟨settle_numbered _ (d.feed chunk), (settle_accounts _ hfed).2⟩
  | flushPartial => exact flushPartial_numbered h

theorem calls_numbered (h : Configured skip parser d) (calls : List Call) :
    Numbered d.frameCount ⟨d.emitted calls, 0⟩ (calls.foldl Call.run d).frameCount ∧
      Configured skip parser (calls.foldl Call.run d) := by
  induction calls generalizing d with
  | nil => exact ⟨.one _, h⟩
  | cons call calls ih =>
    obtain ⟨hcall, hconfigured⟩ := call_numbered h call
    obtain ⟨hcalls, hconfigured'⟩ := ih hconfigured
    exact ⟨hcall.mul hcalls, hconfigured'⟩

end

/-- **Numbers without gaps, and every drop counted**: the frames that any calls emit are
    numbered 0, 1, 2, …; and a push after them counts the checksum mismatches among the
    frames that it extracts, emits those that show, and numbers only these. -/
theorem emitted_numbered {crates : Crates} {config : RxFramingConfig} {pc : Option ParserConfig}
    {d : FrameDecoder} (hnew : new crates config pc = .ok d) (calls : List Call) :
    (d.emitted calls).map Frame.index = List.range (d.emitted calls).length ∧
    ∀ chunk : Bytes,
      let d' := calls.foldl Call.run d
      let outcome := (d'.push chunk).1
      outcome.framesDropped = (d'.extracted chunk).countP (drops config.skipEmpty d.parser) ∧
      outcome.frames.map Frame.data =
        (d'.extracted chunk).filter (shows config.skipEmpty d.parser) ∧
      outcome.frames.map Frame.index =
        List.range' (d.emitted calls).length outcome.frames.length := by
  have hfresh := new_fresh hnew
  obtain ⟨⟨hindexes, hcount⟩, hconfigured⟩ := calls_numbered ⟨hfresh.skipEmpty, rfl⟩ calls
  rw [hfresh.frameCount] at hindexes hcount
  constructor
  · rw [List.range_eq_range']
    exact hindexes
  intro chunk d' outcome
  have hfed : Configured config.skipEmpty d.parser (d'.feed chunk) :=
    ⟨hconfigured.skipEmpty, hconfigured.parser⟩
  have hturns := (settle_accounts ((d'.feed chunk).buf.length + 1) hfed).1
  have hnumbers := (settle_numbered ((d'.feed chunk).buf.length + 1) (d'.feed chunk)).1
  refine ⟨hturns.dropped, hturns.shown, ?_⟩
  have hfrom : (d'.feed chunk).frameCount = (d.emitted calls).length := by
    rw [Nat.zero_add] at hcount
    exact hcount
  rw [← hfrom]
  exact hnumbers

/-- `$A,*00` is dropped, a blank line is skipped, `hi` and the partial `x` are the frames 0
    and 1, and then `$A,*00` is dropped again. -/
theorem emitted_numbered_nmea : ∃ d,
    new .refusing ⟨.line .lf, none, false, true⟩ (some ⟨.nmea, none, true⟩) = .ok d ∧
    (d.emitted [.push [36, 65, 44, 42, 48, 48, 10, 32, 10, 104, 105, 10, 120],
      .flushPartial]).map Frame.index = List.range 2 ∧
    (([.push [36, 65, 44, 42, 48, 48, 10, 32, 10, 104, 105, 10, 120],
      .flushPartial].foldl Call.run d).push [36, 65, 44, 42, 48, 48, 10]).1.framesDropped = 1 := by
  obtain ⟨d, hnew, hlength, hcount⟩ : ∃ d,
      new .refusing ⟨.line .lf, none, false, true⟩ (some ⟨.nmea, none, true⟩) = .ok d ∧
      (d.emitted [.push [36, 65, 44, 42, 48, 48, 10, 32, 10, 104, 105, 10, 120],
        .flushPartial]).length = 2 ∧
      (([.push [36, 65, 44, 42, 48, 48, 10, 32, 10, 104, 105, 10, 120],
        .flushPartial].foldl Call.run d).extracted [36, 65, 44, 42, 48, 48, 10]).countP
          (drops true d.parser) = 1 := ⟨_, rfl, by decide +kernel, by decide +kernel⟩
  obtain ⟨hindexes, hpush⟩ := emitted_numbered hnew
    [.push [36, 65, 44, 42, 48, 48, 10, 32, 10, 104, 105, 10, 120], .flushPartial]
  rw [hlength] at hindexes
  exact ⟨d, hnew, hindexes, (hpush [36, 65, 44, 42, 48, 48, 10]).1.trans hcount⟩

end FrameDecoder

end SerialMcp
