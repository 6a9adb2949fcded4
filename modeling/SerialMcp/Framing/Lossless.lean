/-
  Framing with terminators kept loses no bytes.

  The line, delimiter and length-prefixed extractions cut the front of the
  buffer off.  With `include_terminators` all that is cut off becomes the frame.

  * `extract_lossless`: one extraction, for every state of these modes, the
    state changes of `auto` among them;
  * `frames_append_buf`: over any chunks, the frames put together and the
    pending buffer are the bytes pushed.
-/
import SerialMcp.Framing.Chunks
import SerialMcp.Framing.Restart

namespace SerialMcp

open Incremental

variable {inc : Bool} {buf delim rest frame : Bytes}

/-! ## One extraction -/

theorem takeFrame_lossless (buf : Bytes) (pos len : ℕ) :
    (takeFrame true buf pos len).1 ++ (takeFrame true buf pos len).2 = buf := by
  rw [takeFrame, if_pos rfl]
  exact List.take_append_drop ..

theorem extractDelimited_lossless (delim buf : Bytes) :
    (extractDelimited true delim buf).1.getD [] ++ (extractDelimited true delim buf).2 = buf := by
  rw [extractDelimited]
  cases findSubsequence buf delim with
  | none => rfl
  | some pos => exact takeFrame_lossless buf pos delim.length

theorem matchAutoLf_lossless (buf : Bytes) :
    (matchAutoLf true buf).1.getD [] ++ (matchAutoLf true buf).2.2 = buf := by
  rw [matchAutoLf]
  cases position buf 10 with
  | some lfPos =>
    simp only [Bool.not_true, Bool.false_and]
    exact takeFrame_lossless buf lfPos 1
  | none =>
    cases position buf 13 with
    | none => rfl
    | some crPos =>
      dsimp only
      split
      · exact takeFrame_lossless buf crPos 2
      · split
        · exact takeFrame_lossless buf crPos 1
        · rfl

theorem matchPendingCr_lossless (crPos : ℕ) (buf : Bytes) :
    (matchPendingCr true crPos buf).1.getD [] ++ (matchPendingCr true crPos buf).2.2 = buf := by
  rw [matchPendingCr]
  cases buf[crPos + 1]? with
  | none => rfl
  | some nextByte =>
    dsimp only
    split
    · exact takeFrame_lossless buf crPos 2
    · exact takeFrame_lossless buf crPos 1

theorem extractLine_lossless (state : LineState) (buf : Bytes) :
    (extractLine true state buf).1.getD [] ++ (extractLine true state buf).2.2 = buf := by
  cases state with
  | lf =>
    simp only [extractLine, matchLineByte_eq]
    exact extractDelimited_lossless [10] buf
  | cr =>
    simp only [extractLine, matchLineByte_eq]
    exact extractDelimited_lossless [13] buf
  | crlf => exact extractDelimited_lossless [13, 10] buf
  | autoLf => exact matchAutoLf_lossless buf
  | pendingCr crPos => exact matchPendingCr_lossless crPos buf
  | crMode =>
    simp only [extractLine, matchLineByte_eq]
    exact extractDelimited_lossless [13] buf

theorem takePrefixed_lossless (prefixSize : ℕ) (endianness : Endianness) (next : Option ℕ)
    (buf : Bytes) : (takePrefixed true prefixSize endianness next buf).1.getD [] ++
      (takePrefixed true prefixSize endianness next buf).2.2 = buf := by
  rw [takePrefixed]
  cases payloadLen prefixSize endianness next buf with
  | none => rfl
  | some len =>
    dsimp only
    split
    · rfl
    · exact List.take_append_drop ..

/-- The modes that can keep all bytes: no initial offset is left to skip. -/
def DecoderMode.Lossless : DecoderMode → Prop
  | .line _ | .delimiter _ => True
  | .lengthPrefixed _ _ remainingOffset _ => remainingOffset = 0
  | _ => False

/-- **An extraction takes from the buffer what it puts into the frame.** -/
theorem extract_lossless {mode : DecoderMode} (h : mode.Lossless) (buf : Bytes) :
    (extract true mode buf).2.1.Lossless ∧
      (extract true mode buf).1.getD [] ++ (extract true mode buf).2.2 = buf := by
  cases mode with
  | line state => exact ⟨trivial, extractLine_lossless state buf⟩
  | delimiter delim => exact ⟨trivial, extractDelimited_lossless delim.1 buf⟩
  | lengthPrefixed n e remainingOffset next =>
    cases h
    refine ⟨Nat.zero_sub _, ?_⟩
    exact takePrefixed_lossless n.1 e next buf
  | startEnd start fin markers inFrame => exact h.elim
  | slip st => exact h.elim
  | cobs st => exact h.elim

/-! ## Over any chunks -/

namespace FrameDecoder

/-- A decoder that keeps all bytes: nothing is stripped, skipped or parsed. -/
structure Lossless (d : FrameDecoder) : Prop where
  mode : d.mode.Lossless
  inc : d.includeTerminators = true
  skip : d.skipEmpty = false
  parser : d.parser = none

variable {d d₁ : FrameDecoder}

theorem Lossless.extracts (h : d.Lossless) : d.Extracts := by
  have hmode := h.mode
  rcases d.mode_cases with ⟨st, hst⟩ | ⟨st, hst⟩ | hx
  · rw [hst] at hmode
    exact hmode.elim
  · rw [hst] at hmode
    exact hmode.elim
  · exact hx

/-- The bytes of the frames, put together. -/
def bytesOf (frames : List Frame) : Bytes := frames.flatMap Frame.data

theorem Lossless.next {e : Option (Emitted × Option FrameDecodeError)} (h : d.Lossless)
    (hn : d.next = (e, d₁)) :
    d₁.Lossless ∧ (e.elim [] fun ox => bytesOf ox.1.frames) ++ d₁.buf = d.buf := by
  rw [next_of_extracts h.extracts] at hn
  obtain ⟨hmode, hbytes⟩ := extract_lossless h.mode d.buf
  cases hx : (extract true d.mode d.buf).1 with
  | none =>
    simp only [nextFrame, h.inc, hx] at hn
    cases hn
    rw [hx] at hbytes
    exact ⟨⟨hmode, rfl, h.skip, h.parser⟩, hbytes⟩
  | some frame =>
    simp only [nextFrame, h.inc, hx, emitFrame, h.skip, h.parser] at hn
    cases hn
    rw [hx] at hbytes
    refine ⟨⟨hmode, rfl, rfl, rfl⟩, ?_⟩
    simpa [bytesOf] using hbytes

theorem Lossless.settle (h : d.Lossless) : (decoder.settle d).2.2.Lossless ∧
    bytesOf (decoder.settle d).1.frames ++ (decoder.settle d).2.2.buf = d.buf := by
  refine extractor.settle_conserves (Q := Lossless) (v := buf)
    (w := fun o : Emitted => bytesOf o.frames) rfl ?_ ?_ h
  · intro a b
    exact List.flatMap_append
  · intro d e d₁ hd hn
    exact hd.next hn

theorem Lossless.pushAll (h : d.Lossless) (chunks : List Bytes) :
    bytesOf (decoder.pushAll d chunks).1.frames ++ (d.after chunks).buf =
      d.buf ++ chunks.flatten := by
  induction chunks generalizing d with
  | nil =>
    rw [List.flatten_nil, List.append_nil]
    rfl
  | cons chunk chunks ih =>
    have hfed : (d.feed chunk).Lossless := ⟨h.mode, h.inc, h.skip, h.parser⟩
    obtain ⟨hd', hbytes⟩ := hfed.settle
    have hsplit : bytesOf (decoder.pushAll d (chunk :: chunks)).1.frames =
        bytesOf (decoder.settle (d.feed chunk)).1.frames ++
          bytesOf (decoder.pushAll (decoder.settle (d.feed chunk)).2.2 chunks).1.frames :=
      List.flatMap_append
    calc bytesOf (decoder.pushAll d (chunk :: chunks)).1.frames ++ (d.after (chunk :: chunks)).buf
      _ = bytesOf (decoder.settle (d.feed chunk)).1.frames ++
          (bytesOf (decoder.pushAll (decoder.settle (d.feed chunk)).2.2 chunks).1.frames ++
            ((decoder.settle (d.feed chunk)).2.2.after chunks).buf) := by
        rw [hsplit, List.append_assoc]
        rfl
      _ = bytesOf (decoder.settle (d.feed chunk)).1.frames ++
          ((decoder.settle (d.feed chunk)).2.2.buf ++ chunks.flatten) := by rw [ih hd']
      _ = d.buf ++ (chunk :: chunks).flatten := by
        rw [← List.append_assoc, hbytes, List.flatten_cons, ← List.append_assoc]
        rfl

end FrameDecoder

/-! ## Configured decoders -/

/-- The modes of a configuration that can keep all bytes: line, delimiter, and
    length prefixes from the first byte on. -/
def RxFramingMode.Lossless : RxFramingMode → Prop
  | .line _ | .delimiter .. => True
  | .lengthPrefixed _ _ initialOffset => initialOffset = none
  | _ => False

theorem newMode_lossless {crates : Crates} {mode : RxFramingMode} {m : DecoderMode}
    (h : mode.Lossless) (hm : FrameDecoder.newMode crates mode = .ok m) : m.Lossless := by
  cases mode with
  | line ending =>
    cases ending <;> cases hm <;> trivial
  | delimiter text encoding =>
    simp only [FrameDecoder.newMode, bind, Except.bind] at hm
    split at hm
    · cases hm
    · cases hm
      trivial
  | lengthPrefixed n e initialOffset =>
    cases h
    simp only [FrameDecoder.newMode] at hm
    split at hm
    · cases hm
      rfl
    · cases hm
  | startEnd start fin encoding markers => exact h.elim
  | slip => exact h.elim
  | cobs => exact h.elim

/-- **Framing loses no bytes** when terminators are kept, nothing is skipped and
    nothing is parsed: after any chunks, the frames put together and the pending
    buffer are the bytes pushed. -/
theorem frames_append_buf {crates : Crates} {config : RxFramingConfig} {d : FrameDecoder}
    (hmode : config.mode.Lossless) (hinc : config.includeTerminators = true)
    (hskip : config.skipEmpty = false) (hd : FrameDecoder.new crates config none = .ok d)
    (chunks : List Bytes) :
    (FrameDecoder.decoder.pushAll d chunks).1.frames.flatMap Frame.data ++ (d.after chunks).buf =
      chunks.flatten := by
  have hfresh := FrameDecoder.new_fresh hd
  have hparser : d.parser = none := (Except.ok.inj hfresh.parser).symm
  have hlossless : d.Lossless :=
    ⟨newMode_lossless hmode hfresh.mode, hfresh.includeTerminators.trans hinc,
      hfresh.skipEmpty.trans hskip, hparser⟩
  have h := hlossless.pushAll chunks
  rwa [hfresh.buf, List.nil_append] at h

/-- A line with ending `auto`: a CR at the end of a chunk, then a byte that
    makes it a bare one, and a line still open. -/
theorem frames_append_buf_auto :
    ∃ d, FrameDecoder.new .refusing ⟨.line .auto, none, true, false⟩ none = .ok d ∧
      (d.after [[65, 13], [66, 13, 67]]).buf = [67] ∧
      (FrameDecoder.decoder.pushAll d [[65, 13], [66, 13, 67]]).1.frames.flatMap Frame.data ++
        (d.after [[65, 13], [66, 13, 67]]).buf = [65, 13, 66, 13, 67] := by
  obtain ⟨d, hd, hbuf⟩ : ∃ d,
      FrameDecoder.new .refusing ⟨.line .auto, none, true, false⟩ none = .ok d ∧
        (d.after [[65, 13], [66, 13, 67]]).buf = [67] := ⟨_, rfl, by decide⟩
  exact ⟨d, hd, hbuf, frames_append_buf (by trivial) rfl rfl hd _⟩

end SerialMcp
