/-
  A frame is not longer than the bytes it was made of.

  * `held`: the bytes a decoder holds, in its buffer and in its mode.
  * `push_holds`: a chunk adds its length to what a decoder can hold, and to the
    length of the frames it can emit.
-/
import SerialMcp.Framing.Chunks

namespace SerialMcp

open Incremental

/-! ## What a decoder holds -/

/-- Decoded bytes of an unfinished SLIP frame. -/
def SlipState.held : SlipState → ℕ
  | .beforeFirstEnd => 0
  | .inFrame buf _ => buf.length

/-- Decoded bytes of an unfinished COBS frame; a pending zero counts as one. -/
def CobsState.held : CobsState → ℕ
  | .beforeFirstDelim => 0
  | .inFrame decoded _ pendingZero => decoded.length + pendingZero.toNat

def DecoderMode.held : DecoderMode → ℕ
  | .slip st => st.held
  | .cobs st => st.held
  | _ => 0

/-- The number of bytes that a frame can still be made of. -/
def FrameDecoder.held (d : FrameDecoder) : ℕ := d.buf.length + d.mode.held

/-! ## Extracted frames -/

/-- A frame and a rest that are parts of the buffer. -/
structure Fits (buf : Bytes) (frame : Option Bytes) (rest : Bytes) : Prop where
  frame : ∀ f ∈ frame, f.length ≤ buf.length
  rest : rest.length ≤ buf.length

section
variable {inc : Bool} {buf : Bytes}

theorem Fits.waits (buf : Bytes) : Fits buf none buf := ⟨by simp, Nat.le_refl _⟩

theorem fits_take_drop (m n : ℕ) : Fits buf (some (buf.take m)) (buf.drop n) := by
  refine ⟨?_, by rw [List.length_drop]; omega⟩
  rintro f ⟨⟩
  rw [List.length_take]
  exact Nat.min_le_right ..

theorem Fits.of_le {buf' : Bytes} {frame : Option Bytes} {rest : Bytes} (h : Fits buf' frame rest)
    (hle : buf'.length ≤ buf.length) : Fits buf frame rest :=
  ⟨fun f hf => (h.frame f hf).trans hle, h.rest.trans hle⟩

theorem extractDelimited_fits (inc : Bool) (delim buf : Bytes) :
    Fits buf (extractDelimited inc delim buf).1 (extractDelimited inc delim buf).2 := by
  rw [extractDelimited]
  split
  · exact .waits buf
  · exact fits_take_drop ..

theorem matchLineByte_fits (inc : Bool) (b : UInt8) (buf : Bytes) :
    Fits buf (matchLineByte inc b buf).1 (matchLineByte inc b buf).2 := by
  rw [matchLineByte]
  split
  · exact .waits buf
  · exact fits_take_drop ..

theorem matchAutoLf_fits (inc : Bool) (buf : Bytes) :
    Fits buf (matchAutoLf inc buf).1 (matchAutoLf inc buf).2.2 := by
  rw [matchAutoLf]
  split
  · dsimp only
    split
    · exact fits_take_drop ..
    · exact fits_take_drop ..
  · split
    · split
      · exact fits_take_drop ..
      · split
        · exact fits_take_drop ..
        · exact .waits buf
    · exact .waits buf

theorem matchPendingCr_fits (inc : Bool) (crPos : ℕ) (buf : Bytes) :
    Fits buf (matchPendingCr inc crPos buf).1 (matchPendingCr inc crPos buf).2.2 := by
  rw [matchPendingCr]
  split
  · exact .waits buf
  · split
    · exact fits_take_drop ..
    · exact fits_take_drop ..

theorem extractLine_fits (inc : Bool) (state : LineState) (buf : Bytes) :
    Fits buf (extractLine inc state buf).1 (extractLine inc state buf).2.2 := by
  cases state with
  | lf => exact matchLineByte_fits inc 10 buf
  | cr => exact matchLineByte_fits inc 13 buf
  | crlf => exact extractDelimited_fits inc [13, 10] buf
  | autoLf => exact matchAutoLf_fits inc buf
  | pendingCr crPos => exact matchPendingCr_fits inc crPos buf
  | crMode => exact matchLineByte_fits inc 13 buf

theorem takePrefixed_fits (inc : Bool) (prefixSize : ℕ) (endianness : Endianness)
    (next : Option ℕ) (buf : Bytes) :
    Fits buf (takePrefixed inc prefixSize endianness next buf).1
      (takePrefixed inc prefixSize endianness next buf).2.2 := by
  rw [takePrefixed]
  split
  · exact .waits buf
  · next len hlen =>
    dsimp only
    split
    · exact .waits buf
    · refine ⟨?_, (fits_take_drop 0 _).rest⟩
      rintro f ⟨⟩
      split
      · exact (fits_take_drop (prefixSize + len) 0).frame _ rfl
      · rw [List.length_drop]
        have htake : (buf.take (prefixSize + len)).length ≤ buf.length :=
          (fits_take_drop (prefixSize + len) 0).frame _ rfl
        omega

theorem extractStartEnd_fits (start : List Marker) (fin : Marker) (markers inFrame : Bool)
    (buf : Bytes) :
    Fits buf (extractStartEnd start fin markers inFrame buf).1
      (extractStartEnd start fin markers inFrame buf).2.2 := by
  rw [extractStartEnd]
  split
  · exact ⟨by simp, (fits_take_drop 0 _).rest⟩
  · next body hbody =>
    have hle : body.length ≤ buf.length := by
      rw [enterFrame] at hbody
      split at hbody
      · cases hbody
        exact Nat.le_refl _
      · obtain ⟨⟨pos, len⟩, -, rfl⟩ := Option.map_eq_some_iff.1 hbody
        dsimp only
        split
        · exact (fits_take_drop 0 _).rest
        · rw [List.drop_drop]
          exact (fits_take_drop 0 _).rest
    refine Fits.of_le ?_ hle
    split
    · exact fits_take_drop ..
    · exact .waits body

/-- **Extraction** takes from the buffer, and leaves what the mode holds. -/
theorem extract_fits (inc : Bool) (mode : DecoderMode) (buf : Bytes) :
    Fits buf (extract inc mode buf).1 (extract inc mode buf).2.2 ∧
      (extract inc mode buf).2.1.held = mode.held := by
  cases mode with
  | line state => exact ⟨extractLine_fits inc state buf, rfl⟩
  | delimiter delim => exact ⟨extractDelimited_fits inc delim.1 buf, rfl⟩
  | lengthPrefixed prefixSize endianness offset next =>
    refine ⟨(takePrefixed_fits inc prefixSize.1 endianness next (buf.drop offset)).of_le ?_, rfl⟩
    exact (fits_take_drop 0 _).rest
  | startEnd start fin markers inFrame =>
    exact ⟨extractStartEnd_fits start fin markers inFrame buf, rfl⟩
  | slip st => exact ⟨.waits buf, rfl⟩
  | cobs st => exact ⟨.waits buf, rfl⟩

end

/-! ## Emitted frames -/

/-- All frames emitted have at most `n` bytes. -/
def Emitted.Short (n : ℕ) (em : Emitted) : Prop := ∀ f ∈ em.frames, f.data.length ≤ n

theorem Emitted.short_one (n : ℕ) : (1 : Emitted).Short n := by
  intro f hf
  cases hf

theorem Emitted.Short.mul {n : ℕ} {a b : Emitted} (ha : a.Short n) (hb : b.Short n) :
    (a * b).Short n := by
  intro f hf
  rw [mul_frames, List.mem_append] at hf
  rcases hf with hf | hf
  · exact ha f hf
  · exact hb f hf

theorem emitFrame_short {skip : Bool} {parser : Option FrameParser} {count : ℕ} {ty : FrameType}
    {data : Bytes} {n : ℕ} (h : data.length ≤ n) :
    (emitFrame skip parser count ty data).1.1.Short n := by
  rw [emitFrame]
  split
  · exact Emitted.short_one n
  · split
    · rintro f ⟨⟩
      · exact h
      · next hf => cases hf
    · rintro f ⟨⟩
    · exact Emitted.short_one n
    · rintro f ⟨⟩
      · exact h
      · next hf => cases hf

/-- What one turn of the decoding loop may emit and keep, with `n` bytes to
    make frames of. -/
def Holds (n : ℕ) (emitted : Option (Emitted × Option FrameDecodeError)) (held : ℕ) : Prop :=
  held ≤ n ∧ ∀ ox ∈ emitted, ox.1.Short n

theorem Holds.silent {n held : ℕ} (h : held ≤ n) (x : Option FrameDecodeError) :
    Holds n (some (1, x)) held := by
  refine ⟨h, ?_⟩
  rintro ox ⟨⟩
  exact Emitted.short_one n

theorem Holds.behind {m n k held : ℕ} {emitted : Option (Emitted × Option FrameDecodeError)}
    (h : Holds m emitted held) (hle : k + m ≤ n) : Holds n emitted (k + held) := by
  refine ⟨by have := h.1; omega, ?_⟩
  intro ox hox f hf
  have := h.2 ox hox f hf
  omega

section
variable {skip : Bool} {parser : Option FrameParser} {count n : ℕ} {b : UInt8}

theorem slipByte_holds {st : SlipState} (h : st.held + 1 ≤ n) :
    Holds n (some (slipByte skip parser count b st).1) (slipByte skip parser count b st).2.1.held := by
  cases st with
  | beforeFirstEnd =>
    rw [slipByte]
    refine .silent ?_ _
    dsimp only
    split
    · exact Nat.zero_le n
    · exact Nat.zero_le n
  | inFrame buf escaped =>
    have hbuf : buf.length + 1 ≤ n := h
    have hsnoc (b : UInt8) : (SlipState.inFrame (buf ++ [b]) false).held ≤ n := by
      rw [SlipState.held, List.length_append, List.length_singleton]
      exact hbuf
    cases escaped with
    | true =>
      rw [slipByte]
      split
      · exact .silent (hsnoc _) _
      · split
        · exact .silent (hsnoc _) _
        · exact .silent (Nat.zero_le n) _
    | false =>
      rw [slipByte]
      split
      · refine ⟨?_, ?_⟩
        · dsimp only
          split
          · exact Nat.zero_le n
          · exact Nat.zero_le n
        · rintro ox ⟨⟩
          exact emitFrame_short (by omega)
      · split
        · exact .silent (Nat.le_of_succ_le hbuf) _
        · exact .silent (hsnoc _) _

theorem cobsFlush_held (st : CobsState) : (cobsFlush st).held = st.held := by
  unfold cobsFlush
  split
  · simp [CobsState.held]
  · rfl

theorem dropPhantom_length (decoded : Bytes) : (dropPhantom decoded).length ≤ decoded.length := by
  rw [dropPhantom]
  split
  · rw [List.length_dropLast]
    omega
  · exact Nat.le_refl _

theorem cobsByte_holds {st : CobsState} (h : st.held + 1 ≤ n) :
    Holds n (some (cobsByte skip parser count b st).1)
      (cobsByte skip parser count b st).2.1.held := by
  cases st with
  | beforeFirstDelim =>
    rw [cobsByte]
    refine .silent ?_ _
    dsimp only
    split
    · exact Nat.zero_le n
    · exact Nat.zero_le n
  | inFrame decoded remaining pendingZero =>
    have hdecoded : decoded.length + pendingZero.toNat + 1 ≤ n := h
    cases remaining with
    | succ remaining =>
      rw [cobsByte]
      refine .silent ?_ _
      rw [CobsState.held, List.length_append, List.length_singleton]
      omega
    | zero =>
      rw [cobsByte]
      split
      · refine ⟨Nat.zero_le n, ?_⟩
        rintro ox ⟨⟩
        exact emitFrame_short ((dropPhantom_length decoded).trans (by omega))
      · split
        · refine .silent ?_ _
          rw [CobsState.held, Bool.toNat_false]
          omega
        · refine .silent ?_ _
          rw [CobsState.held, Bool.toNat_true]
          omega

end

namespace FrameDecoder

variable {d d₁ : FrameDecoder} {n : ℕ}

theorem nextFrame_holds (h : d.held ≤ n) : Holds n d.nextFrame.1 d.nextFrame.2.held := by
  obtain ⟨hfits, hheld⟩ := extract_fits d.includeTerminators d.mode d.buf
  have hrest := hfits.rest
  simp only [held] at h
  rw [nextFrame]
  rcases hx : (extract d.includeTerminators d.mode d.buf).1 with _ | frame
  · refine ⟨?_, by simp⟩
    simp only [held, hheld]
    omega
  · refine ⟨?_, ?_⟩
    · simp only [held, hheld]
      omega
    · rintro ox ⟨⟩
      have := hfits.frame frame hx
      exact emitFrame_short (by omega)

/-- **Step**: one turn of the decoding loop emits and keeps what it held. -/
theorem next_holds (h : d.held ≤ n) : Holds n d.next.1 d.next.2.held := by
  obtain ⟨buf, mode, count, inc, skip, parser⟩ := d
  cases mode with
  | slip st =>
    cases buf with
    | nil => exact ⟨h, by simp [next, nextSlip]⟩
    | cons b rest =>
      have hle : rest.length + (st.held + 1) ≤ n := by
        simp only [held, DecoderMode.held, List.length_cons] at h
        omega
      exact (slipByte_holds (Nat.le_refl _)).behind hle
  | cobs st =>
    cases buf with
    | nil =>
      refine ⟨?_, by simp [next, nextCobs]⟩
      simp only [held, DecoderMode.held, next, nextCobs, cobsFlush_held] at h ⊢
      exact h
    | cons b rest =>
      have hle : rest.length + ((cobsFlush st).held + 1) ≤ n := by
        simp only [held, DecoderMode.held, List.length_cons] at h
        rw [cobsFlush_held]
        omega
      exact (cobsByte_holds (Nat.le_refl _)).behind hle
  | _ => exact nextFrame_holds h

theorem newMode_held {crates : Crates} {m : RxFramingMode} {mode : DecoderMode}
    (h : newMode crates m = .ok mode) : mode.held = 0 := by
  rcases m with ending | ⟨delim, enc⟩ | ⟨prefixSize, e, off⟩ | ⟨start, fin, enc, markers⟩ | _ | _
  · cases ending with
    | auto => cases h; rfl
    | lf => cases h; rfl
    | cr => cases h; rfl
    | crlf => cases h; rfl
  · simp only [newMode, bind, Except.bind] at h
    split at h
    · cases h
    · cases h; rfl
  · simp only [newMode] at h
    split at h
    · cases h; rfl
    · cases h
  · simp only [newMode, bind, Except.bind] at h
    split at h
    · cases h
    · split at h
      · cases h
      · split at h
        · cases h
        · cases h; rfl
  · cases h; rfl
  · cases h; rfl

theorem new_held {crates : Crates} {config : RxFramingConfig} {parser : Option ParserConfig}
    (h : FrameDecoder.new crates config parser = .ok d) : d.held = 0 := by
  have hfresh := new_fresh h
  rw [held, hfresh.buf, newMode_held hfresh.mode]
  rfl

/-- **Push**: a chunk adds its length to what the decoder can emit and keep. -/
theorem push_holds (d : FrameDecoder) (chunk : Bytes) :
    (∀ f ∈ (d.push chunk).1.frames, f.data.length ≤ d.held + chunk.length) ∧
      (d.push chunk).2.held ≤ d.held + chunk.length := by
  have hfed : (d.feed chunk).held ≤ d.held + chunk.length := by
    simp only [held, feed, List.length_append]
    omega
  refine Extractor.settle_keeps (Q := fun (d' : FrameDecoder) => d'.held ≤ d.held + chunk.length)
    (G := Emitted.Short (d.held + chunk.length)) (Emitted.short_one _) .mul ?_ hfed
  intro d' e d₁ hd' hnext
  have hstep := next_holds hd'
  rw [show d'.next = (e, d₁) from hnext] at hstep
  exact hstep

end FrameDecoder

end SerialMcp
