/-
  Decoders that are started again.

  * `contents`: what a decoder makes of chunks, without the frame numbers; they
    do not depend on the frames counted before (`contents_renumbered`).
  * `Rested`: states in which a decoder holds nothing of a frame: its starting
    state, and, where blank frames are skipped, SLIP between two END bytes.
  * `Rested.contents_eq`: from such a state a decoder makes of what follows
    what one does that is started again.
-/
import SerialMcp.Framing.Decoder

namespace SerialMcp

open Incremental

/-! ## Frames without their numbers -/

/-- A frame without its number. -/
def Frame.unnumbered (f : Frame) : Frame := { f with index := 0 }

/-- Emissions without the frame numbers. -/
def Emitted.unnumbered : Emitted →* Emitted where
  toFun o := ⟨o.frames.map Frame.unnumbered, o.framesDropped⟩
  map_one' := rfl
  map_mul' _ _ := Emitted.ext (List.map_append ..) rfl

/-- The same decoder after another number of frames. -/
def Renumbered (d d' : FrameDecoder) : Prop := ∃ n, d' = { d with frameCount := n }

/-- Emissions that differ in frame numbers only. -/
def SameEvent (a b : Emitted × Option FrameDecodeError) : Prop :=
  Prod.map Emitted.unnumbered id a = Prod.map Emitted.unnumbered id b

theorem emitFrame_unnumbered (skipEmpty : Bool) (parser : Option FrameParser) (n m : ℕ)
    (frameType : FrameType) (data : Bytes) :
    SameEvent (emitFrame skipEmpty parser n frameType data).1
      (emitFrame skipEmpty parser m frameType data).1 := by
  unfold emitFrame
  split
  · rfl
  · split <;> rfl

theorem slipByte_unnumbered (skipEmpty : Bool) (parser : Option FrameParser) (n m : ℕ) (b : UInt8)
    (st : SlipState) :
    SameEvent (slipByte skipEmpty parser n b st).1 (slipByte skipEmpty parser m b st).1 ∧
      (slipByte skipEmpty parser n b st).2.1 = (slipByte skipEmpty parser m b st).2.1 := by
  rcases st with _ | ⟨buf, _ | _⟩
  · exact ⟨rfl, rfl⟩
  · have hemit := emitFrame_unnumbered skipEmpty parser n m .slip buf
    have herr := congrArg (fun e => Option.isNone e.2) hemit
    simp only [Prod.map_snd, id_eq] at herr
    simp only [slipByte]
    split
    · exact ⟨hemit, by rw [herr]⟩
    · split <;> exact ⟨rfl, rfl⟩
  · simp only [slipByte]
    split
    · exact ⟨rfl, rfl⟩
    · split <;> exact ⟨rfl, rfl⟩

theorem cobsByte_unnumbered (skipEmpty : Bool) (parser : Option FrameParser) (n m : ℕ) (b : UInt8)
    (st : CobsState) :
    SameEvent (cobsByte skipEmpty parser n b st).1 (cobsByte skipEmpty parser m b st).1 ∧
      (cobsByte skipEmpty parser n b st).2.1 = (cobsByte skipEmpty parser m b st).2.1 := by
  rcases st with _ | ⟨decoded, _ | remaining, pendingZero⟩
  · exact ⟨rfl, rfl⟩
  · simp only [cobsByte]
    split
    · exact ⟨emitFrame_unnumbered .., rfl⟩
    · split <;> exact ⟨rfl, rfl⟩
  · exact ⟨rfl, rfl⟩

namespace FrameDecoder

theorem next_renumbered (d : FrameDecoder) (n : ℕ) :
    Extractor.Answers Emitted.unnumbered Renumbered d.next
      ({ d with frameCount := n } : FrameDecoder).next := by
  have hframe : Extractor.Answers Emitted.unnumbered Renumbered d.nextFrame
      ({ d with frameCount := n } : FrameDecoder).nextFrame := by
    unfold nextFrame
    rcases extract d.includeTerminators d.mode d.buf with ⟨_ | data, mode, buf⟩
    · exact ⟨rfl, n, rfl⟩
    · exact ⟨congrArg some (emitFrame_unnumbered ..), _, rfl⟩
  rcases d with ⟨buf, mode, count, incl, skip, parser⟩
  cases mode with
  | slip st =>
    rcases buf with _ | ⟨b, rest⟩
    · exact ⟨rfl, n, rfl⟩
    · obtain ⟨hevent, hst⟩ := slipByte_unnumbered skip parser count n b st
      refine ⟨congrArg some hevent, (slipByte skip parser n b st).2.2, ?_⟩
      simp only [next, nextSlip, hst]
  | cobs st =>
    rcases buf with _ | ⟨b, rest⟩
    · exact ⟨rfl, n, rfl⟩
    · obtain ⟨hevent, hst⟩ := cobsByte_unnumbered skip parser count n b (cobsFlush st)
      refine ⟨congrArg some hevent, (cobsByte skip parser n b (cobsFlush st)).2.2, ?_⟩
      simp only [next, nextCobs, hst]
  | _ => exact hframe

theorem renumbered_alike : Extractor.Alike extractor Emitted.unnumbered Renumbered where
  feed b := by
    rintro ⟨n, rfl⟩
    exact ⟨n, rfl⟩
  pending := by
    rintro _ _ ⟨n, rfl⟩
    rfl
  next := by
    rintro d _ ⟨n, rfl⟩
    exact d.next_renumbered n

/-! ## What chunks decode to -/

/-- What the decoder makes of the chunks, without the frame numbers. -/
def contents (d : FrameDecoder) (chunks : List Bytes) : List Frame :=
  (decoder.pushAll d chunks).1.frames.map Frame.unnumbered

/-- The decoder after the chunks. -/
def after (d : FrameDecoder) (chunks : List Bytes) : FrameDecoder :=
  (decoder.pushAll d chunks).2.2

theorem contents_append (d : FrameDecoder) (cs cs' : List Bytes) :
    d.contents (cs ++ cs') = d.contents cs ++ (d.after cs).contents cs' := by
  simp only [contents, after, Incremental.Decoder.pushAll_append, Emitted.mul_frames,
    List.map_append]

theorem contents_of_settles {d d' : FrameDecoder} {cs : List Bytes}
    (h : Extractor.Settles Emitted.unnumbered Renumbered (decoder.pushAll d cs)
      (decoder.pushAll d' cs)) : d.contents cs = d'.contents cs :=
  congrArg Emitted.frames h.1

end FrameDecoder

/-- The number of frames before does not change what chunks decode to. -/
theorem Renumbered.contents_eq {d d' : FrameDecoder} (h : Renumbered d d') (cs : List Bytes) :
    d.contents cs = d'.contents cs :=
  FrameDecoder.contents_of_settles (FrameDecoder.renumbered_alike.pushAll cs h)

/-- Before the chunks `rest`, the decoder `d'` holds nothing of a frame to come:
    nothing comes, or it is where `d` starts, or between two END bytes and skips
    the blank frame there. -/
inductive Rested (d d' : FrameDecoder) (rest : List Bytes) : Prop where
  | last (hrest : rest = [])
  | start (h : Renumbered d d')
  | ends {b : Bytes} {cs : List Bytes} {n : ℕ} (hbuf : d.buf = [])
      (hmode : d.mode = .slip .beforeFirstEnd) (hskip : d.skipEmpty = true)
      (hd' : d' = { d with mode := .slip (.inFrame [] false), frameCount := n })
      (hrest : rest = (slipEnd :: b) :: cs)

/-- **A rested decoder makes of what follows what a fresh one does.** -/
theorem Rested.contents_eq {d d' : FrameDecoder} {rest : List Bytes} (h : Rested d d' rest) :
    d'.contents rest = d.contents rest := by
  cases h with
  | last hrest => rw [hrest]; rfl
  | start h => exact (h.contents_eq rest).symm
  | @ends b cs n hbuf hmode hskip hd' hrest =>
    subst hd' hrest
    rcases d with ⟨buf, mode, count, incl, skip, parser⟩
    simp only at hbuf hmode hskip
    subst hbuf hmode hskip
    symm
    refine FrameDecoder.contents_of_settles
      (FrameDecoder.renumbered_alike.pushAll_of_answers ?_ ?_ cs)
    · rfl
    · exact ⟨rfl, n, rfl⟩

end SerialMcp
