/-
  Framed reads through the shared cursor, one after another.

  Every call decodes what it takes with a decoder of its own, which ends with
  the call; the cursor moves past all the bytes taken.

  * `FramedCalls`: any number of complete calls with the same framing and
    parser; nobody else moves the cursor, and the ring grows before, between
    and inside the calls.
  * `FramedCalls.decode`: the chunks of the calls are the stream from the first
    cursor to the last, and the frames of each call are those of its chunks.
  * `concat_eq_iff`: the frames of the calls are those of one decoder, from
    every call on, exactly when nothing a decoder held at the end of a call
    would have changed the frames of what follows.
-/
import SerialMcp.Read.Delivery
import SerialMcp.Framing.Restart

namespace SerialMcp

open Interact RxOp Cuts

/-! ## One call -/

/-- The chunks that a call took from the ring. -/
def Call.chunks (call : Call) : List Bytes := (taken call.trace).map Piece.items

/-- The frames that a call reports, without their numbers. -/
def Call.contents (call : Call) : List Frame := call.outcome.frames.map Frame.unnumbered

/-- The ring has not wrapped past the cursor the call started from, and no
    matcher looked at bytes before they were decoded. -/
structure FramedKept (call : Call) : Prop where
  kept : startSeen call.trace ≤ entryCursor call.trace
  undecoded : call.req.matcher = none ∨ (initialSlice call.trace).bytes = []

/-- What one framed call takes from the stream and makes of it. -/
structure Decodes (d : FrameDecoder) (S : Bytes) (c : ℕ) (chunks : List Bytes) (out : ReadOutcome)
    (final : ℕ) : Prop where
  final_ge : c ≤ final
  final_le : final ≤ S.length
  chunks_eq : chunks.flatten = stretch S c final
  frames_eq : out.frames = (FrameDecoder.decoder.pushAll d chunks).1.frames

section
variable {req : ReadRequest} {c : ℕ} {d : FrameDecoder} {s₀ : RingSlice} {f : Feed}
  {start q : ℕ} {ps : List (Piece UInt8)} {out : ReadOutcome} {final : ℕ}

theorem Report.decodes (h : Report req c (some d) s₀ f start ps out final)
    (hc : c ≤ f.stream.length) (hl : start ≤ c) (hraw : req.matcher = none ∨ s₀.bytes = []) :
    Decodes d f.stream c (ps.map Piece.items) out final := by
  obtain ⟨q, hchain, -, hended⟩ := h.ended
  have hhist : historyEnd req s₀ = none := by
    rcases hraw with hraw | hraw
    · simp [historyEnd, hraw]
    · simp [historyEnd, hraw]
  have ho : ¬CountsTwice req s₀ := by
    rintro ⟨hne, hsome, -, -⟩
    rcases hraw with hraw | hraw
    · simp [hraw] at hsome
    · exact hne hraw
  have hanchor := hchain.anchor_eq hl
  obtain ⟨hq, hitems⟩ := hchain.contiguous (hl.trans_eq hanchor.symm)
  rw [hanchor] at hq hitems
  have hfinal : final = q ∧ out.frames = (decoded d ps).1.frames := by
    cases hended with
    | slice _ hne hsated hreason hfinal hmeasured hbytes hinside hframes =>
      exact ⟨hfinal ho, hframes⟩
    | idle _ hunsated hreason hmatched hfinal hmeasured hbytes hframes =>
      exact ⟨(hfinal ho).trans hq.symm, hframes⟩
    | history hfound => simp [hhist] at hfound
    | context hfound => simp [hhist] at hfound
  obtain ⟨rfl, hframes⟩ := hfinal
  refine ⟨by omega, hchain.stop_le hc, ?_, hframes⟩
  rw [flatten_items]
  exact hitems

end

/-! ## Calls one after another -/

/-- Any number of complete framed reads without `from`, one after another, each
    with a decoder that starts as `d`. -/
inductive FramedCalls (crates : Crates) (d : FrameDecoder) (w₀ : World) : List Call → World → Prop
    where
  | nil : FramedCalls crates d w₀ [] w₀
  | snoc {cs w w' call turns} (h : FramedCalls crates d w₀ cs w)
      (hdec : buildDecoder crates call.req = .ok (some d))
      (hrun : Runs act Alone w (read crates turns call.req .cursor) call.trace w'
        (.ok call.outcome)) : FramedCalls crates d w₀ (cs ++ [call]) w'

section
variable {crates : Crates} {turns : ℕ} {d : FrameDecoder} {w w' w₀ : World} {call : Call}
  {cs : List Call}

/-- **Step**: a call decodes the stream from the cursor it found to the cursor
    it leaves. -/
theorem read_decodes
    (h : Runs act Alone w (read crates turns call.req .cursor) call.trace w' (.ok call.outcome))
    (hdec : buildDecoder crates call.req = .ok (some d)) (hc : w.readCursor ≤ w.feed.ring.endOffset)
    (hk : FramedKept call) :
    w.feed.stream <+: w'.feed.stream ∧
      Decodes d w'.feed.stream w.readCursor call.chunks call.outcome w'.readCursor := by
  obtain ⟨d₀, f, hd, hf, hf', hentry, hrep⟩ := read_reported h hc
  obtain rfl := Except.ok.inj (hdec.symm.trans hd)
  have hcf : w.readCursor ≤ f.stream.length := by
    rw [← f.refines.stop]
    exact hc.trans hf.end_le
  obtain ⟨hge, hle, hchunks, hframes⟩ := hrep.decodes hcf (hentry ▸ hk.kept) hk.undecoded
  have hpre : f.stream <+: w'.feed.stream := hf'.stream
  refine ⟨hf.stream.trans hpre, hge, hle.trans hpre.length_le, ?_, hframes⟩
  rw [stretch_mono hpre hle]
  exact hchunks

/-- **Run**: the chunks of the calls spell the stream from the first cursor to
    the last, and the frames of each call are those of its chunks. -/
theorem FramedCalls.decode (h : FramedCalls crates d w₀ cs w')
    (hc : w₀.readCursor ≤ w₀.feed.ring.endOffset) (hk : ∀ call ∈ cs, FramedKept call) :
    w₀.feed.stream <+: w'.feed.stream ∧ w₀.readCursor ≤ w'.readCursor ∧
      w'.readCursor ≤ w'.feed.stream.length ∧
      (cs.flatMap Call.chunks).flatten =
        stretch w'.feed.stream w₀.readCursor w'.readCursor ∧
      ∀ call ∈ cs, call.outcome.frames =
        (FrameDecoder.decoder.pushAll d call.chunks).1.frames := by
  induction h with
  | nil =>
    rw [w₀.feed.refines.stop] at hc
    exact ⟨List.prefix_refl _, Nat.le_refl _, hc, (stretch_self ..).symm, fun _ h => by cases h⟩
  | @snoc cs w w' call turns h hdec hrun ih =>
    obtain ⟨hpre, hge, hle, hchunks, hframes⟩ := ih fun call' hcall => hk call' (by simp [hcall])
    have hcw : w.readCursor ≤ w.feed.ring.endOffset := by
      rwa [w.feed.refines.stop]
    obtain ⟨hpre', hdec'⟩ := read_decodes hrun hdec hcw (hk call (by simp))
    refine ⟨hpre.trans hpre', hge.trans hdec'.final_ge, hdec'.final_le, ?_, ?_⟩
    · rw [List.flatMap_append, List.flatten_append, hchunks, ← stretch_mono hpre' hle,
        ← stretch_append _ hge hdec'.final_ge, ← hdec'.chunks_eq]
      simp
    · intro call' hcall
      rcases List.mem_append.1 hcall with hcall | hcall
      · exact hframes call' hcall
      · rw [List.mem_singleton.1 hcall]
        exact hdec'.frames_eq

end

/-! ## One decoder for all calls -/

/-- What the decoder of a call held at its end would not have changed the
    frames of the later calls. -/
def LeavesNothing (d : FrameDecoder) (call : Call) (late : List Call) : Prop :=
  (d.after call.chunks).contents (late.flatMap Call.chunks) =
    d.contents (late.flatMap Call.chunks)

section
variable {d : FrameDecoder} {cs : List Call}

/-- From every call on, the frames of the calls are those of one decoder exactly
    when no call leaves anything to the later ones. -/
theorem concat_eq_iff (h : ∀ call ∈ cs, call.contents = d.contents call.chunks) :
    (∀ late, late <:+ cs → late.flatMap Call.contents = d.contents (late.flatMap Call.chunks)) ↔
      ∀ call late, call :: late <:+ cs → LeavesNothing d call late := by
  have key {call : Call} {late : List Call} (hs : call :: late <:+ cs)
      (hlate : late.flatMap Call.contents = d.contents (late.flatMap Call.chunks)) :
      (call :: late).flatMap Call.contents = d.contents ((call :: late).flatMap Call.chunks) ↔
        LeavesNothing d call late := by
    rw [List.flatMap_cons, List.flatMap_cons, FrameDecoder.contents_append,
      h call (hs.subset List.mem_cons_self), hlate, List.append_cancel_left_eq]
    exact eq_comm
  constructor
  · intro hall call late hs
    exact (key hs (hall late ((List.suffix_cons call late).trans hs))).1 (hall _ hs)
  · intro hall late hs
    induction late with
    | nil => rfl
    | cons call late ih =>
      have hlate := ih ((List.suffix_cons call late).trans hs)
      exact (key hs hlate).2 (hall call late hs)

variable {crates : Crates} {w₀ w' : World}

/-- **Framed reads one after another.** In every run of complete framed calls
    that each meet `FramedKept`, the chunks of the calls are the stream from the
    first cursor to the last, and every call reports what a new decoder makes
    of its chunks.  From every call on, the frames of the calls are those of one
    decoder exactly when no call leaves anything to the later ones; they are if
    every decoder comes to rest before what follows. -/
theorem FramedCalls.per_call_decoding (h : FramedCalls crates d w₀ cs w')
    (hc : w₀.readCursor ≤ w₀.feed.ring.endOffset) (hk : ∀ call ∈ cs, FramedKept call) :
    (cs.flatMap Call.chunks).flatten = stretch w'.feed.stream w₀.readCursor w'.readCursor ∧
      (∀ call ∈ cs, call.outcome.frames =
        (FrameDecoder.decoder.pushAll d call.chunks).1.frames) ∧
      ((∀ late, late <:+ cs →
          late.flatMap Call.contents = d.contents (late.flatMap Call.chunks)) ↔
        ∀ call late, call :: late <:+ cs → LeavesNothing d call late) ∧
      ((∀ call late, call :: late <:+ cs →
          Rested d (d.after call.chunks) (late.flatMap Call.chunks)) →
        cs.flatMap Call.contents = d.contents (cs.flatMap Call.chunks)) := by
  obtain ⟨-, -, -, hchunks, hframes⟩ := h.decode hc hk
  have hiff := concat_eq_iff fun call hcall => congrArg (List.map Frame.unnumbered) (hframes call hcall)
  refine ⟨hchunks, hframes, hiff, fun hrest => ?_⟩
  exact hiff.2 (fun call late hs => (hrest call late hs).contents_eq) cs (List.suffix_refl cs)

end

theorem FramedKept.unwrapped {call : Call} (h : startSeen call.trace = 0)
    (hm : call.req.matcher = none) : FramedKept call := ⟨h ▸ Nat.zero_le _, .inl hm⟩

theorem FramedKept.snoc {cs : List Call} {call : Call} (hcs : ∀ call ∈ cs, FramedKept call)
    (h : FramedKept call) : ∀ c ∈ cs ++ [call], FramedKept c := by
  intro c hc
  rcases List.mem_append.1 hc with hc | hc
  · exact hcs c hc
  · rw [List.mem_singleton.1 hc]
    exact h

/-- One more call, executed against the given moves. -/
theorem FramedCalls.run {crates : Crates} {d : FrameDecoder} {w₀ w : World} {cs : List Call}
    (h : FramedCalls crates d w₀ cs w) (turns : ℕ) (req : ReadRequest)
    (hdec : buildDecoder crates req = .ok (some d)) (es : List (World → World))
    (hes : ∀ e ∈ es, ∀ w, Alone w (e w)) {out : ReadOutcome}
    (hout : (Interact.run act (read crates turns req .cursor) es w).2.2 = .ok out) :
    FramedCalls crates d w₀
      (cs ++ [⟨req, (Interact.run act (read crates turns req .cursor) es w).1, out⟩])
      (Interact.run act (read crates turns req .cursor) es w).2.1 :=
  .snoc h hdec (runs_of_run Alone.refl es hes hout)

/-- A ring of eight bytes with two lines, `"ab"` and `"cd"`. -/
def linesHeld : World := .opened (Feed.eight.push [97, 98, 10, 99, 100, 10])

/-- A read of one line that takes three bytes at a time. -/
def oneLine : ReadRequest where
  maxBytes := 3
  framing := some { mode := .line .lf, maxFrames := some 1 }

/-- Two calls take a line each. -/
theorem FramedCalls.per_call_decoding_lines : ∃ d cs w', FramedCalls .refusing d linesHeld cs w' ∧
    cs.flatMap Call.chunks = [[97, 98, 10], [99, 100, 10]] ∧
    cs.flatMap Call.contents = d.contents (cs.flatMap Call.chunks) := by
  have h₁ := (FramedCalls.nil : FramedCalls .refusing _ linesHeld [] linesHeld).run 0 oneLine rfl
    [] (by simp) rfl
  have h₂ := h₁.run 0 oneLine rfl [] (by simp) rfl
  refine ⟨_, _, _, h₂, rfl, (h₂.per_call_decoding (Nat.zero_le _) ?_).2.2.2 ?_⟩
  · exact FramedKept.snoc (FramedKept.snoc (by simp) (.unwrapped rfl rfl)) (.unwrapped rfl rfl)
  · intro call late hs
    rcases List.suffix_cons_iff.1 hs with heq | hs
    · obtain ⟨rfl, rfl⟩ := List.cons.inj heq
      exact .start ⟨1, rfl⟩
    · rcases List.suffix_cons_iff.1 hs with heq | hs
      · obtain ⟨rfl, rfl⟩ := List.cons.inj heq
        exact .last rfl
      · exact absurd (List.eq_nil_of_suffix_nil hs) (List.cons_ne_nil _ _)

/-- A line and a half: `"ab"` and `"cd"`. -/
def lineCut : World := .opened (Feed.eight.push [97, 98, 10, 99, 100])

/-- A read of lines that times out at once. -/
def hastyLines : ReadRequest where
  maxBytes := 8
  timeoutMs := some 0
  framing := some { mode := .line .lf }

theorem lineEnds : ∀ e ∈ [World.receive [101, 102, 10]], ∀ w, Alone w (e w) := by
  intro e he w
  obtain rfl := List.mem_singleton.1 he
  exact ⟨receive_rely _ w, rfl⟩

/-- The first call takes the half line and times out; the second reports the
    other half, `"ef"`, as a frame. -/
theorem FramedCalls.not_one_decoder : ¬∀ (crates : Crates) (d : FrameDecoder) (w₀ w' : World)
    (cs : List Call), FramedCalls crates d w₀ cs w' →
    w₀.readCursor ≤ w₀.feed.ring.endOffset → (∀ call ∈ cs, FramedKept call) →
    cs.flatMap (fun call => call.outcome.frames.map Frame.data) =
      (d.push (stretch w'.feed.stream w₀.readCursor w'.readCursor)).1.frames.map Frame.data := by
  intro h
  have h₁ := (FramedCalls.nil : FramedCalls .refusing _ lineCut [] lineCut).run 1 hastyLines rfl
    [] (by simp) rfl
  have h₂ := h₁.run 1 hastyLines rfl _ lineEnds rfl
  have heq := h _ _ _ _ _ h₂ (Nat.zero_le _) ?_
  · exact absurd heq (by decide)
  · exact FramedKept.snoc (FramedKept.snoc (by simp) (.unwrapped rfl rfl)) (.unwrapped rfl rfl)

end SerialMcp
