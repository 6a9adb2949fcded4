/-
  Reads through the shared cursor, one after another.

  * `read_runs`: a `read` without `from` is a private read from the shared
    cursor, between the loads and stores of the cursor.
  * `Calls`: any number of complete reads of one connection; nobody else moves
    the cursor, and the ring grows before, between and inside the calls.
  * `Calls.spells`: the bytes of the calls, each behind a gap of the size it
    reports as lost, spell the stream from the first cursor to the last, as
    long as the ring does not wrap past what a call took.
-/
import SerialMcp.Read.Offsets

namespace SerialMcp

open Interact RxOp Cuts

/-! ## The shared cursor around a private read -/

section
variable {R : World → World → Prop} {crates : Crates} {turns : ℕ} {req : ReadRequest}
  {w w' : World} {tr : List RxEvent} {out : ReadOutcome}

/-- What a complete `read` without `from` does: load, store and load again the
    shared cursor, read from it, store the final cursor. -/
theorem read_runs (h : Runs act R w (read crates turns req .cursor) tr w' (.ok out)) :
    ∃ w₁ w₂ w₃ trp w₄ final w₅, R w w₁ ∧ R w₁ w₂ ∧
      R { w₂ with readCursor := w₁.readCursor } w₃ ∧
      Runs act R w₃ (readFromPrivateCursor crates turns req w₃.readCursor) trp w₄
        (.ok (out, final)) ∧
      R w₄ w₅ ∧ w' = { w₅ with readCursor := final } ∧
      tr = ⟨.readCursor, w₁.readCursor⟩ :: ⟨.setReadCursor w₁.readCursor, ()⟩ ::
        ⟨.readCursor, w₃.readCursor⟩ :: (trp ++ [⟨.setReadCursor final, ()⟩]) := by
  simp only [read, ReadFrom.resolve, readBytesFromRing, Prog.perform_bind] at h
  cases h with
  | @call _ w₁ _ _ _ _ _ h₁ h =>
  cases h with
  | @call _ w₂ _ _ _ _ _ h₂ h =>
  cases h with
  | @call _ w₃ _ _ _ _ _ h₃ h =>
  obtain ⟨trp, tr', w₄, r, rfl, hp, hrest⟩ := runs_bind_iff.1 h
  rcases r with e | ⟨o, final⟩
  · cases hrest
  · cases hrest with
    | @call _ w₅ _ _ _ _ _ h₅ hret =>
      cases hret
      exact ⟨w₁, w₂, w₃, trp, w₄, final, w₅, h₁, h₂, h₃, hp, h₅, rfl, rfl⟩

end

/-- The cursor a `read` starts from. -/
def entryCursor : List RxEvent → ℕ
  | ⟨.readCursor, n⟩ :: _ => n
  | _ => 0

/-- Loads and stores of the cursor are no slices and no looks at the ring. -/
theorem read_trace (c₁ c₂ final : ℕ) (trp : List RxEvent) {tr : List RxEvent}
    (h : tr = ⟨.readCursor, c₁⟩ :: ⟨.setReadCursor c₁, ()⟩ :: ⟨.readCursor, c₂⟩ ::
      (trp ++ [⟨.setReadCursor final, ()⟩])) :
    taken tr = taken trp ∧ startSeen tr = startSeen trp ∧ slicesOf tr = slicesOf trp := by
  subst h
  refine ⟨?_, ?_, ?_⟩
  · show taken (trp ++ _) = _
    rw [taken_append]
    exact List.append_nil _
  · show startSeen (trp ++ _) = _
    rw [startSeen, startsOf_append]
    exact congrArg (·.headD 0) (List.append_nil _)
  · show slicesOf (trp ++ _) = _
    rw [slicesOf_append]
    exact List.append_nil _

/-! ## One call -/

/-- A read that returns raw bytes: no framing and no match context. -/
structure ReadRequest.Raw (req : ReadRequest) : Prop where
  framing : req.framing = none
  context : req.hasContext = false

/-- The ring has not wrapped past the first byte the call took, nor past the
    cursor it started from if the bytes taken do not meet the request and the
    call ended on its clock, its token or its connection. -/
def CallKept (req : ReadRequest) (tr : List RxEvent) : Prop :=
  startSeen tr ≤ anchor (entryCursor tr) (taken tr) ∧
    (historyEnd req (initialSlice tr) = none → ¬Sated req none (initialSlice tr) (taken tr) →
      startSeen tr ≤ entryCursor tr)

section
variable {req : ReadRequest} {c : ℕ} {d₀ : Option FrameDecoder} {s₀ : RingSlice} {f : Feed}
  {start q : ℕ} {ps : List (Piece UInt8)} {out : ReadOutcome} {final : ℕ}

theorem ReadRequest.Raw.not_shapes (h : req.Raw) : ¬Shapes req.matcher false := by
  have hctx := h.context
  rcases hm : req.matcher with _ | m
  · simp [Shapes]
  · simp only [ReadRequest.hasContext, hm, Option.bind_some] at hctx
    simp [Shapes, Matcher.savesContext, hctx]

/-- What one call delivers. -/
structure Delivers (S : Bytes) (c : ℕ) (out : ReadOutcome) (final : ℕ) : Prop where
  final_eq : final = c + out.bytesLost + out.bytes.length
  final_le : final ≤ S.length
  bytes_eq : out.bytes = stretch S (c + out.bytesLost) final

/-- Pieces without a gap behind the anchor, up to `final`. -/
theorem Measured.delivers {n used m : ℕ} (hm : Measured c start n used out)
    (hchain : Chain f.stream start c ps q) (hl : start ≤ anchor c ps)
    (hle : anchor c ps + m ≤ q) (hq : q ≤ f.stream.length)
    (hbytes : out.bytes = (items ps).take m) (hfinal : final = anchor c ps + m) :
    Delivers f.stream c out final := by
  obtain ⟨hqe, hseg⟩ := hchain.contiguous hl
  have hmax := hchain.max_limit hl
  have hlost : c + out.bytesLost = anchor c ps := by rw [hm.lost]; omega
  have hlen : out.bytes.length = m := by rw [hbytes, List.length_take]; omega
  refine ⟨by omega, by omega, ?_⟩
  rw [hlost, hbytes, hseg, stretch_take (by omega), hfinal]

theorem Report.delivers (h : Report req c d₀ s₀ f start ps out final) (hraw : req.Raw)
    (hd : d₀ = none) (hc : c ≤ f.stream.length) (hl : start ≤ anchor c ps)
    (hidle : historyEnd req s₀ = none → ¬Sated req none s₀ ps → start ≤ c) :
    Delivers f.stream c out final := by
  subst hd
  obtain ⟨q, hchain, -, hend⟩ := h.ended
  have ho : ¬CountsTwice req s₀ := fun h => by simp [CountsTwice, hraw.framing] at h
  have hq := hchain.stop_le hc
  have hadd := hchain.anchor_add_le
  obtain ⟨hqe, -⟩ := hchain.contiguous hl
  cases hend with
  | slice hhist hne hsated hreason hfinal hmeasured hbytes hinside hframes hclean hmatch =>
    refine (hmeasured ho).delivers hchain hl hadd hq ?_ ((hfinal ho).trans hqe)
    rw [List.take_length]
    exact hbytes ho fun hs => hraw.not_shapes hs.2
  | idle hhist hunsated hreason hmatched hfinal hmeasured hbytes hframes hclean =>
    have hsc := hidle hhist hunsated
    have hmax := hchain.max_limit hl
    refine (hmeasured ho).delivers hchain hl hadd hq ?_ ((hfinal ho).trans (by omega))
    rw [List.take_length]
    exact hbytes ho
  | @history n hhist hctx hps hn hfinal hmeasured hbytes hreason hmatched hframes =>
    subst hps
    rw [items_piece] at hadd
    exact hmeasured.delivers hchain hl ((Nat.add_le_add_left hn _).trans hadd) hq
      (hbytes.trans (by rw [items_piece])) hfinal
  | @context n hhist hctx hps hn hfinal hfrom hnext hlost hbytes hreason hmatched hframes =>
    rw [hraw.context] at hctx
    exact absurd hctx Bool.false_ne_true

end

/-! ## Calls one after another -/

/-- Between two operations of a call the ring grows, and nobody else moves the
    cursor. -/
def Alone (w w' : World) : Prop := Rely w w' ∧ w'.readCursor = w.readCursor

theorem Alone.refl (w : World) : Alone w w := ⟨Rely.refl w, rfl⟩

/-- A completed call, with its trace. -/
structure Call where
  req : ReadRequest
  trace : List RxEvent
  outcome : ReadOutcome

/-- What a call reports: the loss, then the bytes. -/
def Call.delivery (call : Call) : ℕ × Bytes := (call.outcome.bytesLost, call.outcome.bytes)

/-- Any number of complete raw reads without `from`, one after another. -/
inductive Calls (crates : Crates) (w₀ : World) : List Call → World → Prop where
  | nil : Calls crates w₀ [] w₀
  | snoc {cs w w' call turns} (h : Calls crates w₀ cs w) (hraw : call.req.Raw)
      (hrun : Runs act Alone w (read crates turns call.req .cursor) call.trace w'
        (.ok call.outcome)) : Calls crates w₀ (cs ++ [call]) w'

section
variable {crates : Crates} {turns : ℕ} {w w' w₀ : World} {call : Call} {cs : List Call}

/-- A complete `read` without `from` is reported from the shared cursor it
    found to the one it leaves. -/
theorem read_reported
    (h : Runs act Alone w (read crates turns call.req .cursor) call.trace w' (.ok call.outcome))
    (hc : w.readCursor ≤ w.feed.ring.endOffset) :
    ∃ d₀ f, buildDecoder crates call.req = .ok d₀ ∧ w.feed.Grows f ∧ f.Grows w'.feed ∧
      entryCursor call.trace = w.readCursor ∧
      Report call.req w.readCursor d₀ (initialSlice call.trace) f (startSeen call.trace)
        (taken call.trace) call.outcome w'.readCursor := by
  obtain ⟨w₁, w₂, w₃, trp, w₄, final, w₅, h₁, h₂, h₃, hp, h₅, rfl, htr⟩ := read_runs h
  obtain ⟨htaken, hseen, hslices⟩ := read_trace _ _ _ _ htr
  have hcur : w₃.readCursor = w.readCursor := h₃.2.trans h₁.2
  have hentry : entryCursor call.trace = w.readCursor := by rw [htr]; exact h₁.2
  have g₃ : w.feed.Grows w₃.feed :=
    (Feed.Grows.trans h₁.1 h₂.1).trans (show w₂.feed.Grows w₃.feed from h₃.1)
  have hp' : Runs act Rely w₃ (readFromPrivateCursor crates turns call.req w₃.readCursor) trp w₄
      (.ok (call.outcome, final)) := hp.mono fun _ _ hR => hR.1
  have g₄ : w₃.feed.Grows w₄.feed :=
    hp'.rely Rely.refl (fun _ _ _ => Rely.trans) (fun op w _ => by
      rw [Rely, act_feed]; exact .refl) (Prog.all_true _)
  rw [hcur] at hp'
  obtain ⟨d₀, hd, hrep⟩ := readFromPrivateCursor_report hp'
    (le_initialSlice hp' (hc.trans g₃.end_le))
  refine ⟨d₀, w₄.feed, hd, g₃.trans g₄, h₅.1, hentry, ?_⟩
  rw [initialSlice, hslices, htaken, hseen]
  exact hrep

/-- **Step**: a call that meets `CallKept` delivers the stream from the cursor it
    found to the cursor it leaves. -/
theorem read_delivers
    (h : Runs act Alone w (read crates turns call.req .cursor) call.trace w' (.ok call.outcome))
    (hraw : call.req.Raw) (hc : w.readCursor ≤ w.feed.ring.endOffset)
    (hk : CallKept call.req call.trace) :
    w.feed.stream <+: w'.feed.stream ∧
      Delivers w'.feed.stream w.readCursor call.outcome w'.readCursor := by
  obtain ⟨d₀, f, hd, hf, hf', hentry, hrep⟩ := read_reported h hc
  rw [CallKept, hentry] at hk
  have hcf : w.readCursor ≤ f.stream.length := by
    rw [← f.refines.stop]
    exact hc.trans hf.end_le
  have hd₀ : d₀ = none := by
    have := buildDecoder_isSome hd
    rw [hraw.framing] at this
    simpa using this
  have hdel := hrep.delivers hraw hd₀ hcf hk.1 hk.2
  have hpre : f.stream <+: w'.feed.stream := hf'.stream
  refine ⟨hf.stream.trans hpre, hdel.final_eq, hdel.final_le.trans hpre.length_le, ?_⟩
  rw [stretch_mono hpre hdel.final_le]
  exact hdel.bytes_eq

/-- **Exactly-once delivery.** In every run of complete raw reads that each meet
    `CallKept`, from a cursor within the stream, the bytes of the calls, each
    behind a gap of the size it reports as lost, spell the stream from the
    first cursor to the last. -/
theorem Calls.spells (h : Calls crates w₀ cs w')
    (hc : w₀.readCursor ≤ w₀.feed.ring.endOffset)
    (hk : ∀ call ∈ cs, CallKept call.req call.trace) :
    Spells w'.feed.stream w₀.readCursor (cs.map Call.delivery) w'.readCursor ∧
      ∃ gaps : List Bytes, gaps.map List.length = cs.map (·.outcome.bytesLost) ∧
        stretch w'.feed.stream w₀.readCursor w'.readCursor =
          (gaps.zipWith (· ++ ·) (cs.map (·.outcome.bytes))).flatten := by
  have key : w₀.feed.stream <+: w'.feed.stream ∧
      Spells w'.feed.stream w₀.readCursor (cs.map Call.delivery) w'.readCursor := by
    induction h with
    | nil => exact ⟨List.prefix_refl _, .nil⟩
    | @snoc cs w w' call turns h hraw hrun ih =>
      obtain ⟨hpre, hsp⟩ := ih fun call' hcall => hk call' (by simp [hcall])
      have hcw : w.readCursor ≤ w.feed.ring.endOffset := by
        rw [w.feed.refines.stop]
        refine hsp.stop_le ?_
        rw [w₀.feed.refines.stop] at hc
        exact hc.trans hpre.length_le
      obtain ⟨hpre', hdel⟩ := read_delivers hrun hraw hcw (hk call (by simp))
      refine ⟨hpre.trans hpre', ?_⟩
      rw [List.map_append, List.map_cons, List.map_nil, hdel.final_eq]
      exact .snoc (hsp.mono hpre') (hdel.final_eq ▸ hdel.final_le)
        (hdel.final_eq ▸ hdel.bytes_eq)
  refine ⟨key.2, ?_⟩
  obtain ⟨gaps, hg, hseg⟩ := key.2.stretch_eq
  refine ⟨gaps, ?_, ?_⟩
  · rw [hg, List.map_map]; rfl
  · rw [hseg, List.map_map]; rfl

end

/-- One more call, executed with nothing happening in between. -/
theorem Calls.run {crates : Crates} {w₀ w : World} {cs : List Call} (h : Calls crates w₀ cs w)
    (turns : ℕ) {req : ReadRequest} (hraw : req.Raw) {out : ReadOutcome}
    (hout : (Interact.run act (read crates turns req .cursor) [] w).2.2 = .ok out) :
    Calls crates w₀
      (cs ++ [⟨req, (Interact.run act (read crates turns req .cursor) [] w).1, out⟩])
      (Interact.run act (read crates turns req .cursor) [] w).2.1 :=
  .snoc h hraw (runs_of_run Alone.refl [] (by simp) hout)

/-- Two calls share three buffered bytes. -/
theorem Calls.spells_two : ∃ cs w', Calls .refusing buffered cs w' ∧
    cs.map Call.delivery = [(0, [111, 107]), (0, [33])] ∧
    Spells w'.feed.stream buffered.readCursor (cs.map Call.delivery) w'.readCursor := by
  have h₁ := (Calls.nil : Calls .refusing buffered [] buffered).run 0
    (⟨rfl, rfl⟩ : ReadRequest.Raw { maxBytes := 2 }) rfl
  have h₂ := h₁.run 0 (⟨rfl, rfl⟩ : ReadRequest.Raw { maxBytes := 8 }) rfl
  refine ⟨_, _, h₂, rfl, (h₂.spells (Nat.zero_le _) ?_).1⟩
  intro call hcall
  rcases List.mem_append.1 hcall with hcall | hcall
  · rw [List.mem_singleton.1 hcall]
    exact ⟨Nat.zero_le _, fun _ _ => Nat.zero_le _⟩
  · rw [List.mem_singleton.1 hcall]
    exact ⟨Nat.zero_le _, fun _ _ => Nat.zero_le _⟩

/-- Six bytes in a ring of four: the cursor has fallen behind. -/
def wrapped : World := .opened (Feed.four.push [97, 98, 99, 100, 101, 102])

/-- A read that waits for `"ok"` and times out at once. -/
def impatient : ReadRequest where
  maxBytes := 8
  timeoutMs := some 0
  matcher := some (.new (.literal okMarker) none)

/-- A call that starts behind the ring and times out returns the four retained
    bytes, reports two as lost, and leaves the cursor at 4: the next call
    returns two of the bytes again. -/
theorem Calls.not_spells : ¬∀ (crates : Crates) (w₀ w' : World) (cs : List Call),
    Calls crates w₀ cs w' → w₀.readCursor ≤ w₀.feed.ring.endOffset →
    Spells w'.feed.stream w₀.readCursor (cs.map Call.delivery) w'.readCursor := by
  intro h
  have h₁ := (Calls.nil : Calls .refusing wrapped [] wrapped).run 1
    (⟨rfl, rfl⟩ : impatient.Raw) rfl
  have h₂ := h₁.run 0 (⟨rfl, rfl⟩ : ReadRequest.Raw { maxBytes := 8 }) rfl
  have hsum := (h _ _ _ _ h₂ (Nat.zero_le _)).stop_eq
  exact absurd hsum (by decide)

end SerialMcp
