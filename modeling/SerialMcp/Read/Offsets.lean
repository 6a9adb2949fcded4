/-
  The stream offsets and the loss a private read reports.

  * `Coherent`: the reported offsets agree with the final cursor, the bytes
    consumed and the payload.  They do exactly when the ring has not wrapped
    past the bytes taken and no match was found in the history without
    context (`coherent_iff`).
  * `LossExact`: `bytes_lost` is the number of stream bytes before the final
    cursor that the read did not take (`lossExact_iff`).
-/
import SerialMcp.Read.Report

namespace SerialMcp

open Interact RxOp Cuts

section
variable (req : ReadRequest) (c : ℕ) (s₀ : RingSlice)

/-- The payload is shaped by the match context or replaced by frame data. -/
def Replaced (out : ReadOutcome) : Prop :=
  out.matched = true ∧ if (historyEnd req s₀).isSome then req.hasContext = true
    else Shapes req.matcher req.framing.isSome

/-- The offsets of an outcome, if it carries them, agree with the final cursor,
    the stream and the pieces taken. -/
def Coherent (S : Bytes) (ps : List (Piece UInt8)) (out : ReadOutcome) (final : ℕ) : Prop :=
  ∀ a b, out.fromOffset = some a → out.nextOffset = some b →
    (a ≤ b ∧ b ≤ out.endOffset) ∧ b = final ∧ b - a = countBelow final ps ∧
      (¬Replaced req s₀ out → out.bytes = stretch S a b)

/-- `bytes_lost` is the number of stream bytes between the cursor and the final
    cursor that the read did not take; it is 0 exactly when there is none. -/
def LossExact (ps : List (Piece UInt8)) (out : ReadOutcome) (final : ℕ) : Prop :=
  out.bytesLost = (missed c final ps).card ∧
    (out.bytesLost = 0 ↔ ∀ o, c ≤ o → o < final → ∃ p ∈ ps, p.Covers o)

variable (d₀ : Option FrameDecoder)

/-- No history match without context, and the ring has not wrapped past what
    the read took: past the cursor, if the bytes taken did not meet the request
    and the read ended on its clock, its token, its connection or its size. -/
def OffsetsKept (start : ℕ) (ps : List (Piece UInt8)) : Prop :=
  match historyEnd req s₀ with
  | some n => req.hasContext = true ∨ n = 0
  | none => (¬Sated req d₀ s₀ ps → ps = [] ∨ start ≤ c) ∧
      (Sated req d₀ s₀ ps → start ≤ anchor c ps)

/-- The ring has not wrapped past what the read took, nor past the final
    cursor if the bytes taken did not meet the request. -/
def LossKept (start : ℕ) (ps : List (Piece UInt8)) : Prop :=
  (historyEnd req s₀).isSome = true ∧ req.hasContext = true ∨
    start ≤ anchor c ps ∧
      (historyEnd req s₀ = none → ¬Sated req d₀ s₀ ps → start ≤ c + (items ps).length)

end

section
variable {req : ReadRequest} {c : ℕ} {d₀ : Option FrameDecoder} {s₀ : RingSlice} {f : Feed}
  {start q : ℕ} {ps : List (Piece UInt8)} {out : ReadOutcome} {final : ℕ}

theorem Measured.coherent_of_le (hm : Measured c start (items ps).length (items ps).length out)
    (hchain : Chain f.stream start c ps q) (hq : q ≤ out.endOffset) (hl : start ≤ anchor c ps)
    (hbytes : ¬Replaced req s₀ out → out.bytes = items ps) :
    Coherent req s₀ f.stream ps out q := by
  intro a b ha hb
  obtain ⟨hqe, hseg⟩ := hchain.contiguous hl
  have hmax := hchain.max_limit hl
  have hcount : countBelow q ps = (items ps).length :=
    countBelow_eq fun p hp => hchain.piece_stop_le hp
  rw [hm.fromOffset] at ha
  rw [hm.nextOffset] at hb
  by_cases h0 : (items ps).length = 0
  · simp [h0] at ha
  · rw [if_neg h0, Option.some.injEq, hmax] at ha hb
    subst ha
    obtain rfl : b = q := by omega
    exact ⟨⟨by omega, hq⟩, rfl, by omega, fun hr => (hbytes hr).trans hseg⟩

theorem Measured.final_eq {n used : ℕ} (hm : Measured c start n used out) (hn : n ≠ 0)
    (h : Coherent req s₀ f.stream ps out final) : max c start + used = final := by
  have ha := hm.fromOffset
  have hb := hm.nextOffset
  rw [if_neg hn] at ha hb
  exact (h _ _ ha hb).2.1

theorem countBelow_piece {n : ℕ} (hn : n ≤ s₀.bytes.length) :
    countBelow (s₀.fromOffset + n) [s₀.piece] = n := by
  simp only [countBelow, RingSlice.piece, List.map_cons, List.map_nil, List.sum_cons,
    List.sum_nil]
  omega

/-- **When the offsets of a read are coherent.** -/
theorem Report.coherent_iff (h : Report req c d₀ s₀ f start ps out final)
    (hd : d₀.isSome = req.framing.isSome) (ho : ¬CountsTwice req s₀) :
    Coherent req s₀ f.stream ps out final ↔ OffsetsKept req c s₀ d₀ start ps := by
  obtain ⟨q, hchain, hq, hend⟩ := h.ended
  cases hend with
  | slice hhist hne hsated hreason hfinal hmeasured hbytes hinside hframes hclean hmatch =>
    have hpos := hchain.items_pos hne
    simp only [OffsetsKept, hhist, hsated, not_true_eq_false, false_implies, true_implies, true_and]
    obtain rfl := hfinal ho
    constructor
    · intro hc
      by_contra hlt
      have h₁ := (hmeasured ho).final_eq (by omega) hc
      have h₂ := hchain.lt_limit_add hne (by omega)
      omega
    · intro hl
      refine (hmeasured ho).coherent_of_le hchain hq hl fun hr => hbytes ho fun hs => hr ⟨hs.1, ?_⟩
      rw [hhist, ← hd]
      exact hs.2
  | idle hhist hunsated hreason hmatched hfinal hmeasured hbytes hframes hclean =>
    simp only [OffsetsKept, hhist, hunsated, not_false_iff, true_implies, false_implies, and_true]
    obtain rfl := hfinal ho
    constructor
    · intro hc
      by_contra hlt
      push Not at hlt
      have hpos := hchain.items_pos hlt.1
      have := (hmeasured ho).final_eq (by omega) hc
      omega
    · rintro (rfl | hl)
      · intro a b ha
        rw [(hmeasured ho).fromOffset] at ha
        simp at ha
      · have hanchor : start ≤ anchor c ps := hl.trans hchain.anchor_resumes.le
        have hmax := hchain.max_limit hanchor
        obtain ⟨hqe, -⟩ := hchain.contiguous hanchor
        obtain rfl : q = c + (items ps).length := by omega
        exact (hmeasured ho).coherent_of_le hchain hq hanchor fun _ => hbytes ho
  | @history n hhist hctx hps hn hfinal hmeasured hbytes hreason hmatched hframes =>
    simp only [OffsetsKept, hhist, hctx, Bool.false_eq_true, false_or]
    subst hps hfinal
    constructor
    · intro hc
      by_contra h0
      have ha := hmeasured.fromOffset
      have hb := hmeasured.nextOffset
      rw [if_neg h0] at ha hb
      -- the accumulator counted nothing, but the cursor moves past the match
      have hcount := (hc _ _ ha hb).2.2.1
      rw [countBelow_piece hn] at hcount
      omega
    · rintro rfl a b ha
      rw [hmeasured.fromOffset] at ha
      simp at ha
  | @context n hhist hctx hps hn hfinal hfrom hnext hlost hbytes hreason hmatched hframes =>
    simp only [OffsetsKept, hhist, hctx, true_or, iff_true]
    subst hps hfinal
    intro a b ha hb
    rw [hfrom, Option.some.injEq] at ha
    rw [hnext, Option.some.injEq] at hb
    subst ha hb
    have hstop : s₀.piece.stop ≤ q := hchain.piece_stop_le (List.mem_singleton_self _)
    simp only [Piece.stop, RingSlice.piece] at hstop
    refine ⟨⟨by omega, by omega⟩, rfl, ?_, fun hr => absurd ⟨hmatched, ?_⟩ hr⟩
    · rw [countBelow_piece hn]; omega
    · simp [hhist, hctx]

/-! ## Loss -/

theorem lossExact_iff_card :
    LossExact c ps out final ↔ out.bytesLost = (missed c final ps).card := by
  refine ⟨fun h => h.1, fun h => ⟨h, ?_⟩⟩
  rw [h, missed_card_eq_zero]

/-- Loss measured by the start offset is exact if the ring has not wrapped past
    the first piece, nor past the final cursor. -/
theorem Measured.lossExact_iff {n used : ℕ} (hm : Measured c start n used out)
    (hchain : Chain f.stream start c ps q) (hf : final ≤ q) :
    LossExact c ps out final ↔ start ≤ anchor c ps ∧ start ≤ max c final := by
  have ha := hchain.anchor_resumes
  rw [lossExact_iff_card, hm.lost]
  rcases Nat.lt_or_ge (anchor c ps) start with hlt | hge
  · rcases eq_or_ne ps [] with rfl | hne
    · obtain rfl := hchain.stop_of_nil rfl
      have hempty : (missed q final ([] : List (Piece UInt8))).card = 0 := by
        rw [missed_card_eq_zero]
        intro o h₁ h₂
        omega
      rw [hempty]
      simp only [anchor_nil] at hlt ⊢
      omega
    · have := hchain.missed_card_lt hne hlt hf
      omega
  · rw [hchain.missed_card hge hf]
    rcases ha with ha | ha <;> omega

/-- **When the loss of a read is exact.** -/
theorem Report.lossExact_iff (h : Report req c d₀ s₀ f start ps out final)
    (ho : ¬CountsTwice req s₀) :
    LossExact c ps out final ↔ LossKept req c s₀ d₀ start ps := by
  obtain ⟨q, hchain, hq, hend⟩ := h.ended
  have hle := hchain.anchor_add_le
  have hanchor := hchain.anchor_resumes.le
  cases hend with
  | slice hhist hne hsated hreason hfinal hmeasured hbytes hinside hframes hclean hmatch =>
    obtain rfl := hfinal ho
    rw [(hmeasured ho).lossExact_iff hchain (Nat.le_refl _)]
    simp only [LossKept, hhist, hsated, Option.isSome_none, Bool.false_eq_true, false_and,
      false_or, not_true_eq_false, false_implies, implies_true, and_true]
    omega
  | idle hhist hunsated hreason hmatched hfinal hmeasured hbytes hframes hclean =>
    obtain rfl := hfinal ho
    rw [(hmeasured ho).lossExact_iff hchain (by omega)]
    simp only [LossKept, hhist, hunsated, Option.isSome_none, Bool.false_eq_true, false_and,
      false_or, not_false_iff, true_implies]
    omega
  | @history n hhist hctx hps hn hfinal hmeasured hbytes hreason hmatched hframes =>
    subst hps hfinal
    have hstop : s₀.piece.stop ≤ q := hchain.piece_stop_le (List.mem_singleton_self _)
    simp only [Piece.stop, RingSlice.piece] at hstop
    rw [hmeasured.lossExact_iff hchain (by omega)]
    simp only [LossKept, hhist, hctx, Bool.false_eq_true, and_false, false_or, reduceCtorEq,
      false_implies, and_true, anchor_cons, RingSlice.piece]
    omega
  | @context n hhist hctx hps hn hfinal hfrom hnext hlost hbytes hreason hmatched hframes =>
    subst hps hfinal
    simp only [LossKept, hhist, hctx, Option.isSome_some, true_and, true_or, iff_true]
    have hself := hchain.single_self
    rw [lossExact_iff_card, hlost,
      hself.missed_card (Nat.le_refl _) (Nat.add_le_add_left hn s₀.fromOffset)]
    simp only [anchor_cons, RingSlice.piece]
    omega

end

/-! ## Runs -/

section
variable (crates : Crates) (req : ReadRequest) (c : ℕ) (tr : List RxEvent)

/-- When a run reports coherent offsets: its cursor is not beyond the end, the
    initial bytes are counted once, and `OffsetsKept`. -/
def OffsetsHold : Prop :=
  c ≤ (initialSlice tr).fromOffset ∧ ¬CountsTwice req (initialSlice tr) ∧
    ∀ d₀, buildDecoder crates req = .ok d₀ →
      OffsetsKept req c (initialSlice tr) d₀ (startSeen tr) (taken tr)

/-- When a run reports its loss exactly. -/
def LossHolds : Prop :=
  ¬CountsTwice req (initialSlice tr) ∧ ∀ d₀, buildDecoder crates req = .ok d₀ →
    LossKept req c (initialSlice tr) d₀ (startSeen tr) (taken tr)

end

/-- Three bytes already received. -/
def buffered : World := .opened (Feed.four.push [111, 107, 33])

/-- `"ok"` -/
def okMarker : Marker := ⟨[111, 107], by simp⟩

section
variable {crates : Crates} {turns : ℕ} {req : ReadRequest} {c : ℕ} {w w' : World}
  {tr : List RxEvent} {out : ReadOutcome} {final : ℕ}

/-- **Coherent offsets.** A completed read that meets `OffsetsHold` reports
    offsets that agree with its final cursor, the bytes it consumed and its
    payload; and every read that does, from a cursor within the stream and with
    its initial bytes counted once, meets `OffsetsHold`. -/
theorem readFromPrivateCursor_coherent
    (h : Runs act Rely w (readFromPrivateCursor crates turns req c) tr w' (.ok (out, final))) :
    (OffsetsHold crates req c tr →
      Coherent req (initialSlice tr) w'.feed.stream (taken tr) out final) ∧
    (c ≤ (initialSlice tr).fromOffset → ¬CountsTwice req (initialSlice tr) →
      Coherent req (initialSlice tr) w'.feed.stream (taken tr) out final →
      OffsetsHold crates req c tr) := by
  have key (hc : c ≤ (initialSlice tr).fromOffset) (ho : ¬CountsTwice req (initialSlice tr)) :
      ∃ d₀, buildDecoder crates req = .ok d₀ ∧
        (Coherent req (initialSlice tr) w'.feed.stream (taken tr) out final ↔
          OffsetsKept req c (initialSlice tr) d₀ (startSeen tr) (taken tr)) := by
    obtain ⟨d₀, hd, hrep⟩ := readFromPrivateCursor_report h hc
    exact ⟨d₀, hd, hrep.coherent_iff (buildDecoder_isSome hd) ho⟩
  constructor
  · rintro ⟨hc, ho, hk⟩
    obtain ⟨d₀, hd, hiff⟩ := key hc ho
    exact hiff.2 (hk d₀ hd)
  · intro hc ho hcoh
    obtain ⟨d₀, hd, hiff⟩ := key hc ho
    refine ⟨hc, ho, fun d₁ hd₁ => ?_⟩
    obtain rfl := Except.ok.inj (hd.symm.trans hd₁)
    exact hiff.1 hcoh

end

theorem readFromPrivateCursor_coherent_cat :
    ∃ tr w' out final, Runs act Rely buffered
        (readFromPrivateCursor .refusing 0 { maxBytes := 2 } 0) tr w' (.ok (out, final)) ∧
      out.fromOffset = some 0 ∧ out.nextOffset = some 2 ∧
      Coherent { maxBytes := 2 } (initialSlice tr) w'.feed.stream (taken tr) out final := by
  refine ⟨_, _, _, _, runs_of_run Rely.refl [] (by simp) rfl, rfl, rfl, ?_⟩
  refine (readFromPrivateCursor_coherent (runs_of_run Rely.refl [] (by simp) rfl)).1 ?_
  refine ⟨Nat.zero_le _, fun h => absurd h.2.1 (by decide), fun d₀ hd => ⟨fun h => ?_, fun _ => ?_⟩⟩
  · obtain rfl := Except.ok.inj hd
    exact absurd (.inl ⟨by decide, rfl, rfl⟩) h
  · exact Nat.zero_le _

/-- A literal found in the history without context: the cursor moves past the
    match, the reported offsets do not. -/
theorem readFromPrivateCursor_not_coherent :
    ¬∀ (crates : Crates) (turns : ℕ) (req : ReadRequest) (c : ℕ) (w : World) (tr : List RxEvent)
        (w' : World) (out : ReadOutcome) (final : ℕ),
      Runs act Rely w (readFromPrivateCursor crates turns req c) tr w' (.ok (out, final)) →
      Coherent req (initialSlice tr) w'.feed.stream (taken tr) out final := by
  intro h
  have := h .refusing 0 { maxBytes := 8, matcher := some (.new (.literal okMarker) none) } 0 buffered
    _ _ _ _ (runs_of_run Rely.refl [] (by simp) rfl) 0 0 rfl rfl
  exact absurd this.2.1 (by decide)

section
variable {crates : Crates} {turns : ℕ} {req : ReadRequest} {c : ℕ} {w w' : World}
  {tr : List RxEvent} {out : ReadOutcome} {final : ℕ}

/-- **Exact loss.** From a cursor within the stream, a completed read that meets
    `LossHolds` reports as lost exactly the bytes before its final cursor that
    it did not take; and every read that does, with its initial bytes counted
    once, meets `LossHolds`. -/
theorem readFromPrivateCursor_lossExact
    (h : Runs act Rely w (readFromPrivateCursor crates turns req c) tr w' (.ok (out, final)))
    (hc : c ≤ w.feed.ring.endOffset) :
    (LossHolds crates req c tr → LossExact c (taken tr) out final) ∧
    (¬CountsTwice req (initialSlice tr) → LossExact c (taken tr) out final →
      LossHolds crates req c tr) := by
  obtain ⟨d₀, hd, hrep⟩ := readFromPrivateCursor_report h (le_initialSlice h hc)
  have key (ho : ¬CountsTwice req (initialSlice tr)) := hrep.lossExact_iff ho
  constructor
  · rintro ⟨ho, hk⟩
    exact (key ho).2 (hk d₀ hd)
  · intro ho hloss
    refine ⟨ho, fun d₁ hd₁ => ?_⟩
    obtain rfl := Except.ok.inj (hd.symm.trans hd₁)
    exact (key ho).1 hloss

end

/-- A cursor that the ring has left behind before the call. -/
theorem readFromPrivateCursor_lossExact_behind :
    ∃ tr w' out final, Runs act Rely (buffered.receive [97, 98])
        (readFromPrivateCursor .refusing 0 { maxBytes := 8 } 0) tr w' (.ok (out, final)) ∧
      out.bytesLost = 1 ∧ LossExact 0 (taken tr) out final := by
  refine ⟨_, _, _, _, runs_of_run Rely.refl [] (by simp) rfl, rfl, ?_⟩
  refine (readFromPrivateCursor_lossExact (runs_of_run Rely.refl [] (by simp) rfl) (Nat.zero_le _)).1 ?_
  refine ⟨fun h => absurd h.2.1 (by decide), fun d₀ hd => .inr ⟨by decide, fun _ h => ?_⟩⟩
  obtain rfl := Except.ok.inj hd
  exact absurd (.inl ⟨by decide, rfl, rfl⟩) h

/-- Bytes that wrap the ring after the slice was taken are counted as lost,
    though the read delivered everything before its final cursor. -/
theorem readFromPrivateCursor_not_lossExact :
    ¬∀ (crates : Crates) (turns : ℕ) (req : ReadRequest) (c : ℕ) (w : World) (tr : List RxEvent)
        (w' : World) (out : ReadOutcome) (final : ℕ),
      Runs act Rely w (readFromPrivateCursor crates turns req c) tr w' (.ok (out, final)) →
      c ≤ w.feed.ring.endOffset → LossExact c (taken tr) out final := by
  intro h
  have := h .refusing 0 { maxBytes := 8 } 0 buffered _ _ _ _
    (runs_of_run Rely.refl _ (arrival_rely [97, 98, 99]) rfl) (Nat.zero_le _)
  exact absurd this.1 (by decide)

end SerialMcp
