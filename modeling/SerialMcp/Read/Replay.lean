/-
  Replayed and live bytes in a framed read.

  * `chunkVerdict`: how the frames of a chunk end a read, if they do.
  * `Fed` and `Fed.decides`: a driver that decodes its first bytes ends by this
    verdict or goes on.
  * `replayed_wp`, `live_wp`: what a read reports that finds its bytes buffered,
    and one that receives them as one live chunk.
  * `replay_agrees`: the two report the same, and only matches in a single
    frame, exactly when no match shows in the raw bytes alone and bytes that
    fill `max_bytes` stop the read by their frames.
-/
import SerialMcp.Read.Turns

namespace SerialMcp

open Interact RxOp Cuts

/-! ## How the frames of a chunk end a read -/

/-- What a read says about its end. -/
structure Verdict where
  reason : RxStopReason
  matched : Bool
  matchIndex : Option ℕ
  matchFrameIndex : Option ℕ
  deriving DecidableEq

def ReadOutcome.verdict (out : ReadOutcome) : Verdict :=
  ⟨out.metadata.stopReason, out.matched, out.matchIndex, out.matchFrameIndex⟩

def ReadCompletion.verdict (compl : ReadCompletion) : Verdict :=
  ⟨compl.metadata.stopReason, compl.matched, compl.matchIndex, compl.matchFrameIndex⟩

/-- A stop without a match. -/
def Verdict.unmatched (reason : RxStopReason) : Verdict := ⟨reason, false, none, none⟩

/-- The verdict of the frames that the decoder `d` makes of the first bytes. -/
def chunkVerdict (req : ReadRequest) (d : FrameDecoder) (s : Bytes) : Option Verdict :=
  match firstMatch req.matcher (d.push s).1.frames, (d.push s).1.error with
  | some (frame, idx), _ => some ⟨.matchFound, true, some idx, some frame.index⟩
  | none, some _ => some (.unmatched .framingError)
  | none, none =>
    if (req.framing.bind (·.maxFrames)).any (· ≤ (d.push s).1.frames.length) then
      some (.unmatched .maxFrames)
    else none

section
variable {req : ReadRequest} {c : ℕ} {d : FrameDecoder} {s : Bytes} {drv drv' : ReadDriver}
  {compl : ReadCompletion} {out : ReadOutcome} {final : ℕ}

theorem Passes.verdict (h : Passes drv compl out final) : out.verdict = compl.verdict := by
  simp only [ReadOutcome.verdict, ReadCompletion.verdict, h.metadata, h.matched, h.matchIndex,
    h.matchFrameIndex]

theorem chunkVerdict_isSome : (chunkVerdict req d s).isSome = true ↔
    FrameStop req.matcher (req.framing.bind (·.maxFrames)) 0 d s := by
  simp only [chunkVerdict, FrameStop, Nat.zero_add]
  rcases firstMatch req.matcher (d.push s).1.frames with _ | ⟨frame, idx⟩
  · rcases (d.push s).1.error with _ | e
    · simp
    · simp
  · simp

/-- A match is a match of a single frame. -/
theorem chunkVerdict_matched {v : Verdict} (h : chunkVerdict req d s = some v)
    (hm : v.matched = true) : ∃ frame ∈ (d.push s).1.frames, ∃ idx,
      (matchFrame req.matcher frame).1 = some idx ∧ v.matchIndex = some idx ∧
        v.matchFrameIndex = some frame.index := by
  have hun {reason : RxStopReason} (hv : Verdict.unmatched reason = v) : False := by
    rw [← hv] at hm
    exact Bool.false_ne_true hm
  simp only [chunkVerdict] at h
  rcases hf : firstMatch req.matcher (d.push s).1.frames with _ | ⟨frame, idx⟩
  · rcases he : (d.push s).1.error with _ | e
    · simp only [hf, he, Option.ite_none_right_eq_some, Option.some.injEq] at h
      exact (hun h.2).elim
    · simp only [hf, he, Option.some.injEq] at h
      exact (hun h).elim
  · simp only [hf, Option.some.injEq] at h
    obtain ⟨fr, hfr, hv⟩ := List.exists_of_findSome?_eq_some hf
    obtain ⟨i, hi, hpair⟩ := Option.map_eq_some_iff.1 hv
    obtain ⟨rfl, rfl⟩ := Prod.mk.inj hpair
    subst h
    exact ⟨fr, hfr, i, hi, rfl, rfl⟩

/-! ## The first bytes of a framed read -/

/-- A framed read that has decoded nothing yet. -/
structure Fed (req : ReadRequest) (c : ℕ) (d : FrameDecoder) (drv : ReadDriver) : Prop
    extends Starting req c (some d) drv where
  framesDropped : drv.acc.framesDropped = 0

/-- What the first bytes leave of the driver. -/
structure Leaves (d : FrameDecoder) (s : Bytes) (drv drv' : ReadDriver) : Prop
    extends Decided drv s drv' where
  framesDropped : drv'.acc.framesDropped = drv.acc.framesDropped + (d.push s).1.framesDropped
  ctrl : drv'.ctrl = drv.ctrl

/-- What the first bytes decide. -/
inductive Decides (req : ReadRequest) (d : FrameDecoder) (s : Bytes) (drv : ReadDriver) :
    ChunkDecision → Prop where
  | goesOn {drv' : ReadDriver} (hverdict : chunkVerdict req d s = none)
      (h : Leaves d s drv drv') : Decides req d s drv (.continue drv')
  | halts {drv' : ReadDriver} {completion : ℕ → ReadCompletion} {v : Verdict}
      (hverdict : chunkVerdict req d s = some v) (h : Leaves d s drv drv')
      (hcompl : ∀ n, (completion n).verdict = v ∧ (completion n).finalCursor = n) :
      Decides req d s drv (.stop drv' completion)

/-- What a chunk leaves, whatever it decides. -/
theorem framedDecision_leaves (hdec : drv.decoder = some d) (s : Bytes) :
    match framedDecision drv d s with
    | .continue drv' => Leaves d s drv drv'
    | .stop drv' _ => Leaves d s drv drv' := by
  have hch : Chunked drv s (framedDecision drv d s) := framedDecision_chunked hdec
  simp only [framedDecision, processFramedChunk_eq] at hch ⊢
  split at hch
  · cases hch with
    | goesOn hd => exact ⟨hd, rfl, rfl⟩
  · cases hch with
    | halts hd => exact ⟨hd, rfl, rfl⟩
  · cases hch with
    | halts hd => exact ⟨hd, rfl, rfl⟩

/-- **The first bytes of a framed read end it by the verdict on their frames.** -/
theorem Fed.decides (h : Fed req c d drv) (s : Bytes) :
    Decides req d s drv (framedDecision drv d s) := by
  have hleaves := framedDecision_leaves h.decoder s
  have hfirst := firstMatch_congr h.matcher (d.push s).1.frames
  simp only [framedDecision, processFramedChunk_eq, framedVerdict, h.maxFrames, h.framesSeen,
    Nat.zero_add, hfirst] at hleaves ⊢
  rcases hm : firstMatch req.matcher (d.push s).1.frames with _ | ⟨frame, idx⟩
  · rcases he : (d.push s).1.error with _ | e
    · by_cases hmax : (req.framing.bind (·.maxFrames)).any
          (· ≤ (d.push s).1.frames.length) = true
      · simp only [hm, he, hmax, if_true] at hleaves ⊢
        exact .halts (v := .unmatched .maxFrames) (by simp only [chunkVerdict, hm, he, hmax, if_true])
          hleaves fun _ => ⟨rfl, rfl⟩
      · simp only [hm, he, hmax, if_false, Bool.false_eq_true] at hleaves ⊢
        exact .goesOn (by simp only [chunkVerdict, hm, he, hmax, if_false, Bool.false_eq_true]) hleaves
    · simp only [hm, he] at hleaves ⊢
      exact .halts (v := .unmatched .framingError) (by simp only [chunkVerdict, hm, he]) hleaves
        fun _ => ⟨rfl, rfl⟩
  · simp only [hm] at hleaves ⊢
    exact .halts (v := ⟨.matchFound, true, some idx, some frame.index⟩)
      (by simp only [chunkVerdict, hm]) hleaves fun _ => ⟨rfl, rfl⟩

theorem Fed.frames_after (h : Fed req c d drv) (hl : Leaves d s drv drv') :
    drv'.acc.frames = (d.push s).1.frames ∧
      drv'.acc.framesDropped = (d.push s).1.framesDropped := by
  rw [hl.frames, hl.framesDropped, h.frames, h.framesDropped, h.decoder]
  exact ⟨rfl, Nat.zero_add _⟩

/-- The matcher has seen the initial bytes: they are counted once before they
    are decoded, and so twice. -/
def Counts (req : ReadRequest) (n : ℕ) (drv : ReadDriver) : Prop :=
  drv.acc.consumedOffset = n ∨ req.matcher ≠ none ∧ drv.acc.consumedOffset = 2 * n

/-- How the initial phase of a framed read ends in which the raw bytes hold no
    match. -/
inductive InitialEnd (req : ReadRequest) (c : ℕ) (d : FrameDecoder) (s₀ : RingSlice) (w : World)
    (tr : List RxEvent) (w' : World) : InitialDecision → Prop where
  | goesOn {drv drv' : ReadDriver} (hfed : Fed req c d drv) (hcount : Counts req s₀.bytes.length drv)
      (hdecides : Decides req d s₀.bytes drv (.continue drv')) (hquiet : Quiet w tr w') :
      InitialEnd req c d s₀ w tr w' (.continue drv')
  | halts {drv drv' : ReadDriver} {completion : ℕ → ReadCompletion} {e : ℕ}
      (hfed : Fed req c d drv) (hcount : Counts req s₀.bytes.length drv)
      (hdecides : Decides req d s₀.bytes drv (.stop drv' completion)) (hquiet : Quiet w tr w')
      (hend : EndSeen w.feed.ring.endOffset w' e) :
      InitialEnd req c d s₀ w tr w'
        (.completion drv' (completion (min (wrappingAdd s₀.fromOffset drv'.acc.consumedOffset) e)))

variable {s₀ : RingSlice} {w : World}

theorem InitialEnd.after {w₁ w' : World} {tr tr' : List RxEvent} {decision : InitialDecision}
    (hq : Quiet w tr w₁) (h : InitialEnd req c d s₀ w₁ tr' w' decision) :
    InitialEnd req c d s₀ w (tr ++ tr') w' decision := by
  cases h with
  | goesOn hfed hcount hdecides hquiet => exact .goesOn hfed hcount hdecides (hq.trans hquiet)
  | halts hfed hcount hdecides hquiet hend =>
    exact .halts hfed hcount hdecides (hq.trans hquiet)
      ⟨(Feed.Grows.end_le hq.rely).trans hend.1, hend.2⟩

theorem Fed.framedInitial_wp (h : Fed req c d drv) (hne : s₀.bytes ≠ [])
    (hlen : s₀.bytes.length ≤ req.maxBytes)
    (hcount : Counts req s₀.bytes.length (drv.absorbInitial s₀.bytes)) :
    wp act Rely (framedInitial drv s₀) (InitialEnd req c d s₀ w) w := by
  have hempty : s₀.bytes.isEmpty = false := by simpa using hne
  have hchunk : s₀.bytes.take drv.maxBytes = s₀.bytes :=
    List.take_of_length_le (h.maxBytes ▸ hlen)
  have hfed : Fed req c d (drv.absorbInitial s₀.bytes) :=
    { h with }
  have hdecides := hfed.decides s₀.bytes
  simp only [framedInitial, h.decoder, hempty, hchunk]
  rcases hd : framedDecision (drv.absorbInitial s₀.bytes) d s₀.bytes with drv' | ⟨drv', completion⟩
  · rw [hd] at hdecides
    exact .goesOn hfed hcount hdecides (Quiet.refl w)
  · rw [hd] at hdecides
    intro w₁ h₁
    exact .halts hfed hcount hdecides ⟨h₁, rfl, rfl⟩ ⟨Feed.Grows.end_le h₁, Nat.le_refl _⟩

/-- The initial phase, if the raw bytes hold no match. -/
theorem processInitial_framed (hne : s₀.bytes ≠ []) (hlen : s₀.bytes.length ≤ req.maxBytes)
    (hframing : req.framing.isSome = true)
    (hno : ∀ m ∈ req.matcher, (m.pushBounded s₀.bytes req.maxBytes).1 = .noMatch) (t : ℕ) :
    wp act Rely (processInitial (req.driver c t (some d)) s₀) (fun tr w' r => ∀ decision,
      r = .ok decision → InitialEnd req c d s₀ w tr w' decision) w := by
  have hst : Starting req c (some d) (req.driver c t (some d)) :=
    ReadRequest.starting (by rw [hframing]; rfl) c t
  have hok {p : RxProg InitialDecision} {w₁ : World} {tr : List RxEvent} (hq : Quiet w tr w₁)
      (h : wp act Rely p (InitialEnd req c d s₀ w₁) w₁) :
      wp act Rely (do let decision ← p; pure (Except.ok decision))
        (fun tr' w' (r : Except Stuck InitialDecision) => ∀ decision, r = .ok decision →
          InitialEnd req c d s₀ w (tr ++ tr') w' decision) w₁ := by
    refine wp_seq h ?_
    rintro tr' w' decision hdec
    rw [wp_pure, List.append_nil]
    rintro _ ⟨⟩
    exact hdec.after hq
  have htake : s₀.bytes.take req.maxBytes = s₀.bytes := List.take_of_length_le hlen
  rw [processInitial_path, if_neg hne]
  rcases hm : req.matcher with _ | m
  · rw [show (req.driver c t (some d)).matcher = none from hm]
    refine hok (Quiet.refl w) (Fed.framedInitial_wp ⟨hst, rfl⟩ hne hlen (.inl ?_))
    exact Nat.zero_add _
  · rw [show (req.driver c t (some d)).matcher = some m from hm]
    simp only [show (req.driver c t (some d)).maxBytes = req.maxBytes from rfl, htake,
      hno m hm, Prog.perform_bind]
    intro w₁ h₁
    have hreset : (some (m.pushBounded s₀.bytes req.maxBytes).2).map Matcher.resetWindow =
        req.matcher.map Matcher.resetWindow := by
      rw [hm]
      exact congrArg some (Matcher.resetWindow_pushBounded m s₀.bytes req.maxBytes)
    refine hok ((Quiet.refl _).cons .now trivial h₁ _) (Fed.framedInitial_wp ⟨?_, rfl⟩ hne hlen
      (.inr ⟨by simp [hm], (Nat.two_mul _).symm⟩))
    exact ⟨hst.framing, rfl, rfl, rfl, hreset, rfl, rfl, rfl,
      (hst.unmatched.resetSilenceTimer _).pushData _ _⟩

/-! ## What the two reads report -/

/-- The frames of `s` and their verdict, or a stop without a match for the
    given reason. -/
structure Tells (req : ReadRequest) (d : FrameDecoder) (s : Bytes) (reason : RxStopReason)
    (out : ReadOutcome) : Prop where
  frames : out.frames = (d.push s).1.frames
  framesDropped : out.framesDropped = (d.push s).1.framesDropped
  verdict : out.verdict = (chunkVerdict req d s).getD (.unmatched reason)

theorem cursor_clamped {n k e : ℕ} (he : e = c + n) (hlt : e < u64Size)
    (hk : k = n ∨ k = 2 * n ∧ c + 2 * n < u64Size) :
    min (wrappingAdd c k) e = c + n ∧ min (saturatingAdd c k) e = c + n := by
  have hle : c + k < u64Size := by rcases hk with rfl | ⟨rfl, hk⟩ <;> omega
  rw [wrappingAdd_eq hle, saturatingAdd_eq hle]
  rcases hk with rfl | ⟨rfl, -⟩ <;> omega

theorem Counts.clamps {n k : ℕ} (h : Counts req n drv) (hk : k = drv.acc.consumedOffset)
    (hfits : req.matcher = none ∨ c + 2 * n < u64Size) :
    k = n ∨ k = 2 * n ∧ c + 2 * n < u64Size := by
  rcases h with h | ⟨hm, h⟩
  · exact .inl (hk.trans h)
  · exact .inr ⟨hk.trans h, hfits.resolve_left hm⟩

theorem IdleEnd.verdict {lo n : ℕ} {w' : World} (h : IdleEnd drv lo w' drv' compl)
    (hun : drv.ctrl.Unmatched n) : compl.verdict = .unmatched compl.metadata.stopReason := by
  simp only [ReadCompletion.verdict, Verdict.unmatched, h.matched, h.matchIndex, h.matchFrameIndex,
    hun.matched, hun.matchIndex]

theorem IdleEnd.finalCursor_eq {lo n : ℕ} {w' : World} (h : IdleEnd drv lo w' drv' compl)
    (ho : drv.originalCursor = c) (hlo : c + n ≤ lo) (hend : w'.feed.ring.endOffset ≤ c + n)
    (hk : drv.acc.consumedOffset = n ∨ drv.acc.consumedOffset = 2 * n ∧ c + 2 * n < u64Size) :
    compl.finalCursor = c + n := by
  obtain ⟨e, he, hcur⟩ := h.cursor
  have hclamp := cursor_clamped (c := c) (n := n) (e := e) (by have := he.1; have := he.2; omega)
    (he.2.trans_lt w'.feed.ring.end_lt) hk
  rw [ho] at hcur
  rcases hcur with hcur | hcur
  · exact hcur.trans hclamp.2
  · exact hcur.trans hclamp.1

/-- The end of a framed read on the driver its first bytes left. -/
theorem Fed.tells (hfed : Fed req c d drv) (hl : Leaves d s drv drv') {drv'' : ReadDriver}
    (hdrv : ∃ ctrl, drv'' = { drv' with ctrl := ctrl }) (hpass : Passes drv'' compl out final)
    {reason : RxStopReason}
    (hv : compl.verdict = (chunkVerdict req d s).getD (.unmatched reason)) :
    Tells req d s reason out := by
  obtain ⟨ctrl, rfl⟩ := hdrv
  obtain ⟨hframes, hdropped⟩ := hfed.frames_after hl
  exact ⟨hpass.frames.trans hframes, hpass.framesDropped.trans hdropped, hpass.verdict.trans hv⟩

/-- **Replayed bytes.** A read that finds all of `s` buffered, in which the
    matcher finds nothing raw, ends by the verdict of its frames or idle. -/
theorem replayed_wp {crates : Crates} {turns : ℕ} (hd : buildDecoder crates req = .ok (some d))
    (hne : s ≠ []) (hno : ∀ m ∈ req.matcher, (m.pushBounded s req.maxBytes).1 = .noMatch) :
    wp act Rely (readFromPrivateCursor crates turns req c) (fun tr w' r => ∀ out final,
      r = .ok (out, final) → (initialSlice tr).bytes = s → taken tr = [⟨c, s⟩] →
      w'.feed.ring.endOffset = c + s.length →
      (∃ reason, reason.idle = true ∧ Tells req d s reason out) ∧
        (req.matcher = none ∨ c + 2 * s.length < u64Size → final = c + s.length)) w := by
  have hframing : req.framing.isSome = true := (buildDecoder_isSome hd).symm
  simp only [readFromPrivateCursor, Prog.perform_bind, wp_call, hd]
  intro w₁ h₁ w₂ h₂
  dsimp only [act]
  obtain ⟨hlen, hnext, hstop⟩ := readFrom_within w₂.feed c req.maxBytes
  generalize w₂.feed.ring.readFrom c req.maxBytes = s₀ at hlen hnext hstop ⊢
  by_cases hs : s₀.bytes = s
  swap
  · exact wp_iff.2 fun tr w' r _ out final _ hslice => absurd hslice hs
  subst hs
  refine wp_seq (processInitial_framed hne hlen hframing hno w₁.now) ?_
  rintro tr w₃ (e | decision) hinit
  · intro out final hok; cases hok
  have hfirst {tr' : List RxEvent} (hq : Quiet w₂ tr w₃) (htaken : taken (⟨.now, w₁.now⟩ ::
      ⟨.readFrom c req.maxBytes, s₀⟩ :: (tr ++ tr')) = [⟨c, s₀.bytes⟩]) :
      s₀.fromOffset = c ∧ taken tr' = [] := by
    rw [entry_taken, RingSlice.pieces_of_ne hne, taken_append, hq.taken, List.nil_append,
      List.singleton_append, List.cons.injEq] at htaken
    exact ⟨congrArg Piece.start htaken.1, htaken.2⟩
  cases hinit decision rfl with
  | @goesOn drv drv' hfed hcount hdecides hq =>
    cases hdecides with
    | goesOn hverdict hl =>
      have hlo := hstop.trans (Feed.Grows.end_le hq.rely)
      refine wp_mono ?_ (runWait_turns turns (hnext ▸ hlo))
      intro tr' w' r hrun out final hok _ htaken hend
      obtain ⟨tr₁, w₄, drv'', compl, htr, hturns, hrely, hpass⟩ := hrun out final hok
      obtain ⟨hfrom, hnothing⟩ := hfirst hq htaken
      have hidle := hturns.nothing (htr.symm.trans hnothing)
      have hun : drv'.ctrl.Unmatched req.maxBytes := hl.ctrl ▸ hfed.unmatched
      refine ⟨⟨_, hidle.reason, hfed.tells hl hidle.driver hpass ?_⟩, fun hfits => ?_⟩
      · rw [hidle.verdict hun, hverdict]
        rfl
      · refine hpass.final.trans (hidle.finalCursor_eq (hl.original.trans hfed.original) ?_
          ((Feed.Grows.end_le hrely).trans_eq hend) (hcount.clamps hl.consumed hfits))
        rw [← hfrom]
        exact hlo
  | @halts drv drv' completion e hfed hcount hdecides hq he =>
    cases hdecides with
    | halts hverdict hl hcompl =>
      refine wp_seq (complete_passes drv' _ w₃) ?_
      rintro tr' w' r ⟨hslices, hrely, hpass⟩
      rw [wp_pure, List.append_nil]
      rintro out final ⟨⟩ _ htaken hend
      obtain ⟨hfrom, -⟩ := hfirst hq htaken
      obtain ⟨hv, hcur⟩ := hcompl (min (wrappingAdd s₀.fromOffset drv'.acc.consumedOffset) e)
      refine ⟨⟨.timeout, rfl, hfed.tells hl ⟨_, rfl⟩ hpass ?_⟩, fun hfits => ?_⟩
      · rw [hv, hverdict]
        rfl
      · have hend' : e = c + s₀.bytes.length := by
          have h₁ := hstop.trans he.1
          have h₂ := he.2.trans (Feed.Grows.end_le hrely)
          simp only [Piece.stop, RingSlice.piece, hfrom] at h₁
          omega
        refine (show final = _ from hpass.final).trans (hcur.trans ?_)
        rw [hfrom]
        exact (cursor_clamped hend' (he.2.trans_lt w₃.feed.ring.end_lt)
          (hcount.clamps hl.consumed hfits)).1

/-- What a live chunk of `n` bytes stops a read with, if not by its frames. -/
def LiveReason (req : ReadRequest) (n : ℕ) (reason : RxStopReason) : Prop :=
  if n = req.maxBytes then reason = .drained else reason.idle = true

theorem exists_liveReason (req : ReadRequest) (n : ℕ) : ∃ reason, LiveReason req n reason := by
  unfold LiveReason
  split
  · exact ⟨_, rfl⟩
  · exact ⟨.timeout, rfl⟩

variable {crates : Crates} {turns : ℕ} {tr : List RxEvent} {w' : World}

/-- A framed read that finds nothing buffered goes straight to its loop. -/
theorem emptyStart_fed (hd : buildDecoder crates req = .ok (some d))
    (h : Runs act Rely w (readFromPrivateCursor crates turns req c) tr w' (.ok (out, final)))
    (hslice : (initialSlice tr).bytes = []) :
    ∃ t clocked w₂ tr₁ w₃ drv' compl, w.feed.ring.endOffset ≤ w₂.feed.ring.endOffset ∧
      taken tr = taken tr₁ ∧ Fed req c d (req.driver c t (some d)) ∧
      Turns (req.driver c t (some d)) clocked w₂ tr₁ w₃ drv' compl ∧ Rely w₃ w' ∧
      Passes drv' compl out final := by
  obtain ⟨d₀, t, clocked, w₂, tr₁, tr₂, w₃, drv', compl, hd₀, hle, htr, hturns, hdone⟩ :=
    emptyStart_turns h hslice
  obtain rfl := Except.ok.inj (hd.symm.trans hd₀)
  obtain ⟨-, hrely, hpass⟩ := hdone.wp (complete_passes drv' compl w₃)
  exact ⟨t, clocked, w₂, tr₁, w₃, drv', compl, hle, htr,
    ⟨ReadRequest.starting (buildDecoder_isSome hd) c t, rfl⟩, hturns, hrely, hpass⟩

/-- **Live bytes.** A read that receives `s` as one live chunk ends by the
    verdict of its frames, full, or idle. -/
theorem live_tells (hd : buildDecoder crates req = .ok (some d))
    (h : Runs act Rely w (readFromPrivateCursor crates turns req c) tr w' (.ok (out, final)))
    (hslice : (initialSlice tr).bytes = []) (htaken : taken tr = [⟨c, s⟩])
    (hend : w'.feed.ring.endOffset = c + s.length) :
    (∃ reason, LiveReason req s.length reason ∧ Tells req d s reason out) ∧
      final = c + s.length := by
  obtain ⟨t, clocked, w₂, tr₁, w₃, drv', compl, -, htr, hstart, hturns, hrely, hpass⟩ :=
    emptyStart_fed hd h hslice
  rw [htr] at htaken
  obtain ⟨hroom, honce⟩ := hturns.once htaken
  have hlt : c + s.length < u64Size := hend ▸ w'.feed.ring.end_lt
  -- whatever the waiting turns before it did to the timers
  have hfed {drv : ReadDriver} {ctrl : RxStopController} (now : ℕ)
      (hctrl : SameMatch (req.driver c t (some d)).ctrl ctrl)
      (hdrv : drv = ({ req.driver c t (some d) with ctrl := ctrl } : ReadDriver).absorb s now) :
      Fed req c d drv ∧ drv.acc.returnedBytes = s ∧ drv.acc.consumedOffset = s.length ∧
        Decides req d s drv (liveDecision drv s) := by
    subst hdrv
    have h : Fed req c d (({ req.driver c t (some d) with ctrl := ctrl } :
        ReadDriver).absorb s now) :=
      { hstart with unmatched := (hctrl.unmatched hstart.unmatched).resetSilenceTimer now }
    refine ⟨h, rfl, ?_, ?_⟩
    · show min (wrappingAdd 0 s.length) req.maxBytes = s.length
      rw [wrappingAdd_eq (by omega), Nat.zero_add]
      exact Nat.min_eq_left hroom
    · simp only [liveDecision, h.decoder]
      exact h.decides s
  have hclamp {e : ℕ} (he : EndSeen (c + s.length) w₃ e) :
      min (wrappingAdd c s.length) e = c + s.length ∧
        min (saturatingAdd c s.length) e = c + s.length := by
    have h₁ := he.1
    have h₂ := he.2.trans (Feed.Grows.end_le hrely)
    have he' : e = c + s.length := by omega
    exact cursor_clamped he' (he' ▸ hlt) (.inl rfl)
  cases honce with
  | @stops ctrl now e completion hctrl hdecision hcompl he =>
    obtain ⟨hf, -, -, hdecides⟩ := hfed now hctrl rfl
    rw [hdecision] at hdecides
    cases hdecides with
    | halts hverdict hl hv =>
      obtain ⟨reason, hreason⟩ := exists_liveReason req s.length
      refine ⟨⟨reason, hreason, hf.tells hl ⟨_, rfl⟩ hpass ?_⟩, ?_⟩
      · rw [hcompl, (hv _).1, hverdict]
        rfl
      · rw [hpass.final, hcompl, (hv _).2]
        exact (hclamp he).1
  | @fills ctrl now e hctrl hdecision hfull hcompl he =>
    obtain ⟨hf, hret, hcons, hdecides⟩ := hfed now hctrl rfl
    rw [hdecision] at hdecides
    cases hdecides with
    | goesOn hverdict hl =>
      rw [hl.maxBytes, hf.maxBytes, hl.returned, hret] at hfull
      have hlen : s.length = req.maxBytes := Nat.le_antisymm hroom hfull
      refine ⟨⟨.drained, by rw [LiveReason, if_pos hlen], hf.tells hl ⟨_, rfl⟩ hpass ?_⟩, ?_⟩
      · rw [hcompl, hverdict]
        rfl
      · rw [hpass.final, hcompl, drainedCompletion, hl.original, hf.original, hl.consumed, hcons]
        exact (hclamp he).2
  | @rests ctrl now drv₁ hctrl hdecision hroom' hidle =>
    obtain ⟨hf, hret, hcons, hdecides⟩ := hfed now hctrl rfl
    rw [hdecision] at hdecides
    cases hdecides with
    | goesOn hverdict hl =>
      rw [hl.maxBytes, hf.maxBytes, hl.returned, hret] at hroom'
      have hun : drv₁.ctrl.Unmatched req.maxBytes := hl.ctrl ▸ hf.unmatched
      refine ⟨⟨_, by rw [LiveReason, if_neg (Nat.ne_of_lt hroom')]; exact hidle.reason,
        hf.tells hl hidle.driver hpass ?_⟩, ?_⟩
      · rw [hidle.verdict hun, hverdict]
        rfl
      · refine hpass.final.trans (hidle.finalCursor_eq (hl.original.trans hf.original)
          (Nat.le_refl _) ((Feed.Grows.end_le hrely).trans_eq hend) (.inl (hl.consumed.trans hcons)))

/-- A read that neither finds nor receives anything ends idle. -/
theorem nothing_tells (hd : buildDecoder crates req = .ok (some d))
    (h : Runs act Rely w (readFromPrivateCursor crates turns req c) tr w' (.ok (out, final)))
    (hslice : (initialSlice tr).bytes = []) (htaken : taken tr = [])
    (hc : c ≤ w.feed.ring.endOffset) (hend : w'.feed.ring.endOffset = c) :
    (∃ reason, reason.idle = true ∧ out.verdict = .unmatched reason) ∧ out.frames = [] ∧
      out.framesDropped = 0 ∧ final = c := by
  obtain ⟨t, clocked, w₂, tr₁, w₃, drv', compl, hle, htr, hstart, hturns, hrely, hpass⟩ :=
    emptyStart_fed hd h hslice
  have hidle := hturns.nothing (htr.symm.trans htaken)
  obtain ⟨ctrl, rfl⟩ := hidle.driver
  refine ⟨⟨_, hidle.reason, hpass.verdict.trans (hidle.verdict hstart.unmatched)⟩, hpass.frames,
    hpass.framesDropped, hpass.final.trans ?_⟩
  exact hidle.finalCursor_eq (n := 0) rfl (hc.trans hle) ((Feed.Grows.end_le hrely).trans_eq hend)
    (.inl rfl)

theorem initialSlice_piece (htaken : taken tr = [⟨c, s⟩]) (hslice : (initialSlice tr).bytes = s)
    (hne : s ≠ []) : (initialSlice tr).piece = ⟨c, s⟩ := by
  rcases hs : slicesOf tr with _ | ⟨s₀, rest⟩
  · simp [taken_of_slices hs] at htaken
  · rw [initialSlice, hs, List.headD_cons] at hslice ⊢
    subst hslice
    have hkept : (!s₀.bytes.isEmpty) = true := by simpa using hne
    rw [taken, hs, List.filter_cons, if_pos hkept, List.map_cons, List.cons.injEq] at htaken
    exact htaken.1

/-- A match in the raw bytes of the initial slice is reported without a frame. -/
theorem rawMatch_tells (hne : s ≠ []) (htaken : taken tr = [⟨c, s⟩])
    (h : Runs act Rely w (readFromPrivateCursor crates turns req c) tr w' (.ok (out, final)))
    (hslice : (initialSlice tr).bytes = s) {m : Matcher} (hm : m ∈ req.matcher)
    (hfound : (m.pushBounded s req.maxBytes).1 ≠ .noMatch) :
    out.matched = true ∧ out.frames = [] := by
  have hpiece := initialSlice_piece htaken hslice hne
  obtain ⟨d₀, -, hrep⟩ := readFromPrivateCursor_report h (congrArg Piece.start hpiece).ge
  obtain ⟨q, -, -, hended⟩ := hrep.ended
  have hend : historyEnd req (initialSlice tr) ≠ none := by
    rw [historyEnd_some (hslice ▸ hne) hm, hslice]
    rcases hr : (m.pushBounded s req.maxBytes).1 with _ | idx
    · exact absurd hr hfound
    · simp
  cases hended with
  | slice hhist => exact absurd hhist hend
  | idle hhist => exact absurd hhist hend
  | history hhist hctx hps hn hfinal hmeasured hbytes hreason hmatched hframes =>
    exact ⟨hmatched, hframes⟩
  | context hhist hctx hps hn hfinal hfrom hnext hlost hbytes hreason hmatched hframes =>
    exact ⟨hmatched, hframes⟩

end

/-! ## Replayed against live -/

/-- A complete read from the cursor `c` that takes `s`, after which nothing
    more is received. -/
structure Receives (crates : Crates) (req : ReadRequest) (c : ℕ) (s : Bytes) (tr : List RxEvent)
    (out : ReadOutcome) (final : ℕ) : Prop where
  runs : ∃ turns w w', c ≤ w.feed.ring.endOffset ∧ w'.feed.ring.endOffset = c + s.length ∧
    Runs act Rely w (readFromPrivateCursor crates turns req c) tr w' (.ok (out, final))
  taken : taken tr = if s = [] then [] else [⟨c, s⟩]

/-- The read finds all of `s` already buffered. -/
def Replayed (crates : Crates) (req : ReadRequest) (c : ℕ) (s : Bytes) (out : ReadOutcome)
    (final : ℕ) : Prop :=
  ∃ tr, Receives crates req c s tr out final ∧ (initialSlice tr).bytes = s

/-- The read receives `s` as one live chunk. -/
def Live (crates : Crates) (req : ReadRequest) (c : ℕ) (s : Bytes) (out : ReadOutcome)
    (final : ℕ) : Prop :=
  ∃ tr, Receives crates req c s tr out final ∧ (initialSlice tr).bytes = []

/-- Two reads report the same; a stop that no bytes cause may be another such
    stop. -/
structure Agree (out : ReadOutcome) (final : ℕ) (out' : ReadOutcome) (final' : ℕ) : Prop where
  frames : out.frames = out'.frames
  framesDropped : out.framesDropped = out'.framesDropped
  matched : out.matched = out'.matched
  matchIndex : out.matchIndex = out'.matchIndex
  matchFrameIndex : out.matchFrameIndex = out'.matchFrameIndex
  stopReason : out.metadata.stopReason = out'.metadata.stopReason ∨
    out.metadata.stopReason.idle = true ∧ out'.metadata.stopReason.idle = true
  cursor : final = final'

/-- A match is reported only if a single decoded frame contains it. -/
def MatchedInFrame (req : ReadRequest) (out : ReadOutcome) : Prop :=
  out.matched = true → ∃ frame ∈ out.frames, ∃ idx,
    (matchFrame req.matcher frame).1 = some idx ∧ out.matchIndex = some idx ∧
      out.matchFrameIndex = some frame.index

/-- The raw bytes hold no match, and if they fill `max_bytes`, their frames
    stop the read. -/
def Replayable (req : ReadRequest) (d : FrameDecoder) (s : Bytes) : Prop :=
  s ≠ [] → (∀ m ∈ req.matcher, (m.pushBounded s req.maxBytes).1 = .noMatch) ∧
    (s.length = req.maxBytes → FrameStop req.matcher (req.framing.bind (·.maxFrames)) 0 d s)

section
variable {crates : Crates} {req : ReadRequest} {c : ℕ} {d : FrameDecoder} {s : Bytes}
  {out out' : ReadOutcome} {final final' : ℕ} {reason reason' : RxStopReason}

theorem Tells.matchedInFrame (h : Tells req d s reason out) : MatchedInFrame req out := by
  intro hm
  have hv := h.verdict
  rcases hc : chunkVerdict req d s with _ | v
  · rw [hc] at hv
    exact absurd ((congrArg Verdict.matched hv).symm.trans hm) Bool.false_ne_true
  · rw [hc, Option.getD_some] at hv
    rw [h.frames]
    obtain ⟨frame, hframe, idx, hidx, hi, hfi⟩ :=
      chunkVerdict_matched hc ((congrArg Verdict.matched hv).symm.trans hm)
    exact ⟨frame, hframe, idx, hidx, (congrArg Verdict.matchIndex hv).trans hi,
      (congrArg Verdict.matchFrameIndex hv).trans hfi⟩

theorem Tells.agree (h : Tells req d s reason out) (h' : Tells req d s reason' out')
    (hreason : chunkVerdict req d s = none → reason.idle = true ∧ reason'.idle = true)
    (hcursor : final = final') : Agree out final out' final' := by
  have hframes := h.frames.trans h'.frames.symm
  have hdropped := h.framesDropped.trans h'.framesDropped.symm
  have hv := h.verdict
  have hv' := h'.verdict
  rcases hc : chunkVerdict req d s with _ | v
  · rw [hc, Option.getD_none, ReadOutcome.verdict, Verdict.unmatched, Verdict.mk.injEq] at hv hv'
    obtain ⟨hr, hm, hi, hfi⟩ := hv
    obtain ⟨hr', hm', hi', hfi'⟩ := hv'
    refine ⟨hframes, hdropped, hm.trans hm'.symm, hi.trans hi'.symm, hfi.trans hfi'.symm, .inr ?_,
      hcursor⟩
    rw [hr, hr']
    exact hreason hc
  · rw [hc, Option.getD_some] at hv hv'
    have hsame := hv.trans hv'.symm
    rw [ReadOutcome.verdict, ReadOutcome.verdict, Verdict.mk.injEq] at hsame
    obtain ⟨hr, hm, hi, hfi⟩ := hsame
    exact ⟨hframes, hdropped, hm, hi, hfi, .inl hr, hcursor⟩

/-- A stop that no bytes cause, without a match and without frames. -/
theorem agree_nothing (hr : Replayed crates req c [] out final)
    (hl : Live crates req c [] out' final') (hd : buildDecoder crates req = .ok (some d)) :
    Agree out final out' final' ∧ MatchedInFrame req out ∧ MatchedInFrame req out' := by
  obtain ⟨tr, ⟨⟨turns, w, w', hc, hend, hrun⟩, htaken⟩, hslice⟩ := hr
  obtain ⟨tr', ⟨⟨turns', w₁, w₁', hc', hend', hrun'⟩, htaken'⟩, hslice'⟩ := hl
  rw [if_pos rfl] at htaken htaken'
  obtain ⟨⟨r, hidle, hv⟩, hframes, hdropped, hfinal⟩ :=
    nothing_tells hd hrun hslice htaken hc hend
  obtain ⟨⟨r', hidle', hv'⟩, hframes', hdropped', hfinal'⟩ :=
    nothing_tells hd hrun' hslice' htaken' hc' hend'
  rw [ReadOutcome.verdict, Verdict.unmatched, Verdict.mk.injEq] at hv hv'
  obtain ⟨hreason, hm, hi, hfi⟩ := hv
  obtain ⟨hreason', hm', hi', hfi'⟩ := hv'
  refine ⟨⟨hframes.trans hframes'.symm, hdropped.trans hdropped'.symm, hm.trans hm'.symm,
    hi.trans hi'.symm, hfi.trans hfi'.symm, .inr ?_, hfinal.trans hfinal'.symm⟩, fun h => ?_,
    fun h => ?_⟩
  · rw [hreason, hreason']
    exact ⟨hidle, hidle'⟩
  · exact absurd (hm.symm.trans h) Bool.false_ne_true
  · exact absurd (hm'.symm.trans h) Bool.false_ne_true

theorem not_frameStop_iff : ¬FrameStop req.matcher (req.framing.bind (·.maxFrames)) 0 d s ↔
    chunkVerdict req d s = none := by
  rw [← chunkVerdict_isSome, Bool.not_eq_true, Option.isSome_eq_false_iff, Option.isNone_iff_eq_none]

/-- **Replayed and live bytes.** If a framed read that finds all of `s` buffered
    and one that receives it as one live chunk report the same, and matches in
    single frames only, then `s` is replayable; and if it is, they do, as long
    as bytes counted twice do not overflow the cursor. -/
theorem replay_agrees (hd : buildDecoder crates req = .ok (some d))
    (hr : Replayed crates req c s out final) (hl : Live crates req c s out' final') :
    (Agree out final out' final' ∧ MatchedInFrame req out ∧ MatchedInFrame req out' →
      Replayable req d s) ∧
    (Replayable req d s → (req.matcher = none ∨ c + 2 * s.length < u64Size) →
      Agree out final out' final' ∧ MatchedInFrame req out ∧ MatchedInFrame req out') := by
  rcases eq_or_ne s [] with rfl | hne
  · exact ⟨fun _ h => absurd rfl h, fun _ _ => agree_nothing hr hl hd⟩
  obtain ⟨tr, ⟨⟨turns, w, w', hc, hend, hrun⟩, htaken⟩, hslice⟩ := hr
  obtain ⟨tr', ⟨⟨turns', w₁, w₁', hc', hend', hrun'⟩, htaken'⟩, hslice'⟩ := hl
  rw [if_neg hne] at htaken htaken'
  have hreplayed (hno : ∀ m ∈ req.matcher, (m.pushBounded s req.maxBytes).1 = .noMatch) :=
    hrun.wp (replayed_wp hd hne hno) out final rfl hslice htaken hend
  obtain ⟨⟨r', hr', htells'⟩, hfinal'⟩ := live_tells hd hrun' hslice' htaken' hend'
  constructor
  · rintro ⟨hagree, hframe, -⟩ -
    have hno : ∀ m ∈ req.matcher, (m.pushBounded s req.maxBytes).1 = .noMatch := by
      intro m hm
      by_contra hfound
      obtain ⟨hmatched, hnone⟩ := rawMatch_tells hne htaken hrun hslice hm hfound
      obtain ⟨frame, hmem, -⟩ := hframe hmatched
      rw [hnone] at hmem
      exact absurd hmem List.not_mem_nil
    refine ⟨hno, fun hfull => ?_⟩
    -- the live read is full, the replayed one goes on waiting
    by_contra hstop
    rw [not_frameStop_iff] at hstop
    obtain ⟨⟨r, hr, htells⟩, -⟩ := hreplayed hno
    rw [LiveReason, if_pos hfull] at hr'
    have hv := congrArg Verdict.reason htells.verdict
    have hv' := congrArg Verdict.reason htells'.verdict
    rw [hstop, Option.getD_none] at hv hv'
    simp only [ReadOutcome.verdict, Verdict.unmatched] at hv hv'
    rcases hagree.stopReason with h | h
    · rw [hv, hv', hr'] at h
      rw [h] at hr
      exact absurd hr (by decide)
    · rw [hv', hr'] at h
      exact absurd h.2 (by decide)
  · intro hok hfits
    obtain ⟨hno, hfull⟩ := hok hne
    obtain ⟨⟨r, hr, htells⟩, hfinal⟩ := hreplayed hno
    refine ⟨htells.agree htells' (fun hnone => ⟨hr, ?_⟩) ((hfinal hfits).trans hfinal'.symm),
      htells.matchedInFrame, htells'.matchedInFrame⟩
    have hroom : s.length ≠ req.maxBytes := fun h => not_frameStop_iff.2 hnone (hfull h)
    rwa [LiveReason, if_neg hroom] at hr'

end

/-- `"ab\ncd\n"` -/
def twoLines : Bytes := [97, 98, 10, 99, 100, 10]

/-- A read of two lines. -/
def lineRead : ReadRequest where
  maxBytes := 8
  framing := some { mode := .line .lf, maxFrames := some 2 }

/-- The same, until `"b\nc"` is found. -/
def crossingRead : ReadRequest :=
  { lineRead with matcher := some (.new (.literal ⟨[98, 10, 99], by simp⟩) none) }

/-- Two lines are buffered. -/
def linesBuffered : World := .opened (Feed.eight.push twoLines)

/-- Nothing is buffered; the loop wakes up by data. -/
def linesAwaited : World := { World.opened .eight with wake := .data }

/-- Two lines without a matcher. -/
theorem replay_agrees_lines : ∃ d out final out' final',
    buildDecoder .refusing lineRead = .ok (some d) ∧
    Replayed .refusing lineRead 0 twoLines out final ∧
    Live .refusing lineRead 0 twoLines out' final' ∧
    out.frames.map (·.data) = [[97, 98], [99, 100]] ∧ Agree out final out' final' := by
  have hr : Replayed .refusing lineRead 0 twoLines _ _ :=
    ⟨_, ⟨⟨0, linesBuffered, _, Nat.zero_le _, rfl, runs_of_run Rely.refl [] (by simp) rfl⟩, rfl⟩, rfl⟩
  have hl : Live .refusing lineRead 0 twoLines _ _ :=
    ⟨_, ⟨⟨1, linesAwaited, _, Nat.zero_le _, rfl, runs_of_run Rely.refl _ (arrival_rely twoLines) rfl⟩, rfl⟩, rfl⟩
  refine ⟨_, _, _, _, _, rfl, hr, hl, rfl, ((replay_agrees rfl hr hl).2 ?_ (.inl rfl)).1⟩
  exact fun _ => ⟨fun m hm => absurd hm (by simp [lineRead]), fun h => absurd h (by decide)⟩

/-- A pattern across two lines is found in the history, raw and without a
    frame, but not in live bytes. -/
theorem replay_disagrees : ¬∀ (crates : Crates) (req : ReadRequest) (c : ℕ) (d : FrameDecoder)
    (s : Bytes) (out out' : ReadOutcome) (final final' : ℕ),
    buildDecoder crates req = .ok (some d) → Replayed crates req c s out final →
    Live crates req c s out' final' →
    Agree out final out' final' ∧ MatchedInFrame req out ∧ MatchedInFrame req out' := by
  intro h
  have hr : Replayed .refusing crossingRead 0 twoLines _ _ :=
    ⟨_, ⟨⟨0, linesBuffered, _, Nat.zero_le _, rfl, runs_of_run Rely.refl [] (by simp) rfl⟩, rfl⟩, rfl⟩
  have hl : Live .refusing crossingRead 0 twoLines _ _ :=
    ⟨_, ⟨⟨1, linesAwaited, _, Nat.zero_le _, rfl, runs_of_run Rely.refl _ (arrival_rely twoLines) rfl⟩, rfl⟩, rfl⟩
  obtain ⟨frame, hmem, -⟩ := (h _ _ _ _ _ _ _ _ _ rfl hr hl).2.1 rfl
  exact absurd hmem List.not_mem_nil

end SerialMcp
