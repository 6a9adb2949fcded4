/-
  When a read panics.

  A glob reports the byte offset of the line it matches in the lossily decoded
  history, where every invalid byte takes three, and `process_initial` cuts the
  raw history there.

  * `Within`: what the wait loop keeps: a driver at the offset `q` of the
    stream holds no more than it got from there;
  * `waitOnce_mirrors`, `runWait_mirrors`, `complete_mirrors`: the wait loop and
    the outcome stay in range, so they do what the total model does;
  * `readFromPrivateCursor_inRange_iff`: a read panics exactly when the lines
    in front of a glob's match in the history decode to more bytes than the
    history has.
-/
import SerialMcp.Read.Bounds
import SerialMcp.Read.Checked

namespace SerialMcp

open Interact RxOp

/-! ## Runs below a limit -/

/-- What happens between two operations while the ring ends below `limit`. -/
def RelyBelow (limit : ℕ) (w w' : World) : Prop := Rely w w' ∧ w'.feed.ring.endOffset < limit

section
variable {α : Type} {limit n : ℕ} {w w' : World} {tr : List RxEvent}

theorem runs_below {p : RxProg α} {a : α} (h : Runs act Rely w p tr w' a)
    (hlim : w'.feed.ring.endOffset < limit) : Runs act (RelyBelow limit) w p tr w' a := by
  induction h with
  | ret => exact .ret
  | call hR hrest ih =>
    have hle := Feed.Grows.end_le (runs_rely hrest)
    rw [act_feed] at hle
    exact .call ⟨hR, hle.trans_lt hlim⟩ (ih hlim)

theorem wp_end_le (p : RxProg α) (h : n ≤ w.feed.ring.endOffset) :
    wp act (RelyBelow limit) p (fun _ w' _ => n ≤ w'.feed.ring.endOffset) w :=
  wp_iff.2 fun _ _ _ hr => h.trans (Feed.Grows.end_le (runs_rely (hr.mono fun _ _ h => h.1)))

end

/-! ## A turn of the wait loop -/

namespace Checked

section
variable {drv : ReadDriver} {clocked q : ℕ} {w w' : World} {tr : List RxEvent}

theorem Within.mono {q' : ℕ} (h : Within q drv) (hq : q ≤ q') : Within q' drv :=
  { h with
    returned := h.returned.trans (Nat.mul_le_mul_left 2 hq)
    consumed := h.consumed.trans (Nat.mul_le_mul_left 2 hq) }

/-- What a live chunk leaves. -/
def ChunkWithin (q : ℕ) : ChunkDecision → Prop
  | .continue drv => Within q drv
  | .stop drv _ => drv.acc.consumedOffset ≤ 2 * q

/-- The driver behind a decision. -/
def driverOf : ChunkDecision → ReadDriver
  | .continue drv => drv
  | .stop drv _ => drv

/-- Without a decoder a chunk changes the matcher and the controller. -/
theorem rawDecision_driver (drv : ReadDriver) (x : Bytes) :
    ∃ ctrl, driverOf (rawDecision drv x) = { drv with
      matcher := drv.matcher.map fun m => (m.pushBounded x drv.maxBytes).2, ctrl := ctrl } := by
  have hmatcher : (drv.matcher.map fun m => m.pushBounded x drv.maxBytes).map Prod.snd =
      drv.matcher.map fun m => (m.pushBounded x drv.maxBytes).2 := Option.map_map ..
  rw [← hmatcher]
  refine ⟨(drv.ctrl.pushData x.length drv.acc.returnedBytes.length
    ((drv.matcher.map fun m => m.pushBounded x drv.maxBytes).map Prod.fst)).2, ?_⟩
  simp only [rawDecision]
  split <;> rfl

theorem Within.absorb_consumed (h : Within q drv) (x : Bytes) (now : ℕ) :
    (drv.absorb x now).acc.consumedOffset ≤ 2 * (q + x.length) := by
  have hle : (drv.absorb x now).acc.consumedOffset ≤ drv.acc.consumedOffset + x.length :=
    (Nat.min_le_left ..).trans (Nat.mod_le ..)
  have hconsumed := h.consumed
  omega

theorem Within.raw (h : Within q drv) (x : Bytes) (now : ℕ) (hdec : drv.decoder = none) :
    ChunkWithin (q + x.length) (rawDecision (drv.absorb x now) x) := by
  have hreturned := h.returned
  have hconsumed := h.absorb_consumed x now
  have hlen : (drv.acc.returnedBytes ++ x).length = drv.acc.returnedBytes.length + x.length :=
    List.length_append
  obtain ⟨ctrl, hdriver⟩ := rawDecision_driver (drv.absorb x now) x
  generalize rawDecision (drv.absorb x now) x = decision at hdriver ⊢
  rcases decision with drv' | ⟨drv', completion⟩
  · obtain rfl : drv' = _ := hdriver
    refine ⟨?_, hconsumed, fun d hd => ?_, fun _ m' hm' => ?_⟩
    · show (drv.acc.returnedBytes ++ x).length ≤ _
      omega
    · rw [show (drv.absorb x now).decoder = none from hdec] at hd
      cases hd
    · show m'.base + m'.window.length ≤ (drv.acc.returnedBytes ++ x).length
      obtain ⟨m, hm, rfl⟩ := Option.map_eq_some_iff.1 hm'
      have hwindow := h.window hdec m hm
      have hreach := m.pushBounded_reach x (drv.absorb x now).maxBytes
      omega
  · obtain rfl : drv' = _ := hdriver
    exact hconsumed

/-- Bytes that are counted in already, through the decoder. -/
theorem framedDecision_within {x : Bytes} {d : FrameDecoder} (hdec : drv.decoder = some d)
    (hreturned : drv.acc.returnedBytes.length ≤ 2 * q) (hconsumed : drv.acc.consumedOffset ≤ 2 * q)
    (hheld : d.held + x.length ≤ drv.acc.returnedBytes.length) :
    ChunkWithin q (framedDecision drv d x) := by
  obtain ⟨-, hpushed⟩ := d.push_holds x
  have hleaves := framedDecision_leaves hdec x
  generalize framedDecision drv d x = decision at hleaves ⊢
  cases decision with
  | «continue» drv' =>
    replace hleaves : Leaves d x drv drv' := hleaves
    have hsome : drv'.decoder = some (d.push x).2 := by
      rw [hleaves.decoder, hdec, Option.map_some]
    refine ⟨?_, hleaves.consumed.trans_le hconsumed, fun d' hd' => ?_, fun hnone => ?_⟩
    · rwa [hleaves.returned]
    · rw [hsome] at hd'
      obtain rfl := Option.some.inj hd'
      rw [hleaves.returned]
      exact hpushed.trans hheld
    · rw [hsome] at hnone
      cases hnone
  | stop drv' completion =>
    replace hleaves : Leaves d x drv drv' := hleaves
    exact hleaves.consumed.trans_le hconsumed

theorem Within.framed (h : Within q drv) (x : Bytes) (now : ℕ) {d : FrameDecoder}
    (hdec : drv.decoder = some d) :
    ChunkWithin (q + x.length) (framedDecision (drv.absorb x now) d x) := by
  have hreturned := h.returned
  have hheld := h.decoder d hdec
  have hlen : (drv.absorb x now).acc.returnedBytes.length =
      drv.acc.returnedBytes.length + x.length := List.length_append
  exact framedDecision_within hdec (by omega) (h.absorb_consumed x now) (by omega)

/-- **Step**: a live chunk moves a driver on by its bytes. -/
theorem Within.live (h : Within q drv) (x : Bytes) (now : ℕ) :
    ChunkWithin (q + x.length) (liveDecision (drv.absorb x now) x) := by
  rcases hdec : drv.decoder with _ | d
  · have hraw := h.raw x now hdec
    simpa only [liveDecision, ReadDriver.absorb, hdec] using hraw
  · have hframed := h.framed x now hdec
    simpa only [liveDecision, ReadDriver.absorb, hdec] using hframed

/-- What a turn leaves. -/
def StepWithin (w : World) : WaitStep → Prop
  | .again drv clocked => Within clocked drv ∧ clocked ≤ w.feed.ring.endOffset
  | .stop drv _ => drv.acc.consumedOffset ≤ 2 * w.feed.ring.endOffset

theorem Within.turn {step : WaitStep} (h : Within clocked drv)
    (hc : clocked ≤ w.feed.ring.endOffset) (hturn : Turn drv clocked w tr w' step) :
    StepWithin w' step := by
  cases hturn with
  | waits hctrl rely htr => exact ⟨{ h with }, hc.trans (Feed.Grows.end_le rely)⟩
  | idle hreason hmatched hindex hend hfinal rely htr =>
    exact h.consumed.trans (Nat.mul_le_mul_left 2 (hc.trans (Feed.Grows.end_le rely)))
  | @stops s now e drv' completion hs hdecision hend =>
    have hlive := (h.mono hs.clocked_le).live s.bytes now
    rw [hdecision] at hlive
    exact hlive.trans (Nat.mul_le_mul_left 2 hs.stop_le)
  | @fills s now e drv' hs hdecision hfull hend =>
    have hlive := (h.mono hs.clocked_le).live s.bytes now
    rw [hdecision] at hlive
    exact hlive.consumed.trans (Nat.mul_le_mul_left 2 hs.stop_le)
  | @goesOn s now drv' hs hdecision hroom =>
    have hlive := (h.mono hs.clocked_le).live s.bytes now
    rw [hdecision] at hlive
    rw [hs.next]
    exact ⟨hlive, hs.stop_le⟩

theorem Within.slice_mirrors {s : RingSlice} {R : World → World → Prop} (h : Within q drv)
    (hq : q ≤ s.fromOffset) (hlt : s.fromOffset + s.bytes.length < streamLimit) :
    Mirrors act R (fun a b => b = .ok a) w
      (if s.bytes.isEmpty then pure (.again drv clocked) else SerialMcp.processLiveChunk drv s)
      (if s.bytes.isEmpty then pure (.ok (.again drv clocked)) else processLiveChunk drv s) := by
  by_cases hempty : s.bytes.isEmpty = true
  · rw [if_pos hempty, if_pos hempty]
    exact .ret rfl
  · rw [if_neg hempty, if_neg hempty, processLiveChunk_eq h hq hlt]
    exact .map _ _ _

/-- **A turn of the wait loop stays in range.** -/
theorem waitOnce_mirrors (h : Within clocked drv) (hc : clocked ≤ w.feed.ring.endOffset) :
    Mirrors act (RelyBelow streamLimit) (fun a b => b = .ok a) w
      (SerialMcp.waitOnce drv clocked) (waitOnce drv clocked) := by
  refine .same (wp_end_le _ hc) ?_
  intro tr w₁ d hc₁
  rcases d with _ | ctrl | _
  · refine .perform fun w₂ h₂ => ?_
    dsimp only [act]
    rcases drv.ctrl.checkTimeout w₂.now with _ | outcome
    · refine .perform fun w₃ h₃ => ?_
      dsimp only [act]
      rcases drv.ctrl.checkSilenceTimeout w₃.now with _ | outcome
      · have hc₃ := hc₁.trans ((Feed.Grows.end_le h₂.1).trans (Feed.Grows.end_le h₃.1))
        refine .same (wp_end_le _ hc₃) ?_
        intro tr' w₄ wake hc₄
        rcases wake with _ | _ | _
        · exact .map _ _ _
        · refine .perform fun w₅ h₅ => ?_
          have hs := readFrom_sliced (hc₄.trans (Feed.Grows.end_le h₅.1))
            (drv.maxBytes - drv.acc.returnedBytes.length)
          exact h.slice_mirrors hs.resumes.le (hs.stop_le.trans_lt h₅.2)
        · exact .ret rfl
      · exact .map _ _ _
    · exact .map _ _ _
  · exact .perform fun w₂ h₂ => .ret rfl
  · exact .map _ _ _

end

/-! ## The loop and the outcome -/

section
variable {drv : ReadDriver} {clocked : ℕ} {w : World}

/-- **The outcome** stays in range. -/
theorem complete_mirrors (compl : ReadCompletion)
    (h : drv.acc.consumedOffset ≤ 2 * w.feed.ring.endOffset) :
    Mirrors act (RelyBelow streamLimit) (fun a b => b = a ∧ b ≠ .error .panic) w
      (total (drv.complete compl)) (complete drv compl) := by
  refine .perform fun w₁ h₁ => .perform fun w₂ h₂ => .perform fun w₃ h₃ => ?_
  have hend := ((Feed.Grows.end_le h₁.1).trans (Feed.Grows.end_le h₂.1)).trans
    (Feed.Grows.end_le h₃.1)
  have hlim : w₃.feed.ring.endOffset < streamLimit := h₃.2
  have hu : u64Size = 2 ^ 64 := rfl
  unfold streamLimit at hlim
  dsimp only [act]
  have hfrom : ReadAccumulator.clampedFrom drv.originalCursor w₂.feed.ring.startOffset
      w₃.feed.ring.endOffset ≤ w₃.feed.ring.endOffset := Nat.min_le_right ..
  rw [add_eq (by omega)]
  exact .perform fun w₄ h₄ => .perform fun w₅ h₅ => .ret ⟨rfl, nofun⟩

/-- **Run**: the wait loop stays in range. -/
theorem runWait_mirrors (turns : ℕ) (h : Within clocked drv) (hc : clocked ≤ w.feed.ring.endOffset) :
    Mirrors act (RelyBelow streamLimit) (fun a b => b = a ∧ b ≠ .error .panic) w
      (SerialMcp.runWait turns drv clocked) (runWait turns drv clocked) := by
  induction turns generalizing w drv clocked with
  | zero => exact .ret ⟨rfl, nofun⟩
  | succ turns ih =>
    refine (waitOnce_mirrors h hc).bind (wp_anti (fun _ _ h => h.1) (waitOnce_turn hc)) ?_
    rintro tr w₁ step _ hturn rfl
    have hstep := h.turn hc hturn
    cases step with
    | again drv₁ clocked₁ => exact ih hstep.1 hstep.2
    | stop drv₁ compl => exact complete_mirrors compl hstep

end

/-! ## The initial phase -/

/-- What the initial phase leaves. -/
def InitialWithin (q : ℕ) : InitialDecision → Prop
  | .continue drv => Within q drv
  | .completion drv _ => drv.acc.consumedOffset ≤ 2 * q
  | .historicalContextMatch .. => True

section
variable {req : ReadRequest} {c t q : ℕ} {d₀ : Option FrameDecoder} {s : RingSlice}
  {drv : ReadDriver} {w : World}

theorem framedInitial_within (hlen : s.bytes.length ≤ q)
    (hreturned : drv.acc.returnedBytes.length ≤ s.bytes.length)
    (hconsumed : drv.acc.consumedOffset ≤ s.bytes.length) (hheld : ∀ d ∈ drv.decoder, d.held = 0)
    (hwindow : ∀ m ∈ drv.matcher, m.base + m.window.length ≤ drv.acc.returnedBytes.length) :
    wp act Rely (SerialMcp.framedInitial drv s) (fun _ _ => InitialWithin q) w := by
  have hchunk := List.length_take_le' drv.maxBytes s.bytes
  unfold SerialMcp.framedInitial
  split
  · next d hdec _ =>
    have hzero := hheld d hdec
    have hlen' : (drv.absorbInitial (s.bytes.take drv.maxBytes)).acc.returnedBytes.length =
        drv.acc.returnedBytes.length + (s.bytes.take drv.maxBytes).length := List.length_append
    have hcount : (drv.absorbInitial (s.bytes.take drv.maxBytes)).acc.consumedOffset =
        drv.acc.consumedOffset + (s.bytes.take drv.maxBytes).length := rfl
    have hdec' : (drv.absorbInitial (s.bytes.take drv.maxBytes)).decoder = some d := hdec
    have hwithin : ChunkWithin q (framedDecision (drv.absorbInitial (s.bytes.take drv.maxBytes)) d
        (s.bytes.take drv.maxBytes)) :=
      framedDecision_within hdec' (by omega) (by omega) (by omega)
    simp only
    generalize framedDecision (drv.absorbInitial (s.bytes.take drv.maxBytes)) d
      (s.bytes.take drv.maxBytes) = decision at hwithin ⊢
    cases decision with
    | «continue» drv' => exact hwithin
    | stop drv' completion => exact fun w₁ h₁ => hwithin
  · exact ⟨hreturned.trans (by omega), hconsumed.trans (by omega),
      fun d hd => (hheld d hd).trans_le (Nat.zero_le _), fun _ => hwindow⟩

/-- **The initial phase** leaves a driver within what it read. -/
theorem processInitial_within (hfresh : Untouched req) (hheld : ∀ d ∈ d₀, d.held = 0)
    (hlen : s.bytes.length ≤ q)
    (hends : ∀ m ∈ req.matcher, EndsInside m (s.bytes.take req.maxBytes) req.maxBytes) :
    wp act Rely (SerialMcp.processInitial (req.driver c t d₀) s)
      (fun _ _ r => ∃ decision, r = .ok decision ∧ InitialWithin q decision) w := by
  have htake := List.length_take_le' req.maxBytes s.bytes
  have hwindow {n : ℕ} : ∀ m ∈ req.matcher, m.base + m.window.length ≤ n := by
    intro m hm
    rw [← hfresh m hm]
    exact Nat.zero_le _
  have hok {p : RxProg InitialDecision} (hp : wp act Rely p (fun _ _ => InitialWithin q) w) :
      wp act Rely (do
        let d ← p
        pure (.ok d : Except Stuck InitialDecision)) (fun _ _ r => ∃ decision, r = .ok decision ∧
          InitialWithin q decision) w :=
    wp_seq hp fun _ _ decision hin => ⟨decision, rfl, hin⟩
  have hframed : wp act Rely (SerialMcp.framedInitial (req.driver c t d₀) s)
      (fun _ _ => InitialWithin q) w :=
    framedInitial_within hlen (Nat.zero_le _) (Nat.zero_le _) hheld hwindow
  rw [processInitial_path]
  by_cases hne : s.bytes = []
  · rw [if_pos hne]
    exact hok hframed
  rw [if_neg hne]
  rcases hm : req.matcher with _ | m
  · simp only [show (req.driver c t d₀).matcher = none from hm]
    split
    · refine hok ?_
      intro w₁ h₁
      show (s.bytes.take req.maxBytes).length ≤ _
      omega
    · exact hok hframed
  · simp only [show (req.driver c t d₀).matcher = some m from hm,
      show (req.driver c t d₀).maxBytes = req.maxBytes from rfl]
    rcases hfound : (m.pushBounded (s.bytes.take req.maxBytes) req.maxBytes).1 with _ | idx
    · simp only [Prog.perform_bind, wp_call]
      intro w₁ h₁
      refine wp_seq (framedInitial_within hlen htake htake hheld ?_) fun _ _ decision hin =>
        ⟨decision, rfl, hin⟩
      intro m' hm'
      obtain rfl := Option.some.inj hm'
      have hreach := m.pushBounded_reach (s.bytes.take req.maxBytes) req.maxBytes
      have hzero := hwindow (n := 0) m hm
      show _ ≤ (s.bytes.take req.maxBytes).length
      omega
    · have hend := hends m hm idx hfound
      dsimp only
      rw [SerialMcp.historyMatch, if_neg (Nat.not_lt.2 hend)]
      rcases hctx : m.contextAmount with _ | context
      · intro w₁ h₁
        exact ⟨_, rfl, Nat.zero_le _⟩
      · simp only [SerialMcp.shapeMatchContext, if_pos hend]
        intro w₁ h₁ w₂ h₂ w₃ h₃ w₄ h₄ w₅ h₅
        exact ⟨_, rfl, trivial⟩

end

end Checked

/-! ## Where a match in the history ends -/

/-- The lines in front of the first one that a glob matches in the history take,
    as decoded and with their terminators, no more bytes than the history has. -/
def GlobFits (m : Matcher) (hist : Bytes) : Prop :=
  ∀ pat, m.pattern = .glob pat → ∀ before line after,
    (fromUtf8Lossy hist).splitOn '\n' = before ++ line :: after →
    (∀ l ∈ before, pat (Matcher.stripCr l) = false) → pat (Matcher.stripCr line) = true →
    Matcher.lineBytes before ≤ hist.length

/-- **Only a glob finds a match that ends behind the history.** -/
theorem Checked.endsInside_iff {m : Matcher} (h : m.resetWindow = m) (hist : Bytes) (n : ℕ) :
    Checked.EndsInside m hist n ↔ GlobFits m hist := by
  obtain ⟨pattern, window, context, base, last, first⟩ := m
  simp only [Matcher.resetWindow, Matcher.mk.injEq, true_and] at h
  obtain ⟨rfl, rfl, rfl, rfl⟩ := h
  have hends (p : ℕ → Prop) : (∀ idx, (Matcher.pushBounded ⟨pattern, [], context, 0, none, false⟩
      hist n).1 = .found idx → p idx) ↔
      ∀ i, Matcher.search ⟨pattern, hist, context, 0, none, false⟩ = some i → p i := by
    simp only [Matcher.pushBounded_result, Matcher.check, List.nil_append, Nat.zero_add]
    rcases Matcher.search ⟨pattern, hist, context, 0, none, false⟩ with _ | i <;> simp
  rw [Checked.EndsInside, hends]
  rcases pattern with needle | re | pat
  · refine iff_of_true (fun i hi => ?_) fun pat hpat => by cases hpat
    exact findSubsequence_le needle.2 hi
  · refine iff_of_true (fun i hi => ?_) fun pat hpat => by cases hpat
    obtain ⟨p, hp, rfl⟩ := Option.map_eq_some_iff.1 hi
    have hle : p.1 ≤ p.2 ∧ p.2 ≤ hist.length := re.find_le _ _ hp
    show p.1 + 0 ≤ hist.length
    omega
  · constructor
    · rintro h _ ⟨⟩ before line after hlines hno hline
      refine h _ (Matcher.globLines_eq_some.2 ⟨before, line, after, hlines, hno, hline, ?_⟩)
      exact (Nat.zero_add _).symm
    · intro h i hi
      obtain ⟨before, line, after, hlines, hno, hline, rfl⟩ := Matcher.globLines_eq_some.1 hi
      have hle := h pat rfl before line after hlines hno hline
      show 0 + Matcher.lineBytes before + 0 ≤ hist.length
      omega

/-! ## The whole read -/

/-- The matcher of the request comes from `validate_match_request`. -/
def ReadRequest.Validated (crates : Crates) (req : ReadRequest) : Prop :=
  ∀ m ∈ req.matcher, ∃ mreq, validateMatchRequest crates mreq = .ok m

theorem ReadRequest.Validated.untouched {crates : Crates} {req : ReadRequest}
    (h : req.Validated crates) : Checked.Untouched req := by
  intro m hm
  obtain ⟨mreq, hvalid⟩ := h m hm
  obtain ⟨pattern, rfl⟩ := validateMatchRequest_eq_ok hvalid
  rfl

/-- The history of the read fits its glob, if the decoder can be built. -/
def HistoryFits (crates : Crates) (req : ReadRequest) (tr : List RxEvent) : Prop :=
  ∀ d₀, buildDecoder crates req = .ok d₀ → ∀ m ∈ req.matcher, GlobFits m (initialSlice tr).bytes

section
variable {crates : Crates} {turns : ℕ} {req : ReadRequest} {c : ℕ} {w w' : World}
  {tr : List RxEvent} {r : Except Stuck (ReadOutcome × ℕ)}

open Checked in
/-- What the rest of a read does behind its first slice `s`. -/
theorem Checked.rest_mirrors {d₀ : Option FrameDecoder} {t : ℕ} {s : RingSlice}
    (hd : buildDecoder crates req = .ok d₀) (hfresh : Untouched req)
    (hs : s.nextOffset = s.fromOffset + s.bytes.length) (hstop : s.nextOffset ≤ w.feed.ring.endOffset)
    (hlim : w.feed.ring.endOffset < streamLimit) (hc : s.bytes ≠ [] → c ≤ s.fromOffset)
    (hends : ∀ m ∈ req.matcher, EndsInside m (s.bytes.take req.maxBytes) req.maxBytes) :
    Mirrors act (RelyBelow streamLimit) (fun a b => b = a ∧ b ≠ .error .panic) w
      (do
        match ← SerialMcp.processInitial (req.driver c t d₀) s with
        | .error e => pure (.error e)
        | .ok (.continue drv) => SerialMcp.runWait turns drv s.nextOffset
        | .ok (.completion drv compl) => do
          let r ← drv.complete compl
          pure (.ok r)
        | .ok (.historicalContextMatch outcome finalCursor) => pure (.ok (outcome, finalCursor)))
      (do
        match ← processInitial (req.driver c t d₀) s with
        | .error e => pure (.error e)
        | .ok (.continue drv) => runWait turns drv s.nextOffset
        | .ok (.completion drv compl) => complete drv compl
        | .ok (.historicalContextMatch outcome finalCursor) => pure (.ok (outcome, finalCursor))) := by
  rw [processInitial_eq hfresh (built_held hd) hc (by omega) hends]
  have hinitial := processInitial_within (c := c) (t := t) (w := w) hfresh (built_held hd)
    (q := s.nextOffset) (by omega) hends
  refine .same ((wp_iff.2 fun tr w₁ a hr => ?_ : wp act _ _ (fun _ w₁ a =>
    s.nextOffset ≤ w₁.feed.ring.endOffset ∧ ∃ decision, a = .ok decision ∧
      InitialWithin s.nextOffset decision) w)) ?_
  · replace hr := hr.mono fun _ _ h => h.1
    exact ⟨hstop.trans (Feed.Grows.end_le (runs_rely hr)), hr.wp hinitial⟩
  rintro tr w₁ _ ⟨hend, decision, rfl, hin⟩
  cases decision with
  | «continue» drv => exact runWait_mirrors turns hin hend
  | completion drv compl =>
    exact complete_mirrors compl (le_trans hin (Nat.mul_le_mul_left 2 hend))
  | historicalContextMatch out final => exact .ret ⟨rfl, nofun⟩

theorem globFits_nil (m : Matcher) : GlobFits m [] := by
  intro pat hpat before line after hlines hno hline
  rcases before with _ | ⟨b, before⟩
  · exact Nat.le_refl _
  · have hlen := congrArg List.length hlines
    simp [fromUtf8Lossy, utf8Chunks] at hlen

open Checked in
/-- **A checked read is a read of the model, or panics.** -/
theorem Checked.readFromPrivateCursor_runs (hvalid : req.Validated crates)
    (hroom : w'.feed.ring.endOffset < streamLimit)
    (h : Runs act Rely w (Checked.readFromPrivateCursor crates turns req c) tr w' r) :
    (HistoryFits crates req tr →
      Runs act Rely w (SerialMcp.readFromPrivateCursor crates turns req c) tr w' r ∧
        r ≠ .error .panic) ∧
    (¬HistoryFits crates req tr → r = .error .panic) := by
  have hfresh := hvalid.untouched
  simp only [Checked.readFromPrivateCursor, Prog.perform_bind] at h
  cases h with
  | @call _ w₁ _ _ _ _ _ h₁ h =>
  cases h with
  | @call _ w₂ _ _ tr _ _ h₂ h =>
  obtain ⟨hlen, hnext, hstop⟩ := readFrom_within w₂.feed c req.maxBytes
  have hlim := (Feed.Grows.end_le (runs_rely h)).trans_lt hroom
  have hc := le_of_readFrom_ne w₂.feed (c := c) req.maxBytes
  have htake := List.take_of_length_le hlen
  rw [hnext.symm] at hstop
  rcases hd : buildDecoder crates req with e | d₀
  · simp only [hd] at h
    cases h
    refine ⟨fun _ => ⟨.call h₁ (.call h₂ ?_), nofun⟩, fun hno => absurd ?_ hno⟩
    · simp only [hd]
      exact .ret
    · intro d₀ hd'
      rw [hd] at hd'
      cases hd'
  simp only [hd] at h
  constructor
  · intro hfits
    have hends : ∀ m ∈ req.matcher, EndsInside m
        ((w₂.feed.ring.readFrom c req.maxBytes).bytes.take req.maxBytes) req.maxBytes := by
      intro m hm
      rw [endsInside_iff (hfresh m hm), htake]
      exact hfits d₀ hd m hm
    obtain ⟨a, hrun, rfl, hne⟩ := (rest_mirrors hd hfresh hnext hstop hlim hc hends).runs
      (runs_below h hroom)
    refine ⟨.call h₁ (.call h₂ ?_), hne⟩
    simp only [hd]
    exact hrun.mono fun _ _ h => h.1
  · intro hno
    obtain ⟨m, hm, hbehind⟩ : ∃ m ∈ req.matcher,
        ¬GlobFits m (w₂.feed.ring.readFrom c req.maxBytes).bytes := by
      by_contra hall
      refine hno fun d₁ _ m hm => ?_
      by_contra hbehind
      exact hall ⟨m, hm, hbehind⟩
    have hne : (w₂.feed.ring.readFrom c req.maxBytes).bytes ≠ [] := by
      intro hnil
      rw [hnil] at hbehind
      exact hbehind (globFits_nil m)
    have hlt : (w₂.feed.ring.readFrom c req.maxBytes).bytes.length < streamLimit := by
      rw [hnext] at hstop
      exact ((Nat.le_add_left ..).trans hstop).trans_lt hlim
    rw [← endsInside_iff (n := req.maxBytes) (hfresh m hm), ← htake] at hbehind
    dsimp only [act] at h
    rw [processInitial_panics hfresh hlt hne hm hbehind] at h
    cases h
    rfl

/-- **A read panics** exactly when a glob matches in its history behind lines
    that decode to more bytes than the history has. -/
theorem readFromPrivateCursor_inRange_iff (hvalid : req.Validated crates)
    (hroom : w'.feed.ring.endOffset < Checked.streamLimit)
    (h : Runs act Rely w (Checked.readFromPrivateCursor crates turns req c) tr w' r) :
    r ≠ .error .panic ↔ HistoryFits crates req tr := by
  obtain ⟨hfits, hpanics⟩ := Checked.readFromPrivateCursor_runs hvalid hroom h
  constructor
  · intro hr
    by_contra hno
    exact hr (hpanics hno)
  · intro hf
    exact (hfits hf).2

end

/-! ## Two histories of three bytes -/

/-- Globs without special characters: they match what they spell. -/
def plainGlobs : Crates := { Crates.refusing with globNew := fun pat => .ok (· == pat) }

/-- Until the line `a` is found. -/
def lineWanted : ReadRequest := { maxBytes := 8, matcher := some (.new (.glob (· == ['a'])) none) }

/-- A connection that has received the bytes. -/
def World.buffered (bs : Bytes) : World := .opened (Feed.eight.push bs)

theorem lineWanted_validated : lineWanted.Validated plainGlobs := by
  intro m hm
  obtain rfl := Option.some.inj hm
  refine ⟨⟨String.ofList ['a'], { mode := .glob }⟩, ?_⟩
  simp only [validateMatchRequest, decode, PatternEncoding.toEncoding, String.toList_ofList]
  rfl

/-- The line `b` in front of the match is valid. -/
theorem readFromPrivateCursor_inRange_valid :
    ∃ tr w' out final, Runs act Rely (World.buffered [98, 10, 97])
        (Checked.readFromPrivateCursor plainGlobs 0 lineWanted 0) tr w' (.ok (out, final)) ∧
      out.matchIndex = some 2 ∧ HistoryFits plainGlobs lineWanted tr := by
  have hrun : ∃ tr w' out final, Runs act Rely (World.buffered [98, 10, 97])
        (Checked.readFromPrivateCursor plainGlobs 0 lineWanted 0) tr w' (.ok (out, final)) ∧
      w'.feed.ring.endOffset = 3 ∧ out.matchIndex = some 2 :=
    ⟨_, _, _, _, runs_of_run Rely.refl [] (by simp) rfl, rfl, rfl⟩
  obtain ⟨tr, w', out, final, hrun, hend, hindex⟩ := hrun
  refine ⟨tr, w', out, final, hrun, hindex, ?_⟩
  refine (readFromPrivateCursor_inRange_iff lineWanted_validated ?_ hrun).1 nofun
  rw [hend]
  decide

/-- An invalid byte and a line feed in front of the match decode to four bytes,
    for a history of three. -/
theorem readFromPrivateCursor_not_inRange : ¬∀ (crates : Crates) (turns : ℕ) (req : ReadRequest)
    (c : ℕ) (w w' : World) (tr : List RxEvent) (r : Except Stuck (ReadOutcome × ℕ)),
    1 ≤ req.maxBytes → req.Validated crates →
    Runs act Rely w (Checked.readFromPrivateCursor crates turns req c) tr w' r →
    r ≠ .error .panic := by
  intro h
  have hrun : ∃ tr w', Runs act Rely (World.buffered [255, 10, 97])
      (Checked.readFromPrivateCursor plainGlobs 0 lineWanted 0) tr w' (.error .panic) :=
    ⟨_, _, runs_of_run Rely.refl [] (by simp) rfl⟩
  obtain ⟨tr, w', hrun⟩ := hrun
  exact h _ _ _ _ _ _ _ _ (by decide) lineWanted_validated hrun rfl

end SerialMcp
