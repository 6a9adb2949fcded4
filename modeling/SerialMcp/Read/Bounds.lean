/-
  `max_bytes` as the bound of a read.

  * `Sized`: what the wait loop keeps: the bytes accumulated fit in `max_bytes`,
    and neither the matcher nor the decoder holds more than them.
  * `Turns.sized`: the loop takes no more than fits, and ends with a payload and
    a cursor within the bound.
  * `readFromPrivateCursor_bounded`: a read keeps to the bound exactly when its
    initial bytes, counted twice, do.
-/
import SerialMcp.Framing.Size
import SerialMcp.Read.Replay

namespace SerialMcp

open Interact RxOp Cuts

theorem wrappingAdd_le (a b : ℕ) : wrappingAdd a b ≤ a + b := Nat.mod_le ..

theorem saturatingAdd_le (a b : ℕ) : saturatingAdd a b ≤ a + b := Nat.min_le_left ..

/-- What the completion of a read returns. -/
def ReadDriver.payload (drv : ReadDriver) (compl : ReadCompletion) : Bytes :=
  compl.payloadOverride.getD drv.acc.returnedBytes

/-! ## A framed chunk -/

/-- What the frames of a chunk decide, by whether one of them matches. -/
inductive FramedStep (drv : ReadDriver) (d : FrameDecoder) (s : Bytes) : ChunkDecision → Prop
  | goesOn {drv' : ReadDriver} (hnone : firstMatch drv.matcher (d.push s).1.frames = none)
      (h : Leaves d s drv drv') : FramedStep drv d s (.continue drv')
  | hits {drv' : ReadDriver} {completion : ℕ → ReadCompletion} {frame : Frame} {idx : ℕ}
      (hfirst : firstMatch drv.matcher (d.push s).1.frames = some (frame, idx))
      (h : Leaves d s drv drv')
      (hcompl : ∀ n, drv'.payload (completion n) = frame.data ∧ (completion n).finalCursor = n) :
      FramedStep drv d s (.stop drv' completion)
  | fails {drv' : ReadDriver} {completion : ℕ → ReadCompletion}
      (hnone : firstMatch drv.matcher (d.push s).1.frames = none) (h : Leaves d s drv drv')
      (hcompl : ∀ n, drv'.payload (completion n) = drv'.acc.returnedBytes ∧
        (completion n).finalCursor = n) :
      FramedStep drv d s (.stop drv' completion)

theorem framedDecision_step {drv : ReadDriver} {d : FrameDecoder} (hdec : drv.decoder = some d)
    (s : Bytes) : FramedStep drv d s (framedDecision drv d s) := by
  have hleaves := framedDecision_leaves hdec s
  simp only [framedDecision, processFramedChunk_eq, framedVerdict] at hleaves ⊢
  rcases hm : firstMatch drv.matcher (d.push s).1.frames with _ | ⟨frame, idx⟩
  · rcases he : (d.push s).1.error with _ | e
    · by_cases hmax : drv.maxFrames.any
          (· ≤ drv.acc.framesSeen + (d.push s).1.frames.length) = true
      · simp only [hm, he, hmax, if_true] at hleaves ⊢
        exact .fails hm hleaves fun _ => ⟨rfl, rfl⟩
      · simp only [hm, he, hmax, if_false, Bool.false_eq_true] at hleaves ⊢
        exact .goesOn hm hleaves
    · simp only [hm, he] at hleaves ⊢
      exact .fails hm hleaves fun _ => ⟨rfl, rfl⟩
  · simp only [hm] at hleaves ⊢
    exact .hits hm hleaves fun _ => ⟨rfl, rfl⟩

theorem mem_of_firstMatch {m : Option Matcher} {frames : List Frame} {frame : Frame} {idx : ℕ}
    (h : firstMatch m frames = some (frame, idx)) : frame ∈ frames := by
  obtain ⟨f, hf, hv⟩ := List.exists_of_findSome?_eq_some h
  obtain ⟨i, -, hpair⟩ := Option.map_eq_some_iff.1 hv
  rwa [← (Prod.mk.inj hpair).1]

/-! ## The wait loop -/

/-- A read whose bytes fit in `max_bytes`. -/
structure Sized (req : ReadRequest) (c : ℕ) (drv : ReadDriver) : Prop where
  original : drv.originalCursor = c
  maxBytes : drv.maxBytes = req.maxBytes
  room : drv.acc.returnedBytes.length ≤ req.maxBytes
  consumed : drv.acc.consumedOffset ≤ req.maxBytes
  decoder : ∀ d ∈ drv.decoder, d.held ≤ drv.acc.returnedBytes.length
  window : drv.decoder = none → ∀ m ∈ drv.matcher, m.window.length ≤ drv.acc.returnedBytes.length
  unmatched : drv.ctrl.Unmatched req.maxBytes

/-- What a live chunk `x` may decide. -/
inductive SizedStep (req : ReadRequest) (c : ℕ) (drv : ReadDriver) (x : Bytes) :
    ChunkDecision → Prop
  | goesOn {drv' : ReadDriver} (h : Sized req c drv')
      (hlen : drv'.acc.returnedBytes.length = drv.acc.returnedBytes.length + x.length) :
      SizedStep req c drv x (.continue drv')
  | stops {drv' : ReadDriver} {completion : ℕ → ReadCompletion}
      (h : ∀ n, (drv'.payload (completion n)).length ≤ req.maxBytes ∧
        (completion n).finalCursor = n) : SizedStep req c drv x (.stop drv' completion)

section
variable {req : ReadRequest} {c : ℕ} {drv drv' : ReadDriver} {x : Bytes}

/-- The driver with a live chunk counted in. -/
theorem Sized.absorb (h : Sized req c drv) (now : ℕ)
    (hx : drv.acc.returnedBytes.length + x.length ≤ req.maxBytes) :
    Sized req c (drv.absorb x now) ∧ (drv.absorb x now).acc.returnedBytes.length =
      drv.acc.returnedBytes.length + x.length := by
  have hlen : (drv.absorb x now).acc.returnedBytes.length =
      drv.acc.returnedBytes.length + x.length := List.length_append
  refine ⟨⟨h.original, h.maxBytes, hlen ▸ hx, ?_, fun d hd => ?_, fun hdec m hm => ?_,
    h.unmatched.resetSilenceTimer now⟩, hlen⟩
  · exact (Nat.min_le_right ..).trans_eq h.maxBytes
  · have := h.decoder d hd
    omega
  · have := h.window hdec m hm
    omega

theorem Sized.raw (h : Sized req c drv) (now : ℕ)
    (hx : drv.acc.returnedBytes.length + x.length ≤ req.maxBytes) (hdec : drv.decoder = none) :
    SizedStep req c drv x (rawDecision (drv.absorb x now) x) := by
  obtain ⟨habs, hlen⟩ := h.absorb now hx
  have hchunked : Chunked (drv.absorb x now) x (rawDecision (drv.absorb x now) x) :=
    rawDecision_chunked hdec (habs.maxBytes ▸ habs.unmatched)
  generalize rawDecision (drv.absorb x now) x = decision at hchunked ⊢
  cases hchunked with
  | @goesOn drv' hd hpushed hctrl hopen =>
    have hreturned : drv'.acc.returnedBytes.length = _ := (congrArg _ hd.returned).trans hlen
    have hnone : drv'.decoder = none := by
      rw [hd.decoder, show (drv.absorb x now).decoder = none from hdec, Option.map_none]
    refine .goesOn ⟨hd.original.trans habs.original, hd.maxBytes.trans habs.maxBytes,
      hd.returned ▸ habs.room, hd.consumed ▸ habs.consumed, fun d hd' => ?_, fun _ m hm => ?_,
      hctrl _ habs.unmatched⟩ hreturned
    · rw [hnone] at hd'
      cases hd'
    · rw [hpushed hdec] at hm
      obtain ⟨m₀, hm₀, rfl⟩ := Option.map_eq_some_iff.1 hm
      have hwindow := (m₀.pushBounded_window x (drv.absorb x now).maxBytes).length_le
      have := h.window hdec m₀ hm₀
      rw [List.length_append] at hwindow
      omega
  | @halts drv' completion hd hpushed hstops hcursor hstop hclean hinside =>
    have hreturned : drv'.acc.returnedBytes.length = _ := (congrArg _ hd.returned).trans hlen
    refine .stops fun n => ⟨?_, hcursor n⟩
    rcases hinside hdec n with hall | ⟨m, hm, payload, hpayload, hin⟩
    · rw [ReadDriver.payload, hall, Option.getD_some]
      omega
    · rw [ReadDriver.payload, hpayload, Option.getD_some]
      have hlen' := hin.length_le
      have := h.window hdec m hm
      rw [List.length_append] at hlen'
      omega

/-- A live chunk that fits, with a decoder. -/
theorem Sized.framed (h : Sized req c drv) (now : ℕ)
    (hx : drv.acc.returnedBytes.length + x.length ≤ req.maxBytes) {d : FrameDecoder}
    (hdec : drv.decoder = some d) :
    SizedStep req c drv x (framedDecision (drv.absorb x now) d x) := by
  obtain ⟨habs, hlen⟩ := h.absorb now hx
  have hdec' : (drv.absorb x now).decoder = some d := hdec
  have hstep := framedDecision_step hdec' x
  have hkept {drv' : ReadDriver} (hl : Leaves d x (drv.absorb x now) drv') :
      drv'.acc.returnedBytes.length = drv.acc.returnedBytes.length + x.length :=
    (congrArg _ hl.returned).trans hlen
  generalize framedDecision (drv.absorb x now) d x = decision at hstep ⊢
  obtain ⟨hframes, hheld⟩ := d.push_holds x
  have hd := h.decoder d hdec
  cases hstep with
  | @goesOn drv' hnone hl =>
    have hreturned := hkept hl
    have hsome : drv'.decoder = some (d.push x).2 := by
      rw [hl.decoder, hdec', Option.map_some]
    refine .goesOn ⟨hl.original.trans habs.original, hl.maxBytes.trans habs.maxBytes,
      hl.returned ▸ habs.room, hl.consumed ▸ habs.consumed, fun d' hd' => ?_, fun hno => ?_,
      hl.ctrl ▸ habs.unmatched⟩ hreturned
    · rw [hsome] at hd'
      obtain rfl := Option.some.inj hd'
      omega
    · rw [hsome] at hno
      cases hno
  | hits hfirst hl hcompl =>
    refine .stops fun n => ⟨?_, (hcompl n).2⟩
    have := hframes _ (mem_of_firstMatch hfirst)
    rw [(hcompl n).1]
    omega
  | fails hnone hl hcompl =>
    have hreturned := hkept hl
    refine .stops fun n => ⟨?_, (hcompl n).2⟩
    rw [(hcompl n).1]
    omega

/-- **Step**: a live chunk that fits. -/
theorem Sized.live (h : Sized req c drv) (now : ℕ)
    (hx : drv.acc.returnedBytes.length + x.length ≤ req.maxBytes) :
    SizedStep req c drv x (liveDecision (drv.absorb x now) x) := by
  rcases hdec : drv.decoder with _ | d
  · have hraw := h.raw now hx hdec
    simpa only [liveDecision, ReadDriver.absorb, hdec] using hraw
  · have hframed := h.framed now hx hdec
    simpa only [liveDecision, ReadDriver.absorb, hdec] using hframed

/-- A completion within the bound: its payload fits, and its cursor is at most
    `max_bytes` from the first one, or not behind the pieces taken. -/
structure EndsWithin (req : ReadRequest) (c : ℕ) (ps : List (Piece UInt8)) (drv : ReadDriver)
    (compl : ReadCompletion) : Prop where
  payload : (drv.payload compl).length ≤ req.maxBytes
  cursor : compl.finalCursor ≤ c + req.maxBytes ∨ ∃ p ∈ ps, compl.finalCursor ≤ p.stop

variable {clocked : ℕ} {w w' : World} {tr : List RxEvent} {compl : ReadCompletion}

theorem Sized.fits {s : RingSlice} (h : Sized req c drv) (hl : TakesLive drv clocked w tr w' s) :
    drv.acc.returnedBytes.length + s.bytes.length ≤ req.maxBytes := by
  have hlen := hl.length_le
  have hroom := h.room
  rw [h.maxBytes] at hlen
  omega

/-- **Run**: the wait loop takes what fits, and ends within the bound. -/
theorem Turns.sized (h : Turns drv clocked w tr w' drv' compl) (hs : Sized req c drv) :
    drv.acc.returnedBytes.length + (items (taken tr)).length ≤ req.maxBytes ∧
      EndsWithin req c (taken tr) drv' compl := by
  induction h with
  | @last drv clocked w tr w' drv' compl h =>
    cases h with
    | @idle o final e hreason hmatched hindex hend hfinal rely htr =>
      rw [htr]
      refine ⟨hs.room, hs.room, .inl ?_⟩
      have h₁ := saturatingAdd_le drv.originalCursor drv.acc.consumedOffset
      have h₂ := wrappingAdd_le drv.originalCursor drv.acc.consumedOffset
      have h₃ := hs.consumed
      rw [hs.original] at h₁ h₂ hfinal
      show final ≤ _
      omega
    | @stops s now e drv' completion hl hdecision hend =>
      have hroom := hs.fits hl
      have hstep := hs.live now hroom
      rw [hdecision] at hstep
      rw [hl.taken, items_piece]
      refine ⟨hroom, ?_⟩
      cases hstep with
      | stops hstop =>
        obtain ⟨hpayload, hcursor⟩ := hstop (min (wrappingAdd s.fromOffset s.bytes.length) e)
        refine ⟨hpayload, .inr ⟨s.piece, List.mem_singleton_self _, ?_⟩⟩
        rw [hcursor]
        exact (Nat.min_le_left ..).trans (wrappingAdd_le ..)
    | @fills s now e drv' hl hdecision hfull hend =>
      have hroom := hs.fits hl
      have hstep := hs.live now hroom
      rw [hdecision] at hstep
      rw [hl.taken, items_piece]
      refine ⟨hroom, ?_⟩
      cases hstep with
      | goesOn hs' hlen =>
        refine ⟨hs'.room, .inl ?_⟩
        have h₁ := saturatingAdd_le drv'.originalCursor drv'.acc.consumedOffset
        have h₂ := hs'.consumed
        rw [hs'.original] at h₁
        show min (saturatingAdd drv'.originalCursor drv'.acc.consumedOffset) e ≤ _
        rw [hs'.original]
        omega
  | @more drv clocked w tr w₁ drv₁ clocked₁ tr' w' drv' compl h hturns ih =>
    rw [taken_append]
    cases h with
    | waits hctrl rely htr =>
      rw [htr, List.nil_append]
      exact ih { hs with unmatched := (SameMatch.of_reset hctrl).unmatched hs.unmatched }
    | @goesOn s now drv₁ hl hdecision hroom =>
      have hstep := hs.live now (hs.fits hl)
      rw [hdecision] at hstep
      cases hstep with
      | goesOn hs' hlen =>
        obtain ⟨hcount, hend⟩ := ih hs'
        rw [hl.taken]
        refine ⟨?_, hend.payload, ?_⟩
        · rw [items_append, items_piece, List.length_append]
          omega
        · rcases hend.cursor with hc | ⟨p, hp, hc⟩
          · exact .inl hc
          · exact .inr ⟨p, List.mem_append_right _ hp, hc⟩

end

/-! ## The initial bytes -/

/-- The end offsets of the ring that a trace looked at. -/
def endsOf : List RxEvent → List ℕ
  | [] => []
  | ⟨.endOffset, e⟩ :: tr => e :: endsOf tr
  | _ :: tr => endsOf tr

theorem endsOf_append (tr tr' : List RxEvent) : endsOf (tr ++ tr') = endsOf tr ++ endsOf tr' := by
  induction tr with
  | nil => rfl
  | cons e tr ih =>
    obtain ⟨op, r⟩ := e
    cases op with
    | endOffset => exact congrArg (r :: ·) ih
    | _ => exact ih

/-- The first end offset that a trace looked at. -/
def endSeen (tr : List RxEvent) : ℕ := (endsOf tr).headD 0

theorem endSeen_append {tr : List RxEvent} {e : ℕ} (h : endsOf tr = [e]) (tr' : List RxEvent) :
    endSeen (tr ++ tr') = e := by
  rw [endSeen, endsOf_append, h]
  rfl

/-- Before its initial bytes are decoded: `n` bytes are returned and counted. -/
structure Filled (req : ReadRequest) (c : ℕ) (d : FrameDecoder) (n : ℕ) (drv : ReadDriver) :
    Prop where
  original : drv.originalCursor = c
  maxBytes : drv.maxBytes = req.maxBytes
  decoder : drv.decoder = some d
  held : d.held = 0
  matcher : drv.matcher.map Matcher.resetWindow = req.matcher.map Matcher.resetWindow
  returned : drv.acc.returnedBytes.length = n
  consumed : drv.acc.consumedOffset = n
  unmatched : drv.ctrl.Unmatched req.maxBytes

/-- How the initial bytes of a framed read end it or not, `total` being what is
    returned and counted with them. -/
inductive FramedEnd (req : ReadRequest) (c : ℕ) (d : FrameDecoder) (s₀ : RingSlice) (total : ℕ)
    (tr : List RxEvent) : InitialDecision → Prop
  | goesOn {drv : ReadDriver}
      (hnone : firstMatch req.matcher (d.push s₀.bytes).1.frames = none)
      (hmax : drv.maxBytes = req.maxBytes) (hreturned : drv.acc.returnedBytes.length = total)
      (hsized : total ≤ req.maxBytes → Sized req c drv) :
      FramedEnd req c d s₀ total tr (.continue drv)
  | hits {drv : ReadDriver} {compl : ReadCompletion} {e : ℕ}
      (hfirst : (firstMatch req.matcher (d.push s₀.bytes).1.frames).isSome = true)
      (hpayload : (drv.payload compl).length ≤ s₀.bytes.length)
      (hcursor : compl.finalCursor = min (wrappingAdd s₀.fromOffset total) e)
      (hends : endsOf tr = [e]) : FramedEnd req c d s₀ total tr (.completion drv compl)
  | fails {drv : ReadDriver} {compl : ReadCompletion}
      (hnone : firstMatch req.matcher (d.push s₀.bytes).1.frames = none)
      (hpayload : (drv.payload compl).length = total)
      (hcursor : compl.finalCursor ≤ s₀.fromOffset + total) :
      FramedEnd req c d s₀ total tr (.completion drv compl)

section
variable {req : ReadRequest} {c n : ℕ} {d : FrameDecoder} {s₀ : RingSlice} {drv : ReadDriver}
  {w : World}

theorem FramedEnd.after {total : ℕ} {tr : List RxEvent} {decision : InitialDecision}
    (h : FramedEnd req c d s₀ total tr decision) {tr₀ : List RxEvent} (h₀ : endsOf tr₀ = []) :
    FramedEnd req c d s₀ total (tr₀ ++ tr) decision := by
  cases h with
  | goesOn hnone hmax hreturned hsized => exact .goesOn hnone hmax hreturned hsized
  | hits hfirst hpayload hcursor hends =>
    refine .hits hfirst hpayload hcursor ?_
    rw [endsOf_append, h₀, List.nil_append, hends]
  | fails hnone hpayload hcursor => exact .fails hnone hpayload hcursor

theorem Filled.framedInitial_wp (h : Filled req c d n drv) (hne : s₀.bytes ≠ [])
    (hlen : s₀.bytes.length ≤ req.maxBytes) :
    wp act Rely (framedInitial drv s₀)
      (fun tr _ => FramedEnd req c d s₀ (n + s₀.bytes.length) tr) w := by
  have hempty : s₀.bytes.isEmpty = false := by simpa using hne
  have hchunk : s₀.bytes.take drv.maxBytes = s₀.bytes :=
    List.take_of_length_le (h.maxBytes ▸ hlen)
  have hdec : (drv.absorbInitial s₀.bytes).decoder = some d := h.decoder
  have hstep := framedDecision_step hdec s₀.bytes
  have hfirst : firstMatch (drv.absorbInitial s₀.bytes).matcher (d.push s₀.bytes).1.frames =
      firstMatch req.matcher (d.push s₀.bytes).1.frames := firstMatch_congr h.matcher _
  obtain ⟨hframes, hheld⟩ := d.push_holds s₀.bytes
  rw [h.held, Nat.zero_add] at hframes hheld
  have hreturned {drv' : ReadDriver} (hl : Leaves d s₀.bytes (drv.absorbInitial s₀.bytes) drv') :
      drv'.acc.returnedBytes.length = n + s₀.bytes.length := by
    rw [hl.returned, ReadDriver.absorbInitial, List.length_append, h.returned]
  have hconsumed {drv' : ReadDriver} (hl : Leaves d s₀.bytes (drv.absorbInitial s₀.bytes) drv') :
      drv'.acc.consumedOffset = n + s₀.bytes.length := by
    rw [hl.consumed, ReadDriver.absorbInitial, h.consumed]
  simp only [framedInitial, h.decoder, hempty, hchunk]
  generalize framedDecision (drv.absorbInitial s₀.bytes) d s₀.bytes = decision at hstep ⊢
  cases hstep with
  | @goesOn drv' hnone hl =>
    refine .goesOn (hfirst ▸ hnone) (hl.maxBytes.trans h.maxBytes) (hreturned hl) fun hroom => ?_
    have hsome : drv'.decoder = some (d.push s₀.bytes).2 := by
      rw [hl.decoder, hdec, Option.map_some]
    refine ⟨hl.original.trans h.original, hl.maxBytes.trans h.maxBytes, (hreturned hl).trans_le hroom,
      (hconsumed hl).trans_le hroom, fun d' hd' => ?_, fun hno => ?_, hl.ctrl ▸ h.unmatched⟩
    · rw [hsome] at hd'
      obtain rfl := Option.some.inj hd'
      rw [hreturned hl]
      omega
    · rw [hsome] at hno
      cases hno
  | hits hf hl hcompl =>
    intro w₁ h₁
    refine .hits (by rw [← hfirst, hf]; rfl) ?_ ((hcompl _).2.trans ?_) rfl
    · rw [(hcompl _).1]
      exact hframes _ (mem_of_firstMatch hf)
    · rw [hconsumed hl]
  | fails hnone hl hcompl =>
    intro w₁ h₁
    refine .fails (hfirst ▸ hnone) ?_ ?_
    · rw [(hcompl _).1, hreturned hl]
    · rw [(hcompl _).2, hconsumed hl]
      exact (Nat.min_le_left ..).trans (wrappingAdd_le ..)

/-- The initial bytes keep to `max_bytes`: they are counted once, or fit even
    counted twice, or one of their frames matches, and the end `e` of the ring
    or the overflow keeps the cursor back. -/
def SizeOk (req : ReadRequest) (d₀ : Option FrameDecoder) (s₀ : RingSlice) (e : ℕ) : Prop :=
  ¬CountsTwice req s₀ ∨ 2 * s₀.bytes.length ≤ req.maxBytes ∨
    (∃ d ∈ d₀, (firstMatch req.matcher (d.push s₀.bytes).1.frames).isSome = true) ∧
      (e ≤ s₀.fromOffset + req.maxBytes ∨ u64Size ≤ s₀.fromOffset + 2 * s₀.bytes.length)

/-- An initial phase within the bound. -/
inductive InitialFits (req : ReadRequest) (c : ℕ) (s₀ : RingSlice) : InitialDecision → Prop
  | goesOn {drv : ReadDriver} (h : Sized req c drv)
      (hcount : s₀.bytes.length ≤ drv.acc.returnedBytes.length) :
      InitialFits req c s₀ (.continue drv)
  | completion {drv : ReadDriver} {compl : ReadCompletion}
      (hpayload : (drv.payload compl).length ≤ req.maxBytes)
      (hcursor : compl.finalCursor ≤ s₀.fromOffset + req.maxBytes) :
      InitialFits req c s₀ (.completion drv compl)
  | context {out : ReadOutcome} {final : ℕ} (hpayload : out.bytes.length ≤ req.maxBytes)
      (hcursor : final ≤ s₀.fromOffset + req.maxBytes) :
      InitialFits req c s₀ (.historicalContextMatch out final)

/-- An initial phase that breaks the bound. -/
inductive InitialBursts (req : ReadRequest) (s₀ : RingSlice) : InitialDecision → Prop
  | goesOn {drv : ReadDriver} (hmax : drv.maxBytes = req.maxBytes)
      (hfull : req.maxBytes < drv.acc.returnedBytes.length) : InitialBursts req s₀ (.continue drv)
  | payload {drv : ReadDriver} {compl : ReadCompletion}
      (hpayload : req.maxBytes < (drv.payload compl).length) :
      InitialBursts req s₀ (.completion drv compl)
  | cursor {drv : ReadDriver} {compl : ReadCompletion} (hne : s₀.bytes ≠ [])
      (hcursor : s₀.fromOffset + req.maxBytes < compl.finalCursor) :
      InitialBursts req s₀ (.completion drv compl)

theorem FramedEnd.fits {tr : List RxEvent} {decision : InitialDecision}
    (h : FramedEnd req c d s₀ n tr decision) (hle : s₀.bytes.length ≤ n) (hroom : n ≤ req.maxBytes) :
    InitialFits req c s₀ decision := by
  cases h with
  | goesOn hnone hmax hreturned hsized =>
    exact .goesOn (hsized hroom) (hle.trans_eq hreturned.symm)
  | hits hfirst hpayload hcursor hends =>
    refine .completion (hpayload.trans (hle.trans hroom)) ?_
    have := wrappingAdd_le s₀.fromOffset n
    omega
  | fails hnone hpayload hcursor =>
    exact .completion (hpayload.trans_le hroom) (hcursor.trans (Nat.add_le_add_left hroom _))

/-- **Bytes that are counted twice** fit exactly if they meet `SizeOk`. -/
theorem FramedEnd.twice {tr : List RxEvent} {decision : InitialDecision}
    (h : FramedEnd req c d s₀ (2 * s₀.bytes.length) tr decision)
    (hlen : s₀.bytes.length ≤ req.maxBytes) (hlt : s₀.fromOffset + s₀.bytes.length < u64Size)
    (htwice : CountsTwice req s₀) (tr' : List RxEvent) :
    (SizeOk req (some d) s₀ (endSeen (tr ++ tr')) → InitialFits req c s₀ decision) ∧
      (¬SizeOk req (some d) s₀ (endSeen (tr ++ tr')) → InitialBursts req s₀ decision) := by
  by_cases hroom : 2 * s₀.bytes.length ≤ req.maxBytes
  · exact ⟨fun _ => h.fits (by omega) hroom, fun hno => absurd (.inr (.inl hroom)) hno⟩
  have hok (e : ℕ) : SizeOk req (some d) s₀ e ↔
      (firstMatch req.matcher (d.push s₀.bytes).1.frames).isSome = true ∧
        (e ≤ s₀.fromOffset + req.maxBytes ∨ u64Size ≤ s₀.fromOffset + 2 * s₀.bytes.length) := by
    simp [SizeOk, htwice, hroom]
  rw [hok]
  cases h with
  | goesOn hnone hmax hreturned hsized =>
    rw [hnone]
    exact ⟨fun h => absurd h.1 Bool.false_ne_true, fun _ => .goesOn hmax (by omega)⟩
  | @hits drv compl e hfirst hpayload hcursor hends =>
    rw [endSeen_append hends, hfirst]
    constructor
    · rintro ⟨-, he⟩
      refine .completion (hpayload.trans hlen) ?_
      rcases he with he | he
      · omega
      · -- the cursor wraps around to less than the bytes counted
        have hwrap : wrappingAdd s₀.fromOffset (2 * s₀.bytes.length) =
            s₀.fromOffset + 2 * s₀.bytes.length - u64Size := by
          rw [wrappingAdd, Nat.mod_eq_sub_mod he, Nat.mod_eq_of_lt (by omega)]
        omega
    · intro hno
      have hno' := not_or.1 fun he => hno ⟨rfl, he⟩
      refine .cursor htwice.1 ?_
      rw [hcursor, wrappingAdd_eq (by omega)]
      omega
  | fails hnone hpayload hcursor =>
    rw [hnone]
    exact ⟨fun h => absurd h.1 Bool.false_ne_true, fun _ => .payload (by omega)⟩

theorem catPath_fits (hmax : drv.maxBytes = req.maxBytes) :
    wp act Rely (catPath drv s₀) (fun _ _ => InitialFits req c s₀) w := by
  intro w₁ h₁
  have hlen : (s₀.bytes.take drv.maxBytes).length ≤ req.maxBytes :=
    hmax ▸ List.length_take_le ..
  refine .completion hlen ((Nat.min_le_left ..).trans ((saturatingAdd_le ..).trans ?_))
  exact Nat.add_le_add_left hlen _

theorem historyMatch_fits {m : Matcher} {idx : ℕ} (hlen : s₀.bytes.length ≤ req.maxBytes) :
    wp act Rely (historyMatch drv s₀ s₀.bytes m idx)
      (fun _ _ r => ∀ decision, r = .ok decision → InitialFits req c s₀ decision) w := by
  have hcursor (e : ℕ) (hle : idx + m.needleLen.getD 0 ≤ s₀.bytes.length) :
      min (saturatingAdd s₀.fromOffset (idx + m.needleLen.getD 0)) e ≤
        s₀.fromOffset + req.maxBytes :=
    (Nat.min_le_left ..).trans ((saturatingAdd_le ..).trans
      (Nat.add_le_add_left (hle.trans hlen) _))
  rw [historyMatch]
  refine wp_ite (fun _ decision hd => by cases hd) fun hle => ?_
  rcases hm : m.contextAmount with _ | context
  · rintro w₁ h₁ decision ⟨⟩
    refine .completion ?_ (hcursor _ (Nat.le_of_not_lt hle))
    exact ((List.take_prefix ..).length_le).trans hlen
  · dsimp only
    rcases hsh : shapeMatchContext s₀.bytes idx (m.needleLen.getD 0) (some context) with _ | shaped
    · rintro decision ⟨⟩
    · rintro w₁ h₁ w₂ h₂ w₃ h₃ w₄ h₄ w₅ h₅ decision ⟨⟩
      refine .context ?_ (hcursor _ (Nat.le_of_not_lt hle))
      exact ((shapeMatchContext_suffix hsh).length_le.trans
        (List.take_prefix ..).length_le).trans hlen

/-- A matcher that found nothing in the bytes holds no more than them. -/
theorem window_le {m : Matcher} (h : m.window = []) (x : Bytes) (k : ℕ) :
    (m.pushBounded x k).2.window.length ≤ x.length := by
  have hle := (m.pushBounded_window x k).length_le
  rwa [h, List.nil_append] at hle

variable {crates : Crates} {d₀ : Option FrameDecoder} {t : ℕ}

theorem built_held (hd : buildDecoder crates req = .ok d₀) : ∀ d ∈ d₀, d.held = 0 := by
  rintro d rfl
  rcases hf : req.framing with _ | cfg <;> simp only [buildDecoder, hf] at hd
  · cases hd
  · rcases hnew : FrameDecoder.new crates cfg req.parser with e | d' <;>
      simp only [hnew, Except.map, Except.ok.injEq, Option.some.injEq, reduceCtorEq] at hd
    exact hd ▸ FrameDecoder.new_held hnew

theorem Sized.start (hd : buildDecoder crates req = .ok d₀) (hfresh : req.Fresh) :
    Sized req c (req.driver c t d₀) := by
  refine ⟨rfl, rfl, Nat.zero_le _, Nat.zero_le _, fun d hd' => ?_, fun _ m hm => ?_, rfl, rfl, rfl⟩
  · exact (built_held hd d hd').le
  · rw [hfresh m hm]
    exact Nat.le_refl _

theorem Filled.start {d : FrameDecoder} (hd : buildDecoder crates req = .ok (some d)) :
    Filled req c d 0 (req.driver c t (some d)) :=
  ⟨rfl, rfl, rfl, built_held hd d rfl, rfl, rfl, rfl, rfl, rfl, rfl⟩

/-- **The initial phase** keeps to `max_bytes` exactly if it meets `SizeOk`. -/
theorem processInitial_size (hd : buildDecoder crates req = .ok d₀) (hfresh : req.Fresh)
    (hlen : s₀.bytes.length ≤ req.maxBytes) (hlt : s₀.fromOffset + s₀.bytes.length < u64Size) :
    wp act Rely (processInitial (req.driver c t d₀) s₀) (fun tr _ r => ∀ decision,
      r = .ok decision → ∀ tr',
        (SizeOk req d₀ s₀ (endSeen (tr ++ tr')) → InitialFits req c s₀ decision) ∧
        (¬SizeOk req d₀ s₀ (endSeen (tr ++ tr')) → InitialBursts req s₀ decision)) w := by
  have honce {p : RxProg (Except Stuck InitialDecision)} (ho : ¬CountsTwice req s₀)
      (hp : wp act Rely p (fun _ _ r => ∀ decision, r = .ok decision →
        InitialFits req c s₀ decision) w) :
      wp act Rely p (fun tr _ r => ∀ decision, r = .ok decision → ∀ tr',
        (SizeOk req d₀ s₀ (endSeen (tr ++ tr')) → InitialFits req c s₀ decision) ∧
        (¬SizeOk req d₀ s₀ (endSeen (tr ++ tr')) → InitialBursts req s₀ decision)) w :=
    wp_mono (fun _ _ _ h decision hr _ =>
      ⟨fun _ => h decision hr, fun hno => absurd (.inl ho) hno⟩) hp
  have hsome := buildDecoder_isSome hd
  have hstart : Sized req c (req.driver c t d₀) := .start hd hfresh
  have hmax : (req.driver c t d₀).maxBytes = req.maxBytes := rfl
  rw [processInitial_path]
  by_cases hne : s₀.bytes = []
  · rw [if_pos hne]
    refine honce (fun h => h.1 hne) ?_
    have hgoes : framedInitial (req.driver c t d₀) s₀ = pure (.continue (req.driver c t d₀)) := by
      rcases d₀ with _ | d <;> simp [framedInitial, ReadRequest.driver, hne]
    rw [hgoes]
    rintro decision ⟨⟩
    exact .goesOn hstart (by rw [hne]; exact Nat.zero_le _)
  rw [if_neg hne]
  have htake : s₀.bytes.take req.maxBytes = s₀.bytes := List.take_of_length_le hlen
  rcases hm : req.matcher with _ | m
  · simp only [show (req.driver c t d₀).matcher = none from hm]
    refine honce (fun h => ?_) ?_
    · have hmatcher := h.2.1
      rw [hm] at hmatcher
      cases hmatcher
    rcases d₀ with _ | d
    · refine wp_seq (catPath_fits (c := c) hmax) ?_
      rintro tr w' decision hfits _ ⟨⟩
      exact hfits
    · refine wp_seq ((Filled.start hd).framedInitial_wp hne hlen) ?_
      rintro tr w' decision hend _ ⟨⟩
      rw [Nat.zero_add] at hend
      exact hend.fits (Nat.le_refl _) hlen
  · simp only [show (req.driver c t d₀).matcher = some m from hm, hmax, htake]
    rcases hpush : (m.pushBounded s₀.bytes req.maxBytes).1 with _ | idx
    · have hhist : historyEnd req s₀ = none := by rw [historyEnd_some hne hm, hpush]
      have hun {now : ℕ} : (((req.driver c t d₀).ctrl.resetSilenceTimer now).pushData
          s₀.bytes.length s₀.bytes.length (some .noMatch)).2.Unmatched req.maxBytes :=
        (hstart.unmatched.resetSilenceTimer now).pushData _ _
      rcases d₀ with _ | d
      · refine honce (fun h => ?_) ?_
        · rw [h.2.2.1] at hsome
          cases hsome
        · rintro w₁ h₁ decision ⟨⟩
          refine .goesOn ⟨rfl, rfl, hlen, hlen, by simp [ReadDriver.holding, ReadRequest.driver],
            fun _ m' hm' => ?_, hun⟩ (Nat.le_refl _)
          obtain rfl := Option.some.inj hm'
          exact window_le (hfresh m hm) s₀.bytes req.maxBytes
      · simp only [Prog.perform_bind, wp_call]
        intro w₁ h₁
        have htwice : CountsTwice req s₀ := ⟨hne, by rw [hm]; rfl, hsome.symm, hhist⟩
        have hreset : (some (m.pushBounded s₀.bytes req.maxBytes).2).map Matcher.resetWindow =
            req.matcher.map Matcher.resetWindow := by
          rw [hm]
          exact congrArg some (Matcher.resetWindow_pushBounded m s₀.bytes req.maxBytes)
        have hfilled : Filled req c d s₀.bytes.length
            { (req.driver c t (some d)).holding s₀.bytes s₀.bytes.length with
              matcher := some (m.pushBounded s₀.bytes req.maxBytes).2
              ctrl := (((req.driver c t (some d)).ctrl.resetSilenceTimer w₁.now).pushData
                s₀.bytes.length s₀.bytes.length (some .noMatch)).2 } :=
          ⟨rfl, rfl, rfl, built_held hd d rfl, hreset, rfl, rfl, hun⟩
        refine wp_seq (hfilled.framedInitial_wp hne hlen) ?_
        rintro tr w' decision hend _ ⟨⟩ tr'
        rw [← Nat.two_mul] at hend
        have hafter : FramedEnd req c d s₀ _ ([⟨.now, w₁.now⟩] ++ tr) decision := hend.after rfl
        rw [List.append_nil]
        exact hafter.twice hlen hlt htwice tr'
    · refine honce (fun h => ?_) (historyMatch_fits hlen)
      have hnone := h.2.2.2
      rw [historyEnd_some hne hm, hpush] at hnone
      cases hnone

end

/-! ## A loop without room -/

section
variable {req : ReadRequest} {c clocked : ℕ} {drv drv' : ReadDriver} {compl : ReadCompletion}
  {w w' : World} {tr : List RxEvent}

/-- A read that returns `max_bytes` already takes nothing more, and returns what
    it has. -/
theorem Turns.full (h : Turns drv clocked w tr w' drv' compl)
    (hfull : drv.maxBytes ≤ drv.acc.returnedBytes.length) :
    drv'.payload compl = drv.acc.returnedBytes := by
  have hnothing {drv : ReadDriver} {clocked : ℕ} {w w' : World} {tr : List RxEvent} {s : RingSlice}
      (hl : TakesLive drv clocked w tr w' s)
      (hfull : drv.maxBytes ≤ drv.acc.returnedBytes.length) : False := by
    have hlen := hl.length_le
    have hpos := List.length_pos_of_ne_nil hl.ne
    omega
  induction h with
  | last h =>
    cases h with
    | idle hreason hmatched hindex hend hfinal rely htr => rfl
    | stops hl hdecision hend => exact (hnothing hl hfull).elim
    | fills hl hdecision hfull' hend => exact (hnothing hl hfull).elim
  | more h hturns ih =>
    cases h with
    | waits hctrl rely htr => exact ih hfull
    | goesOn hl hdecision hroom => exact (hnothing hl hfull).elim

end

/-! ## The whole read -/

/-- A read within `max_bytes`: its payload, the bytes it took from the ring, and
    the bytes its cursor passed from the first one on, unless they were lost. -/
structure Bounded (req : ReadRequest) (c : ℕ) (tr : List RxEvent) (out : ReadOutcome) (final : ℕ) :
    Prop where
  payload : out.bytes.length ≤ req.maxBytes
  taken : (items (taken tr)).length ≤ req.maxBytes
  cursor : final ≤ max c (initialSlice tr).fromOffset + req.maxBytes ∨
    ∃ p ∈ SerialMcp.taken tr, final ≤ p.stop

/-- The initial bytes of the read keep to `max_bytes`. -/
def SizeKept (crates : Crates) (req : ReadRequest) (tr : List RxEvent) : Prop :=
  ∀ d₀, buildDecoder crates req = .ok d₀ → SizeOk req d₀ (initialSlice tr) (endSeen tr)

section
variable {crates : Crates} {turns : ℕ} {req : ReadRequest} {c : ℕ} {w w' : World}
  {tr : List RxEvent} {out : ReadOutcome} {final : ℕ} {s₀ : RingSlice}

theorem le_of_readFrom_ne (f : Feed) (n : ℕ) (h : (f.ring.readFrom c n).bytes ≠ []) :
    c ≤ (f.ring.readFrom c n).fromOffset := by
  rw [le_fromOffset_iff]
  by_contra hbeyond
  have hclamp : f.ring.clampOffset c = f.stream.length := by
    rw [RxRing.clampOffset, ← f.refines.stop]
    omega
  rw [RxRing.readFrom_eq f.refines, hclamp, List.drop_length, List.take_nil] at h
  exact h rfl

/-- A read that ends with its initial slice is within the bound if that fits. -/
theorem InitialFits.bounded {drv' : ReadDriver} {compl : ReadCompletion}
    (h : InitialFits req c s₀ (.completion drv' compl)) (hbytes : out.bytes = drv'.payload compl)
    (hfinal : final = compl.finalCursor) (hslice : initialSlice tr = s₀)
    (htaken : taken tr = s₀.pieces) (hlen : s₀.bytes.length ≤ req.maxBytes) :
    Bounded req c tr out final := by
  cases h with
  | completion hpayload hcursor =>
    refine ⟨hbytes ▸ hpayload, ?_, .inl ?_⟩
    · rwa [htaken, items_pieces]
    · rw [hslice, hfinal]
      exact hcursor.trans (Nat.add_le_add_right (Nat.le_max_right ..) _)

/-- A read that ends with its initial slice breaks the bound if that does. -/
theorem InitialBursts.not_bounded {drv' : ReadDriver} {compl : ReadCompletion}
    (h : InitialBursts req s₀ (.completion drv' compl)) (hbytes : out.bytes = drv'.payload compl)
    (hfinal : final = compl.finalCursor) (hslice : initialSlice tr = s₀)
    (htaken : taken tr = s₀.pieces) (hlen : s₀.bytes.length ≤ req.maxBytes)
    (hc : s₀.bytes ≠ [] → c ≤ s₀.fromOffset) : ¬Bounded req c tr out final := by
  intro hb
  cases h with
  | payload hpayload =>
    have := hb.payload
    rw [hbytes] at this
    omega
  | cursor hne hcursor =>
    rcases hb.cursor with hle | ⟨p, hp, hle⟩
    · rw [hslice, Nat.max_eq_right (hc hne)] at hle
      omega
    · rw [htaken, RingSlice.pieces_of_ne hne, List.mem_singleton] at hp
      rw [hp] at hle
      have hstop : s₀.piece.stop = s₀.fromOffset + s₀.bytes.length := rfl
      omega

/-- A read that fits so far stays within the bound in its loop. -/
theorem InitialFits.bounded_loop {drv₁ drv' : ReadDriver} {compl : ReadCompletion} {clocked : ℕ}
    {w₁ w₂ : World} {tr' : List RxEvent} (h : InitialFits req c s₀ (.continue drv₁))
    (hturns : Turns drv₁ clocked w₁ tr' w₂ drv' compl) (hbytes : out.bytes = drv'.payload compl)
    (hfinal : final = compl.finalCursor) (htaken : taken tr = s₀.pieces ++ taken tr') :
    Bounded req c tr out final := by
  cases h with
  | goesOn hs hcount =>
    obtain ⟨hroom, hends⟩ := hturns.sized hs
    refine ⟨hbytes ▸ hends.payload, ?_, ?_⟩
    · rw [htaken, items, List.flatMap_append, List.length_append]
      show (items s₀.pieces).length + (items (taken tr')).length ≤ _
      rw [items_pieces]
      omega
    · rw [hfinal]
      rcases hends.cursor with hle | ⟨p, hp, hle⟩
      · exact .inl (hle.trans (Nat.add_le_add_right (Nat.le_max_left ..) _))
      · refine .inr ⟨p, ?_, hle⟩
        rw [htaken]
        exact List.mem_append_right _ hp

/-- **`max_bytes` bounds a read** exactly when its initial bytes, if they are
    counted twice, still fit or are cut short by a match in their frames. -/
theorem readFromPrivateCursor_bounded (hfresh : req.Fresh)
    (h : Runs act Rely w (readFromPrivateCursor crates turns req c) tr w' (.ok (out, final))) :
    Bounded req c tr out final ↔ SizeKept crates req tr := by
  obtain ⟨d₀, t, w₀, s₀, tr₁, hd, hrely, hread, rfl, hparts⟩ := readFromPrivateCursor_parts h
  obtain ⟨hlen, hnext, hstop⟩ := readFrom_within w₀.feed c req.maxBytes
  have hc := le_of_readFrom_ne w₀.feed (c := c) req.maxBytes
  rw [← hread] at hlen hnext hstop hc
  have hlt : s₀.fromOffset + s₀.bytes.length < u64Size := hstop.trans_lt w₀.feed.ring.end_lt
  have hkept : SizeKept crates req (⟨.now, t⟩ :: ⟨.readFrom c req.maxBytes, s₀⟩ :: tr₁) ↔
      SizeOk req d₀ s₀ (endSeen tr₁) := by
    constructor
    · intro h
      exact h d₀ hd
    · intro h d₁ hd₁
      obtain rfl := Except.ok.inj (hd.symm.trans hd₁)
      exact h
  rw [hkept]
  have hinitial := processInitial_size (c := c) (w := w₀) (t := t) hd hfresh hlen hlt
  have htake {tr' : List RxEvent} : taken (⟨.now, t⟩ :: ⟨.readFrom c req.maxBytes, s₀⟩ :: tr') =
      s₀.pieces ++ taken tr' := entry_taken ..
  have hiff {b p : Prop} {decision : InitialDecision}
      (h : (p → InitialFits req c s₀ decision) ∧ (¬p → InitialBursts req s₀ decision))
      (hfits : InitialFits req c s₀ decision → b) (hbursts : InitialBursts req s₀ decision → ¬b) :
      b ↔ p :=
    ⟨fun hb => by_contra fun hp => hbursts (h.2 hp) hb, fun hp => hfits (h.1 hp)⟩
  cases hparts with
  | context hinit =>
    have hphase := hinit.wp hinitial _ rfl []
    rw [List.append_nil] at hphase
    refine hiff hphase (fun hfits => ?_) fun hbursts => by cases hbursts
    cases hfits with
    | context hpayload hcursor =>
      refine ⟨hpayload, ?_, .inl (hcursor.trans (Nat.add_le_add_right (Nat.le_max_right ..) _))⟩
      rw [htake, taken_of_slices (processInitial_slices hinit), List.append_nil, items_pieces]
      exact hlen
  | @initial tr₂ tr₃ w₁ drv' compl htr hinit hdone =>
    subst htr
    obtain ⟨hslices, hfinal, hcompl⟩ := hdone.wp (complete_wp drv' compl w₁)
    have hnone : taken (tr₂ ++ tr₃) = [] := by
      rw [taken_append, taken_of_slices (processInitial_slices hinit), taken_of_slices hslices]
      rfl
    have htaken : taken (⟨.now, t⟩ :: ⟨.readFrom c req.maxBytes, s₀⟩ :: (tr₂ ++ tr₃)) =
        s₀.pieces := by
      rw [htake, hnone, List.append_nil]
    exact hiff (hinit.wp hinitial _ rfl tr₃)
      (fun hfits => hfits.bounded hcompl.bytes hfinal rfl htaken hlen)
      fun hbursts => hbursts.not_bounded hcompl.bytes hfinal rfl htaken hlen hc
  | @loop tr₂ tr₃ tr₄ w₁ w₂ drv₁ drv' compl htr hinit hturns hdone =>
    subst htr
    obtain ⟨hslices, hfinal, hcompl⟩ := hdone.wp (complete_wp drv' compl w₂)
    have hlive : taken (tr₂ ++ (tr₃ ++ tr₄)) = taken tr₃ := by
      rw [taken_append, taken_append, taken_of_slices (processInitial_slices hinit),
        taken_of_slices hslices, List.nil_append, List.append_nil]
    refine hiff (hinit.wp hinitial _ rfl (tr₃ ++ tr₄))
      (fun hfits => hfits.bounded_loop hturns hcompl.bytes hfinal (by rw [htake, hlive]))
      fun hbursts hb => ?_
    cases hbursts with
    | goesOn hmax hfull =>
      have hpayload := hb.payload
      rw [show out.bytes = drv'.payload compl from hcompl.bytes, hturns.full (by omega)] at hpayload
      omega

end

/-- Two lines, or until `"zz"` is found in one of them. -/
def seekingLines : ReadRequest :=
  { lineRead with matcher := some (.new (.literal ⟨[122, 122], by simp⟩) none) }

theorem seekingLines_fresh : seekingLines.Fresh := by
  intro m hm
  obtain rfl := Option.some.inj hm
  rfl

/-- The two lines arrive as one live chunk. -/
theorem readFromPrivateCursor_bounded_live :
    ∃ tr w' out final, Runs act Rely linesAwaited
        (readFromPrivateCursor .refusing 1 seekingLines 0) tr w' (.ok (out, final)) ∧
      out.bytes = twoLines ∧ Bounded seekingLines 0 tr out final := by
  have hrun : ∃ tr w' out final, Runs act Rely linesAwaited
      (readFromPrivateCursor .refusing 1 seekingLines 0) tr w' (.ok (out, final)) ∧
      out.bytes = twoLines ∧ (initialSlice tr).bytes = [] :=
    ⟨_, _, _, _, runs_of_run Rely.refl _ (arrival_rely twoLines) rfl, rfl, rfl⟩
  obtain ⟨tr, w', out, final, hrun, hbytes, hslice⟩ := hrun
  refine ⟨tr, w', out, final, hrun, hbytes,
    (readFromPrivateCursor_bounded seekingLines_fresh hrun).2 ?_⟩
  exact fun d₀ hd => .inl fun h => h.1 hslice

/-- The two lines are buffered: their six bytes are returned twice, for a
    `max_bytes` of eight. -/
theorem readFromPrivateCursor_not_bounded : ¬∀ (crates : Crates) (turns : ℕ) (req : ReadRequest)
    (c : ℕ) (w w' : World) (tr : List RxEvent) (out : ReadOutcome) (final : ℕ),
    1 ≤ req.maxBytes → req.Fresh →
    Runs act Rely w (readFromPrivateCursor crates turns req c) tr w' (.ok (out, final)) →
    Bounded req c tr out final := by
  intro h
  have hrun : ∃ tr w' out final, Runs act Rely linesBuffered
      (readFromPrivateCursor .refusing 0 seekingLines 0) tr w' (.ok (out, final)) ∧
      out.bytes = twoLines ++ twoLines :=
    ⟨_, _, _, _, runs_of_run Rely.refl [] (by simp) rfl, rfl⟩
  obtain ⟨tr, w', out, final, hrun, hbytes⟩ := hrun
  have hpayload := (h _ _ _ _ _ _ _ _ _ (by decide) seekingLines_fresh hrun).payload
  rw [hbytes] at hpayload
  exact absurd hpayload (by decide)

end SerialMcp
