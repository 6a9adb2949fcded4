/-
  Buffered and live bytes in a raw read for a literal.

  * `Saw.push`: the literal matcher on bytes that come piece by piece, as long
    as its window holds all of them.
  * `literalDecision`: what a live chunk decides; `Turns.literal`: how the wait
    loop ends.
  * `literal_timing`: a read that finds its bytes buffered and one that
    receives them live report the same exactly when a chunk ends where the
    first match does, or there is no match.
-/
import SerialMcp.Read.Offsets
import SerialMcp.Read.Replay

namespace SerialMcp

open Interact RxOp Cuts

/-! ## The matcher -/

/-- A literal matcher whose window holds everything it saw. -/
structure Saw (needle : Marker) (context : Option ℕ) (b : Bytes) (m : Matcher) : Prop where
  pattern : m.pattern = .literal needle
  contextAmount : m.contextAmount = context
  window : m.window = b
  base : m.base = 0

section
variable {needle : Marker} {context : Option ℕ} {b x : Bytes} {m : Matcher} {n i : ℕ}

theorem Saw.new (needle : Marker) (context : Option ℕ) :
    Saw needle context [] (.new (.literal needle) context) := ⟨rfl, rfl, rfl, rfl⟩

theorem Saw.retain (h : Saw needle context b m) (hroom : b.length ≤ n) : m.retain n = m := by
  have hlimit : ¬m.retainedWindowLimit n < m.window.length := by
    rw [h.window, Matcher.retainedWindowLimit]
    omega
  rw [Matcher.retain, if_neg hlimit]

theorem Saw.check (h : Saw needle context b m) :
    m.check = match findSubsequence b needle.1 with
      | some i => .found i
      | none => .noMatch := by
  simp only [Matcher.check, Matcher.search, h.pattern, h.window, h.base]
  rcases findSubsequence b needle.1 with _ | i
  · rfl
  · exact congrArg MatchResult.found (Nat.zero_add i)

theorem Saw.feed (h : Saw needle context b m) (x : Bytes) : Saw needle context (b ++ x)
    { m with lastMatchContext := none, window := m.window ++ x } :=
  ⟨h.pattern, h.contextAmount, congrArg (· ++ x) h.window, h.base⟩

/-- **Nothing found**: the window grows. -/
theorem Saw.push_none (h : Saw needle context b m) (hroom : (b ++ x).length ≤ n)
    (hfind : findSubsequence (b ++ x) needle.1 = none) :
    (m.pushBounded x n).1 = .noMatch ∧ Saw needle context (b ++ x) (m.pushBounded x n).2 := by
  have hfed := h.feed x
  have hcheck := hfed.check
  rw [hfind] at hcheck
  simp only [Matcher.pushBounded, Matcher.push, hcheck, hfed.retain hroom, true_and]
  exact hfed

/-- The bytes in front of a match, at most `k`, and the match. -/
def withContext (needle : Bytes) (k : ℕ) (b : Bytes) (i : ℕ) : ShapedMatchPayload :=
  ⟨(b.take (i + needle.length)).drop (i - k), i - (i - k), needle.length⟩

/-- **A match**: the matcher saves its context. -/
theorem Saw.push_some (h : Saw needle context b m) (hroom : (b ++ x).length ≤ n)
    (hfind : findSubsequence (b ++ x) needle.1 = some i) :
    (m.pushBounded x n).1 = .found i ∧
      (m.pushBounded x n).2.shapeLiteralMatchContext i =
        context.map fun k => withContext needle.1 k (b ++ x) i := by
  have hfed := h.feed x
  have hcheck := hfed.check
  rw [hfind] at hcheck
  have hle := findSubsequence_le needle.2 hfind
  simp only [Matcher.pushBounded, Matcher.push, hcheck, Matcher.retain_shape, true_and]
  obtain ⟨pattern, window, amount, base, last, first⟩ := m
  obtain ⟨rfl, rfl, rfl, rfl⟩ := h
  rcases amount with _ | k
  · rfl
  · have hcap : i - min k n = i - k := by omega
    simp only [Matcher.saveLiteralContext, Matcher.shapeLiteralMatchContext, if_true,
      Option.map_some, Option.elim_some, Nat.sub_zero, Nat.min_eq_left hle, hcap, withContext]

end

/-! ## What a read reports -/

/-- The match flag and index of a raw read, its payload, and where it leaves the
    cursor. -/
structure RawResult where
  matched : Bool
  matchIndex : Option ℕ
  bytes : Bytes
  cursor : ℕ
  deriving DecidableEq

def ReadOutcome.rawResult (out : ReadOutcome) (final : ℕ) : RawResult :=
  ⟨out.matched, out.matchIndex, out.bytes, final⟩

def ReadDriver.rawResult (drv : ReadDriver) (compl : ReadCompletion) : RawResult :=
  ⟨compl.matched, compl.matchIndex, compl.payloadOverride.getD drv.acc.returnedBytes,
    compl.finalCursor⟩

/-- No match in the bytes `b`. -/
def RawResult.missed (b : Bytes) (cursor : ℕ) : RawResult := ⟨false, none, b, cursor⟩

/-- A match at `i`, by which the bytes `b` were received: with its context, or
    with all of `b`. -/
def RawResult.found (needle : Marker) (context : Option ℕ) (b : Bytes) (i cursor : ℕ) :
    RawResult :=
  match context with
  | some k =>
    ⟨true, some (withContext needle.1 k b i).matchIndex, (withContext needle.1 k b i).data, cursor⟩
  | none => ⟨true, some i, b, cursor⟩

theorem RawResult.found_cursor (needle : Marker) (context : Option ℕ) (b : Bytes) (i cursor : ℕ) :
    (RawResult.found needle context b i cursor).cursor = cursor := by
  cases context with
  | none => rfl
  | some k => rfl

theorem complete_rawResult {drv : ReadDriver} {compl : ReadCompletion} {w w' : World}
    {tr : List RxEvent} {out : ReadOutcome} {final : ℕ}
    (h : Runs act Rely w (drv.complete compl) tr w' (out, final)) :
    out.rawResult final = drv.rawResult compl := by
  obtain ⟨-, hfinal, hdone⟩ := h.wp (complete_wp drv compl w)
  rw [ReadOutcome.rawResult, ReadDriver.rawResult, hdone.matched, hdone.matchIndex, hdone.bytes,
    ← hfinal]

/-! ## A live chunk -/

section
variable (req : ReadRequest) (needle : Marker) (context : Option ℕ) (c : ℕ)

/-- A raw read for the literal from the cursor `c` that received `b` and found
    nothing yet. -/
structure Received (b : Bytes) (drv : ReadDriver) : Prop where
  original : drv.originalCursor = c
  maxBytes : drv.maxBytes = req.maxBytes
  decoder : drv.decoder = none
  returned : drv.acc.returnedBytes = b
  consumed : drv.acc.consumedOffset = b.length
  matcher : ∃ m, drv.matcher = some m ∧ Saw needle context b m
  unmatched : drv.ctrl.Unmatched req.maxBytes
  nothing : findSubsequence b needle.1 = none

/-- What a chunk decides by which `b` was received. -/
inductive LiteralDecision (b : Bytes) : ChunkDecision → Prop
  | found {i : ℕ} {drv' : ReadDriver} {completion : ℕ → ReadCompletion}
      (hfind : findSubsequence b needle.1 = some i)
      (hresult : ∀ n, drv'.rawResult (completion n) = .found needle context b i n) :
      LiteralDecision b (.stop drv' completion)
  | full {drv' : ReadDriver} {completion : ℕ → ReadCompletion}
      (hfind : findSubsequence b needle.1 = none) (hfull : req.maxBytes ≤ b.length)
      (hresult : ∀ n, drv'.rawResult (completion n) = .missed b n) :
      LiteralDecision b (.stop drv' completion)
  | goesOn {drv' : ReadDriver} (h : Received req needle context c b drv')
      (hroom : ¬(0 < req.maxBytes ∧ req.maxBytes ≤ b.length)) : LiteralDecision b (.continue drv')

end

section
variable {req : ReadRequest} {needle : Marker} {context : Option ℕ} {c : ℕ} {b x : Bytes}
  {drv : ReadDriver}

/-- **Step**: a live chunk by what is found in all the bytes received. -/
theorem literalDecision (h : Received req needle context c b drv)
    (hroom : (b ++ x).length ≤ req.maxBytes) (hfit : (b ++ x).length < u64Size) (now : ℕ) :
    LiteralDecision req needle context c (b ++ x) (liveDecision (drv.absorb x now) x) := by
  obtain ⟨m, hm, hsaw⟩ := h.matcher
  have hreturned : (drv.absorb x now).acc.returnedBytes = b ++ x := congrArg (· ++ x) h.returned
  have hun : (drv.absorb x now).ctrl.Unmatched req.maxBytes := h.unmatched.resetSilenceTimer now
  have hmatcher : (drv.absorb x now).matcher = some m := hm
  have hmax : (drv.absorb x now).maxBytes = req.maxBytes := h.maxBytes
  have hconsumed : (drv.absorb x now).acc.consumedOffset = (b ++ x).length := by
    rw [List.length_append] at hroom hfit ⊢
    simp only [ReadDriver.absorb, h.consumed, h.maxBytes, wrappingAdd_eq hfit]
    exact Nat.min_eq_left hroom
  have hlive : liveDecision (drv.absorb x now) x = rawDecision (drv.absorb x now) x := by
    simp only [liveDecision, ReadDriver.absorb, h.decoder]
  rw [hlive]
  generalize hd : drv.absorb x now = drv₁ at hreturned hun hmatcher hmax hconsumed ⊢
  have hdec : drv₁.decoder = none := by rw [← hd]; exact h.decoder
  have horiginal : drv₁.originalCursor = c := by rw [← hd]; exact h.original
  simp only [rawDecision, hmatcher, hmax, hreturned, Option.map_some]
  rcases hfind : findSubsequence (b ++ x) needle.1 with _ | i
  · obtain ⟨hno, hsaw'⟩ := hsaw.push_none hroom hfind
    simp only [hno, RxStopController.pushData, hun.maxBytes]
    by_cases hfull : 0 < req.maxBytes ∧ req.maxBytes ≤ (b ++ x).length
    · simp only [if_pos hfull]
      refine .full hfind hfull.2 fun n => ?_
      simp only [ReadDriver.rawResult, RawResult.missed, RxStopOutcome.completion,
        RxStopController.stop, hun.matched, hun.matchIndex, Option.getD_some]
    · simp only [if_neg hfull]
      exact .goesOn ⟨horiginal, rfl, hdec, hreturned, hconsumed, ⟨_, rfl, hsaw'⟩,
        ⟨hun.matched, hun.matchIndex, rfl⟩, hfind⟩ hfull
  · obtain ⟨hyes, hshape⟩ := hsaw.push_some hroom hfind
    simp only [hyes, RxStopController.pushData, RxStopController.stop, Option.bind_some, hshape]
    refine .found hfind fun n => ?_
    rcases context with _ | k
    · simp only [ReadDriver.rawResult, RawResult.found, RxStopOutcome.completion, Option.map_none,
        Option.getD_some]
    · simp only [ReadDriver.rawResult, RawResult.found, RxStopOutcome.completion, Option.map_some,
        Option.getD_some]

/-- The chunks of a stretch of the stream from `c` on. -/
def laid : ℕ → List Bytes → List (Piece UInt8)
  | _, [] => []
  | c, x :: xs => ⟨c, x⟩ :: laid (c + x.length) xs

theorem laid_eq_nil {xs : List Bytes} (h : laid c xs = []) : xs = [] := by
  cases xs with
  | nil => rfl
  | cons x xs => cases h

theorem laid_eq_cons {xs : List Bytes} {p : Piece UInt8} {ps : List (Piece UInt8)}
    (h : laid c xs = p :: ps) : ∃ xs', xs = p.items :: xs' ∧ p.start = c ∧
      ps = laid (c + p.items.length) xs' := by
  cases xs with
  | nil => cases h
  | cons x xs =>
    obtain ⟨rfl, rfl⟩ := List.cons.inj h
    exact ⟨xs, rfl, rfl, rfl⟩

/-- How the wait loop ends behind the bytes `b`, with the chunks `xs`. -/
inductive LiteralEnd (req : ReadRequest) (needle : Marker) (context : Option ℕ) (c : ℕ) (b : Bytes)
    (xs : List Bytes) (compl : ReadCompletion) : RawResult → Prop
  | found {i : ℕ} (hfind : findSubsequence (b ++ xs.flatten) needle.1 = some i)
      (hfirst : ∀ k < xs.length, findSubsequence (b ++ (xs.take k).flatten) needle.1 = none) :
      LiteralEnd req needle context c b xs compl
        (.found needle context (b ++ xs.flatten) i (c + (b ++ xs.flatten).length))
  | missed (hfind : findSubsequence (b ++ xs.flatten) needle.1 = none)
      (hwhy : compl.metadata.stopReason.idle = true ∨ req.maxBytes ≤ (b ++ xs.flatten).length) :
      LiteralEnd req needle context c b xs compl
        (.missed (b ++ xs.flatten) (c + (b ++ xs.flatten).length))

variable {xs : List Bytes} {compl : ReadCompletion} {r : RawResult}

theorem LiteralEnd.cons (hb : findSubsequence b needle.1 = none)
    (h : LiteralEnd req needle context c (b ++ x) xs compl r) :
    LiteralEnd req needle context c b (x :: xs) compl r := by
  have hflat (ys : List Bytes) : b ++ x ++ ys.flatten = b ++ (x :: ys).flatten := by
    rw [List.flatten_cons, List.append_assoc]
  cases h with
  | found hfind hfirst =>
    rw [hflat] at hfind ⊢
    refine .found hfind fun k hk => ?_
    cases k with
    | zero => rwa [List.take_zero, List.flatten_nil, List.append_nil]
    | succ k =>
      rw [List.take_succ_cons, ← hflat]
      exact hfirst k (Nat.lt_of_succ_lt_succ hk)
  | missed hfind hwhy =>
    rw [hflat] at hfind hwhy ⊢
    exact .missed hfind hwhy

theorem Received.reset {ctrl : RxStopController} (h : Received req needle context c b drv)
    (hctrl : SameMatch drv.ctrl ctrl) :
    Received req needle context c b { drv with ctrl := ctrl } :=
  { h with unmatched := hctrl.unmatched h.unmatched }

variable {clocked : ℕ} {w w' : World} {tr : List RxEvent} {drv' : ReadDriver}

variable {s : RingSlice}

theorem live_laid (hs : TakesLive drv clocked w tr w' s) {tr' : List RxEvent}
    (htaken : taken (tr ++ tr') = laid c xs) :
    ∃ xs', xs = s.bytes :: xs' ∧ s.fromOffset = c ∧ taken tr' = laid (c + s.bytes.length) xs' := by
  rw [taken_append, hs.taken, List.singleton_append] at htaken
  exact laid_eq_cons htaken.symm

/-- A live slice at its offset. -/
theorem live_decision (hrec : Received req needle context c b drv)
    (hs : TakesLive drv clocked w tr w' s) (hfrom : s.fromOffset = c + b.length)
    (hroom : (b ++ s.bytes).length ≤ req.maxBytes) (now : ℕ) :
    LiteralDecision req needle context c (b ++ s.bytes)
      (liveDecision (drv.absorb s.bytes now) s.bytes) := by
  have hstop : s.fromOffset + s.bytes.length ≤ w'.feed.ring.endOffset := hs.stop_le
  have hlt := w'.feed.ring.end_lt
  refine literalDecision hrec hroom ?_ now
  rw [List.length_append]
  omega

/-- **Run**: the wait loop on the chunks it takes. -/
theorem Turns.literal (h : Turns drv clocked w tr w' drv' compl)
    (hrec : Received req needle context c b drv) (htaken : taken tr = laid (c + b.length) xs)
    (hroom : (b ++ xs.flatten).length ≤ req.maxBytes)
    (hwithin : c + b.length ≤ w.feed.ring.endOffset) :
    LiteralEnd req needle context c b xs compl (drv'.rawResult compl) := by
  induction h generalizing b xs with
  | @last drv clocked w tr w' drv' compl h =>
    cases h with
    | @idle o final e hreason hmatched hindex hend hfinal rely htr =>
      obtain rfl := laid_eq_nil (htaken.symm.trans htr)
      have hcursor : final = c + b.length := by
        have hlt := w'.feed.ring.end_lt
        have h₁ := hend.1
        have h₂ := hend.2
        rw [hrec.original, hrec.consumed] at hfinal
        rw [saturatingAdd_eq (by omega), wrappingAdd_eq (by omega)] at hfinal
        omega
      have hresult : drv.rawResult (o.completion none none final) =
          .missed (b ++ [].flatten) (c + (b ++ ([] : List Bytes).flatten).length) := by
        simp only [ReadDriver.rawResult, RxStopOutcome.completion, RawResult.missed, hmatched,
          hindex, hrec.unmatched.matched, hrec.unmatched.matchIndex, hrec.returned, hcursor,
          Option.getD_none, List.flatten_nil, List.append_nil]
      rw [hresult]
      exact .missed (by simpa using hrec.nothing) (.inl hreason)
    | @stops s now e drv' completion hs hdecision hend =>
      rw [← List.append_nil tr] at htaken
      obtain ⟨xs', rfl, hfrom, hrest⟩ := live_laid hs htaken
      obtain rfl := laid_eq_nil hrest.symm
      have hflat : b ++ [s.bytes].flatten = b ++ s.bytes := by simp
      have hcursor : min (wrappingAdd s.fromOffset s.bytes.length) e = c + (b ++ s.bytes).length := by
        have hle : s.fromOffset + s.bytes.length ≤ e := hend.1
        rw [wrappingAdd_eq (hle.trans_lt (hend.2.trans_lt w'.feed.ring.end_lt)),
          Nat.min_eq_left hle, hfrom, List.length_append, Nat.add_assoc]
      have hdec := live_decision hrec hs hfrom (hflat ▸ hroom) now
      rw [hdecision] at hdec
      rw [hcursor]
      cases hdec with
      | found hfind hresult =>
        rw [hresult, ← hflat]
        refine .found (hflat ▸ hfind) fun k hk => ?_
        obtain rfl := Nat.lt_one_iff.1 hk
        simpa using hrec.nothing
      | full hfind hfull hresult =>
        rw [hresult, ← hflat]
        exact .missed (hflat ▸ hfind) (.inr (hflat ▸ hfull))
    | @fills s now e drv' hs hdecision hfull hend =>
      rw [← List.append_nil tr] at htaken
      obtain ⟨xs', rfl, hfrom, -⟩ := live_laid hs htaken
      rw [List.flatten_cons, ← List.append_assoc, List.length_append] at hroom
      have hdec := live_decision hrec hs hfrom (by omega) now
      rw [hdecision] at hdec
      cases hdec with
      | goesOn h hopen =>
        -- bytes that fill `max_bytes` have stopped the read before
        rw [h.maxBytes, h.returned] at hfull
        have hpos := List.length_pos_of_ne_nil hs.ne
        rw [List.length_append] at hroom hopen hfull
        exact absurd ⟨by omega, hfull⟩ hopen
  | @more drv clocked w tr w₁ drv₁ clocked₁ tr' w' drv' compl h hs ih =>
    cases h with
    | waits hctrl rely htr =>
      rw [taken_append, htr, List.nil_append] at htaken
      exact ih (hrec.reset (.of_reset hctrl)) htaken hroom (hwithin.trans (Feed.Grows.end_le rely))
    | @goesOn s now drv₁ hl hdecision hopen =>
      obtain ⟨xs', rfl, hfrom, hrest⟩ := live_laid hl htaken
      rw [List.flatten_cons, ← List.append_assoc] at hroom
      have hroom' := hroom
      rw [List.length_append] at hroom'
      have hdec := live_decision hrec hl hfrom (by omega) now
      rw [hdecision] at hdec
      cases hdec with
      | goesOn h hopen =>
        refine (ih h ?_ hroom ?_).cons hrec.nothing
        · rw [hrest, List.length_append, Nat.add_assoc]
        · have hstop : s.fromOffset + s.bytes.length ≤ w₁.feed.ring.endOffset := hl.stop_le
          rw [List.length_append]
          omega

end

/-! ## Buffered bytes -/

section
variable {req : ReadRequest} {needle : Marker} {context : Option ℕ} {c i : ℕ} {s : Bytes}
  {s₀ : RingSlice} {w w' : World} {tr : List RxEvent}

theorem withContext_take (needle : Bytes) (k : ℕ) (b : Bytes) (i : ℕ) :
    withContext needle k (b.take (i + needle.length)) i = withContext needle k b i := by
  rw [withContext, withContext, List.take_take, Nat.min_self]

/-- What the initial phase makes of the buffered bytes `s`. -/
inductive LiteralInitial (req : ReadRequest) (needle : Marker) (context : Option ℕ) (c : ℕ)
    (s : Bytes) : InitialDecision → Prop
  | goesOn {drv : ReadDriver} (h : Received req needle context c s drv) :
      LiteralInitial req needle context c s (.continue drv)
  | history {i : ℕ} {drv : ReadDriver} {compl : ReadCompletion}
      (hfind : findSubsequence s needle.1 = some i)
      (hresult : drv.rawResult compl =
        .found needle context (s.take (i + needle.1.length)) i (c + (i + needle.1.length))) :
      LiteralInitial req needle context c s (.completion drv compl)
  | context {i final : ℕ} {out : ReadOutcome} (hfind : findSubsequence s needle.1 = some i)
      (hresult : out.rawResult final =
        .found needle context (s.take (i + needle.1.length)) i (c + (i + needle.1.length))) :
      LiteralInitial req needle context c s (.historicalContextMatch out final)

/-- A match in the history ends the read behind the match. -/
theorem historyMatch_literal {drv : ReadDriver} (hfind : findSubsequence s₀.bytes needle.1 = some i)
    (hfrom : s₀.fromOffset = c) (hstop : s₀.piece.stop ≤ w.feed.ring.endOffset) :
    wp act Rely (historyMatch drv s₀ s₀.bytes (.new (.literal needle) context) i)
      (fun _ _ r => ∀ decision, r = .ok decision →
        LiteralInitial req needle context c s₀.bytes decision) w := by
  have hle := findSubsequence_le needle.2 hfind
  have hlen : (Matcher.new (.literal needle) context).needleLen.getD 0 = needle.1.length := rfl
  have hin : s₀.fromOffset + (i + needle.1.length) ≤ w.feed.ring.endOffset :=
    (Nat.add_le_add_left hle _).trans hstop
  rw [historyMatch, hlen, if_neg (by omega)]
  rcases context with _ | k
  · refine wp_seq (advancePrivateCursor_wp hin) ?_
    rintro tr w₁ r ⟨-, rfl⟩
    rintro decision ⟨⟩
    refine .history hfind ?_
    rw [← hfrom]
    rfl
  · have hshape : shapeMatchContext s₀.bytes i needle.1.length (some k) =
        some (withContext needle.1 k s₀.bytes i) := by
      rw [shapeMatchContext, if_pos hle, withContext]
    simp only [Matcher.new, hshape]
    refine wp_seq (advancePrivateCursor_wp hin) ?_
    rintro tr w₁ r ⟨-, rfl⟩ w₂ h₂ w₃ h₃ w₄ h₄ w₅ h₅ decision ⟨⟩
    refine .context hfind ?_
    rw [RawResult.found, withContext_take, hfrom]
    rfl

theorem Received.start (hm : req.matcher = some (.new (.literal needle) context)) (c t : ℕ) :
    Received req needle context c [] (req.driver c t none) := by
  refine ⟨rfl, rfl, rfl, rfl, rfl, ⟨_, hm, .new needle context⟩, ⟨rfl, rfl, rfl⟩, ?_⟩
  rw [findSubsequence_eq_none needle.2]
  intro j hj
  rw [List.drop_nil, List.prefix_nil] at hj
  exact needle.2 hj

/-- **The initial phase** of a raw read for a literal. -/
theorem processInitial_literal (hm : req.matcher = some (.new (.literal needle) context))
    (hroom : s₀.bytes.length ≤ req.maxBytes) (hfrom : s₀.bytes ≠ [] → s₀.fromOffset = c)
    (hstop : s₀.piece.stop ≤ w.feed.ring.endOffset) (t : ℕ) :
    wp act Rely (processInitial (req.driver c t none) s₀) (fun _ _ r => ∀ decision,
      r = .ok decision → LiteralInitial req needle context c s₀.bytes decision) w := by
  have hstart := Received.start hm c t
  rw [processInitial_path]
  by_cases hne : s₀.bytes = []
  · rw [if_pos hne, hne]
    rintro decision ⟨⟩
    exact .goesOn hstart
  · rw [if_neg hne]
    have htake : s₀.bytes.take req.maxBytes = s₀.bytes := List.take_of_length_le hroom
    simp only [show (req.driver c t none).matcher = some (.new (.literal needle) context) from hm,
      show (req.driver c t none).maxBytes = req.maxBytes from rfl, htake]
    have hsaw := Saw.new needle context
    rcases hfind : findSubsequence s₀.bytes needle.1 with _ | i
    · obtain ⟨hno, hsaw'⟩ := hsaw.push_none (x := s₀.bytes) hroom hfind
      simp only [hno]
      rintro w₁ h₁ decision ⟨⟩
      exact .goesOn ⟨rfl, rfl, rfl, rfl, rfl, ⟨_, rfl, hsaw'⟩,
        (hstart.unmatched.resetSilenceTimer _).pushData _ _, hfind⟩
    · obtain ⟨hyes, -⟩ := hsaw.push_some (x := s₀.bytes) hroom hfind
      simp only [hyes]
      exact historyMatch_literal hfind (hfrom hne) hstop

end

/-! ## Buffered against live -/

/-- A raw read for the literal, with or without context. -/
structure RawLiteral (req : ReadRequest) (needle : Marker) (context : Option ℕ) : Prop where
  matcher : req.matcher = some (.new (.literal needle) context)
  framing : req.framing = none

/-- A completed read from the cursor `c` that finds all of `s` buffered and
    receives nothing more. -/
def FindsBuffered (crates : Crates) (req : ReadRequest) (c : ℕ) (s : Bytes) (out : ReadOutcome)
    (final : ℕ) : Prop :=
  ∃ turns w tr w', c ≤ w.feed.ring.endOffset ∧
    Runs act Rely w (readFromPrivateCursor crates turns req c) tr w' (.ok (out, final)) ∧
    (initialSlice tr).bytes = s ∧ taken tr = if s = [] then [] else [⟨c, s⟩]

/-- A completed read from the cursor `c` that receives the chunks `xs` live: one
    after another until a chunk stops it, and all of them before it stops for
    another reason. -/
def ReceivesLive (crates : Crates) (req : ReadRequest) (c : ℕ) (xs : List Bytes)
    (out : ReadOutcome) (final : ℕ) : Prop :=
  ∃ turns w tr w' k, c ≤ w.feed.ring.endOffset ∧
    Runs act Rely w (readFromPrivateCursor crates turns req c) tr w' (.ok (out, final)) ∧
    (initialSlice tr).bytes = [] ∧ taken tr = laid c (xs.take k) ∧
    (out.metadata.stopReason.idle = true → xs.take k = xs)

/-- The first occurrence of the needle in `s` is at `i`. -/
def FirstAt (needle s : Bytes) (i : ℕ) : Prop :=
  needle <+: s.drop i ∧ ∀ j < i, ¬needle <+: s.drop j

/-- A chunk ends where the first occurrence of the needle ends, if there is one. -/
def MatchEndsChunk (needle : Bytes) (xs : List Bytes) : Prop :=
  ∀ i, FirstAt needle xs.flatten i → ∃ k, (xs.take k).flatten.length = i + needle.length

section
variable {crates : Crates} {req req' : ReadRequest} {needle : Marker} {context : Option ℕ}
  {c i k : ℕ} {s : Bytes} {xs : List Bytes} {out out' : ReadOutcome} {final final' : ℕ}

theorem RawLiteral.decoder (h : RawLiteral req needle context) {d₀ : Option FrameDecoder}
    (hd : buildDecoder crates req = .ok d₀) : d₀ = none := by
  have hsome := buildDecoder_isSome hd
  rw [h.framing] at hsome
  exact Option.isNone_iff_eq_none.1 (Option.isSome_eq_false_iff.1 hsome)

/-- **Buffered bytes.** A match is reported up to its end, and the cursor is
    left there. -/
theorem FindsBuffered.result (hreq : RawLiteral req needle context)
    (h : FindsBuffered crates req c s out final) :
    (findSubsequence s needle.1 = none ∧ out.rawResult final = .missed s (c + s.length)) ∨
    ∃ i, findSubsequence s needle.1 = some i ∧ out.rawResult final =
      .found needle context (s.take (i + needle.1.length)) i (c + (i + needle.1.length)) := by
  obtain ⟨turns, w, tr, w', hc, hrun, hslice, htaken⟩ := h
  obtain ⟨d₀, t, w₀, s₀, tr₁, hd, hrely, hread, rfl, hparts⟩ := readFromPrivateCursor_parts hrun
  obtain rfl : s₀.bytes = s := hslice
  obtain rfl := hreq.decoder hd
  obtain ⟨hlen, hnext, hstop⟩ := readFrom_within w₀.feed c req.maxBytes
  rw [← hread] at hlen hnext hstop
  rw [entry_taken] at htaken
  -- the slice starts at the cursor, and nothing is taken behind it
  have hfirst (hne : s₀.bytes ≠ []) : s₀.fromOffset = c ∧ taken tr₁ = [] := by
    rw [if_neg hne, RingSlice.pieces_of_ne hne, List.singleton_append] at htaken
    exact ⟨congrArg Piece.start (List.cons.inj htaken).1, (List.cons.inj htaken).2⟩
  have hfrom (hne : s₀.bytes ≠ []) := (hfirst hne).1
  have hrest : taken tr₁ = [] ∧ c + s₀.bytes.length ≤ w₀.feed.ring.endOffset := by
    by_cases hne : s₀.bytes = []
    · rw [if_pos hne, List.append_eq_nil_iff] at htaken
      rw [hne]
      exact ⟨htaken.2, hc.trans (Feed.Grows.end_le hrely)⟩
    · exact ⟨(hfirst hne).2, hfrom hne ▸ hstop⟩
  have hinitial := processInitial_literal hreq.matcher hlen hfrom hstop t
  cases hparts with
  | context hinit =>
    cases hinit.wp hinitial _ rfl with
    | context hfind hresult => exact .inr ⟨_, hfind, hresult⟩
  | initial htr hinit hdone =>
    cases hinit.wp hinitial _ rfl with
    | history hfind hresult =>
      exact .inr ⟨_, hfind, (complete_rawResult hdone).trans hresult⟩
  | loop htr hinit hturns hdone =>
    cases hinit.wp hinitial _ rfl with
    | goesOn h =>
      rw [htr, taken_append, taken_append] at hrest
      obtain ⟨hnil, hwithin⟩ := hrest
      rw [List.append_eq_nil_iff, List.append_eq_nil_iff] at hnil
      have hlaid : taken _ = laid (c + s₀.bytes.length) [] := hnil.2.1
      have hend := hturns.literal h hlaid (by simpa using hlen)
        (hwithin.trans (Feed.Grows.end_le (runs_rely hinit)))
      rw [complete_rawResult hdone]
      generalize ReadDriver.rawResult _ _ = r at hend ⊢
      cases hend with
      | found hfind hfirst =>
        rw [List.flatten_nil, List.append_nil, h.nothing] at hfind
        cases hfind
      | missed hfind hwhy =>
        rw [List.flatten_nil, List.append_nil] at hfind ⊢
        exact .inl ⟨hfind, rfl⟩

theorem flatten_take_drop (xs : List Bytes) (k : ℕ) :
    (xs.take k).flatten ++ (xs.drop k).flatten = xs.flatten := by
  rw [← List.flatten_append, List.take_append_drop]

/-- **Live bytes.** A match is reported with its whole chunk, and the cursor is
    left behind the chunk. -/
theorem ReceivesLive.result (hreq : RawLiteral req needle context)
    (hroom : xs.flatten.length ≤ req.maxBytes) (h : ReceivesLive crates req c xs out final) :
    (findSubsequence xs.flatten needle.1 = none ∧
      out.rawResult final = .missed xs.flatten (c + xs.flatten.length)) ∨
    ∃ i k, findSubsequence (xs.take k).flatten needle.1 = some i ∧
      (∀ l < k, findSubsequence (xs.take l).flatten needle.1 = none) ∧ out.rawResult final =
        .found needle context (xs.take k).flatten i (c + (xs.take k).flatten.length) := by
  obtain ⟨turns, w, tr, w', k, hc, hrun, hslice, htaken, hall⟩ := h
  obtain ⟨d₀, t, clocked, w₀, tr₁, tr₂, w₁, drv', compl, hd, hle, htr, hturns, hdone⟩ :=
    emptyStart_turns hrun hslice
  obtain rfl := hreq.decoder hd
  have hrec := Received.start hreq.matcher c t
  have hsplit := flatten_take_drop xs k
  have hshort : (xs.take k).flatten.length ≤ req.maxBytes := by
    rw [← hsplit, List.length_append] at hroom
    omega
  have hend := hturns.literal hrec (htr.symm.trans htaken) hshort (hc.trans hle)
  have hreason : out.metadata.stopReason = compl.metadata.stopReason := by
    rw [(hdone.wp (complete_wp drv' compl w₁)).2.2.metadata]
  rw [complete_rawResult hdone]
  generalize drv'.rawResult compl = r at hend ⊢
  cases hend with
  | @found i hfind hfirst =>
    rw [List.nil_append] at hfind ⊢
    have htake : xs.take (xs.take k).length = xs.take k := by
      rw [List.length_take, ← List.take_eq_take_min]
    refine .inr ⟨i, (xs.take k).length, by rw [htake]; exact hfind, fun l hl => ?_, by rw [htake]⟩
    have hlk : min l k = l := by
      rw [List.length_take] at hl
      omega
    have hnone := hfirst l hl
    rwa [List.nil_append, List.take_take, hlk] at hnone
  | missed hfind hwhy =>
    rw [List.nil_append] at hfind hwhy ⊢
    have hflat : (xs.take k).flatten = xs.flatten := by
      rcases hwhy with hidle | hfull
      · rw [hall (hreason ▸ hidle)]
      · -- the read is full: there was nothing more to receive
        rw [← hsplit, List.length_append] at hroom
        have hnil : (xs.drop k).flatten = [] := List.length_eq_zero_iff.1 (by omega)
        rw [← hsplit, hnil, List.append_nil]
    rw [hflat] at hfind ⊢
    exact .inl ⟨hfind, rfl⟩

theorem firstAt_iff : FirstAt needle.1 s i ↔ findSubsequence s needle.1 = some i :=
  (findSubsequence_eq_some needle.2).symm

theorem find_flatten (hfind : findSubsequence (xs.take k).flatten needle.1 = some i) :
    findSubsequence xs.flatten needle.1 = some i := by
  rw [← flatten_take_drop xs k]
  exact findSubsequence_append needle.2 hfind

/-- The chunk that brings the first match ends with it if any chunk does. -/
theorem matchEndsChunk_iff (hfind : findSubsequence (xs.take k).flatten needle.1 = some i)
    (hfirst : ∀ l < k, findSubsequence (xs.take l).flatten needle.1 = none) :
    MatchEndsChunk needle.1 xs ↔ (xs.take k).flatten.length = i + needle.1.length := by
  have hle := findSubsequence_le needle.2 hfind
  have hall := find_flatten hfind
  constructor
  · intro h
    obtain ⟨l, hl⟩ := h i (firstAt_iff.2 hall)
    -- a chunk that ends with the match brings it
    have hat : needle.1 <+: ((xs.take l).flatten).drop i := by
      have hocc := ((findSubsequence_eq_some needle.2).1 hall).1
      rw [← flatten_take_drop xs l] at hocc
      exact (occurrence_append hl.ge).1 hocc
    have hkl : k ≤ l := by
      by_contra hlt
      exact (findSubsequence_eq_none needle.2).1 (hfirst l (Nat.lt_of_not_le hlt)) i hat
    have hprefix : (xs.take k).flatten.length ≤ (xs.take l).flatten.length := by
      have heq : xs.take l = xs.take k ++ (xs.drop k).take (l - k) := by
        rw [← List.take_add, Nat.add_sub_cancel' hkl]
      rw [heq, List.flatten_append, List.length_append]
      omega
    omega
  · intro h j hj
    obtain rfl := Option.some.inj (hall.symm.trans (firstAt_iff.1 hj))
    exact ⟨k, h⟩

/-- **Buffered against live bytes.** A raw read for a literal that finds its
    bytes buffered and one that receives them live, chunk by chunk, report the
    same match, index, payload and cursor exactly when a chunk ends where the
    first occurrence of the literal ends, or there is none. -/
theorem literal_timing (hreq : RawLiteral req needle context)
    (hreq' : RawLiteral req' needle context) (hroom : xs.flatten.length ≤ req'.maxBytes)
    (hb : FindsBuffered crates req c xs.flatten out final)
    (hl : ReceivesLive crates req' c xs out' final') :
    out.rawResult final = out'.rawResult final' ↔ MatchEndsChunk needle.1 xs := by
  rcases hb.result hreq with ⟨hnone, hr⟩ | ⟨i, hsome, hr⟩
  · rcases hl.result hreq' hroom with ⟨-, hr'⟩ | ⟨j, k, hfind, hfirst, hr'⟩
    · rw [hr, hr']
      refine iff_of_true rfl fun i hi => ?_
      rw [firstAt_iff, hnone] at hi
      cases hi
    · rw [find_flatten hfind] at hnone
      cases hnone
  · rcases hl.result hreq' hroom with ⟨hnone, -⟩ | ⟨j, k, hfind, hfirst, hr'⟩
    · rw [hnone] at hsome
      cases hsome
    · obtain rfl := Option.some.inj (hsome.symm.trans (find_flatten hfind))
      rw [matchEndsChunk_iff hfind hfirst, hr, hr']
      constructor
      · intro heq
        have hcursor := congrArg RawResult.cursor heq
        simp only [RawResult.found_cursor] at hcursor
        omega
      · intro hlen
        have htake : xs.flatten.take (i + needle.1.length) = (xs.take k).flatten := by
          rw [← hlen, ← flatten_take_drop xs k, List.take_left]
        rw [htake, hlen]

end

/-- A raw read until `"ok"` is found. -/
def okRead : ReadRequest where
  maxBytes := 8
  matcher := some (.new (.literal okMarker) none)

theorem okRead_literal : RawLiteral okRead okMarker none := ⟨rfl, rfl⟩

/-- `"ok!"` is buffered. -/
theorem okRead_buffered : ∃ out final, FindsBuffered .refusing okRead 0 [111, 107, 33] out final ∧
    out.metadata.stopReason = .matchFound ∧ out.bytes = [111, 107] :=
  ⟨_, _, ⟨0, buffered, _, _, Nat.zero_le _, runs_of_run Rely.refl [] (by simp) rfl, rfl, rfl⟩, rfl,
    rfl⟩

/-- `"ok!"` arrives as one chunk. -/
theorem okRead_live : ∃ out final, ReceivesLive .refusing okRead 0 [[111, 107, 33]] out final ∧
    out.metadata.stopReason = .matchFound ∧ out.bytes = [111, 107, 33] :=
  ⟨_, _, ⟨1, linesAwaited, _, _, 1, Nat.zero_le _,
    runs_of_run Rely.refl _ (arrival_rely [111, 107, 33]) rfl, rfl, rfl, fun _ => rfl⟩, rfl, rfl⟩

/-- `"ok"` and `"!"` arrive one after the other. -/
theorem literal_timing_ok : ∃ out final out' final',
    FindsBuffered .refusing okRead 0 [111, 107, 33] out final ∧
    ReceivesLive .refusing okRead 0 [[111, 107], [33]] out' final' ∧
    out.bytes = [111, 107] ∧ out.rawResult final = out'.rawResult final' := by
  obtain ⟨out, final, hb, -, hbytes⟩ := okRead_buffered
  have hl : ReceivesLive .refusing okRead 0 [[111, 107], [33]] _ _ :=
    ⟨1, linesAwaited, _, _, 1, Nat.zero_le _,
      runs_of_run Rely.refl _ (arrival_rely [111, 107]) rfl, rfl, rfl, fun h => absurd h (by decide)⟩
  refine ⟨out, final, _, _, hb, hl, hbytes,
    (literal_timing okRead_literal okRead_literal (by decide) hb hl).2 fun i hi => ⟨1, ?_⟩⟩
  have hfirst : findSubsequence [111, 107, 33] okMarker.1 = some 0 := by decide
  obtain rfl := Option.some.inj ((firstAt_iff.1 hi).symm.trans hfirst)
  rfl

/-- A stop by one of the two timers. -/
def ReadOutcome.TimedOut (out : ReadOutcome) : Prop :=
  out.metadata.stopReason = .timeout ∨ out.metadata.stopReason = .noNewRxTimeout

/-- Received as one chunk, `"ok!"` is returned as a whole and consumed as a
    whole; buffered, only `"ok"` is. -/
theorem literal_timing_differs : ¬∀ (crates : Crates) (req : ReadRequest) (needle : Marker)
    (context : Option ℕ) (c : ℕ) (xs : List Bytes) (out out' : ReadOutcome) (final final' : ℕ),
    RawLiteral req needle context → xs.flatten.length ≤ req.maxBytes →
    FindsBuffered crates req c xs.flatten out final → ReceivesLive crates req c xs out' final' →
    ¬out.TimedOut → ¬out'.TimedOut → out.rawResult final = out'.rawResult final' := by
  intro h
  obtain ⟨out, final, hb, hreason, hbytes⟩ := okRead_buffered
  obtain ⟨out', final', hl, hreason', hbytes'⟩ := okRead_live
  have heq := h .refusing okRead okMarker none 0 [[111, 107, 33]] out out' final final'
    okRead_literal (by decide) hb hl (by simp [ReadOutcome.TimedOut, hreason])
    (by simp [ReadOutcome.TimedOut, hreason'])
  have hpayload : out.bytes = out'.bytes := congrArg RawResult.bytes heq
  rw [hbytes, hbytes'] at hpayload
  cases hpayload

end SerialMcp
