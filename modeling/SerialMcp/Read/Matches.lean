/-
  What a matched raw read returns.

  * `Finds`: what a search of the received bytes finds, and the index that the
    matcher reports for it;
  * `Held`: a matcher whose window holds all the bytes received;
  * `Shown`: the payload and the index of a matched read, as a cut of the
    received bytes;
  * `readFromPrivateCursor_shown`: a match in the history is cut at its index
    plus the length of a literal needle, a live match only with a saved context;
  * `returns_match_iff`: so a matched read returns what it matched exactly if
    a regex or glob match in the history is empty, and the index of a live glob
    match leads to its line.
-/
import SerialMcp.Matcher.Lines
import SerialMcp.Read.Bounds
import SerialMcp.Read.Timing

namespace SerialMcp

open Interact RxOp Cuts

/-! ## What a search finds -/

/-- What a search of `stream` finds: the index that `check` reports, and the
    occurrence: the needle, what the regex spans, or the content of the first
    line that the glob matches. -/
inductive Finds (stream : Bytes) : Pattern → ℕ → Bytes → Prop
  | literal {needle : Marker} {i : ℕ} (h : findSubsequence stream needle.1 = some i) :
      Finds stream (.literal needle) i needle.1
  | regex {re : Regex} {i j : ℕ} (h : re.find stream = some (i, j)) :
      Finds stream (.regex re) i ((stream.take j).drop i)
  | glob {pat : Text → Bool} {i : ℕ} (h : FirstLine pat stream 0 i) :
      Finds stream (.glob pat) (asBytes (fromUtf8Lossy (stream.take i))).length
        (stripCrByte (lineAt stream i))

variable {stream b x occ occ' : Bytes} {pattern : Pattern} {context : Option ℕ} {m : Matcher}
  {k k' n stop : ℕ}

theorem Finds.unique (h : Finds stream pattern k occ) (h' : Finds stream pattern k' occ') :
    k = k' ∧ occ = occ' := by
  cases h with
  | literal h =>
    cases h' with
    | literal h' =>
      rw [h] at h'
      cases h'
      exact ⟨rfl, rfl⟩
  | regex h =>
    cases h' with
    | regex h' =>
      rw [h] at h'
      cases h'
      exact ⟨rfl, rfl⟩
  | glob h =>
    cases h' with
    | glob h' =>
      cases h.unique h'
      exact ⟨rfl, rfl⟩

/-- A matcher whose window holds all the bytes `b` that it saw. -/
structure Held (pattern : Pattern) (context : Option ℕ) (b : Bytes) (m : Matcher) : Prop where
  pattern : m.pattern = pattern
  contextAmount : m.contextAmount = context
  window : m.window = b
  base : m.base = 0
  whole : m.firstLinePartial = false

theorem Held.new (pattern : Pattern) (context : Option ℕ) :
    Held pattern context [] (.new pattern context) := ⟨rfl, rfl, rfl, rfl, rfl⟩

theorem Held.appended (h : Held pattern context b m) (x : Bytes) :
    Held pattern context (b ++ x) (m.appended x) :=
  ⟨h.pattern, h.contextAmount, congrArg (· ++ x) h.window, h.base, h.whole⟩

theorem Held.tail (h : Held pattern context b m) : m.Tail b :=
  ⟨h.base ▸ Nat.zero_le _, by rw [h.window, h.base, List.drop_zero]⟩

theorem Held.retain (h : Held pattern context b m) (hroom : b.length ≤ n) : m.retain n = m := by
  have hlimit : ¬m.retainedWindowLimit n < m.window.length := by
    rw [h.window, Matcher.retainedWindowLimit]
    omega
  rw [Matcher.retain, if_neg hlimit]

theorem Held.finds_iff (h : Held pattern context b m) :
    m.check = .found k ↔ ∃ occ, Finds b pattern k occ := by
  have hcheck : m.check = .found k ↔ m.search = some k := by
    rw [Matcher.check_found, h.base]
    simp
  rw [hcheck]
  cases pattern with
  | literal needle =>
    have hsearch : m.search = findSubsequence b needle.1 := by
      simp only [Matcher.search, h.pattern, h.window]
    rw [hsearch]
    constructor
    · exact fun hfind => ⟨_, .literal hfind⟩
    · rintro ⟨occ, hfinds⟩
      cases hfinds with
      | literal hfind => exact hfind
  | regex re =>
    have hsearch : m.search = (re.find b).map Prod.fst := by
      simp only [Matcher.search, h.pattern, h.window]
    rw [hsearch, Option.map_eq_some_iff]
    constructor
    · rintro ⟨⟨i, j⟩, hfind, rfl⟩
      exact ⟨_, .regex hfind⟩
    · rintro ⟨occ, hfinds⟩
      cases hfinds with
      | regex hfind => exact ⟨_, hfind, rfl⟩
  | glob pat =>
    have hmarked : m.Marked pat b := by
      refine ⟨h.tail, h.pattern, ?_⟩
      rw [h.whole, h.base]
      simp [LineStart]
    rw [hmarked.search, h.base]
    simp only [List.drop_zero]
    constructor
    · rintro ⟨i, hfirst, rfl⟩
      exact ⟨_, .glob hfirst⟩
    · rintro ⟨occ, hfinds⟩
      cases hfinds with
      | glob hfirst => exact ⟨_, hfirst, rfl⟩

/-- A chunk without a match leaves nothing to find in the bytes up to it. -/
theorem Held.push_none (h : Held pattern context b m) (hroom : (b ++ x).length ≤ n)
    (hno : (m.pushBounded x n).1 = .noMatch) :
    Held pattern context (b ++ x) (m.pushBounded x n).2 ∧ ∀ k occ, ¬Finds (b ++ x) pattern k occ := by
  have happended := h.appended x
  rw [Matcher.pushBounded_noMatch hno, happended.retain hroom]
  refine ⟨happended, fun k occ hfinds => ?_⟩
  rw [Matcher.pushBounded_answer, happended.finds_iff.2 ⟨occ, hfinds⟩] at hno
  cases hno

theorem Held.push_some (h : Held pattern context b m) (hfound : (m.pushBounded x n).1 = .found k) :
    ∃ occ, Finds (b ++ x) pattern k occ := by
  rw [Matcher.pushBounded_answer] at hfound
  exact (h.appended x).finds_iff.1 hfound

/-! ## Cuts of the received bytes -/

/-- The index and the payload of a match at `k`: the received bytes from
    `cut.1`, in front of the match, up to `cut.2`. -/
structure Shown (stream : Bytes) (k : ℕ) (cut : ℕ × ℕ) (r : RawResult) : Prop where
  start_le : cut.1 ≤ k
  within : cut.1 ≤ min cut.2 stream.length
  index : r.matchIndex = some (k - cut.1)
  bytes : r.bytes = (stream.take cut.2).drop cut.1

/-- The index lies in the payload, and what it leads to begins with the
    occurrence that a search of the received bytes finds. -/
def ReturnsMatch (pattern : Pattern) (stream : Bytes) (r : RawResult) : Prop :=
  ∃ k occ i, Finds stream pattern k occ ∧ r.matchIndex = some i ∧ i ≤ r.bytes.length ∧
    occ <+: r.bytes.drop i

/-- What a cut has to hold. -/
theorem Shown.returns_iff {r : RawResult} {cut : ℕ × ℕ} (h : Shown stream k cut r)
    (hfinds : Finds stream pattern k occ) :
    ReturnsMatch pattern stream r ↔
      k ≤ min cut.2 stream.length ∧ occ <+: (stream.take cut.2).drop k := by
  have hstart := h.start_le
  have hwithin := h.within
  have hlen : r.bytes.length = min cut.2 stream.length - cut.1 := by
    rw [h.bytes, List.length_drop, List.length_take]
  have hdrop : r.bytes.drop (k - cut.1) = (stream.take cut.2).drop k := by
    rw [h.bytes, List.drop_drop, Nat.add_sub_cancel' hstart]
  constructor
  · rintro ⟨k', occ', i, hfinds', hi, hle, hocc⟩
    obtain ⟨rfl, rfl⟩ := hfinds.unique hfinds'
    rw [h.index] at hi
    cases hi
    rw [hdrop] at hocc
    rw [hlen] at hle
    exact ⟨by omega, hocc⟩
  · rintro ⟨hle, hocc⟩
    exact ⟨k, occ, k - cut.1, hfinds, h.index, by omega, hdrop ▸ hocc⟩

/-! ## A live chunk -/

/-- Where a live match is cut: not at all, or for a literal with context, the
    context in front of the match and behind the needle. -/
def liveCut (pattern : Pattern) (context : Option ℕ) (stream : Bytes) (k : ℕ) : ℕ × ℕ :=
  match pattern, context with
  | .literal needle, some amount => (k - amount, k + needle.1.length)
  | _, _ => (0, stream.length)

/-- A raw read for the pattern that received `b` and goes on. -/
structure Gathered (req : ReadRequest) (pattern : Pattern) (context : Option ℕ) (b : Bytes)
    (drv : ReadDriver) : Prop where
  maxBytes : drv.maxBytes = req.maxBytes
  decoder : drv.decoder = none
  returned : drv.acc.returnedBytes = b
  matcher : ∃ m, drv.matcher = some m ∧ Held pattern context b m
  unmatched : drv.ctrl.Unmatched req.maxBytes
  absent : b ≠ [] → ∀ k occ, ¬Finds b pattern k occ

/-- What a chunk decides by which `b` was received. -/
inductive GatherDecision (req : ReadRequest) (pattern : Pattern) (context : Option ℕ) (b : Bytes) :
    ChunkDecision → Prop
  | matched {k : ℕ} {occ : Bytes} {drv' : ReadDriver} {completion : ℕ → ReadCompletion}
      (hmatched : ∀ n, (completion n).matched = true) (hfinds : Finds b pattern k occ)
      (hshown : ∀ n, Shown b k (liveCut pattern context b k) (drv'.rawResult (completion n))) :
      GatherDecision req pattern context b (.stop drv' completion)
  | missed {drv' : ReadDriver} {completion : ℕ → ReadCompletion}
      (hmissed : ∀ n, (completion n).matched = false) (habsent : ∀ k occ, ¬Finds b pattern k occ) :
      GatherDecision req pattern context b (.stop drv' completion)
  | goesOn {drv' : ReadDriver} (h : Gathered req pattern context b drv') :
      GatherDecision req pattern context b (.continue drv')

/-- Nothing but a literal with a context amount saves context. -/
theorem Matcher.savesContext_false
    (h : ∀ needle, m.pattern = .literal needle → m.contextAmount = none) :
    m.savesContext = false := by
  rcases hp : m.pattern with needle | re | pat
  · simp [Matcher.savesContext, h needle hp]
  · simp [Matcher.savesContext, Matcher.needleLen, hp]
  · simp [Matcher.savesContext, Matcher.needleLen, hp]

/-- The context that the matcher saves with a live match of a literal. -/
theorem Held.push_context {needle : Marker} {amount : ℕ}
    (h : Held (.literal needle) (some amount) b m) (hroom : (b ++ x).length ≤ n)
    (hfound : (m.pushBounded x n).1 = .found k) :
    k + needle.1.length ≤ (b ++ x).length ∧ (m.pushBounded x n).2.shapeLiteralMatchContext k =
      some ⟨((b ++ x).take (k + needle.1.length)).drop (k - amount), k - (k - amount),
        needle.1.length⟩ := by
  have hfind : findSubsequence (b ++ x) needle.1 = some k := by
    obtain ⟨occ, hfinds⟩ := h.push_some hfound
    cases hfinds with
    | literal hfind => exact hfind
  have hle := findSubsequence_le needle.2 hfind
  have happended := h.appended x
  have hsaved := happended.tail.saved happended.pattern happended.contextAmount
    (happended.base ▸ Nat.zero_le k) hle n
  have hcap : min amount (min n (k - (m.appended x).base)) = k - (k - amount) := by
    rw [happended.base]
    omega
  obtain ⟨ctx, hkeeps⟩ := (m.appended x).saveLiteralContext_keeps k (some n)
  rw [Matcher.pushBounded_found hfound, Matcher.retain_shape]
  refine ⟨hle, ?_⟩
  rw [hkeeps] at hsaved ⊢
  simp only at hsaved
  rw [hcap, Nat.sub_sub_self (Nat.sub_le ..)] at hsaved
  simp only [Matcher.shapeLiteralMatchContext, happended.pattern, happended.contextAmount, hsaved,
    if_true]

/-- A live match is shown by its cut. -/
theorem Held.push_shown (h : Held pattern context b m) (hroom : (b ++ x).length ≤ n)
    (hfound : (m.pushBounded x n).1 = .found k) {r : RawResult}
    (hr : r = match (m.pushBounded x n).2.shapeLiteralMatchContext k with
      | some shaped => ⟨true, some shaped.matchIndex, shaped.data, r.cursor⟩
      | none => ⟨true, some k, b ++ x, r.cursor⟩) :
    Shown (b ++ x) k (liveCut pattern context (b ++ x) k) r := by
  obtain ⟨hpattern, hcontext⟩ := m.pushBounded_request x n
  have hwhole (hno : ∀ needle, pattern = .literal needle → context = none) :
      Shown (b ++ x) k (0, (b ++ x).length) r := by
    have hsaves : (m.pushBounded x n).2.savesContext = false := by
      apply Matcher.savesContext_false
      intro needle hp
      rw [hcontext, h.contextAmount]
      exact hno needle (by rw [← h.pattern, ← hpattern, hp])
    rw [shapeLiteralMatchContext_none hsaves] at hr
    rw [hr]
    refine ⟨Nat.zero_le _, Nat.zero_le _, rfl, ?_⟩
    rw [List.drop_zero, List.take_length]
  rcases pattern with needle | re | pat
  · rcases context with _ | amount
    · exact hwhole fun _ _ => rfl
    · obtain ⟨hle, hshape⟩ := h.push_context hroom hfound
      rw [hshape] at hr
      rw [hr]
      exact ⟨Nat.sub_le .., by simp only [liveCut]; omega, rfl, rfl⟩
  · exact hwhole fun _ hp => by cases hp
  · exact hwhole fun _ hp => by cases hp

section
variable {req : ReadRequest} {drv drv' : ReadDriver} {w w' : World} {tr : List RxEvent}
  {clocked : ℕ} {compl : ReadCompletion}

/-- **Step**: a live chunk of a raw read. -/
theorem Gathered.decision (h : Gathered req pattern context b drv)
    (hroom : (b ++ x).length ≤ req.maxBytes) (now : ℕ) :
    GatherDecision req pattern context (b ++ x) (liveDecision (drv.absorb x now) x) := by
  obtain ⟨m, hm, hheld⟩ := h.matcher
  have hreturned : (drv.absorb x now).acc.returnedBytes = b ++ x := congrArg (· ++ x) h.returned
  have hun : (drv.absorb x now).ctrl.Unmatched req.maxBytes := h.unmatched.resetSilenceTimer now
  have hmatcher : (drv.absorb x now).matcher = some m := hm
  have hmax : (drv.absorb x now).maxBytes = req.maxBytes := h.maxBytes
  have hdec : (drv.absorb x now).decoder = none := h.decoder
  generalize drv.absorb x now = drv₁ at hreturned hun hmatcher hmax hdec ⊢
  simp only [liveDecision, hdec, rawDecision, hmatcher, hmax, hreturned, Option.map_some]
  rcases hpush : (m.pushBounded x req.maxBytes).1 with _ | k
  · obtain ⟨hheld', habsent⟩ := hheld.push_none hroom hpush
    simp only [RxStopController.pushData, hun.maxBytes]
    by_cases hfull : 0 < req.maxBytes ∧ req.maxBytes ≤ (b ++ x).length
    · simp only [if_pos hfull]
      exact .missed (fun n => hun.matched) habsent
    · simp only [if_neg hfull]
      exact .goesOn ⟨rfl, rfl, hreturned, ⟨_, rfl, hheld'⟩, ⟨hun.matched, hun.matchIndex, rfl⟩,
        fun _ => habsent⟩
  · obtain ⟨occ, hfinds⟩ := hheld.push_some hpush
    simp only [RxStopController.pushData, RxStopController.stop, Option.bind_some]
    refine .matched (fun n => rfl) hfinds fun n => hheld.push_shown hroom hpush ?_
    rcases (m.pushBounded x req.maxBytes).2.shapeLiteralMatchContext k with _ | shaped
    · rfl
    · rfl

theorem Gathered.fits {s : RingSlice} (h : Gathered req pattern context b drv)
    (hroom : b.length ≤ req.maxBytes) (hs : TakesLive drv clocked w tr w' s) :
    (b ++ s.bytes).length ≤ req.maxBytes := by
  have hlen := hs.length_le
  rw [h.maxBytes, h.returned] at hlen
  rw [List.length_append]
  omega

/-- How a loop ends that received `stream`: by a live match in all of it, or
    without an occurrence. -/
structure EndsShown (pattern : Pattern) (context : Option ℕ) (stream : Bytes) (r : RawResult) :
    Prop where
  shown : r.matched = true →
    ∃ k occ, Finds stream pattern k occ ∧ Shown stream k (liveCut pattern context stream k) r
  absent : r.matched = false → stream ≠ [] → ∀ k occ, ¬Finds stream pattern k occ

theorem EndsShown.of_absent {r : RawResult} (h : r.matched = false)
    (habsent : stream ≠ [] → ∀ k occ, ¬Finds stream pattern k occ) :
    EndsShown pattern context stream r := by
  refine ⟨fun hm => ?_, fun _ => habsent⟩
  rw [h] at hm
  cases hm

/-- **Run**: a loop behind the bytes `b`. -/
theorem Turns.gathered (h : Turns drv clocked w tr w' drv' compl)
    (hgathered : Gathered req pattern context b drv) (hroom : b.length ≤ req.maxBytes) :
    EndsShown pattern context (b ++ items (taken tr)) (drv'.rawResult compl) := by
  induction h generalizing b with
  | @last drv clocked w tr w' drv' compl h =>
    cases h with
    | @idle o final e hreason hctrl hindex hend hfinal rely htr =>
      rw [htr, items_nil, List.append_nil]
      exact .of_absent (hctrl.trans hgathered.unmatched.matched) hgathered.absent
    | @stops s now e drv' completion hs hdecision hend =>
      have hdec := hgathered.decision (hgathered.fits hroom hs) now
      rw [hdecision] at hdec
      rw [hs.taken, items_piece]
      cases hdec with
      | matched hmatched hfinds hshown =>
        refine ⟨fun _ => ⟨_, _, hfinds, hshown _⟩, fun hm => ?_⟩
        rw [show (drv'.rawResult _).matched = true from hmatched _] at hm
        cases hm
      | missed hmissed habsent => exact .of_absent (hmissed _) fun _ => habsent
    | @fills s now e drv' hs hdecision hfull hend =>
      have hdec := hgathered.decision (hgathered.fits hroom hs) now
      rw [hdecision] at hdec
      rw [hs.taken, items_piece]
      cases hdec with
      | goesOn h => exact .of_absent rfl h.absent
  | @more drv clocked w tr w₁ drv₁ clocked₁ tr' w' drv' compl h hturns ih =>
    cases h with
    | waits hctrl rely htr =>
      have hsame : SameMatch drv.ctrl _ := .of_reset hctrl
      rw [taken_append, htr, List.nil_append]
      exact ih { hgathered with unmatched := hsame.unmatched hgathered.unmatched } hroom
    | @goesOn s now drv₁ hs hdecision hopen =>
      have hdec := hgathered.decision (hgathered.fits hroom hs) now
      rw [hdecision] at hdec
      cases hdec with
      | goesOn h =>
        rw [taken_append, hs.taken, items_append, items_piece, ← List.append_assoc]
        exact ih h (hgathered.fits hroom hs)

/-! ## The history -/

/-- Where a match in the history is cut: the context in front of it and behind a
    literal needle, but at the match index itself for a regex or a glob. -/
def historyCut (pattern : Pattern) (context : Option ℕ) (k : ℕ) : ℕ × ℕ :=
  (context.elim 0 (k - ·), k + (Matcher.new pattern none).needleLen.getD 0)

/-- A match in the history `b`, with the cut inside it. -/
structure HistoryShown (pattern : Pattern) (context : Option ℕ) (b : Bytes) (r : RawResult) (k : ℕ) :
    Prop where
  matched : r.matched = true
  finds : ∃ occ, Finds b pattern k occ
  within : (historyCut pattern context k).2 ≤ b.length
  shown : Shown b k (historyCut pattern context k) r

/-- What the initial phase of a raw read makes of the history `b`. -/
inductive HistoryDecision (req : ReadRequest) (pattern : Pattern) (context : Option ℕ) (b : Bytes)
    (s : RingSlice) : InitialDecision → Prop
  | goesOn {drv : ReadDriver} (h : Gathered req pattern context b drv)
      (hhist : historyEnd req s = none) : HistoryDecision req pattern context b s (.continue drv)
  | completion {k : ℕ} {drv : ReadDriver} {compl : ReadCompletion}
      (hhist : (historyEnd req s).isSome = true)
      (h : HistoryShown pattern context b (drv.rawResult compl) k) :
      HistoryDecision req pattern context b s (.completion drv compl)
  | context {k final : ℕ} {out : ReadOutcome} (hhist : (historyEnd req s).isSome = true)
      (h : HistoryShown pattern context b (out.rawResult final) k) :
      HistoryDecision req pattern context b s (.historicalContextMatch out final)

/-- A match in the history. -/
theorem historyMatch_shown {s : RingSlice} (hfinds : Finds b pattern k occ)
    (hhist : (historyEnd req s).isSome = true) :
    wp act Rely (historyMatch drv s b (.new pattern context) k) (fun _ _ r => ∀ decision,
      r = .ok decision → HistoryDecision req pattern context b s decision) w := by
  have hlen : (Matcher.new pattern context).needleLen = (Matcher.new pattern none).needleLen := by
    cases pattern <;> rfl
  rw [historyMatch, hlen]
  refine wp_ite (fun _ decision hd => by cases hd) fun hle => ?_
  have hwithin : (historyCut pattern context k).2 ≤ b.length := Nat.le_of_not_lt hle
  have hk : k ≤ (historyCut pattern context k).2 := Nat.le_add_right ..
  rcases context with _ | amount
  · rintro w₁ h₁ decision ⟨⟩
    exact .completion hhist ⟨rfl, ⟨occ, hfinds⟩, hwithin, ⟨Nat.zero_le _, Nat.zero_le _, rfl, rfl⟩⟩
  · have hshape : shapeMatchContext b k ((Matcher.new pattern none).needleLen.getD 0) (some amount) =
        some ⟨(b.take (historyCut pattern (some amount) k).2).drop (k - amount), k - (k - amount),
          (Matcher.new pattern none).needleLen.getD 0⟩ := by
      rw [shapeMatchContext, if_pos (by exact hwithin)]
      rfl
    simp only [show (Matcher.new pattern (some amount)).contextAmount = some amount from rfl, hshape]
    rintro w₁ h₁ w₂ h₂ w₃ h₃ w₄ h₄ w₅ h₅ decision ⟨⟩
    have hstart : (historyCut pattern (some amount) k).1 = k - amount := rfl
    exact .context hhist ⟨rfl, ⟨occ, hfinds⟩, hwithin, ⟨Nat.sub_le .., by omega, rfl, rfl⟩⟩

/-- **The initial phase** of a raw read for the pattern. -/
theorem processInitial_shown {s : RingSlice} {c t : ℕ}
    (hm : req.matcher = some (.new pattern context)) (hroom : s.bytes.length ≤ req.maxBytes) :
    wp act Rely (processInitial (req.driver c t none) s) (fun _ _ r => ∀ decision,
      r = .ok decision → HistoryDecision req pattern context s.bytes s decision) w := by
  rw [processInitial_path]
  by_cases hne : s.bytes = []
  · rw [if_pos hne, hne]
    rintro decision ⟨⟩
    exact .goesOn ⟨rfl, rfl, rfl, ⟨_, hm, .new pattern context⟩, ⟨rfl, rfl, rfl⟩,
      fun hne => absurd rfl hne⟩ (by simp [historyEnd, hne])
  · rw [if_neg hne]
    have htake : s.bytes.take req.maxBytes = s.bytes := List.take_of_length_le hroom
    have hhist := historyEnd_some hne hm
    have hheld := Held.new pattern context
    simp only [show (req.driver c t none).matcher = some (.new pattern context) from hm,
      show (req.driver c t none).maxBytes = req.maxBytes from rfl, htake]
    rcases hpush : ((Matcher.new pattern context).pushBounded s.bytes req.maxBytes).1 with _ | k
    · rw [hpush] at hhist
      obtain ⟨hheld', habsent⟩ := hheld.push_none (x := s.bytes) hroom hpush
      rintro w₁ h₁ decision ⟨⟩
      refine .goesOn ⟨rfl, rfl, rfl, ⟨_, rfl, hheld'⟩, ?_, fun _ => habsent⟩ hhist
      exact RxStopController.Unmatched.pushData (.resetSilenceTimer ⟨rfl, rfl, rfl⟩ _) _ _
    · rw [hpush] at hhist
      obtain ⟨occ, hfinds⟩ := hheld.push_some hpush
      exact historyMatch_shown hfinds (by rw [hhist]; rfl)

end

/-! ## The whole read -/

/-- A raw read for the pattern, as `validate_match_request` builds its matcher. -/
structure RawMatch (req : ReadRequest) (pattern : Pattern) (context : Option ℕ) : Prop where
  matcher : req.matcher = some (.new pattern context)
  framing : req.framing = none

section
variable {crates : Crates} {turns : ℕ} {req : ReadRequest} {c : ℕ} {w w' : World}
  {tr : List RxEvent} {out : ReadOutcome} {final : ℕ}

theorem RawMatch.decoder (h : RawMatch req pattern context) {d₀ : Option FrameDecoder}
    (hd : buildDecoder crates req = .ok d₀) : d₀ = none := by
  have hsome := buildDecoder_isSome hd
  rw [h.framing] at hsome
  exact Option.isNone_iff_eq_none.1 (Option.isSome_eq_false_iff.1 hsome)

/-- What a raw read makes of `stream`, by whether its history holds a match. -/
structure RawShown (req : ReadRequest) (pattern : Pattern) (context : Option ℕ) (s : RingSlice)
    (stream : Bytes) (r : RawResult) : Prop where
  history : (historyEnd req s).isSome = true → ∃ k, HistoryShown pattern context stream r k
  live : historyEnd req s = none → EndsShown pattern context stream r

theorem RawShown.of_history {s : RingSlice} {r : RawResult} (hhist : (historyEnd req s).isSome = true)
    (h : HistoryShown pattern context stream r k) : RawShown req pattern context s stream r := by
  refine ⟨fun _ => ⟨k, h⟩, fun hnone => ?_⟩
  rw [hnone] at hhist
  cases hhist

/-- **What a raw read returns**: if it matched, a cut of the bytes it received. -/
theorem readFromPrivateCursor_shown (hreq : RawMatch req pattern context)
    (h : Runs act Rely w (readFromPrivateCursor crates turns req c) tr w' (.ok (out, final))) :
    RawShown req pattern context (initialSlice tr) (items (taken tr)) (out.rawResult final) := by
  obtain ⟨d₀, t, w₀, s₀, tr₁, hd, hrely, hread, rfl, hparts⟩ := readFromPrivateCursor_parts h
  obtain rfl := hreq.decoder hd
  have hlen := (readFrom_within w₀.feed c req.maxBytes).1
  rw [← hread] at hlen
  have hslice : initialSlice (⟨.now, t⟩ :: ⟨.readFrom c req.maxBytes, s₀⟩ :: tr₁) = s₀ := rfl
  have hstream : items (s₀.pieces ++ taken tr₁) = s₀.bytes ++ items (taken tr₁) := by
    rw [items_append, items_pieces]
  rw [entry_taken, hstream, hslice]
  have hinitial := processInitial_shown (c := c) (t := t) (w := w₀) hreq.matcher hlen
  cases hparts with
  | context hinit =>
    rw [taken_of_slices (processInitial_slices hinit), items_nil, List.append_nil]
    cases hinit.wp hinitial _ rfl with
    | context hhist h => exact .of_history hhist h
  | @initial tr₂ tr₃ w₁ drv' compl htr hinit hdone =>
    have hslices := (hdone.wp (complete_passes drv' compl w₁)).1
    rw [htr, taken_append, taken_of_slices (processInitial_slices hinit), taken_of_slices hslices,
      List.append_nil, items_nil, List.append_nil, complete_rawResult hdone]
    cases hinit.wp hinitial _ rfl with
    | completion hhist h => exact .of_history hhist h
  | @loop tr₂ tr₃ tr₄ w₁ w₂ drv₁ drv' compl htr hinit hturns hdone =>
    have hslices := (hdone.wp (complete_passes drv' compl w₂)).1
    rw [htr, taken_append, taken_append, taken_of_slices (processInitial_slices hinit),
      taken_of_slices hslices, List.nil_append, List.append_nil, complete_rawResult hdone]
    cases hinit.wp hinitial _ rfl with
    | goesOn hgathered hhist =>
      refine ⟨fun hsome => ?_, fun _ => hturns.gathered hgathered hlen⟩
      rw [hhist] at hsome
      cases hsome

/-- When a matched raw read returns what it matched: always for a literal; in
    the history for an empty regex or glob match; live for any regex match, and
    for a glob match if its index, counted in decoded bytes, leads to the
    content of the line. -/
def WholeMatch (req : ReadRequest) (s : RingSlice) (stream : Bytes) : Pattern → Prop
  | .literal _ => True
  | .regex re => (historyEnd req s).isSome = true → ∀ i j, re.find stream = some (i, j) → i = j
  | .glob pat => ∀ i, FirstLine pat stream 0 i →
    if (historyEnd req s).isSome then stripCrByte (lineAt stream i) = []
    else (asBytes (fromUtf8Lossy (stream.take i))).length ≤ stream.length ∧
      stripCrByte (lineAt stream i) <+:
        stream.drop (asBytes (fromUtf8Lossy (stream.take i))).length

theorem cut_at_index (hle : k ≤ stream.length) :
    (k ≤ min k stream.length ∧ occ <+: (stream.take k).drop k) ↔ occ = [] := by
  have hnil : (stream.take k).drop k = [] :=
    List.drop_eq_nil_of_le ((List.length_take_le ..))
  rw [hnil, List.prefix_nil]
  constructor
  · exact fun h => h.2
  · exact fun h => ⟨by omega, h⟩

/-- **A matched read returns what it matched** exactly under `WholeMatch`. -/
theorem returns_match_iff (hreq : RawMatch req pattern context)
    (h : Runs act Rely w (readFromPrivateCursor crates turns req c) tr w' (.ok (out, final)))
    (hmatched : out.matched = true) :
    ReturnsMatch pattern (items (taken tr)) (out.rawResult final) ↔
      WholeMatch req (initialSlice tr) (items (taken tr)) pattern := by
  have hraw := readFromPrivateCursor_shown hreq h
  generalize items (taken tr) = stream at hraw ⊢
  by_cases hhist : (historyEnd req (initialSlice tr)).isSome = true
  · obtain ⟨k, hshown⟩ := hraw.history hhist
    obtain ⟨occ, hfinds⟩ := hshown.finds
    have hwithin := hshown.within
    rw [hshown.shown.returns_iff hfinds]
    cases hfinds with
    | @literal needle i hfind =>
      have hocc := ((findSubsequence_eq_some needle.2).1 hfind).1
      have hcut : (historyCut (.literal needle) context k).2 = k + needle.1.length := rfl
      refine iff_of_true ⟨by omega, ?_⟩ trivial
      rw [hcut, List.drop_take, List.prefix_take_iff]
      exact ⟨hocc, by omega⟩
    | @regex re i j hfind =>
      obtain ⟨hij, hj⟩ := re.find_le _ _ hfind
      simp only at hij hj
      rw [show (historyCut (.regex re) context k).2 = k from rfl, cut_at_index (hij.trans hj),
        List.drop_eq_nil_iff, List.length_take]
      constructor
      · rintro hempty - i' j' hfind'
        rw [hfind] at hfind'
        cases hfind'
        omega
      · intro hwhole
        have := hwhole hhist k j hfind
        omega
    | @glob pat i hfirst =>
      have hcut (n : ℕ) : (historyCut (.glob pat) context n).2 = n := rfl
      rw [hcut] at hwithin ⊢
      rw [cut_at_index hwithin]
      constructor
      · intro hempty i' hfirst'
        rw [if_pos hhist, hfirst'.unique hfirst]
        exact hempty
      · intro hwhole
        have := hwhole i hfirst
        rwa [if_pos hhist] at this
  · obtain ⟨k, occ, hfinds, hshown⟩ :=
      (hraw.live (Option.not_isSome_iff_eq_none.1 hhist)).shown hmatched
    rw [hshown.returns_iff hfinds]
    cases hfinds with
    | @literal needle i hfind =>
      have hle := findSubsequence_le needle.2 hfind
      have hocc := ((findSubsequence_eq_some needle.2).1 hfind).1
      have hreach : k + needle.1.length ≤ (liveCut (.literal needle) context stream k).2 := by
        rcases context with _ | amount
        · exact hle
        · exact Nat.le_refl _
      refine iff_of_true ⟨by omega, ?_⟩ trivial
      rw [List.drop_take, List.prefix_take_iff]
      exact ⟨hocc, by omega⟩
    | @regex re i j hfind =>
      obtain ⟨hij, hj⟩ := re.find_le _ _ hfind
      simp only at hij hj
      refine iff_of_true ⟨?_, ?_⟩ (fun hsome => absurd hsome hhist)
      · show k ≤ min stream.length stream.length
        omega
      · rw [show (liveCut (.regex re) context stream k).2 = stream.length from rfl,
          List.take_length]
        exact (List.take_prefix ..).drop k
    | @glob pat i hfirst =>
      rw [show (liveCut (.glob pat) context stream _).2 = stream.length from rfl, List.take_length,
        Nat.min_self]
      constructor
      · intro hreturned i' hfirst'
        rw [if_neg hhist, hfirst'.unique hfirst]
        exact hreturned
      · intro hwhole
        have := hwhole i hfirst
        rwa [if_neg hhist] at this

end

/-- The regex `^ok`. -/
def startsOk : Regex where
  find w := if [111, 107].isPrefixOf w then some (0, 2) else none
  find_le := by
    intro w m h
    split at h
    · next hprefix =>
      cases h
      exact ⟨Nat.zero_le _, (List.isPrefixOf_iff_prefix.1 hprefix).length_le⟩
    · cases h

/-- A raw read until the regex matches. -/
def untilOk : ReadRequest := { maxBytes := 8, matcher := some (.new (.regex startsOk) none) }

/-- `"ok!"` arrives as one live chunk. -/
theorem returns_match_live : ∃ tr w' out final,
    Runs act Rely linesAwaited
      (readFromPrivateCursor .refusing 1 untilOk 0) tr w' (.ok (out, final)) ∧
    ReturnsMatch (.regex startsOk) (items (taken tr)) (out.rawResult final) := by
  have hrun : ∃ tr w' out final, Runs act Rely linesAwaited
      (readFromPrivateCursor .refusing 1 untilOk 0) tr w' (.ok (out, final)) ∧
      out.matched = true ∧ (initialSlice tr).bytes = [] :=
    ⟨_, _, _, _, runs_of_run Rely.refl _ (arrival_rely [111, 107, 33]) rfl, rfl, rfl⟩
  obtain ⟨tr, w', out, final, hrun, hmatched, hslice⟩ := hrun
  refine ⟨tr, w', out, final, hrun, (returns_match_iff ⟨rfl, rfl⟩ hrun hmatched).2 ?_⟩
  intro hhist
  simp [historyEnd, hslice] at hhist

/-- `"ok!"` is buffered: the read reports a match at `0` and returns nothing. -/
theorem history_match_unreturned : ¬∀ (crates : Crates) (turns : ℕ) (req : ReadRequest)
    (pattern : Pattern) (context : Option ℕ) (c : ℕ) (w w' : World) (tr : List RxEvent)
    (out : ReadOutcome) (final : ℕ), RawMatch req pattern context →
    Runs act Rely w (readFromPrivateCursor crates turns req c) tr w' (.ok (out, final)) →
    out.matched = true → ReturnsMatch pattern (items (taken tr)) (out.rawResult final) := by
  intro h
  have hrun : ∃ tr w' out final, Runs act Rely buffered
      (readFromPrivateCursor .refusing 0 untilOk 0) tr w' (.ok (out, final)) ∧
      out.matched = true ∧ out.bytes = [] ∧ items (taken tr) = [111, 107, 33] :=
    ⟨_, _, _, _, runs_of_run Rely.refl [] (by simp) rfl, rfl, rfl, rfl⟩
  obtain ⟨tr, w', out, final, hrun, hmatched, hbytes, htaken⟩ := hrun
  obtain ⟨k, occ, i, hfinds, -, -, hocc⟩ :=
    h _ _ _ (.regex startsOk) none _ _ _ _ _ _ ⟨rfl, rfl⟩ hrun hmatched
  rw [show (out.rawResult final).bytes = [] from hbytes, List.drop_nil, List.prefix_nil] at hocc
  rw [htaken] at hfinds
  obtain ⟨-, hempty⟩ := hfinds.unique (.regex (show startsOk.find [111, 107, 33] = some (0, 2) from rfl))
  rw [hocc] at hempty
  cases hempty

end SerialMcp
