/-
  The bounded window of a matcher over a stream (`push_bounded`).

  A matcher is fed chunk by chunk, each call with the `max_buffered_bytes` of
  its moment, and cuts its window after every one of them.

  * `Tail`: the window is the rest of the stream from `base` on, after every
    call (`Tail.pushBounded`, `Tail.feed`);
  * `Unseen`: what a literal matcher that found nothing yet knows of the bytes
    it gave up: no occurrence starts in them, now or after more bytes
    (`Unseen.before`), because a cut leaves `needle.len() - 1` bytes;
  * `literal_pushBounded`: the literal matcher finds what a search of the whole
    stream finds.
-/
import SerialMcp.Matcher

namespace SerialMcp

namespace Matcher

/-! ## Feeding a matcher -/

/-- The matcher after calls of `push_bounded`, each a chunk with its
    `max_buffered_bytes`. -/
def feed (m : Matcher) : List (Bytes × ℕ) → Matcher
  | [] => m
  | call :: calls => feed (m.pushBounded call.1 call.2).2 calls

/-- What these calls return. -/
def answers (m : Matcher) : List (Bytes × ℕ) → List MatchResult
  | [] => []
  | call :: calls =>
    let r := m.pushBounded call.1 call.2
    r.1 :: answers r.2 calls

/-- All bytes that were fed. -/
def fed (calls : List (Bytes × ℕ)) : Bytes := calls.flatMap Prod.fst

@[simp] theorem fed_nil : fed [] = [] := rfl

@[simp] theorem fed_cons (call : Bytes × ℕ) (calls : List (Bytes × ℕ)) :
    fed (call :: calls) = call.1 ++ fed calls := rfl

/-- What each call keeps, with the stream grown by its chunk, all calls keep. -/
theorem feed_keeps {P : Matcher → Bytes → Prop}
    (hstep : ∀ m stream chunk cap, P m stream → P (m.pushBounded chunk cap).2 (stream ++ chunk))
    {m : Matcher} {stream : Bytes} (h : P m stream) (calls : List (Bytes × ℕ)) :
    P (m.feed calls) (stream ++ fed calls) := by
  induction calls generalizing m stream with
  | nil =>
    rw [fed_nil, List.append_nil]
    exact h
  | cons call calls ih =>
    rw [fed_cons, ← List.append_assoc]
    exact ih (hstep m stream call.1 call.2 h)

/-! ## One call -/

/-- The matcher that a call checks. -/
def appended (m : Matcher) (chunk : Bytes) : Matcher :=
  { m with lastMatchContext := none, window := m.window ++ chunk }

theorem saveLiteralContext_twice (m : Matcher) (i : ℕ) (cap cap' : Option ℕ) :
    (m.saveLiteralContext i cap).saveLiteralContext i cap' = m.saveLiteralContext i cap' := by
  obtain ⟨pattern, window, contextAmount, base, last, first⟩ := m
  cases pattern with
  | literal needle => cases contextAmount <;> rfl
  | regex re => rfl
  | glob pat => rfl

theorem saveLiteralContext_none {m : Matcher} (h : m.contextAmount = none) (i : ℕ) (cap : Option ℕ) :
    m.saveLiteralContext i cap = m := by
  obtain ⟨pattern, window, contextAmount, base, last, first⟩ := m
  cases h
  cases pattern <;> rfl

theorem pushBounded_answer (m : Matcher) (chunk : Bytes) (cap : ℕ) :
    (m.pushBounded chunk cap).1 = (m.appended chunk).check :=
  pushBounded_result m chunk cap

theorem pushBounded_noMatch {m : Matcher} {chunk : Bytes} {cap : ℕ}
    (h : (m.pushBounded chunk cap).1 = .noMatch) :
    (m.pushBounded chunk cap).2 = (m.appended chunk).retain cap := by
  have hcheck : check { m with lastMatchContext := none, window := m.window ++ chunk } = .noMatch := by
    rw [← pushBounded_result m chunk cap, h]
  simp only [pushBounded, push, hcheck, appended]

theorem pushBounded_found {m : Matcher} {chunk : Bytes} {cap i : ℕ}
    (h : (m.pushBounded chunk cap).1 = .found i) :
    (m.pushBounded chunk cap).2 = ((m.appended chunk).saveLiteralContext i (some cap)).retain cap := by
  have hcheck : check { m with lastMatchContext := none, window := m.window ++ chunk } = .found i := by
    rw [← pushBounded_result m chunk cap, h]
  simp only [pushBounded, push, hcheck, appended, saveLiteralContext_twice]

/-! ## The window is the end of the stream -/

/-- The window of `m` is the rest of `stream` from its base on. -/
structure Tail (m : Matcher) (stream : Bytes) : Prop where
  base_le : m.base ≤ stream.length
  window_eq : m.window = stream.drop m.base

variable {m : Matcher} {stream chunk : Bytes} {cap : ℕ}

theorem tail_new (pattern : Pattern) (context : Option ℕ) : Tail (new pattern context) [] where
  base_le := Nat.le_refl _
  window_eq := rfl

theorem Tail.grown (h : Tail m stream) (chunk : Bytes) :
    m.window ++ chunk = (stream ++ chunk).drop m.base := by
  rw [List.drop_append_of_le_length h.base_le, h.window_eq]

theorem Tail.appended (h : Tail m stream) (chunk : Bytes) :
    Tail (m.appended chunk) (stream ++ chunk) := by
  constructor
  · show m.base ≤ (stream ++ chunk).length
    have hle := h.base_le
    rw [List.length_append]
    omega
  · exact h.grown chunk

theorem Tail.retain (h : Tail m stream) (cap : ℕ) : Tail (m.retain cap) stream := by
  rcases m.retain_cases cap with ⟨-, hretain⟩ | ⟨k, -, hlen, hretain⟩
  · rw [hretain]
    exact h
  · have hle := h.base_le
    rw [h.window_eq, List.length_drop] at hlen
    rw [hretain]
    constructor
    · show m.base + k ≤ stream.length
      omega
    · show m.window.drop k = stream.drop (m.base + k)
      rw [h.window_eq, List.drop_drop]

theorem Tail.pushBounded (h : Tail m stream) (chunk : Bytes) (cap : ℕ) :
    Tail (m.pushBounded chunk cap).2 (stream ++ chunk) := by
  obtain ⟨ctx, hpush⟩ := m.pushBounded_keeps chunk cap
  have hgrown : Tail { m with lastMatchContext := ctx, window := m.window ++ chunk }
      (stream ++ chunk) := ⟨(h.appended chunk).base_le, h.grown chunk⟩
  rw [hpush]
  exact hgrown.retain cap

theorem Tail.feed (h : Tail m stream) (calls : List (Bytes × ℕ)) :
    Tail (m.feed calls) (stream ++ fed calls) :=
  feed_keeps (fun _ _ chunk cap h => h.pushBounded chunk cap) h calls

theorem retain_request (m : Matcher) (cap : ℕ) :
    (m.retain cap).pattern = m.pattern ∧ (m.retain cap).contextAmount = m.contextAmount := by
  rcases m.retain_cases cap with ⟨-, hretain⟩ | ⟨k, -, -, hretain⟩
  · rw [hretain]
    exact ⟨rfl, rfl⟩
  · rw [hretain]
    exact ⟨rfl, rfl⟩

theorem pushBounded_request (m : Matcher) (chunk : Bytes) (cap : ℕ) :
    (m.pushBounded chunk cap).2.pattern = m.pattern ∧
      (m.pushBounded chunk cap).2.contextAmount = m.contextAmount := by
  obtain ⟨ctx, hpush⟩ := m.pushBounded_keeps chunk cap
  rw [hpush]
  exact retain_request _ cap

theorem feed_request (m : Matcher) (calls : List (Bytes × ℕ)) :
    (m.feed calls).pattern = m.pattern ∧ (m.feed calls).contextAmount = m.contextAmount := by
  induction calls generalizing m with
  | nil => exact ⟨rfl, rfl⟩
  | cons call calls ih =>
    obtain ⟨hpattern, hcontext⟩ := ih (m.pushBounded call.1 call.2).2
    obtain ⟨hpattern', hcontext'⟩ := m.pushBounded_request call.1 call.2
    exact ⟨hpattern.trans hpattern', hcontext.trans hcontext'⟩

theorem retain_length_le (m : Matcher) (cap : ℕ) :
    (m.retain cap).window.length ≤ m.retainedWindowLimit cap := by
  rcases m.retain_cases cap with ⟨hle, hretain⟩ | ⟨k, -, hlen, hretain⟩
  · rw [hretain]
    exact hle
  · rw [hretain, List.length_drop]
    omega

theorem pushBounded_length_le (m : Matcher) (chunk : Bytes) (cap : ℕ) :
    (m.pushBounded chunk cap).2.window.length ≤ m.retainedWindowLimit cap := by
  obtain ⟨ctx, hpush⟩ := m.pushBounded_keeps chunk cap
  rw [hpush]
  exact retain_length_le _ cap

theorem retain_base (m : Matcher) (cap : ℕ) : (m.retain cap).base = m.base ∨
    (m.retain cap).base + m.retainedWindowLimit cap = m.base + m.window.length := by
  rcases m.retain_cases cap with ⟨-, hretain⟩ | ⟨k, -, hlen, hretain⟩
  · left
    rw [hretain]
  · right
    rw [hretain]
    show m.base + k + m.retainedWindowLimit cap = m.base + m.window.length
    omega

/-! ## A literal that was not seen yet -/

/-- A literal matcher that found nothing in `stream`. -/
structure Unseen (needle : Marker) (m : Matcher) (stream : Bytes) : Prop extends Tail m stream where
  pattern_eq : m.pattern = .literal needle
  /-- A cut leaves `needle.len() - 1` bytes or more. -/
  cut : m.base = 0 ∨ m.base + needle.1.length ≤ stream.length + 1
  absent : findSubsequence stream needle.1 = none

variable {needle : Marker}

theorem unseen_new (needle : Marker) (context : Option ℕ) :
    Unseen needle (new (.literal needle) context) [] where
  toTail := tail_new _ _
  pattern_eq := rfl
  cut := .inl rfl
  absent := by
    refine (findSubsequence_eq_none needle.2).2 ?_
    intro j hocc
    have := occurrence_le hocc needle.2
    have := List.length_pos_iff.2 needle.2
    simp only [List.length_nil] at *
    omega

/-- **No occurrence starts in the bytes given up**, whatever follows. -/
theorem Unseen.before (h : Unseen needle m stream) (chunk : Bytes) :
    ∀ j < m.base, ¬ needle.1 <+: (stream ++ chunk).drop j := by
  intro j hj
  rcases h.cut with hzero | hcut
  · omega
  · exact no_occurrence_append needle.2 h.absent (by omega)

theorem Unseen.search (h : Unseen needle m stream) (chunk : Bytes) :
    findSubsequence (stream ++ chunk) needle.1 =
      (findSubsequence (m.window ++ chunk) needle.1).map (m.base + ·) := by
  rw [h.grown chunk]
  exact findSubsequence_drop needle.2 (h.before chunk)

theorem Unseen.answer (h : Unseen needle m stream) (chunk : Bytes) (cap : ℕ) :
    (m.pushBounded chunk cap).1 =
      (findSubsequence (stream ++ chunk) needle.1).elim .noMatch .found := by
  simp only [pushBounded_answer, appended, h.search chunk, check, Matcher.search, h.pattern_eq]
  cases findSubsequence (m.window ++ chunk) needle.1 with
  | none => rfl
  | some i => rfl

theorem Unseen.found_iff (h : Unseen needle m stream) (chunk : Bytes) (cap : ℕ) {i : ℕ} :
    (m.pushBounded chunk cap).1 = .found i ↔
      findSubsequence (stream ++ chunk) needle.1 = some i := by
  rw [h.answer chunk cap]
  cases findSubsequence (stream ++ chunk) needle.1 with
  | none => simp
  | some j => simp

theorem Unseen.pushBounded (h : Unseen needle m stream)
    (hno : (m.pushBounded chunk cap).1 = .noMatch) :
    Unseen needle (m.pushBounded chunk cap).2 (stream ++ chunk) where
  toTail := h.toTail.pushBounded chunk cap
  pattern_eq := (m.pushBounded_request chunk cap).1.trans h.pattern_eq
  cut := by
    have hpos := List.length_pos_iff.2 needle.2
    have hle := h.base_le
    have hlen : (stream ++ chunk).length = m.base + (m.window ++ chunk).length := by
      rw [h.grown chunk, List.length_drop, List.length_append]
      omega
    have hlimit : (m.appended chunk).retainedWindowLimit cap = cap + (needle.1.length - 1) := by
      simp only [retainedWindowLimit, appended, h.pattern_eq]
    rw [pushBounded_noMatch hno]
    rcases retain_base (m.appended chunk) cap with hsame | hcut
    · rw [hsame]
      show m.base = 0 ∨ m.base + _ ≤ _
      rcases h.cut with hzero | hcut
      · exact .inl hzero
      · right
        rw [List.length_append]
        omega
    · right
      rw [hlimit] at hcut
      change _ = m.base + (m.window ++ chunk).length at hcut
      omega
  absent := by
    cases hs : findSubsequence (stream ++ chunk) needle.1 with
    | none => rfl
    | some i =>
      rw [(h.found_iff chunk cap).2 hs] at hno
      cases hno

theorem Unseen.feed (h : Unseen needle m stream) {calls : List (Bytes × ℕ)}
    (hno : ∀ r ∈ m.answers calls, r = .noMatch) :
    Unseen needle (m.feed calls) (stream ++ fed calls) := by
  induction calls generalizing m stream with
  | nil =>
    rw [fed_nil, List.append_nil]
    exact h
  | cons call calls ih =>
    rw [fed_cons, ← List.append_assoc]
    obtain ⟨hhead, htail⟩ := List.forall_mem_cons.1 hno
    exact ih (h.pushBounded hhead) htail

/-! ## The saved context -/

/-- What `save_literal_context` saves, in terms of the stream. -/
theorem Tail.saved (h : Tail m stream) (hpattern : m.pattern = .literal needle) {context i : ℕ}
    (hcontext : m.contextAmount = some context) (hbase : m.base ≤ i)
    (hi : i + needle.1.length ≤ stream.length) (cap : ℕ) :
    (m.saveLiteralContext i (some cap)).lastMatchContext = some ⟨i,
      { data := (stream.take (i + needle.1.length)).drop (i - min context (min cap (i - m.base)))
        matchIndex := min context (min cap (i - m.base))
        needleLen := needle.1.length }⟩ := by
  have hwindow : m.window.length = stream.length - m.base := by rw [h.window_eq, List.length_drop]
  have hend : min (i - m.base + needle.1.length) m.window.length = i + needle.1.length - m.base := by
    omega
  have hstart : m.base + (i - m.base - min context cap) = i - min context (min cap (i - m.base)) := by
    omega
  have hindex : i - m.base - (i - m.base - min context cap) = min context (min cap (i - m.base)) := by
    omega
  simp only [Matcher.saveLiteralContext, hpattern, hcontext, Option.elim_some, hend, hindex]
  rw [h.window_eq, ← hstart, ← List.drop_drop, List.take_drop, Nat.add_sub_cancel' (by omega)]

theorem retain_lastMatchContext (m : Matcher) (cap : ℕ) :
    (m.retain cap).lastMatchContext = m.lastMatchContext := by
  rcases m.retain_cases cap with ⟨-, hretain⟩ | ⟨k, -, -, hretain⟩
  · rw [hretain]
  · rw [hretain]

theorem Unseen.context (h : Unseen needle m stream) (chunk : Bytes) (cap : ℕ)
    (saved : SavedMatchContext) :
    (m.pushBounded chunk cap).2.lastMatchContext = some saved ↔ ∃ i context,
      (m.pushBounded chunk cap).1 = .found i ∧ m.contextAmount = some context ∧
      saved = ⟨i, {
        data := ((stream ++ chunk).take (i + needle.1.length)).drop
          (i - min context (min cap (i - m.base)))
        matchIndex := min context (min cap (i - m.base))
        needleLen := needle.1.length }⟩ := by
  cases hr : (m.pushBounded chunk cap).1 with
  | noMatch =>
    rw [pushBounded_noMatch hr, retain_lastMatchContext]
    constructor
    · intro hsaved
      cases hsaved
    · rintro ⟨i, context, hfound, -⟩
      cases hfound
  | found i =>
    rw [pushBounded_found hr, retain_lastMatchContext]
    have hpattern : (m.appended chunk).pattern = .literal needle := h.pattern_eq
    have hfind := (h.found_iff chunk cap).1 hr
    have hbase : m.base ≤ i := by
      by_contra hlt
      exact h.before chunk i (by omega) ((findSubsequence_eq_some needle.2).1 hfind).1
    cases hcontext : m.contextAmount with
    | none =>
      rw [saveLiteralContext_none (by exact hcontext)]
      constructor
      · intro hsaved
        cases hsaved
      · rintro ⟨j, context, -, hsome, -⟩
        cases hsome
    | some context =>
      rw [(h.toTail.appended chunk).saved hpattern hcontext hbase
        (findSubsequence_le needle.2 hfind) cap]
      constructor
      · rintro ⟨⟩
        exact ⟨i, context, rfl, rfl, rfl⟩
      · rintro ⟨j, context', hfound, hsome, rfl⟩
        cases hfound
        cases hsome
        rfl

/-! ## The whole stream -/

/-- **The bounded literal matcher is a search of the whole stream.**  Up to
    and including the first match, whatever the chunks and the caps: the answer
    is the first occurrence in all bytes so far, the window is the end of these
    bytes and within its limit, and the saved context is the part of the
    stream around the match. -/
theorem literal_pushBounded (needle : Marker) (context : Option ℕ) (calls : List (Bytes × ℕ))
    (chunk : Bytes) (cap : ℕ)
    (hno : ∀ r ∈ (new (.literal needle) context).answers calls, r = .noMatch) :
    let before := (new (.literal needle) context).feed calls
    let stream := fed calls ++ chunk
    let r := before.pushBounded chunk cap
    (∀ i, r.1 = .found i ↔
      needle.1 <+: stream.drop i ∧ ∀ j < i, ¬ needle.1 <+: stream.drop j) ∧
    (r.2.base ≤ stream.length ∧ r.2.window = stream.drop r.2.base) ∧
    r.2.window.length ≤ cap + needle.1.length - 1 ∧
    ∀ saved, r.2.lastMatchContext = some saved ↔ ∃ i amount,
      r.1 = .found i ∧ context = some amount ∧
      saved = ⟨i, {
        data := (stream.take (i + needle.1.length)).drop
          (i - min amount (min cap (i - before.base)))
        matchIndex := min amount (min cap (i - before.base))
        needleLen := needle.1.length }⟩ := by
  intro before stream r
  have h : Unseen needle before (fed calls) := (unseen_new needle context).feed hno
  have htail : Tail r.2 stream := h.toTail.pushBounded chunk cap
  refine ⟨?_, ⟨htail.base_le, htail.window_eq⟩, ?_, ?_⟩
  · intro i
    rw [h.found_iff chunk cap]
    exact findSubsequence_eq_some needle.2
  · have hpos := List.length_pos_iff.2 needle.2
    have hle := pushBounded_length_le before chunk cap
    simp only [retainedWindowLimit, h.pattern_eq] at hle
    show (before.pushBounded chunk cap).2.window.length ≤ _
    omega
  · intro saved
    rw [h.context chunk cap saved, (feed_request _ calls).2]
    rfl

/-- The two bytes of a needle arrive apart, and nothing may be buffered. -/
theorem literal_pushBounded_apart :
    let m := new (.literal ⟨[1, 2], by simp⟩) (some 4)
    (∀ r ∈ m.answers [([7, 1], 0)], r = .noMatch) ∧
      (((m.feed [([7, 1], 0)]).pushBounded [2] 0).1 = .found 1 ↔
        ([1, 2] : Bytes) <+: List.drop 1 [7, 1, 2] ∧
          ∀ j < 1, ¬ ([1, 2] : Bytes) <+: List.drop j [7, 1, 2]) := by
  intro m
  have hno : ∀ r ∈ m.answers [([7, 1], 0)], r = .noMatch := by decide
  exact ⟨hno, (literal_pushBounded ⟨[1, 2], by simp⟩ (some 4) [([7, 1], 0)] [2] 0 hno).1 1⟩

end Matcher

end SerialMcp
