/-
  Pattern matching on received bytes (`match_config.rs`).

  A `Matcher` accumulates chunks in a window and searches it after each one:
  for a literal, with a regex, or line by line with a glob.  `push_bounded`
  also cuts the window at the front; `base` counts what was cut, so a match is
  reported relative to all bytes since the last `reset_window`.

  * `resetWindow_push`, `resetWindow_pushBounded`: a reset matcher does not
    depend on what it saw before;
  * `globLines_eq_some`, `search_le`: where a match can be.
-/
import SerialMcp.Codec
import SerialMcp.Util

namespace SerialMcp

/-- Supported match modes. -/
inductive MatchMode where
  | literalSubstring
  | regex
  | glob
  deriving DecidableEq, Repr

/-- Configuration for how a match pattern is decoded and matched. -/
structure MatchConfig where
  mode : MatchMode := .literalSubstring
  patternEncoding : PatternEncoding := .utf8
  contextAmountOfMatchedBytes : Option ℕ := none
  deriving DecidableEq, Repr

/-- Match configuration supplied alongside a `read` request. -/
structure MatchRequest where
  pattern : String
  config : MatchConfig
  deriving DecidableEq, Repr

/-- Result of checking for a match after pushing a chunk. -/
inductive MatchResult where
  | noMatch
  /-- offset relative to the bytes fed since the last `reset_window` -/
  | found (index : ℕ)
  deriving DecidableEq, Repr

/-- Result of shaping a matched payload with pre-match context. -/
structure ShapedMatchPayload where
  data : Bytes
  matchIndex : ℕ
  needleLen : ℕ
  deriving DecidableEq, Repr

/-- Saved literal context for the most recent push. -/
structure SavedMatchContext where
  globalIndex : ℕ
  payload : ShapedMatchPayload
  deriving DecidableEq, Repr

/-- What the variants of the enum `Matcher` differ in. -/
inductive Pattern where
  | literal (needle : Marker)
  | regex (re : Regex)
  | glob (pat : Text → Bool)

/-- Stateful byte pattern matcher.  Only a literal saves a context and only a
    glob marks its first line partial. -/
structure Matcher where
  pattern : Pattern
  window : Bytes
  contextAmount : Option ℕ
  /-- bytes cut from the front of the window since the last `reset_window` -/
  base : ℕ
  lastMatchContext : Option SavedMatchContext
  firstLinePartial : Bool

/-- Bytes retained beyond `max_buffered_bytes` for regex and glob windows. -/
def regexGlobOverlapAllowance : ℕ := 256

namespace Matcher

/-- A matcher as `validate_match_request` builds it. -/
def new (pattern : Pattern) (contextAmount : Option ℕ) : Matcher :=
  ⟨pattern, [], contextAmount, 0, none, false⟩

/-- `needle_len` -/
def needleLen (m : Matcher) : Option ℕ :=
  match m.pattern with
  | .literal needle => some needle.1.length
  | _ => none

/-- `strip_suffix('\r').unwrap_or(line)` -/
def stripCr (line : Text) : Text := if line.getLast? = some '\r' then line.dropLast else line

/-- The byte offset of the first line that `pat` matches as a whole; `skip`
    passes over the first one. -/
def globLines (pat : Text → Bool) : Bool → ℕ → List Text → Option ℕ
  | _, _, [] => none
  | skip, byteOffset, line :: lines =>
    if !skip && pat (stripCr line) then some byteOffset
    else globLines pat false (byteOffset + (asBytes line).length + 1) lines

/-- Where the window has a match, relative to the window. -/
def search (m : Matcher) : Option ℕ :=
  match m.pattern with
  | .literal needle => findSubsequence m.window needle.1
  | .regex re => (re.find m.window).map Prod.fst
  | .glob pat => globLines pat m.firstLinePartial 0 ((fromUtf8Lossy m.window).splitOn '\n')

/-- `Matcher::check` -/
def check (m : Matcher) : MatchResult :=
  match m.search with
  | some i => .found (m.base + i)
  | none => .noMatch

/-- `save_literal_context` -/
def saveLiteralContext (m : Matcher) (globalIndex : ℕ) (contextCap : Option ℕ) : Matcher :=
  match m.pattern, m.contextAmount with
  | .literal needle, some context =>
    let effectiveContext := contextCap.elim context (min context)
    let localIndex := globalIndex - m.base
    let preStart := localIndex - effectiveContext
    let matchEnd := min (localIndex + needle.1.length) m.window.length
    { m with lastMatchContext := some ⟨globalIndex,
        { data := (m.window.take matchEnd).drop preStart
          matchIndex := localIndex - preStart
          needleLen := needle.1.length }⟩ }
  | _, _ => m

/-- `Matcher::push` -/
def push (m : Matcher) (chunk : Bytes) : MatchResult × Matcher :=
  let m := { m with lastMatchContext := none, window := m.window ++ chunk }
  match m.check with
  | .found i => (.found i, m.saveLiteralContext i none)
  | .noMatch => (.noMatch, m)

/-- `retained_window_limit` -/
def retainedWindowLimit (m : Matcher) (maxBufferedBytes : ℕ) : ℕ :=
  maxBufferedBytes + match m.pattern with
    | .literal needle => needle.1.length - 1
    | _ => regexGlobOverlapAllowance

/-- `truncate_front` -/
def truncateFront (m : Matcher) (keep : ℕ) : Matcher :=
  let drop := m.window.length - keep
  if 0 < drop then
    { m with
      window := m.window.drop drop
      base := m.base + drop
      firstLinePartial := match m.pattern with
        | .glob _ => decide (m.window[drop - 1]? ≠ some 10)
        | _ => m.firstLinePartial }
  else m

/-- Enforce the retention cap. -/
def retain (m : Matcher) (maxBufferedBytes : ℕ) : Matcher :=
  let limit := m.retainedWindowLimit maxBufferedBytes
  if limit < m.window.length then m.truncateFront limit else m

/-- `push_bounded` -/
def pushBounded (m : Matcher) (chunk : Bytes) (maxBufferedBytes : ℕ) : MatchResult × Matcher :=
  let r := m.push chunk
  match r.1 with
  | .found i => (.found i,
      (r.2.saveLiteralContext i (some maxBufferedBytes)).retain maxBufferedBytes)
  | .noMatch => (.noMatch, r.2.retain maxBufferedBytes)

/-- `reset_window` -/
def resetWindow (m : Matcher) : Matcher :=
  { m with window := [], base := 0, lastMatchContext := none, firstLinePartial := false }

/-- `shape_literal_match_context` -/
def shapeLiteralMatchContext (m : Matcher) (globalMatchIndex : ℕ) : Option ShapedMatchPayload :=
  match m.pattern, m.contextAmount, m.lastMatchContext with
  | .literal _, some _, some ctx =>
    if ctx.globalIndex = globalMatchIndex then some ctx.payload else none
  | _, _, _ => none

end Matcher

/-- `shape_match_context`; no result where slicing `accumulated` panics. -/
def shapeMatchContext (accumulated : Bytes) (matchIndex needleLen : ℕ)
    (contextAmount : Option ℕ) : Option ShapedMatchPayload :=
  match contextAmount with
  | none => some ⟨accumulated, matchIndex, needleLen⟩
  | some n =>
    let preStart := matchIndex - n
    let matchEnd := matchIndex + needleLen
    if matchEnd ≤ accumulated.length then
      some ⟨(accumulated.take matchEnd).drop preStart, matchIndex - preStart, needleLen⟩
    else none

/-- `validate_match_request` -/
def validateMatchRequest (crates : Crates) (req : MatchRequest) : Except String Matcher :=
  match decode crates req.config.patternEncoding.toEncoding req.pattern.toList with
  | .error e => .error ("Pattern decoding failed - " ++ e.toText)
  | .ok decoded =>
    let context := req.config.contextAmountOfMatchedBytes
    if h : decoded ≠ [] then
      match req.config.mode with
      | .literalSubstring => .ok (Matcher.new (.literal ⟨decoded, h⟩) context)
      | .regex =>
        match crates.regexNew (fromUtf8Lossy decoded) with
        | .error e => .error ("Invalid regex pattern: " ++ e)
        | .ok re => .ok (Matcher.new (.regex re) context)
      | .glob =>
        match crates.globNew (fromUtf8Lossy decoded) with
        | .error e => .error ("Invalid glob pattern: " ++ e)
        | .ok pat => .ok (Matcher.new (.glob pat) context)
    else .error "Pattern must not be empty after decoding"

/-- A valid request makes a new matcher with its context amount. -/
theorem validateMatchRequest_eq_ok {crates : Crates} {req : MatchRequest} {m : Matcher}
    (h : validateMatchRequest crates req = .ok m) :
    ∃ pattern, m = .new pattern req.config.contextAmountOfMatchedBytes := by
  unfold validateMatchRequest at h
  split at h
  · cases h
  split at h
  · split at h
    · cases h
      exact ⟨_, rfl⟩
    · split at h
      · cases h
      · cases h
        exact ⟨_, rfl⟩
    · split at h
      · cases h
      · cases h
        exact ⟨_, rfl⟩
  · cases h

/-! ## A reset matcher does not depend on what it saw -/

namespace Matcher

theorem saveLiteralContext_keeps (m : Matcher) (i : ℕ) (cap : Option ℕ) :
    ∃ ctx, m.saveLiteralContext i cap = { m with lastMatchContext := ctx } := by
  simp only [saveLiteralContext]
  split
  · exact ⟨_, rfl⟩
  · exact ⟨m.lastMatchContext, rfl⟩

theorem push_keeps (m : Matcher) (chunk : Bytes) :
    ∃ ctx, (m.push chunk).2 = { m with lastMatchContext := ctx, window := m.window ++ chunk } := by
  simp only [push]
  split
  · next i _ =>
    obtain ⟨ctx, hsave⟩ := saveLiteralContext_keeps
      { m with lastMatchContext := none, window := m.window ++ chunk } i none
    exact ⟨ctx, hsave⟩
  · exact ⟨none, rfl⟩

/-- Keeping the cap leaves a short window alone and cuts the front of a long one. -/
theorem retain_cases (m : Matcher) (n : ℕ) :
    (m.window.length ≤ m.retainedWindowLimit n ∧ m.retain n = m) ∨
    ∃ k, 0 < k ∧ m.retainedWindowLimit n + k = m.window.length ∧ m.retain n = { m with
      window := m.window.drop k
      base := m.base + k
      firstLinePartial := match m.pattern with
        | .glob _ => decide (m.window[k - 1]? ≠ some 10)
        | _ => m.firstLinePartial } := by
  by_cases hlong : m.retainedWindowLimit n < m.window.length
  · right
    have hcut : 0 < m.window.length - m.retainedWindowLimit n := by omega
    refine ⟨m.window.length - m.retainedWindowLimit n, hcut, by omega, ?_⟩
    simp only [retain, if_pos hlong, truncateFront, if_pos hcut]
  · left
    refine ⟨by omega, ?_⟩
    simp only [retain, if_neg hlong]

/-- A bounded push changes the window and the context, and keeps the cap. -/
theorem pushBounded_keeps (m : Matcher) (chunk : Bytes) (n : ℕ) :
    ∃ ctx, (m.pushBounded chunk n).2 =
      { m with lastMatchContext := ctx, window := m.window ++ chunk }.retain n := by
  obtain ⟨ctx, hpush⟩ := m.push_keeps chunk
  simp only [pushBounded]
  split
  · next i _ =>
    obtain ⟨ctx', hsave⟩ := (m.push chunk).2.saveLiteralContext_keeps i (some n)
    rw [hsave, hpush]
    exact ⟨ctx', rfl⟩
  · rw [hpush]
    exact ⟨ctx, rfl⟩

theorem resetWindow_push (m : Matcher) (chunk : Bytes) :
    (m.push chunk).2.resetWindow = m.resetWindow := by
  obtain ⟨ctx, hpush⟩ := m.push_keeps chunk
  rw [hpush]
  rfl

theorem resetWindow_retain (m : Matcher) (n : ℕ) : (m.retain n).resetWindow = m.resetWindow := by
  rcases m.retain_cases n with ⟨-, hretain⟩ | ⟨k, -, -, hretain⟩
  · rw [hretain]
  · rw [hretain]
    rfl

theorem resetWindow_pushBounded (m : Matcher) (chunk : Bytes) (n : ℕ) :
    (m.pushBounded chunk n).2.resetWindow = m.resetWindow := by
  obtain ⟨ctx, hpush⟩ := m.pushBounded_keeps chunk n
  rw [hpush, resetWindow_retain]
  rfl

/-! ## Where a match can be -/

/-- What lines take as bytes, each with its terminator. -/
def lineBytes (lines : List Text) : ℕ := (lines.map fun line => (asBytes line).length + 1).sum

theorem lineBytes_splitOn (s : Text) : lineBytes (s.splitOn '\n') = (asBytes s).length + 1 := by
  rw [List.splitOn]
  induction s with
  | nil => rfl
  | cons c s ih =>
    rw [List.splitOnP_cons_eq_if_modifyHead]
    split
    · next hc =>
      rw [beq_iff_eq] at hc
      subst hc
      rw [asBytes_cons_length, show Char.utf8Size '\n' = 1 from rfl]
      show 0 + 1 + lineBytes _ = _
      rw [ih]
      omega
    · rcases hs : s.splitOnP (· == '\n') with _ | ⟨line, lines⟩
      · exact absurd hs (List.splitOnP_ne_nil _ _)
      · rw [hs] at ih
        simp only [List.modifyHead_cons, lineBytes, List.map_cons, List.sum_cons,
          asBytes_cons_length] at ih ⊢
        omega

/-- **Where a glob matches**: at the first line that it matches as a whole. -/
theorem globLines_eq_some {pat : Text → Bool} {off k : ℕ} {lines : List Text} :
    globLines pat false off lines = some k ↔ ∃ before line after,
      lines = before ++ line :: after ∧ (∀ l ∈ before, pat (stripCr l) = false) ∧
        pat (stripCr line) = true ∧ k = off + lineBytes before := by
  induction lines generalizing off with
  | nil => simp [globLines]
  | cons l lines ih =>
    by_cases hl : pat (stripCr l) = true
    · rw [globLines, if_pos (by simpa using hl)]
      constructor
      · rintro ⟨⟩
        exact ⟨[], l, lines, rfl, by simp, hl, rfl⟩
      · rintro ⟨before, line, after, heq, hno, -, rfl⟩
        rcases before with _ | ⟨b, before⟩
        · rfl
        · obtain ⟨rfl, -⟩ := List.cons.inj heq
          rw [hno l (List.mem_cons_self ..)] at hl
          cases hl
    · rw [globLines, if_neg (by simpa using hl), ih]
      constructor
      · rintro ⟨before, line, after, rfl, hno, hline, rfl⟩
        refine ⟨l :: before, line, after, rfl, ?_, hline, ?_⟩
        · intro l' hl'
          rcases List.mem_cons.1 hl' with rfl | hl'
          · exact Bool.eq_false_iff.2 hl
          · exact hno l' hl'
        · simp only [lineBytes, List.map_cons, List.sum_cons]
          omega
      · rintro ⟨before, line, after, heq, hno, hline, rfl⟩
        rcases before with _ | ⟨b, before⟩
        · obtain ⟨rfl, -⟩ := List.cons.inj heq
          exact absurd hline hl
        · obtain ⟨rfl, rfl⟩ := List.cons.inj heq
          refine ⟨before, line, after, rfl, fun l' hl' => hno l' (List.mem_cons_of_mem _ hl'), hline, ?_⟩
          simp only [lineBytes, List.map_cons, List.sum_cons]
          omega

theorem globLines_le {pat : Text → Bool} {skip : Bool} {off k : ℕ} {lines : List Text}
    (h : globLines pat skip off lines = some k) : k ≤ off + lineBytes lines := by
  induction lines generalizing off skip with
  | nil => cases h
  | cons l lines ih =>
    rw [globLines] at h
    simp only [lineBytes, List.map_cons, List.sum_cons]
    split at h
    · cases h
      omega
    · have := ih h
      simp only [lineBytes] at this
      omega

theorem search_le {m : Matcher} {i : ℕ} (h : m.search = some i) : i ≤ 4 * m.window.length + 1 := by
  unfold search at h
  split at h
  · next needle _ =>
    have := findSubsequence_le needle.2 h
    omega
  · next re _ =>
    obtain ⟨p, hp, rfl⟩ := Option.map_eq_some_iff.1 h
    have := re.find_le _ _ hp
    omega
  · have hle := globLines_le h
    have hbytes := asBytes_length_le (fromUtf8Lossy m.window)
    have hchars := fromUtf8Lossy_length_le m.window
    rw [lineBytes_splitOn] at hle
    omega

/-! ## The window holds received bytes -/

theorem push_window (m : Matcher) (chunk : Bytes) :
    (m.push chunk).2.window = m.window ++ chunk := by
  obtain ⟨ctx, hpush⟩ := m.push_keeps chunk
  rw [hpush]

theorem retain_window (m : Matcher) (n : ℕ) : (m.retain n).window <:+ m.window := by
  rcases m.retain_cases n with ⟨-, hretain⟩ | ⟨k, -, -, hretain⟩
  · rw [hretain]
  · rw [hretain]
    exact List.drop_suffix ..

theorem pushBounded_window (m : Matcher) (chunk : Bytes) (n : ℕ) :
    (m.pushBounded chunk n).2.window <:+ m.window ++ chunk := by
  obtain ⟨ctx, hpush⟩ := m.pushBounded_keeps chunk n
  rw [hpush]
  exact retain_window _ n

theorem push_result (m : Matcher) (chunk : Bytes) : (m.push chunk).1 =
    check { m with lastMatchContext := none, window := m.window ++ chunk } := by
  simp only [push]
  split <;> simp [*]

theorem pushBounded_result (m : Matcher) (chunk : Bytes) (n : ℕ) : (m.pushBounded chunk n).1 =
    check { m with lastMatchContext := none, window := m.window ++ chunk } := by
  rw [← push_result]
  simp only [pushBounded]
  split <;> simp [*]

theorem retain_reach (m : Matcher) (n : ℕ) :
    (m.retain n).base + (m.retain n).window.length = m.base + m.window.length := by
  rcases m.retain_cases n with ⟨-, hretain⟩ | ⟨k, -, hlen, hretain⟩
  · rw [hretain]
  · rw [hretain]
    show m.base + k + (m.window.drop k).length = m.base + m.window.length
    rw [List.length_drop]
    omega

theorem pushBounded_reach (m : Matcher) (chunk : Bytes) (n : ℕ) :
    (m.pushBounded chunk n).2.base + (m.pushBounded chunk n).2.window.length =
      m.base + m.window.length + chunk.length := by
  obtain ⟨ctx, hpush⟩ := m.pushBounded_keeps chunk n
  rw [hpush, retain_reach, List.length_append, Nat.add_assoc]

theorem retain_shape (m : Matcher) (n idx : ℕ) :
    (m.retain n).shapeLiteralMatchContext idx = m.shapeLiteralMatchContext idx := by
  rcases m.retain_cases n with ⟨-, hretain⟩ | ⟨k, -, -, hretain⟩
  · rw [hretain]
  · rw [hretain]
    rfl

/-- The context saved for a match comes from the window. -/
theorem saveLiteralContext_shape {m : Matcher} {i idx : ℕ} {cap : Option ℕ}
    {shaped : ShapedMatchPayload}
    (h : (m.saveLiteralContext i cap).shapeLiteralMatchContext idx = some shaped) :
    shaped.data <:+: m.window := by
  obtain ⟨pattern, window, contextAmount, base, last, first⟩ := m
  rcases pattern with needle | re | pat
  · rcases contextAmount with _ | context
    · simp [saveLiteralContext, shapeLiteralMatchContext] at h
    · simp only [saveLiteralContext, shapeLiteralMatchContext] at h
      split at h
      · cases h
        exact (List.drop_suffix ..).isInfix.trans (List.take_prefix ..).isInfix
      · cases h
  · simp [saveLiteralContext, shapeLiteralMatchContext] at h
  · simp [saveLiteralContext, shapeLiteralMatchContext] at h

theorem pushBounded_shape {m : Matcher} {chunk : Bytes} {n i idx : ℕ} {shaped : ShapedMatchPayload}
    (hfound : (m.pushBounded chunk n).1 = .found i)
    (h : (m.pushBounded chunk n).2.shapeLiteralMatchContext idx = some shaped) :
    shaped.data <:+: m.window ++ chunk := by
  simp only [pushBounded] at h hfound
  split at h
  · rw [retain_shape] at h
    have := saveLiteralContext_shape h
    rwa [push_window] at this
  · next hno => simp [hno] at hfound

end Matcher

theorem shapeMatchContext_suffix {hist : Bytes} {idx needleLen context : ℕ}
    {shaped : ShapedMatchPayload}
    (h : shapeMatchContext hist idx needleLen (some context) = some shaped) :
    shaped.data <:+ hist.take (idx + needleLen) := by
  simp only [shapeMatchContext] at h
  split at h
  · cases h
    exact List.drop_suffix ..
  · cases h

end SerialMcp
