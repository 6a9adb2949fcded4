/-
  Whole-line matching on a stream of bytes (`Matcher::check` for globs).

  `check` decodes the window and scans it line by line; the window may start
  anywhere, inside a line or inside a character.

  * `splitOn_fromUtf8Lossy`, `stripCr_fromUtf8Lossy`: the lines of the decoded
    window are the decoded lines of the window;
  * `globLines_scan`: from a line start on, the scan finds the first matching
    line (`FirstLine`);
  * `Marked`: the mark for a partial first line is right after every call
    (`Marked.feed`);
  * `glob_pushBounded`, `found_offset_iff`: which lines are found, and when the
    index is where they are.
-/
import Mathlib.Data.Nat.Find
import SerialMcp.Matcher.Bounded
import SerialMcp.Utf8

namespace SerialMcp

/-! ## ASCII characters of decoded bytes -/

variable {b x : UInt8} {rest r t bs : Bytes} {c : Char}

theorem scalarValue_ascii {cs : Bytes} (hcs : continuation b rest = cs)
    (hwidth : cs.length + 1 = utf8CharWidth b) (hvalue : scalarValue b cs < 128) : cs = [] := by
  rcases cs with _ | ⟨d, ds⟩
  · rfl
  · exfalso
    have hsecond := continuation_head hcs
    simp only [secondByteOk, utf8CharWidth, List.length_cons, UInt8.le_iff_toNat_le,
      UInt8.lt_iff_toNat_lt, UInt8.reduceToNat, ← UInt8.toNat_inj] at hsecond hwidth
    have hb := b.toNat_lt
    have hd := d.toNat_lt
    rcases ds with _ | ⟨e, _ | ⟨f, _ | ⟨g, gs⟩⟩⟩
    · simp only [scalarValue, List.length_cons, List.length_nil, List.foldl_cons,
        List.foldl_nil] at hvalue hwidth
      split_ifs at hwidth <;> omega
    · simp only [scalarValue, List.length_cons, List.length_nil, List.foldl_cons,
        List.foldl_nil] at hvalue hwidth
      split_ifs at hwidth hsecond <;> simp only [decide_eq_true_eq] at hsecond <;> omega
    · simp only [scalarValue, List.length_cons, List.length_nil, List.foldl_cons,
        List.foldl_nil] at hvalue hwidth
      split_ifs at hwidth hsecond <;> simp only [decide_eq_true_eq] at hsecond <;> omega
    · simp only [List.length_cons] at hwidth
      split_ifs at hwidth <;> omega

theorem toNat_of_ofNat {n : ℕ} (h : Char.ofNat n = c) (hc : c ≠ Char.ofNat 0) : n = c.toNat := by
  subst h
  by_cases hn : n.isValidChar
  · rw [Char.ofNat, dif_pos hn]
    rfl
  · exfalso
    apply hc
    rw [Char.ofNat, dif_neg hn]
    rfl

/-- **An ASCII character comes from its own byte.** -/
theorem utf8Step_eq_ascii (hstep : (utf8Step b rest).1 = some c) (hc : c.toNat < 128)
    (hzero : c ≠ Char.ofNat 0) : b.toNat = c.toNat ∧ (utf8Step b rest).2 = 1 := by
  rw [utf8Step_size]
  simp only [utf8Step] at hstep
  split at hstep
  · next hwidth =>
    have hvalue := toNat_of_ofNat (Option.some.inj hstep) hzero
    have hnil := scalarValue_ascii rfl hwidth (by omega)
    rw [hnil] at hvalue ⊢
    exact ⟨hvalue, rfl⟩
  · cases hstep

/-! ## Lines of decoded bytes -/

theorem not_mem_fromUtf8Lossy (hc : c.toNat < 128) (hzero : c ≠ Char.ofNat 0)
    (hx : ∀ y ∈ bs, y.toNat ≠ c.toNat) : c ∉ fromUtf8Lossy bs := by
  induction hn : bs.length using Nat.strong_induction_on generalizing bs with
  | _ n ih =>
    cases bs with
    | nil => exact List.not_mem_nil
    | cons b rest =>
      rw [fromUtf8Lossy_cons, List.mem_cons, not_or]
      constructor
      · intro heq
        cases hstep : (utf8Step b rest).1 with
        | none =>
          rw [hstep] at heq
          subst heq
          exact absurd hc (by decide)
        | some d =>
          rw [hstep] at heq
          change c = d at heq
          subst heq
          exact hx b List.mem_cons_self (utf8Step_eq_ascii hstep hc hzero).1
      · have hsize := utf8Step_size b rest
        refine ih _ ?_ ?_ rfl
        · subst hn
          rw [List.length_drop, List.length_cons]
          omega
        · intro y hy
          exact hx y (List.mem_of_mem_drop hy)

theorem not_mem_lineFeed (hr : 10 ∉ r) : '\n' ∉ fromUtf8Lossy r :=
  not_mem_fromUtf8Lossy (by decide) (by decide) fun y hy heq =>
    hr ((UInt8.toNat_inj (b := 10)).1 heq ▸ hy)

/-- The last character is an ASCII one only if the last byte is. -/
theorem getLast_fromUtf8Lossy (hc : c.toNat < 128) (hzero : c ≠ Char.ofNat 0)
    (h : (fromUtf8Lossy bs).getLast? = some c) : ∃ y, bs.getLast? = some y ∧ y.toNat = c.toNat := by
  induction hn : bs.length using Nat.strong_induction_on generalizing bs with
  | _ n ih =>
    cases bs with
    | nil => cases h
    | cons b rest =>
      have hsize := utf8Step_size b rest
      rw [fromUtf8Lossy_cons] at h
      by_cases hend : (b :: rest).drop (utf8Step b rest).2 = []
      · rw [hend] at h
        cases hstep : (utf8Step b rest).1 with
        | none =>
          rw [hstep] at h
          cases h
          exact absurd hc (by decide)
        | some d =>
          rw [hstep] at h
          cases h
          obtain ⟨hb, hone⟩ := utf8Step_eq_ascii hstep hc hzero
          rw [hone] at hend
          cases hend
          exact ⟨b, rfl, hb⟩
      · have hne : fromUtf8Lossy ((b :: rest).drop (utf8Step b rest).2) ≠ [] := by
          cases hdrop : (b :: rest).drop (utf8Step b rest).2 with
          | nil => exact absurd hdrop hend
          | cons y ys =>
            rw [fromUtf8Lossy_cons]
            exact List.cons_ne_nil _ _
        rw [List.getLast?_cons_of_ne_nil hne] at h
        obtain ⟨y, hy, hyc⟩ := ih _ (by subst hn; rw [List.length_drop, List.length_cons]; omega) h rfl
        refine ⟨y, ?_, hyc⟩
        rw [← hy, List.getLast?_drop, if_neg fun hle => hend (List.drop_eq_nil_iff.2 hle)]

/-- One trailing carriage return removed. -/
def stripCrByte (line : Bytes) : Bytes :=
  if line.getLast? = some 13 then line.dropLast else line

/-- What a glob is tested on for a line: one trailing `\r` removed, decoded. -/
def lineContent (line : Bytes) : Text := fromUtf8Lossy (stripCrByte line)

theorem stripCr_fromUtf8Lossy (line : Bytes) :
    Matcher.stripCr (fromUtf8Lossy line) = lineContent line := by
  by_cases hcr : line.getLast? = some 13
  · obtain ⟨line, rfl⟩ := List.getLast?_eq_some_iff.1 hcr
    rw [fromUtf8Lossy_append_ascii (by decide), lineContent, stripCrByte, if_pos hcr,
      List.dropLast_concat]
    show Matcher.stripCr (fromUtf8Lossy line ++ ['\r']) = _
    rw [Matcher.stripCr, if_pos List.getLast?_concat, List.dropLast_concat]
  · rw [lineContent, stripCrByte, if_neg hcr, Matcher.stripCr, if_neg]
    intro hlast
    obtain ⟨y, hy, hyc⟩ := getLast_fromUtf8Lossy (by decide) (by decide) hlast
    rw [hy] at hcr
    exact hcr (congrArg some (UInt8.toNat_inj.1 hyc))

/-! ## Lines by their positions -/

/-- A line of `stream` starts at `i`. -/
def LineStart (stream : Bytes) (i : ℕ) : Prop :=
  i ≤ stream.length ∧ (i = 0 ∨ stream[i - 1]? = some 10)

/-- The bytes from `i` on up to the next line feed. -/
def lineAt (stream : Bytes) (i : ℕ) : Bytes := (stream.drop i).takeWhile (· ≠ 10)

/-- The first line from `base` on that `pat` matches starts at `i`. -/
structure FirstLine (pat : Text → Bool) (stream : Bytes) (base i : ℕ) : Prop where
  le : base ≤ i
  start : LineStart stream i
  fits : pat (lineContent (lineAt stream i)) = true
  first : ∀ j, base ≤ j → j < i → LineStart stream j →
    pat (lineContent (lineAt stream j)) = false

variable {pat : Text → Bool} {stream line : Bytes} {base p i j : ℕ}

theorem FirstLine.unique (hi : FirstLine pat stream base i) (hj : FirstLine pat stream base j) :
    i = j := by
  rcases Nat.lt_trichotomy i j with hlt | rfl | hlt
  · have := hj.first i hi.le hlt hi.start
    rw [hi.fits] at this
    cases this
  · rfl
  · have := hi.first j hj.le hlt hj.start
    rw [hj.fits] at this
    cases this

theorem FirstLine.exists_iff : (∃ i, FirstLine pat stream base i) ↔
    ∃ i, base ≤ i ∧ LineStart stream i ∧ pat (lineContent (lineAt stream i)) = true := by
  constructor
  · rintro ⟨i, h⟩
    exact ⟨i, h.le, h.start, h.fits⟩
  · intro h
    classical
    obtain ⟨hle, hstart, hfits⟩ := Nat.find_spec h
    refine ⟨Nat.find h, hle, hstart, hfits, fun j hj hlt hstart' => ?_⟩
    exact Bool.eq_false_iff.2 fun hfits' => Nat.find_min h hlt ⟨hj, hstart', hfits'⟩

theorem FirstLine.skip (hle : base ≤ p) (hno : ∀ j, base ≤ j → j < p → ¬ LineStart stream j) :
    FirstLine pat stream base i ↔ FirstLine pat stream p i := by
  constructor
  · intro h
    have hp : p ≤ i := by
      by_contra hlt
      exact hno i h.le (by omega) h.start
    exact ⟨hp, h.start, h.fits, fun j hj => h.first j (by omega)⟩
  · intro h
    refine ⟨by have := h.le; omega, h.start, h.fits, fun j hj hlt hstart => ?_⟩
    by_cases hp : p ≤ j
    · exact h.first j hp hlt hstart
    · exact absurd hstart (hno j hj (by omega))

theorem lineStart_inside (hdrop : r <+: stream.drop p) (hr : 10 ∉ r) (hlt : p < j)
    (hle : j ≤ p + r.length) : ¬ LineStart stream j := by
  rintro ⟨-, hzero | hbyte⟩
  · omega
  · obtain ⟨t, ht⟩ := hdrop
    have hget : stream[j - 1]? = r[j - 1 - p]? := by
      have h : (stream.drop p)[j - 1 - p]? = stream[p + (j - 1 - p)]? := List.getElem?_drop
      rw [← ht, List.getElem?_append_left (by omega)] at h
      rw [h]
      congr 1
      omega
    rw [hget] at hbyte
    exact hr (List.mem_of_getElem? hbyte)

theorem lineAt_end (hdrop : stream.drop p = r) (hr : 10 ∉ r) : lineAt stream p = r := by
  have hall : ∀ y ∈ r, decide (y ≠ 10) = true := fun y hy => decide_eq_true fun heq => hr (heq ▸ hy)
  have h : (r ++ []).takeWhile (· ≠ 10) = r ++ [].takeWhile (· ≠ 10) :=
    List.takeWhile_append_of_pos hall
  rw [lineAt, hdrop]
  simpa using h

theorem lineAt_feed (hdrop : stream.drop p = r ++ 10 :: t) (hr : 10 ∉ r) :
    lineAt stream p = r := by
  rw [lineAt, hdrop, List.takeWhile_append_of_pos]
  · simp
  · intro y hy
    exact decide_eq_true fun heq => hr (heq ▸ hy)

theorem lineStart_next (hdrop : stream.drop p = r ++ 10 :: t) :
    LineStart stream (p + r.length + 1) ∧ stream.drop (p + r.length + 1) = t := by
  have hlen := congrArg List.length hdrop
  simp only [List.length_drop, List.length_append, List.length_cons] at hlen
  refine ⟨⟨by omega, .inr ?_⟩, ?_⟩
  · have h : (stream.drop p)[r.length]? = stream[p + r.length]? := List.getElem?_drop
    rw [hdrop, List.getElem?_append_right (Nat.le_refl _), Nat.sub_self] at h
    exact h.symm
  · rw [Nat.add_assoc, ← List.drop_drop, hdrop, ← List.drop_drop, List.drop_left]
    rfl

/-- What lies between `p` and a later position begins with the line at `p`. -/
theorem drop_take_next (hdrop : stream.drop p = r ++ 10 :: t) (hi : p + r.length + 1 ≤ i) :
    (stream.take i).drop p = r ++ 10 :: (stream.take i).drop (p + r.length + 1) := by
  obtain ⟨-, hrest⟩ := lineStart_next hdrop
  rw [List.drop_take, List.drop_take, hrest, hdrop,
    show i - p = r.length + ((i - (p + r.length + 1)) + 1) by omega, List.take_length_add_append,
    List.take_succ_cons]

theorem splitOn_fromUtf8Lossy (hr : 10 ∉ r) (t : Bytes) :
    (fromUtf8Lossy (r ++ 10 :: t)).splitOn '\n' =
      fromUtf8Lossy r :: (fromUtf8Lossy t).splitOn '\n' := by
  have hno := not_mem_lineFeed hr
  rw [fromUtf8Lossy_append_ascii (by decide)]
  show (fromUtf8Lossy r ++ '\n' :: fromUtf8Lossy t).splitOn '\n' = _
  rw [List.splitOn_append_cons_self, List.splitOn_eq_singleton hno]
  rfl

theorem asBytes_line_length (r t : Bytes) : (asBytes (fromUtf8Lossy (r ++ 10 :: t))).length =
    (asBytes (fromUtf8Lossy r)).length + 1 + (asBytes (fromUtf8Lossy t)).length := by
  rw [fromUtf8Lossy_append_ascii (by decide), asBytes, List.flatMap_append, List.length_append]
  show _ + (asBytes ('\n' :: fromUtf8Lossy t)).length = _
  rw [asBytes_cons_length, ← Nat.add_assoc]
  rfl

theorem FirstLine.here (hstart : LineStart stream p) (hfits : pat (lineContent (lineAt stream p)) = true) :
    FirstLine pat stream p i ↔ i = p := by
  have hfirst : FirstLine pat stream p p := ⟨Nat.le_refl _, hstart, hfits, by intros; omega⟩
  constructor
  · intro hi
    exact hi.unique hfirst
  · rintro rfl
    exact hfirst

/-- A line that does not match is passed over with its line feed. -/
theorem FirstLine.next (hdrop : stream.drop p = r ++ 10 :: t) (hr : 10 ∉ r)
    (hno : pat (lineContent (lineAt stream p)) = false) :
    FirstLine pat stream p i ↔ FirstLine pat stream (p + r.length + 1) i := by
  have hinside : ∀ j, p < j → j < p + r.length + 1 → ¬ LineStart stream j := fun j hj hlt =>
    lineStart_inside ⟨10 :: t, hdrop.symm⟩ hr hj (by omega)
  constructor
  · intro h
    refine ⟨?_, h.start, h.fits, fun j hj => h.first j (by omega)⟩
    rcases Nat.eq_or_lt_of_le h.le with rfl | hlt
    · rw [h.fits] at hno
      cases hno
    · by_contra hle
      exact hinside i hlt (by omega) h.start
  · intro h
    refine ⟨by have := h.le; omega, h.start, h.fits, fun j hj hlt hstart => ?_⟩
    by_cases hnext : p + r.length + 1 ≤ j
    · exact h.first j hnext hlt hstart
    · rcases Nat.eq_or_lt_of_le hj with rfl | hj
      · exact hno
      · exact absurd hstart (hinside j hj (by omega))

theorem FirstLine.none (hdrop : 10 ∉ stream.drop p)
    (hno : pat (lineContent (lineAt stream p)) = false) : ¬ FirstLine pat stream p i := by
  intro h
  rcases Nat.eq_or_lt_of_le h.le with rfl | hlt
  · rw [h.fits] at hno
    cases hno
  · have hle := h.start.1
    refine lineStart_inside (List.prefix_refl _) hdrop hlt ?_ h.start
    rw [List.length_drop]
    omega

/-- **The scan of `check`**, from a line start on: it finds the first line that
    the glob matches, at the place that the decoded lines before it take. -/
theorem globLines_scan {off k : ℕ} (hstart : LineStart stream p) :
    Matcher.globLines pat false off ((fromUtf8Lossy (stream.drop p)).splitOn '\n') = some k ↔
      ∃ i, FirstLine pat stream p i ∧
        k = off + (asBytes (fromUtf8Lossy ((stream.take i).drop p))).length := by
  induction hn : stream.length - p using Nat.strong_induction_on generalizing p off with
  | _ n ih =>
    have hempty : (stream.take p).drop p = [] := by
      rw [List.drop_take, Nat.sub_self, List.take_zero]
    have hhere : (∃ i, i = p ∧ k = off + (asBytes (fromUtf8Lossy ((stream.take i).drop p))).length) ↔
        off = k := by
      constructor
      · rintro ⟨i, rfl, rfl⟩
        rw [hempty]
        rfl
      · rintro rfl
        refine ⟨p, rfl, ?_⟩
        rw [hempty]
        rfl
    by_cases hfeed : 10 ∈ stream.drop p
    · obtain ⟨r, t, hdrop, hr⟩ := List.eq_append_cons_of_mem hfeed
      obtain ⟨hnext, hrest⟩ := lineStart_next hdrop
      have hcontent : Matcher.stripCr (fromUtf8Lossy r) = lineContent (lineAt stream p) := by
        rw [stripCr_fromUtf8Lossy, lineAt_feed hdrop hr]
      rw [hdrop, splitOn_fromUtf8Lossy hr, Matcher.globLines, hcontent]
      cases hfits : pat (lineContent (lineAt stream p)) with
      | true =>
        simp only [FirstLine.here hstart hfits, hhere]
        simp
      | false =>
        have hlen := congrArg List.length hdrop
        simp only [List.length_drop, List.length_append, List.length_cons] at hlen
        simp only [FirstLine.next hdrop hr hfits]
        rw [if_neg (by simp), ← hrest, ih _ (by omega) hnext rfl]
        refine exists_congr fun i => and_congr_right fun hi => ?_
        rw [drop_take_next hdrop hi.le, asBytes_line_length]
        omega
    · have hno := not_mem_lineFeed hfeed
      have hcontent : Matcher.stripCr (fromUtf8Lossy (stream.drop p)) =
          lineContent (lineAt stream p) := by
        rw [stripCr_fromUtf8Lossy, lineAt_end rfl hfeed]
      rw [List.splitOn_eq_singleton hno, Matcher.globLines, hcontent]
      cases hfits : pat (lineContent (lineAt stream p)) with
      | true =>
        simp only [FirstLine.here hstart hfits, hhere]
        simp
      | false => simp [FirstLine.none hfeed hfits, Matcher.globLines]

/-! ## The scan of a window -/

namespace Matcher

variable {m : Matcher} {chunk : Bytes} {cap : ℕ}

theorem check_found {k : ℕ} : m.check = .found k ↔ ∃ d, m.search = some d ∧ k = m.base + d := by
  simp only [check]
  cases m.search with
  | none => simp
  | some d => simp [eq_comm]

/-- The window of a glob matcher, with its mark right: the first line is
    partial just when the window starts inside a line. -/
structure Marked (pat : Text → Bool) (m : Matcher) (stream : Bytes) : Prop extends Tail m stream where
  pattern_eq : m.pattern = .glob pat
  partial_iff : m.firstLinePartial = true ↔ ¬ LineStart stream m.base

theorem marked_new (pat : Text → Bool) (context : Option ℕ) :
    Marked pat (new (.glob pat) context) [] where
  toTail := tail_new _ _
  pattern_eq := rfl
  partial_iff := by simp [new, LineStart]

/-- More bytes do not make a line start of a position that was none. -/
theorem lineStart_append (hle : p ≤ stream.length) (chunk : Bytes) :
    LineStart (stream ++ chunk) p ↔ LineStart stream p := by
  have hlen : (stream ++ chunk).length = stream.length + chunk.length := List.length_append
  simp only [LineStart, hlen]
  by_cases hzero : p = 0
  · simp [hzero]
  · rw [List.getElem?_append_left (by omega)]
    simp only [hzero, false_or]
    constructor
    · rintro ⟨-, hbyte⟩
      exact ⟨hle, hbyte⟩
    · rintro ⟨-, hbyte⟩
      exact ⟨by omega, hbyte⟩

theorem Marked.appended (h : Marked pat m stream) (chunk : Bytes) :
    Marked pat (m.appended chunk) (stream ++ chunk) where
  toTail := h.toTail.appended chunk
  pattern_eq := h.pattern_eq
  partial_iff := by
    show m.firstLinePartial = true ↔ ¬ LineStart (stream ++ chunk) m.base
    rw [lineStart_append h.base_le, h.partial_iff]

theorem Marked.retain (h : Marked pat m stream) (cap : ℕ) : Marked pat (m.retain cap) stream where
  toTail := h.toTail.retain cap
  pattern_eq := (m.retain_request cap).1.trans h.pattern_eq
  partial_iff := by
    rcases m.retain_cases cap with ⟨-, hretain⟩ | ⟨k, hpos, hlen, hretain⟩
    · rw [hretain]
      exact h.partial_iff
    · have hdrop : m.base + k ≤ stream.length := by
        have hle := h.base_le
        rw [h.window_eq, List.length_drop] at hlen
        omega
      -- the mark of the cut line is the byte before the cut
      have hbyte : m.window[k - 1]? = stream[m.base + k - 1]? := by
        rw [h.window_eq, List.getElem?_drop, ← Nat.add_sub_assoc hpos]
      rw [hretain]
      simp only [h.pattern_eq, decide_eq_true_eq, LineStart, hbyte]
      constructor
      · rintro hne ⟨-, hzero | heq⟩
        · omega
        · exact hne heq
      · intro hno heq
        exact hno ⟨hdrop, .inr heq⟩

theorem Marked.pushBounded (h : Marked pat m stream) (chunk : Bytes) (cap : ℕ) :
    Marked pat (m.pushBounded chunk cap).2 (stream ++ chunk) := by
  obtain ⟨ctx, hpush⟩ := m.pushBounded_keeps chunk cap
  have hgrown : Marked pat { m with lastMatchContext := ctx, window := m.window ++ chunk }
      (stream ++ chunk) := by
    obtain ⟨⟨hbase, hwindow⟩, hpattern, hpartial⟩ := h.appended chunk
    exact ⟨⟨hbase, hwindow⟩, hpattern, hpartial⟩
  rw [hpush]
  exact hgrown.retain cap

theorem Marked.feed (h : Marked pat m stream) (calls : List (Bytes × ℕ)) :
    Marked pat (m.feed calls) (stream ++ fed calls) :=
  feed_keeps (fun _ _ chunk cap h => h.pushBounded chunk cap) h calls

/-- **What a glob matcher finds**: the first whole line in the window that the
    glob matches, at the place that the decoded bytes before it take. -/
theorem Marked.search (h : Marked pat m stream) {k : ℕ} :
    m.search = some k ↔ ∃ i, FirstLine pat stream m.base i ∧
      k = (asBytes (fromUtf8Lossy ((stream.take i).drop m.base))).length := by
  simp only [Matcher.search, h.pattern_eq, h.window_eq]
  cases hpartial : m.firstLinePartial with
  | false =>
    have hstart : LineStart stream m.base := by
      by_contra hno
      rw [h.partial_iff.2 hno] at hpartial
      cases hpartial
    rw [globLines_scan hstart]
    simp only [Nat.zero_add]
  | true =>
    have hinside := h.partial_iff.1 hpartial
    by_cases hfeed : 10 ∈ stream.drop m.base
    · obtain ⟨r, t, hdrop, hr⟩ := List.eq_append_cons_of_mem hfeed
      obtain ⟨hnext, hrest⟩ := lineStart_next hdrop
      rw [hdrop, splitOn_fromUtf8Lossy hr, globLines, ← hrest, if_neg (by simp), globLines_scan hnext]
      have hskip : ∀ j, m.base ≤ j → j < m.base + r.length + 1 → ¬ LineStart stream j := by
        intro j hj hlt
        rcases Nat.eq_or_lt_of_le hj with rfl | hj
        · exact hinside
        · exact lineStart_inside ⟨10 :: t, hdrop.symm⟩ hr hj (by omega)
      simp only [FirstLine.skip (by omega : m.base ≤ m.base + r.length + 1) hskip]
      refine exists_congr fun i => and_congr_right fun hi => ?_
      rw [drop_take_next hdrop hi.le, asBytes_line_length]
      omega
    · have hno := not_mem_lineFeed hfeed
      rw [List.splitOn_eq_singleton hno]
      constructor
      · intro h
        cases h
      · rintro ⟨i, hi, -⟩
        rcases Nat.eq_or_lt_of_le hi.le with rfl | hlt
        · exact absurd hi.start hinside
        · refine absurd hi.start (lineStart_inside (List.prefix_refl _) hfeed hlt ?_)
          have := hi.start.1
          rw [List.length_drop]
          omega

/-! ## Over a whole stream -/

/-- A line by its position is one of the lines that `split` gives. -/
theorem lineAt_mem (h : LineStart stream i) : lineAt stream i ∈ stream.splitOn 10 := by
  have hhead : ∀ bs : Bytes, bs.takeWhile (· ≠ 10) ∈ bs.splitOn 10 := by
    intro bs
    by_cases hfeed : 10 ∈ bs
    · obtain ⟨r, t, rfl, hr⟩ := List.eq_append_cons_of_mem hfeed
      have hline : lineAt (r ++ 10 :: t) 0 = r := lineAt_feed rfl hr
      rw [List.splitOn_append_cons_self_of_not_mem hr]
      exact List.mem_cons.2 (.inl hline)
    · have hline : lineAt bs 0 = bs := lineAt_end rfl hfeed
      rw [List.splitOn_eq_singleton hfeed]
      exact List.mem_singleton.2 hline
  obtain ⟨-, rfl | hbyte⟩ := h
  · exact hhead stream
  · cases i with
    | zero => exact hhead stream
    | succ j =>
      obtain ⟨hlt, hfeed⟩ := List.getElem?_eq_some_iff.1 hbyte
      have hsplit : stream = stream.take j ++ 10 :: stream.drop (j + 1) := by
        rw [← hfeed]
        exact (List.take_append_drop j stream).symm.trans
          (congrArg (stream.take j ++ ·) (List.drop_eq_getElem_cons hlt))
      rw [lineAt]
      generalize stream.drop (j + 1) = bs at hsplit
      rw [hsplit, List.splitOn_append_cons_self]
      exact List.mem_append_right _ (hhead bs)

/-- **A glob finds whole lines only.**  Whatever was fed and cut, the answer is
    `Found` just when a line of the stream matches that starts in the window;
    so a match is a match of a line of the stream. -/
theorem glob_pushBounded (pat : Text → Bool) (context : Option ℕ) (calls : List (Bytes × ℕ))
    (chunk : Bytes) (cap : ℕ) :
    let before := (new (.glob pat) context).feed calls
    let stream := fed calls ++ chunk
    ((∃ k, (before.pushBounded chunk cap).1 = .found k) ↔
      ∃ i, before.base ≤ i ∧ LineStart stream i ∧ pat (lineContent (lineAt stream i)) = true) ∧
    ((∃ k, (before.pushBounded chunk cap).1 = .found k) →
      ∃ line ∈ stream.splitOn 10, pat (lineContent line) = true) := by
  intro before stream
  have h : Marked pat (before.appended chunk) stream :=
    ((marked_new pat context).feed calls).appended chunk
  have hiff : (∃ k, (before.pushBounded chunk cap).1 = .found k) ↔
      ∃ i, before.base ≤ i ∧ LineStart stream i ∧ pat (lineContent (lineAt stream i)) = true := by
    rw [← FirstLine.exists_iff]
    simp only [pushBounded_answer, check_found, h.search]
    constructor
    · rintro ⟨_, _, ⟨i, hi, -⟩, -⟩
      exact ⟨i, hi⟩
    · rintro ⟨i, hi⟩
      exact ⟨_, _, ⟨i, hi, rfl⟩, rfl⟩
  refine ⟨hiff, ?_⟩
  intro hfound
  obtain ⟨i, -, hstart, hfits⟩ := hiff.1 hfound
  exact ⟨_, lineAt_mem hstart, hfits⟩

/-- A match starts in the stream, for a regex and for a literal. -/
theorem Tail.search_le (h : Tail m stream) (hglob : ∀ pat, m.pattern ≠ .glob pat) {d : ℕ}
    (hd : m.search = some d) : m.base + d ≤ stream.length := by
  have hlen : m.window.length = stream.length - m.base := by rw [h.window_eq, List.length_drop]
  have hle := h.base_le
  simp only [Matcher.search] at hd
  split at hd
  · next needle _ =>
    have := findSubsequence_le needle.2 hd
    omega
  · next re _ =>
    obtain ⟨p, hp, rfl⟩ := Option.map_eq_some_iff.1 hd
    have := re.find_le _ _ hp
    omega
  · next pat hpat => exact absurd hpat (hglob pat)

/-- **When a match index is an offset in the stream**: it always is for a
    regex.  A glob counts what the lines in front decode to, so the index is
    the start of the matching line just when these bytes decode to as many. -/
theorem found_offset_iff (m : Matcher) (calls : List (Bytes × ℕ)) (chunk : Bytes) (cap : ℕ) {k : ℕ}
    (hfound : ((m.resetWindow.feed calls).pushBounded chunk cap).1 = .found k) :
    let base := (m.resetWindow.feed calls).base
    let stream := fed calls ++ chunk
    (k ≤ stream.length ∧ ∀ pat, m.pattern = .glob pat →
      (k = 0 ∨ stream[k - 1]? = some 10) ∧ FirstLine pat stream base k) ↔
    ∀ pat i, m.pattern = .glob pat → FirstLine pat stream base i →
      (asBytes (fromUtf8Lossy ((stream.take i).drop base))).length = i - base := by
  intro base stream
  have hnew : m.resetWindow = new m.pattern m.contextAmount := rfl
  rw [pushBounded_answer, check_found] at hfound
  obtain ⟨d, hd, hk⟩ := hfound
  change k = base + d at hk
  by_cases hglob : ∃ pat, m.pattern = .glob pat
  · obtain ⟨pat, hpat⟩ := hglob
    have h : Marked pat ((m.resetWindow.feed calls).appended chunk) stream := by
      rw [hnew, hpat]
      exact ((marked_new pat _).feed calls).appended chunk
    obtain ⟨i, hi, hdi⟩ := h.search.1 hd
    change FirstLine pat stream base i at hi
    change d = (asBytes (fromUtf8Lossy ((stream.take i).drop base))).length at hdi
    have hle := hi.le
    constructor
    · rintro ⟨-, hline⟩ pat' j hpat' hj
      obtain ⟨-, hk'⟩ := hline pat' hpat'
      cases hpat.symm.trans hpat'
      have hki := hk'.unique hi
      rw [hj.unique hi]
      omega
    · intro hcond
      have hki : k = i := by
        have := hcond pat i hpat hi
        omega
      rw [hki]
      refine ⟨hi.start.1, fun pat' hpat' => ?_⟩
      cases hpat.symm.trans hpat'
      exact ⟨hi.start.2, hi⟩
  · have htail : Tail ((m.resetWindow.feed calls).appended chunk) stream := by
      rw [hnew]
      exact ((tail_new _ _).feed calls).appended chunk
    have hno : ∀ pat, m.pattern ≠ .glob pat := fun pat hpat => hglob ⟨pat, hpat⟩
    have hpattern : ((m.resetWindow.feed calls).appended chunk).pattern = m.pattern :=
      (feed_request m.resetWindow calls).1
    have hle := htail.search_le (by rw [hpattern]; exact hno) hd
    change base + d ≤ stream.length at hle
    constructor
    · intro _ pat i hpat
      exact absurd hpat (hno pat)
    · intro _
      exact ⟨by omega, fun pat hpat => absurd hpat (hno pat)⟩

/-- The line `a` comes after a line of one invalid byte, which decodes to three. -/
theorem found_past_stream :
    let m := new (.glob fun line => line == ['a']) none
    (m.pushBounded [0xFF, 10, 97] 16).1 = .found 4 ∧ ¬ 4 ≤ ([0xFF, 10, 97] : Bytes).length := by
  decide

/-- The line `a` comes after a line of one byte that decodes to one. -/
theorem found_offset_second_line :
    let m := new (.glob fun line => line == ['a']) none
    let chunk : Bytes := [98, 10, 97]
    ((m.resetWindow.feed []).pushBounded chunk 16).1 = .found 2 ∧
    (2 ≤ (fed [] ++ chunk).length ∧ ∀ pat, m.pattern = .glob pat →
      (2 = 0 ∨ (fed [] ++ chunk)[2 - 1]? = some 10) ∧
        FirstLine pat (fed [] ++ chunk) (m.resetWindow.feed []).base 2) := by
  intro m chunk
  have hfound : ((m.resetWindow.feed []).pushBounded chunk 16).1 = .found 2 := by decide
  refine ⟨hfound, (found_offset_iff m [] chunk 16 hfound).2 ?_⟩
  intro pat i _ hi
  have hle : i ≤ 3 := hi.start.1
  show (asBytes (fromUtf8Lossy ((chunk.take i).drop 0))).length = i - 0
  rcases (by omega : i = 0 ∨ i = 1 ∨ i = 2 ∨ i = 3) with rfl | rfl | rfl | rfl <;> decide

end Matcher

end SerialMcp
