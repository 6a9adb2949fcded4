/-
  Chunk invariance of the frame decoder.

  Serial data arrives in chunks whose boundaries mean nothing: they cut
  delimiters, markers, length prefixes, escapes and code blocks anywhere.

  * `Splits`: one extraction decides nothing that bytes still to come could
    change.  It holds in every mode with one kind of boundary (`SingleBoundary`:
    all but `auto` line endings and several start markers);
  * `extractor_lawful`: modes that split make `FrameDecoder` a lawful
    incremental decoder;
  * `total_congr_of_new`: hence two ways of cutting the same bytes give the
    same frames, drops, errors and final decoder.
-/
import SerialMcp.Framing.Decoder

namespace SerialMcp

open Incremental

/-- One extraction from `buf` is the same with `t` behind it, and an extraction
    that waits leaves a state in which waiting cost nothing. -/
structure Splits (inc : Bool) (mode : DecoderMode) (buf t : Bytes) : Prop where
  event : ∀ {frame mode₁ rest}, extract inc mode buf = (some frame, mode₁, rest) →
    extract inc mode (buf ++ t) = (some frame, mode₁, rest ++ t)
  wait : ∀ {mode₁ rest}, extract inc mode buf = (none, mode₁, rest) →
    extract inc mode (buf ++ t) = extract inc mode₁ (rest ++ t)

/-! ## Lines and delimiters -/

section
variable {inc : Bool} {delim buf rest frame t : Bytes}

theorem takeFrame_append {pos len : ℕ} (h : pos + len ≤ buf.length) :
    takeFrame inc (buf ++ t) pos len =
      ((takeFrame inc buf pos len).1, (takeFrame inc buf pos len).2 ++ t) := by
  have hle : (if inc then pos + len else pos) ≤ buf.length := by split <;> omega
  simp only [takeFrame, List.take_append_of_le_length hle, List.drop_append_of_le_length h]

theorem takeFrame_length (inc : Bool) {pos len : ℕ} (h : pos + len ≤ buf.length) :
    (takeFrame inc buf pos len).2.length + (pos + len) = buf.length := by
  simp only [takeFrame, List.length_drop]
  omega

theorem extractDelimited_event (hne : delim ≠ [])
    (h : extractDelimited inc delim buf = (some frame, rest)) :
    extractDelimited inc delim (buf ++ t) = (some frame, rest ++ t) := by
  simp only [extractDelimited] at h ⊢
  rcases hp : findSubsequence buf delim with _ | pos
  · rw [hp] at h
    cases h
  · rw [hp] at h
    rw [findSubsequence_append hne hp]
    simp only [takeFrame_append (findSubsequence_le hne hp)]
    cases h
    rfl

theorem extractDelimited_wait (h : extractDelimited inc delim buf = (none, rest)) :
    rest = buf := by
  simp only [extractDelimited] at h
  split at h
  · cases h
    rfl
  · cases h

theorem extractDelimited_shortens (hne : delim ≠ [])
    (h : (extractDelimited inc delim buf).1 = some frame) :
    (extractDelimited inc delim buf).2.length < buf.length := by
  simp only [extractDelimited] at h ⊢
  rcases hp : findSubsequence buf delim with _ | pos
  · rw [hp] at h
    cases h
  · have hlen := takeFrame_length inc (findSubsequence_le hne hp)
    have hpos := List.length_pos_iff.mpr hne
    simp only
    omega

theorem matchLineByte_eq (b : UInt8) : matchLineByte inc b buf = extractDelimited inc [b] buf := by
  simp only [matchLineByte, extractDelimited, position_eq_findSubsequence, List.length_singleton]

end

/-- A line state with one terminator. -/
def LineState.Fixed : LineState → Prop
  | .autoLf | .pendingCr _ => False
  | _ => True

/-- The terminator of a fixed line state. -/
def LineState.terminator : LineState → Bytes
  | .lf => [10]
  | .crlf => [13, 10]
  | _ => [13]

theorem LineState.terminator_ne_nil (s : LineState) : s.terminator ≠ [] := by
  cases s <;> simp [terminator]

theorem extractLine_fixed {s : LineState} (hs : s.Fixed) (inc : Bool) (buf : Bytes) :
    extractLine inc s buf = ((extractDelimited inc s.terminator buf).1, s,
      (extractDelimited inc s.terminator buf).2) := by
  cases s with
  | lf => simp only [extractLine, matchLineByte_eq, LineState.terminator]
  | cr => simp only [extractLine, matchLineByte_eq, LineState.terminator]
  | crlf => simp only [extractLine, matchLineCrlf, LineState.terminator]
  | crMode => simp only [extractLine, matchLineByte_eq, LineState.terminator]
  | autoLf => cases hs
  | pendingCr p => cases hs

/-- Every mode that cuts at one non-empty delimiter splits. -/
theorem splits_of_delimited {inc : Bool} {mode : DecoderMode} {delim : Bytes} (hne : delim ≠ [])
    (hx : ∀ buf, extract inc mode buf =
      ((extractDelimited inc delim buf).1, mode, (extractDelimited inc delim buf).2))
    (buf t : Bytes) : Splits inc mode buf t where
  event {frame mode₁ rest} h := by
    rcases hd : extractDelimited inc delim buf with ⟨_ | f, r⟩
    · rw [hx, hd] at h
      cases h
    · rw [hx, hd] at h
      cases h
      rw [hx, extractDelimited_event hne hd]
  wait {mode₁ rest} h := by
    rcases hd : extractDelimited inc delim buf with ⟨_ | f, r⟩
    · rw [hx, hd] at h
      cases h
      rw [extractDelimited_wait hd]
    · rw [hx, hd] at h
      cases h

/-- A mode that never extracts splits. -/
theorem splits_of_not_extracting {inc : Bool} {mode : DecoderMode}
    (hx : ∀ buf, extract inc mode buf = (none, mode, buf)) (buf t : Bytes) :
    Splits inc mode buf t where
  event h := by
    rw [hx] at h
    cases h
  wait h := by
    rw [hx] at h
    cases h
    rfl

/-! ## Length prefixes -/

section
variable {inc : Bool} {n : ℕ} {e : Endianness} {next next₁ : Option ℕ} {buf rest frame t : Bytes}

theorem payloadLen_append {len : ℕ} (h : payloadLen n e next buf = some len) :
    payloadLen n e next (buf ++ t) = some len := by
  rcases next with _ | len'
  · simp only [payloadLen] at h ⊢
    split at h
    · cases h
    · next hn =>
      rw [if_neg (by rw [List.length_append]; omega), List.take_append_of_le_length (by omega), h]
  · exact h

theorem takePrefixed_event (h : takePrefixed inc n e next buf = (some frame, next₁, rest)) :
    takePrefixed inc n e next (buf ++ t) = (some frame, next₁, rest ++ t) := by
  simp only [takePrefixed] at h ⊢
  rcases hlen : payloadLen n e next buf with _ | len
  · rw [hlen] at h
    cases h
  · rw [payloadLen_append hlen]
    simp only [hlen] at h ⊢
    split at h
    · cases h
    · next htotal =>
      rw [if_neg (by rw [List.length_append]; omega),
        List.take_append_of_le_length (by omega), List.drop_append_of_le_length (by omega)]
      cases h
      rfl

theorem takePrefixed_wait (h : takePrefixed inc n e next buf = (none, next₁, rest)) :
    rest = buf ∧ takePrefixed inc n e next (buf ++ t) = takePrefixed inc n e next₁ (buf ++ t) := by
  rcases hlen : payloadLen n e next buf with _ | len
  · simp only [takePrefixed, hlen] at h
    cases h
    rcases next with _ | len'
    · exact ⟨rfl, rfl⟩
    · cases hlen
  · simp only [takePrefixed, hlen] at h
    split at h
    · cases h
      refine ⟨rfl, ?_⟩
      have hlen' : payloadLen n e (some len) (buf ++ t) = some len := rfl
      simp only [takePrefixed, payloadLen_append hlen, hlen']
    · cases h

theorem takePrefixed_shortens (hn : 0 < n) (h : (takePrefixed inc n e next buf).1 = some frame) :
    (takePrefixed inc n e next buf).2.2.length < buf.length := by
  simp only [takePrefixed] at h ⊢
  split at h
  · cases h
  · split at h
    · cases h
    · next htotal =>
      simp only [if_neg htotal, List.length_drop]
      omega

end

theorem lengthPrefixed_splits (inc : Bool) (n : {n : ℕ // n = 1 ∨ n = 2 ∨ n = 4}) (e : Endianness)
    (rem : ℕ) (next : Option ℕ) (buf t : Bytes) :
    Splits inc (.lengthPrefixed n e rem next) buf t := by
  have hpos : 0 < n.1 := by obtain ⟨n, rfl | rfl | rfl⟩ := n <;> simp
  rcases Nat.lt_or_ge buf.length rem with hlt | hge
  · -- the offset reaches past the buffer: nothing is taken
    have hdrop : buf.drop rem = [] := List.drop_eq_nil_of_le (Nat.le_of_lt hlt)
    have hdrop' : (buf ++ t).drop rem = t.drop (rem - buf.length) := by
      rw [List.drop_append, hdrop, List.nil_append]
    have hnil : ∀ next, takePrefixed inc n e next [] = (none, next, []) := by
      rintro (_ | len)
      · simp [takePrefixed, payloadLen, hpos]
      · simp only [takePrefixed, payloadLen, List.length_nil]
        rw [if_pos (by omega)]
    refine ⟨fun {frame mode₁ rest} h => ?_, fun {mode₁ rest} h => ?_⟩
    · simp [extract, extractLengthPrefixed, hdrop, hnil] at h
    · simp only [extract, extractLengthPrefixed, hdrop, hnil] at h
      cases h
      simp only [extract, extractLengthPrefixed, hdrop', List.nil_append, List.length_append,
        Nat.sub_sub]
  · have hdrop : (buf ++ t).drop rem = buf.drop rem ++ t := List.drop_append_of_le_length hge
    have hrem : rem - buf.length = 0 := by omega
    have hrem' : rem - (buf ++ t).length = 0 := by rw [List.length_append]; omega
    refine ⟨fun {frame mode₁ rest} h => ?_, fun {mode₁ rest} h => ?_⟩
    · rcases hp : takePrefixed inc n e next (buf.drop rem) with ⟨_ | f, next₁, r⟩
      · simp [extract, extractLengthPrefixed, hp] at h
      · simp only [extract, extractLengthPrefixed, hp, hrem] at h
        cases h
        simp only [extract, extractLengthPrefixed, hdrop, hrem', takePrefixed_event hp]
    · rcases hp : takePrefixed inc n e next (buf.drop rem) with ⟨_ | f, next₁, r⟩
      · simp only [extract, extractLengthPrefixed, hp, hrem] at h
        cases h
        obtain ⟨rfl, hw⟩ := takePrefixed_wait (t := t) hp
        simp only [extract, extractLengthPrefixed, hdrop, hrem', hw, List.drop_zero,
          Nat.zero_sub]
      · simp [extract, extractLengthPrefixed, hp] at h

/-! ## Start and end markers -/

section
variable {start : List Marker} {m fin : Marker} {inc : Bool} {buf body t : Bytes} {k : ℕ}

/-- The earlier of two starts; the first on equal offsets. -/
def earlier : Option (ℕ × ℕ) → Option (ℕ × ℕ) → Option (ℕ × ℕ)
  | best, none => best
  | none, some found => some found
  | some best, some found => if found.1 < best.1 then some found else some best

theorem bestStart_concat (start : List Marker) (m : Marker) (buf : Bytes) :
    bestStart (start ++ [m]) buf = earlier (bestStart start buf)
      ((findSubsequence buf m.1).map fun pos => (pos, m.1.length)) := by
  rw [bestStart, List.foldl_concat, ← bestStart]
  rcases findSubsequence buf m.1 with _ | pos <;> rcases bestStart start buf with _ | best <;> rfl

theorem bestStart_singleton (m : Marker) (buf : Bytes) :
    bestStart [m] buf = (findSubsequence buf m.1).map fun pos => (pos, m.1.length) := by
  rcases h : findSubsequence buf m.1 with _ | pos <;> simp [bestStart, h]

/-- Where no marker starts before `k`, the search may begin there. -/
theorem bestStart_drop (hno : ∀ m ∈ start, ∀ j < k, ¬ m.1 <+: buf.drop j) :
    bestStart start buf = (bestStart start (buf.drop k)).map fun found => (k + found.1, found.2) := by
  induction start using List.reverseRecOn with
  | nil => rfl
  | append_singleton start m ih =>
    have hm := findSubsequence_drop m.2 (hno m (by simp))
    rw [bestStart_concat, bestStart_concat, hm, ih fun m' hm' => hno m' (by simp [hm'])]
    rcases bestStart start (buf.drop k) with _ | best <;>
      rcases findSubsequence (buf.drop k) m.1 with _ | pos
    · rfl
    · rfl
    · rfl
    · simp only [earlier, Option.map_some, Nat.add_lt_add_iff_left]
      split <;> rfl

theorem bestStart_eq_none :
    bestStart start buf = none ↔ ∀ m ∈ start, findSubsequence buf m.1 = none := by
  induction start using List.reverseRecOn with
  | nil => simp [bestStart]
  | append_singleton start m ih =>
    have hearlier : ∀ a b : Option (ℕ × ℕ), earlier a b = none ↔ a = none ∧ b = none := by
      rintro (_ | a) (_ | b)
      · simp [earlier]
      · simp [earlier]
      · simp [earlier]
      · simp only [earlier]
        split <;> simp
    rw [bestStart_concat, hearlier, ih, Option.map_eq_none_iff]
    simp [or_imp, forall_and]

theorem keepLen_concat (start : List Marker) (m : Marker) :
    keepLen (start ++ [m]) = max (keepLen start) (m.1.length - 1) := by
  simp [keepLen]

theorem length_le_keepLen (hm : m ∈ start) : m.1.length - 1 ≤ keepLen start := by
  induction start using List.reverseRecOn with
  | nil => cases hm
  | append_singleton start m' ih =>
    rw [keepLen_concat]
    rcases List.mem_append.1 hm with hm | hm
    · exact (ih hm).trans (Nat.le_max_left ..)
    · rw [List.mem_singleton.1 hm]
      exact Nat.le_max_right ..

/-- Without a start marker in `buf`, the search may go on from the bytes kept. -/
theorem enterFrame_keep (h : enterFrame start inc false buf = none) :
    enterFrame start inc false (buf ++ t) =
      enterFrame start inc false (buf.drop (buf.length - keepLen start) ++ t) := by
  simp only [enterFrame, Bool.false_eq_true, if_false, Option.map_eq_none_iff] at h ⊢
  rw [bestStart_eq_none] at h
  have hno : ∀ m ∈ start, ∀ j < buf.length - keepLen start, ¬ m.1 <+: (buf ++ t).drop j := by
    intro m hm j hj
    have hkeep := length_le_keepLen hm
    have hpos := List.length_pos_iff.mpr m.2
    exact no_occurrence_append m.2 (h m hm) (by omega)
  rw [bestStart_drop hno, List.drop_append_of_le_length (by omega), Option.map_map,
    ← List.drop_append_of_le_length (by omega)]
  congr 1
  funext found
  simp only [Function.comp_apply, List.drop_drop, Nat.add_assoc]

theorem drop_keep (n : ℕ) (buf t : Bytes) :
    (buf ++ t).drop ((buf ++ t).length - n) =
      (buf.drop (buf.length - n) ++ t).drop ((buf.drop (buf.length - n) ++ t).length - n) := by
  rw [← List.drop_append_of_le_length (by omega), List.drop_drop, List.length_drop]
  congr 1
  simp only [List.length_append]
  omega

/-- Once found, a start is found with more bytes behind. -/
def StartStable (start : List Marker) (inc : Bool) : Prop :=
  ∀ buf body t, enterFrame start inc false buf = some body →
    enterFrame start inc false (buf ++ t) = some (body ++ t)

theorem startEnd_splits {markers : Bool} (hstable : StartStable start markers) (fin : Marker)
    (inc inFrame : Bool) (buf t : Bytes) :
    Splits inc (.startEnd start fin markers inFrame) buf t := by
  rcases he : enterFrame start markers inFrame buf with _ | body
  · -- no start marker yet
    obtain rfl : inFrame = false := by
      rcases inFrame with _ | _
      · rfl
      · cases he
    refine ⟨fun {frame mode₁ rest} h => ?_, fun {mode₁ rest} h => ?_⟩
    · simp [extract, extractStartEnd, he] at h
    · simp only [extract, extractStartEnd, he] at h
      cases h
      simp only [extract, extractStartEnd, enterFrame_keep (t := t) he, ← drop_keep]
  · have he' : enterFrame start markers inFrame (buf ++ t) = some (body ++ t) := by
      rcases inFrame with _ | _
      · exact hstable buf body t he
      · cases he
        rfl
    rcases hf : findSubsequence body fin.1 with _ | pos
    · refine ⟨fun {frame mode₁ rest} h => ?_, fun {mode₁ rest} h => ?_⟩
      · simp [extract, extractStartEnd, he, hf] at h
      · simp only [extract, extractStartEnd, he, hf] at h
        cases h
        have hin : enterFrame start markers true (body ++ t) = some (body ++ t) := rfl
        simp only [extract, extractStartEnd, he', hin]
    · have hle := findSubsequence_le fin.2 hf
      have hle' : (if markers then pos + fin.1.length else pos) ≤ body.length := by split <;> omega
      refine ⟨fun {frame mode₁ rest} h => ?_, fun {mode₁ rest} h => ?_⟩
      · simp only [extract, extractStartEnd, he, hf] at h
        cases h
        simp only [extract, extractStartEnd, he', findSubsequence_append fin.2 hf,
          List.take_append_of_le_length hle', List.drop_append_of_le_length hle]
      · simp [extract, extractStartEnd, he, hf] at h

theorem startStable_singleton (m : Marker) (inc : Bool) : StartStable [m] inc := by
  intro buf body t h
  simp only [enterFrame, bestStart_singleton] at h ⊢
  rcases hp : findSubsequence buf m.1 with _ | pos
  · rw [hp] at h
    cases h
  · have hle := findSubsequence_le m.2 hp
    rw [hp] at h
    rw [findSubsequence_append m.2 hp]
    simp only [Option.map_some, List.drop_drop, Bool.false_eq_true, if_false,
      Option.some.injEq] at h ⊢
    rw [List.drop_append_of_le_length (by omega), List.drop_append_of_le_length hle]
    split at h <;> simp_all

end

/-! ## Modes with one kind of boundary -/

/-- All modes but `auto` line endings and several start markers. -/
def DecoderMode.SingleBoundary : DecoderMode → Prop
  | .line s => s.Fixed
  | .startEnd start .. => ∃ m, start = [m]
  | _ => True

/-- The same modes, as they are configured. -/
def RxFramingMode.SingleBoundary : RxFramingMode → Prop
  | .line ending => ending ≠ .auto
  | .startEnd start .. => start.length = 1
  | _ => True

theorem DecoderMode.SingleBoundary.splits {mode : DecoderMode} (hm : mode.SingleBoundary)
    (inc : Bool) (buf t : Bytes) : Splits inc mode buf t := by
  rcases mode with s | delim | ⟨n, e, rem, next⟩ | ⟨start, fin, markers, inFrame⟩ | st | st
  · refine splits_of_delimited s.terminator_ne_nil (fun b => ?_) buf t
    simp only [extract, extractLine_fixed hm]
  · exact splits_of_delimited delim.2 (fun _ => rfl) buf t
  · exact lengthPrefixed_splits inc n e rem next buf t
  · obtain ⟨m, rfl⟩ := hm
    exact startEnd_splits (startStable_singleton m markers) fin inc inFrame buf t
  · exact splits_of_not_extracting (fun _ => rfl) buf t
  · exact splits_of_not_extracting (fun _ => rfl) buf t

theorem DecoderMode.SingleBoundary.extract {mode : DecoderMode} (hm : mode.SingleBoundary)
    (inc : Bool) (buf : Bytes) : (extract inc mode buf).2.1.SingleBoundary := by
  rcases mode with s | delim | ⟨n, e, rem, next⟩ | ⟨start, fin, markers, inFrame⟩ | st | st
  · simpa only [SerialMcp.extract, extractLine_fixed hm] using hm
  · exact hm
  · exact hm
  · exact hm
  · exact hm
  · exact hm

theorem takeFrame_shortens (inc : Bool) {buf : Bytes} {pos len : ℕ} (hlen : 0 < len)
    (hbuf : buf ≠ []) : (takeFrame inc buf pos len).2.length < buf.length := by
  have hpos := List.length_pos_iff.mpr hbuf
  simp only [takeFrame, List.length_drop]
  omega

theorem ne_nil_of_position {buf : Bytes} {b : UInt8} {pos : ℕ} (h : position buf b = some pos) :
    buf ≠ [] := by
  rintro rfl
  cases h

theorem matchAutoLf_shortens {inc : Bool} {buf frame : Bytes}
    (h : (matchAutoLf inc buf).1 = some frame) :
    (matchAutoLf inc buf).2.2.length < buf.length := by
  simp only [matchAutoLf] at h ⊢
  rcases hlf : position buf 10 with _ | lfPos
  · rw [hlf] at h
    rcases hcr : position buf 13 with _ | crPos
    · rw [hcr] at h
      cases h
    · have hne := ne_nil_of_position hcr
      simp only [hcr] at h ⊢
      split
      · exact takeFrame_shortens inc (by decide) hne
      · split
        · exact takeFrame_shortens inc (by decide) hne
        · next hcr₁ hcr₂ =>
          rw [if_neg hcr₁, if_neg hcr₂] at h
          cases h
  · have hne := ne_nil_of_position hlf
    simp only
    split <;> exact takeFrame_shortens inc (by decide) hne

theorem matchPendingCr_shortens {inc : Bool} {buf frame : Bytes} {crPos : ℕ}
    (h : (matchPendingCr inc crPos buf).1 = some frame) :
    (matchPendingCr inc crPos buf).2.2.length < buf.length := by
  simp only [matchPendingCr] at h ⊢
  rcases hb : buf[crPos + 1]? with _ | b
  · rw [hb] at h
    cases h
  · have hne : buf ≠ [] := by
      rintro rfl
      cases hb
    simp only
    split <;> exact takeFrame_shortens inc (by decide) hne

theorem enterFrame_length {start : List Marker} {inc inFrame : Bool} {buf body : Bytes}
    (h : enterFrame start inc inFrame buf = some body) : body.length ≤ buf.length := by
  simp only [enterFrame] at h
  split at h
  · cases h
    exact Nat.le_refl _
  · obtain ⟨⟨pos, len⟩, -, rfl⟩ := Option.map_eq_some_iff.mp h
    split <;> simp only [List.length_drop] <;> omega

theorem extractLine_shortens {inc : Bool} {s : LineState} {buf frame : Bytes}
    (h : (extractLine inc s buf).1 = some frame) :
    (extractLine inc s buf).2.2.length < buf.length := by
  by_cases hs : s.Fixed
  · rw [extractLine_fixed hs] at h ⊢
    exact extractDelimited_shortens s.terminator_ne_nil h
  · cases s with
    | autoLf => exact matchAutoLf_shortens h
    | pendingCr crPos => exact matchPendingCr_shortens h
    | lf => exact absurd trivial hs
    | cr => exact absurd trivial hs
    | crlf => exact absurd trivial hs
    | crMode => exact absurd trivial hs

theorem extractStartEnd_shortens {start : List Marker} {fin : Marker} {inc inFrame : Bool}
    {buf frame : Bytes} (h : (extractStartEnd start fin inc inFrame buf).1 = some frame) :
    (extractStartEnd start fin inc inFrame buf).2.2.length < buf.length := by
  simp only [extractStartEnd] at h ⊢
  rcases he : enterFrame start inc inFrame buf with _ | body
  · rw [he] at h
    cases h
  · have hle := enterFrame_length he
    rcases hf : findSubsequence body fin.1 with _ | pos
    · simp [he, hf] at h
    · have hfin := findSubsequence_le fin.2 hf
      have hpos := List.length_pos_iff.mpr fin.2
      simp only [hf, List.length_drop]
      omega

theorem extract_shortens {inc : Bool} {mode : DecoderMode} {buf frame : Bytes}
    (h : (extract inc mode buf).1 = some frame) :
    (extract inc mode buf).2.2.length < buf.length := by
  rcases mode with s | delim | ⟨n, e, rem, next⟩ | ⟨start, fin, markers, inFrame⟩ | st | st
  · exact extractLine_shortens h
  · exact extractDelimited_shortens delim.2 h
  · have hpos : 0 < n.1 := by obtain ⟨n, rfl | rfl | rfl⟩ := n <;> simp
    have hlt := takePrefixed_shortens hpos h
    rw [List.length_drop] at hlt
    exact Nat.lt_of_lt_of_le hlt (Nat.sub_le ..)
  · exact extractStartEnd_shortens h
  · cases h
  · cases h

/-! ## The decoder is lawful -/

namespace FrameDecoder

variable {d d₁ : FrameDecoder} {t : Bytes}

/-- The modes that extract frames from the buffer. -/
def Extracts (d : FrameDecoder) : Prop := d.mode.frameType ≠ .slip ∧ d.mode.frameType ≠ .cobs

theorem Extracts.feed (hd : d.Extracts) (t : Bytes) : (d.feed t).Extracts := hd

theorem next_of_extracts (hd : d.Extracts) : d.next = d.nextFrame := by
  obtain ⟨buf, mode, count, inc, skip, parser⟩ := d
  cases mode with
  | slip st => exact absurd rfl hd.1
  | cobs st => exact absurd rfl hd.2
  | line s => rfl
  | delimiter m => rfl
  | lengthPrefixed n e rem next => rfl
  | startEnd start fin markers inFrame => rfl

theorem mode_cases (d : FrameDecoder) :
    (∃ st, d.mode = .slip st) ∨ (∃ st, d.mode = .cobs st) ∨ d.Extracts := by
  rcases h : d.mode with s | delim | ⟨n, e, rem, next⟩ | ⟨start, fin, markers, inFrame⟩ | st | st
  all_goals simp [Extracts, h, DecoderMode.frameType]

theorem extract_frameType (inc : Bool) (mode : DecoderMode) (buf : Bytes) :
    (extract inc mode buf).2.1.frameType = mode.frameType := by
  cases mode <;> rfl

theorem cobsFlush_idem (st : CobsState) : cobsFlush (cobsFlush st) = cobsFlush st := by
  rcases st with _ | ⟨decoded, _ | n, _ | _⟩ <;> rfl

theorem next_event {e : Emitted × Option FrameDecodeError}
    (hs : Splits d.includeTerminators d.mode d.buf t) (h : d.next = (some e, d₁)) :
    (d.feed t).next = (some e, d₁.feed t) := by
  obtain ⟨buf, mode, count, inc, skip, parser⟩ := d
  rcases mode_cases ⟨buf, mode, count, inc, skip, parser⟩ with ⟨st, rfl⟩ | ⟨st, rfl⟩ | hx
  · rcases buf with _ | ⟨b, rest⟩ <;> cases h
    rfl
  · rcases buf with _ | ⟨b, rest⟩ <;> cases h
    rfl
  · rw [next_of_extracts hx] at h
    rw [next_of_extracts (hx.feed t)]
    rcases hf : extract inc mode buf with ⟨_ | frame, mode₁, rest⟩
    · simp [nextFrame, hf] at h
    · simp only [nextFrame, hf] at h
      cases h
      simp only [nextFrame, feed, hs.event hf]

/-- A turn that waits leaves a decoder that goes on in the same way. -/
theorem next_wait (hs : Splits d.includeTerminators d.mode d.buf t) (h : d.next = (none, d₁)) :
    (d.feed t).next = (d₁.feed t).next := by
  obtain ⟨buf, mode, count, inc, skip, parser⟩ := d
  rcases mode_cases ⟨buf, mode, count, inc, skip, parser⟩ with ⟨st, rfl⟩ | ⟨st, rfl⟩ | hx
  · rcases buf with _ | ⟨b, rest⟩ <;> cases h
    rfl
  · rcases buf with _ | ⟨b, rest⟩ <;> cases h
    rcases t with _ | ⟨b, rest⟩ <;> simp [next, feed, nextCobs, cobsFlush_idem]
  · rw [next_of_extracts hx] at h
    rw [next_of_extracts (hx.feed t)]
    rcases hf : extract inc mode buf with ⟨_ | frame, mode₁, rest⟩
    · have hft : mode₁.frameType = mode.frameType := by
        rw [← extract_frameType inc mode buf, hf]
      simp only [nextFrame, hf] at h
      cases h
      have hx₁ : Extracts (feed ⟨rest, mode₁, count, inc, skip, parser⟩ t) := by
        simpa only [Extracts, feed, hft] using hx
      rw [next_of_extracts hx₁]
      simp only [nextFrame, feed, hs.wait hf, hft]
    · simp [nextFrame, hf] at h

theorem next_shortens {e : Emitted × Option FrameDecodeError} (h : d.next = (some e, d₁)) :
    d₁.buf.length < d.buf.length := by
  obtain ⟨buf, mode, count, inc, skip, parser⟩ := d
  rcases mode_cases ⟨buf, mode, count, inc, skip, parser⟩ with ⟨st, rfl⟩ | ⟨st, rfl⟩ | hx
  · rcases buf with _ | ⟨b, rest⟩ <;> cases h
    exact Nat.lt_succ_self _
  · rcases buf with _ | ⟨b, rest⟩ <;> cases h
    exact Nat.lt_succ_self _
  · rw [next_of_extracts hx] at h
    rcases hf : (extract inc mode buf).1 with _ | frame
    · simp [nextFrame, hf] at h
    · have hlt := extract_shortens hf
      simp only [nextFrame, hf] at h
      cases h
      exact hlt

/-- **Modes that split make a lawful decoder.** -/
theorem extractor_lawful {P : FrameDecoder → Bytes → Prop}
    (fed : ∀ {d a b}, P d (a ++ b) → P (d.feed a) b)
    (splits : ∀ {d b}, P d b → Splits d.includeTerminators d.mode d.buf b)
    (stable : ∀ {d b}, P d b → P d.next.2 b) : extractor.Lawful P where
  feed_nil d := by simp [extractor, feed]
  feed_append d a b := by simp [extractor, feed]
  fed := fed
  event {d b e d₁} hP h := by
    refine ⟨?_, next_event (splits hP) h⟩
    have := stable hP
    rwa [show d.next = (some e, d₁) from h] at this
  wait {d b d₁} hP h := by
    refine ⟨?_, next_wait (splits hP) h⟩
    have := stable hP
    rwa [show d.next = (none, d₁) from h] at this
  pending_lt h := next_shortens h

/-! ## Chunk invariance -/

theorem singleBoundary_next (hd : d.mode.SingleBoundary) : d.next.2.mode.SingleBoundary := by
  obtain ⟨buf, mode, count, inc, skip, parser⟩ := d
  rcases mode_cases ⟨buf, mode, count, inc, skip, parser⟩ with ⟨st, rfl⟩ | ⟨st, rfl⟩ | hx
  · rcases buf with _ | ⟨b, rest⟩ <;> trivial
  · rcases buf with _ | ⟨b, rest⟩ <;> trivial
  · rw [next_of_extracts hx]
    have := hd.extract inc buf
    rcases hf : (extract inc mode buf).1 with _ | frame
    · simpa only [nextFrame, hf] using this
    · simpa only [nextFrame, hf] using this

theorem singleBoundary_extractor :
    extractor.Lawful fun d _ => d.mode.SingleBoundary :=
  extractor_lawful (fun h => h) (fun h => h.splits _ _ _) singleBoundary_next

section
variable {o : Emitted} {e : FrameDecodeError}

theorem settle_wait (h : d.next = (none, d₁)) : decoder.settle d = (1, none, d₁) := by
  have h' : extractor.next d = (none, d₁) := h
  simp only [decoder, Extractor.decoder, Extractor.settle, h']

theorem settle_fatal (h : d.next = (some (o, some e), d₁)) :
    decoder.settle d = (o, some e, d₁) := by
  have h' : extractor.next d = (some (o, some e), d₁) := h
  simp only [decoder, Extractor.decoder, Extractor.settle, h']

/-- A turn without an error is one step of settling, in every mode. -/
theorem settle_event (h : d.next = (some (o, none), d₁)) :
    decoder.settle d = (o * (decoder.settle d₁).1, (decoder.settle d₁).2) :=
  singleBoundary_extractor.settle_event h

end

theorem singleBoundary_lawful :
    decoder.Lawful fun d _ => d.mode.SingleBoundary :=
  singleBoundary_extractor.decoder

theorem decodeMarkers_length {crates : Crates} {enc : PatternEncoding} :
    ∀ {start : List String} {ms : List Marker}, decodeMarkers crates enc start = .ok ms →
      ms.length = start.length
  | [], ms, h => by
    cases h
    rfl
  | s :: rest, ms, h => by
    simp only [decodeMarkers, bind, Except.bind] at h
    split at h
    · cases h
    · split at h
      · cases h
      · next hrest =>
        cases h
        simp [decodeMarkers_length hrest]

theorem newMode_singleBoundary {crates : Crates} {m : RxFramingMode} {mode : DecoderMode}
    (hm : m.SingleBoundary) (h : newMode crates m = .ok mode) : mode.SingleBoundary := by
  rcases m with ending | ⟨delim, enc⟩ | ⟨n, e, off⟩ | ⟨start, fin, enc, markers⟩ | _ | _
  · cases ending with
    | auto => exact absurd rfl hm
    | lf => cases h; trivial
    | cr => cases h; trivial
    | crlf => cases h; trivial
  · simp only [newMode, bind, Except.bind] at h
    split at h
    · cases h
    · cases h; trivial
  · simp only [newMode] at h
    split at h
    · cases h; trivial
    · cases h
  · simp only [newMode, bind, Except.bind] at h
    split at h
    · cases h
    · split at h
      · cases h
      · next ms hms =>
        split at h
        · cases h
        · cases h
          exact List.length_eq_one_iff.mp ((decodeMarkers_length hms).trans hm)
  · cases h; trivial
  · cases h; trivial

/-- What `FrameDecoder::new` builds. -/
structure Fresh (crates : Crates) (config : RxFramingConfig) (pc : Option ParserConfig)
    (d : FrameDecoder) : Prop where
  buf : d.buf = []
  mode : newMode crates config.mode = .ok d.mode
  frameCount : d.frameCount = 0
  includeTerminators : d.includeTerminators = config.includeTerminators
  skipEmpty : d.skipEmpty = config.skipEmpty
  parser : newParser crates pc = .ok d.parser

theorem new_fresh {crates : Crates} {config : RxFramingConfig} {pc : Option ParserConfig}
    (h : new crates config pc = .ok d) : Fresh crates config pc d := by
  simp only [new, bind, Except.bind] at h
  split at h
  · cases h
  · next mode hmode =>
    split at h
    · cases h
    · next parser hparser =>
      cases h
      exact ⟨rfl, hmode, rfl, rfl, rfl, hparser⟩

/-- **Chunk invariance.** A decoder built by `FrameDecoder::new` for a mode with
    one kind of boundary, given any parser, yields the same frames and drops,
    the same errors and the same final decoder for every two ways of cutting
    the same bytes into chunks, each followed by empty pushes until one returns
    no error; and the last of them does return none. -/
theorem total_congr_of_new {crates : Crates} {config : RxFramingConfig} {pc : Option ParserConfig}
    (h : new crates config pc = .ok d) (hm : config.mode.SingleBoundary)
    {cs cs' : List Bytes} (hcs : cs.flatten = cs'.flatten) :
    decoder.total d cs = decoder.total d cs' ∧
      (push (decoder.total d cs).2.2 []).1.error = none := by
  have hd : d.mode.SingleBoundary := newMode_singleBoundary hm (new_fresh h).mode
  refine ⟨singleBoundary_lawful.total_congr hd hcs, ?_⟩
  have hrest : (decoder.settle (decoder.total d cs).2.2).2.1 = none :=
    singleBoundary_lawful.settle_total hd
  rwa [← singleBoundary_lawful.feed_nil (decoder.total d cs).2.2] at hrest

/-- NMEA sentences, cut inside the end marker and not at all. -/
theorem total_congr_of_new_nmea :
    ∃ d, new .refusing ⟨.startEnd ["$"] "\r\n" .utf8 false, none, false, false⟩
        (some ⟨.nmea, none, true⟩) = .ok d ∧
      (decoder.total d [[36, 80, 44], [49, 13], [10, 36]]).1.frames.map Frame.data =
        [[80, 44, 49]] ∧
      decoder.total d [[36, 80, 44], [49, 13], [10, 36]] =
        decoder.total d [[36, 80, 44, 49, 13, 10, 36]] := by
  obtain ⟨d, hd, hf⟩ : ∃ d, new .refusing ⟨.startEnd ["$"] "\r\n" .utf8 false, none, false, false⟩
        (some ⟨.nmea, none, true⟩) = .ok d ∧
      (decoder.total d [[36, 80, 44], [49, 13], [10, 36]]).1.frames.map Frame.data =
        [[80, 44, 49]] := ⟨_, rfl, by decide⟩
  exact ⟨d, hd, hf, (total_congr_of_new hd rfl (by rfl)).1⟩

end FrameDecoder

end SerialMcp
