/-
  Start/end framing with several start markers.

  Among the occurrences of all start markers in the buffer the earliest one is
  taken, and on equal offsets the first of the list (`bestStart_eq_some`).  The
  choice is made as soon as one marker is complete, so another one that began
  earlier, and is completed by the next chunk, comes too late.

  * `MarkersApart`, `StartsApart`: no marker ends (or starts and ends) inside
    another one that could still be chosen;
  * `startEnd_invariant`: without markers in the frames, `MarkersApart` is
    exactly what makes the frames independent of the chunks; with markers in
    the frames `StartsApart` is enough, and needed unless end markers occur in
    start markers.
-/
import SerialMcp.Framing.Auto
import SerialMcp.Framing.Streams

namespace SerialMcp

open Incremental FrameDecoder

/-! ## The marker that is chosen -/

/-- The marker `m` at `pos` is chosen: no marker starts earlier, and none that
    comes earlier in the list starts there. -/
structure Chosen (start : List Marker) (buf : Bytes) (pos : ℕ) (m : Marker) : Prop where
  split : ∃ pre post, start = pre ++ m :: post ∧ ∀ m' ∈ pre, ¬ m'.1 <+: buf.drop pos
  found : m.1 <+: buf.drop pos
  first : ∀ m' ∈ start, ∀ q < pos, ¬ m'.1 <+: buf.drop q

section
variable {start : List Marker} {buf t : Bytes} {pos pos' len : ℕ} {m m' : Marker}

theorem Chosen.mem (h : Chosen start buf pos m) : m ∈ start := by
  obtain ⟨pre, post, rfl, -⟩ := h.split
  simp

theorem Chosen.unique (h : Chosen start buf pos m) (h' : Chosen start buf pos' m') :
    pos = pos' ∧ m = m' := by
  have hpos : pos = pos' := by
    rcases Nat.lt_trichotomy pos pos' with hlt | heq | hgt
    · exact absurd h.found (h'.first m h.mem pos hlt)
    · exact heq
    · exact absurd h'.found (h.first m' h'.mem pos' hgt)
  subst hpos
  refine ⟨rfl, ?_⟩
  obtain ⟨pre, post, hs, hpre⟩ := h.split
  obtain ⟨pre', post', hs', hpre'⟩ := h'.split
  rcases List.append_eq_append_iff.1 (hs.symm.trans hs') with ⟨as, ha, hb⟩ | ⟨as, ha, hb⟩
  · rcases as with _ | ⟨a, as⟩
    · exact (List.cons.inj hb).1
    · obtain rfl : m = a := (List.cons.inj hb).1
      exact absurd h.found (hpre' m (by simp [ha]))
  · rcases as with _ | ⟨a, as⟩
    · exact (List.cons.inj hb).1.symm
    · obtain rfl : m' = a := (List.cons.inj hb).1
      exact absurd h'.found (hpre m' (by simp [ha]))

/-- A marker behind the others changes nothing unless it starts earlier. -/
theorem Chosen.concat (h : Chosen start buf pos m)
    (hlater : ∀ q < pos, ¬ m'.1 <+: buf.drop q) : Chosen (start ++ [m']) buf pos m := by
  obtain ⟨pre, post, hs, hpre⟩ := h.split
  refine ⟨⟨pre, post ++ [m'], by simp [hs], hpre⟩, h.found, ?_⟩
  intro m₁ hm₁ q hq
  rcases List.mem_append.1 hm₁ with hm₁ | hm₁
  · exact h.first m₁ hm₁ q hq
  · rw [List.mem_singleton.1 hm₁]
    exact hlater q hq

theorem Chosen.last (hfind : findSubsequence buf m.1 = some pos)
    (hno : ∀ m' ∈ start, ∀ q ≤ pos, ¬ m'.1 <+: buf.drop q) : Chosen (start ++ [m]) buf pos m := by
  obtain ⟨hat, hfirst⟩ := (findSubsequence_eq_some m.2).1 hfind
  refine ⟨⟨start, [], rfl, fun m' hm' => hno m' hm' pos (Nat.le_refl _)⟩, hat, ?_⟩
  intro m' hm' q hq
  rcases List.mem_append.1 hm' with hm' | hm'
  · exact hno m' hm' q (Nat.le_of_lt hq)
  · rw [List.mem_singleton.1 hm']
    exact hfirst q hq

theorem exists_chosen (h : bestStart start buf = some (pos, len)) :
    ∃ m, Chosen start buf pos m ∧ m.1.length = len := by
  induction start using List.reverseRecOn generalizing pos len with
  | nil => cases h
  | append_singleton start m ih =>
    rw [bestStart_concat] at h
    rcases hbest : bestStart start buf with _ | ⟨bp, bl⟩
    · -- no marker before this one
      rw [bestStart_eq_none] at hbest
      rcases hfind : findSubsequence buf m.1 with _ | p
      · rw [hfind, bestStart_eq_none.2 hbest] at h
        cases h
      · rw [hfind, bestStart_eq_none.2 hbest] at h
        cases h
        refine ⟨m, Chosen.last hfind fun m' hm' q _ => ?_, rfl⟩
        exact (findSubsequence_eq_none m'.2).1 (hbest m' hm') q
    · obtain ⟨m₀, hm₀, hlen₀⟩ := ih hbest
      rcases hfind : findSubsequence buf m.1 with _ | p
      · rw [hfind, hbest] at h
        cases h
        refine ⟨m₀, hm₀.concat fun q _ => ?_, hlen₀⟩
        exact (findSubsequence_eq_none m.2).1 hfind q
      · rw [hfind, hbest] at h
        simp only [Option.map_some, earlier] at h
        split at h
        · next hlt =>
          cases h
          refine ⟨m, Chosen.last hfind fun m' hm' q hq => ?_, rfl⟩
          exact hm₀.first m' hm' q (Nat.lt_of_le_of_lt hq hlt)
        · next hge =>
          cases h
          refine ⟨m₀, hm₀.concat fun q hq => ?_, hlen₀⟩
          exact ((findSubsequence_eq_some m.2).1 hfind).2 q (by omega)

/-- **The documented rule**: the earliest occurrence, and on equal offsets the
    first marker of the list. -/
theorem bestStart_eq_some :
    bestStart start buf = some (pos, len) ↔ ∃ m, Chosen start buf pos m ∧ m.1.length = len := by
  refine ⟨exists_chosen, ?_⟩
  rintro ⟨m, hm, rfl⟩
  rcases hbest : bestStart start buf with _ | ⟨p, l⟩
  · rw [bestStart_eq_none] at hbest
    exact absurd hm.found ((findSubsequence_eq_none m.2).1 (hbest m hm.mem) pos)
  · obtain ⟨m', hm', rfl⟩ := exists_chosen hbest
    obtain ⟨rfl, rfl⟩ := hm.unique hm'
    rfl

theorem chosen_of_found (hm : m ∈ start) (h : m.1 <+: buf.drop pos) :
    ∃ p m', Chosen start buf p m' ∧ p ≤ pos := by
  rcases hbest : bestStart start buf with _ | ⟨p, l⟩
  · rw [bestStart_eq_none] at hbest
    exact absurd h ((findSubsequence_eq_none m.2).1 (hbest m hm) pos)
  · obtain ⟨m', hm', -⟩ := exists_chosen hbest
    refine ⟨p, m', hm', ?_⟩
    by_contra hlt
    exact hm'.first m hm pos (by omega) h

end

/-! ## Markers inside markers -/

/-- No marker ends inside one that can be chosen. -/
def MarkersApart (start : List Marker) : Prop :=
  ∀ m ∈ start, bestStart start m.1 = some (0, m.1.length) → bestStart start m.1.dropLast = none

/-- No marker starts and ends inside another one, unless yet another one starts
    where it does. -/
def StartsApart (start : List Marker) : Prop :=
  ∀ m ∈ start, ∀ found ∈ bestStart start m.1.dropLast, found.1 = 0

section
variable {start : List Marker} {buf t : Bytes} {pos pos' : ℕ} {m m' : Marker}

/-- A marker that was complete lies inside one that started earlier and was not. -/
theorem inside_of_overlap (h : m.1 <+: (buf ++ t).drop pos) (h' : m'.1 <+: buf.drop pos')
    (hle : pos ≤ pos') (hlate : buf.length < pos + m.1.length) :
    m'.1 <+: m.1.dropLast.drop (pos' - pos) := by
  have hend := occurrence_le h' m'.2
  have hm' : m'.1 <+: (buf ++ t).drop pos' := (occurrence_append hend).2 h'
  obtain ⟨s, hs⟩ := h
  have hdrop : (buf ++ t).drop pos' = m.1.drop (pos' - pos) ++ s := by
    have hsplit : (buf ++ t).drop pos' = ((buf ++ t).drop pos).drop (pos' - pos) := by
      rw [List.drop_drop]
      congr 1
      omega
    rw [hsplit, ← hs, List.drop_append_of_le_length (by omega)]
  rw [hdrop] at hm'
  have hinside : m'.1 <+: m.1.drop (pos' - pos) :=
    (List.isPrefix_append_of_length (by rw [List.length_drop]; omega)).1 hm'
  have hlast : m.1.dropLast.drop (pos' - pos) = (m.1.drop (pos' - pos)).take (m.1.length - 1 - (pos' - pos)) := by
    rw [List.dropLast_eq_take, List.drop_take]
  rw [hlast, List.prefix_take_iff]
  exact ⟨hinside, by omega⟩

theorem Chosen.of_append (h : Chosen start (buf ++ t) pos m) (hle : pos + m.1.length ≤ buf.length) :
    Chosen start buf pos m := by
  have hgrow : ∀ m' : Marker, ∀ q, m'.1 <+: buf.drop q → m'.1 <+: (buf ++ t).drop q := by
    intro m' q hq
    exact (occurrence_append (occurrence_le hq m'.2)).2 hq
  obtain ⟨pre, post, hs, hpre⟩ := h.split
  refine ⟨⟨pre, post, hs, ?_⟩, (occurrence_append hle).1 h.found, ?_⟩
  · intro m' hm' hat
    exact hpre m' hm' (hgrow m' pos hat)
  · intro m' hm' q hq hat
    exact h.first m' hm' q hq (hgrow m' q hat)

theorem Chosen.self (h : Chosen start buf pos m) : Chosen start m.1 0 m := by
  obtain ⟨pre, post, hs, hpre⟩ := h.split
  refine ⟨⟨pre, post, hs, ?_⟩, List.prefix_refl _, ?_⟩
  · intro m' hm' hat
    exact hpre m' hm' (hat.trans h.found)
  · intro m' _ q hq
    exact absurd hq (Nat.not_lt_zero q)

theorem Chosen.le (h : Chosen start (buf ++ t) pos m) (h' : Chosen start buf pos' m') :
    pos ≤ pos' := by
  by_contra hlt
  have hat := (occurrence_append (t := t) (occurrence_le h'.found m'.2)).2 h'.found
  exact h.first m' h'.mem pos' (by omega) hat

theorem MarkersApart.chosen (hapart : MarkersApart start) (h : Chosen start (buf ++ t) pos m)
    (h' : Chosen start buf pos' m') : pos = pos' ∧ m = m' := by
  rcases Nat.lt_or_ge buf.length (pos + m.1.length) with hlate | hearly
  · have hinside := inside_of_overlap h.found h'.found (h.le h') hlate
    have hnone := hapart m h.mem (bestStart_eq_some.2 ⟨m, h.self, rfl⟩)
    rw [bestStart_eq_none] at hnone
    exact absurd hinside ((findSubsequence_eq_none m'.2).1 (hnone m' h'.mem) _)
  · exact (h.of_append hearly).unique h'

/-- Starts apart: no marker comes up before the one that is chosen. -/
theorem StartsApart.le (hapart : StartsApart start) (h' : Chosen start buf pos' m')
    (hm : m ∈ start) (hat : m.1 <+: (buf ++ t).drop pos) : pos' ≤ pos := by
  -- by induction on the length: a marker that is late has a shorter one in front
  induction hn : m.1.length using Nat.strong_induction_on generalizing m with
  | _ n ih =>
    subst hn
    by_contra hlt
    rcases Nat.lt_or_ge buf.length (pos + m.1.length) with hlate | hearly
    · have hinside := inside_of_overlap hat h'.found (by omega) hlate
      obtain ⟨q, m₂, hm₂, -⟩ := chosen_of_found h'.mem hinside
      obtain rfl : q = 0 := hapart m hm (q, _) (bestStart_eq_some.2 ⟨m₂, hm₂, rfl⟩)
      have hshort : m₂.1 <+: m.1.dropLast := hm₂.found
      have hlen := hshort.length_le
      have hpos := List.length_pos_iff.mpr m.2
      rw [List.length_dropLast] at hlen
      exact hlt (ih m₂.1.length (by omega) hm₂.mem
        ((hshort.trans (List.dropLast_prefix _)).trans hat) rfl)
    · exact h'.first m hm pos (by omega) ((occurrence_append hearly).1 hat)

end

/-- Markers that do not disturb each other; only the positions matter where the
    markers stay in the frames. -/
def KeptApart (start : List Marker) : Bool → Prop
  | false => MarkersApart start
  | true => StartsApart start

instance (start : List Marker) : (markers : Bool) → Decidable (KeptApart start markers)
  | false => inferInstanceAs (Decidable (∀ m ∈ start,
      bestStart start m.1 = some (0, m.1.length) → bestStart start m.1.dropLast = none))
  | true => inferInstanceAs (Decidable (∀ m ∈ start,
      ∀ found ∈ bestStart start m.1.dropLast, found.1 = 0))

theorem KeptApart.stable {start : List Marker} {markers : Bool} (h : KeptApart start markers) :
    StartStable start markers := by
  intro buf body t he
  simp only [enterFrame, Bool.false_eq_true, if_false, Option.map_eq_some_iff] at he ⊢
  obtain ⟨⟨pos', len'⟩, hbest, rfl⟩ := he
  obtain ⟨m', hm', rfl⟩ := exists_chosen hbest
  have hend := occurrence_le hm'.found m'.2
  have hgrow := (occurrence_append (t := t) hend).2 hm'.found
  obtain ⟨pos, m, hm, -⟩ := chosen_of_found hm'.mem hgrow
  refine ⟨(pos, m.1.length), bestStart_eq_some.2 ⟨m, hm, rfl⟩, ?_⟩
  cases markers with
  | false =>
    obtain ⟨rfl, rfl⟩ := MarkersApart.chosen h hm hm'
    simp only [Bool.false_eq_true, if_false, List.drop_drop]
    rw [List.drop_append_of_le_length hend]
  | true =>
    have hle := StartsApart.le h hm' hm.mem hm.found
    obtain rfl := Nat.le_antisymm (hm.le hm') hle
    simp only [if_true]
    rw [List.drop_append_of_le_length (by omega)]

/-! ## Markers apart: all chunkings agree -/

namespace FrameDecoder

section
variable {start : List Marker} {fin : Marker} {markers : Bool} {d : FrameDecoder}

/-- The states of a start/end decoder. -/
def StartEndReady (start : List Marker) (fin : Marker) (markers : Bool) (d : FrameDecoder) :
    Prop :=
  (∃ inFrame, d.mode = .startEnd start fin markers inFrame) ∧ d.NoFatal

theorem startEnd_extracts (h : StartEndReady start fin markers d) : d.Extracts := by
  obtain ⟨⟨inFrame, hmode⟩, -⟩ := h
  exact ⟨by simp [hmode, DecoderMode.frameType], by simp [hmode, DecoderMode.frameType]⟩

theorem startEndReady_next (h : StartEndReady start fin markers d) :
    StartEndReady start fin markers d.next.2 := by
  rw [next_of_extracts (startEnd_extracts h)]
  obtain ⟨⟨inFrame, hmode⟩, hfatal⟩ := h
  have hx : ∃ inFrame₁, (extract d.includeTerminators d.mode d.buf).2.1 =
      .startEnd start fin markers inFrame₁ := by
    rw [hmode]
    exact ⟨_, rfl⟩
  rcases hf : (extract d.includeTerminators d.mode d.buf).1 with _ | frame
  · simp only [nextFrame, hf]
    exact ⟨hx, hfatal⟩
  · simp only [nextFrame, hf]
    exact ⟨hx, hfatal⟩

theorem startEndReady_lawful (hapart : KeptApart start markers) :
    extractor.Lawful fun d _ => StartEndReady start fin markers d := by
  refine extractor_lawful (fun h => h) (fun {d t} h => ?_) startEndReady_next
  obtain ⟨⟨inFrame, hmode⟩, -⟩ := h
  rw [hmode]
  exact startEnd_splits hapart.stable fin _ _ _ _

theorem startEndReady_ok (h : StartEndReady start fin markers d) :
    (decoder.settle d).2.1 = none :=
  settle_noFatal (Q := StartEndReady start fin markers)
    (fun h => ⟨startEnd_extracts h, h.2, startEndReady_next h⟩) h

theorem bestStart_nil (start : List Marker) : bestStart start [] = none := by
  rw [bestStart_eq_none]
  intro m _
  rw [findSubsequence_eq_none m.2]
  intro j hj
  have hle := occurrence_le hj m.2
  have hpos := List.length_pos_iff.mpr m.2
  simp only [List.length_nil] at hle
  omega

theorem startEnd_pushAll_congr (hapart : KeptApart start markers) (hbuf : d.buf = [])
    (hmode : d.mode = .startEnd start fin markers false) (hfatal : d.NoFatal)
    {cs cs' : List Bytes} (hcs : cs.flatten = cs'.flatten) :
    decoder.pushAll d cs = decoder.pushAll d cs' := by
  have hrest : decoder.settle d = (1, none, d) := by
    obtain ⟨buf, mode, count, inc, skip, parser⟩ := d
    obtain rfl : buf = [] := hbuf
    obtain rfl : mode = .startEnd start fin markers false := hmode
    have hx : extract inc (.startEnd start fin markers false) [] =
        (none, .startEnd start fin markers false, []) := by
      simp [extract, extractStartEnd, enterFrame, bestStart_nil]
    refine settle_wait ?_
    simp only [next, nextFrame, hx]
  exact (startEndReady_lawful hapart).decoder.pushAll_congr startEndReady_ok hrest
    (P := fun d _ => StartEndReady start fin markers d) ⟨⟨false, hmode⟩, hfatal⟩ hcs

end

/-! ## Markers not apart: two chunkings differ -/

section
variable {start : List Marker} {fin m : Marker} {markers inc inFrame : Bool}
  {buf body s u t : Bytes} {a b i j pos : ℕ}

/-- Searches from two places that find something at the same distance have
    found two occurrences, one of them between the places. -/
theorem find_apart (hab : a < b) (hi : findSubsequence (s.drop a) fin.1 = some i)
    (hfar : b ≤ i) : findSubsequence (s.drop b) fin.1 ≠ some i := by
  intro hj
  obtain ⟨hat, -⟩ := (findSubsequence_eq_some fin.2).1 hi
  obtain ⟨-, hfirst⟩ := (findSubsequence_eq_some fin.2).1 hj
  refine hfirst (i - (b - a)) (by omega) ?_
  rw [List.drop_drop] at hat ⊢
  rwa [show b + (i - (b - a)) = a + i by omega]

theorem extract_startEnd (inc : Bool) (he : enterFrame start markers inFrame buf = some body)
    (hf : findSubsequence body fin.1 = some pos) :
    ∃ data mode₁ rest, extract inc (.startEnd start fin markers inFrame) buf =
      (some data, mode₁, rest) ∧ data.length = if markers then pos + fin.1.length else pos := by
  have hle := findSubsequence_le fin.2 hf
  refine ⟨_, _, _, by simp only [extract, extractStartEnd, he, hf]; rfl, ?_⟩
  rw [List.length_take]
  split <;> omega

/-- A decoder that has chosen its start in the first of two chunks. -/
theorem received_split (inc : Bool) (hin : enterFrame start markers false u = some (u.drop a))
    (ha : a ≤ u.length) (hf : findSubsequence ((u ++ t).drop a) fin.1 = some i) :
    ∃ data, ((plain (.startEnd start fin markers false) inc false [] 0).received [u, t]).head? =
      some data ∧ data.length = if markers then i + fin.1.length else i := by
  have hx (inFrame : Bool) (buf : Bytes) :
      (plain (.startEnd start fin markers inFrame) inc false buf 0).Extracts :=
    plain_extracts (by simp [DecoderMode.frameType])
  rw [List.drop_append_of_le_length ha] at hf
  rcases hfound : findSubsequence (u.drop a) fin.1 with _ | e
  · -- the end marker comes with the second chunk
    have hwait : extract inc (.startEnd start fin markers false) u =
        (none, .startEnd start fin markers true, u.drop a) := by
      simp only [extract, extractStartEnd, hin, hfound]
    have hin' : enterFrame start markers true (u.drop a ++ t) = some (u.drop a ++ t) := rfl
    obtain ⟨data, mode₁, rest, hdata, hlen⟩ := extract_startEnd inc hin' hf
    refine ⟨data, ?_, hlen⟩
    rw [received_wait [] (hx _ _) hwait]
    exact received_first _ (hx _ _) hdata []
  · have hsame := findSubsequence_append (t := t) fin.2 hfound
    rw [hf] at hsame
    obtain rfl := Option.some.inj hsame
    obtain ⟨data, mode₁, rest, hdata, hlen⟩ := extract_startEnd inc hin hfound
    exact ⟨data, received_first [] (hx _ _) hdata [t], hlen⟩

/-- Starts at different places give first frames of different lengths. -/
theorem received_differ (hin : enterFrame start markers false u = some (u.drop a))
    (ha : a ≤ u.length) (hin' : enterFrame start markers false (u ++ t) = some ((u ++ t).drop b))
    (hi : findSubsequence ((u ++ t).drop a) fin.1 = some i)
    (hj : findSubsequence ((u ++ t).drop b) fin.1 = some j) (hne : i ≠ j) :
    (plain (.startEnd start fin markers false) inc false [] 0).received [u, t] ≠
      (plain (.startEnd start fin markers false) inc false [] 0).received [u ++ t] := by
  intro heq
  have hx : (plain (.startEnd start fin markers false) inc false (u ++ t) 0).Extracts :=
    plain_extracts (by simp [DecoderMode.frameType])
  obtain ⟨data, hsplit, hlen⟩ := received_split inc hin ha hi
  obtain ⟨data', mode₁, rest, hdata, hlen'⟩ := extract_startEnd inc hin' hj
  have hwhole := received_first (s := u ++ t) [] hx hdata []
  rw [heq, hwhole] at hsplit
  obtain rfl := Option.some.inj hsplit
  rw [hlen'] at hlen
  rcases markers with _ | _
  · simp only [Bool.false_eq_true, if_false] at hlen
    omega
  · simp only [if_true] at hlen
    omega

/-- Bytes behind `m` in which no end marker ends before its very end. -/
def delayed (start : List Marker) (fin : Marker) : Bytes :=
  List.replicate (2 * (keepLen start + 1) + fin.1.length) (fin.1.getLast fin.2 + 1) ++ fin.1

theorem delayed_end (hat : fin.1 <+: (u ++ delayed start fin).drop pos)
    (hend : u.length < pos + fin.1.length) :
    u.length + 2 * (keepLen start + 1) < pos := by
  by_contra hle
  have hpos := List.length_pos_iff.mpr fin.2
  -- the last byte of the marker would be one of the delay
  have hlast : (u ++ delayed start fin)[pos + (fin.1.length - 1)]? =
      some (fin.1.getLast fin.2) := by
    obtain ⟨r, hr⟩ := hat
    rw [← List.getElem?_drop, ← hr, List.getElem?_append_left (by omega),
      List.getLast_eq_getElem, List.getElem?_eq_getElem]
  have hdelay : (u ++ delayed start fin)[pos + (fin.1.length - 1)]? =
      some (fin.1.getLast fin.2 + 1) := by
    rw [List.getElem?_append_right (by omega), delayed,
      List.getElem?_append_left (by rw [List.length_replicate]; omega),
      List.getElem?_replicate_of_lt (by omega)]
  rw [hlast] at hdelay
  have hne : ∀ x : UInt8, x ≠ x + 1 := by
    intro x hx
    have := congrArg UInt8.toNat hx
    rw [UInt8.toNat_add] at this
    have hlt := x.toNat_lt
    simp only [UInt8.reduceToNat] at this
    omega
  exact hne _ (Option.some.inj hdelay)

theorem delayed_found (ha : a ≤ u.length + (2 * (keepLen start + 1) + fin.1.length)) :
    ∃ i, findSubsequence ((u ++ delayed start fin).drop a) fin.1 = some i := by
  rcases h : findSubsequence ((u ++ delayed start fin).drop a) fin.1 with _ | i
  · rw [findSubsequence_eq_none fin.2] at h
    refine absurd ?_ (h (u.length + (2 * (keepLen start + 1) + fin.1.length) - a))
    have hdrop : (u ++ delayed start fin).drop
        (u.length + (2 * (keepLen start + 1) + fin.1.length)) = fin.1 := by
      rw [List.drop_append, List.drop_of_length_le (by omega), List.nil_append,
        Nat.add_sub_cancel_left, delayed, List.drop_left' (by simp)]
    rw [List.drop_drop, Nat.add_sub_cancel' ha, hdrop]
  · exact ⟨i, rfl⟩

/-- All but the last byte of `m`, then the rest, against all at once. -/
theorem received_differ_last (inc : Bool) (m : Marker)
    (hin : enterFrame start markers false m.1.dropLast = some (m.1.dropLast.drop a))
    (ha : a ≤ m.1.dropLast.length)
    (hin' : enterFrame start markers false (m.1 ++ delayed start fin) =
      some ((m.1 ++ delayed start fin).drop b)) (hb : b ≤ keepLen start + 1)
    (hfar : ∀ i, findSubsequence ((m.1 ++ delayed start fin).drop a) fin.1 = some i →
      findSubsequence ((m.1 ++ delayed start fin).drop b) fin.1 ≠ some i) :
    ∃ u t, (plain (.startEnd start fin markers false) inc false [] 0).received [u, t] ≠
      (plain (.startEnd start fin markers false) inc false [] 0).received [u ++ t] := by
  have hlast : m.1.dropLast ++ ([m.1.getLast m.2] ++ delayed start fin) =
      m.1 ++ delayed start fin := by
    rw [← List.append_assoc, List.dropLast_append_getLast]
  have hle := ha
  rw [List.length_dropLast] at hle
  have hfound (k : ℕ) (hk : k ≤ m.1.length + (2 * (keepLen start + 1) + fin.1.length)) :
      ∃ i, findSubsequence ((m.1 ++ delayed start fin).drop k) fin.1 = some i := delayed_found hk
  obtain ⟨i, hi⟩ := hfound a (by omega)
  obtain ⟨j, hj⟩ := hfound b (by omega)
  have hne : i ≠ j := by
    rintro rfl
    exact hfar i hi hj
  rw [← hlast] at hin' hi hj
  exact ⟨_, _, received_differ hin ha hin' hi hj hne⟩

/-- A marker that ends inside one that can be chosen is chosen too early. -/
theorem exists_received_ne (inc : Bool) (hm : m ∈ start)
    (hself : bestStart start m.1 = some (0, m.1.length))
    (hsome : bestStart start m.1.dropLast ≠ none) :
    ∃ u t, (plain (.startEnd start fin false false) inc false [] 0).received [u, t] ≠
      (plain (.startEnd start fin false false) inc false [] 0).received [u ++ t] := by
  obtain ⟨⟨p, l⟩, hbest⟩ := Option.ne_none_iff_exists'.1 hsome
  obtain ⟨m', hm', rfl⟩ := exists_chosen hbest
  have hend := occurrence_le hm'.found m'.2
  -- at once, the marker that is chosen is at least as long as `m`
  have hfront : m.1 <+: (m.1 ++ delayed start fin).drop 0 := List.prefix_append ..
  obtain ⟨p₁, m₁, hm₁, hp₁⟩ := chosen_of_found hm hfront
  obtain rfl := Nat.le_zero.1 hp₁
  have hlong : m.1.length ≤ m₁.1.length := by
    by_contra hshort
    have hin := hm₁.of_append (by omega)
    rw [bestStart_eq_some.2 ⟨m₁, hin, rfl⟩] at hself
    simp only [Option.some.injEq, Prod.mk.injEq, true_and] at hself
    omega
  have hkeep := length_le_keepLen hm₁.mem
  refine received_differ_last (b := m₁.1.length) inc m (a := p + m'.1.length) ?_ hend ?_ (by omega) ?_
  · simp [enterFrame, hbest]
  · simp [enterFrame, bestStart_eq_some.2 ⟨m₁, hm₁, rfl⟩]
  · intro i hi hj
    rw [List.length_dropLast] at hend
    have hpos := List.length_pos_iff.mpr m.2
    have hpos' := List.length_pos_iff.mpr fin.2
    have hat := ((findSubsequence_eq_some fin.2).1 hj).1
    rw [List.drop_drop] at hat
    have hfar := delayed_end hat (by omega)
    exact find_apart (by omega) hi (by omega) hj

/-- With markers in the frames, a marker inside one that starts earlier is
    chosen too early. -/
theorem exists_received_ne_markers {l : ℕ} (inc : Bool) (hm : m ∈ start)
    (hfin : findSubsequence m.1 fin.1 = none)
    (hbest : bestStart start m.1.dropLast = some (pos, l)) (hpos : pos ≠ 0) :
    ∃ u t, (plain (.startEnd start fin true false) inc false [] 0).received [u, t] ≠
      (plain (.startEnd start fin true false) inc false [] 0).received [u ++ t] := by
  obtain ⟨m', hm', rfl⟩ := exists_chosen hbest
  have hend := occurrence_le hm'.found m'.2
  have hfront : m.1 <+: (m.1 ++ delayed start fin).drop 0 := List.prefix_append ..
  obtain ⟨p₁, m₁, hm₁, hp₁⟩ := chosen_of_found hm hfront
  obtain rfl := Nat.le_zero.1 hp₁
  refine received_differ_last (b := 0) inc m (a := pos) ?_ (by omega) ?_ (by omega) ?_
  · simp [enterFrame, hbest]
  · simp [enterFrame, bestStart_eq_some.2 ⟨m₁, hm₁, rfl⟩]
  · intro i hi hj
    refine find_apart (by omega) hj ?_ hi
    rw [List.length_dropLast] at hend
    have hat : fin.1 <+: (m.1 ++ delayed start fin).drop i :=
      ((findSubsequence_eq_some fin.2).1 hj).1
    rcases Nat.lt_or_ge m.1.length (i + fin.1.length) with hbehind | hinside
    · have hfar := delayed_end hat hbehind
      omega
    · exact absurd ((occurrence_append hinside).1 hat) ((findSubsequence_eq_none fin.2).1 hfin i)

end

theorem keptApart_of_received {start : List Marker} {fin : Marker} {markers : Bool} (inc : Bool)
    (hfin : markers = true → ∀ m ∈ start, findSubsequence m.1 fin.1 = none)
    (h : ∀ u t, (plain (.startEnd start fin markers false) inc false [] 0).received [u, t] =
      (plain (.startEnd start fin markers false) inc false [] 0).received [u ++ t]) :
    KeptApart start markers := by
  cases markers with
  | false =>
    intro m hm hself
    by_contra hsome
    obtain ⟨u, t, hne⟩ := exists_received_ne inc hm hself hsome
    exact hne (h u t)
  | true =>
    rintro m hm ⟨pos, len⟩ hbest
    by_contra hpos
    obtain ⟨u, t, hne⟩ := exists_received_ne_markers inc hm (hfin rfl m hm) hbest hpos
    exact hne (h u t)

/-- **Several start markers.** In every buffer the start marker that begins
    first is taken, and on equal offsets the first of the list.  If the markers
    are apart, every chunking gives the frames of a single push.  Without a
    parser and with blank frames kept this is needed, too; with markers in the
    frames as long as no start marker holds the end marker. -/
theorem startEnd_invariant {crates : Crates} {config : RxFramingConfig}
    {pc : Option ParserConfig} {d : FrameDecoder} {start : List Marker} {fin : Marker}
    {markers : Bool} (hnew : new crates config pc = .ok d)
    (hmode : d.mode = .startEnd start fin markers false) :
    (∀ buf pos len, bestStart start buf = some (pos, len) ↔
      ∃ m, Chosen start buf pos m ∧ m.1.length = len) ∧
    (KeptApart start markers → ∀ cs : List Bytes,
      (decoder.pushAll d cs).1.frames = (decoder.pushAll d [cs.flatten]).1.frames) ∧
    (pc = none → config.skipEmpty = false →
      (markers = true → ∀ m ∈ start, findSubsequence m.1 fin.1 = none) →
      ((∀ cs : List Bytes,
        (decoder.pushAll d cs).1.frames = (decoder.pushAll d [cs.flatten]).1.frames) ↔
        KeptApart start markers)) := by
  have hinvariant : KeptApart start markers → ∀ cs : List Bytes,
      (decoder.pushAll d cs).1.frames = (decoder.pushAll d [cs.flatten]).1.frames := by
    intro hapart cs
    have hone : cs.flatten = [cs.flatten].flatten := by simp
    rw [startEnd_pushAll_congr hapart (new_fresh hnew).buf hmode (new_noFatal hnew) hone]
  refine ⟨fun buf pos len => bestStart_eq_some, hinvariant, ?_⟩
  rintro rfl hskip hfin
  refine ⟨fun h => ?_, hinvariant⟩
  have hd := hnew
  rw [new_plain (new_fresh hnew).mode, hmode, hskip] at hd
  obtain rfl := Except.ok.inj hd
  refine keptApart_of_received config.includeTerminators hfin fun u t => ?_
  have hframes := h [u, t]
  rw [show [u, t].flatten = u ++ t by simp] at hframes
  rw [received, hframes, received]

/-- Two kinds of sentences, and two markers one of which ends inside the other. -/
theorem startEnd_invariant_sentences :
    (∃ d, new .refusing ⟨.startEnd ["$", "!"] "\r\n" .utf8 false, none, false, false⟩ none = .ok d ∧
      (decoder.pushAll d [[33, 80], [36, 13], [10, 36]]).1.frames =
        (decoder.pushAll d [[33, 80, 36, 13, 10, 36]]).1.frames) ∧
    ∃ d, new .refusing ⟨.startEnd ["abc", "b"] "\n" .utf8 false, none, false, false⟩ none = .ok d ∧
      ¬ ∀ cs : List Bytes,
        (decoder.pushAll d cs).1.frames = (decoder.pushAll d [cs.flatten]).1.frames := by
  constructor
  · obtain ⟨d, hd, start, fin, hmode, hapart⟩ : ∃ d, new .refusing
        ⟨.startEnd ["$", "!"] "\r\n" .utf8 false, none, false, false⟩ none = .ok d ∧
        ∃ start fin, d.mode = .startEnd start fin false false ∧ KeptApart start false :=
      ⟨_, rfl, _, _, rfl, by decide⟩
    exact ⟨d, hd, (startEnd_invariant hd hmode).2.1 hapart [[33, 80], [36, 13], [10, 36]]⟩
  · obtain ⟨d, hd, start, fin, hmode, hapart⟩ : ∃ d, new .refusing
        ⟨.startEnd ["abc", "b"] "\n" .utf8 false, none, false, false⟩ none = .ok d ∧
        ∃ start fin, d.mode = .startEnd start fin false false ∧ ¬ KeptApart start false :=
      ⟨_, rfl, _, _, rfl, by decide⟩
    refine ⟨d, hd, fun h => hapart ?_⟩
    refine ((startEnd_invariant hd hmode).2.2 rfl rfl ?_).1 h
    intro hmarkers
    cases hmarkers

/-- The markers `abc` and `b`: with `ab` in a chunk of its own, `b` is taken
    although `abc` starts earlier. -/
theorem startEnd_not_invariant : ¬ ∀ (crates : Crates) (config : RxFramingConfig)
    (pc : Option ParserConfig) (d : FrameDecoder) (start : List Marker) (fin : Marker)
    (markers : Bool), new crates config pc = .ok d →
      d.mode = .startEnd start fin markers false → ∀ cs : List Bytes,
        (decoder.pushAll d cs).1.frames = (decoder.pushAll d [cs.flatten]).1.frames := by
  intro h
  have hframes := h .refusing ⟨.startEnd ["abc", "b"] "\n" .utf8 false, none, false, false⟩ none
    _ _ _ _ rfl rfl [[97, 98], [99, 88, 10]]
  have hdata := congrArg (List.map Frame.data) hframes
  revert hdata
  decide

end FrameDecoder

end SerialMcp
