/-
  Start/end framing with `include_markers`, against the same without.

  With the markers kept, the end marker is sought in a buffer that still begins
  with the start marker.  Where it begins there the frame ends too early, and the
  rest of the stream is cut at other places.

  * `Started s e buf rest`: without markers, a frame of `buf` starts before `rest`;
  * `MarkersAside`: no end marker begins in a start marker, and frames are skipped
    and dropped alike with and without their markers;
  * `includeMarkers_iff`: under it the markers are all that `include_markers` adds;
    otherwise something else changes, or a frame that ends too early is not shown.
-/
import SerialMcp.Framing.Markers

namespace SerialMcp

open Incremental FrameDecoder

namespace KeptMarkers

/-- Without markers, a frame of `buf` starts before `rest`. -/
inductive Started (s e : Marker) : Bytes → Bytes → Prop
  | first {buf p} : findSubsequence buf s.1 = some p → Started s e buf (buf.drop (p + s.1.length))
  | later {buf p i rest} : findSubsequence buf s.1 = some p →
      findSubsequence (buf.drop (p + s.1.length)) e.1 = some i →
      Started s e ((buf.drop (p + s.1.length)).drop (i + e.1.length)) rest → Started s e buf rest

/-- A frame with its markers. -/
def wrap (s e : Marker) (body : Bytes) : Bytes := s.1 ++ body ++ e.1

/-- The markers do not get into each other's way. -/
structure MarkersAside (skip : Bool) (parser : Option FrameParser) (s e : Marker) (buf : Bytes) :
    Prop where
  /-- no end marker begins in a start marker -/
  apart : ∀ rest, Started s e buf rest → ∀ q < s.1.length, ¬ e.1 <+: (s.1 ++ rest).drop q
  /-- frames are shown with their markers exactly if they are shown without -/
  alike : ∀ rest i, Started s e buf rest → findSubsequence rest e.1 = some i →
    shows skip parser (wrap s e (rest.take i)) = shows skip parser (rest.take i)

/-- Frames that end in their start markers are shown, too. -/
def ShortShown (skip : Bool) (parser : Option FrameParser) (s e : Marker) (buf : Bytes) : Prop :=
  ∀ rest q, Started s e buf rest → q < s.1.length →
    findSubsequence (s.1 ++ rest) e.1 = some q →
    shows skip parser ((s.1 ++ rest).take (q + e.1.length)) = true

section
variable {skip : Bool} {parser : Option FrameParser} {s e : Marker} {buf rest : Bytes} {p i : ℕ}

theorem wrap_injective : Function.Injective (wrap s e) := by
  intro a b h
  exact List.append_cancel_left (List.append_cancel_right h)

theorem not_started (h : findSubsequence buf s.1 = none) : ¬ Started s e buf rest := by
  intro hr
  cases hr with
  | first hp =>
    rw [h] at hp
    cases hp
  | later hp =>
    rw [h] at hp
    cases hp

/-- The first frame, or one behind it. -/
theorem started_iff (hp : findSubsequence buf s.1 = some p) : Started s e buf rest ↔
    rest = buf.drop (p + s.1.length) ∨ ∃ i,
      findSubsequence (buf.drop (p + s.1.length)) e.1 = some i ∧
      Started s e ((buf.drop (p + s.1.length)).drop (i + e.1.length)) rest := by
  constructor
  · intro h
    cases h with
    | first hp' =>
      rw [hp] at hp'
      cases hp'
      exact .inl rfl
    | later hp' hi hrest =>
      rw [hp] at hp'
      cases hp'
      exact .inr ⟨_, hi, hrest⟩
  · rintro (rfl | ⟨i, hi, hrest⟩)
    · exact .first hp
    · exact .later hp hi hrest

/-- What follows the frame is aside, if the whole is. -/
theorem MarkersAside.behind (h : MarkersAside skip parser s e buf)
    (hp : findSubsequence buf s.1 = some p)
    (hi : findSubsequence (buf.drop (p + s.1.length)) e.1 = some i) :
    MarkersAside skip parser s e ((buf.drop (p + s.1.length)).drop (i + e.1.length)) :=
  ⟨fun rest hrest => h.apart rest (.later hp hi hrest),
    fun rest j hrest => h.alike rest j (.later hp hi hrest)⟩

theorem ShortShown.behind (h : ShortShown skip parser s e buf)
    (hp : findSubsequence buf s.1 = some p)
    (hi : findSubsequence (buf.drop (p + s.1.length)) e.1 = some i) :
    ShortShown skip parser s e ((buf.drop (p + s.1.length)).drop (i + e.1.length)) :=
  fun rest q hrest => h rest q (.later hp hi hrest)

/-! ## One frame -/

/-- A decoder between two frames. -/
def atStart (inc skip : Bool) (parser : Option FrameParser) (s e : Marker) (markers : Bool)
    (buf : Bytes) (count : ℕ) : FrameDecoder :=
  ⟨buf, .startEnd [s] e markers false, count, inc, skip, parser⟩

/-- The frames that it gives. -/
def shown (inc skip : Bool) (parser : Option FrameParser) (s e : Marker) (markers : Bool)
    (buf : Bytes) (count : ℕ) : List Bytes :=
  (decoder.settle (atStart inc skip parser s e markers buf count)).1.frames.map Frame.data

/-- The bytes in which the end marker is sought. -/
def inside (s : Marker) (markers : Bool) (rest : Bytes) : Bytes :=
  if markers then s.1 ++ rest else rest

variable (inc markers : Bool)

theorem atStart_extracts (buf : Bytes) (count : ℕ) :
    (atStart inc skip parser s e markers buf count).Extracts := by
  simp [Extracts, atStart, DecoderMode.frameType]

theorem shown_none (hs : findSubsequence buf s.1 = none) (count : ℕ) :
    shown inc skip parser s e markers buf count = [] := by
  refine settled_nil (atStart_extracts inc markers buf count) ?_
  simp [extract, extractStartEnd, enterFrame, bestStart_singleton, atStart, hs]

/-- The end marker is sought behind the start marker, or from its first byte on. -/
theorem enterFrame_inside (hs : findSubsequence buf s.1 = some p) :
    enterFrame [s] markers false buf = some (inside s markers (buf.drop (p + s.1.length))) := by
  obtain ⟨rest, hrest⟩ := ((findSubsequence_eq_some s.2).1 hs).1
  have hdrop : buf.drop (p + s.1.length) = rest := by
    rw [← List.drop_drop, ← hrest, List.drop_left]
  rw [hdrop]
  cases markers
  · simp [enterFrame, bestStart_singleton, hs, inside, hdrop]
  · simp [enterFrame, bestStart_singleton, hs, inside, hrest]

theorem shown_waiting (hs : findSubsequence buf s.1 = some p)
    (he : findSubsequence (inside s markers (buf.drop (p + s.1.length))) e.1 = none) (count : ℕ) :
    shown inc skip parser s e markers buf count = [] := by
  refine settled_nil (atStart_extracts inc markers buf count) ?_
  simp only [atStart, extract, extractStartEnd, enterFrame_inside markers hs, he]

variable (skip) in
theorem shown_frame (hparser : ∀ p ∈ parser, ∃ validate, ChecksumErrors validate p)
    (hs : findSubsequence buf s.1 = some p)
    (he : findSubsequence (inside s markers (buf.drop (p + s.1.length))) e.1 = some i) (count : ℕ) :
    ∃ n, shown inc skip parser s e markers buf count =
      shownFrame skip parser ((inside s markers (buf.drop (p + s.1.length))).take
        (if markers then i + e.1.length else i)) ++
      shown inc skip parser s e markers
        ((inside s markers (buf.drop (p + s.1.length))).drop (i + e.1.length)) n := by
  obtain ⟨o, n, hemit, ho⟩ := emitFrame_shows skip hparser count .startEnd
    ((inside s markers (buf.drop (p + s.1.length))).take (if markers then i + e.1.length else i))
  have hnext : (atStart inc skip parser s e markers buf count).next = (some (o, none),
      atStart inc skip parser s e markers
        ((inside s markers (buf.drop (p + s.1.length))).drop (i + e.1.length)) n) := by
    simp only [next, atStart, nextFrame, extract, extractStartEnd, enterFrame_inside markers hs, he,
      DecoderMode.frameType, hemit]
  refine ⟨n, ?_⟩
  rw [← ho, shown, settle_event hnext]
  exact List.map_append

/-! ## A stream -/

variable {inc markers}

theorem behind_length (hs : findSubsequence buf s.1 = some p) (markers : Bool) :
    ((inside s markers (buf.drop (p + s.1.length))).drop (i + e.1.length)).length < buf.length := by
  have hle := findSubsequence_le s.2 hs
  have hpos := List.length_pos_iff.mpr s.2
  have hpos' := List.length_pos_iff.mpr e.2
  cases markers
  · simp only [inside, Bool.false_eq_true, if_false, List.length_drop]
    omega
  · simp only [inside, if_true, List.length_drop, List.length_append]
    omega

theorem shows_of_mem (hparser : ∀ p ∈ parser, ∃ validate, ChecksumErrors validate p) {data : Bytes}
    {count : ℕ} (h : data ∈ shown inc skip parser s e markers buf count) :
    shows skip parser data = true := by
  -- on the length of the buffer: what follows a frame is shorter
  induction hn : buf.length using Nat.strong_induction_on generalizing buf count with
  | _ n ih =>
    subst hn
    rcases hs : findSubsequence buf s.1 with _ | p
    · rw [shown_none _ _ hs] at h
      cases h
    rcases he : findSubsequence (inside s markers (buf.drop (p + s.1.length))) e.1 with _ | i
    · rw [shown_waiting _ _ hs he] at h
      cases h
    obtain ⟨n, hshown⟩ := shown_frame skip inc markers hparser hs he count
    rw [hshown, List.mem_append] at h
    rcases h with h | h
    · obtain ⟨rfl, hshows⟩ := eq_of_mem_shownFrame h
      exact hshows
    · exact ih _ (behind_length hs markers) h rfl

/-- Where no end marker begins in the start marker, it is found where it is found
    without the start marker. -/
theorem find_behind (h : ∀ q < s.1.length, ¬ e.1 <+: (s.1 ++ rest).drop q) :
    findSubsequence (inside s true rest) e.1 =
      (findSubsequence rest e.1).map (s.1.length + ·) := by
  rw [inside, if_pos rfl, findSubsequence_drop e.2 h, List.drop_left]

theorem take_found (hi : findSubsequence rest e.1 = some i) :
    (inside s true rest).take (s.1.length + i + e.1.length) = wrap s e (rest.take i) := by
  obtain ⟨t, ht⟩ := ((findSubsequence_eq_some e.2).1 hi).1
  have hbody : rest.take (i + e.1.length) = rest.take i ++ e.1 := by
    rw [List.take_add, ← ht, List.take_left]
  rw [inside, if_pos rfl, Nat.add_assoc, List.take_length_add_append, hbody, wrap,
    List.append_assoc]

variable (skip inc) in
/-- One frame, where the markers are aside: the same body, with and without them. -/
theorem shown_both (hparser : ∀ p ∈ parser, ∃ validate, ChecksumErrors validate p)
    (hs : findSubsequence buf s.1 = some p)
    (hapart : ∀ q < s.1.length, ¬ e.1 <+: (s.1 ++ buf.drop (p + s.1.length)).drop q)
    (hi : findSubsequence (buf.drop (p + s.1.length)) e.1 = some i) (count count' : ℕ) :
    ∃ n n',
      shown inc skip parser s e true buf count =
        shownFrame skip parser (wrap s e ((buf.drop (p + s.1.length)).take i)) ++
        shown inc skip parser s e true
          ((buf.drop (p + s.1.length)).drop (i + e.1.length)) n ∧
      shown inc skip parser s e false buf count' =
        shownFrame skip parser ((buf.drop (p + s.1.length)).take i) ++
        shown inc skip parser s e false
          ((buf.drop (p + s.1.length)).drop (i + e.1.length)) n' := by
  have hfind := find_behind hapart
  rw [hi, Option.map_some] at hfind
  obtain ⟨n, hkept⟩ := shown_frame skip inc true hparser hs hfind count
  obtain ⟨n', hbare⟩ := shown_frame skip inc false hparser hs hi count'
  refine ⟨n, n', ?_, hbare⟩
  have hdrop : (inside s true (buf.drop (p + s.1.length))).drop (s.1.length + i + e.1.length) =
      (buf.drop (p + s.1.length)).drop (i + e.1.length) := by
    rw [inside, if_pos rfl, Nat.add_assoc, List.drop_length_add_append]
  rw [hkept, if_pos rfl, take_found hi, hdrop]

variable (inc) in
theorem shown_of_aside (hparser : ∀ p ∈ parser, ∃ validate, ChecksumErrors validate p)
    (h : MarkersAside skip parser s e buf) (count count' : ℕ) :
    shown inc skip parser s e true buf count =
      (shown inc skip parser s e false buf count').map (wrap s e) := by
  induction hn : buf.length using Nat.strong_induction_on generalizing buf count count' with
  | _ n ih =>
    subst hn
    rcases hs : findSubsequence buf s.1 with _ | p
    · rw [shown_none _ _ hs, shown_none _ _ hs, List.map_nil]
    have hapart := h.apart _ (.first hs)
    rcases hi : findSubsequence (buf.drop (p + s.1.length)) e.1 with _ | i
    · have hfind := find_behind hapart
      rw [hi, Option.map_none] at hfind
      rw [shown_waiting inc true hs hfind, shown_waiting inc false hs hi, List.map_nil]
    · obtain ⟨n, n', hkept, hbare⟩ := shown_both skip inc hparser hs hapart hi count count'
      have hframe : shownFrame skip parser (wrap s e ((buf.drop (p + s.1.length)).take i)) =
          (shownFrame skip parser ((buf.drop (p + s.1.length)).take i)).map (wrap s e) := by
        rw [shownFrame, shownFrame, h.alike _ i (.first hs) hi]
        split_ifs <;> rfl
      rw [hkept, hbare, List.map_append, hframe,
        ih _ (behind_length hs false) (h.behind hs hi) n n' rfl]

/-- A frame that ends in its start marker is too short for both markers. -/
theorem apart_of_shown (hparser : ∀ p ∈ parser, ∃ validate, ChecksumErrors validate p)
    (hshort : ShortShown skip parser s e buf) (hs : findSubsequence buf s.1 = some p)
    {count count' : ℕ} (heq : shown inc skip parser s e true buf count =
      (shown inc skip parser s e false buf count').map (wrap s e)) :
    ∀ q < s.1.length, ¬ e.1 <+: (s.1 ++ buf.drop (p + s.1.length)).drop q := by
  intro q hq hat
  rcases hfind : findSubsequence (inside s true (buf.drop (p + s.1.length))) e.1 with _ | q₀
  · exact (findSubsequence_eq_none e.2).1 hfind q hat
  have hle : q₀ ≤ q := by
    by_contra hlt
    exact ((findSubsequence_eq_some e.2).1 hfind).2 q (by omega) hat
  obtain ⟨n, hkept⟩ := shown_frame skip inc true hparser hs hfind count
  have hshows := hshort _ q₀ (.first hs) (by omega) hfind
  rw [if_pos rfl, shownFrame, inside, if_pos rfl, if_pos hshows] at hkept
  have hmem : (s.1 ++ buf.drop (p + s.1.length)).take (q₀ + e.1.length) ∈
      (shown inc skip parser s e false buf count').map (wrap s e) := by
    rw [← heq, hkept]
    exact List.mem_cons_self
  obtain ⟨body, -, hbody⟩ := List.mem_map.1 hmem
  have hlen := congrArg List.length hbody
  simp only [wrap, List.length_append, List.length_take] at hlen
  omega

/-- A frame that is shown on one side only is missing on the other. -/
theorem alike_of_shown {body : Bytes} {kept bare : List Bytes}
    (hkept : ∀ data ∈ shownFrame skip parser (wrap s e body) ++ kept, shows skip parser data = true)
    (hbare : ∀ data ∈ shownFrame skip parser body ++ bare, shows skip parser data = true)
    (heq : shownFrame skip parser (wrap s e body) ++ kept =
      (shownFrame skip parser body ++ bare).map (wrap s e)) :
    shows skip parser (wrap s e body) = shows skip parser body ∧ kept = bare.map (wrap s e) := by
  rcases hw : shows skip parser (wrap s e body) with _ | _
  · rcases hb : shows skip parser body with _ | _
    · simp only [shownFrame, hw, hb, Bool.false_eq_true, if_false, List.nil_append] at heq
      exact ⟨rfl, heq⟩
    · have hmem : wrap s e body ∈ shownFrame skip parser (wrap s e body) ++ kept := by
        rw [heq]
        refine List.mem_map_of_mem ?_
        simp [shownFrame, hb]
      rw [hkept _ hmem] at hw
      cases hw
  · rcases hb : shows skip parser body with _ | _
    · have hmem : wrap s e body ∈ (shownFrame skip parser body ++ bare).map (wrap s e) := by
        rw [← heq]
        simp [shownFrame, hw]
      obtain ⟨body', hbody', hwrap⟩ := List.mem_map.1 hmem
      rw [← wrap_injective hwrap, hbare _ hbody'] at hb
      cases hb
    · simp only [shownFrame, hw, hb, if_true, List.cons_append, List.nil_append, List.map_cons,
        List.cons.injEq, true_and] at heq
      exact ⟨rfl, heq⟩

theorem aside_of_shown (hparser : ∀ p ∈ parser, ∃ validate, ChecksumErrors validate p)
    (hshort : ShortShown skip parser s e buf) {count count' : ℕ}
    (heq : shown inc skip parser s e true buf count =
      (shown inc skip parser s e false buf count').map (wrap s e)) :
    MarkersAside skip parser s e buf := by
  induction hn : buf.length using Nat.strong_induction_on generalizing buf count count' with
  | _ n ih =>
    subst hn
    rcases hs : findSubsequence buf s.1 with _ | p
    · exact ⟨fun rest h => absurd h (not_started hs), fun rest i h => absurd h (not_started hs)⟩
    have hapart := apart_of_shown hparser hshort hs heq
    rcases hi : findSubsequence (buf.drop (p + s.1.length)) e.1 with _ | i
    · -- the first frame is the last one
      have hrest {rest : Bytes} (h : Started s e buf rest) : rest = buf.drop (p + s.1.length) := by
        rcases (started_iff hs).1 h with h | ⟨i, hi', -⟩
        · exact h
        · rw [hi] at hi'
          cases hi'
      refine ⟨fun rest h => ?_, fun rest j h hj => ?_⟩
      · rwa [hrest h]
      · rw [hrest h, hi] at hj
        cases hj
    · obtain ⟨n, n', hkept, hbare⟩ :=
        shown_both skip inc hparser hs hapart hi count count'
      have hk : ∀ data ∈ shown inc skip parser s e true buf count,
          shows skip parser data = true := fun _ => shows_of_mem hparser
      have hb : ∀ data ∈ shown inc skip parser s e false buf count',
          shows skip parser data = true := fun _ => shows_of_mem hparser
      rw [hkept] at hk heq
      rw [hbare] at hb heq
      obtain ⟨halike, hbehind⟩ := alike_of_shown hk hb heq
      have haside := ih _ (behind_length hs false) (hshort.behind hs hi) hbehind rfl
      refine ⟨fun rest h => ?_, fun rest j h hj => ?_⟩
      · rcases (started_iff hs).1 h with rfl | ⟨i', hi', h⟩
        · exact hapart
        · rw [hi] at hi'
          cases hi'
          exact haside.apart rest h
      · rcases (started_iff hs).1 h with rfl | ⟨i', hi', h⟩
        · rw [hi] at hj
          cases hj
          exact halike
        · rw [hi] at hi'
          cases hi'
          exact haside.alike rest j h hj

theorem ShortShown.of_aside (h : MarkersAside skip parser s e buf) :
    ShortShown skip parser s e buf := fun rest q hrest hq hfind =>
  absurd ((findSubsequence_eq_some e.2).1 hfind).1 (h.apart rest hrest q hq)

/-! ## Chunks -/

theorem keptApart_singleton (s : Marker) (markers : Bool) : KeptApart [s] markers := by
  have hnone : bestStart [s] s.1.dropLast = none := by
    rw [bestStart_eq_none]
    intro m hm
    rw [List.mem_singleton.1 hm, findSubsequence_eq_none s.2]
    intro j hj
    have hle := occurrence_le hj s.2
    have hpos := List.length_pos_iff.mpr s.2
    rw [List.length_dropLast] at hle
    omega
  cases markers
  · intro m hm _
    rwa [List.mem_singleton.1 hm]
  · intro m hm found hfound
    rw [List.mem_singleton.1 hm, hnone] at hfound
    cases hfound

/-- The markers of a configuration do not depend on whether they are kept. -/
theorem exists_markers {crates : Crates} {start fin : String} {enc : PatternEncoding}
    {mode : DecoderMode}
    (h : newMode crates (.startEnd [start] fin enc false) = .ok mode) :
    ∃ s e : Marker, ∀ markers,
      newMode crates (.startEnd [start] fin enc markers) = .ok (.startEnd [s] e markers false) := by
  simp only [newMode, List.cons_ne_nil, if_false] at h ⊢
  rcases hms : decodeMarkers crates enc [start] with x | ms
  · rw [hms] at h
    cases h
  obtain ⟨s, rfl⟩ := List.length_eq_one_iff.1 (decodeMarkers_length hms)
  rw [hms] at h
  rcases he : decodeMarker crates enc fin "Invalid end marker encoding: "
      "Start and end markers must not be empty" with x | e
  · rw [he] at h
    cases h
  · exact ⟨s, e, fun markers => rfl⟩

/-- The frames of a new decoder, for any chunks. -/
theorem received_eq {d : FrameDecoder} (hbuf : d.buf = [])
    (hmode : d.mode = .startEnd [s] e markers false) (hfatal : d.NoFatal) (cs : List Bytes) :
    d.received cs =
      shown d.includeTerminators d.skipEmpty d.parser s e markers cs.flatten d.frameCount := by
  have hone : cs.flatten = [cs.flatten].flatten := by simp
  rw [received, startEnd_pushAll_congr (keptApart_singleton s markers) hbuf hmode hfatal hone]
  obtain ⟨buf, mode, count, inc, skip, parser⟩ := d
  obtain rfl : buf = [] := hbuf
  obtain rfl : mode = _ := hmode
  rw [Decoder.pushAll, Decoder.pushAll, mul_one]
  rfl

end

end KeptMarkers

namespace FrameDecoder

open KeptMarkers

/-- **The markers are all that `include_markers` adds**, if no end marker begins in
    a start marker and frames are skipped and dropped alike with their markers.
    This is needed, too, unless a frame that ends too early is skipped or dropped;
    without a parser and with blank frames kept, where the end markers begin is all
    that matters. -/
theorem includeMarkers_iff {crates : Crates} {config : RxFramingConfig} {pc : Option ParserConfig}
    {start fin : String} {enc : PatternEncoding} {bare kept : FrameDecoder}
    (hbare : new crates { config with mode := .startEnd [start] fin enc false } pc = .ok bare)
    (hkept : new crates { config with mode := .startEnd [start] fin enc true } pc = .ok kept) :
    ∃ s e : Marker, bare.mode = .startEnd [s] e false false ∧
      kept.mode = .startEnd [s] e true false ∧ ∀ cs : List Bytes,
        (MarkersAside config.skipEmpty bare.parser s e cs.flatten →
          kept.received cs = (bare.received cs).map (wrap s e)) ∧
        (ShortShown config.skipEmpty bare.parser s e cs.flatten →
          kept.received cs = (bare.received cs).map (wrap s e) →
          MarkersAside config.skipEmpty bare.parser s e cs.flatten) ∧
        (pc = none → config.skipEmpty = false →
          (kept.received cs = (bare.received cs).map (wrap s e) ↔
            ∀ rest, Started s e cs.flatten rest → ∀ q < s.1.length,
              ¬ e.1 <+: (s.1 ++ rest).drop q)) := by
  have hb := new_fresh hbare
  have hk := new_fresh hkept
  obtain ⟨s, e, hmarkers⟩ := exists_markers hb.mode
  have hbmode : bare.mode = .startEnd [s] e false false :=
    Except.ok.inj (hb.mode.symm.trans (hmarkers false))
  have hkmode : kept.mode = .startEnd [s] e true false :=
    Except.ok.inj (hk.mode.symm.trans (hmarkers true))
  have hparser : kept.parser = bare.parser := Except.ok.inj (hk.parser.symm.trans hb.parser)
  refine ⟨s, e, hbmode, hkmode, fun cs => ?_⟩
  have hfatal := new_noFatal hbare
  rw [received_eq hk.buf hkmode (new_noFatal hkept), received_eq hb.buf hbmode hfatal, hparser,
    hk.includeTerminators, hb.includeTerminators, hk.skipEmpty, hb.skipEmpty]
  have haside (h : MarkersAside config.skipEmpty bare.parser s e cs.flatten) :=
    shown_of_aside config.includeTerminators hfatal h kept.frameCount bare.frameCount
  refine ⟨haside, fun hshort heq => aside_of_shown hfatal hshort heq, ?_⟩
  rintro rfl hskip
  have hall (data : Bytes) : shows config.skipEmpty bare.parser data = true := by
    obtain hnone : none = bare.parser := Except.ok.inj hb.parser
    simp [shows, hskip, ← hnone]
  constructor
  · intro heq
    exact (aside_of_shown hfatal (fun rest q _ _ _ => hall _) heq).apart
  · intro hapart
    exact haside ⟨hapart, fun rest i _ _ => by rw [hall, hall]⟩

def angleConfig (markers : Bool) : RxFramingConfig :=
  ⟨.startEnd ["<"] ">" .utf8 markers, none, false, false⟩

theorem includeMarkers_iff_angle : ∃ bare kept s e,
    new .refusing (angleConfig false) none = .ok bare ∧
    new .refusing (angleConfig true) none = .ok kept ∧
    kept.received [[60, 97], [62]] = (bare.received [[60, 97], [62]]).map (wrap s e) := by
  obtain ⟨bare, hbare⟩ : ∃ bare, new .refusing (angleConfig false) none = .ok bare := ⟨_, rfl⟩
  obtain ⟨kept, hkept⟩ : ∃ kept, new .refusing (angleConfig true) none = .ok kept := ⟨_, rfl⟩
  obtain ⟨s, e, hmode, -, h⟩ := @includeMarkers_iff .refusing (angleConfig false) none "<" ">" .utf8
    bare kept hbare hkept
  refine ⟨bare, kept, s, e, hbare, hkept, ((h _).2.2 rfl rfl).2 fun rest hrest q hq hat => ?_⟩
  obtain ⟨hs, he⟩ : [s] = [⟨[60], by decide⟩] ∧ e = ⟨[62], by decide⟩ := by
    obtain rfl := Except.ok.inj hbare
    cases hmode
    exact ⟨rfl, rfl⟩
  obtain rfl := (List.cons.inj hs).1
  subst he
  obtain rfl : q = 0 := by simpa using hq
  simp at hat

/-- With one byte as both markers, `~a~` is one frame without the markers and two
    frames of one marker with them. -/
theorem includeMarkers_not_only : ¬ ∀ (crates : Crates) (config : RxFramingConfig)
    (pc : Option ParserConfig) (start fin : String) (enc : PatternEncoding)
    (bare kept : FrameDecoder) (s e : Marker),
    new crates { config with mode := .startEnd [start] fin enc false } pc = .ok bare →
    new crates { config with mode := .startEnd [start] fin enc true } pc = .ok kept →
    bare.mode = .startEnd [s] e false false → ∀ cs : List Bytes,
      kept.received cs = (bare.received cs).map (wrap s e) := by
  intro h
  have hframes := h .refusing (angleConfig false) none "~" "~" .utf8 _ _ _ _ rfl rfl rfl
    [[126, 97, 126]]
  revert hframes
  decide

end FrameDecoder

end SerialMcp
