/-
  `flush_partial` in the line, delimiter and length-prefixed modes, between any
  pushes.

  The buffer is handed out and emptied, but the mode stays as it is: an `auto`
  decoder keeps the index of its CR, and a length-prefixed one the length that it
  has read, although neither is in the buffer any more.

  * `DecoderMode.restarted`: the mode of a decoder that is started again, with what
    is left of the initial offset and the promotion of `auto`;
  * `Restarts`: the pending bytes come back, and what follows is decoded by a fresh
    decoder;
  * `flushPartial_restarts_iff`: so it is exactly where nothing is remembered of the
    bytes that were pending.
-/
import SerialMcp.Framing.Restart
import SerialMcp.Framing.Emission
import SerialMcp.Framing.Auto
import SerialMcp.Framing.Ascii

namespace SerialMcp

open Incremental

namespace FrameDecoder

/-! ## Frame numbers -/

/-- A frame with a higher number. -/
def shifted (k : ℕ) (f : Frame) : Frame := { f with index := k + f.index }

/-- Frames with the same contents differ by where their numbers begin. -/
theorem frames_eq_shifted {d d' : FrameDecoder} {cs : List Bytes} (hd' : d'.frameCount = 0)
    (h : d.contents cs = d'.contents cs) : (decoder.pushAll d cs).1.frames =
      (decoder.pushAll d' cs).1.frames.map (shifted d.frameCount) := by
  have hn := (pushAll_numbered d cs).1
  have hn' := (pushAll_numbered d' cs).1
  rw [hd'] at hn'
  simp only [contents] at h
  generalize (decoder.pushAll d cs).1.frames = fs at *
  generalize (decoder.pushAll d' cs).1.frames = fs' at *
  have hlen : fs.length = fs'.length := by simpa using congrArg List.length h
  refine List.ext_getElem (by simpa using hlen) fun i hi hi' => ?_
  have hi₁ : i < fs'.length := by omega
  have hindex : fs[i].index = d.frameCount + i := by
    simpa [hi] using congrArg (·[i]?) hn
  have hindex' : fs'[i].index = i := by
    simpa [hi₁] using congrArg (·[i]?) hn'
  have hsame : fs[i].unnumbered = fs'[i].unnumbered := by
    simpa [hi, hi₁] using congrArg (·[i]?) h
  rw [List.getElem_map, shifted, hindex']
  rcases hf : fs[i] with ⟨data, index, ft, parsed⟩
  rcases hf' : fs'[i] with ⟨data', index', ft', parsed'⟩
  rw [hf, hf'] at hsame
  rw [hf] at hindex
  simp only [Frame.unnumbered, Frame.mk.injEq, true_and] at hsame hindex ⊢
  exact ⟨hsame.1, hindex, hsame.2.1, hsame.2.2⟩

end FrameDecoder

/-! ## Modes -/

/-- The line, delimiter and length-prefixed modes. -/
def RxFramingMode.Buffered : RxFramingMode → Prop
  | .line _ | .delimiter .. | .lengthPrefixed .. => True
  | _ => False

namespace DecoderMode

/-- The line, delimiter and length-prefixed modes. -/
def Buffered : DecoderMode → Prop
  | .line _ | .delimiter _ | .lengthPrefixed .. => True
  | _ => False

/-- The mode of a decoder that is started again. -/
def restarted : DecoderMode → DecoderMode
  | .line (.pendingCr _) => .line .autoLf
  | .lengthPrefixed prefixSize endianness remainingOffset _ =>
    .lengthPrefixed prefixSize endianness remainingOffset none
  | mode => mode

/-- Nothing is remembered of the bytes that are pending. -/
def Forgets : DecoderMode → Prop
  | .line (.pendingCr _) | .lengthPrefixed _ _ _ (some _) => False
  | _ => True

/-- The mode of a new decoder, with the promotion of `auto` and the part of the initial
    offset that is consumed. -/
inductive Carried (initial : DecoderMode) : DecoderMode → Prop
  | same : Carried initial initial
  | promoted (h : initial = .line .autoLf) : Carried initial (.line .crMode)
  | skipped {n e off off'} (h : initial = .lengthPrefixed n e off none) (hle : off' ≤ off) :
      Carried initial (.lengthPrefixed n e off' none)

variable {mode mode₁ mode₂ : DecoderMode}

theorem Carried.trans (h : Carried mode mode₁) (h' : Carried mode₁ mode₂) :
    Carried mode mode₂ := by
  cases h with
  | same => exact h'
  | promoted h =>
    cases h' with
    | same => exact .promoted h
    | promoted h' => cases h'
    | skipped h' => cases h'
  | skipped h hle =>
    cases h' with
    | same => exact .skipped h hle
    | promoted h' => cases h'
    | skipped h' hle' =>
      cases h'
      exact .skipped h (hle'.trans hle)

theorem Forgets.restarted (h : mode.Forgets) : mode.restarted = mode := by
  rcases mode with s | m | ⟨n, e, off, _ | len⟩ | _ | _ | _
  · cases s <;> first | rfl | exact h.elim
  · rfl
  · rfl
  · exact h.elim
  all_goals rfl

theorem Buffered.frameType (h : mode.Buffered) :
    mode.frameType ≠ .slip ∧ mode.frameType ≠ .cobs := by
  cases mode <;> first | exact h.elim | simp [DecoderMode.frameType]

theorem matchAutoLf_state (inc : Bool) (buf : Bytes) : (matchAutoLf inc buf).2.1 = .autoLf ∨
    (matchAutoLf inc buf).2.1 = .crMode ∨ ∃ p, (matchAutoLf inc buf).2.1 = .pendingCr p := by
  unfold matchAutoLf
  split
  · exact .inl rfl
  · split
    · split_ifs
      · exact .inl rfl
      · exact .inr (.inl rfl)
      · exact .inr (.inr ⟨_, rfl⟩)
    · exact .inl rfl

theorem matchPendingCr_state (inc : Bool) (p : ℕ) (buf : Bytes) :
    (matchPendingCr inc p buf).2.1 = .autoLf ∨ (matchPendingCr inc p buf).2.1 = .crMode ∨
      (matchPendingCr inc p buf).2.1 = .pendingCr p := by
  unfold matchPendingCr
  split
  · exact .inr (.inr rfl)
  · split_ifs
    · exact .inl rfl
    · exact .inr (.inl rfl)

/-- An extraction promotes `auto` or consumes the offset, at most. -/
theorem Buffered.extract (h : mode.Buffered) (inc : Bool) (buf : Bytes) :
    (extract inc mode buf).2.1.Buffered ∧
      Carried mode.restarted (extract inc mode buf).2.1.restarted := by
  rcases mode with s | m | ⟨n, e, off, next⟩ | _ | _ | _
  · refine ⟨trivial, ?_⟩
    cases s with
    | autoLf =>
      simp only [SerialMcp.extract, extractLine]
      rcases matchAutoLf_state inc buf with hs | hs | ⟨p, hs⟩ <;> rw [hs]
      · exact .same
      · exact .promoted rfl
      · exact .same
    | pendingCr p =>
      simp only [SerialMcp.extract, extractLine]
      rcases matchPendingCr_state inc p buf with hs | hs | hs <;> rw [hs]
      · exact .same
      · exact .promoted rfl
      · exact .same
    | _ => exact .same
  · exact ⟨trivial, .same⟩
  · exact ⟨trivial, .skipped rfl (Nat.sub_le ..)⟩
  all_goals exact h.elim

end DecoderMode

namespace FrameDecoder

/-! ## Calls -/

/-- The decoder started again, in its configuration. -/
def restarted (d : FrameDecoder) : FrameDecoder :=
  { d with buf := [], mode := d.mode.restarted, frameCount := 0 }

/-- A decoder that calls lead to. -/
structure Reached (d₀ d : FrameDecoder) : Prop where
  buffered : d.mode.Buffered
  carried : DecoderMode.Carried d₀.mode d.mode.restarted
  includeTerminators : d.includeTerminators = d₀.includeTerminators
  skipEmpty : d.skipEmpty = d₀.skipEmpty
  parser : d.parser = d₀.parser

section
variable {d₀ d : FrameDecoder}

theorem Reached.extracts (h : Reached d₀ d) : d.Extracts := h.buffered.frameType

theorem Reached.next (h : Reached d₀ d) : Reached d₀ d.next.2 := by
  obtain ⟨hbuf, hcarried⟩ := h.buffered.extract d.includeTerminators d.buf
  rw [next_of_extracts h.extracts]
  rcases hf : (extract d.includeTerminators d.mode d.buf).1 with _ | frame
  · simp only [nextFrame, hf]
    exact ⟨hbuf, h.carried.trans hcarried, h.includeTerminators, h.skipEmpty, h.parser⟩
  · simp only [nextFrame, hf]
    exact ⟨hbuf, h.carried.trans hcarried, h.includeTerminators, h.skipEmpty, h.parser⟩

/-- What `flush_partial` returns in these modes. -/
theorem flushPartial_eq (h : d.mode.Buffered) : d.flushPartial =
    if d.buf = [] then (none, d)
    else (some ⟨d.buf, d.frameCount, d.mode.frameType, none⟩,
      { d with buf := [], frameCount := d.frameCount + 1 }) := by
  rcases d with ⟨buf, mode, count, incl, skip, parser⟩
  cases mode <;> first | exact h.elim | rfl

theorem Reached.call (h : Reached d₀ d) (call : Call) : Reached d₀ (call.run d) := by
  cases call with
  | push chunk =>
    have hfed : Reached d₀ (d.feed chunk) :=
      ⟨h.buffered, h.carried, h.includeTerminators, h.skipEmpty, h.parser⟩
    refine (Extractor.settle_keeps (Q := Reached d₀) (G := fun _ => True) trivial
      (fun _ _ => trivial) (fun {d e d₁} hd he => ⟨?_, fun _ _ => trivial⟩) hfed).2
    have hnext := hd.next
    rwa [show d.next = (e, d₁) from he] at hnext
  | flushPartial =>
    rw [Call.run, flushPartial_eq h.buffered]
    split_ifs
    · exact h
    · exact ⟨h.buffered, h.carried, h.includeTerminators, h.skipEmpty, h.parser⟩

theorem Reached.run (h : Reached d₀ d) (calls : List Call) :
    Reached d₀ (calls.foldl Call.run d) := by
  induction calls generalizing d with
  | nil => exact h
  | cons call calls ih => exact ih (h.call call)

end

/-! ## Decoders that forget -/

/-- A flush hands out the pending bytes and leaves nothing of them behind: what
    follows is decoded by a decoder that is started again. -/
structure Restarts (d : FrameDecoder) : Prop where
  flushed : d.flushPartial.1 =
    if d.buf = [] then none else some ⟨d.buf, d.frameCount, d.mode.frameType, none⟩
  later : ∀ cs, (decoder.pushAll d.flushPartial.2 cs).1.frames =
    (decoder.pushAll d.restarted cs).1.frames.map (shifted d.flushPartial.2.frameCount)

section
variable {d : FrameDecoder} {t x y rest : Bytes} {mode₁ : DecoderMode} {more : List Bytes}

theorem restarts_of_forgets (hbuf : d.mode.Buffered) (h : d.mode.Forgets) : d.Restarts := by
  have hrenumbered : Renumbered d.restarted d.flushPartial.2 := by
    rw [flushPartial_eq hbuf, restarted, h.restarted]
    rcases d with ⟨buf, mode, count, incl, skip, parser⟩
    by_cases hnil : buf = []
    · subst hnil
      exact ⟨count, rfl⟩
    · rw [if_neg hnil]
      exact ⟨count + 1, rfl⟩
  refine ⟨?_, fun cs => frames_eq_shifted rfl (hrenumbered.contents_eq cs).symm⟩
  rw [flushPartial_eq hbuf]
  split_ifs <;> rfl

/-! ## Decoders that remember -/

/-- A chunk that begins with a frame. -/
theorem received_event (hx : d.Extracts) (hfatal : d.NoFatal) (hbuf : d.buf = [])
    (h : extract d.includeTerminators d.mode t = (some x, mode₁, rest)) :
    ∃ n, d.received [t] = shownFrame d.skipEmpty d.parser x ++
      ({ d with buf := rest, mode := mode₁, frameCount := n } : FrameDecoder).settled := by
  rcases d with ⟨buf, mode, count, inc, skip, parser⟩
  obtain rfl : buf = [] := hbuf
  obtain ⟨o, n, hemit, ho⟩ := emitFrame_shows skip hfatal count mode.frameType x
  have hx' : (⟨t, mode, count, inc, skip, parser⟩ : FrameDecoder).Extracts := hx
  have hnext : (⟨t, mode, count, inc, skip, parser⟩ : FrameDecoder).next =
      (some (o, none), ⟨rest, mode₁, n, inc, skip, parser⟩) := by
    rw [next_of_extracts hx']
    simp only [nextFrame, h, hemit]
  have hsettle := settle_event hnext
  have hfeed : decoder.feed ⟨[], mode, count, inc, skip, parser⟩ t =
      ⟨t, mode, count, inc, skip, parser⟩ := rfl
  refine ⟨n, ?_⟩
  rw [received, Decoder.pushAll, hfeed, hsettle, ← ho]
  simp only [Decoder.pushAll, mul_one, Emitted.mul_frames, List.map_append]
  rfl

/-- A first frame of another length. -/
theorem not_restarts {skip : Bool} {parser : Option FrameParser}
    (hstale : d.flushPartial.2.received [t] = shownFrame skip parser x)
    (hfresh : d.restarted.received [t] = y :: more) (hne : x.length ≠ y.length) :
    ¬ d.Restarts := by
  intro h
  have hframes := congrArg (List.map Frame.data) (h.later [t])
  rw [List.map_map] at hframes
  have hdata : d.flushPartial.2.received [t] = d.restarted.received [t] := hframes
  rw [hstale, hfresh] at hdata
  have hmem : y ∈ shownFrame skip parser x := by
    rw [hdata]
    exact List.mem_cons_self
  exact hne (congrArg List.length (eq_of_mem_shownFrame hmem).1).symm

theorem flushed_eq (hbuf : d.mode.Buffered) :
    ∃ n, d.flushPartial.2 = { d with buf := [], frameCount := n } := by
  rw [flushPartial_eq hbuf]
  rcases d with ⟨buf, mode, count, incl, skip, parser⟩
  by_cases hnil : buf = []
  · subst hnil
    exact ⟨count, rfl⟩
  · rw [if_neg hnil]
    exact ⟨count + 1, rfl⟩

/-- Parsers with a checksum read no `z`, or nothing without a comma. -/
theorem buildParser_ok {crates : Crates} {config : ParserConfig} {q : FrameParser}
    (h : buildParser crates config = .ok q) (hz : 122 ∈ x) (hcomma : 44 ∉ x) :
    ∃ r, q x = .ok r := by
  simp only [buildParser] at h
  split at h
  · cases h
    exact atCommandParser_ok x
  · cases h
    exact jsonLinesParser_ok crates x
  · split at h
    · cases h
      exact shellPromptParser_ok none x
    · split at h
      · cases h
        exact shellPromptParser_ok _ x
      · cases h
  · cases h
    exact ⟨_, rfl⟩
  · cases h
    have hstripped : (44 : UInt8) ∉ stripTrailingNewline (stripLeadingIfAny [36, 33] x) := fun h =>
      hcomma ((mem_stripped (by decide) (by decide)).1 h)
    exact ⟨.raw, by simp only [nmeaParser, if_pos hstripped]⟩
  · cases h
    have hstripped : (122 : UInt8) ∈ stripTrailingNewline (stripLeadingIfAny [58] x) :=
      (mem_stripped (by decide) (by decide)).2 hz
    refine ⟨.raw, ?_⟩
    simp only [modbusAsciiParser]
    split
    · rfl
    · rw [if_pos (.inr (List.any_eq_true.2 ⟨122, hstripped, by decide⟩))]

/-- The letter `z` is neither blank nor anything a parser with a checksum reads. -/
theorem shows_of_mem {crates : Crates} {pc : Option ParserConfig} {skip : Bool}
    {parser : Option FrameParser} (hp : newParser crates pc = .ok parser) (hz : 122 ∈ x)
    (hcomma : 44 ∉ x) : shows skip parser x = true := by
  have hblank : isBlankFrame x = false := by
    rw [isBlankFrame, List.all_eq_false]
    exact ⟨122, hz, by decide⟩
  have hblank' : (skip && isBlankFrame x) = false := by rw [hblank, Bool.and_false]
  rcases pc with _ | pc
  · obtain rfl : none = parser := Except.ok.inj hp
    rw [shows, hblank']
    rfl
  rcases hbuild : buildParser crates pc with e | q
  · rw [newParser, hbuild] at hp
    cases hp
  rw [newParser, hbuild] at hp
  obtain rfl : some q = parser := Except.ok.inj hp
  obtain ⟨r, hr⟩ := buildParser_ok hbuild hz hcomma
  rw [shows, hblank']
  simp [hr, Except.isOk, Except.toBool]

section
variable {crates : Crates} {pc : Option ParserConfig}

/-- `z … z` -/
def zs (n : ℕ) : Bytes := List.replicate n 122

@[simp] theorem zs_length (n : ℕ) : (zs n).length = n := List.length_replicate

theorem take_zs {n m : ℕ} (h : n ≤ m) (t : Bytes) : (zs m ++ t).take n = zs n := by
  rw [List.take_append_of_le_length (by simpa using h), zs, List.take_replicate, Nat.min_eq_left h]
  rfl

theorem drop_zs {n m : ℕ} (h : n ≤ m) (t : Bytes) : (zs m ++ t).drop n = zs (m - n) ++ t := by
  rw [List.drop_append_of_le_length (by simpa using h), zs, List.drop_replicate]
  rfl

theorem mem_zs {n : ℕ} {b : UInt8} : b ∈ zs n ↔ n ≠ 0 ∧ b = 122 := List.mem_replicate

theorem extract_pendingCr (inc : Bool) (p : ℕ) :
    extract inc (.line (.pendingCr p)) (zs (p + 2) ++ [10]) =
      (some (zs (if inc then p + 1 else p)), .line .crMode, [122, 10]) := by
  have hbyte : (zs (p + 2) ++ [10])[p + 1]? = some 122 := by
    rw [List.getElem?_append_left (by simp), zs, List.getElem?_replicate_of_lt (by omega)]
  have hdrop : (zs (p + 2) ++ [10]).drop (p + 1) = [122, 10] := by
    rw [drop_zs (by omega), Nat.add_sub_add_left]
    rfl
  have htake : (zs (p + 2) ++ [10]).take (if inc then p + 1 else p) =
      zs (if inc then p + 1 else p) := take_zs (by split <;> omega) [10]
  have hne : ¬ (122 : UInt8) = 10 := by decide
  simp only [extract, extractLine, matchPendingCr, hbyte, if_neg hne, takeFrame, htake, hdrop]

theorem extract_autoLf (inc : Bool) (p : ℕ) : extract inc (.line .autoLf) (zs (p + 2) ++ [10]) =
    (some (zs (p + 2) ++ if inc then [10] else []), .line .autoLf, []) := by
  have hbyte : (zs (p + 2) ++ [10])[p + 2 - 1]? = some 122 := by
    rw [List.getElem?_append_left (by simp), zs, List.getElem?_replicate_of_lt (by omega)]
  have hlf : position (zs (p + 2) ++ [10]) 10 = some (p + 2) :=
    position_eq_some.2 ⟨zs (p + 2), [], rfl, zs_length _, by simp [mem_zs]⟩
  simp only [extract, extractLine, matchAutoLf, hlf, hbyte, takeFrame]
  cases inc
  · simp
  · simp [List.take_of_length_le]

/-- **The index of a CR that is gone**: `z … z` is cut where it was. -/
theorem not_restarts_pendingCr {p : ℕ} (hp : newParser crates pc = .ok d.parser)
    (hfatal : d.NoFatal) (hmode : d.mode = .line (.pendingCr p)) : ¬ d.Restarts := by
  obtain ⟨n, hflushed⟩ := flushed_eq (d := d) (by rw [hmode]; trivial)
  rcases d with ⟨buf, mode, count, inc, skip, parser⟩
  obtain rfl : mode = .line (.pendingCr p) := hmode
  have hx (s : LineState) (n : ℕ) :
      (⟨[], .line s, n, inc, skip, parser⟩ : FrameDecoder).Extracts :=
    (show (DecoderMode.line s).Buffered from trivial).frameType
  obtain ⟨n', hcut⟩ := received_event (hx (.pendingCr p) n) hfatal rfl (extract_pendingCr inc p)
  obtain ⟨n'', hline⟩ := received_event (hx .autoLf 0) hfatal rfl (extract_autoLf inc p)
  have hwait : (⟨[122, 10], .line .crMode, n', inc, skip, parser⟩ : FrameDecoder).settled = [] :=
    settled_nil (hx .crMode n') rfl
  have hshows : shows skip parser (zs (p + 2) ++ if inc then [10] else []) = true := by
    refine shows_of_mem hp ?_ ?_
    · simp [mem_zs]
    · cases inc <;> simp [mem_zs]
  rw [hwait, List.append_nil] at hcut
  rw [shownFrame, if_pos hshows] at hline
  rw [← hflushed] at hcut
  refine not_restarts hcut hline ?_
  cases inc <;> simp

/-- A small number as a prefix. -/
def prefixBytes (n : ℕ) (endianness : Endianness) (k : UInt8) : Bytes :=
  match endianness with
  | .big => List.replicate (n - 1) 0 ++ [k]
  | .little => k :: List.replicate (n - 1) 0

theorem prefixBytes_spec {n : ℕ} (hn : n = 1 ∨ n = 2 ∨ n = 4) (endianness : Endianness) (k : UInt8) :
    (prefixBytes n endianness k).length = n ∧
      readLengthPrefix (prefixBytes n endianness k) endianness = k.toNat ∧
      ∀ b ∈ prefixBytes n endianness k, b = 0 ∨ b = k := by
  rcases hn with rfl | rfl | rfl <;> cases endianness <;>
    simp [prefixBytes, readLengthPrefix, List.replicate]

/-- A frame of `z … z`, behind what is skipped. -/
theorem extract_prefixed (inc : Bool) (n : {n : ℕ // n = 1 ∨ n = 2 ∨ n = 4})
    (endianness : Endianness) (off : ℕ) (k : UInt8) {next : Option ℕ} {len m : ℕ}
    (hlen : payloadLen n.1 endianness next (prefixBytes n.1 endianness k ++ zs m) = some len)
    (hle : len ≤ m) :
    extract inc (.lengthPrefixed n endianness off next)
        (zs off ++ (prefixBytes n.1 endianness k ++ zs m)) =
      (some ((if inc then prefixBytes n.1 endianness k else []) ++ zs len),
        .lengthPrefixed n endianness 0 none, zs (m - len)) := by
  obtain ⟨hn, -⟩ := prefixBytes_spec n.2 endianness k
  have hskip : (zs off ++ (prefixBytes n.1 endianness k ++ zs m)).drop off =
      prefixBytes n.1 endianness k ++ zs m := List.drop_left' (zs_length off)
  have hshort : off - (zs off ++ (prefixBytes n.1 endianness k ++ zs m)).length = 0 := by
    simp
  have hfits : ¬ (prefixBytes n.1 endianness k ++ zs m).length < n.1 + len := by
    rw [List.length_append, zs_length]
    omega
  have htake {pre : Bytes} (h : pre.length = n.1) :
      (pre ++ zs m).take (n.1 + len) = pre ++ zs len := by
    rw [← h, List.take_length_add_append, ← List.append_nil (zs m), take_zs hle]
  have hdrop {pre : Bytes} (h : pre.length = n.1) :
      (pre ++ zs m).drop (n.1 + len) = zs (m - len) := by
    rw [← h, List.drop_length_add_append, ← List.append_nil (zs m), drop_zs hle, List.append_nil]
  simp only [extract, extractLengthPrefixed, hskip, takePrefixed, hlen, if_neg hfits, htake hn,
    hdrop hn, hshort]
  cases inc
  · simp [List.drop_left' hn]
  · simp

/-- **A length that is gone**: `z … z` is cut at it. -/
theorem not_restarts_prefixed {n : {n : ℕ // n = 1 ∨ n = 2 ∨ n = 4}} {endianness : Endianness}
    {off len : ℕ} (hp : newParser crates pc = .ok d.parser) (hfatal : d.NoFatal)
    (hmode : d.mode = .lengthPrefixed n endianness off (some len)) : ¬ d.Restarts := by
  obtain ⟨count', hflushed⟩ := flushed_eq (d := d) (by rw [hmode]; trivial)
  rcases d with ⟨buf, mode, count, inc, skip, parser⟩
  obtain rfl : mode = .lengthPrefixed n endianness off (some len) := hmode
  have hx (off : ℕ) (next : Option ℕ) (buf : Bytes) (count : ℕ) :
      (⟨buf, .lengthPrefixed n endianness off next, count, inc, skip, parser⟩ :
        FrameDecoder).Extracts :=
    (show (DecoderMode.lengthPrefixed n endianness off next).Buffered from trivial).frameType
  -- another length, which a fresh decoder reads
  obtain ⟨k, hk, hkpos, hkle⟩ : ∃ k : UInt8, k.toNat ≠ len ∧ 0 < k.toNat ∧ k.toNat ≤ 2 := by
    by_cases hone : len = 1
    · exact ⟨2, by subst hone; decide, by decide, by decide⟩
    · exact ⟨1, fun h => hone h.symm, by decide, by decide⟩
  obtain ⟨hn, hread, hbytes⟩ := prefixBytes_spec n.2 endianness k
  have hfresh : payloadLen n.1 endianness none
      (prefixBytes n.1 endianness k ++ zs (len + 2)) = some k.toNat := by
    rw [payloadLen, if_neg (by rw [List.length_append]; omega), List.take_left' hn, hread]
  obtain ⟨n', hcut⟩ := received_event (hx off (some len) [] count') hfatal rfl
    (extract_prefixed inc n endianness off k rfl (Nat.le_add_right len 2))
  obtain ⟨n'', hframe⟩ := received_event (hx off none [] 0) hfatal rfl
    (extract_prefixed inc n endianness off k hfresh (by omega))
  have hwait : (⟨zs (len + 2 - len), .lengthPrefixed n endianness 0 none, n', inc, skip, parser⟩ :
      FrameDecoder).settled = [] := by
    refine settled_nil (hx 0 none _ n') ?_
    rw [Nat.add_sub_cancel_left]
    rcases n with ⟨n, rfl | rfl | rfl⟩ <;> cases endianness <;> rfl
  have hshows : shows skip parser
      ((if inc then prefixBytes n.1 endianness k else []) ++ zs k.toNat) = true := by
    have hne : k ≠ 44 := by
      rintro rfl
      exact absurd hkle (by decide)
    have hcomma : 44 ∉ prefixBytes n.1 endianness k := fun h => by
      rcases hbytes _ h with h | h
      · cases h
      · exact hne h.symm
    refine shows_of_mem hp ?_ ?_
    · exact List.mem_append_right _ (mem_zs.2 ⟨by omega, rfl⟩)
    · cases inc <;> simp [mem_zs, hcomma]
  rw [hwait, List.append_nil] at hcut
  rw [shownFrame, if_pos hshows] at hframe
  rw [← hflushed] at hcut
  refine not_restarts hcut hframe ?_
  rw [List.length_append, List.length_append, zs_length, zs_length]
  omega

end

/-! ## New decoders -/

theorem newMode_buffered {crates : Crates} {m : RxFramingMode} {mode : DecoderMode}
    (hm : m.Buffered) (h : newMode crates m = .ok mode) : mode.Buffered ∧ mode.Forgets := by
  rcases m with ending | ⟨delim, enc⟩ | ⟨n, e, off⟩ | ⟨start, fin, enc, markers⟩ | _ | _
  · cases ending <;> cases h <;> exact ⟨trivial, trivial⟩
  · simp only [newMode, bind, Except.bind] at h
    split at h
    · cases h
    · cases h
      exact ⟨trivial, trivial⟩
  · simp only [newMode] at h
    split at h
    · cases h
      exact ⟨trivial, trivial⟩
    · cases h
  all_goals exact hm.elim

theorem reached_new {crates : Crates} {config : RxFramingConfig} {pc : Option ParserConfig}
    (hnew : new crates config pc = .ok d) (hm : config.mode.Buffered) : Reached d d := by
  obtain ⟨hbuf, hforgets⟩ := newMode_buffered hm (new_fresh hnew).mode
  refine ⟨hbuf, ?_, rfl, rfl, rfl⟩
  rw [hforgets.restarted]
  exact .same

/-- **`flush_partial` leaves no stale boundary** exactly where the decoder remembers
    nothing of the pending bytes: after any calls, the bytes come back, and what
    follows is decoded as by a new decoder, with its numbers, the rest of the initial
    offset and the promotion of `auto` carried over. -/
theorem flushPartial_restarts_iff {crates : Crates} {config : RxFramingConfig}
    {pc : Option ParserConfig} (hnew : new crates config pc = .ok d) (hm : config.mode.Buffered)
    (calls : List Call) :
    (∃ mode, DecoderMode.Carried d.mode mode ∧
      (calls.foldl Call.run d).restarted = { d with mode }) ∧
    ((calls.foldl Call.run d).Restarts ↔ (calls.foldl Call.run d).mode.Forgets) := by
  have hreached := (reached_new hnew hm).run calls
  have hfresh := new_fresh hnew
  generalize calls.foldl Call.run d = d' at hreached
  constructor
  · refine ⟨d'.mode.restarted, hreached.carried, ?_⟩
    rcases d with ⟨buf, mode, count, inc, skip, parser⟩
    obtain rfl : buf = [] := hfresh.buf
    obtain rfl : count = 0 := hfresh.frameCount
    rw [restarted, hreached.includeTerminators, hreached.skipEmpty, hreached.parser]
  refine ⟨fun h => ?_, restarts_of_forgets hreached.buffered⟩
  have hparser : newParser crates pc = .ok d'.parser := by
    rw [hreached.parser]
    exact hfresh.parser
  have hfatal : d'.NoFatal := by
    intro p hp
    rw [hreached.parser] at hp
    exact new_noFatal hnew p hp
  rcases hmode : d'.mode with s | m | ⟨n, e, off, _ | len⟩ | _ | _ | _
  · cases s with
    | pendingCr p => exact absurd h (not_restarts_pendingCr hparser hfatal hmode)
    | _ => trivial
  · trivial
  · trivial
  · exact absurd h (not_restarts_prefixed hparser hfatal hmode)
  all_goals trivial

/-- A half line of an `auto` decoder is flushed. -/
theorem flushPartial_restarts_iff_auto :
    ∃ d, new .refusing ⟨.line .auto, none, false, false⟩ none = .ok d ∧
      ([Call.push [97, 98]].foldl Call.run d).Restarts := by
  obtain ⟨d, hnew, hforgets⟩ : ∃ d, new .refusing ⟨.line .auto, none, false, false⟩ none = .ok d ∧
      ([Call.push [97, 98]].foldl Call.run d).mode.Forgets := ⟨_, rfl, trivial⟩
  exact ⟨d, hnew, (flushPartial_restarts_iff hnew trivial [Call.push [97, 98]]).2.2 hforgets⟩

/-- `a` and CR are flushed, and the line `xyz` behind them is cut behind its `x`. -/
theorem flushPartial_stale : ¬ ∀ (crates : Crates) (config : RxFramingConfig)
    (pc : Option ParserConfig) (d : FrameDecoder), new crates config pc = .ok d →
    config.mode.Buffered → ∀ chunks : List Bytes,
      ((chunks.map Call.push).foldl Call.run d).Restarts := by
  intro h
  have hlater := (h .refusing ⟨.line .auto, none, false, false⟩ none _ rfl trivial
    [[97, 13]]).later [[120, 121, 122, 10]]
  have hdata := congrArg (List.map Frame.data) hlater
  revert hdata
  decide

end

end FrameDecoder

end SerialMcp
