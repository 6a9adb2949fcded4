/-
  Line framing with ending `auto`.

  The decoder starts in LF/CRLF mode and switches to CR mode at the first CR
  that is followed by another byte than LF.  `match_auto_lf` looks for an LF
  first, anywhere in the buffer, so an LF that arrives together with an earlier
  bare CR hides it, and one that arrives later does not.

  * `LfAfterBareCr s`: some CR of `s` is followed by another byte than LF, and
    an LF comes later;
  * `auto_splits`: without one, an extraction in `auto` mode decides nothing
    that bytes still to come could change;
  * `auto_invariant_iff`: the frames and pending bytes are the same for every
    chunking of `s` exactly if `s` has no LF after a bare CR.
-/
import SerialMcp.Framing.Chunks

namespace SerialMcp

open Incremental

/-- A CR followed by a byte that is not LF, and an LF later. -/
def LfAfterBareCr (s : Bytes) : Prop :=
  ∃ p b q, s = p ++ 13 :: b :: q ∧ b ≠ 10 ∧ (10 : UInt8) ∈ q

theorem LfAfterBareCr.append_left {s : Bytes} (h : LfAfterBareCr s) (r : Bytes) :
    LfAfterBareCr (r ++ s) := by
  obtain ⟨p, b, q, rfl, hb, hq⟩ := h
  exact ⟨r ++ p, b, q, by rw [List.append_assoc], hb, hq⟩

/-! ## Positions -/

section
variable {buf t : Bytes} {b : UInt8} {i : ℕ}

theorem position_eq_none : position buf b = none ↔ b ∉ buf := by
  simp only [position, List.findIdx?_eq_none_iff, decide_eq_false_iff_not]
  exact ⟨fun h hb => h b hb rfl, fun h x hx hxb => h (hxb ▸ hx)⟩

theorem position_eq_some : position buf b = some i ↔
    ∃ pre rest, buf = pre ++ b :: rest ∧ pre.length = i ∧ b ∉ pre := by
  constructor
  · intro h
    obtain ⟨hi, hb, hfirst⟩ := List.findIdx?_eq_some_iff_getElem.mp h
    refine ⟨buf.take i, buf.drop (i + 1), ?_, List.length_take_of_le (by omega), ?_⟩
    · rw [← of_decide_eq_true hb, List.cons_getElem_drop_succ, List.take_append_drop]
    · intro hmem
      obtain ⟨j, hj, hjb⟩ := List.mem_iff_getElem.mp hmem
      rw [List.length_take] at hj
      rw [List.getElem_take] at hjb
      exact absurd (decide_eq_true hjb) (hfirst j (by omega))
  · rintro ⟨pre, rest, rfl, rfl, hpre⟩
    rw [position, List.findIdx?_append]
    have : List.findIdx? (fun x => decide (x = b)) pre = none := position_eq_none.mpr hpre
    simp [this, List.findIdx?_cons]

end

/-! ## The extraction in `auto` mode, by the shape of the buffer -/

section
variable {inc : Bool} {pre rest : Bytes} {b : UInt8}

/-- The line before an LF: a CR right before the LF is stripped too. -/
def lfFrame (inc : Bool) (pre : Bytes) : Bytes :=
  if inc then pre ++ [10] else if pre.getLast? = some 13 then pre.dropLast else pre

/-- The line before a CR. -/
def crFrame (inc : Bool) (pre : Bytes) : Bytes := if inc then pre ++ [13] else pre

theorem takeFrame_at (inc : Bool) (pre term rest : Bytes) :
    takeFrame inc (pre ++ (term ++ rest)) pre.length term.length =
      (if inc then pre ++ term else pre, rest) := by
  have hdrop : (pre ++ (term ++ rest)).drop (pre.length + term.length) = rest := by
    rw [← List.append_assoc, ← List.length_append, List.drop_left]
  rcases inc with _ | _
  · simp only [takeFrame, hdrop, List.take_left, Bool.false_eq_true, if_false]
  · simp only [takeFrame, hdrop, if_true]
    rw [← List.append_assoc, ← List.length_append, List.take_left]

theorem matchAutoLf_lf (h : 10 ∉ pre) :
    matchAutoLf inc (pre ++ 10 :: rest) = (some (lfFrame inc pre), .autoLf, rest) := by
  have hp : position (pre ++ 10 :: rest) 10 = some pre.length :=
    position_eq_some.mpr ⟨pre, rest, rfl, rfl, h⟩
  have hone : takeFrame inc (pre ++ 10 :: rest) pre.length 1 = _ :=
    takeFrame_at inc pre [10] rest
  rcases inc with _ | _
  · rcases List.eq_nil_or_concat pre with rfl | ⟨init, c, rfl⟩
    · simp only [matchAutoLf, hp, hone]
      simp [lfFrame]
    · by_cases hc : c = 13
      · subst hc
        have htwo : takeFrame false (init ++ 13 :: 10 :: rest) init.length 2 = (init, rest) :=
          takeFrame_at false init [13, 10] rest
        simp only [matchAutoLf, hp]
        simp [lfFrame, htwo]
      · simp only [matchAutoLf, hp, hone]
        simp [lfFrame, hc]
  · simp [matchAutoLf, hp, hone, lfFrame]

theorem matchAutoLf_cr (hlf : 10 ∉ pre ++ 13 :: b :: rest) (hcr : 13 ∉ pre) :
    matchAutoLf inc (pre ++ 13 :: b :: rest) = (some (crFrame inc pre), .crMode, b :: rest) := by
  have hp : position (pre ++ 13 :: b :: rest) 13 = some pre.length :=
    position_eq_some.mpr ⟨pre, _, rfl, rfl, hcr⟩
  have hb : b ≠ 10 := by
    rintro rfl
    exact hlf (by simp)
  have hone : takeFrame inc (pre ++ 13 :: b :: rest) pre.length 1 = _ :=
    takeFrame_at inc pre [13] (b :: rest)
  simp [matchAutoLf, position_eq_none.mpr hlf, hp, hone, hb, crFrame]

theorem matchAutoLf_pending (hlf : 10 ∉ pre) (hcr : 13 ∉ pre) :
    matchAutoLf inc (pre ++ [13]) = (none, .pendingCr pre.length, pre ++ [13]) := by
  have hp : position (pre ++ [13]) 13 = some pre.length :=
    position_eq_some.mpr ⟨pre, [], rfl, rfl, hcr⟩
  have hn : position (pre ++ [13]) 10 = none := position_eq_none.mpr (by simpa using hlf)
  simp [matchAutoLf, hn, hp]

theorem matchAutoLf_none (hlf : 10 ∉ pre) (hcr : 13 ∉ pre) :
    matchAutoLf inc pre = (none, .autoLf, pre) := by
  simp [matchAutoLf, position_eq_none.mpr hlf, position_eq_none.mpr hcr]

theorem matchPendingCr_wait :
    matchPendingCr inc pre.length (pre ++ [13]) = (none, .pendingCr pre.length, pre ++ [13]) := by
  simp [matchPendingCr]

theorem matchPendingCr_lf : matchPendingCr inc pre.length (pre ++ 13 :: 10 :: rest) =
    (some (if inc then pre ++ [13, 10] else pre), .autoLf, rest) := by
  have htwo : takeFrame inc (pre ++ 13 :: 10 :: rest) pre.length 2 = _ :=
    takeFrame_at inc pre [13, 10] rest
  simp [matchPendingCr, htwo]

theorem matchPendingCr_cr (hb : b ≠ 10) : matchPendingCr inc pre.length (pre ++ 13 :: b :: rest) =
    (some (crFrame inc pre), .crMode, b :: rest) := by
  have hone : takeFrame inc (pre ++ 13 :: b :: rest) pre.length 1 = _ :=
    takeFrame_at inc pre [13] (b :: rest)
  simp [matchPendingCr, hone, crFrame, hb]

/-- The first LF; without one, the first CR and what follows it. -/
theorem auto_cases (buf : Bytes) :
    (∃ pre rest, buf = pre ++ 10 :: rest ∧ 10 ∉ pre) ∨
    (10 ∉ buf ∧ ∃ pre b rest, buf = pre ++ 13 :: b :: rest ∧ 13 ∉ pre) ∨
    (10 ∉ buf ∧ ∃ pre, buf = pre ++ [13] ∧ 13 ∉ pre) ∨ (10 ∉ buf ∧ 13 ∉ buf) := by
  rcases hlf : position buf 10 with _ | i
  · have hlf' := position_eq_none.mp hlf
    rcases hcr : position buf 13 with _ | j
    · exact .inr (.inr (.inr ⟨hlf', position_eq_none.mp hcr⟩))
    · obtain ⟨pre, _ | ⟨b, rest⟩, rfl, -, hpre⟩ := position_eq_some.mp hcr
      · exact .inr (.inr (.inl ⟨hlf', pre, rfl, hpre⟩))
      · exact .inr (.inl ⟨hlf', pre, b, rest, rfl, hpre⟩)
  · obtain ⟨pre, rest, rfl, -, hpre⟩ := position_eq_some.mp hlf
    exact .inl ⟨pre, rest, rfl, hpre⟩

end

/-! ## Without an LF after a bare CR, `auto` splits -/

/-- The states of an `auto` decoder with `t` still to come. -/
inductive AutoMode : DecoderMode → Bytes → Bytes → Prop where
  | lf {buf t : Bytes} (h : ¬ LfAfterBareCr (buf ++ t)) : AutoMode (.line .autoLf) buf t
  | pending {pre rest t : Bytes} (hlf : 10 ∉ pre) (hcr : 13 ∉ pre)
      (h : ¬ LfAfterBareCr (pre ++ 13 :: rest ++ t)) :
      AutoMode (.line (.pendingCr pre.length)) (pre ++ 13 :: rest) t
  | cr {buf t : Bytes} : AutoMode (.line .crMode) buf t

/-- After a bare CR no LF may come. -/
theorem no_lf_after {pre q : Bytes} {b : UInt8} (h : ¬ LfAfterBareCr (pre ++ 13 :: b :: q))
    (hb : b ≠ 10) : 10 ∉ b :: q := by
  rintro (_ | ⟨_, hq⟩)
  · exact hb rfl
  · exact h ⟨pre, b, q, rfl, hb, hq⟩

theorem AutoMode.fed {mode : DecoderMode} {buf a b : Bytes} (h : AutoMode mode buf (a ++ b)) :
    AutoMode mode (buf ++ a) b := by
  cases h with
  | lf h => exact .lf (by rwa [List.append_assoc])
  | pending hlf hcr h =>
    rw [List.append_assoc, List.cons_append]
    refine .pending hlf hcr ?_
    simpa only [List.append_assoc, List.cons_append] using h
  | cr => exact .cr

theorem autoLf_crlf (inc : Bool) {pre : Bytes} (hlf : 10 ∉ pre) (rest : Bytes) :
    matchAutoLf inc (pre ++ 13 :: 10 :: rest) =
      matchPendingCr inc pre.length (pre ++ 13 :: 10 :: rest) := by
  have h : matchAutoLf inc (pre ++ [13] ++ 10 :: rest) = _ :=
    matchAutoLf_lf (by simpa using hlf)
  rw [List.append_assoc, List.singleton_append] at h
  rw [h, matchPendingCr_lf]
  rcases inc with _ | _ <;> simp [lfFrame]

section
variable {inc : Bool} {state state₁ : LineState} {buf rest frame t : Bytes}

theorem splits_of_event (h : extractLine inc state buf = (some frame, state₁, rest))
    (ht : extractLine inc state (buf ++ t) = (some frame, state₁, rest ++ t)) :
    Splits inc (.line state) buf t where
  event hx := by
    simp only [extract, h] at hx
    cases hx
    simp only [extract, ht]
  wait hx := by
    simp [extract, h] at hx

theorem splits_of_wait (h : extractLine inc state buf = (none, state₁, rest))
    (ht : extractLine inc state (buf ++ t) = extractLine inc state₁ (rest ++ t)) :
    Splits inc (.line state) buf t where
  event hx := by
    simp [extract, h] at hx
  wait hx := by
    simp only [extract, h] at hx
    cases hx
    simp only [extract, ht]

end

theorem AutoMode.splits {mode : DecoderMode} {buf t : Bytes} (h : AutoMode mode buf t)
    (inc : Bool) : Splits inc mode buf t := by
  cases h with
  | lf h =>
    rcases auto_cases buf with ⟨pre, rest, rfl, hpre⟩ | ⟨hlf, pre, b, rest, rfl, hpre⟩ |
      ⟨hlf, pre, rfl, hpre⟩ | ⟨hlf, hcr⟩
    · refine splits_of_event (matchAutoLf_lf hpre) ?_
      rw [List.append_assoc]
      exact matchAutoLf_lf hpre
    · -- the bare CR is confirmed in this buffer, and no LF may follow
      refine splits_of_event (matchAutoLf_cr hlf hpre) ?_
      rw [List.append_assoc] at h ⊢
      have hb : b ≠ 10 := by
        rintro rfl
        exact hlf (by simp)
      have hrest := no_lf_after h hb
      refine matchAutoLf_cr ?_ hpre
      simp only [List.mem_append, List.mem_cons] at hlf hrest ⊢
      tauto
    · have hlf' : 10 ∉ pre := fun hp => hlf (by simp [hp])
      refine splits_of_wait (matchAutoLf_pending hlf' hpre) ?_
      rw [List.append_assoc] at h ⊢
      rcases t with _ | ⟨b, t⟩
      · exact (matchAutoLf_pending hlf' hpre).trans matchPendingCr_wait.symm
      · by_cases hb : b = 10
        · subst hb
          exact autoLf_crlf inc hlf' t
        · have hrest := no_lf_after h hb
          refine (matchAutoLf_cr ?_ hpre).trans (matchPendingCr_cr hb).symm
          simp only [List.mem_append, List.mem_cons] at hrest ⊢
          simp only [hlf', false_or]
          exact fun hx => hx.elim (by decide) hrest
    · exact splits_of_wait (matchAutoLf_none hlf hcr) rfl
  | @pending pre rest t hlf hcr h =>
    rcases rest with _ | ⟨b, rest⟩
    · exact splits_of_wait matchPendingCr_wait rfl
    · by_cases hb : b = 10
      · subst hb
        refine splits_of_event matchPendingCr_lf ?_
        rw [List.append_assoc]
        exact matchPendingCr_lf
      · refine splits_of_event (matchPendingCr_cr hb) ?_
        rw [List.append_assoc]
        exact matchPendingCr_cr hb
  | cr =>
    have hm : (DecoderMode.line .crMode).SingleBoundary := trivial
    exact hm.splits inc buf t

theorem AutoMode.extract {mode : DecoderMode} {buf t : Bytes} (h : AutoMode mode buf t)
    (inc : Bool) : AutoMode (extract inc mode buf).2.1 (extract inc mode buf).2.2 t := by
  cases h with
  | lf h =>
    rcases auto_cases buf with ⟨pre, rest, rfl, hpre⟩ | ⟨hlf, pre, b, rest, rfl, hpre⟩ |
      ⟨hlf, pre, rfl, hpre⟩ | ⟨hlf, hcr⟩
    · simp only [SerialMcp.extract, extractLine, matchAutoLf_lf hpre]
      refine .lf fun hl => h ?_
      simpa only [List.append_assoc, List.cons_append, List.nil_append] using
        (hl.append_left [10]).append_left pre
    · simp only [SerialMcp.extract, extractLine, matchAutoLf_cr hlf hpre]
      exact .cr
    · have hlf' : 10 ∉ pre := fun hp => hlf (by simp [hp])
      simp only [SerialMcp.extract, extractLine, matchAutoLf_pending hlf' hpre]
      exact .pending hlf' hpre h
    · simp only [SerialMcp.extract, extractLine, matchAutoLf_none hlf hcr]
      exact .lf h
  | @pending pre rest t hlf hcr h =>
    rcases rest with _ | ⟨b, rest⟩
    · simp only [SerialMcp.extract, extractLine, matchPendingCr_wait]
      exact .pending hlf hcr h
    · by_cases hb : b = 10
      · subst hb
        simp only [SerialMcp.extract, extractLine, matchPendingCr_lf]
        refine .lf fun hl => h ?_
        simpa only [List.append_assoc, List.cons_append, List.nil_append] using
          (hl.append_left [13, 10]).append_left pre
      · simp only [SerialMcp.extract, extractLine, matchPendingCr_cr hb]
        exact .cr
  | cr => exact .cr

/-! ## Invariance -/

namespace FrameDecoder

variable {d : FrameDecoder}

/-- A decoder whose parser raises nothing but checksum mismatches. -/
def NoFatal (d : FrameDecoder) : Prop := ∀ p ∈ d.parser, ∃ validate, ChecksumErrors validate p

theorem emitFrame_ok {skip : Bool} {parser : Option FrameParser} {count : ℕ} {ft : FrameType}
    {data : Bytes} (hp : ∀ p ∈ parser, ∃ validate, ChecksumErrors validate p) :
    (emitFrame skip parser count ft data).1.2 = none := by
  simp only [emitFrame]
  split
  · rfl
  · rcases parser with _ | p
    · rfl
    · obtain ⟨validate, hv⟩ := hp p rfl
      simp only [Option.map_some]
      rcases hr : p data with e | r
      · obtain ⟨-, expected, received, rfl⟩ := hv data e hr
        rfl
      · rfl

theorem settle_noFatal {Q : FrameDecoder → Prop}
    (hQ : ∀ {d}, Q d → d.Extracts ∧ d.NoFatal ∧ Q d.next.2) (h : Q d) :
    (decoder.settle d).2.1 = none := by
  refine Extractor.settle_ok (Q := Q) (fun {d e d₁} hd hn => ?_) h
  have hn' : d.next = (some e, d₁) := hn
  obtain ⟨hx, hfatal, hstable⟩ := hQ hd
  rw [hn'] at hstable
  refine ⟨?_, hstable⟩
  rw [next_of_extracts hx] at hn'
  rcases hf : (extract d.includeTerminators d.mode d.buf).1 with _ | frame
  · simp [nextFrame, hf] at hn'
  · simp only [nextFrame, hf] at hn'
    cases hn'
    exact emitFrame_ok hfatal

theorem new_noFatal {crates : Crates} {config : RxFramingConfig} {pc : Option ParserConfig}
    (h : new crates config pc = .ok d) : d.NoFatal := by
  have hp := (new_fresh h).parser
  intro p hmem
  obtain hmem : d.parser = some p := hmem
  rw [hmem] at hp
  rcases pc with _ | pc
  · cases hp
  · rcases hb : buildParser crates pc with e | q
    · rw [newParser, hb] at hp
      cases hp
    · rw [newParser, hb] at hp
      cases hp
      exact ⟨pc.validate, buildParser_error hb⟩

theorem auto_extracts {t : Bytes} (h : AutoMode d.mode d.buf t) : d.Extracts := by
  obtain ⟨buf, mode, count, inc, skip, parser⟩ := d
  cases h <;> exact ⟨by simp [DecoderMode.frameType], by simp [DecoderMode.frameType]⟩

/-- The state of an `auto` decoder with `t` still to come. -/
def AutoReady (d : FrameDecoder) (t : Bytes) : Prop := AutoMode d.mode d.buf t ∧ d.NoFatal

theorem autoReady_next {t : Bytes} (h : d.AutoReady t) : d.next.2.AutoReady t := by
  rw [next_of_extracts (auto_extracts h.1)]
  have hx := h.1.extract d.includeTerminators
  rcases hf : (extract d.includeTerminators d.mode d.buf).1 with _ | frame
  · simp only [nextFrame, hf]
    exact ⟨hx, h.2⟩
  · simp only [nextFrame, hf]
    exact ⟨hx, h.2⟩

theorem autoReady_lawful : extractor.Lawful AutoReady :=
  extractor_lawful (fun h => ⟨h.1.fed, h.2⟩) (fun h => h.1.splits _) autoReady_next

theorem autoReady_ok {t : Bytes} (h : d.AutoReady t) : (decoder.settle d).2.1 = none :=
  settle_noFatal (Q := fun d => d.AutoReady t)
    (fun h => ⟨auto_extracts h.1, h.2, autoReady_next h⟩) h

/-- Every two ways of cutting `s` give the same frames and pending bytes. -/
def ChunkInvariantOn (d : FrameDecoder) (s : Bytes) : Prop :=
  ∀ cs cs' : List Bytes, cs.flatten = s → cs'.flatten = s →
    (decoder.pushAll d cs).1.frames = (decoder.pushAll d cs').1.frames ∧
      (decoder.pushAll d cs).2.2.buf = (decoder.pushAll d cs').2.2.buf

/-- Without an LF after a bare CR, all chunkings give the same. -/
theorem auto_pushAll_congr {crates : Crates} {config : RxFramingConfig} {pc : Option ParserConfig}
    (h : new crates config pc = .ok d) (hm : config.mode = .line .auto) {s : Bytes}
    (hs : ¬ LfAfterBareCr s) {cs cs' : List Bytes} (hcs : cs.flatten = s)
    (hcs' : cs'.flatten = s) : decoder.pushAll d cs = decoder.pushAll d cs' := by
  obtain ⟨hbuf, hmode, -⟩ := new_fresh h
  rw [hm] at hmode
  obtain ⟨buf, mode, count, inc, skip, parser⟩ := d
  obtain rfl : buf = [] := hbuf
  obtain rfl : .line .autoLf = mode := Except.ok.inj hmode
  have hready : AutoReady ⟨[], .line .autoLf, count, inc, skip, parser⟩ cs.flatten :=
    ⟨.lf (by rwa [hcs]), new_noFatal h⟩
  exact autoReady_lawful.decoder.pushAll_congr autoReady_ok rfl hready (hcs.trans hcs'.symm)

theorem auto_invariant {crates : Crates} {config : RxFramingConfig} {pc : Option ParserConfig}
    (h : new crates config pc = .ok d) (hm : config.mode = .line .auto) {s : Bytes}
    (hs : ¬ LfAfterBareCr s) : d.ChunkInvariantOn s := by
  intro cs cs' hcs hcs'
  have hpush := auto_pushAll_congr h hm hs hcs hcs'
  exact ⟨congrArg (fun r => r.1.frames) hpush, congrArg (fun r => r.2.2.buf) hpush⟩

/-! ## With one, two chunkings differ -/

/-- An `auto` decoder without options or parser. -/
def plainAuto (buf : Bytes) (count : ℕ) : FrameDecoder :=
  ⟨buf, .line .autoLf, count, false, false, none⟩

/-- The frames of a `plainAuto` decoder begin with the line of the first LF. -/
theorem frames_lf {pre : Bytes} (rest : Bytes) (n : ℕ) (h : 10 ∉ pre) :
    (decoder.settle (plainAuto (pre ++ 10 :: rest) n)).1.frames =
      ⟨lfFrame false pre, n, .line, none⟩ ::
        (decoder.settle (plainAuto rest (n + 1))).1.frames := by
  have hn : (plainAuto (pre ++ 10 :: rest) n).next =
      (some (⟨[⟨lfFrame false pre, n, .line, none⟩], 0⟩, none), plainAuto rest (n + 1)) := by
    simp only [plainAuto, next, nextFrame, extract, extractLine, matchAutoLf_lf h]
    rfl
  exact congrArg (fun r => r.1.frames) (settle_event hn)

/-- Without an LF in sight, they begin with the line of the first CR. -/
theorem frames_cr {pre rest : Bytes} {b : UInt8} (n : ℕ) (hlf : 10 ∉ pre ++ 13 :: b :: rest)
    (hcr : 13 ∉ pre) : ∃ more, (decoder.settle (plainAuto (pre ++ 13 :: b :: rest) n)).1.frames =
      ⟨pre, n, .line, none⟩ :: more := by
  have hn : (plainAuto (pre ++ 13 :: b :: rest) n).next =
      (some (⟨[⟨pre, n, .line, none⟩], 0⟩, none),
        ⟨b :: rest, .line .crMode, n + 1, false, false, none⟩) := by
    simp only [plainAuto, next, nextFrame, extract, extractLine, matchAutoLf_cr hlf hcr]
    rfl
  exact ⟨_, congrArg (fun r => r.1.frames) (settle_event hn)⟩

theorem lfFrame_length (pre : Bytes) : pre.length ≤ (lfFrame false pre).length + 1 := by
  simp only [lfFrame, Bool.false_eq_true, if_false]
  split
  · rw [List.length_dropLast]
    omega
  · omega

theorem first_cr {p : Bytes} {b : UInt8} (hp : 10 ∉ p) (hb : b ≠ 10) :
    ∃ pre c rest, p ++ [13, b] = pre ++ 13 :: c :: rest ∧ 13 ∉ pre ∧ pre.length ≤ p.length := by
  have hcr : (13 : UInt8) ∈ (p ++ [13, b]).take (p.length + 1) := by
    simp [List.take_append]
  rcases auto_cases (p ++ [13, b]) with ⟨pre, rest, he, -⟩ | ⟨-, pre, c, rest, he, hpre⟩ |
    ⟨-, pre, he, hpre⟩ | ⟨-, hno⟩
  · have : (10 : UInt8) ∈ p ++ [13, b] := by simp [he]
    simp [hp, hb.symm] at this
  · refine ⟨pre, c, rest, he, hpre, ?_⟩
    by_contra hlen
    rw [he, List.take_append_of_le_length (by omega)] at hcr
    exact hpre (List.mem_of_mem_take hcr)
  · have hlen : p.length + 1 ≤ pre.length := by
      have := congrArg List.length he
      simp only [List.length_append, List.length_cons, List.length_nil] at this
      omega
    rw [he, List.take_append_of_le_length hlen] at hcr
    exact absurd (List.mem_of_mem_take hcr) hpre
  · exact absurd (List.mem_of_mem_take hcr) hno

/-- Seen up to the byte after a bare CR, and seen as a whole, `s` decodes
    differently. -/
theorem frames_differ {b : UInt8} {q : Bytes} (hb : b ≠ 10) (hq : (10 : UInt8) ∈ q) :
    ∀ (k : ℕ) (p : Bytes) (n : ℕ), p.length < k →
      ¬ (decoder.settle (plainAuto (p ++ [13, b]) n)).1.frames <+:
        (decoder.settle (plainAuto (p ++ 13 :: b :: q) n)).1.frames
  | k + 1, p, n, hk => by
    by_cases hp : (10 : UInt8) ∈ p
    · -- the lines up to the last LF of `p` are the same
      obtain ⟨i, hi⟩ : ∃ i, position p 10 = some i :=
        Option.ne_none_iff_exists'.mp fun e => position_eq_none.mp e hp
      obtain ⟨pre, rest, rfl, -, hpre⟩ := position_eq_some.mp hi
      rw [List.append_assoc, List.append_assoc, List.cons_append, List.cons_append,
        frames_lf _ _ hpre, frames_lf _ _ hpre, List.cons_prefix_cons]
      rintro ⟨-, h⟩
      refine frames_differ hb hq k rest (n + 1) ?_ h
      simp only [List.length_append, List.length_cons] at hk
      omega
    · -- now the first line ends at an LF behind the CR, or at a CR
      obtain ⟨i, hi⟩ : ∃ i, position q 10 = some i :=
        Option.ne_none_iff_exists'.mp fun e => position_eq_none.mp e hq
      obtain ⟨u, v, rfl, -, hu⟩ := position_eq_some.mp hi
      obtain ⟨pre, c, rest, he, hpre, hlen⟩ := first_cr hp hb
      have hno : 10 ∉ pre ++ 13 :: c :: rest := by
        rw [← he]
        simp [hp, hb.symm]
      obtain ⟨more, hmore⟩ := frames_cr n hno hpre
      have hline : (10 : UInt8) ∉ p ++ 13 :: b :: u := by
        simp [hp, hu, hb.symm]
      have hleft := frames_lf v n hline
      rw [List.append_assoc, List.cons_append, List.cons_append] at hleft
      rw [he, hmore, hleft, List.cons_prefix_cons]
      rintro ⟨hf, -⟩
      have hdata : pre = lfFrame false (p ++ 13 :: b :: u) := congrArg Frame.data hf
      have hle := lfFrame_length (p ++ 13 :: b :: u)
      rw [← hdata] at hle
      simp only [List.length_append, List.length_cons] at hle
      omega

/-- **Exactly the input without an LF after a bare CR is chunk invariant**: on
    it every `auto` decoder emits the same frames and keeps the same bytes for
    all chunkings, and on every other input some `auto` decoder does not. -/
theorem auto_invariant_iff (s : Bytes) :
    (∀ {crates config pc d}, new crates config pc = .ok d → config.mode = .line .auto →
      d.ChunkInvariantOn s) ↔ ¬ LfAfterBareCr s := by
  constructor
  · rintro h ⟨p, b, q, rfl, hb, hq⟩
    have hnew : new .refusing ⟨.line .auto, none, false, false⟩ none = .ok (plainAuto [] 0) := rfl
    obtain ⟨hframes, -⟩ := h hnew rfl [p ++ [13, b], q] [p ++ 13 :: b :: q] (by simp) (by simp)
    refine frames_differ hb hq (p.length + 1) p 0 (Nat.lt_succ_self _) ?_
    have hwhole : (decoder.pushAll (plainAuto [] 0) [p ++ 13 :: b :: q]).1.frames =
        (decoder.settle (plainAuto (p ++ 13 :: b :: q) 0)).1.frames := by
      simp only [Decoder.pushAll, mul_one]
      rfl
    rw [← hwhole, ← hframes]
    exact ⟨_, rfl⟩
  · intro hs crates config pc d h hm
    exact auto_invariant h hm hs

/-- The bytes `a CR b LF`, at once and with the LF in a chunk of its own. -/
theorem auto_not_invariant : ¬ ∀ (crates : Crates) (config : RxFramingConfig)
    (pc : Option ParserConfig) (d : FrameDecoder), new crates config pc = .ok d →
      config.mode = .line .auto → ∀ s, d.ChunkInvariantOn s := by
  intro h
  have hs := (h .refusing ⟨.line .auto, none, false, false⟩ none _ rfl rfl [97, 13, 98, 10]
    [[97, 13, 98, 10]] [[97, 13, 98], [10]] rfl rfl).1
  have hdata := congrArg (List.map Frame.data) hs
  revert hdata
  decide

end FrameDecoder

end SerialMcp
