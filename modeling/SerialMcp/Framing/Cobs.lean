/-
  COBS: what is sent is what is received, and when other senders and line noise
  are understood.

  * `cobsStuff_spec`: `cobs_stuff` emits no zero byte, and the decoder rebuilds
    the payload from it, inside any frame;
  * `cobs_roundTrip`: the concatenated encodings of any payloads, in any
    chunking, decode to the payloads;
  * `cobs_delimiters_iff`: with runs of delimiters of any length, a payload is
    received exactly if an odd number of delimiters stands in front of it,
    since every second one opens a frame;
  * `cobs_resyncs_iff`: behind noise, packets are received exactly if the noise
    leaves the decoder outside a frame.
-/
import Mathlib.Algebra.Ring.Parity
import SerialMcp.Framing.Encode
import SerialMcp.Framing.Streams

namespace SerialMcp

open Incremental FrameDecoder

/-! ## The automaton without a parser -/

/-- One byte of `cobs_decode` without a parser. -/
def cobsStep (skip : Bool) (st : CobsState) (b : UInt8) :
    List Bytes × Option FrameDecodeError × CobsState :=
  let r := cobsByte skip none 0 b (cobsFlush st)
  (r.1.1.frames.map Frame.data, r.1.2, r.2.1)

/-- What has been decoded once a pending zero is flushed. -/
def flushed (decoded : Bytes) (pendingZero : Bool) : Bytes :=
  if pendingZero then decoded ++ [0] else decoded

theorem cobsFlush_zero (q : Bytes) (pz : Bool) :
    cobsFlush (.inFrame q 0 pz) = .inFrame (flushed q pz) 0 false := by
  cases pz <;> rfl

theorem dropPhantom_concat (q : Bytes) : dropPhantom (q ++ [0]) = q := by
  simp [dropPhantom]

section
variable {skip : Bool} {b : UInt8} {q : Bytes} {n : ℕ} {pz : Bool}

theorem cobsStep_begin : cobsStep skip .beforeFirstDelim 0 = ([], none, .inFrame [] 0 false) := rfl

theorem cobsStep_discard (h : b ≠ 0) :
    cobsStep skip .beforeFirstDelim b = ([], none, .beforeFirstDelim) := by
  simp [cobsStep, cobsFlush, cobsByte, h]

theorem cobsStep_data :
    cobsStep skip (.inFrame q (n + 1) pz) b = ([], none, .inFrame (q ++ [b]) n pz) := rfl

theorem cobsStep_delimiter : cobsStep skip (.inFrame q 0 pz) 0 =
    (kept skip (dropPhantom (flushed q pz)), none, .beforeFirstDelim) := by
  obtain ⟨o, n, he, hframes⟩ := emitFrame_plain skip 0 .cobs (dropPhantom (flushed q pz))
  simp [cobsStep, cobsFlush_zero, cobsByte, he, hframes]

theorem cobsStep_full :
    cobsStep skip (.inFrame q 0 pz) 255 = ([], none, .inFrame (flushed q pz) 254 false) := by
  simp [cobsStep, cobsFlush_zero, cobsByte]

theorem cobsStep_code (h : b ≠ 0) (h' : b ≠ 255) : cobsStep skip (.inFrame q 0 pz) b =
    ([], none, .inFrame (flushed q pz) (b.toNat - 1) true) := by
  simp [cobsStep, cobsFlush_zero, cobsByte, h, h']

/-- The frame count only numbers the frames. -/
theorem cobsByte_plain (skip : Bool) (n : ℕ) (b : UInt8) (st : CobsState) :
    ∃ o n', cobsByte skip none n b (cobsFlush st) =
        ((o, (cobsStep skip st b).2.1), (cobsStep skip st b).2.2, n') ∧
      o.frames.map Frame.data = (cobsStep skip st b).1 := by
  rcases st with _ | ⟨q, _ | r, pz⟩
  · exact ⟨1, n, rfl, rfl⟩
  · by_cases hb : b = 0
    · subst hb
      obtain ⟨o, n', he, hframes⟩ := emitFrame_plain skip n .cobs (dropPhantom (flushed q pz))
      rw [cobsStep_delimiter]
      refine ⟨o, n', ?_, hframes⟩
      simp [cobsFlush_zero, cobsByte, he]
    · by_cases hf : b = 255
      · subst hf
        rw [cobsStep_full]
        refine ⟨1, n, ?_, rfl⟩
        simp [cobsFlush_zero, cobsByte]
      · rw [cobsStep_code hb hf]
        refine ⟨1, n, ?_, rfl⟩
        simp [cobsFlush_zero, cobsByte, hb, hf]
  · exact ⟨1, n, rfl, rfl⟩

end

/-- **The COBS decoder is its automaton**, byte by byte. -/
theorem FrameDecoder.Decodes.cobs (inc skip : Bool) (st : CobsState) (bs : Bytes) (count : ℕ) :
    Decodes (plain (.cobs st) inc skip bs count) (scan (cobsStep skip) st bs).1
      (scan (cobsStep skip) st bs).2.1
      (.cobs (cobsFlush (scan (cobsStep skip) st bs).2.2)) [] := by
  induction bs generalizing st count with
  | nil =>
    have hn : (plain (.cobs st) inc skip [] count).next =
        (none, plain (.cobs (cobsFlush st)) inc skip [] count) := rfl
    exact Decodes.wait hn
  | cons b bs ih =>
    obtain ⟨o, n, hb, hframes⟩ := cobsByte_plain skip count b st
    have hn : (plain (.cobs st) inc skip (b :: bs) count).next =
        (some (o, (cobsStep skip st b).2.1),
          plain (.cobs (cobsStep skip st b).2.2) inc skip bs n) := by
      simp only [next, nextCobs, plain, hb]
    simp only [scan]
    rw [← hframes]
    exact Decodes.event hn (ih _ n)

/-! ## Blocks -/

section
variable {skip : Bool} {q run : Bytes} {pz : Bool}

theorem scan_cobsData (q run : Bytes) (pz : Bool) :
    scan (cobsStep skip) (.inFrame q run.length pz) run = ([], [], .inFrame (q ++ run) 0 pz) := by
  induction run generalizing q with
  | nil =>
    rw [List.append_nil]
    rfl
  | cons b run ih =>
    simp only [List.length_cons, scan, cobsStep_data, ih]
    simp

theorem scan_cobsBlock {code : UInt8} (hcode : code.toNat = run.length + 1)
    (hrun : run.length < 254) : scan (cobsStep skip) (.inFrame q 0 pz) (code :: run) =
      ([], [], .inFrame (flushed q pz ++ run) 0 true) := by
  have h0 : code ≠ 0 := by
    rintro rfl
    simp at hcode
  have h255 : code ≠ 255 := by
    rintro rfl
    have : (255 : UInt8).toNat = 255 := rfl
    omega
  have hlen : code.toNat - 1 = run.length := by omega
  simp only [scan, cobsStep_code h0 h255, hlen, scan_cobsData]
  rfl

/-- A block of 254 bytes without a zero. -/
theorem scan_cobsFull (hrun : run.length = 254) :
    scan (cobsStep skip) (.inFrame q 0 pz) (255 :: run) =
      ([], [], .inFrame (flushed q pz ++ run) 0 false) := by
  simp only [scan, cobsStep_full, ← hrun, scan_cobsData]
  rfl

/-- Bytes other than zero are discarded outside a frame. -/
theorem scan_cobsDiscard {bs : Bytes} (h : 0 ∉ bs) :
    scan (cobsStep skip) .beforeFirstDelim bs = ([], [], .beforeFirstDelim) := by
  induction bs with
  | nil => rfl
  | cons b bs ih =>
    rw [List.mem_cons, not_or] at h
    obtain ⟨hb, hbs⟩ := h
    simp only [scan, cobsStep_discard (Ne.symm hb), ih hbs]
    rfl

end

/-! ## The encoder -/

/-- The loop of `cobs_stuff` on the payload `p`: finished blocks, then the
    placeholder and the bytes of the current block; from the finished blocks, a
    decoder in a frame with `q₀` rebuilds all but these bytes. -/
structure CobsStuffing.Builds (s : CobsStuffing) (p : Bytes) (done run : Bytes) : Prop where
  out : s.out = done ++ 0 :: run
  codeIndex : s.codeIndex = done.length
  code : s.code.toNat = run.length + 1
  short : run.length < 254
  done_ne : 0 ∉ done
  run_ne : 0 ∉ run
  decodes : ∀ (skip : Bool) (q₀ : Bytes) (pz₀ : Bool), ∃ q pz,
    scan (cobsStep skip) (.inFrame q₀ 0 pz₀) done = ([], [], .inFrame q 0 pz) ∧
      flushed q pz ++ run = flushed q₀ pz₀ ++ p

namespace CobsStuffing
variable {s : CobsStuffing} {p done run : Bytes}

theorem Builds.patch (h : s.Builds p done run) (code : UInt8) :
    s.out.set s.codeIndex code = done ++ code :: run := by
  rw [h.out, h.codeIndex]
  simp

theorem Builds.code_ne (h : s.Builds p done run) : s.code ≠ 0 := by
  intro h0
  have hcode := h.code
  rw [h0] at hcode
  simp at hcode

/-- **Step**: a zero ends the block. -/
theorem Builds.zero (h : s.Builds p done run) :
    (s.byte 0).Builds (p ++ [0]) (done ++ s.code :: run) [] := by
  have hlen : s.out.length = (done ++ s.code :: run).length := by
    rw [h.out]
    simp
  refine ⟨?_, hlen, rfl, by decide, ?_, by simp, ?_⟩
  · simp only [byte, close, if_true, h.patch]
  · simp only [List.mem_append, List.mem_cons, not_or]
    exact ⟨h.done_ne, h.code_ne.symm, h.run_ne⟩
  · intro skip q₀ pz₀
    obtain ⟨q, pz, hscan, hp⟩ := h.decodes skip q₀ pz₀
    refine ⟨flushed q pz ++ run, true, ?_, ?_⟩
    · rw [scan_silent hscan, scan_cobsBlock h.code h.short]
    · rw [hp]
      simp [flushed]

theorem Builds.saturatingSucc (h : s.Builds p done run) :
    (saturatingSucc s.code).toNat = run.length + 2 := by
  have hcode := h.code
  have hshort := h.short
  have hne : s.code ≠ 255 := by
    intro h255
    rw [h255] at hcode
    have : (255 : UInt8).toNat = 255 := rfl
    omega
  rw [SerialMcp.saturatingSucc, if_neg hne, UInt8.toNat_add, hcode]
  have : (1 : UInt8).toNat = 1 := rfl
  omega

/-- **Step**: another byte, which may fill the block. -/
theorem Builds.nonzero (h : s.Builds p done run) {b : UInt8} (hb : b ≠ 0) :
    ∃ done' run', (s.byte b).Builds (p ++ [b]) done' run' := by
  have hsucc := h.saturatingSucc
  have hgrown : s.out ++ [b] = done ++ 0 :: (run ++ [b]) := by
    rw [h.out]
    simp
  have hrun : (0 : UInt8) ∉ run ++ [b] := by
    simp only [List.mem_append, List.mem_singleton, not_or]
    exact ⟨h.run_ne, hb.symm⟩
  by_cases hfull : SerialMcp.saturatingSucc s.code = 255
  · have hlen : (run ++ [b]).length = 254 := by
      rw [hfull] at hsucc
      have : (255 : UInt8).toNat = 255 := rfl
      rw [List.length_append, List.length_singleton]
      omega
    refine ⟨done ++ 255 :: (run ++ [b]), [], ?_, ?_, ?_, by decide, ?_, by simp, ?_⟩
    · simp only [byte, hb, if_false, hfull, if_true, close, hgrown, h.codeIndex]
      simp
    · simp only [byte, hb, if_false, hfull, if_true, close, hgrown]
      simp
    · simp only [byte, hb, if_false, hfull, if_true, close]
      rfl
    · simp only [List.mem_append, List.mem_cons, not_or] at hrun ⊢
      exact ⟨h.done_ne, by decide, hrun⟩
    · intro skip q₀ pz₀
      obtain ⟨q, pz, hscan, hp⟩ := h.decodes skip q₀ pz₀
      refine ⟨flushed q pz ++ (run ++ [b]), false, ?_, ?_⟩
      · rw [scan_silent hscan, scan_cobsFull hlen]
      · rw [← List.append_assoc, hp]
        simp [flushed]
  · have hlt : run.length + 2 ≠ 255 := by
      intro hlt
      refine hfull (UInt8.toNat_inj.1 ?_)
      rw [hsucc, hlt]
      rfl
    have hle := h.short
    refine ⟨done, run ++ [b], ?_, ?_, ?_, ?_, h.done_ne, hrun, ?_⟩
    · simp only [byte, hb, if_false, hfull, hgrown]
    · simp only [byte, hb, if_false, hfull, h.codeIndex]
    · simp only [byte, hb, if_false, hfull, hsucc]
      simp
    · rw [List.length_append, List.length_singleton]
      omega
    · intro skip q₀ pz₀
      obtain ⟨q, pz, hscan, hp⟩ := h.decodes skip q₀ pz₀
      refine ⟨q, pz, hscan, ?_⟩
      rw [← List.append_assoc, hp, List.append_assoc]

/-- **Run**: the loop over a payload. -/
theorem builds_foldl (p : Bytes) :
    ∃ done run, (p.foldl byte ⟨[0], 0, 1⟩).Builds p done run := by
  induction p using List.reverseRecOn with
  | nil =>
    refine ⟨[], [], rfl, rfl, rfl, by decide, by simp, by simp, ?_⟩
    intro skip q₀ pz₀
    exact ⟨q₀, pz₀, rfl, rfl⟩
  | append_singleton p b ih =>
    obtain ⟨done, run, h⟩ := ih
    rw [List.foldl_concat]
    by_cases hb : b = 0
    · subst hb
      exact ⟨_, _, h.zero⟩
    · exact h.nonzero hb

end CobsStuffing

/-- **Stuffing** leaves no zero byte, and inside a frame the decoder rebuilds
    the payload, its phantom zero pending. -/
theorem cobsStuff_spec (p : Bytes) : 0 ∉ cobsStuff p ∧
    ∀ (skip : Bool) (q : Bytes) (pz : Bool),
      scan (cobsStep skip) (.inFrame q 0 pz) (cobsStuff p) =
        ([], [], .inFrame (flushed q pz ++ p) 0 true) := by
  obtain ⟨done, run, h⟩ := CobsStuffing.builds_foldl p
  have hstuff : cobsStuff p = _ := h.patch _
  rw [hstuff]
  constructor
  · simp only [List.mem_append, List.mem_cons, not_or]
    exact ⟨h.done_ne, h.code_ne.symm, h.run_ne⟩
  · intro skip q pz
    obtain ⟨q', pz', hscan, hp⟩ := h.decodes skip q pz
    rw [scan_silent hscan, scan_cobsBlock h.code h.short, hp]

/-! ## Round trip -/

/-- A message as `encode` builds it. -/
def cobsMessage (p : Bytes) : Bytes := 0 :: cobsStuff p ++ [0]

section
variable {skip : Bool}

theorem scan_cobsBody (q : Bytes) (pz : Bool) (p : Bytes) :
    scan (cobsStep skip) (.inFrame q 0 pz) (cobsStuff p ++ [0]) =
      (kept skip (flushed q pz ++ p), [], .beforeFirstDelim) := by
  rw [scan_silent ((cobsStuff_spec p).2 skip q pz)]
  have hphantom : dropPhantom (flushed (flushed q pz ++ p) true) = flushed q pz ++ p :=
    dropPhantom_concat _
  simp [scan, cobsStep_delimiter, hphantom]

theorem scan_cobsMessage (p : Bytes) :
    scan (cobsStep skip) .beforeFirstDelim (cobsMessage p) =
      (kept skip p, [], .beforeFirstDelim) := by
  simp only [cobsMessage, List.cons_append, scan, cobsStep_begin, scan_cobsBody]
  rfl

theorem scan_cobsMessages (ps : List Bytes) :
    scan (cobsStep skip) .beforeFirstDelim (ps.flatMap cobsMessage) =
      (ps.flatMap (kept skip), [], .beforeFirstDelim) := by
  induction ps with
  | nil => rfl
  | cons p ps ih =>
    rw [List.flatMap_cons, scan_append, scan_cobsMessage, ih]
    rfl

/-- What a fresh decoder receives, in any chunking. -/
theorem cobs_received {inc : Bool} {s : Bytes} {out : List Bytes} {st : CobsState}
    (hscan : scan (cobsStep skip) .beforeFirstDelim s = (out, [], st)) {cs : List Bytes}
    (hcs : cs.flatten = s) :
    (plain (.cobs .beforeFirstDelim) inc skip [] 0).received cs = out ∧
      (plain (.cobs .beforeFirstDelim) inc skip [] 0).faults cs = [] := by
  have hdec := Decodes.cobs inc skip .beforeFirstDelim s 0
  rw [hscan] at hdec
  obtain ⟨hreceived, hfaults, -⟩ := Decodes.received
    (d := plain (.cobs .beforeFirstDelim) inc skip [] 0) trivial rfl hdec hcs
  exact ⟨hreceived, hfaults⟩

theorem scan_cobs_errors (st : CobsState) (bs : Bytes) :
    (scan (cobsStep skip) st bs).2.1 = [] := by
  induction bs generalizing st with
  | nil => rfl
  | cons b bs ih =>
    have hstep : (cobsStep skip st b).2.1 = none := by
      rcases st with _ | ⟨q, _ | n, pz⟩
      · rfl
      · by_cases hb : b = 0
        · subst hb
          rw [cobsStep_delimiter]
        · by_cases hf : b = 255
          · subst hf
            rw [cobsStep_full]
          · rw [cobsStep_code hb hf]
      · rfl
    simp [scan, hstep, ih]

end

theorem newMode_cobs (crates : Crates) : newMode crates .cobs = .ok (.cobs .beforeFirstDelim) := rfl

/-- **COBS round trip.** Every payload is encoded as a block without zero bytes
    between two of them, and the encodings of any payloads, cut into any
    chunks, decode to exactly the payloads without an error. -/
theorem cobs_roundTrip (crates : Crates) (maxFrames : Option ℕ) (inc : Bool) (ps : List Bytes) :
    (∀ p, ∃ block, TxFramingMode.cobs.encode crates p = .ok (0 :: block ++ [0]) ∧ 0 ∉ block) ∧
    ∃ d stream, FrameDecoder.new crates ⟨.cobs, maxFrames, inc, false⟩ none = .ok d ∧
      TxFramingMode.cobs.encodeAll crates ps = .ok stream ∧
      ∀ cs : List Bytes, cs.flatten = stream → d.received cs = ps ∧ d.faults cs = [] := by
  have hencode (p : Bytes) : TxFramingMode.cobs.encode crates p = .ok (cobsMessage p) := rfl
  constructor
  · intro p
    exact ⟨cobsStuff p, rfl, (cobsStuff_spec p).1⟩
  · refine ⟨_, _, new_plain (newMode_cobs crates),
      TxFramingMode.encodeAll_of_encode fun p _ => hencode p, ?_⟩
    intro cs hcs
    have hscan : scan (cobsStep false) _ _ = _ := scan_cobsMessages ps
    rw [flatMap_kept_false] at hscan
    exact cobs_received hscan hcs

/-- A zero, and two bytes without one, each cut in the middle. -/
theorem cobs_roundTrip_zeros : ∃ d,
    FrameDecoder.new .refusing ⟨.cobs, none, false, false⟩ none = .ok d ∧
      d.received [[0, 1, 1], [0, 0, 3], [65, 66, 0]] = [[0], [65, 66]] := by
  obtain ⟨-, d, stream, hnew, hstream, h⟩ :=
    cobs_roundTrip .refusing none false [[0], [65, 66]]
  obtain rfl := Except.ok.inj hstream
  exact ⟨d, hnew, (h [[0, 1, 1], [0, 0, 3], [65, 66, 0]] (by decide)).1⟩

/-! ## Runs of delimiters -/

/-- The state between messages: inside an empty frame or outside one. -/
def cobsBetween (inside : Bool) : CobsState :=
  if inside then .inFrame [] 0 false else .beforeFirstDelim

theorem scan_delimiters (inside : Bool) (k : ℕ) :
    scan (cobsStep true) (cobsBetween inside) (List.replicate k 0) =
      ([], [], cobsBetween (inside ^^ decide (Odd k))) := by
  induction k generalizing inside with
  | zero => simp [scan]
  | succ k ih =>
    have hstep : cobsStep true (cobsBetween inside) 0 = ([], none, cobsBetween (!inside)) := by
      cases inside <;> rfl
    simp only [List.replicate_succ, scan, hstep, ih, Nat.odd_add_one]
    cases inside <;> by_cases hk : Odd k <;> simp [hk]

/-- A stuffed payload and a run of delimiters: it is received inside a frame
    only, and the run decides what comes next. -/
theorem scan_delimited (inside : Bool) (p : Bytes) {k : ℕ} (hk : 1 ≤ k) :
    scan (cobsStep true) (cobsBetween inside) (cobsStuff p ++ List.replicate k 0) =
      (if inside then kept true p else [], [], cobsBetween (inside ^^ decide (Odd k))) := by
  obtain ⟨k, rfl⟩ : ∃ j, k = j + 1 := ⟨k - 1, by omega⟩
  rcases inside with _ | _
  · rw [cobsBetween, if_neg (by decide), scan_silent (scan_cobsDiscard (cobsStuff_spec p).1)]
    exact scan_delimiters false (k + 1)
  · have hrun : scan (cobsStep true) .beforeFirstDelim (List.replicate k 0) = _ :=
      scan_delimiters false k
    rw [List.replicate_succ, ← List.singleton_append, ← List.append_assoc, scan_append]
    simp only [cobsBetween, if_true, scan_cobsBody, hrun, Nat.odd_add_one]
    by_cases hodd : Odd k <;> simp [hodd, flushed]

/-- The stream `0^k₀ stuff(p₁) 0^k₁ stuff(p₂) 0^k₂ ...`. -/
def cobsDelimited (k₀ : ℕ) (msgs : List (Bytes × ℕ)) : Bytes :=
  List.replicate k₀ 0 ++ msgs.flatMap fun m => cobsStuff m.1 ++ List.replicate m.2 0

/-- The payloads behind an odd number of delimiters, of which there have been `n`. -/
def heard : ℕ → List (Bytes × ℕ) → List Bytes
  | _, [] => []
  | n, (p, k) :: msgs => (if Odd n then kept true p else []) ++ heard (n + k) msgs

theorem scan_heard {msgs : List (Bytes × ℕ)} (hk : ∀ m ∈ msgs, 1 ≤ m.2) (n : ℕ) :
    ∃ st, scan (cobsStep true) (cobsBetween (decide (Odd n)))
      (msgs.flatMap fun m => cobsStuff m.1 ++ List.replicate m.2 0) = (heard n msgs, [], st) := by
  induction msgs generalizing n with
  | nil => exact ⟨_, rfl⟩
  | cons m msgs ih =>
    obtain ⟨p, k⟩ := m
    obtain ⟨st, hst⟩ := ih (fun m hm => hk m (by simp [hm])) (n + k)
    refine ⟨st, ?_⟩
    have hodd : (decide (Odd n) ^^ decide (Odd k)) = decide (Odd (n + k)) := by
      by_cases hn : Odd n <;> by_cases hk' : Odd k <;>
        simp [hn, hk', Nat.odd_add, ← Nat.not_odd_iff_even]
    rw [List.flatMap_cons, scan_append, scan_delimited _ p (hk (p, k) (by simp)), hodd, hst]
    simp [heard]

theorem scan_cobsDelimited {msgs : List (Bytes × ℕ)} (hk : ∀ m ∈ msgs, 1 ≤ m.2) (k₀ : ℕ) :
    ∃ st, scan (cobsStep true) .beforeFirstDelim (cobsDelimited k₀ msgs) =
      (heard k₀ msgs, [], st) := by
  obtain ⟨st, hst⟩ := scan_heard hk k₀
  refine ⟨st, ?_⟩
  have hrun : scan (cobsStep true) .beforeFirstDelim (List.replicate k₀ 0) = _ :=
    scan_delimiters false k₀
  rw [cobsDelimited, scan_silent hrun, Bool.false_xor, hst]

/-- An odd number of delimiters stands in front of every payload that is not blank. -/
def OddBefore (k₀ : ℕ) (msgs : List (Bytes × ℕ)) : Prop :=
  ∀ pre p k post, msgs = pre ++ (p, k) :: post → isBlankFrame p = false →
    Odd (k₀ + (pre.map Prod.snd).sum)

theorem oddBefore_cons {n k : ℕ} {p : Bytes} {msgs : List (Bytes × ℕ)} :
    OddBefore n ((p, k) :: msgs) ↔
      (isBlankFrame p = false → Odd n) ∧ OddBefore (n + k) msgs := by
  constructor
  · intro h
    refine ⟨fun hp => h [] p k msgs rfl hp, ?_⟩
    rintro pre p' k' post rfl hp'
    have := h ((p, k) :: pre) p' k' post rfl hp'
    rwa [List.map_cons, List.sum_cons, ← Nat.add_assoc] at this
  · rintro ⟨hp, h⟩ pre p' k' post he hp'
    rcases pre with _ | ⟨m, pre⟩
    · obtain ⟨hm, -⟩ := List.cons.inj he
      obtain ⟨rfl, -⟩ := Prod.mk.inj hm
      exact hp hp'
    · obtain ⟨rfl, rfl⟩ := List.cons.inj he
      have := h pre p' k' post rfl hp'
      rwa [List.map_cons, List.sum_cons, ← Nat.add_assoc]

theorem kept_true_length (p : Bytes) : (kept true p).length = 1 ↔ isBlankFrame p = false := by
  by_cases hp : isBlankFrame p = true <;> simp [kept, hp]

theorem heard_length_le (n : ℕ) (msgs : List (Bytes × ℕ)) :
    (heard n msgs).length ≤ ((msgs.map Prod.fst).flatMap (kept true)).length := by
  induction msgs generalizing n with
  | nil => exact Nat.le_refl _
  | cons m msgs ih =>
    obtain ⟨p, k⟩ := m
    have := ih (n + k)
    simp only [heard, List.map_cons, List.flatMap_cons, List.length_append]
    split
    · omega
    · rw [List.length_nil]
      omega

/-- All payloads are heard exactly if each has an odd number of delimiters in
    front of it. -/
theorem heard_eq_iff (n : ℕ) (msgs : List (Bytes × ℕ)) :
    heard n msgs = (msgs.map Prod.fst).flatMap (kept true) ↔ OddBefore n msgs := by
  induction msgs generalizing n with
  | nil =>
    refine iff_of_true rfl ?_
    intro pre p k post he
    cases pre <;> cases he
  | cons m msgs ih =>
    obtain ⟨p, k⟩ := m
    rw [oddBefore_cons, ← ih]
    simp only [heard, List.map_cons, List.flatMap_cons]
    by_cases hn : Odd n
    · simp [hn]
    · rw [if_neg hn, List.nil_append]
      by_cases hp : isBlankFrame p = true
      · simp [kept, hp]
      · -- one payload is missing, and none can make up for it
        have hlen := heard_length_le (n + k) msgs
        have hone := (kept_true_length p).2 (by simpa using hp)
        refine iff_of_false ?_ ?_
        · intro he
          have := congrArg List.length he
          rw [List.length_append] at this
          omega
        · rintro ⟨hodd, -⟩
          exact hn (hodd (by simpa using hp))

/-- **COBS understands runs of delimiters exactly if an odd number of them
    stands in front of every payload** (of those that are not blank): then, and
    only then, they are all received, in any chunking. -/
theorem cobs_delimiters_iff (crates : Crates) (maxFrames : Option ℕ) (inc : Bool) (k₀ : ℕ)
    (msgs : List (Bytes × ℕ)) (hk : ∀ m ∈ msgs, 1 ≤ m.2) :
    ∃ d, FrameDecoder.new crates ⟨.cobs, maxFrames, inc, true⟩ none = .ok d ∧
      ((∀ cs : List Bytes, cs.flatten = cobsDelimited k₀ msgs →
        d.received cs = (msgs.map Prod.fst).filter fun p => !isBlankFrame p) ↔
      OddBefore k₀ msgs) := by
  refine ⟨_, new_plain (newMode_cobs crates), ?_⟩
  obtain ⟨st, hscan⟩ := scan_cobsDelimited hk k₀
  rw [← heard_eq_iff, flatMap_kept_true]
  constructor
  · intro h
    have hcs : [cobsDelimited k₀ msgs].flatten = cobsDelimited k₀ msgs := by simp
    rw [← h _ hcs]
    exact (cobs_received hscan hcs).1.symm
  · intro h cs hcs
    rw [← h]
    exact (cobs_received hscan hcs).1

/-- Two messages with two delimiters between them. -/
theorem cobs_delimiters_two : ∃ d,
    FrameDecoder.new .refusing ⟨.cobs, none, false, true⟩ none = .ok d ∧
      d.received [[0, 2, 65, 0], [0, 2, 66, 0]] = [[65], [66]] ∧
      OddBefore 1 [([65], 2), ([66], 1)] := by
  obtain ⟨d, hnew, h⟩ := cobs_delimiters_iff .refusing none false 1 [([65], 2), ([66], 1)]
    (by decide)
  have hodd : OddBefore 1 [([65], 2), ([66], 1)] := by
    rw [← heard_eq_iff]
    decide
  exact ⟨d, hnew, h.2 hodd [[0, 2, 65, 0], [0, 2, 66, 0]] (by decide), hodd⟩

/-- With one delimiter between two messages, the second one is lost. -/
theorem cobs_delimiters_lost : ¬∀ (crates : Crates) (d : FrameDecoder) (k₀ : ℕ)
    (msgs : List (Bytes × ℕ)) (cs : List Bytes),
    FrameDecoder.new crates ⟨.cobs, none, false, true⟩ none = .ok d → 1 ≤ k₀ →
    (∀ m ∈ msgs, m.1 ≠ [] ∧ 1 ≤ m.2) → cs.flatten = cobsDelimited k₀ msgs →
    d.received cs = (msgs.map Prod.fst).filter fun p => !isBlankFrame p := by
  intro h
  have hlost := h .refusing _ 1 [([65], 1), ([66], 1)] [[0, 2, 65, 0, 2, 66, 0]] rfl (by decide)
    (by decide) (by decide)
  revert hlost
  decide

/-! ## Noise -/

/-- What noise leaves behind: the state in which the next message finds the decoder. -/
def cobsAfter (skip : Bool) (noise : Bytes) : CobsState :=
  (scan (cobsStep skip) .beforeFirstDelim noise).2.2

/-- A decoder that receives `noise` and the encoding of `p` emits `p` last,
    however the bytes are cut. -/
def CobsResyncs (crates : Crates) (d : FrameDecoder) (noise p : Bytes) : Prop :=
  ∀ (message : Bytes) (cs : List Bytes), TxFramingMode.cobs.encode crates p = .ok message →
    cs.flatten = noise ++ message → (d.received cs).getLast? = some p

theorem cobs_received_noise {inc skip : Bool} {noise p : Bytes} {cs : List Bytes}
    (hcs : cs.flatten = noise ++ cobsMessage p) :
    (plain (.cobs .beforeFirstDelim) inc skip [] 0).received cs =
      (scan (cobsStep skip) .beforeFirstDelim noise).1 ++
        (scan (cobsStep skip) (cobsAfter skip noise) (cobsMessage p)).1 := by
  have hscan : scan (cobsStep skip) .beforeFirstDelim (noise ++ cobsMessage p) =
      ((scan (cobsStep skip) .beforeFirstDelim noise).1 ++
        (scan (cobsStep skip) (cobsAfter skip noise) (cobsMessage p)).1, [],
        (scan (cobsStep skip) (cobsAfter skip noise) (cobsMessage p)).2.2) := by
    rw [scan_append, scan_cobs_errors, scan_cobs_errors]
    rfl
  exact (cobs_received hscan hcs).1

theorem kept_of_zero {skip : Bool} {q : Bytes} (h : 0 ∈ q) : kept skip q = [q] := by
  have hblank : isBlankFrame q = false := by
    rw [isBlankFrame, List.all_eq_false]
    exact ⟨0, h, by decide⟩
  simp [kept, hblank]

theorem cobsMessage_letter {x : UInt8} (hx : x = 65 ∨ x = 66) : cobsMessage [x] = [0, 2, x, 0] := by
  rcases hx with rfl | rfl <;> rfl

/-- The message of a letter inside a frame: what it makes the decoder emit does
    not depend on the letter, or is a single longer frame. -/
theorem scan_message_inFrame (skip : Bool) (q : Bytes) (n : ℕ) (pz : Bool) :
    ∃ out : List Bytes, ∀ x : UInt8, x = 65 ∨ x = 66 →
      (scan (cobsStep skip) (.inFrame q n pz) (cobsMessage [x])).1 = out ∨
      ∃ last, (scan (cobsStep skip) (.inFrame q n pz) (cobsMessage [x])).1 = [last] ∧
        1 < last.length := by
  rcases n with _ | _ | _ | _ | n
  · -- the first delimiter ends the frame and the rest is discarded
    refine ⟨kept skip (dropPhantom (flushed q pz)), fun x _ => .inl ?_⟩
    simp only [cobsMessage, List.cons_append, scan, cobsStep_delimiter,
      scan_silent (scan_cobsDiscard (cobsStuff_spec [x]).1), cobsStep_begin]
    simp
  · -- the first delimiter is data, the block and the last delimiter are what they are
    refine ⟨[], fun x _ => .inr ⟨flushed (q ++ [0]) pz ++ [x], ?_, ?_⟩⟩
    · have hzero : (0 : UInt8) ∈ flushed (q ++ [0]) pz ++ [x] := by
        cases pz <;> simp [flushed]
      simp only [cobsMessage, List.cons_append, scan, cobsStep_data, scan_cobsBody,
        kept_of_zero hzero, List.nil_append]
    · cases pz <;> simp [flushed]
  · -- the code byte is data, and the letter a code that swallows the delimiter
    refine ⟨[], fun x hx => .inl ?_⟩
    rw [cobsMessage_letter hx]
    have hcode : x ≠ 0 ∧ x ≠ 255 := by rcases hx with rfl | rfl <;> decide
    obtain ⟨n, hn⟩ : ∃ n, x.toNat - 1 = n + 1 := by
      rcases hx with rfl | rfl
      · exact ⟨63, rfl⟩
      · exact ⟨64, rfl⟩
    simp [scan, cobsStep_data, cobsStep_code hcode.1 hcode.2, hn]
  · -- all but the last delimiter is data
    refine ⟨[], fun x hx => .inr ⟨q ++ [0, 2, x], ?_, by simp⟩⟩
    have hphantom : dropPhantom (flushed (q ++ [0, 2, x]) pz) = q ++ [0, 2, x] := by
      rcases pz with _ | _
      · have hx0 : x ≠ 0 := by rcases hx with rfl | rfl <;> decide
        simp [flushed, dropPhantom, hx0]
      · exact dropPhantom_concat _
    rw [cobsMessage_letter hx]
    simp only [scan, cobsStep_data, List.append_assoc, List.cons_append, List.nil_append,
      cobsStep_delimiter, hphantom, kept_of_zero (show (0 : UInt8) ∈ q ++ [0, 2, x] by simp)]
  · -- everything is data
    refine ⟨[], fun x hx => .inl ?_⟩
    rw [cobsMessage_letter hx]
    simp [scan, cobsStep_data]

/-- **COBS resynchronises exactly if the noise leaves the decoder outside a
    frame**: then, and only then, every message behind it is received as the
    last frame (blank ones apart, if they are skipped).  Inside a frame a zero
    byte ends it only when no code block is in progress. -/
theorem cobs_resyncs_iff (crates : Crates) (maxFrames : Option ℕ) (inc skip : Bool)
    (noise : Bytes) : ∃ d, FrameDecoder.new crates ⟨.cobs, maxFrames, inc, skip⟩ none = .ok d ∧
      ((∀ p, kept skip p = [p] → CobsResyncs crates d noise p) ↔
        cobsAfter skip noise = .beforeFirstDelim) ∧
      ∀ decoded remaining pendingZero,
        (cobsStep skip (.inFrame decoded remaining pendingZero) 0).2.2 = .beforeFirstDelim ↔
          remaining = 0 := by
  refine ⟨_, new_plain (newMode_cobs crates), ⟨?_, ?_⟩, ?_⟩
  · intro h
    rcases hst : cobsAfter skip noise with _ | ⟨q, n, pz⟩
    · rfl
    · obtain ⟨out, hout⟩ := scan_message_inFrame skip q n pz
      -- so one frame came last for both letters
      have hlast (x : UInt8) (hx : x = 65 ∨ x = 66) :
          ((scan (cobsStep skip) .beforeFirstDelim noise).1 ++ out).getLast? = some [x] := by
        have hkept : kept skip [x] = [[x]] := by
          rcases hx with rfl | rfl <;> cases skip <;> rfl
        have hcs : [noise ++ cobsMessage [x]].flatten = noise ++ cobsMessage [x] := by simp
        have hrec := h [x] hkept _ _ rfl hcs
        rw [cobs_received_noise hcs, hst] at hrec
        rcases hout x hx with he | ⟨last, he, hlen⟩
        · rwa [he] at hrec
        · rw [he, List.getLast?_concat, Option.some.injEq] at hrec
          rw [hrec, List.length_singleton] at hlen
          omega
      have h65 := hlast 65 (.inl rfl)
      rw [hlast 66 (.inr rfl)] at h65
      exact absurd h65 (by decide)
  · intro hst p hp message cs hmessage hcs
    obtain rfl : cobsMessage p = message := Except.ok.inj hmessage
    show List.getLast? (received _ cs) = some p
    rw [cobs_received_noise hcs, hst, scan_cobsMessage, hp, List.getLast?_concat]
  · intro q n pz
    rcases n with _ | n
    · rw [cobsStep_delimiter]
      simp
    · rw [cobsStep_data]
      simp

/-- Noise that ends inside a code block of four bytes swallows the delimiter
    and the block of the message behind it. -/
theorem cobs_not_resyncs : ¬∀ (crates : Crates) (d : FrameDecoder) (noise p : Bytes),
    FrameDecoder.new crates ⟨.cobs, none, false, false⟩ none = .ok d →
    CobsResyncs crates d noise p := by
  intro h
  have hlast := h .refusing _ [0, 5, 65] [66] rfl _ [[0, 5, 65], [0, 2, 66, 0]] rfl (by decide)
  revert hlast
  decide

end SerialMcp
