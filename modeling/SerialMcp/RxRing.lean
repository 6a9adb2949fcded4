/-
  The RX ring (`rx_ring.rs`): a fixed-capacity circular buffer addressed by
  absolute stream offsets.

  * `RxRing` with `append`, `readFrom`, `clear`, as the source computes them
    on the physical buffer (`writeRing`, `readRing`).  Stream offsets are
    `u64`: an append that would overflow `end_offset` has no result.
  * `Refines r S`: the ring `r` is a window on the unbounded stream `S` of
    all bytes ever appended.  Every operation keeps it (`append_refines`,
    `clear_refines`), and a read returns stream bytes (`readFrom_eq`).
  * `RingOp.runAll`: sequences of operations on a fresh ring, against the
    abstract accounting `Account`.
-/
import Mathlib.Algebra.Ring.Nat
import Mathlib.Data.List.Basic
import Mathlib.Tactic.Common

namespace SerialMcp

/-- The number of `u64` values. -/
def u64Size : ℕ := 2 ^ 64

/-- `u64::wrapping_add`. -/
def wrappingAdd (a b : ℕ) : ℕ := (a + b) % u64Size

/-- `u64::saturating_add`, and that of a `usize` of 64 bits. -/
def saturatingAdd (a b : ℕ) : ℕ := min (a + b) (u64Size - 1)

theorem wrappingAdd_eq {a b : ℕ} (h : a + b < u64Size) : wrappingAdd a b = a + b :=
  Nat.mod_eq_of_lt h

theorem saturatingAdd_eq {a b : ℕ} (h : a + b < u64Size) : saturatingAdd a b = a + b := by
  unfold saturatingAdd; omega

/-! ## The physical buffer -/

/-- `buf[at..at + src.len()].copy_from_slice(src)`. -/
def copyFromSlice (buf : List UInt8) (i : ℕ) (src : List UInt8) : List UInt8 :=
  buf.take i ++ src ++ buf.drop (i + src.length)

/-- Copy `src` into `buf` from physical index `phys`, wrapping at the end. -/
def writeRing (buf : List UInt8) (phys : ℕ) (src : List UInt8) : List UInt8 :=
  let cap := buf.length
  let stop := phys + src.length
  if stop ≤ cap then copyFromSlice buf phys src
  else
    let first := cap - phys
    copyFromSlice (copyFromSlice buf phys (src.take first)) 0 (src.drop first)

/-- Copy `take` bytes out of `buf` from physical index `phys`, wrapping at the end. -/
def readRing (buf : List UInt8) (phys take : ℕ) : List UInt8 :=
  let cap := buf.length
  let stop := phys + take
  if stop ≤ cap then (buf.drop phys).take take
  else
    let first := cap - phys
    buf.drop phys ++ buf.take (take - first)

theorem copyFromSlice_length {buf src : List UInt8} {i : ℕ} (h : i + src.length ≤ buf.length) :
    (copyFromSlice buf i src).length = buf.length := by
  simp only [copyFromSlice, List.length_append, List.length_take, List.length_drop]
  omega

theorem copyFromSlice_getElem? {buf src : List UInt8} {i : ℕ} (h : i + src.length ≤ buf.length)
    (j : ℕ) : (copyFromSlice buf i src)[j]? =
      if i ≤ j ∧ j < i + src.length then src[j - i]? else buf[j]? := by
  unfold copyFromSlice
  have hi : (buf.take i).length = i := by simp only [List.length_take]; omega
  by_cases h₁ : j < i
  · rw [List.append_assoc, List.getElem?_append_left (by omega), List.getElem?_take_of_lt h₁,
      if_neg (by omega)]
  · by_cases h₂ : j < i + src.length
    · rw [List.getElem?_append_left (by simp only [List.length_append]; omega),
        List.getElem?_append_right (by omega), hi, if_pos (by omega)]
    · rw [List.getElem?_append_right (by simp only [List.length_append]; omega),
        List.getElem?_drop, if_neg (by omega)]
      simp only [List.length_append, hi]
      congr 1; omega

theorem writeRing_length {buf src : List UInt8} {phys : ℕ} (hp : phys ≤ buf.length)
    (hs : src.length ≤ buf.length) : (writeRing buf phys src).length = buf.length := by
  simp only [writeRing]
  split
  · exact copyFromSlice_length ‹_›
  · have h₁ : (copyFromSlice buf phys (src.take (buf.length - phys))).length = buf.length :=
      copyFromSlice_length (by simp only [List.length_take]; omega)
    rw [copyFromSlice_length (by rw [h₁]; simp only [List.length_drop]; omega), h₁]

/-- What the cells of the buffer hold after a write: the written byte at the
    wrapped positions, the old one elsewhere. -/
theorem writeRing_getElem? {buf src : List UInt8} {phys : ℕ} (hp : phys < buf.length)
    (hs : src.length ≤ buf.length) (j : ℕ) (hj : j < buf.length) :
    (writeRing buf phys src)[j]? =
      if phys ≤ j ∧ j < phys + src.length then src[j - phys]?
      else if j + buf.length < phys + src.length then src[j + buf.length - phys]?
      else buf[j]? := by
  simp only [writeRing]
  by_cases h : phys + src.length ≤ buf.length
  · rw [if_pos h, copyFromSlice_getElem? h]
    refine ite_congr rfl (fun _ => rfl) fun _ => ?_
    rw [if_neg (by omega)]
  · rw [if_neg h]
    have hl : (src.take (buf.length - phys)).length = buf.length - phys := by
      simp only [List.length_take]; omega
    have h₁ : (copyFromSlice buf phys (src.take (buf.length - phys))).length = buf.length :=
      copyFromSlice_length (by omega)
    rw [copyFromSlice_getElem? (by rw [h₁]; simp only [List.length_drop]; omega),
      copyFromSlice_getElem? (by omega)]
    simp only [List.length_drop, hl, Nat.zero_add, Nat.zero_le, true_and, Nat.sub_zero,
      List.getElem?_drop]
    by_cases h₂ : j < src.length - (buf.length - phys)
    · rw [if_pos h₂, if_neg (by omega), if_pos (by omega)]
      congr 1; omega
    · by_cases h₃ : phys ≤ j
      · rw [if_neg h₂, if_pos (by omega), if_pos (by omega),
          List.getElem?_take_of_lt (by omega)]
      · rw [if_neg h₂, if_neg (by omega), if_neg (by omega), if_neg (by omega)]

theorem readRing_length {buf : List UInt8} {phys take : ℕ} (hp : phys ≤ buf.length)
    (ht : take ≤ buf.length) : (readRing buf phys take).length = take := by
  simp only [readRing]
  split
  · simp only [List.length_take, List.length_drop]; omega
  · simp only [List.length_append, List.length_take, List.length_drop]; omega

/-- The `j`-th byte read is the one `j` cells after `phys`, wrapping around. -/
theorem readRing_getElem? {buf : List UInt8} {phys take : ℕ} (hp : phys < buf.length)
    (ht : take ≤ buf.length) {j : ℕ} (hj : j < take) :
    (readRing buf phys take)[j]? = buf[(phys + j) % buf.length]? := by
  simp only [readRing]
  split
  · rw [List.getElem?_take_of_lt hj, List.getElem?_drop, Nat.mod_eq_of_lt (by omega)]
  · by_cases h : phys + j < buf.length
    · rw [List.getElem?_append_left (by simp only [List.length_drop]; omega),
        List.getElem?_drop, Nat.mod_eq_of_lt h]
    · rw [List.getElem?_append_right (by simp only [List.length_drop]; omega),
        List.getElem?_take_of_lt (by simp only [List.length_drop]; omega)]
      simp only [List.length_drop]
      rw [Nat.mod_eq_sub_mod (by omega), Nat.mod_eq_of_lt (by omega)]
      congr 1; omega

/-! ## The ring -/

/-- `RxRing` with its locked `Inner`.  The fields after `bytesWrappedTotal`
    say which values the constructor and the operations can produce. -/
structure RxRing where
  capacity : ℕ
  buf : List UInt8
  startOffset : ℕ
  endOffset : ℕ
  bytesWrappedTotal : ℕ
  capacity_pos : 0 < capacity
  buf_length : buf.length = capacity
  start_le_end : startOffset ≤ endOffset
  end_le : endOffset ≤ startOffset + capacity
  end_lt : endOffset < u64Size

/-- A slice of ring data at an offset range. -/
structure RingSlice where
  bytes : List UInt8
  fromOffset : ℕ
  nextOffset : ℕ
  bytesLost : ℕ
  deriving DecidableEq, Repr

namespace RxRing

/-- `RxRing::new`. -/
def new (capacity : ℕ) (h : 0 < capacity) : RxRing where
  capacity := capacity
  buf := List.replicate capacity 0
  startOffset := 0
  endOffset := 0
  bytesWrappedTotal := 0
  capacity_pos := h
  buf_length := List.length_replicate ..
  start_le_end := Nat.le_refl _
  end_le := Nat.zero_le _
  end_lt := by decide

/-- The first byte of an append of `n` bytes that survives it. -/
def surviveStart (r : RxRing) (n : ℕ) : ℕ :=
  max (max r.startOffset (r.endOffset + n - r.capacity)) r.endOffset

/-- `RxRing::append`; no result when `end_offset` would overflow `u64`. -/
def append (r : RxRing) (bytes : List UInt8) : Option RxRing :=
  if bytes.isEmpty then some r
  else if h : r.endOffset + bytes.length < u64Size then
    let newEnd := r.endOffset + bytes.length
    let newStart := max r.startOffset (newEnd - r.capacity)
    let lost := newStart - r.startOffset
    let surviveStart := r.surviveStart bytes.length
    let surviveLen := newEnd - surviveStart
    let inputOffset := surviveStart - r.endOffset
    let src := (bytes.drop inputOffset).take surviveLen
    some {
      capacity := r.capacity
      buf := writeRing r.buf (surviveStart % r.capacity) src
      startOffset := newStart
      endOffset := newEnd
      bytesWrappedTotal :=
        if 0 < lost then wrappingAdd r.bytesWrappedTotal lost else r.bytesWrappedTotal
      capacity_pos := r.capacity_pos
      buf_length := by
        rw [writeRing_length, r.buf_length]
        · rw [r.buf_length]; exact Nat.le_of_lt (Nat.mod_lt _ r.capacity_pos)
        · rw [r.buf_length]
          simp only [src, surviveLen, surviveStart, newEnd, RxRing.surviveStart, List.length_take,
            List.length_drop]
          omega
      start_le_end := by have := r.start_le_end; omega
      end_le := by omega
      end_lt := h }
  else none

/-- `RxRing::read_from`. -/
def readFrom (r : RxRing) (cursor max : ℕ) : RingSlice :=
  let start := r.startOffset
  let stop := r.endOffset
  let bytesLost := start - cursor
  if start ≤ cursor ∧ stop < cursor then ⟨[], stop, stop, bytesLost⟩
  else
    let fromOffset := if cursor < start then start else cursor
    if stop ≤ fromOffset ∨ max = 0 then ⟨[], fromOffset, fromOffset, bytesLost⟩
    else
      let available := stop - fromOffset
      let take := min max available
      let bytes := readRing r.buf (fromOffset % r.capacity) take
      ⟨bytes, fromOffset, fromOffset + take, bytesLost⟩

/-- `RxRing::clear`. -/
def clear (r : RxRing) : RxRing :=
  { r with
    startOffset := r.endOffset
    start_le_end := Nat.le_refl _
    end_le := Nat.le_add_right _ _ }

/-! ## The ring is a window on the stream -/

/-- The ring `r` holds the stream `S` from its start offset on. -/
structure Refines (r : RxRing) (S : List UInt8) : Prop where
  stop : r.endOffset = S.length
  cell : ∀ o, r.startOffset ≤ o → o < r.endOffset → r.buf[o % r.capacity]? = S[o]?

theorem new_refines {c : ℕ} (h : 0 < c) : (new c h).Refines [] :=
  ⟨rfl, fun o _ ho => absurd ho (Nat.not_lt_zero o)⟩

/-- What an append of `n` bytes does to the offsets and the wrap counter. -/
structure Appended (r : RxRing) (n : ℕ) (r' : RxRing) : Prop where
  capacity : r'.capacity = r.capacity
  stop : r'.endOffset = r.endOffset + n
  start : r'.startOffset = max r.startOffset (r.endOffset + n - r.capacity)
  wrapped : r'.bytesWrappedTotal =
    if r.startOffset < r'.startOffset then
      wrappingAdd r.bytesWrappedTotal (r'.startOffset - r.startOffset)
    else r.bytesWrappedTotal

theorem append_appended {r r' : RxRing} {bs : List UInt8} (h : r.append bs = some r') :
    Appended r bs.length r' := by
  unfold append at h
  split at h
  · rename_i hbs
    cases h
    obtain rfl := List.isEmpty_iff.1 hbs
    have := r.end_le
    refine ⟨rfl, rfl, ?_, ?_⟩
    · simp only [List.length_nil, Nat.add_zero]; omega
    · rw [if_neg (Nat.lt_irrefl _)]
  · split at h
    · cases h
      refine ⟨rfl, rfl, rfl, ?_⟩
      simp only
      exact ite_congr (propext (by omega)) (fun _ => rfl) fun _ => rfl
    · cases h

/-- An append has a result as long as the stream stays below `2^64` bytes. -/
theorem append_isSome {r : RxRing} (bs : List UInt8) (h : r.endOffset + bs.length < u64Size) :
    ∃ r', r.append bs = some r' := by
  unfold append
  split
  · exact ⟨r, rfl⟩
  · exact ⟨_, rfl⟩

/-- **An append keeps the ring a window on the longer stream.** -/
theorem append_refines {r r' : RxRing} {S bs : List UInt8} (h : r.append bs = some r')
    (hr : r.Refines S) : r'.Refines (S ++ bs) := by
  have ha := append_appended h
  refine ⟨by rw [ha.stop, hr.stop, List.length_append], fun o ho₁ ho₂ => ?_⟩
  have hbuf := r.buf_length
  have hcap := r.capacity_pos
  have hle := r.end_le
  have hse := r.start_le_end
  rw [ha.start] at ho₁
  rw [ha.stop] at ho₂
  unfold append at h
  split at h
  · cases h
    rename_i hbs
    obtain rfl := List.isEmpty_iff.1 hbs
    simp only [List.append_nil, List.length_nil, Nat.add_zero] at ho₂ ⊢
    exact hr.cell o (by omega) ho₂
  split at h
  case isFalse => cases h
  cases h
  simp only [RxRing.surviveStart]
  -- the surviving input bytes are those at offsets `p, …, endOffset + n - 1`
  generalize hp : max (max r.startOffset (r.endOffset + bs.length - r.capacity)) r.endOffset = p
  have hlen : (List.take (r.endOffset + bs.length - p) (List.drop (p - r.endOffset) bs)).length =
      r.endOffset + bs.length - p := by
    simp only [List.length_take, List.length_drop]; omega
  have hmod : p % r.capacity < r.capacity := Nat.mod_lt _ hcap
  have hmodo : o % r.capacity < r.capacity := Nat.mod_lt _ hcap
  rw [writeRing_getElem? (by omega) (by rw [hlen]; omega) _ (by omega), hlen, hbuf]
  have hdp := Nat.div_add_mod p r.capacity
  have hdo := Nat.div_add_mod o r.capacity
  by_cases hop : p ≤ o
  · -- a byte of this append: its cell lies in the written range, before or after the wrap
    have hcell : ∀ i, i = o - p →
        (List.take (r.endOffset + bs.length - p) (List.drop (p - r.endOffset) bs))[i]? =
          (S ++ bs)[o]? := by
      rintro i rfl
      rw [List.getElem?_take_of_lt (by omega), List.getElem?_drop,
        List.getElem?_append_right (by rw [← hr.stop]; omega), ← hr.stop]
      congr 1; omega
    rcases Nat.lt_or_ge (p % r.capacity + (o - p)) r.capacity with hlt | hge
    · have ho : o % r.capacity = p % r.capacity + (o - p) := by
        rw [show o = p + (o - p) by omega, Nat.add_mod, Nat.mod_eq_of_lt (a := o - p) (by omega),
          Nat.mod_eq_of_lt (by omega)]
        congr 1; omega
      rw [if_pos (by omega)]
      exact hcell _ (by omega)
    · have ho : o % r.capacity + r.capacity = p % r.capacity + (o - p) := by
        rw [show o = p + (o - p) by omega, Nat.add_mod, Nat.mod_eq_of_lt (a := o - p) (by omega),
          Nat.mod_eq_sub_mod hge, Nat.mod_eq_of_lt (by omega)]
        omega
      rw [if_neg (by omega), if_pos (by omega)]
      exact hcell _ (by omega)
  · -- an older byte that stays: its cell is outside the written range
    have hout : ∀ k, p ≤ k → k < r.endOffset + bs.length → k % r.capacity ≠ o % r.capacity := by
      intro k hk₁ hk₂ hk
      have h₁ : (k - o) % r.capacity = 0 := Nat.sub_mod_eq_zero_of_mod_eq hk
      have h₂ := Nat.mod_eq_of_lt (show k - o < r.capacity by omega)
      omega
    have hS : (S ++ bs)[o]? = r.buf[o % r.capacity]? := by
      rw [List.getElem?_append_left (by rw [← hr.stop]; omega), hr.cell o (by omega) (by omega)]
    rw [hS, if_neg, if_neg]
    · intro hlt
      refine hout (p + (o % r.capacity + r.capacity - p % r.capacity)) (by omega) (by omega) ?_
      rw [show p + (o % r.capacity + r.capacity - p % r.capacity) =
        o % r.capacity + r.capacity * (p / r.capacity + 1) by rw [Nat.mul_add]; omega,
        Nat.add_mul_mod_self_left, Nat.mod_mod]
    · rintro ⟨hle', hlt⟩
      refine hout (p + (o % r.capacity - p % r.capacity)) (by omega) (by omega) ?_
      rw [show p + (o % r.capacity - p % r.capacity) =
        o % r.capacity + r.capacity * (p / r.capacity) by omega,
        Nat.add_mul_mod_self_left, Nat.mod_mod]

theorem clear_refines {r : RxRing} {S : List UInt8} (hr : r.Refines S) : r.clear.Refines S :=
  ⟨hr.stop, fun _ h₁ h₂ => absurd h₂ (Nat.not_lt.2 h₁)⟩

/-- The offset a read starts at: the cursor clamped to the retained range. -/
def clampOffset (r : RxRing) (cursor : ℕ) : ℕ := min (max cursor r.startOffset) r.endOffset

/-- **A read returns the stream bytes from the clamped cursor on**, and counts
    the bytes between the cursor and the retained range as lost. -/
theorem readFrom_eq {r : RxRing} {S : List UInt8} (hr : r.Refines S) (cursor max : ℕ) :
    r.readFrom cursor max =
      { bytes := (S.drop (r.clampOffset cursor)).take (min max (S.length - r.clampOffset cursor))
        fromOffset := r.clampOffset cursor
        nextOffset := r.clampOffset cursor + min max (S.length - r.clampOffset cursor)
        bytesLost := r.startOffset - cursor } := by
  have hse := r.start_le_end
  have hle := r.end_le
  have hstop := hr.stop
  simp only [readFrom]
  split
  · rename_i h
    have hc : r.clampOffset cursor = r.endOffset := by unfold clampOffset; omega
    rw [hc, ← hstop]; simp
  · rename_i h
    have hc : (if cursor < r.startOffset then r.startOffset else cursor) = r.clampOffset cursor := by
      unfold clampOffset; split <;> omega
    have hcs : r.startOffset ≤ r.clampOffset cursor := by unfold clampOffset; omega
    rw [hc]
    split
    · rename_i h'
      have : min max (S.length - r.clampOffset cursor) = 0 := by omega
      rw [this]; simp
    · rename_i h'
      rw [← hstop]
      simp only [RingSlice.mk.injEq, and_true]
      have hphys : r.clampOffset cursor % r.capacity < r.buf.length := by
        rw [r.buf_length]; exact Nat.mod_lt _ r.capacity_pos
      have htake : min max (r.endOffset - r.clampOffset cursor) ≤ r.buf.length := by
        rw [r.buf_length]; omega
      apply List.ext_getElem?
      intro j
      by_cases hj : j < min max (r.endOffset - r.clampOffset cursor)
      · rw [readRing_getElem? hphys htake hj, r.buf_length, Nat.mod_add_mod,
          hr.cell _ (by omega) (by omega), List.getElem?_take_of_lt hj, List.getElem?_drop]
      · rw [List.getElem?_eq_none, List.getElem?_eq_none]
        · simp only [List.length_take, List.length_drop]; omega
        · rw [readRing_length (Nat.le_of_lt hphys) htake]; omega

end RxRing

/-! ## Sequences of operations -/

/-- An operation on a ring. -/
inductive RingOp
  | append (bytes : List UInt8)
  | clear
  | readFrom (cursor max : ℕ)

/-- The abstract accounting of a sequence of operations on a ring of capacity
    `c`: the stream appended, the offset of the last clear and the number of
    retained bytes that clears have discarded. -/
structure Account where
  stream : List UInt8
  lastClear : ℕ
  cleared : ℕ

namespace RingOp

/-- Perform an operation; a read leaves the ring as it is. -/
def step (r : RxRing) : RingOp → Option RxRing
  | append bs => r.append bs
  | clear => some r.clear
  | readFrom _ _ => some r

/-- Perform a sequence of operations. -/
def runAll : RxRing → List RingOp → Option RxRing
  | r, [] => some r
  | r, op :: ops => (step r op).bind (runAll · ops)

/-- All bytes a sequence of operations appends, in order. -/
def appended : List RingOp → List UInt8
  | [] => []
  | append bs :: ops => bs ++ appended ops
  | _ :: ops => appended ops

/-- The effect of an operation on the accounting. -/
def account (c : ℕ) (a : Account) : RingOp → Account
  | append bs => { a with stream := a.stream ++ bs }
  | clear =>
    { a with
      lastClear := a.stream.length
      cleared := a.cleared + (a.stream.length - max a.lastClear (a.stream.length - c)) }
  | readFrom _ _ => a

/-- The ring `r` agrees with the accounting `a`. -/
structure Agrees (c : ℕ) (a : Account) (r : RxRing) : Prop where
  capacity : r.capacity = c
  refines : r.Refines a.stream
  start : r.startOffset = max a.lastClear (a.stream.length - c)
  conserved : r.bytesWrappedTotal + a.cleared = r.startOffset

theorem agrees_new {c : ℕ} (h : 0 < c) : Agrees c ⟨[], 0, 0⟩ (RxRing.new c h) :=
  ⟨rfl, RxRing.new_refines h, by simp [RxRing.new], rfl⟩

theorem append_agrees {c : ℕ} {a : Account} {r r' : RxRing} {bs : List UInt8}
    (ha : Agrees c a r) (h : r.append bs = some r') :
    Agrees c { a with stream := a.stream ++ bs } r' := by
  obtain ⟨hcap, hstop, hstart, hwrap⟩ := RxRing.append_appended h
  have hS := ha.refines.stop
  have hlt := r'.end_lt
  have hse := r'.start_le_end
  have hc := ha.capacity
  have hs := ha.start
  have hcons := ha.conserved
  refine ⟨by omega, RxRing.append_refines h ha.refines, ?_, ?_⟩
  · simp only [List.length_append]; omega
  · simp only
    rw [hwrap]
    split
    · rw [wrappingAdd_eq (by omega)]; omega
    · omega

/-- One operation keeps the agreement, provided the stream fits in `u64`. -/
theorem step_agrees {c : ℕ} {a : Account} {r : RxRing} (ha : Agrees c a r) (op : RingOp)
    (hfit : (account c a op).stream.length < u64Size) :
    ∃ r', step r op = some r' ∧ Agrees c (account c a op) r' := by
  cases op with
  | append bs =>
    simp only [account, List.length_append] at hfit
    obtain ⟨r', hr'⟩ := RxRing.append_isSome (r := r) bs (by rw [ha.refines.stop]; exact hfit)
    exact ⟨r', hr', append_agrees ha hr'⟩
  | clear =>
    refine ⟨r.clear, rfl, ha.capacity, RxRing.clear_refines ha.refines, ?_, ?_⟩
    · simp only [account, RxRing.clear, ha.refines.stop]; omega
    · have := ha.conserved
      have hS := ha.refines.stop
      have := ha.start
      have := r.start_le_end
      simp only [account, RxRing.clear]; omega
  | readFrom cursor max => exact ⟨r, rfl, ha⟩

theorem account_stream (c : ℕ) (ops : List RingOp) :
    ∀ a : Account, (ops.foldl (account c) a).stream = a.stream ++ appended ops := by
  induction ops with
  | nil => simp [appended]
  | cons op ops ih => intro a; cases op <;> simp [ih, account, appended]

theorem runAll_agrees {c : ℕ} : ∀ (ops : List RingOp) {a : Account} {r : RxRing}, Agrees c a r →
    a.stream.length + (appended ops).length < u64Size →
    ∃ r', runAll r ops = some r' ∧ Agrees c (ops.foldl (account c) a) r'
  | [], _, r, ha, _ => ⟨r, rfl, ha⟩
  | op :: ops, a, r, ha, hfit => by
    have h₁ : (account c a op).stream.length + (appended ops).length < u64Size := by
      cases op <;> simp only [account, appended, List.length_append] at hfit ⊢ <;> omega
    obtain ⟨r₁, hr₁, ha₁⟩ := step_agrees ha op (by omega)
    obtain ⟨r₂, hr₂, ha₂⟩ := runAll_agrees ops ha₁ h₁
    exact ⟨r₂, by simp [runAll, hr₁, hr₂], ha₂⟩

/-- **The ring refines the unbounded byte stream**: after any sequence of
    operations on a fresh ring of capacity `c` whose appends total less than
    `2^64` bytes, the offsets are those of the stream, every read returns the
    stream bytes from the clamped cursor on, and every byte was wrapped out,
    cleared or is retained. -/
theorem runAll_refines (c : ℕ) (hc : 0 < c) (ops : List RingOp)
    (hfit : (appended ops).length < u64Size) :
    let S := appended ops
    let a := ops.foldl (account c) ⟨[], 0, 0⟩
    ∃ r, runAll (RxRing.new c hc) ops = some r ∧
      r.endOffset = S.length ∧
      r.startOffset = max a.lastClear (S.length - c) ∧
      r.endOffset - r.startOffset ≤ c ∧
      (∀ cursor max, ∃ start, start = min (Max.max cursor r.startOffset) r.endOffset ∧
        (r.readFrom cursor max).bytes = (S.drop start).take (min max (S.length - start)) ∧
        (r.readFrom cursor max).fromOffset = start ∧
        (r.readFrom cursor max).nextOffset = start + (r.readFrom cursor max).bytes.length ∧
        (r.readFrom cursor max).bytesLost = r.startOffset - min cursor r.startOffset) ∧
      r.bytesWrappedTotal + a.cleared + (r.endOffset - r.startOffset) = S.length := by
  intro S a
  obtain ⟨r, hr, ha⟩ := runAll_agrees ops (agrees_new hc) (by simpa using hfit)
  have hS : a.stream = S := by simpa using account_stream c ops ⟨[], 0, 0⟩
  have href : r.Refines S := hS ▸ ha.refines
  have hse := r.start_le_end
  refine ⟨r, hr, href.stop, hS ▸ ha.start, ?_, fun cursor max => ⟨_, rfl, ?_⟩, ?_⟩
  · have := r.end_le
    have := ha.capacity
    omega
  · rw [RxRing.readFrom_eq href]
    refine ⟨rfl, rfl, ?_, by simp only; omega⟩
    simp only [List.length_take, List.length_drop, RxRing.clampOffset]
    omega
  · have : r.bytesWrappedTotal + a.cleared = r.startOffset := ha.conserved
    have := href.stop
    omega

theorem runAll_refines_three :
    (appended [append [1, 2], clear, append [3, 4, 5, 6], readFrom 0 2]).length < u64Size ∧
      ∃ r, runAll (RxRing.new 3 (by decide))
        [append [1, 2], clear, append [3, 4, 5, 6], readFrom 0 2] = some r ∧ r.endOffset = 6 := by
  refine ⟨by decide, ?_⟩
  obtain ⟨r, h, hstop, -⟩ := runAll_refines 3 (by decide)
    [append [1, 2], clear, append [3, 4, 5, 6], readFrom 0 2] (by decide)
  exact ⟨r, h, hstop⟩

end RingOp

end SerialMcp
