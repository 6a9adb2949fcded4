/-
  Decoding UTF-8 (`Text.lean`) against the encoding of Lean's characters.

  * `fromUtf8Lossy_append_ascii`: decoding does not look over an ASCII byte;
  * `Sequence`: the bytes of one character, as the decoder accepts them;
    `encode_scalarValue` and `sequence_encode`: they are its encoding;
  * `fromUtf8_eq_some`: a text is decoded from its bytes and no others.
-/
import Mathlib.Data.List.TakeWhile
import SerialMcp.Text

namespace SerialMcp

/-! ## Decoding around an ASCII byte -/

variable {b x : UInt8} {rest r t bs : Bytes} {c : Char}

theorem secondByteOk_ascii (b : UInt8) (hx : x < 0x80) : secondByteOk b x = false := by
  rw [UInt8.lt_iff_toNat_lt] at hx
  change x.toNat < 128 at hx
  simp only [secondByteOk]
  split_ifs <;> simp only [decide_eq_false_iff_not, UInt8.le_iff_toNat_le, UInt8.reduceToNat] <;> omega

theorem takeWhile_take_stop {p : UInt8 → Bool} (hx : p x = false) (k : ℕ) (r t : Bytes) :
    ((r ++ x :: t).take k).takeWhile p = (r.take k).takeWhile p := by
  induction r generalizing k with
  | nil =>
    cases k with
    | zero => rfl
    | succ k => simp [hx]
  | cons y r ih =>
    cases k with
    | zero => rfl
    | succ k =>
      simp only [List.cons_append, List.take_succ_cons, List.takeWhile_cons]
      rw [ih]

theorem continuation_ascii (b : UInt8) (hx : x < 0x80) (r t : Bytes) :
    continuation b (r ++ x :: t) = continuation b r := by
  have hstop : decide (0x80 ≤ x ∧ x ≤ 0xBF) = false := by
    rw [UInt8.lt_iff_toNat_lt] at hx
    change x.toNat < 128 at hx
    simp only [decide_eq_false_iff_not, UInt8.le_iff_toNat_le, UInt8.reduceToNat]
    omega
  simp only [continuation]
  generalize utf8CharWidth b - 1 = k
  cases k with
  | zero => rfl
  | succ k =>
    cases r with
    | nil => simp [secondByteOk_ascii b hx]
    | cons y r =>
      simp only [List.cons_append, List.take_succ_cons]
      rw [takeWhile_take_stop hstop]

theorem continuation_length_le (b : UInt8) (rest : Bytes) :
    (continuation b rest).length ≤ rest.length := by
  simp only [continuation]
  split
  · exact Nat.zero_le _
  · next y ys heq =>
    have hlen : (y :: ys).length ≤ rest.length := by
      rw [← heq, List.length_take]
      omega
    split
    · have := (List.takeWhile_prefix (l := ys) fun x => decide (0x80 ≤ x ∧ x ≤ 0xBF)).length_le
      simp only [List.length_cons] at *
      omega
    · exact Nat.zero_le _

theorem utf8Step_size (b : UInt8) (rest : Bytes) :
    (utf8Step b rest).2 = (continuation b rest).length + 1 := by
  simp only [utf8Step]
  split <;> rfl

theorem utf8Step_ascii (b : UInt8) (hx : x < 0x80) (r t : Bytes) :
    utf8Step b (r ++ x :: t) = utf8Step b r := by
  simp only [utf8Step, continuation_ascii b hx]

theorem utf8Chunks_eq {n m : ℕ} (hn : bs.length ≤ n) (hm : bs.length ≤ m) :
    utf8Chunks n bs = utf8Chunks m bs := by
  induction n generalizing m bs with
  | zero =>
    cases List.length_eq_zero_iff.1 (Nat.le_zero.1 hn)
    cases m <;> rfl
  | succ n ih =>
    cases bs with
    | nil => cases m <;> rfl
    | cons b rest =>
      cases m with
      | zero => simp at hm
      | succ m =>
        simp only [utf8Chunks]
        have hsize := utf8Step_size b rest
        simp only [List.length_cons] at hn hm
        rw [ih]
        · rw [List.length_drop, List.length_cons]
          omega
        · rw [List.length_drop, List.length_cons]
          omega

theorem fromUtf8Lossy_cons (b : UInt8) (rest : Bytes) :
    fromUtf8Lossy (b :: rest) = (utf8Step b rest).1.getD (Char.ofNat 0xFFFD) ::
      fromUtf8Lossy ((b :: rest).drop (utf8Step b rest).2) := by
  have hsize := utf8Step_size b rest
  simp only [fromUtf8Lossy, List.length_cons, utf8Chunks, List.map_cons]
  rw [utf8Chunks_eq (n := rest.length) (by rw [List.length_drop, List.length_cons]; omega) (Nat.le_refl _)]

/-- An ASCII byte decodes to itself and the bytes around it apart from it. -/
theorem fromUtf8Lossy_append_ascii (hx : x < 0x80) (r t : Bytes) :
    fromUtf8Lossy (r ++ x :: t) =
      fromUtf8Lossy r ++ Char.ofNat x.toNat :: fromUtf8Lossy t := by
  induction hn : r.length using Nat.strong_induction_on generalizing r with
  | _ n ih =>
    cases r with
    | nil =>
      have hwidth : utf8CharWidth x = 1 := by rw [utf8CharWidth, if_pos hx]
      have hstep : utf8Step x t = (some (Char.ofNat x.toNat), 1) := by
        simp [utf8Step, continuation, hwidth, scalarValue]
      rw [List.nil_append, fromUtf8Lossy_cons, hstep]
      rfl
    | cons b r =>
      have hsize := utf8Step_size b r
      have hle := continuation_length_le b r
      rw [List.cons_append, fromUtf8Lossy_cons, fromUtf8Lossy_cons b r, utf8Step_ascii b hx,
        ← List.cons_append, List.drop_append_of_le_length (by rw [List.length_cons]; omega),
        ih _ (by subst hn; rw [List.length_drop, List.length_cons]; omega) _ rfl]
      rfl

/-! ## Sequences -/

/-- A leading byte, and the bytes that may follow it in a character. -/
structure Sequence (b : UInt8) (cs : Bytes) : Prop where
  width : cs.length + 1 = utf8CharWidth b
  second : ∀ d ds, cs = d :: ds → secondByteOk b d = true
  others : ∀ d ∈ cs.tail, 0x80 ≤ d ∧ d ≤ 0xBF

theorem prefix_of_continuation (b : UInt8) (rest : Bytes) :
    continuation b rest <+: rest.take (utf8CharWidth b - 1) := by
  simp only [continuation]
  split
  · exact List.nil_prefix
  · next d ds heq =>
    rw [heq]
    split
    · exact (List.prefix_cons_inj d).2 (List.takeWhile_prefix _)
    · exact List.nil_prefix

/-- The bytes of a continuation follow the leading byte as they must. -/
theorem continuation_head {d : UInt8} {ds : Bytes} (h : continuation b rest = d :: ds) :
    secondByteOk b d = true := by
  simp only [continuation] at h
  split at h
  · cases h
  · next y ys _ =>
    split at h
    · next hok =>
      cases h
      exact hok
    · cases h

theorem sequence_continuation (h : (continuation b rest).length + 1 = utf8CharWidth b) :
    Sequence b (continuation b rest) where
  width := h
  second _ _ hcs := continuation_head hcs
  others d hd := by
    simp only [continuation] at hd
    split at hd
    · cases hd
    · split at hd
      · simpa using List.mem_takeWhile_imp hd
      · cases hd

theorem Sequence.continuation_eq {cs : Bytes} (h : Sequence b cs) (rest : Bytes) :
    continuation b (cs ++ rest) = cs := by
  have hlen : utf8CharWidth b - 1 = cs.length := by
    have := h.width
    omega
  simp only [continuation, hlen, List.take_left']
  rcases cs with _ | ⟨d, ds⟩
  · rfl
  · simp only [h.second d ds rfl, if_true]
    rw [List.takeWhile_eq_self_iff.2]
    simpa using h.others

section
variable {d e f : UInt8}

theorem utf8CharWidth_cases (b : UInt8) :
    (b.toNat ≤ 0x7F ∧ utf8CharWidth b = 1) ∨
    ((0xC2 ≤ b.toNat ∧ b.toNat ≤ 0xDF) ∧ utf8CharWidth b = 2) ∨
    ((0xE0 ≤ b.toNat ∧ b.toNat ≤ 0xEF) ∧ utf8CharWidth b = 3) ∨
    ((0xF0 ≤ b.toNat ∧ b.toNat ≤ 0xF4) ∧ utf8CharWidth b = 4) ∨
    ((0x7F < b.toNat ∧ b.toNat < 0xC2 ∨ 0xF4 < b.toNat) ∧ utf8CharWidth b = 0) := by
  simp only [utf8CharWidth, UInt8.le_iff_toNat_le, UInt8.lt_iff_toNat_lt, UInt8.reduceToNat]
  split_ifs <;> omega

theorem secondByteOk_iff : secondByteOk b d = true ↔
    (0x80 ≤ d.toNat ∧ d.toNat ≤ 0xBF) ∧ (b.toNat = 0xE0 → 0xA0 ≤ d.toNat) ∧
      (b.toNat = 0xED → d.toNat ≤ 0x9F) ∧ (b.toNat = 0xF0 → 0x90 ≤ d.toNat) ∧
      (b.toNat = 0xF4 → d.toNat ≤ 0x8F) := by
  simp only [secondByteOk, UInt8.le_iff_toNat_le, UInt8.reduceToNat, ← UInt8.toNat_inj]
  split_ifs <;> simp only [decide_eq_true_eq] <;> omega

theorem sequence_one : Sequence b [] ↔ b.toNat ≤ 0x7F := by
  have hwidth := utf8CharWidth_cases b
  constructor
  · intro h
    have hlen := h.width
    rw [List.length_nil] at hlen
    omega
  · intro h
    refine ⟨?_, ?_, ?_⟩
    · rw [List.length_nil]
      omega
    · intro d ds hd
      cases hd
    · intro d hd
      cases hd

theorem sequence_cons {ds : Bytes} : Sequence b (d :: ds) ↔
    ds.length + 2 = utf8CharWidth b ∧ secondByteOk b d = true ∧
      ∀ x ∈ ds, 0x80 ≤ x.toNat ∧ x.toNat ≤ 0xBF := by
  constructor
  · intro h
    exact ⟨h.width, h.second d ds rfl, fun x hx => h.others x hx⟩
  · rintro ⟨hwidth, hsecond, hothers⟩
    refine ⟨hwidth, ?_, fun x hx => hothers x hx⟩
    rintro _ _ ⟨⟩
    exact hsecond

theorem sequence_two : Sequence b [d] ↔
    (0xC2 ≤ b.toNat ∧ b.toNat ≤ 0xDF) ∧ 0x80 ≤ d.toNat ∧ d.toNat ≤ 0xBF := by
  have hwidth := utf8CharWidth_cases b
  rw [sequence_cons, secondByteOk_iff, List.length_nil]
  simp only [List.not_mem_nil, false_implies, implies_true, and_true]
  omega

theorem sequence_three : Sequence b [d, e] ↔
    (0xE0 ≤ b.toNat ∧ b.toNat ≤ 0xEF) ∧ (0x80 ≤ d.toNat ∧ d.toNat ≤ 0xBF) ∧
      (b.toNat = 0xE0 → 0xA0 ≤ d.toNat) ∧ (b.toNat = 0xED → d.toNat ≤ 0x9F) ∧
      0x80 ≤ e.toNat ∧ e.toNat ≤ 0xBF := by
  have hwidth := utf8CharWidth_cases b
  rw [sequence_cons, secondByteOk_iff, List.forall_mem_singleton, List.length_singleton]
  omega

theorem sequence_four : Sequence b [d, e, f] ↔
    (0xF0 ≤ b.toNat ∧ b.toNat ≤ 0xF4) ∧ (0x80 ≤ d.toNat ∧ d.toNat ≤ 0xBF) ∧
      (b.toNat = 0xF0 → 0x90 ≤ d.toNat) ∧ (b.toNat = 0xF4 → d.toNat ≤ 0x8F) ∧
      (0x80 ≤ e.toNat ∧ e.toNat ≤ 0xBF) ∧ 0x80 ≤ f.toNat ∧ f.toNat ≤ 0xBF := by
  have hwidth := utf8CharWidth_cases b
  rw [sequence_cons, secondByteOk_iff, List.forall_mem_cons, List.forall_mem_singleton,
    List.length_cons, List.length_singleton]
  omega

theorem Sequence.length_le {cs : Bytes} (h : Sequence b cs) : cs.length ≤ 3 := by
  have hlen := h.width
  have hwidth := utf8CharWidth_cases b
  omega

/-! ## Characters and their sequences -/

theorem val_ofNat {n : ℕ} (h : n.isValidChar) : (Char.ofNat n).val.toNat = n := by
  rw [Char.ofNat, dif_pos h]
  rfl

/-- **A sequence is the encoding** of the character that it is decoded to. -/
theorem Sequence.encode {cs : Bytes} (h : Sequence b cs) :
    String.utf8EncodeChar (Char.ofNat (scalarValue b cs)) = b :: cs := by
  have hlen := h.length_le
  have hb := b.toNat_lt
  rcases cs with _ | ⟨d, _ | ⟨e, _ | ⟨f, _ | ⟨g, gs⟩⟩⟩⟩
  · rw [sequence_one] at h
    rw [show scalarValue b [] = b.toNat from rfl, String.utf8EncodeChar,
      val_ofNat (by unfold Nat.isValidChar; omega), if_pos h, UInt8.ofNat_toNat]
  · rw [sequence_two] at h
    rw [show scalarValue b [d] = b.toNat % 32 * 64 + d.toNat % 64 from rfl, String.utf8EncodeChar,
      val_ofNat (by unfold Nat.isValidChar; omega), if_neg (by omega), if_pos (by omega)]
    simp only [List.cons.injEq, ← UInt8.toNat_inj, UInt8.toNat_ofNat', and_true]
    omega
  · rw [sequence_three] at h
    rw [show scalarValue b [d, e] = (b.toNat % 16 * 64 + d.toNat % 64) * 64 + e.toNat % 64 from rfl,
      String.utf8EncodeChar, val_ofNat (by unfold Nat.isValidChar; omega), if_neg (by omega),
      if_neg (by omega), if_pos (by omega)]
    simp only [List.cons.injEq, ← UInt8.toNat_inj, UInt8.toNat_ofNat', and_true]
    omega
  · rw [sequence_four] at h
    rw [show scalarValue b [d, e, f] =
        ((b.toNat % 8 * 64 + d.toNat % 64) * 64 + e.toNat % 64) * 64 + f.toNat % 64 from rfl,
      String.utf8EncodeChar, val_ofNat (by unfold Nat.isValidChar; omega), if_neg (by omega),
      if_neg (by omega), if_neg (by omega)]
    simp only [List.cons.injEq, ← UInt8.toNat_inj, UInt8.toNat_ofNat', and_true]
    omega
  · simp only [List.length_cons] at hlen
    omega

/-- **The encoding of a character is a sequence**, decoded to the character. -/
theorem sequence_encode (c : Char) :
    ∃ b cs, String.utf8EncodeChar c = b :: cs ∧ Sequence b cs ∧ scalarValue b cs = c.toNat := by
  have hvalid : c.val.toNat < 0xD800 ∨ 0xDFFF < c.val.toNat ∧ c.val.toNat < 0x110000 := c.valid
  have hc : c.toNat = c.val.toNat := rfl
  rw [String.utf8EncodeChar, hc]
  split_ifs with hone htwo hthree
  · refine ⟨_, _, rfl, ?_, ?_⟩
    · rw [sequence_one, UInt8.toNat_ofNat']
      omega
    · simp only [scalarValue, List.length_nil, List.foldl_nil, UInt8.toNat_ofNat']
      omega
  · refine ⟨_, _, rfl, ?_, ?_⟩
    · rw [sequence_two, UInt8.toNat_ofNat', UInt8.toNat_ofNat']
      omega
    · simp only [scalarValue, List.length_cons, List.length_nil, List.foldl_cons, List.foldl_nil,
        UInt8.toNat_ofNat']
      omega
  · refine ⟨_, _, rfl, ?_, ?_⟩
    · rw [sequence_three, UInt8.toNat_ofNat', UInt8.toNat_ofNat', UInt8.toNat_ofNat']
      omega
    · simp only [scalarValue, List.length_cons, List.length_nil, List.foldl_cons, List.foldl_nil,
        UInt8.toNat_ofNat']
      omega
  · refine ⟨_, _, rfl, ?_, ?_⟩
    · rw [sequence_four, UInt8.toNat_ofNat', UInt8.toNat_ofNat', UInt8.toNat_ofNat',
        UInt8.toNat_ofNat']
      omega
    · simp only [scalarValue, List.length_cons, List.length_nil, List.foldl_cons, List.foldl_nil,
        UInt8.toNat_ofNat']
      omega

end

/-! ## Texts -/

theorem fromUtf8_cons (b : UInt8) (rest : Bytes) :
    fromUtf8 (b :: rest) = (utf8Step b rest).1.bind fun c =>
      (fromUtf8 ((b :: rest).drop (utf8Step b rest).2)).map (c :: ·) := by
  have hsize := utf8Step_size b rest
  simp only [fromUtf8, List.length_cons, utf8Chunks, List.mapM_cons, id]
  rw [utf8Chunks_eq (n := rest.length) (by rw [List.length_drop, List.length_cons]; omega)
    (Nat.le_refl _)]
  rcases (utf8Step b rest).1 with _ | c
  · rfl
  · simp only [Option.bind_eq_bind, Option.bind_some, Option.pure_def, Option.map_eq_bind]
    rfl

theorem fromUtf8_asBytes (s : Text) : fromUtf8 (asBytes s) = some s := by
  induction s with
  | nil => rfl
  | cons c s ih =>
    obtain ⟨b, cs, hencode, hseq, hvalue⟩ := sequence_encode c
    have hbytes : asBytes (c :: s) = b :: (cs ++ asBytes s) := by
      rw [asBytes, List.flatMap_cons, hencode]
      rfl
    have hstep : utf8Step b (cs ++ asBytes s) = (some c, cs.length + 1) := by
      simp only [utf8Step, hseq.continuation_eq, hseq.width, if_true, hvalue]
      rw [show Char.ofNat c.toNat = c from Char.ofNat_toNat c]
    rw [hbytes, fromUtf8_cons, hstep]
    simp [ih]

/-- **Decoding is exact**: a text is decoded from its own bytes and no others. -/
theorem fromUtf8_eq_some {s : Text} : fromUtf8 bs = some s ↔ bs = asBytes s := by
  refine ⟨fun h => ?_, fun h => h ▸ fromUtf8_asBytes s⟩
  induction s generalizing bs with
  | nil =>
    rcases bs with _ | ⟨b, rest⟩
    · rfl
    · rw [fromUtf8_cons] at h
      simp [Option.bind_eq_some_iff] at h
  | cons c s ih =>
    rcases bs with _ | ⟨b, rest⟩
    · cases h
    · rw [fromUtf8_cons, Option.bind_eq_some_iff] at h
      obtain ⟨c', hstep, hrest⟩ := h
      rw [Option.map_eq_some_iff] at hrest
      obtain ⟨s', hs', heq⟩ := hrest
      cases heq
      have htail := ih hs'
      rw [utf8Step_size] at htail
      simp only [utf8Step] at hstep
      split at hstep
      · next hwidth =>
        have hseq := sequence_continuation hwidth
        obtain rfl := Option.some.inj hstep
        have hrun : continuation b rest = rest.take (continuation b rest).length :=
          List.prefix_iff_eq_take.1 ((prefix_of_continuation b rest).trans (List.take_prefix _ _))
        rw [asBytes, List.flatMap_cons, hseq.encode, ← asBytes, ← htail, List.drop_succ_cons,
          List.cons_append]
        nth_rewrite 1 [hrun]
        rw [List.take_append_drop]
      · cases hstep

theorem fromUtf8_ascii (h : ∀ x ∈ bs, x < 0x80) :
    fromUtf8 bs = some (bs.map fun x => Char.ofNat x.toNat) := by
  rw [fromUtf8_eq_some]
  induction bs with
  | nil => rfl
  | cons x xs ih =>
    have hx := h x List.mem_cons_self
    simp only [UInt8.lt_iff_toNat_lt, UInt8.reduceToNat] at hx
    have hencode : String.utf8EncodeChar (Char.ofNat x.toNat) = [x] :=
      (sequence_one.2 (Nat.le_of_lt_succ hx)).encode
    rw [List.map_cons, asBytes, List.flatMap_cons, hencode, ← asBytes,
      ← ih fun y hy => h y (List.mem_cons_of_mem x hy)]
    rfl

theorem ascii_iff {s : Text} : (∀ c ∈ s, c.toNat < 128) ↔ ∀ x ∈ asBytes s, x < 0x80 := by
  constructor
  · intro h x hx
    rw [asBytes, List.mem_flatMap] at hx
    obtain ⟨c, hc, hx⟩ := hx
    have hlt : c.val.toNat < 128 := h c hc
    rw [String.utf8EncodeChar, if_pos (Nat.le_of_lt_succ hlt), List.mem_singleton] at hx
    subst hx
    rw [UInt8.lt_iff_toNat_lt, UInt8.toNat_ofNat']
    exact Nat.lt_of_le_of_lt (Nat.mod_le _ _) hlt
  · intro h c hc
    have hs := fromUtf8_asBytes s
    rw [fromUtf8_ascii h, Option.some.injEq] at hs
    rw [← hs, List.mem_map] at hc
    obtain ⟨x, hx, rfl⟩ := hc
    have hlt := h x hx
    simp only [UInt8.lt_iff_toNat_lt, UInt8.reduceToNat] at hlt
    show (Char.ofNat x.toNat).val.toNat < 128
    rw [val_ofNat (by unfold Nat.isValidChar; omega)]
    exact hlt

end SerialMcp
