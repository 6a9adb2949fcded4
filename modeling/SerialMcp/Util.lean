/-
  Byte-slice utilities (`util.rs`).

  * `findSubsequence` is the first window of the haystack equal to a non-empty
    needle (`findSubsequence_eq_some`, `findSubsequence_eq_none`);
  * an occurrence that was found stays the first one when the haystack grows
    (`findSubsequence_append`), and a front part in which no occurrence starts
    can be dropped (`findSubsequence_drop`);
  * `position` of a byte is the search for the one-byte needle
    (`position_eq_findSubsequence`).
-/
import Mathlib.Algebra.Ring.Nat
import Mathlib.Data.List.Infix
import Mathlib.Tactic.Common

namespace SerialMcp

variable {α : Type} {h n t : List α} {i j k : ℕ}

/-! ## Occurrences -/

theorem occurrence_le (hn : n <+: h.drop i) (hne : n ≠ []) : i + n.length ≤ h.length := by
  have hl := hn.length_le
  have hp := List.length_pos_iff.mpr hne
  rw [List.length_drop] at hl
  omega

/-- Inside the old haystack, occurrences in the grown one are the old ones. -/
theorem occurrence_append (hj : j + n.length ≤ h.length) :
    n <+: (h ++ t).drop j ↔ n <+: h.drop j := by
  rw [List.drop_append_of_le_length (by omega)]
  exact List.isPrefix_append_of_length (by rw [List.length_drop]; omega)

theorem singleton_prefix_drop {x : α} : [x] <+: h.drop i ↔ h[i]? = some x := by
  rw [← List.head?_drop]
  rcases h.drop i with _ | ⟨y, ys⟩
  · simp
  · simp [List.cons_prefix_cons, eq_comm]

/-! ## The searches -/

variable [DecidableEq α]

/-- `find_subsequence`: the first occurrence of `needle` in `haystack`, none
    for an empty or longer needle. -/
def findSubsequence (haystack needle : List α) : Option ℕ :=
  if needle = [] ∨ haystack.length < needle.length then none
  else (List.range (haystack.length - needle.length + 1)).find? fun i =>
    (haystack.drop i).take needle.length = needle

/-- `iter().position(|&b| b == x)` -/
def position (buf : List α) (x : α) : Option ℕ := buf.findIdx? (· = x)

/-! ## What the search finds -/

theorem findSubsequence_eq_some (hne : n ≠ []) :
    findSubsequence h n = some i ↔ n <+: h.drop i ∧ ∀ j < i, ¬ n <+: h.drop j := by
  simp only [findSubsequence, hne, false_or]
  have hw : ∀ j, (h.drop j).take n.length = n ↔ n <+: h.drop j := fun j =>
    ⟨fun e => List.prefix_iff_eq_take.mpr e.symm, fun p => (List.prefix_iff_eq_take.mp p).symm⟩
  rcases Nat.lt_or_ge h.length n.length with hlt | hge
  · rw [if_pos hlt]
    constructor
    · intro e
      cases e
    · rintro ⟨hi, -⟩
      have := occurrence_le hi hne
      omega
  · rw [if_neg (by omega)]
    simp only [List.find?_range_eq_some, decide_eq_true_eq, hw, List.mem_range,
      Bool.not_eq_true', decide_eq_false_iff_not]
    constructor
    · rintro ⟨hi, -, hj⟩
      exact ⟨hi, hj⟩
    · rintro ⟨hi, hj⟩
      have := occurrence_le hi hne
      exact ⟨hi, by omega, hj⟩

theorem findSubsequence_eq_none (hne : n ≠ []) :
    findSubsequence h n = none ↔ ∀ j, ¬ n <+: h.drop j := by
  constructor
  · intro e j hj
    induction j using Nat.strong_induction_on with
    | _ j ih =>
      have : findSubsequence h n = some j := (findSubsequence_eq_some hne).mpr ⟨hj, ih⟩
      rw [e] at this
      cases this
  · intro hno
    rcases e : findSubsequence h n with _ | i
    · rfl
    · exact absurd ((findSubsequence_eq_some hne).mp e).1 (hno i)

theorem findSubsequence_le (hne : n ≠ []) (hi : findSubsequence h n = some i) :
    i + n.length ≤ h.length :=
  occurrence_le ((findSubsequence_eq_some hne).mp hi).1 hne

/-! ## Growing and shrinking the haystack -/

theorem findSubsequence_append (hne : n ≠ []) (hi : findSubsequence h n = some i) :
    findSubsequence (h ++ t) n = some i := by
  have hle := findSubsequence_le hne hi
  obtain ⟨hat, hfirst⟩ := (findSubsequence_eq_some hne).mp hi
  refine (findSubsequence_eq_some hne).mpr ⟨(occurrence_append hle).mpr hat, ?_⟩
  intro j hj hocc
  exact hfirst j hj ((occurrence_append (by omega)).mp hocc)

theorem findSubsequence_drop (hne : n ≠ []) (hno : ∀ j < k, ¬ n <+: h.drop j) :
    findSubsequence h n = (findSubsequence (h.drop k) n).map (k + ·) := by
  rcases e : findSubsequence (h.drop k) n with _ | i
  · rw [findSubsequence_eq_none hne] at e
    refine (findSubsequence_eq_none hne).mpr fun j hj => ?_
    rcases Nat.lt_or_ge j k with hlt | hge
    · exact hno j hlt hj
    · refine e (j - k) ?_
      rwa [List.drop_drop, Nat.add_sub_cancel' hge]
  · obtain ⟨hat, hfirst⟩ := (findSubsequence_eq_some hne).mp e
    rw [List.drop_drop] at hat
    refine (findSubsequence_eq_some hne).mpr ⟨hat, fun j hj hocc => ?_⟩
    rcases Nat.lt_or_ge j k with hlt | hge
    · exact hno j hlt hocc
    · refine hfirst (j - k) (by simp only at hj; omega) ?_
      rwa [List.drop_drop, Nat.add_sub_cancel' hge]

/-- Where the search fails, only the last `n.length - 1` elements can belong
    to an occurrence in a grown haystack. -/
theorem no_occurrence_append (hne : n ≠ []) (he : findSubsequence h n = none)
    (hj : j + n.length ≤ h.length) : ¬ n <+: (h ++ t).drop j := fun hocc =>
  (findSubsequence_eq_none hne).mp he j ((occurrence_append hj).mp hocc)

/-! ## Single bytes -/

theorem position_eq_findSubsequence (buf : List α) (x : α) :
    position buf x = findSubsequence buf [x] := by
  rcases e : findSubsequence buf [x] with _ | i
  · rw [findSubsequence_eq_none (by simp)] at e
    simp only [singleton_prefix_drop] at e
    simp only [position, List.findIdx?_eq_none_iff, decide_eq_false_iff_not]
    intro y hy rfl
    obtain ⟨j, hj⟩ := List.mem_iff_getElem?.mp hy
    exact e j hj
  · obtain ⟨hat, hfirst⟩ := (findSubsequence_eq_some (by simp)).mp e
    simp only [singleton_prefix_drop] at hat hfirst
    obtain ⟨hi, hx⟩ := List.getElem?_eq_some_iff.mp hat
    simp only [position, List.findIdx?_eq_some_iff_getElem, decide_eq_true_eq]
    refine ⟨hi, hx, fun j hj hjx => hfirst j hj ?_⟩
    rw [List.getElem?_eq_getElem (by omega), hjx]

end SerialMcp
