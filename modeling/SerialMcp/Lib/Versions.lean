/-
  A value with a version number and a bounded history.

  A value is created as version 1.  A replacement gives it the next number and
  puts the version that is replaced into the history, of which the newest `cap`
  versions are kept.  A value can be deleted, and then be created anew.

  * `Trace`: the states at the times `0, ..., k`, without a value at first;
  * `Trace.numbered`: the versions that are kept are the last ones before the
    current one, in order;
  * `Trace.complete` and `Trace.sound`: they are versions that the value had
    since it was created, and the only ones of their numbers.
-/
import Mathlib.Data.List.Basic
import Mathlib.Tactic.Common

namespace Versions

variable {α : Type}

/-- A value under its number. -/
@[ext] structure Version (α : Type) where
  number : ℕ
  value : α

/-- A current version, and the ones before it that are kept, oldest first. -/
@[ext] structure Versioned (α : Type) where
  current : Version α
  kept : List (Version α)

/-- The last `cap` items of a list. -/
def newest {β : Type} (cap : ℕ) (l : List β) : List β := l.drop (l.length - cap)

theorem mem_of_mem_newest {β : Type} {cap : ℕ} {l : List β} {x : β} (h : x ∈ newest cap l) :
    x ∈ l :=
  List.mem_of_mem_drop h

theorem map_newest {β γ : Type} (f : β → γ) (cap : ℕ) (l : List β) :
    (newest cap l).map f = newest cap (l.map f) := by
  rw [newest, newest, List.map_drop, List.length_map]

namespace Versioned

def replace (cap : ℕ) (v : Versioned α) (a : α) : Versioned α :=
  ⟨⟨v.current.number + 1, a⟩, newest cap (v.kept ++ [v.current])⟩

/-- The versions that are kept are the last ones before the current one. -/
structure Numbered (cap : ℕ) (v : Versioned α) : Prop where
  pos : 0 < v.current.number
  kept : v.kept.map Version.number =
    List.range' (v.current.number - min (v.current.number - 1) cap)
      (min (v.current.number - 1) cap)

variable {cap : ℕ} {v : Versioned α} {w : Version α} {a : α}

theorem Numbered.replace (h : v.Numbered cap) : (v.replace cap a).Numbered cap := by
  obtain ⟨hpos, hkept⟩ := h
  refine ⟨Nat.succ_pos _, ?_⟩
  have hconcat : (v.kept ++ [v.current]).map Version.number =
      List.range' (v.current.number - min (v.current.number - 1) cap)
        (min (v.current.number - 1) cap + 1) := by
    rw [List.map_append, hkept, List.map_singleton, List.range'_concat]
    congr 2
    omega
  simp only [Versioned.replace]
  rw [map_newest, hconcat, newest, List.length_range', List.drop_range']
  congr 1 <;> omega

/-- What is kept has a smaller number than the current version. -/
theorem Numbered.lt (h : v.Numbered cap) (hw : w ∈ v.kept) :
    w.number < v.current.number := by
  have hmem := List.mem_map_of_mem (f := Version.number) hw
  rw [h.kept, List.mem_range'_1] at hmem
  omega

end Versioned

/-- What can happen to a value from one time to the next. -/
inductive Step (cap : ℕ) : Option (Versioned α) → Option (Versioned α) → Prop
  | same {o} : Step cap o o
  | create {a} : Step cap none (some ⟨⟨1, a⟩, []⟩)
  | replace {v a} : Step cap (some v) (some (v.replace cap a))
  | delete {v} : Step cap (some v) none

/-- Steps from the time without a value to the time `k`. -/
structure Trace (cap : ℕ) (s : ℕ → Option (Versioned α)) (k : ℕ) : Prop where
  init : s 0 = none
  step : ∀ i < k, Step cap (s i) (s (i + 1))

/-- There is a value at all times from `i` to `k`. -/
structure Life {β : Type} (s : ℕ → Option β) (i k : ℕ) : Prop where
  le : i ≤ k
  alive : ∀ j, i ≤ j → j ≤ k → (s j).isSome

variable {cap i k : ℕ} {s : ℕ → Option (Versioned α)} {u v : Versioned α} {w : Version α}

theorem Life.refl {β : Type} {s : ℕ → Option β} (h : (s k).isSome) : Life s k k := by
  refine ⟨Nat.le_refl k, fun j hj hj' => ?_⟩
  rwa [Nat.le_antisymm hj' hj]

theorem Life.succ {β : Type} {s : ℕ → Option β} (h : Life s i k) (hk : (s (k + 1)).isSome) :
    Life s i (k + 1) := by
  refine ⟨Nat.le_succ_of_le h.le, fun j hj hj' => ?_⟩
  rcases Nat.lt_or_eq_of_le hj' with hlt | rfl
  · exact h.alive j hj (Nat.le_of_lt_succ hlt)
  · exact hk

theorem Life.pred {β : Type} {s : ℕ → Option β} (h : Life s i (k + 1)) (hi : i ≤ k) :
    Life s i k :=
  ⟨hi, fun j hj hj' => h.alive j hj (Nat.le_succ_of_le hj')⟩

namespace Trace

theorem pred (h : Trace cap s (k + 1)) : Trace cap s k :=
  ⟨h.init, fun i hi => h.step i (Nat.lt_succ_of_lt hi)⟩

/-- **The numbers of the versions**: the current one counts the replacements, and
    the ones before it are kept in order, as far back as the history goes. -/
theorem numbered (h : Trace cap s k) (hv : s k = some v) :
    v.Numbered cap ∧ v.current.number ≤ k := by
  induction k generalizing v with
  | zero =>
    rw [h.init] at hv
    cases hv
  | succ k ih =>
    have hstep := h.step k (Nat.lt_succ_self k)
    rw [hv] at hstep
    generalize hk : s k = o at hstep
    cases hstep with
    | same =>
      obtain ⟨hnum, hle⟩ := ih h.pred hk
      exact ⟨hnum, Nat.le_succ_of_le hle⟩
    | create => exact ⟨⟨Nat.one_pos, by simp⟩, Nat.succ_pos k⟩
    | replace =>
      obtain ⟨hnum, hle⟩ := ih h.pred hk
      exact ⟨hnum.replace, Nat.succ_le_succ hle⟩

/-- **Every version that is kept, or current, is one that the value had** since it
    was created. -/
theorem complete (h : Trace cap s k) (hv : s k = some v) (hw : w ∈ v.current :: v.kept) :
    ∃ i u, Life s i k ∧ s i = some u ∧ u.current = w := by
  induction k generalizing v with
  | zero =>
    rw [h.init] at hv
    cases hv
  | succ k ih =>
    have hsome : (s (k + 1)).isSome := by rw [hv]; rfl
    have hnow : w = v.current → ∃ i u, Life s i (k + 1) ∧ s i = some u ∧ u.current = w :=
      fun hw => ⟨k + 1, v, .refl hsome, hv, hw.symm⟩
    have hstep := h.step k (Nat.lt_succ_self k)
    rw [hv] at hstep
    generalize hk : s k = o at hstep
    cases hstep with
    | same =>
      obtain ⟨i, u, hlife, hu, hw⟩ := ih h.pred hk hw
      exact ⟨i, u, hlife.succ hsome, hu, hw⟩
    | create =>
      rcases List.mem_cons.1 hw with rfl | hw
      · exact hnow rfl
      · cases hw
    | @replace v₀ a =>
      rcases List.mem_cons.1 hw with rfl | hw
      · exact hnow rfl
      · have hold : w ∈ v₀.current :: v₀.kept := by
          simpa [or_comm] using mem_of_mem_newest hw
        obtain ⟨i, u, hlife, hu, hw⟩ := ih h.pred hk hold
        exact ⟨i, u, hlife.succ hsome, hu, hw⟩

/-- **A number stands for one version** in the life of a value: what is kept, or
    current, under a number is what the value was at any time it had that number. -/
theorem sound (h : Trace cap s k) (hv : s k = some v) (hlife : Life s i k)
    (hu : s i = some u) :
    u.current.number ≤ v.current.number ∧
    ∀ w ∈ v.current :: v.kept, w.number = u.current.number → w = u.current := by
  induction k generalizing v with
  | zero =>
    rw [h.init] at hv
    cases hv
  | succ k ih =>
    rcases Nat.lt_or_eq_of_le hlife.le with hlt | rfl
    · have hle := Nat.le_of_lt_succ hlt
      have hstep := h.step k (Nat.lt_succ_self k)
      rw [hv] at hstep
      generalize hk : s k = o at hstep
      cases hstep with
      | same => exact ih h.pred hk (hlife.pred hle)
      | create =>
        have halive := hlife.alive k hle (Nat.le_succ k)
        rw [hk] at halive
        cases halive
      | @replace v₀ a =>
        obtain ⟨hnum, hwit⟩ := ih h.pred hk (hlife.pred hle)
        have hnext : (v₀.replace cap a).current.number = v₀.current.number + 1 := rfl
        refine ⟨by omega, fun w hw hwu => ?_⟩
        rcases List.mem_cons.1 hw with rfl | hw
        · omega
        · have hold : w ∈ v₀.current :: v₀.kept := by
            simpa [or_comm] using mem_of_mem_newest hw
          exact hwit w hold hwu
    · obtain rfl : u = v := Option.some.inj (hu.symm.trans hv)
      refine ⟨Nat.le_refl _, fun w hw hwu => ?_⟩
      rcases List.mem_cons.1 hw with rfl | hw
      · rfl
      · have hlt := (h.numbered hu).1.lt hw
        omega

end Trace

end Versions
