/-
  Snapshots, each compared with the latest one before it.

  * `sorted_eq_iff`: sorting by a lawful comparison tells lists apart up to the order
    of their elements, and no further;
  * `remembered_eq_some`: what is remembered of observations that may fail is the latest
    one that did not.
-/
import Mathlib.Data.List.Sort

namespace Snapshots

open Std

/-! ## Canonical forms -/

section
variable {α : Type} (cmp : α → α → Ordering)

/-- A list in the order of a comparison, elements that compare equal as they stood. -/
def sorted (l : List α) : List α := l.mergeSort fun a b => (cmp a b).isLE

theorem sorted_perm (l : List α) : (sorted cmp l).Perm l := List.mergeSort_perm ..

theorem sorted_pairwise [TransCmp cmp] (l : List α) :
    (sorted cmp l).Pairwise fun a b => (cmp a b).isLE := by
  refine List.pairwise_mergeSort ?_ ?_ l
  · intro a b c hab hbc
    exact TransCmp.isLE_trans hab hbc
  · intro a b
    rw [← OrientedCmp.isGE_eq_isLE]
    cases cmp b a <;> rfl

/-- **Sorted lists are canonical**: they are equal exactly if the lists are rearrangements
    of each other, however often an element occurs in them. -/
theorem sorted_eq_iff [TransCmp cmp] [LawfulEqCmp cmp] {l l' : List α} :
    sorted cmp l = sorted cmp l' ↔ l.Perm l' := by
  constructor
  · intro h
    have hl := (sorted_perm cmp l).symm
    rw [h] at hl
    exact hl.trans (sorted_perm cmp l')
  · intro h
    have hperm := ((sorted_perm cmp l).trans h).trans (sorted_perm cmp l').symm
    refine List.Perm.eq_of_pairwise ?_ (sorted_pairwise cmp l) (sorted_pairwise cmp l') hperm
    intro a b _ _ hab hba
    exact LawfulEqCmp.eq_of_compare (OrientedCmp.isLE_antisymm hab hba)

end

/-! ## The latest observation -/

section
variable {α β : Type} {observed : ℕ → Option α} {m n : ℕ} {a : α} {b : β}

/-- Before `n`, the latest observation is `a`, at `m`. -/
structure Latest (observed : ℕ → Option α) (n m : ℕ) (a : α) : Prop where
  lt : m < n
  seen : observed m = some a
  failed : ∀ k, m < k → k < n → observed k = none

theorem Latest.unique {m' : ℕ} {a' : α} (h : Latest observed n m a) (h' : Latest observed n m' a') :
    m = m' ∧ a = a' := by
  have hm : m = m' := by
    rcases Nat.lt_trichotomy m m' with hlt | rfl | hlt
    · have hnone := h.failed m' hlt h'.lt
      rw [h'.seen] at hnone
      cases hnone
    · rfl
    · have hnone := h'.failed m hlt h.lt
      rw [h.seen] at hnone
      cases hnone
  subst hm
  have hseen := h.seen.symm.trans h'.seen
  exact ⟨rfl, Option.some.inj hseen⟩

theorem Latest.here (h : observed n = some a) : Latest observed (n + 1) n a :=
  ⟨Nat.lt_succ_self n, h, fun _ hk hlt => absurd hlt (by omega)⟩

theorem latest_succ (hnone : observed n = none) :
    Latest observed (n + 1) m a ↔ Latest observed n m a := by
  constructor
  · intro h
    have hne : m ≠ n := by
      rintro rfl
      rw [h.seen] at hnone
      cases hnone
    have hlt := h.lt
    exact ⟨by omega, h.seen, fun k hk hkn => h.failed k hk (by omega)⟩
  · intro h
    refine ⟨by have := h.lt; omega, h.seen, fun k hk hkn => ?_⟩
    by_cases hkeq : k = n
    · rw [hkeq]
      exact hnone
    · exact h.failed k hk (by omega)

/-- What is remembered of the first `n` observations. -/
def remembered (canonical : α → β) (observed : ℕ → Option α) : ℕ → Option β
  | 0 => none
  | n + 1 =>
    match observed n with
    | some a => some (canonical a)
    | none => remembered canonical observed n

/-- **What is remembered** is the canonical form of the latest observation. -/
theorem remembered_eq_some {canonical : α → β} : remembered canonical observed n = some b ↔
    ∃ m a, Latest observed n m a ∧ canonical a = b := by
  induction n with
  | zero =>
    constructor
    · intro h
      cases h
    · rintro ⟨m, a, h, -⟩
      exact absurd h.lt (Nat.not_lt_zero m)
  | succ n ih =>
    rw [remembered]
    rcases hobs : observed n with _ | a
    · simp only [latest_succ hobs, ih]
    · constructor
      · intro h
        exact ⟨n, a, .here hobs, Option.some.inj h⟩
      · rintro ⟨m, a', h, rfl⟩
        rw [((Latest.here hobs).unique h).2]

end

end Snapshots
