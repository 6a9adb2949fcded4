/-
  A bounded channel with one receiver: values come out in the order in which
  they were sent, until the receiver is dropped and what is queued is lost.

  * `Chan`: the channel, with what its receiver has taken and what was lost;
  * `send_eq`, `recv_eq` and their like: what each operation does;
  * `Chan.accepted`: all values sent so far, in the order they were sent in, of
    which the receiver sees a first part (`taken_first`).
-/
import Mathlib.Data.List.Basic
import Mathlib.Tactic.Common

namespace Channels

variable {α : Type} {cap : ℕ}

/-- A channel that queues at most `cap` values. -/
structure Chan (α : Type) (cap : ℕ) where
  /-- what the receiver has taken -/
  taken : List α
  queue : List α
  /-- what was queued when the receiver was dropped -/
  lost : List α
  /-- the receiver has been dropped -/
  closed : Bool
  fits : queue.length ≤ cap
  lost_nil : closed = false → lost = []
  queue_nil : closed = true → queue = []

namespace Chan

/-- A new channel. -/
def new : Chan α cap := ⟨[], [], [], false, Nat.zero_le _, fun _ => rfl, fun _ => rfl⟩

/-- All values sent so far. -/
def accepted (c : Chan α cap) : List α := c.taken ++ c.queue ++ c.lost

/-- Queue a value, if there is a receiver and room. -/
def send (c : Chan α cap) (a : α) : Option (Chan α cap) :=
  if h : c.closed = false ∧ c.queue.length < cap then
    some { c with
      queue := c.queue ++ [a]
      fits := by
        rw [List.length_append, List.length_singleton]
        exact h.2
      queue_nil := fun hclosed => by
        rw [h.1] at hclosed
        cases hclosed }
  else none

/-- Take the value that was queued first. -/
def recv (c : Chan α cap) : Option (α × Chan α cap) :=
  match hqueue : c.queue with
  | [] => none
  | a :: rest => some (a, { c with
      taken := c.taken ++ [a]
      queue := rest
      fits := by
        have hfits := c.fits
        rw [hqueue, List.length_cons] at hfits
        omega
      queue_nil := fun hclosed => by
        have hnil := c.queue_nil hclosed
        rw [hqueue] at hnil
        cases hnil })

/-- Drop the receiver, and what is queued with it. -/
def close (c : Chan α cap) : Chan α cap where
  taken := c.taken
  queue := []
  lost := c.lost ++ c.queue
  closed := true
  fits := Nat.zero_le _
  lost_nil h := by cases h
  queue_nil _ := rfl

variable {c c' : Chan α cap} {a : α}

@[simp] theorem new_taken : (new : Chan α cap).taken = [] := rfl

@[simp] theorem new_queue : (new : Chan α cap).queue = [] := rfl

@[simp] theorem new_closed : (new : Chan α cap).closed = false := rfl

@[simp] theorem close_taken : c.close.taken = c.taken := rfl

@[simp] theorem close_queue : c.close.queue = [] := rfl

@[simp] theorem close_closed : c.close.closed = true := rfl

/-- **What sending does**: the value comes last. -/
theorem send_eq (h : c.send a = some c') :
    c.closed = false ∧ c'.closed = false ∧ c'.taken = c.taken ∧ c'.queue = c.queue ++ [a] ∧
      c'.lost = c.lost := by
  rw [send] at h
  split_ifs at h with hroom
  cases h
  exact ⟨hroom.1, hroom.1, rfl, rfl, rfl⟩

/-- **What receiving does**: the value that comes first moves to those taken. -/
theorem recv_eq (h : c.recv = some (a, c')) :
    c.queue = a :: c'.queue ∧ c'.taken = c.taken ++ [a] ∧ c'.lost = c.lost ∧
      c'.closed = c.closed := by
  rw [recv] at h
  split at h
  · cases h
  · rename_i b rest hqueue
    cases h
    exact ⟨hqueue, rfl, rfl, rfl⟩

theorem taken_first (c : Chan α cap) : c.taken <+: c.accepted :=
  ⟨c.queue ++ c.lost, by rw [accepted, List.append_assoc]⟩

end Chan

end Channels
