/-
  A bounded broadcast channel, as one of its receivers sees it.

  All that was ever sent is one list, and a receiver is a position in it.  A channel
  hands out the values in order, and skips some with a report of its lag when it has
  overwritten them.

  * `Channel`: how a channel may answer, and `Channel.bounded` with a buffer of a
    given capacity;
  * `Receiver.Accounted`: every value up to the position of a receiver was received or
    reported as skipped, after it was sent; sending and receiving keep it.
-/
import Mathlib.Data.List.Basic
import Mathlib.Tactic.Common

namespace Broadcast

variable {E : Type}

/-- What a receiver gets: a value, or how many it has missed. -/
inductive Received (E : Type) where
  | value (e : E)
  | lagged (missed : ℕ)
  deriving DecidableEq, Repr

/-- How a receiver at a position is answered, with its next position; none if it has to
    wait. -/
structure Channel (E : Type) where
  recv : List E → ℕ → Option (Received E × ℕ)
  /-- a receiver waits only if there is nothing for it -/
  waits : ∀ {sent next}, recv sent next = none → sent.length ≤ next
  inOrder : ∀ {sent next e next'}, recv sent next = some (.value e, next') →
    sent[next]? = some e ∧ next' = next + 1
  skips : ∀ {sent next missed next'}, recv sent next = some (.lagged missed, next') →
    next' = next + missed ∧ next' ≤ sent.length

/-- A channel that keeps the last values that were sent. -/
def Channel.bounded (E : Type) (capacity : ℕ) : Channel E where
  recv sent next :=
    if sent.length ≤ next + capacity then sent[next]?.map fun e => (.value e, next + 1)
    else some (.lagged (sent.length - capacity - next), sent.length - capacity)
  waits := by
    intro sent next h
    split_ifs at h
    exact List.getElem?_eq_none_iff.1 (Option.map_eq_none_iff.1 h)
  inOrder := by
    intro sent next e next' h
    split_ifs at h
    · obtain ⟨e', he, heq⟩ := Option.map_eq_some_iff.1 h
      cases heq
      exact ⟨he, rfl⟩
    · cases h
  skips := by
    intro sent next missed next' h
    split_ifs at h with hkept
    · obtain ⟨e, -, heq⟩ := Option.map_eq_some_iff.1 h
      cases heq
    · cases h
      omega

example : (Channel.bounded ℕ 2).recv [5, 6, 7] 0 = some (.lagged 1, 1) := by decide

/-- A receiver, with all that it got and how much had been sent by then. -/
structure Receiver (E : Type) where
  start : ℕ
  next : ℕ
  log : List (Received E × ℕ)

namespace Receiver

/-- A receiver that subscribes now. -/
def subscribe (sent : List E) : Receiver E := ⟨sent.length, sent.length, []⟩

def receive (r : Receiver E) (sent : List E) (x : Received E) (next : ℕ) : Receiver E :=
  { r with next, log := r.log ++ [(x, sent.length)] }

/-- What a receiver got accounts for a value. -/
def Accounts (x : Received E × ℕ) (i : ℕ) (e : E) : Prop :=
  i < x.2 ∧ (x.1 = .value e ∨ ∃ missed, x.1 = .lagged missed)

/-- Every value up to the position of a receiver is accounted for. -/
structure Accounted (sent : List E) (r : Receiver E) : Prop where
  le : r.next ≤ sent.length
  all : ∀ i e, r.start ≤ i → i < r.next → sent[i]? = some e → ∃ x ∈ r.log, Accounts x i e

variable {sent : List E} {r : Receiver E} {channel : Channel E} {x : Received E} {next : ℕ}

theorem accounted_subscribe (sent : List E) : (subscribe sent).Accounted sent where
  le := Nat.le_refl _
  all := by
    intro i e hstart hnext
    simp only [subscribe] at hstart hnext
    omega

theorem Accounted.send (h : r.Accounted sent) (e : E) : r.Accounted (sent ++ [e]) where
  le := by
    have hle := h.le
    rw [List.length_append]
    omega
  all := by
    intro i e' hstart hnext he
    rw [List.getElem?_append_left (Nat.lt_of_lt_of_le hnext h.le)] at he
    exact h.all i e' hstart hnext he

/-- **What is received accounts for what is passed.** -/
theorem Accounted.receive (h : r.Accounted sent)
    (hrecv : channel.recv sent r.next = some (x, next)) : (r.receive sent x next).Accounted sent := by
  have hle : next ≤ sent.length := by
    cases x with
    | value e =>
      obtain ⟨he, rfl⟩ := channel.inOrder hrecv
      exact (List.getElem?_eq_some_iff.1 he).1
    | lagged missed => exact (channel.skips hrecv).2
  refine ⟨hle, fun i e hstart hnext he => ?_⟩
  by_cases hold : i < r.next
  · obtain ⟨y, hy, haccounts⟩ := h.all i e hstart hold he
    exact ⟨y, List.mem_append_left _ hy, haccounts⟩
  · refine ⟨(x, sent.length), List.mem_append_right _ (List.mem_singleton_self _),
      Nat.lt_of_lt_of_le hnext hle, ?_⟩
    cases x with
    | value e' =>
      obtain ⟨he', rfl⟩ := channel.inOrder hrecv
      have hi : i = r.next := by
        change i < r.next + 1 at hnext
        omega
      rw [hi, he'] at he
      exact .inl (congrArg Received.value (Option.some.inj he))
    | lagged missed => exact .inr ⟨missed, rfl⟩

/-- A receiver that waits has got, or missed, every value since its subscription. -/
theorem Accounted.waiting (h : r.Accounted sent) (hwaits : channel.recv sent r.next = none) {i : ℕ}
    {e : E} (hstart : r.start ≤ i) (he : sent[i]? = some e) : ∃ x ∈ r.log, Accounts x i e :=
  h.all i e hstart
    (Nat.lt_of_lt_of_le (List.getElem?_eq_some_iff.1 he).1 (channel.waits hwaits)) he

end Receiver

end Broadcast
