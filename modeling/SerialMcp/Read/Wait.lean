/-
  `RxRing::wait_for_data` (`rx_ring.rs`), by any number of reads, beside the appends and clears
  of the ring.

  An append gives the lock back before it notifies, and a wait looks at the ring between
  its ticket and its sleep, so each may come at any time in the other.

  * `waits`: the ring with its notifications;
  * `slice_ready`: what a wait returned for, the next slice has or counts as lost;
  * `wait_for_data_wakes`: no read sleeps on data.
-/
import SerialMcp.Lib.Notify
import SerialMcp.Read.World

namespace SerialMcp.RxRing

open Tasks
open Waiting (Monitor AnyMove Inv Returned returns_alone)

/-- `RxRing::append`: an empty chunk changes nothing, and none goes past `2 ^ 64` bytes. -/
def appendChunk (bytes : List UInt8) (f : Feed) : Option Feed :=
  if bytes ≠ [] ∧ f.stream.length + bytes.length < u64Size then some (f.push bytes) else none

/-- The ring; a wait is for data past an offset, and a clear notifies nobody. -/
def waits : Monitor Feed (List UInt8) Unit ℕ where
  write := appendChunk
  silent := fun () f => ⟨f.ring.clear, f.stream, clear_refines f.refines⟩
  cond after f := after < f.ring.endOffset

/-- The reads that wait on a ring, and what is done to it. -/
abbrev Waits := State (Waiting.World Feed ℕ) (Waiting.Task (List UInt8) Unit ℕ)

section
variable {f f' : Feed} {after max : ℕ}

theorem waits_cond : waits.cond after f = true ↔ after < f.ring.endOffset := decide_eq_true_iff

theorem appendChunk_grows {bytes : List UInt8} (h : appendChunk bytes f = some f') : f.Grows f' := by
  unfold appendChunk at h
  split_ifs at h
  cases h
  exact Feed.push_grows f bytes

/-- What is past an offset is in the next slice from there, or is counted as lost. -/
theorem slice_ready (h : after < f.ring.endOffset) (hmax : 0 < max) :
    (f.ring.readFrom after max).bytes ≠ [] ∨ 0 < (f.ring.readFrom after max).bytesLost := by
  rw [readFrom_eq f.refines]
  have hse := f.ring.start_le_end
  by_cases hlost : after < f.ring.startOffset
  · exact .inr (Nat.sub_pos_of_lt hlost)
  · have hclamp : f.ring.clampOffset after = after := by
      unfold clampOffset
      omega
    left
    rw [hclamp, ← List.length_pos_iff, List.length_take, List.length_drop, ← f.refines.stop]
    omega

end

/-- **No read sleeps on data.** In every run of waits, appends and clears: a wait returns only
    if there is data past its offset, which the next slice from there has or counts as lost.
    While no append is between its lock and its notification, every wait for data that is
    there returns on its own within three turns, though nothing more is ever appended. -/
theorem wait_for_data_wakes {feed : Feed} {s : Waits}
    (h : Runs (Waiting.Task.step waits) AnyMove (Waiting.init feed) s) :
    (∀ after ∈ s.world.returned, ∀ max, 0 < max →
      (s.world.state.ring.readFrom after max).bytes ≠ [] ∨
        0 < (s.world.state.ring.readFrom after max).bytesLost) ∧
    ∀ l t r after, s.tasks = l ++ t :: r → t.awaits = some after → .notifying ∉ s.tasks →
      after < s.world.state.ring.endOffset →
        ∃ n ≤ 3, s.play (Waiting.Task.step waits) (List.replicate n (.run l.length .turn)) =
          some ⟨{ s.world with returned := s.world.returned ++ [after] }, l ++ r⟩ := by
  have hinv : Inv waits s ∧ Returned waits s.world := by
    refine h.invariant (J := fun s => Inv waits s ∧ Returned waits s.world) ?_
      ⟨List.forall_mem_nil _, List.forall_mem_nil _⟩
    intro s s' m hs hm hmove
    refine ⟨hs.1.move hm (fun _ _ _ hcond => hcond) hmove, ?_⟩
    rcases move_cases hmove with ⟨t, rfl, rfl⟩ | ⟨l, t, r, i, w, new, rfl, htasks, hstep, rfl⟩
    · exact hs.2
    · refine hs.2.step (fun a k f f' hf hcond => ?_) (fun _ _ _ hcond => hcond) hstep
      rw [waits_cond] at hcond ⊢
      exact Nat.lt_of_lt_of_le hcond (appendChunk_grows hf).end_le
  refine ⟨fun after hafter max hmax => slice_ready (waits_cond.1 (hinv.2 after hafter)) hmax, ?_⟩
  intro l t r after htasks ht hnone hdata
  exact returns_alone hinv.1 htasks ht (waits_cond.2 hdata) hnone

/-- A wait looks at the ring before a chunk is appended, and sleeps when it is. -/
def sleepsFirst : List (Move (Waiting.Task (List UInt8) Unit ℕ) Waiting.Input) :=
  [.start (.waiting 0), .run 0 .turn, .run 0 .turn, .start (.writing [7]), .run 1 .turn,
    .run 1 .turn]

theorem wait_for_data_wakes_sleeping : ∃ s,
    (Waiting.init Feed.four).play (Waiting.Task.step waits) sleepsFirst = some s ∧
      s.tasks = [.sleeping 0 0] ∧ s.world.returned = [] ∧
      ∃ n ≤ 3, (s.play (Waiting.Task.step waits) (List.replicate n (.run 0 .turn))).map
        (fun s => s.world.returned) = some [0] := by
  have hrun : (Waiting.init Feed.four).play (Waiting.Task.step waits) sleepsFirst =
      some ⟨⟨Feed.four.push [7], 1, []⟩, [.sleeping 0 0]⟩ := rfl
  have hmoves : ∀ m ∈ sleepsFirst, AnyMove (Waiting.init Feed.four) m := by
    simp [sleepsFirst, AnyMove, Waiting.Task.Starts.waiting, Waiting.Task.Starts.writing]
  have hruns := (Runs.of_play hmoves hrun).mono fun hm => hm
  obtain ⟨-, hwakes⟩ := wait_for_data_wakes hruns
  obtain ⟨n, hn, hplay⟩ := hwakes [] _ [] 0 rfl rfl (by simp) (by decide)
  refine ⟨_, hrun, rfl, rfl, n, hn, ?_⟩
  exact congrArg (Option.map fun s : Waits => s.world.returned) hplay

end SerialMcp.RxRing
