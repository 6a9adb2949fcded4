/-
  `RxSessionManager` (`rx_session.rs`): a session for a connection, whose ring
  is reserved from the shared budget.

  A session is made where one is missing, if its ring fits into the budget; it
  is taken out of the map first and gives its bytes back when its pump has
  ended.
-/
import SerialMcp.Budget
import SerialMcp.Manager

namespace SerialMcp.Server

open Budget
open Registry.ConnectionRegistry (kerase_perm)

/-- `map_budget_err` -/
def mapBudgetErr (field : String) : BufferBudgetError → String
  | .overToolLimit requested toolLimit =>
    field ++ "=" ++ toString requested ++ " exceeds per-tool limit " ++ toString toolLimit
  | .zeroRequest => field ++ " must be > 0"
  | .insufficientProgramBudget requested available =>
    "insufficient program buffer budget: requested " ++ toString requested ++ ", available " ++
      toString available

/-- The default limits: 1 GiB for all, 1 MiB for each. -/
def defaultLimits : Budget.Limits :=
  ⟨2 ^ 30, 2 ^ 20, by decide, by decide, by decide, by decide⟩

/-- `RxSessionManager` with its budget. -/
structure RxSessionManager where
  /-- the sessions, by their connections, with the capacities of their rings -/
  sessions : AList fun _ : String => ℕ
  budget : AtomicBudget

namespace RxSessionManager

def new (limits : Limits) : RxSessionManager := ⟨∅, .new limits⟩

/-- `get_or_create` -/
def getOrCreate (m : RxSessionManager) (id : String) (ringCapacity : ℕ) :
    Except String RxSessionManager :=
  if id ∈ m.sessions then .ok m
  else if ringCapacity = 0 then
    .error ("open.rx_buffer_size: ring_capacity must be > 0, got " ++ toString ringCapacity)
  else match m.budget.tryReserve ringCapacity with
    | .error e => .error (mapBudgetErr "open.rx_buffer_size" e)
    | .ok budget => .ok ⟨m.sessions.insert id ringCapacity, budget⟩

/-- The bytes of all rings in the map. -/
def reserved (m : RxSessionManager) : ℕ := (m.sessions.entries.map Sigma.snd).sum

section
variable {m m' : RxSessionManager} {id : String} {ringCapacity : ℕ}

/-- **What `get_or_create` does**: it finds a session, or makes one with a ring
    out of the budget. -/
theorem getOrCreate_eq_ok (h : m.getOrCreate id ringCapacity = .ok m') :
    (id ∈ m.sessions ∧ m' = m) ∨
    (id ∉ m.sessions ∧ m.budget.tryReserve ringCapacity = .ok m'.budget ∧
      m'.sessions = m.sessions.insert id ringCapacity) := by
  unfold getOrCreate at h
  split_ifs at h with hmem hzero
  · cases h
    exact .inl ⟨hmem, rfl⟩
  · split at h
    · cases h
    · next budget hreserve =>
      cases h
      exact .inr ⟨hmem, hreserve, rfl⟩

/-- **When there is no session**: exactly if there was none, and a ring that is not
    empty is too large for a tool or for what is left of the budget. -/
theorem getOrCreate_eq_error (hpos : 0 < ringCapacity) :
    (∃ e, m.getOrCreate id ringCapacity = .error e) ↔
      id ∉ m.sessions ∧
        (m.budget.limits.toolLimit < ringCapacity ∨ m.budget.available < ringCapacity) := by
  have hne : ringCapacity ≠ 0 := by omega
  rw [← AtomicBudget.tryReserve_eq_error hpos]
  by_cases hmem : id ∈ m.sessions
  · simp [getOrCreate, hmem]
  · rcases hreserve : m.budget.tryReserve ringCapacity with e | budget
    · simp [getOrCreate, hmem, hne, hreserve]
    · simp [getOrCreate, hmem, hne, hreserve]

theorem sum_insert {sessions : AList fun _ : String => ℕ} (h : id ∉ sessions) :
    ((sessions.insert id ringCapacity).entries.map Sigma.snd).sum =
      ringCapacity + (sessions.entries.map Sigma.snd).sum := by
  rw [AList.entries_insert_of_notMem h, List.map_cons, List.sum_cons]

/-- A session that is taken out takes its ring with it. -/
theorem sum_erase {sessions : AList fun _ : String => ℕ}
    (h : sessions.lookup id = some ringCapacity) :
    ((sessions.erase id).entries.map Sigma.snd).sum + ringCapacity =
      (sessions.entries.map Sigma.snd).sum := by
  rw [((kerase_perm h).map Sigma.snd).sum_eq, List.map_cons, List.sum_cons, Nat.add_comm]
  rfl

end

end RxSessionManager

end SerialMcp.Server
