/-
  The port watcher (`resource_events.rs`): `port_watcher_loop` on any sequence of
  enumerations, each of them the ports or a failure.

  * `portInfoCmp` compares all the fields of two ports, and so is equal on equal ports
    only;
  * `canonicalize_eq_iff`: ports are canonicalized to the same list exactly if they are
    the same ports in some order;
  * `publishes_iff`: an update is published exactly where the ports are not those of the
    latest successful enumeration before.
-/
import SerialMcp.Lib.Snapshots
import SerialMcp.Profile.Identity
import SerialMcp.Server.Listen

namespace SerialMcp

open Std Snapshots Listen

/-! ## Canonical snapshots -/

/-- `transport_rank` -/
def transportRank : PortTransport → ℕ
  | .usb => 0
  | .pci => 1
  | .bluetooth => 2
  | .unknown => 3

/-- `port_info_cmp`; texts compare by their characters, as their UTF-8 bytes do, and a
    field that is missing comes first. -/
def portInfoCmp (a b : PortInfo) : Ordering :=
  compare a.name b.name
    |>.then (compare a.displayName b.displayName)
    |>.then (compare a.description b.description)
    |>.then (compare a.hardwareId b.hardwareId)
    |>.then (compare (transportRank a.transport) (transportRank b.transport))
    |>.then (compare a.vid b.vid)
    |>.then (compare a.pid b.pid)
    |>.then (compare a.serialNumber b.serialNumber)
    |>.then (compare a.manufacturer b.manufacturer)
    |>.then (compare a.product b.product)
    |>.then (compare a.interface b.interface)

/-- `canonicalize` -/
def canonicalize (ports : List PortInfo) : List PortInfo := sorted portInfoCmp ports

theorem transportRank_injective : Function.Injective transportRank := by
  intro t t' h
  cases t <;> cases t' <;> first | rfl | cases h

/-- The comparison of fields one after another is a comparison of the ports. -/
instance : TransCmp portInfoCmp :=
  inferInstanceAs (TransCmp (compareLex (compareLex (compareLex (compareLex (compareLex
    (compareLex (compareLex (compareLex (compareLex (compareLex
      (compareOn PortInfo.name)
      (compareOn PortInfo.displayName))
      (compareOn PortInfo.description))
      (compareOn PortInfo.hardwareId))
      (compareOn fun p => transportRank p.transport))
      (compareOn PortInfo.vid))
      (compareOn PortInfo.pid))
      (compareOn PortInfo.serialNumber))
      (compareOn PortInfo.manufacturer))
      (compareOn PortInfo.product))
      (compareOn PortInfo.interface)))

instance : LawfulEqCmp portInfoCmp where
  eq_of_compare {a b} h := by
    simp only [portInfoCmp, Ordering.then_eq_eq, LawfulEqOrd.compare_eq_iff_eq] at h
    obtain ⟨⟨⟨⟨⟨⟨⟨⟨⟨⟨hname, hdisplay⟩, hdescription⟩, hhardware⟩, htransport⟩, hvid⟩, hpid⟩,
      hserial⟩, hmanufacturer⟩, hproduct⟩, hinterface⟩ := h
    have htransport := transportRank_injective htransport
    cases a
    cases b
    simp_all

/-- Ports in another order have the same canonical snapshot, and no other ports have it. -/
theorem canonicalize_eq_iff {ports ports' : List PortInfo} :
    canonicalize ports = canonicalize ports' ↔ ports.Perm ports' := sorted_eq_iff portInfoCmp

/-! ## The loop -/

def uriPorts : Uri := "serial://ports"

/-- The baseline of the loop, and what it has published. -/
structure PortWatcher where
  baseline : Option (List PortInfo)
  sent : List ResourceEvent

namespace PortWatcher

/-- `publish_ports_changed` -/
def publishPortsChanged (w : PortWatcher) : PortWatcher :=
  { w with sent := w.sent ++ [.updated uriPorts] }

/-- `apply_snapshot` -/
def applySnapshot (w : PortWatcher) (ports : List PortInfo) : PortWatcher :=
  let ports := canonicalize ports
  match w.baseline with
  | none => { w with baseline := some ports }
  | some prev =>
    if prev ≠ ports then { w.publishPortsChanged with baseline := some ports }
    else w

/-- One poll; a failure is logged, and the baseline is kept. -/
def poll (w : PortWatcher) : Except String (List PortInfo) → PortWatcher
  | .ok ports => w.applySnapshot ports
  | .error _ => w

/-- `port_watcher_loop` up to its `n`th wait, where it may be cancelled. -/
def loop (listAvailable : ℕ → Except String (List PortInfo)) : ℕ → PortWatcher
  | 0 => ⟨none, []⟩
  | n + 1 => (loop listAvailable n).poll (listAvailable n)

section
variable {listAvailable : ℕ → Except String (List PortInfo)} {n : ℕ} {ports : List PortInfo}

/-- The enumerations that succeed. -/
def snapshots (listAvailable : ℕ → Except String (List PortInfo)) (n : ℕ) :
    Option (List PortInfo) := (listAvailable n).toOption

theorem applySnapshot_baseline (w : PortWatcher) (ports : List PortInfo) :
    (w.applySnapshot ports).baseline = some (canonicalize ports) := by
  unfold applySnapshot
  rcases hbase : w.baseline with _ | prev
  · rfl
  · by_cases hprev : prev = canonicalize ports
    · simp [hprev, hbase]
    · simp [hprev]

theorem loop_baseline (listAvailable : ℕ → Except String (List PortInfo)) (n : ℕ) :
    (loop listAvailable n).baseline = remembered canonicalize (snapshots listAvailable) n := by
  induction n with
  | zero => rfl
  | succ n ih =>
    rw [loop, remembered, snapshots]
    rcases listAvailable n with e | ports
    · exact ih
    · exact applySnapshot_baseline _ ports

/-- An update is published where the baseline is another snapshot. -/
theorem applySnapshot_sent (w : PortWatcher) (ports : List PortInfo) :
    (w.applySnapshot ports).sent = w.sent ++
      if ∃ prev ∈ w.baseline, prev ≠ canonicalize ports then [.updated uriPorts] else [] := by
  unfold applySnapshot
  rcases hbase : w.baseline with _ | prev
  · simp
  · by_cases hprev : prev = canonicalize ports
    · simp [hprev]
    · simp [hprev, publishPortsChanged]

/-- The enumeration at `n` succeeds, one before it did, and its ports are not those of the
    latest that did, in some order. -/
def Changed (listAvailable : ℕ → Except String (List PortInfo)) (n : ℕ) : Prop :=
  ∃ ports, listAvailable n = .ok ports ∧
    ∃ m < n, ∃ prev, listAvailable m = .ok prev ∧
      (∀ k, m < k → k < n → ∃ e, listAvailable k = .error e) ∧ ¬ ports.Perm prev

theorem snapshots_eq_some : snapshots listAvailable n = some ports ↔ listAvailable n = .ok ports := by
  rw [snapshots]
  cases listAvailable n <;> simp [Except.toOption]

theorem snapshots_eq_none : snapshots listAvailable n = none ↔ ∃ e, listAvailable n = .error e := by
  rw [snapshots]
  cases listAvailable n <;> simp [Except.toOption]

/-- A change is a snapshot that differs from the one remembered. -/
theorem changed_iff : Changed listAvailable n ↔ ∃ ports, listAvailable n = .ok ports ∧
    ∃ prev ∈ (loop listAvailable n).baseline, prev ≠ canonicalize ports := by
  simp only [loop_baseline, Option.mem_def, remembered_eq_some]
  constructor
  · rintro ⟨ports, hports, m, hlt, prev, hprev, hfailed, hperm⟩
    have hlatest : Snapshots.Latest (snapshots listAvailable) n m prev :=
      ⟨hlt, snapshots_eq_some.2 hprev, fun k hk hkn => snapshots_eq_none.2 (hfailed k hk hkn)⟩
    refine ⟨ports, hports, _, ⟨m, prev, hlatest, rfl⟩, ?_⟩
    intro hsame
    exact hperm (canonicalize_eq_iff.1 hsame).symm
  · rintro ⟨ports, hports, _, ⟨m, prev, h, rfl⟩, hne⟩
    refine ⟨ports, hports, m, h.lt, prev, snapshots_eq_some.1 h.seen, ?_, ?_⟩
    · intro k hk hkn
      exact snapshots_eq_none.1 (h.failed k hk hkn)
    · intro hperm
      exact hne (canonicalize_eq_iff.2 hperm.symm)

/-- **Step**: what a poll publishes. -/
theorem loop_sent (listAvailable : ℕ → Except String (List PortInfo)) (n : ℕ) :
    Changed listAvailable n ∧
        (loop listAvailable (n + 1)).sent = (loop listAvailable n).sent ++ [.updated uriPorts] ∨
      ¬ Changed listAvailable n ∧ (loop listAvailable (n + 1)).sent = (loop listAvailable n).sent := by
  rw [changed_iff, loop]
  rcases listAvailable n with e | ports
  · refine .inr ⟨?_, rfl⟩
    rintro ⟨ports, hports, -⟩
    cases hports
  · rw [poll, applySnapshot_sent]
    by_cases h : ∃ prev ∈ (loop listAvailable n).baseline, prev ≠ canonicalize ports
    · rw [if_pos h]
      exact .inl ⟨⟨ports, rfl, h⟩, rfl⟩
    · rw [if_neg h, List.append_nil]
      refine .inr ⟨?_, rfl⟩
      rintro ⟨ports', hports, h'⟩
      cases hports
      exact h h'

/-- **The watcher notifies exactly on real changes**: the poll at `n` publishes one ports
    update if the ports have changed, and otherwise nothing. -/
theorem publishes_iff (listAvailable : ℕ → Except String (List PortInfo)) (n : ℕ) :
    ((loop listAvailable (n + 1)).sent = (loop listAvailable n).sent ++ [.updated uriPorts] ↔
        Changed listAvailable n) ∧
      ((loop listAvailable (n + 1)).sent = (loop listAvailable n).sent ↔
        ¬ Changed listAvailable n) := by
  rcases loop_sent listAvailable n with ⟨hchanged, hsent⟩ | ⟨hsame, hsent⟩
  · rw [hsent]
    simp [hchanged]
  · rw [hsent]
    simp [hsame]

end

end PortWatcher

end SerialMcp
