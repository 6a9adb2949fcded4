/-
  The preview of a bare open that `list_ports` gives (`tools/port_ops.rs`).

  * `computeProfileMatches`: for each live port the profile that a bare open of it
    would select, or why it would select none;
  * `rankCandidates_cases`: no candidate, one that was used later than all others, or
    two that were used last;
  * `computeProfileMatches_predicts`: the preview of a port and the plan of its bare
    open agree.
-/
import SerialMcp.Profile.Session

namespace SerialMcp

/-! ## Previews -/

/-- `ProfileMatchOutcome` -/
inductive ProfileMatchOutcome where
  | selected
  | ambiguous
  | ineligible
  | duplicate
  | none
  deriving DecidableEq, Repr

/-- `ProfileMatchCandidate` -/
structure ProfileMatchCandidate where
  profileName : String
  generated : Bool
  revision : ℕ
  lastUsedAtMs : Option ℕ
  deriving DecidableEq, Repr

/-- `PortProfileMatch` -/
structure PortProfileMatch where
  port : String
  confidence : IdentityConfidence
  outcome : ProfileMatchOutcome
  selectedProfile : Option String
  candidates : List ProfileMatchCandidate
  deriving DecidableEq, Repr

/-- `candidate_of` -/
def candidateOf (p : Profile) : ProfileMatchCandidate where
  profileName := p.name
  generated := p.metadata.generated
  revision := p.metadata.revision
  lastUsedAtMs := p.metadata.lastUsedAtMs

/-- `ProfileSelector::is_empty` -/
def ProfileSelector.isEmpty (s : ProfileSelector) : Bool :=
  s.vid.isNone && s.pid.isNone && s.serialNumber.isNone && s.manufacturer.isNone &&
    s.product.isNone && s.interface.isNone && s.portPattern.isNone &&
    s.descriptionPattern.isNone && s.transport.isNone && s.hardwareId.isNone

/-- `high_counts`: how many of the ports have an identity. -/
def highCounts (ports : List PortInfo) : HighIdentity → ℕ :=
  ports.foldl
    (fun counts port => match highIdentity port with
      | some identity => Function.update counts identity (counts identity + 1)
      | none => counts)
    fun _ => 0

section
variable (glob : String → String → Bool)

/-- `weak_identity_profile_match` -/
def weakIdentityProfileMatch (port : PortInfo) (confidence : IdentityConfidence)
    (profiles : List Profile) : PortProfileMatch :=
  let candidates :=
    ((profiles.filter fun p => !p.selector.isEmpty && p.matchesPort glob port).map
      candidateOf).mergeSort fun a b => a.profileName ≤ b.profileName
  { port := port.name
    confidence
    outcome := if candidates.isEmpty then .none else .ineligible
    selectedProfile := none
    candidates }

/-- `ranked_profile_match` -/
def rankedProfileMatch (port : PortInfo) (confidence : IdentityConfidence)
    (eligible : List Profile) : PortProfileMatch :=
  let ranked := rankCandidates eligible
  let sorted := ranked.mergeSort fun a b =>
    b.rank < a.rank ∨ a.rank = b.rank ∧ a.name ≤ b.name
  let (selected, outcome) := match ranked with
    | [] => (none, .none) -- not called so
    | [only] => (some only.name, .selected)
    | top :: next :: _ =>
      if top.rank ≠ next.rank then (some top.name, .selected) else (none, .ambiguous)
  { port := port.name
    confidence
    outcome
    selectedProfile := selected
    candidates := sorted.map candidateOf }

/-- The profiles that can be selected for a port with an identity. -/
def eligible (profiles : List Profile) (port : PortInfo) (identity : HighIdentity) :
    List Profile :=
  profiles.filter fun p =>
    p.matchesPort glob port && selectorMatchesHighIdentity p.selector identity

/-- `compute_profile_matches` for one of the ports -/
def profileMatch (ports : List PortInfo) (profiles : List Profile) (port : PortInfo) :
    PortProfileMatch :=
  let confidence := identityConfidence port
  match highIdentity port with
  | none => weakIdentityProfileMatch glob port confidence profiles
  | some identity =>
    if 1 < highCounts ports identity then
      { port := port.name, confidence, outcome := .duplicate, selectedProfile := none
        candidates := [] }
    else if (eligible glob profiles port identity).isEmpty then
      { port := port.name, confidence, outcome := .none, selectedProfile := none
        candidates := [] }
    else rankedProfileMatch port confidence (eligible glob profiles port identity)

/-- `compute_profile_matches` -/
def computeProfileMatches (ports : List PortInfo) (profiles : List Profile) :
    List PortProfileMatch :=
  ports.map (profileMatch glob ports profiles)

end

/-! ## Ranks -/

/-- A candidate that was used later than all the others. -/
def Latest (candidates : List Profile) (p : Profile) : Prop :=
  ∃ rest, candidates.Perm (p :: rest) ∧ ∀ q ∈ rest, q.rank < p.rank

section
variable {candidates rest : List Profile} {p q : Profile}

theorem rankCandidates_perm (candidates : List Profile) : (rankCandidates candidates).Perm candidates :=
  List.mergeSort_perm _ _

/-- If two candidates were used last, none was used later than all the others. -/
theorem not_latest_of_tie (h : rankCandidates candidates = p :: q :: rest)
    (htie : p.rank = q.rank) (r : Profile) : ¬ Latest candidates r := by
  rintro ⟨others, hperm, hlt⟩
  have hsorted := rankCandidates_sorted candidates
  rw [h, List.pairwise_cons] at hsorted
  have hranked : (p :: q :: rest).Perm (r :: others) := h ▸ (rankCandidates_perm candidates).trans hperm
  have hr : r.rank ≤ p.rank := by
    rcases List.mem_cons.1 (hranked.mem_iff.2 List.mem_cons_self) with rfl | hr
    · exact le_rfl
    · exact hsorted.1 r hr
  -- count the profiles that are not older than `r`
  have hcount := hranked.countP_eq fun x => decide (r.rank ≤ x.rank)
  have hothers : others.countP (fun x => decide (r.rank ≤ x.rank)) = 0 := by
    rw [List.countP_eq_zero]
    intro x hx
    have hx := hlt x hx
    simpa using hx
  have hq : r.rank ≤ q.rank := htie ▸ hr
  simp only [List.countP_cons, hr, hq, hothers, decide_true, le_refl, if_true] at hcount
  omega

/-- **Candidates by rank**: there are none, one was used later than all others, or two
    were used last. -/
theorem rankCandidates_cases (candidates : List Profile) :
    (candidates = [] ∧ rankCandidates candidates = []) ∨
    (∃ p, Latest candidates p ∧ (rankCandidates candidates = [p] ∨
      ∃ q rest, rankCandidates candidates = p :: q :: rest ∧ p.rank ≠ q.rank)) ∨
    ∃ p q rest, rankCandidates candidates = p :: q :: rest ∧ p.rank = q.rank ∧
      ∀ r, ¬ Latest candidates r := by
  have hperm : (rankCandidates candidates).Perm candidates :=
    rankCandidates_perm candidates
  have hsorted := rankCandidates_sorted candidates
  rcases h : rankCandidates candidates with _ | ⟨p, _ | ⟨q, rest⟩⟩
  · exact .inl ⟨(h ▸ hperm).nil_eq.symm, rfl⟩
  · refine .inr (.inl ⟨p, ⟨[], (h ▸ hperm).symm, ?_⟩, .inl rfl⟩)
    intro q hq
    cases hq
  · rw [h, List.pairwise_cons, List.pairwise_cons] at hsorted
    obtain ⟨hp, hq, -⟩ := hsorted
    by_cases htie : p.rank = q.rank
    · exact .inr (.inr ⟨p, q, rest, rfl, htie, not_latest_of_tie h htie⟩)
    · refine .inr (.inl ⟨p, ⟨q :: rest, (h ▸ hperm).symm, ?_⟩, .inr ⟨q, rest, rfl, htie⟩⟩)
      have hlt : q.rank < p.rank := lt_of_le_of_ne (hp q List.mem_cons_self) (Ne.symm htie)
      intro r hr
      rcases List.mem_cons.1 hr with rfl | hr
      · exact hlt
      · exact (hq r hr).trans_lt hlt

end

/-! ## Ports -/

section
variable {ports : List PortInfo} {port : PortInfo} {identity : HighIdentity}

theorem highCounts_eq (ports : List PortInfo) (identity : HighIdentity) :
    highCounts ports identity = ports.countP (highIdentity · = some identity) := by
  suffices h : ∀ counts : HighIdentity → ℕ,
      ports.foldl (fun counts port => match highIdentity port with
        | some identity => Function.update counts identity (counts identity + 1)
        | none => counts) counts identity =
      counts identity + ports.countP (highIdentity · = some identity) by
    rw [highCounts, h, Nat.zero_add]
  induction ports with
  | nil => exact fun counts => rfl
  | cons port ports ih =>
    intro counts
    rw [List.foldl_cons, ih, List.countP_cons]
    rcases hid : highIdentity port with _ | other
    · simp
    · by_cases heq : other = identity
      · subst heq
        simp only [Function.update_self, decide_true, if_true]
        omega
      · simp [Function.update_of_ne (Ne.symm heq), heq]

theorem find?_name (hports : (ports.map PortInfo.name).Nodup) (hport : port ∈ ports) :
    ports.find? (·.name = port.name) = some port := by
  induction ports with
  | nil => cases hport
  | cons other ports ih =>
    rw [List.map_cons, List.nodup_cons] at hports
    rcases List.mem_cons.1 hport with rfl | hport
    · rw [List.find?_cons_of_pos (by simp)]
    · have hne : other.name ≠ port.name := by
        intro heq
        exact hports.1 (heq ▸ List.mem_map_of_mem hport)
      rw [List.find?_cons_of_neg (by simpa using hne)]
      exact ih hports.2 hport

/-- No other port has the identity of a port exactly if it is counted once. -/
theorem countP_identity_le_one (hports : (ports.map PortInfo.name).Nodup) (hport : port ∈ ports)
    (hid : highIdentity port = some identity) :
    ports.countP (highIdentity · = some identity) ≤ 1 ↔
      ∀ other ∈ ports, highIdentity other = some identity → other = port := by
  have hnodup : ports.Nodup := hports.of_map
  have hperm := List.perm_cons_erase hport
  have hcount := hperm.countP_eq fun p => decide (highIdentity p = some identity)
  rw [List.countP_cons, hid] at hcount
  simp only [decide_true, if_true] at hcount
  rw [hcount, Nat.succ_le_succ_iff, Nat.le_zero, List.countP_eq_zero]
  simp only [decide_eq_true_eq]
  constructor
  · intro h other hother hothers
    by_contra hne
    exact h other ((List.mem_erase_of_ne hne).2 hother) hothers
  · intro h other hother hothers
    have hother := (hnodup.mem_erase_iff).1 hother
    exact hother.1 (h other hother.2 hothers)

end

/-! ## The preview predicts the open -/

/-- The preview of a port, and the plan of an open of it. -/
structure Predicts (port : PortInfo) (m : PortProfileMatch) (plan : SessionPlan) : Prop where
  selected : ∀ n, m.outcome = .selected ∧ m.selectedProfile = some n ↔
    ∃ p, plan = .selected p ∧ p.name = n
  named : m.outcome = .selected ↔ m.selectedProfile.isSome
  ambiguous : m.outcome = .ambiguous ↔
    ∃ confidence candidates, plan = .transient confidence candidates ∧ 2 ≤ candidates.length
  refused : m.outcome = .duplicate ∨ m.outcome = .ineligible →
    ∃ confidence candidates, plan = .transient confidence candidates
  generated : m.outcome = .none → (highIdentity port).isSome → plan = .generate
  unknown : m.outcome = .none → highIdentity port = none →
    ∃ confidence candidates, plan = .transient confidence candidates

section
variable {glob : String → String → Bool} {ports : List PortInfo} {profiles : List Profile}
  {port : PortInfo} {identity : HighIdentity} {mode : Option ProfileMode}

theorem Predicts.of_refused {m : PortProfileMatch} (confidence : IdentityConfidence)
    (h : m.outcome = .duplicate ∨ m.outcome = .ineligible) (hsel : m.selectedProfile = none) :
    Predicts port m (.transient confidence []) := by
  constructor
  all_goals rcases h with h | h <;> simp [h, hsel]

theorem weak_predicts (hid : highIdentity port = none) (confidence : IdentityConfidence) :
    Predicts port (weakIdentityProfileMatch glob port confidence profiles)
      (.transient confidence []) := by
  unfold weakIdentityProfileMatch
  dsimp only
  split
  · constructor <;> simp [hid]
  · exact .of_refused confidence (.inr rfl) rfl

variable (glob profiles) in
/-- **What the store resolves and what the preview ranks**, by the same three cases. -/
theorem resolveAutomatic_cases (hid : highIdentity port = some identity)
    (confidence : IdentityConfidence) :
    (eligible glob profiles port identity = [] ∧ resolveAutomatic glob profiles port = .ok {}) ∨
    (∃ p, Latest (eligible glob profiles port identity) p ∧
      resolveAutomatic glob profiles port =
        .ok { selected := some p
              candidates := (eligible glob profiles port identity).map Profile.name } ∧
      (rankedProfileMatch port confidence (eligible glob profiles port identity)).outcome =
        .selected ∧
      (rankedProfileMatch port confidence (eligible glob profiles port identity)).selectedProfile =
        some p.name) ∨
    ((∀ p, ¬ Latest (eligible glob profiles port identity) p) ∧
      2 ≤ (eligible glob profiles port identity).length ∧
      resolveAutomatic glob profiles port =
        .ok { ambiguous := true
              candidates := (eligible glob profiles port identity).map Profile.name } ∧
      (rankedProfileMatch port confidence (eligible glob profiles port identity)).outcome =
        .ambiguous ∧
      (rankedProfileMatch port confidence (eligible glob profiles port identity)).selectedProfile =
        none) := by
  have hperm := (rankCandidates_perm (eligible glob profiles port identity)).length_eq
  simp only [resolveAutomatic, hid, rankedProfileMatch]
  rw [← eligible]
  rcases rankCandidates_cases (eligible glob profiles port identity) with
    ⟨hnil, h⟩ | ⟨p, hp, h | ⟨q, rest, h, hne⟩⟩ | ⟨p, q, rest, h, htie, hnone⟩
  · exact .inl ⟨hnil, by rw [h]⟩
  · exact .inr (.inl ⟨p, hp, by rw [h], by rw [h], by rw [h]⟩)
  · exact .inr (.inl ⟨p, hp, by simp [h, hne], by simp [h, hne], by simp [h, hne]⟩)
  · rw [h] at hperm
    refine .inr (.inr ⟨hnone, ?_, by simp [h, htie], by simp [h, htie], by simp [h, htie]⟩)
    rw [← hperm]
    simp

theorem find?_computeProfileMatches (hports : (ports.map PortInfo.name).Nodup)
    (hport : port ∈ ports) :
    (computeProfileMatches glob ports profiles).find? (·.port = port.name) =
      some (profileMatch glob ports profiles port) := by
  have hname : ∀ p, (profileMatch glob ports profiles p).port = p.name := by
    intro p
    unfold profileMatch
    dsimp only
    split
    · rfl
    · split_ifs <;> rfl
  rw [computeProfileMatches, List.find?_map]
  simp only [Function.comp_def, hname, find?_name hports hport, Option.map_some]

theorem not_latest_nil (p : Profile) : ¬ Latest [] p := by
  rintro ⟨rest, hperm, -⟩
  cases hperm.nil_eq

theorem planSession_of_unique {resolution : AutomaticResolution} (hmode : mode ≠ some .none)
    (hid : highIdentity port = some identity)
    (hone : ports.countP (highIdentity · = some identity) ≤ 1)
    (hres : resolveAutomatic glob profiles port = .ok resolution) :
    planSession glob (.ok profiles) mode (some port) ports =
      .ok (match resolution.selected with
        | some profile => .selected profile
        | none =>
          if resolution.ambiguous then .transient .high resolution.candidates
          else .generate) := by
  have hbind : (Except.ok profiles : Except String (List Profile)).bind
      (resolveAutomatic glob · port) = .ok resolution := hres
  simp only [planSession, hmode, hid, if_neg (not_lt.2 hone), hbind, if_false]
  rcases resolution.selected with _ | p
  · dsimp only
    split <;> rfl
  · rfl

variable (glob profiles) in
/-- One port, at its identity: counted, or resolved by rank. -/
theorem profileMatch_predicts (hports : (ports.map PortInfo.name).Nodup) (hport : port ∈ ports)
    (hmode : mode ≠ some .none) :
    ∃ plan, planSession glob (.ok profiles) mode (some port) ports = .ok plan ∧
      Predicts port (profileMatch glob ports profiles port) plan ∧
      ((profileMatch glob ports profiles port).outcome = .selected ↔
        ∃ identity, highIdentity port = some identity ∧
          (∀ other ∈ ports, highIdentity other = some identity → other = port) ∧
          ∃ p, Latest (eligible glob profiles port identity) p) := by
  rcases hid : highIdentity port with _ | identity
  · refine ⟨.transient (identityConfidence port) [], by simp [planSession, hmode, hid], ?_⟩
    simp only [profileMatch, hid]
    refine ⟨weak_predicts hid _, ?_⟩
    dsimp only [weakIdentityProfileMatch]
    split <;> simp
  · have hunique := countP_identity_le_one hports hport hid
    simp only [profileMatch, hid, highCounts_eq, Option.some.injEq, exists_eq_left', ← hunique]
    by_cases hone : ports.countP (highIdentity · = some identity) ≤ 1
    · rw [if_neg (not_lt.2 hone)]
      simp only [hone, true_and]
      rcases resolveAutomatic_cases glob profiles hid (identityConfidence port) with
        ⟨hnil, hres⟩ | ⟨p, hp, hres, hout, hsel⟩ | ⟨hnone, hlen, hres, hout, hsel⟩
      · refine ⟨_, planSession_of_unique hmode hid hone hres, ?_⟩
        rw [hnil]
        refine ⟨by constructor <;> simp [hid], ?_⟩
        simp [not_latest_nil]
      · have hne : (eligible glob profiles port identity).isEmpty = false := by
          obtain ⟨rest, hperm, -⟩ := hp
          rw [List.isEmpty_eq_false_iff]
          intro hnil
          rw [hnil] at hperm
          cases hperm.nil_eq
        refine ⟨_, planSession_of_unique hmode hid hone hres, ?_⟩
        rw [hne]
        exact ⟨by constructor <;> simp [hout, hsel], by simpa [hout] using ⟨p, hp⟩⟩
      · have hne : (eligible glob profiles port identity).isEmpty = false := by
          rw [List.isEmpty_eq_false_iff, ← List.length_pos_iff]
          omega
        refine ⟨_, planSession_of_unique hmode hid hone hres, ?_⟩
        rw [hne]
        exact ⟨by constructor <;> simp [hout, hsel, hlen], by simp [hout, hnone]⟩
    · refine ⟨.transient .high [], ?_, ?_⟩
      · simp [planSession, hmode, hid, hone]
      · rw [if_pos (not_le.1 hone)]
        exact ⟨.of_refused _ (.inl rfl) rfl, by simp [hone]⟩

/-- **The preview of a port predicts its bare open**, and a profile is selected exactly if
    no other live port has the port's identity and it was used later than all other
    profiles of that identity. -/
theorem computeProfileMatches_predicts (hports : (ports.map PortInfo.name).Nodup)
    (hport : port ∈ ports) (hmode : mode ≠ some .none) :
    ∃ m plan, (computeProfileMatches glob ports profiles).find? (·.port = port.name) = some m ∧
      planSession glob (.ok profiles) mode (ports.find? (·.name = port.name)) ports = .ok plan ∧
      Predicts port m plan ∧
      (m.outcome = .selected ↔ ∃ identity, highIdentity port = some identity ∧
        (∀ other ∈ ports, highIdentity other = some identity → other = port) ∧
        ∃ p, Latest (eligible glob profiles port identity) p) := by
  rw [find?_name hports hport, find?_computeProfileMatches hports hport]
  obtain ⟨plan, hplan, hpredicts, hselected⟩ :=
    profileMatch_predicts glob profiles hports hport hmode
  exact ⟨_, plan, rfl, hplan, hpredicts, hselected⟩

end

/-- A device at its port. -/
def sensor : PortInfo :=
  ⟨"/dev/ttyUSB0", "ttyUSB0", "", none, .usb, some 1, some 2, some "s", none, none, none⟩

/-- Its port, and another one without an identity. -/
def sensorPorts : List PortInfo :=
  [sensor, ⟨"/dev/ttyS0", "ttyS0", "", none, .unknown, none, none, none, none, none, none⟩]

/-- Two profiles of the device, one of them used. -/
def sensorProfiles : List Profile :=
  let selector : ProfileSelector :=
    { vid := some 1, pid := some 2, serialNumber := some "s", transport := some "usb" }
  [{ name := "old", selector, defaults := {}, metadata := ⟨false, 1, none, none, none, 0⟩
     revisions := [] },
   { name := "new", selector, defaults := {}, metadata := ⟨false, 3, none, none, some 9, 2⟩
     revisions := [] }]

theorem computeProfileMatches_predicts_sensor : ∃ m plan,
    (computeProfileMatches (· == ·) sensorPorts sensorProfiles).find? (·.port = sensor.name) =
      some m ∧
    planSession (· == ·) (.ok sensorProfiles) (some .auto)
      (sensorPorts.find? (·.name = sensor.name)) sensorPorts = .ok plan ∧
    Predicts sensor m plan := by
  have hmode : some ProfileMode.auto ≠ some .none := by decide
  obtain ⟨m, plan, hm, hplan, hpredicts, -⟩ := computeProfileMatches_predicts
    (by decide : (sensorPorts.map PortInfo.name).Nodup)
    (List.mem_cons_self : sensor ∈ sensorPorts) hmode
  exact ⟨m, plan, hm, hplan, hpredicts⟩

end SerialMcp
