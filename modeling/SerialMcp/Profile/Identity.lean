/-
  Ports and the profiles that match them (`serial/port_info.rs`, `profiles.rs`,
  `ProfileStore::resolve_automatic`).

  * `highIdentity`: the identity of a port that can be told from all others;
  * `canonicalHighSelector_matches`: the selector that is generated for a port
    has the port's identity;
  * `resolveAutomatic_selected`: a profile that is selected for a port is a stored
    one that matches it, and no candidate was used later.

  Globs are given by a function: whether the first text is a pattern that matches
  the second.
-/
import SerialMcp.Profile.Data

namespace SerialMcp

/-! ## Ports -/

/-- `PortTransport` -/
inductive PortTransport where
  | usb
  | pci
  | bluetooth
  | unknown
  deriving DecidableEq, Repr

def PortTransport.toString : PortTransport → String
  | usb => "usb"
  | pci => "pci"
  | bluetooth => "bluetooth"
  | unknown => "unknown"

/-- `PortInfo` -/
structure PortInfo where
  name : String
  displayName : String
  description : String
  hardwareId : Option String
  transport : PortTransport
  vid : Option ℕ
  pid : Option ℕ
  serialNumber : Option String
  manufacturer : Option String
  product : Option String
  interface : Option ℕ
  deriving DecidableEq, Repr

/-- `IdentityConfidence` -/
inductive IdentityConfidence where
  | high
  | medium
  | low
  | none
  deriving DecidableEq, Repr

/-- `HighIdentity` -/
structure HighIdentity where
  transport : String
  vid : ℕ
  pid : ℕ
  serialNumber : String
  interface : Option ℕ
  deriving DecidableEq, Repr

/-- `.as_deref().is_some_and(|s| !s.is_empty())` -/
def hasText (s : Option String) : Bool := s.any (· ≠ "")

/-- `high_identity` -/
def highIdentity (port : PortInfo) : Option HighIdentity := do
  guard (port.transport = .usb)
  let vid ← port.vid
  let pid ← port.pid
  let serialNumber ← port.serialNumber.filter (· ≠ "")
  return { transport := port.transport.toString, vid, pid, serialNumber,
           interface := port.interface }

/-- `identity_confidence` -/
def identityConfidence (port : PortInfo) : IdentityConfidence :=
  if port.transport = .usb ∧ port.vid.isSome ∧ port.pid.isSome ∧ hasText port.serialNumber then
    .high
  else if port.transport = .usb ∧ port.vid.isSome ∧ port.pid.isSome then .medium
  else if port.vid.isSome ∨ port.pid.isSome ∨ hasText port.serialNumber ∨
      port.manufacturer.isSome ∨ port.product.isSome ∨ port.interface.isSome ∨
      port.hardwareId.isSome then .low
  else .none

/-- `canonical_high_selector` -/
def canonicalHighSelector (port : PortInfo) : Option ProfileSelector :=
  (highIdentity port).map fun id =>
    { vid := some id.vid
      pid := some id.pid
      serialNumber := some id.serialNumber
      interface := id.interface
      transport := some id.transport }

/-- `selector_matches_high_identity` -/
def selectorMatchesHighIdentity (selector : ProfileSelector) (id : HighIdentity) : Bool :=
  selector.transport = some id.transport ∧ selector.vid = some id.vid ∧
    selector.pid = some id.pid ∧ selector.serialNumber = some id.serialNumber ∧
    id.interface.all fun iface => selector.interface = some iface

/-- `{n:04x}` -/
def hex4 (n : ℕ) : String :=
  let digits := Nat.toDigits 16 n
  .ofList (List.replicate (4 - digits.length) '0' ++ digits)

/-- `generated_label` -/
def generatedLabel : Option PortInfo → String
  | some p =>
    match p.product.filter (· ≠ ""), p.manufacturer.filter (· ≠ ""), p.vid, p.pid with
    | some product, _, _, _ => product
    | none, some mfr, _, _ => mfr
    | none, none, some vid, some pid => "usb-" ++ hex4 vid ++ "-" ++ hex4 pid
    | none, none, _, _ => "serial-device"
  | none => "serial-device"

/-! ## Matching -/

section
variable (glob : String → String → Bool)

/-- A selector field that is not given, or agrees. -/
def agrees {β : Type} [DecidableEq β] (want value : Option β) : Bool :=
  want.isNone || want = value

/-- `Profile::matches` -/
def Profile.matchesPort (profile : Profile) (port : PortInfo) : Bool :=
  let s := profile.selector
  agrees s.vid port.vid && agrees s.pid port.pid && agrees s.serialNumber port.serialNumber &&
    agrees s.manufacturer port.manufacturer && agrees s.product port.product &&
    agrees s.interface port.interface && s.portPattern.all (glob · port.name) &&
    s.descriptionPattern.all (glob · port.description) &&
    agrees s.transport (some port.transport.toString) && agrees s.hardwareId port.hardwareId

/-- `last_used_at_ms.unwrap_or(0)` -/
def Profile.rank (p : Profile) : ℕ := p.metadata.lastUsedAtMs.getD 0

/-- `rank_candidates` -/
def rankCandidates (candidates : List Profile) : List Profile :=
  candidates.mergeSort fun a b => b.rank ≤ a.rank

/-- `AutomaticResolution` -/
structure AutomaticResolution where
  selected : Option Profile := none
  ambiguous : Bool := false
  candidates : List String := []
  deriving DecidableEq, Repr

/-- `resolve_automatic`, on the profiles it has read. -/
def resolveAutomatic (profiles : List Profile) (target : PortInfo) :
    Except String AutomaticResolution :=
  match highIdentity target with
  | none => .error "Automatic resolution requires a high-confidence USB identity"
  | some identity =>
    let candidates := profiles.filter fun p =>
      p.matchesPort glob target && selectorMatchesHighIdentity p.selector identity
    let names := candidates.map Profile.name
    match rankCandidates candidates with
    | [] => .ok {}
    | [only] => .ok { selected := some only, candidates := names }
    | top :: next :: _ =>
      if top.rank ≠ next.rank then .ok { selected := some top, candidates := names }
      else .ok { ambiguous := true, candidates := names }

end

/-! ## Identities and selections -/

section
variable {port : PortInfo} {id : HighIdentity} {glob : String → String → Bool}

theorem highIdentity_eq_some : highIdentity port = some id ↔
    port.transport = .usb ∧ port.vid = some id.vid ∧ port.pid = some id.pid ∧
      port.serialNumber = some id.serialNumber ∧ id.serialNumber ≠ "" ∧
      id.transport = "usb" ∧ id.interface = port.interface := by
  obtain ⟨transport, vid, pid, serial, interface⟩ := id
  simp only [highIdentity, Option.bind_eq_bind, Option.bind_eq_some_iff, guard,
    Option.filter_eq_some_iff, Option.pure_def, Option.some.injEq, HighIdentity.mk.injEq]
  constructor
  · rintro ⟨_, husb, v, hv, p, hp, s, ⟨hs, hne⟩, rfl, rfl, rfl, rfl, rfl⟩
    split_ifs at husb with h
    exact ⟨h, hv, hp, hs, by simpa using hne, by rw [h]; rfl, rfl⟩
  · rintro ⟨husb, hv, hp, hs, hne, rfl, rfl⟩
    exact ⟨(), if_pos husb, vid, hv, pid, hp, serial, ⟨hs, by simpa using hne⟩,
      by rw [husb]; rfl, rfl, rfl, rfl, rfl⟩

/-- The confidence is high exactly for a port with an identity. -/
theorem identityConfidence_eq_high : identityConfidence port = .high ↔
    (highIdentity port).isSome := by
  rw [Option.isSome_iff_exists]
  simp only [highIdentity_eq_some, identityConfidence]
  constructor
  · intro h
    split_ifs at h with hhigh
    obtain ⟨husb, hv, hp, hs⟩ := hhigh
    obtain ⟨v, hv⟩ := Option.isSome_iff_exists.1 hv
    obtain ⟨p, hp⟩ := Option.isSome_iff_exists.1 hp
    rw [hasText, Option.any_eq_true] at hs
    obtain ⟨s, hs, hne⟩ := hs
    exact ⟨⟨"usb", v, p, s, port.interface⟩, husb, hv, hp, hs, by simpa using hne, rfl, rfl⟩
  · rintro ⟨id, husb, hv, hp, hs, hne, -, -⟩
    rw [if_pos ⟨husb, by rw [hv]; rfl, by rw [hp]; rfl, by rw [hasText, hs]; simpa using hne⟩]

/-- **The selector that is generated for a port has its identity.** -/
theorem canonicalHighSelector_matches {selector : ProfileSelector}
    (h : canonicalHighSelector port = some selector) :
    ∃ id, highIdentity port = some id ∧ selectorMatchesHighIdentity selector id = true := by
  obtain ⟨id, hid, rfl⟩ := Option.map_eq_some_iff.1 h
  refine ⟨id, hid, ?_⟩
  rcases hi : id.interface <;> simp [selectorMatchesHighIdentity, hi]

theorem rankCandidates_sorted (candidates : List Profile) :
    (rankCandidates candidates).Pairwise fun a b => b.rank ≤ a.rank := by
  have h : (rankCandidates candidates).Pairwise fun a b => decide (b.rank ≤ a.rank) = true :=
    List.pairwise_mergeSort
      (fun a b c hab hbc => by
        simp only [decide_eq_true_eq] at hab hbc ⊢
        omega)
      (fun a b => by
        simp only [Bool.or_eq_true, decide_eq_true_eq]
        omega)
      candidates
  exact h.imp fun hab => by simpa using hab

theorem rankCandidates_head {candidates rest : List Profile} {p : Profile}
    (h : rankCandidates candidates = p :: rest) (hrest : ∀ q ∈ rest, q.rank < p.rank) :
    p ∈ candidates ∧ ∀ q ∈ candidates, q ≠ p → q.rank < p.rank := by
  have hperm : (rankCandidates candidates).Perm candidates := List.mergeSort_perm _ _
  have hmem : ∀ q, q ∈ candidates ↔ q = p ∨ q ∈ rest := by
    intro q
    rw [← hperm.mem_iff, h, List.mem_cons]
  refine ⟨(hmem p).2 (.inl rfl), fun q hq hne => ?_⟩
  exact hrest q (((hmem q).1 hq).resolve_left hne)

/-- **A profile that is selected** is a stored one that matches the port and its
    identity, and every other candidate was last used earlier. -/
theorem resolveAutomatic_selected {profiles : List Profile} {target : PortInfo}
    {resolution : AutomaticResolution} {p : Profile}
    (h : resolveAutomatic glob profiles target = .ok resolution)
    (hp : resolution.selected = some p) :
    ∃ id, highIdentity target = some id ∧
      p ∈ profiles.filter (fun q =>
        q.matchesPort glob target && selectorMatchesHighIdentity q.selector id) ∧
      ∀ q ∈ profiles.filter (fun q =>
        q.matchesPort glob target && selectorMatchesHighIdentity q.selector id),
        q ≠ p → q.rank < p.rank := by
  rw [resolveAutomatic] at h
  split at h
  · cases h
  · next id hid =>
    refine ⟨id, hid, ?_⟩
    dsimp only at h
    split at h
    · cases h
      cases hp
    · next only hrank =>
      cases h
      cases hp
      exact rankCandidates_head hrank fun q hq => by cases hq
    · next top next rest hrank =>
      have hsorted := rankCandidates_sorted (profiles.filter fun q =>
        q.matchesPort glob target && selectorMatchesHighIdentity q.selector id)
      rw [hrank, List.pairwise_cons, List.pairwise_cons] at hsorted
      obtain ⟨htop, hnext, -⟩ := hsorted
      have hle := htop next List.mem_cons_self
      split_ifs at h with hlt
      · cases h
        cases hp
        refine rankCandidates_head hrank fun q hq => ?_
        rcases List.mem_cons.1 hq with rfl | hq
        · omega
        · have hq := hnext q hq
          omega
      · cases h
        cases hp

end

end SerialMcp
