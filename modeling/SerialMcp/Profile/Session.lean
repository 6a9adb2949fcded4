/-
  The profile session of a connection (`tools/port_ops.rs`, `learning.rs`): what
  an open plans, the binding it attaches, and the learning of settings.

  A transaction of the store is one atomic step on the stored profiles, which an
  I/O failure can prevent.

  * `planSession`, `attachSessionBinding`: before and after the hardware open;
  * `learnStart`, `learnStore`, `learnEnd`: `learn` before, in and after its
    transaction.
-/
import SerialMcp.Profile.Identity
import SerialMcp.Profile.Store
import SerialMcp.Util

namespace SerialMcp

open ProfileStore

/-! ## Transactions -/

namespace ProfileStore

variable {β : Type}

/-- `run_conditional_mutation`, as one step -/
def runConditionalMutation (profiles : List Profile) (io : Option String)
    (r : Except String (β × Option (List Profile))) : Except String β × List Profile :=
  match io, r with
  | some e, _ => (.error e, profiles)
  | none, .error e => (.error e, profiles)
  | none, .ok (value, next) => (.ok value, next.getD profiles)

/-- `run_mutation` -/
def runMutation (profiles : List Profile) (io : Option String)
    (r : Except String (β × List Profile)) : Except String β × List Profile :=
  runConditionalMutation profiles io (r.map fun (value, next) => (value, some next))

end ProfileStore

/-! ## Bindings -/

/-- `ProfileSelectionSource` -/
inductive ProfileSelectionSource where
  | automatic
  | explicit
  | generated
  | transient
  | disabled
  deriving DecidableEq, Repr

/-- `ActiveProfileBinding` -/
structure ActiveProfileBinding where
  profileName : String
  source : ProfileSelectionSource
  confidence : IdentityConfidence
  persistent : Bool
  generated : Bool
  revision : Option ℕ
  dirty : Bool
  stale : Bool
  candidates : List String
  lastPersistenceError : Option String
  deriving DecidableEq, Repr

/-- `disabled_binding` -/
def disabledBinding (confidence : IdentityConfidence) : ActiveProfileBinding where
  profileName := ""
  source := .disabled
  confidence
  persistent := false
  generated := false
  revision := none
  dirty := false
  stale := false
  candidates := []
  lastPersistenceError := none

/-- `transient_binding` -/
def transientBinding (confidence : IdentityConfidence) (candidates : List String)
    (persistenceError : Option String) : ActiveProfileBinding where
  profileName := ""
  source := .transient
  confidence
  persistent := false
  generated := false
  revision := none
  dirty := false
  stale := false
  candidates
  lastPersistenceError := persistenceError

/-- `persistent_binding` -/
def persistentBinding (profile : Profile) (source : ProfileSelectionSource)
    (confidence : IdentityConfidence) (dirty : Bool) (persistenceError : Option String) :
    ActiveProfileBinding where
  profileName := profile.name
  source
  confidence
  persistent := true
  generated := profile.metadata.generated
  revision := some profile.metadata.revision
  dirty
  stale := false
  candidates := []
  lastPersistenceError := persistenceError

/-- `mark_used_binding` -/
def markUsedBinding (profiles : List Profile) (now : ℕ) (io : Option String) (profile : Profile)
    (source : ProfileSelectionSource) (confidence : IdentityConfidence) (dirty : Bool) :
    ActiveProfileBinding × List Profile :=
  match runMutation profiles io (markUsed profiles profile.name now) with
  | (.ok used, next) => (persistentBinding used source confidence dirty none, next)
  | (.error e, next) => (persistentBinding profile source confidence dirty (some e), next)

/-! ## Sessions -/

/-- `ProfileMode` -/
inductive ProfileMode where
  | auto
  | none
  deriving DecidableEq, Repr

/-- `SessionPlan` -/
inductive SessionPlan where
  | disabled (confidence : IdentityConfidence)
  | transient (confidence : IdentityConfidence) (candidates : List String)
  | selected (profile : Profile)
  | explicit (profile : Profile)
  | generate
  deriving DecidableEq, Repr

/-- The profile of a plan that has one. -/
def SessionPlan.profile : SessionPlan → Option Profile
  | selected p | explicit p => some p
  | _ => none

/-- `plan_session`, with what a fresh read of the store returns. -/
def planSession (glob : String → String → Bool) (profiles : Except String (List Profile))
    (profileMode : Option ProfileMode) (portInfo : Option PortInfo) (livePorts : List PortInfo) :
    Except String SessionPlan :=
  let confidence := (portInfo.map identityConfidence).getD .none
  if profileMode = some .none then .ok (.disabled confidence)
  else match portInfo with
    | none => .ok (.transient confidence [])
    | some port => match highIdentity port with
      | none => .ok (.transient confidence [])
      | some identity =>
        if 1 < livePorts.countP (highIdentity · = some identity) then .ok (.transient .high [])
        else match profiles.bind (resolveAutomatic glob · port) with
          | .error e => .error ("Failed to resolve profiles - " ++ e)
          | .ok resolution => match resolution.selected with
            | some profile => .ok (.selected profile)
            | none =>
              if resolution.ambiguous then .ok (.transient .high resolution.candidates)
              else .ok .generate

/-- `attach_session_binding`, given `as_profile_defaults` of the settings. -/
def attachSessionBinding (profiles : List Profile) (now : ℕ) (io : Option String)
    (plan : SessionPlan) (defaults : ProfileDefaults) (portInfo : Option PortInfo)
    (dirty : Option Bool) : Except String ActiveProfileBinding × List Profile :=
  let confidence := (portInfo.map identityConfidence).getD .none
  match plan with
  | .disabled confidence => (.ok (disabledBinding confidence), profiles)
  | .transient confidence candidates =>
    (.ok (transientBinding confidence candidates none), profiles)
  | .selected profile =>
    let (binding, next) :=
      markUsedBinding profiles now io profile .automatic .high (dirty.getD false)
    (.ok binding, next)
  | .explicit profile =>
    let (binding, next) :=
      markUsedBinding profiles now io profile .explicit confidence (dirty.getD false)
    (.ok binding, next)
  | .generate => match portInfo.bind canonicalHighSelector with
    | none => (.error "Cannot create generated profile: no high-confidence identity", profiles)
    | some selector =>
      match runMutation profiles io
        (createGenerated profiles (generatedLabel portInfo) selector defaults now) with
      | (.ok created, next) => (.ok (persistentBinding created .generated .high false none), next)
      | (.error e, next) => (.ok (transientBinding .high [] (some e)), next)

/-! ## Learning -/

/-- `ProfilePersistenceState` -/
inductive ProfilePersistenceState where
  | persisted
  | notNeeded
  | transient
  | failed
  deriving DecidableEq, Repr

/-- `ProfilePersistenceOperation` -/
inductive ProfilePersistenceOperation where
  | openOverride
  | learned
  | closeSnapshot
  | rollback
  deriving DecidableEq, Repr

/-- `ProfilePersistenceResult` -/
structure ProfilePersistenceResult where
  state : ProfilePersistenceState
  operation : ProfilePersistenceOperation
  profileName : Option String := none
  revision : Option ℕ := none
  error : Option String := none
  deriving DecidableEq, Repr

/-- `is_conflict` -/
def isConflict (err : String) : Bool :=
  (findSubsequence err.toList "revision conflict".toList).isSome ||
    (findSubsequence err.toList "not found".toList).isSome

/-- `learn` at the connection's binding: it ends with a result and an update of the
    binding, or goes on to the store. -/
inductive LearnStart where
  | ends (result : ProfilePersistenceResult)
      (update : ActiveProfileBinding → ActiveProfileBinding)
  | stores (binding : ActiveProfileBinding)

/-- `learn` before its transaction -/
def learnStart (operation : ProfilePersistenceOperation) :
    Option ActiveProfileBinding → LearnStart
  | none => .ends { state := .transient, operation } id
  | some binding =>
    if !binding.persistent then .ends { state := .transient, operation } id
    else if binding.stale then
      let error := binding.lastPersistenceError.getD
        "profile revision changed externally; connection binding is stale"
      .ends
        { state := .failed, operation, profileName := some binding.profileName
          revision := binding.revision, error := some error }
        fun b => { b with dirty := true, lastPersistenceError := some error }
    else .stores binding

/-- The transaction of `learn`, with the connection's `effective_defaults`. -/
def learnStore (profiles : List Profile) (now : ℕ) (io : Option String)
    (binding : ActiveProfileBinding) (defaults : ProfileDefaults) :
    Except String LearnedUpdate × List Profile :=
  runConditionalMutation profiles io
    (updateLearnedDefaults profiles binding.profileName (binding.revision.getD 0) defaults now)

/-- `learn` after its transaction: its result, and the update of the binding. -/
def learnEnd (operation : ProfilePersistenceOperation) (binding : ActiveProfileBinding) :
    Except String LearnedUpdate →
      ProfilePersistenceResult × (ActiveProfileBinding → ActiveProfileBinding)
  | .ok ⟨profile, false⟩ =>
    ({ state := .notNeeded, operation, profileName := some profile.name
       revision := some profile.metadata.revision },
      fun b => { b with dirty := false, stale := false, lastPersistenceError := none })
  | .ok ⟨profile, true⟩ =>
    ({ state := .persisted, operation, profileName := some profile.name
       revision := some profile.metadata.revision },
      fun b =>
        { b with
          revision := some profile.metadata.revision
          dirty := false
          stale := false
          lastPersistenceError := none })
  | .error e =>
    ({ state := .failed, operation, profileName := some binding.profileName
       revision := binding.revision, error := some e },
      fun b =>
        { b with
          dirty := true
          stale := b.stale || isConflict e
          lastPersistenceError := some e })

/-! ## What the transactions do -/

section
variable {ps ps' : List Profile} {p q : Profile} {now : ℕ} {io : Option String} {β : Type}

theorem runConditionalMutation_eq_error {r : Except String (β × Option (List Profile))}
    {e : String} (h : runConditionalMutation ps io r = (.error e, ps')) : ps' = ps := by
  rcases io with _ | e' <;> rcases r with e'' | ⟨value, next⟩ <;> cases h <;> rfl

theorem runConditionalMutation_eq_ok {r : Except String (β × Option (List Profile))} {value : β}
    (h : runConditionalMutation ps io r = (.ok value, ps')) :
    io = none ∧ ∃ next, r = .ok (value, next) ∧ ps' = next.getD ps := by
  rcases io with _ | e' <;> rcases r with e'' | ⟨value', next⟩ <;> cases h
  exact ⟨rfl, next, rfl, rfl⟩

theorem runMutation_eq_error {r : Except String (β × List Profile)} {e : String}
    (h : runMutation ps io r = (.error e, ps')) : ps' = ps :=
  runConditionalMutation_eq_error h

theorem runMutation_eq_ok {r : Except String (β × List Profile)} {value : β}
    (h : runMutation ps io r = (.ok value, ps')) : io = none ∧ r = .ok (value, ps') := by
  obtain ⟨hio, next, hr, hnext⟩ := runConditionalMutation_eq_ok h
  rcases r with e | ⟨value', ps''⟩ <;> cases hr
  exact ⟨hio, by rw [hnext]; rfl⟩

theorem runConditionalMutation_change {r : Except String (β × Option (List Profile))}
    (hr : ∀ value next, r = .ok (value, next) → Change now ps (next.getD ps)) :
    Change now ps (runConditionalMutation ps io r).2 := by
  rcases io with _ | e <;> rcases r with e' | ⟨value, next⟩
  · exact .same
  · exact hr value next rfl
  · exact .same
  · exact .same

theorem runMutation_change {r : Except String (β × List Profile)}
    (hr : ∀ value next, r = .ok (value, next) → Change now ps next) :
    Change now ps (runMutation ps io r).2 := by
  refine runConditionalMutation_change fun value next h => ?_
  rcases r with e | ⟨value', ps'⟩ <;> cases h
  exact hr value ps' rfl

/-- **Marking a profile as used** binds the connection to the stored profile of
    its name, or, if this fails, to the profile that was planned. -/
theorem markUsedBinding_cases {source : ProfileSelectionSource} {confidence : IdentityConfidence}
    {dirty : Bool} {binding : ActiveProfileBinding}
    (h : markUsedBinding ps now io p source confidence dirty = (binding, ps')) :
    (io = none ∧ ∃ i old used, lookup ps used.name = some (i, old) ∧ ps' = ps.set i used ∧
      used.name = p.name ∧ used.selector = old.selector ∧ used.defaults = old.defaults ∧
      used.metadata.revision = old.metadata.revision ∧
      binding = persistentBinding used source confidence dirty none) ∨
    ((io.isSome ∨ get ps p.name = none) ∧ ps' = ps ∧
      ∃ e, binding = persistentBinding p source confidence dirty (some e)) := by
  unfold markUsedBinding at h
  split at h
  · next used next hrun =>
    cases h
    obtain ⟨hio, hmark⟩ := runMutation_eq_ok hrun
    obtain ⟨i, old, hold, hset, hname, hsel, hdef, hrev, -⟩ := markUsed_eq_ok hmark
    exact .inl ⟨hio, i, old, used, by rw [hname]; exact hold, hset, hname, hsel, hdef, hrev, rfl⟩
  · next e next hrun =>
    cases h
    refine .inr ⟨?_, runMutation_eq_error hrun, e, rfl⟩
    rcases io with _ | e'
    · refine .inr (get_eq_none.2 ?_)
      rcases hp : lookup ps p.name with _ | ⟨i, old⟩
      · rfl
      · simp [runMutation, runConditionalMutation, markUsed, hp, Except.map] at hrun
    · exact .inl rfl

/-- `mark_used` binds the connection to a profile like the one that was planned, at
    the same revision, if the store has that one under its name. -/
theorem markUsedBinding_binding {source : ProfileSelectionSource}
    {confidence : IdentityConfidence} {dirty : Bool} {binding : ActiveProfileBinding}
    (h : markUsedBinding ps now io p source confidence dirty = (binding, ps'))
    (hp : get ps p.name = some p) :
    ps'.map Profile.withoutUse = ps.map Profile.withoutUse ∧ binding.persistent = true ∧
      binding.stale = false ∧ binding.dirty = dirty ∧ binding.profileName = p.name ∧
      binding.revision = some p.metadata.revision := by
  unfold markUsedBinding at h
  split at h
  · next used next hrun =>
    cases h
    obtain ⟨-, hmark⟩ := runMutation_eq_ok hrun
    obtain ⟨i, old, hold, -, hname, -, -, hrev, -⟩ := markUsed_eq_ok hmark
    obtain rfl : old = p := Option.some.inj ((get_of_lookup hold).symm.trans hp)
    refine ⟨markUsed_withoutUse hmark, rfl, rfl, rfl, hname, ?_⟩
    simp only [persistentBinding, hrev]
  · next e next hrun =>
    cases h
    obtain rfl := runMutation_eq_error hrun
    exact ⟨rfl, rfl, rfl, rfl, rfl, rfl⟩

theorem markUsedBinding_change (ps : List Profile) (now : ℕ) (io : Option String) (p : Profile)
    (source : ProfileSelectionSource) (confidence : IdentityConfidence) (dirty : Bool) :
    Change now ps (markUsedBinding ps now io p source confidence dirty).2 := by
  have hchange : Change now ps (runMutation ps io (markUsed ps p.name now)).2 :=
    runMutation_change fun _ _ => markUsed_change
  unfold markUsedBinding
  split <;> simpa [*] using hchange

theorem attachSessionBinding_change (ps : List Profile) (now : ℕ) (io : Option String)
    (plan : SessionPlan) (defaults : ProfileDefaults) (portInfo : Option PortInfo)
    (dirty : Option Bool) :
    Change now ps (attachSessionBinding ps now io plan defaults portInfo dirty).2 := by
  cases plan with
  | disabled confidence => exact .same
  | transient confidence candidates => exact .same
  | selected p => exact markUsedBinding_change ps now io p _ _ _
  | explicit p => exact markUsedBinding_change ps now io p _ _ _
  | generate =>
    unfold attachSessionBinding
    rcases portInfo.bind canonicalHighSelector with _ | selector
    · exact .same
    · have hchange : Change now ps (runMutation ps io
          (createGenerated ps (generatedLabel portInfo) selector defaults now)).2 :=
        runMutation_change fun _ _ => createGenerated_change
      dsimp only
      split <;> simpa [*] using hchange

/-- No bare open is bound to a profile explicitly. -/
theorem planSession_profile {glob : String → String → Bool}
    {profiles : Except String (List Profile)} {profileMode : Option ProfileMode}
    {portInfo : Option PortInfo} {livePorts : List PortInfo} {plan : SessionPlan}
    (h : planSession glob profiles profileMode portInfo livePorts = .ok plan)
    (hp : plan.profile = some p) : plan = .selected p := by
  cases plan with
  | selected q =>
    cases hp
    rfl
  | explicit q =>
    exfalso
    unfold planSession at h
    dsimp only at h
    split at h
    · cases h
    · split at h
      · cases h
      · split at h
        · cases h
        · split at h
          · cases h
          · split at h
            · cases h
            · split at h
              · cases h
              · split at h <;> cases h
  | _ => cases hp

/-- A profile is generated only for a port with an identity. -/
theorem planSession_generate {glob : String → String → Bool}
    {profiles : Except String (List Profile)} {profileMode : Option ProfileMode}
    {portInfo : Option PortInfo} {livePorts : List PortInfo}
    (h : planSession glob profiles profileMode portInfo livePorts = .ok .generate) :
    portInfo.bind canonicalHighSelector ≠ none := by
  by_cases hmode : profileMode = some .none
  · simp [planSession, hmode] at h
  rcases portInfo with _ | port
  · simp [planSession, hmode] at h
  · rcases hid : highIdentity port with _ | identity
    · simp [planSession, hmode, hid] at h
    · simp [canonicalHighSelector, hid]

/-- **An open gets a binding**, whatever the store does, unless it has to generate
    a profile for a port without an identity. -/
theorem attachSessionBinding_eq_error {plan : SessionPlan} {defaults : ProfileDefaults}
    {portInfo : Option PortInfo} {dirty : Option Bool} {e : String}
    (h : attachSessionBinding ps now io plan defaults portInfo dirty = (.error e, ps')) :
    plan = .generate ∧ portInfo.bind canonicalHighSelector = none := by
  cases plan with
  | disabled confidence => cases h
  | transient confidence candidates => cases h
  | selected p => cases h
  | explicit p => cases h
  | generate =>
    refine ⟨rfl, ?_⟩
    simp only [attachSessionBinding] at h
    split at h
    · next hnone => exact hnone
    · split at h
      · cases h
      · cases h

theorem learnStore_change (ps : List Profile) (now : ℕ) (io : Option String)
    (binding : ActiveProfileBinding) (defaults : ProfileDefaults) :
    Change now ps (learnStore ps now io binding defaults).2 :=
  runConditionalMutation_change fun _ _ => updateLearnedDefaults_change

/-! ## What learning does to the binding -/

/-- The parts of a binding that say which profile at which revision it expects. -/
def ActiveProfileBinding.bond (b : ActiveProfileBinding) : Bool × String × Option ℕ :=
  (b.persistent, b.profileName, b.revision)

theorem learnStart_ends {operation : ProfilePersistenceOperation}
    {o : Option ActiveProfileBinding} {result : ProfilePersistenceResult}
    {update : ActiveProfileBinding → ActiveProfileBinding}
    (h : learnStart operation o = .ends result update) (b : ActiveProfileBinding) :
    (update b).bond = b.bond := by
  unfold learnStart at h
  split at h
  · cases h
    rfl
  · split_ifs at h <;> cases h <;> rfl

/-- Only a persistent binding, and not a stale one, gets to the store. -/
theorem learnStart_stores {operation : ProfilePersistenceOperation}
    {o : Option ActiveProfileBinding} {binding : ActiveProfileBinding}
    (h : learnStart operation o = .stores binding) :
    o = some binding ∧ binding.persistent = true ∧ binding.stale = false := by
  unfold learnStart at h
  split at h
  · cases h
  · next b =>
    split_ifs at h with hpers hstale
    cases h
    exact ⟨rfl, by simpa using hpers, by simpa using hstale⟩

end

end SerialMcp
