/-
  The operations of the profile store (`profile_store.rs`).

  An operation is given the profiles and the time, and returns what it answers
  and the profiles to store, or no profiles if there is nothing to store.

  * `Op.apply`: the operations;
  * `Op.run`: an operation on the profiles of a store;
  * `Op.run_change`: an operation leaves the profiles as they are, adds one of
    revision 1, changes the use of one, replaces the settings of one, or deletes
    those of one name.
-/
import Mathlib.Data.List.DropRight
import Mathlib.Data.List.Nodup
import SerialMcp.Profile.Data
import SerialMcp.RxRing

namespace SerialMcp

/-! ## Names of generated profiles -/

/-- `normalize_generated_label` -/
def normalizeGeneratedLabel (label : String) : String :=
  let out := (label.toList.foldl (fun (out, pendingSep) c =>
    if c.isAlphanum then
      ((if pendingSep ∧ out ≠ [] then out ++ ['-'] else out) ++ [c.toLower], false)
    else (out, true)) (([] : List Char), false)).1
  let out := (out.dropWhile (· = '-')).rdropWhile (· = '-')
  let capped := (out.take 32).rdropWhile (· = '-')
  if capped = [] then "serial-device" else .ofList capped

/-- The loop of `allocate_generated_name`, from a suffix. -/
def freeSuffix (taken : List String) (base : String) (suffix : ℕ) : ℕ → Option String
  | 0 => none
  | fuel + 1 =>
    let candidate := base ++ "-" ++ toString suffix
    if candidate ∈ taken then freeSuffix taken base (suffix + 1) fuel else some candidate

/-- `allocate_generated_name`; no result when the suffix would overflow `u32`. -/
def allocateGeneratedName (existing : List Profile) (base : String) : Option String :=
  let taken := existing.map Profile.name
  if base ∈ taken then freeSuffix taken base 2 (2 ^ 32 - 2) else some base

namespace ProfileStore

/-! ## Metadata and revisions -/

/-- `create_metadata` -/
def createMetadata (now : ℕ) : ProfileMetadata where
  generated := false
  revision := 1
  createdAtMs := some now
  updatedAtMs := some now
  lastUsedAtMs := none
  useCount := 0

/-- `bump_metadata` -/
def bumpMetadata (old : Profile) (now : ℕ) : ProfileMetadata where
  generated := old.metadata.generated
  revision := saturatingAdd old.metadata.revision 1
  createdAtMs := old.metadata.createdAtMs
  updatedAtMs := some now
  lastUsedAtMs := old.metadata.lastUsedAtMs
  useCount := old.metadata.useCount

/-- The snapshot of a profile that is replaced. -/
def snapshot (old : Profile) (now : ℕ) : ProfileRevision where
  revision := old.metadata.revision
  savedAtMs := now
  selector := old.selector
  defaults := old.defaults

/-- `push_revision` -/
def pushRevision (old : Profile) (now : ℕ) (revisions : List ProfileRevision) :
    List ProfileRevision :=
  let revisions := revisions ++ [snapshot old now]
  revisions.drop (revisions.length - maxProfileRevisions)

/-! ## The operations -/

/-- The first profile of a name, with its position. -/
def lookup (profiles : List Profile) (name : String) : Option (ℕ × Profile) :=
  (profiles.findIdx? (·.name = name)).bind fun idx => profiles[idx]?.map (idx, ·)

def alreadyExists (name : String) : String :=
  "Profile '" ++ name ++ "' already exists. Set overwrite=true to replace."

def notFound (name : String) : String := "Profile '" ++ name ++ "' not found"

def revisionConflict (name : String) (expected found : ℕ) : String :=
  "Profile '" ++ name ++ "' revision conflict: expected " ++ toString expected ++ ", found " ++
    toString found

def noSnapshot (name : String) (target : ℕ) (retained : List ℕ) : String :=
  "Profile '" ++ name ++ "' has no retained snapshot at revision " ++ toString target ++
    " (retained: " ++ ", ".intercalate (retained.map toString) ++ ")"

/-- `apply_upsert` -/
def applyUpsert (profiles : List Profile) (incoming : Profile) (overwrite : Bool) (now : ℕ) :
    Except String (Bool × List Profile) :=
  match lookup profiles incoming.name with
  | some (idx, old) =>
    if overwrite then
      .ok (false, profiles.set idx
        { name := incoming.name
          selector := incoming.selector
          defaults := incoming.defaults
          metadata := bumpMetadata old now
          revisions := pushRevision old now old.revisions })
    else .error (alreadyExists incoming.name)
  | none =>
    .ok (true, profiles ++
      [{ name := incoming.name
         selector := incoming.selector
         defaults := incoming.defaults
         metadata := createMetadata now
         revisions := [] }])

/-- `apply_update_defaults` -/
def applyUpdateDefaults (profiles : List Profile) (name : String) (defaults : ProfileDefaults)
    (overwrite : Bool) (now : ℕ) : Except String ((Bool × Profile) × List Profile) :=
  match lookup profiles name with
  | some (idx, old) =>
    if overwrite then
      let merged : Profile :=
        { name
          selector := old.selector
          defaults
          metadata := bumpMetadata old now
          revisions := pushRevision old now old.revisions }
      .ok ((false, merged), profiles.set idx merged)
    else .error (alreadyExists name)
  | none =>
    let created : Profile :=
      { name, selector := {}, defaults, metadata := createMetadata now, revisions := [] }
    .ok ((true, created), profiles ++ [created])

/-- `apply_delete` -/
def applyDelete (profiles : List Profile) (name : String) : Except String (Unit × List Profile) :=
  let kept := profiles.filter (·.name ≠ name)
  if kept.length = profiles.length then .error (notFound name) else .ok ((), kept)

/-- `create_generated` -/
def createGenerated (profiles : List Profile) (label : String) (selector : ProfileSelector)
    (defaults : ProfileDefaults) (now : ℕ) : Except String (Profile × List Profile) :=
  match allocateGeneratedName profiles ("auto-" ++ normalizeGeneratedLabel label) with
  | none => .error "attempt to add with overflow"
  | some name =>
    let profile : Profile :=
      { name, selector, defaults
        metadata :=
          { generated := true
            revision := 1
            createdAtMs := some now
            updatedAtMs := some now
            lastUsedAtMs := some now
            useCount := 1 }
        revisions := [] }
    .ok (profile, profiles ++ [profile])

/-- `mark_used` -/
def markUsed (profiles : List Profile) (name : String) (now : ℕ) :
    Except String (Profile × List Profile) :=
  match lookup profiles name with
  | none => .error (notFound name)
  | some (idx, old) =>
    let maxExisting := ((profiles.filterMap (·.metadata.lastUsedAtMs)).max?).getD 0
    let ts := max now (saturatingAdd maxExisting 1)
    let updated : Profile :=
      { old with
        metadata :=
          { old.metadata with
            useCount := saturatingAdd old.metadata.useCount 1
            lastUsedAtMs := some ts } }
    .ok (updated, profiles.set idx updated)

/-- `LearnedUpdate` -/
structure LearnedUpdate where
  profile : Profile
  changed : Bool
  deriving DecidableEq, Repr

/-- `update_learned_defaults`: nothing to store when the defaults are the same. -/
def updateLearnedDefaults (profiles : List Profile) (profileName : String) (expectedRevision : ℕ)
    (defaults : ProfileDefaults) (now : ℕ) :
    Except String (LearnedUpdate × Option (List Profile)) :=
  match lookup profiles profileName with
  | none => .error (notFound profileName)
  | some (idx, current) =>
    if current.metadata.revision ≠ expectedRevision then
      .error (revisionConflict profileName expectedRevision current.metadata.revision)
    else if current.defaults == defaults then .ok (⟨current, false⟩, none)
    else
      let updated : Profile :=
        { current with
          defaults
          metadata := bumpMetadata current now
          revisions := pushRevision current now current.revisions }
      .ok (⟨updated, true⟩, some (profiles.set idx updated))

/-- `rollback` -/
def rollback (profiles : List Profile) (profileName : String)
    (expectedRevision targetRevision now : ℕ) : Except String (Profile × List Profile) :=
  match lookup profiles profileName with
  | none => .error (notFound profileName)
  | some (idx, current) =>
    if current.metadata.revision ≠ expectedRevision then
      .error (revisionConflict profileName expectedRevision current.metadata.revision)
    else match current.revisions.find? (·.revision = targetRevision) with
      | none => .error (noSnapshot profileName targetRevision
          (current.revisions.map ProfileRevision.revision))
      | some snapshot =>
        let restored : Profile :=
          { name := current.name
            selector := snapshot.selector
            defaults := snapshot.defaults
            metadata :=
              { generated := current.metadata.generated
                revision := saturatingAdd current.metadata.revision 1
                createdAtMs := current.metadata.createdAtMs
                updatedAtMs := some now
                lastUsedAtMs := current.metadata.lastUsedAtMs
                useCount := current.metadata.useCount }
            revisions := pushRevision current now current.revisions }
        .ok (restored, profiles.set idx restored)

/-- The mutations of a store. -/
inductive Op where
  | upsert (profile : Profile) (overwrite : Bool)
  | updateDefaultsPreservingSelector (name : String) (defaults : ProfileDefaults)
      (overwrite : Bool)
  | delete (name : String)
  | createGenerated (label : String) (selector : ProfileSelector) (defaults : ProfileDefaults)
  | markUsed (name : String)
  | updateLearnedDefaults (profileName : String) (expectedRevision : ℕ)
      (defaults : ProfileDefaults)
  | rollback (profileName : String) (expectedRevision targetRevision : ℕ)

/-- What they answer. -/
inductive Reply where
  /-- whether the profile is new -/
  | created (new : Bool)
  | configured (new : Bool) (effective : Profile)
  | deleted
  | profile (effective : Profile)
  | learned (update : LearnedUpdate)
  deriving DecidableEq, Repr

/-- The closure of `run_mutation`, which always has something to store. -/
def stored {β : Type} (reply : β → Reply) (r : Except String (β × List Profile)) :
    Except String (Reply × Option (List Profile)) :=
  r.map fun (value, next) => (reply value, some next)

/-- The closure that a mutation gives to `run_conditional_mutation`. -/
def Op.apply (profiles : List Profile) (now : ℕ) :
    Op → Except String (Reply × Option (List Profile))
  | .upsert profile overwrite => stored .created (applyUpsert profiles profile overwrite now)
  | .updateDefaultsPreservingSelector name defaults overwrite =>
    stored (fun (new, effective) => .configured new effective)
      (applyUpdateDefaults profiles name defaults overwrite now)
  | .delete name => stored (fun _ => .deleted) (applyDelete profiles name)
  | .createGenerated label selector defaults =>
    stored .profile (ProfileStore.createGenerated profiles label selector defaults now)
  | .markUsed name => stored .profile (ProfileStore.markUsed profiles name now)
  | .updateLearnedDefaults profileName expectedRevision defaults =>
    (ProfileStore.updateLearnedDefaults profiles profileName expectedRevision defaults now).map
      fun (update, next) => (.learned update, next)
  | .rollback profileName expectedRevision targetRevision =>
    stored .profile
      (ProfileStore.rollback profiles profileName expectedRevision targetRevision now)

/-- A mutation on the profiles of a store: its answer, and the profiles after it. -/
def Op.run (profiles : List Profile) (now : ℕ) (op : Op) : Except String Reply × List Profile :=
  match op.apply profiles now with
  | .ok (reply, next) => (.ok reply, next.getD profiles)
  | .error e => (.error e, profiles)

/-! ## Profiles by name -/

/-- `get` -/
def get (profiles : List Profile) (name : String) : Option Profile :=
  profiles.find? (·.name = name)

section
variable {ps ps' : List Profile} {p q : Profile} {n : String} {i now : ℕ}

theorem lookup_eq_some (h : lookup ps n = some (i, p)) :
    ∃ l r, ps = l ++ p :: r ∧ l.length = i ∧ p.name = n ∧ ∀ q ∈ l, q.name ≠ n := by
  simp only [lookup, Option.bind_eq_some_iff, Option.map_eq_some_iff] at h
  obtain ⟨idx, hidx, p', hp', heq⟩ := h
  cases heq
  obtain ⟨hlt, hname, hfirst⟩ := List.findIdx?_eq_some_iff_getElem.1 hidx
  obtain ⟨-, rfl⟩ := List.getElem?_eq_some_iff.1 hp'
  refine ⟨ps.take i, ps.drop (i + 1), ?_, List.length_take_of_le (Nat.le_of_lt hlt),
    of_decide_eq_true hname, fun q hq => ?_⟩
  · rw [List.getElem_cons_drop, List.take_append_drop]
  · obtain ⟨j, hj, rfl⟩ := List.mem_iff_getElem.1 hq
    rw [List.length_take] at hj
    rw [List.getElem_take]
    simpa using hfirst j (by omega)

theorem lookup_append {l r : List Profile} (hl : ∀ q ∈ l, q.name ≠ p.name) :
    lookup (l ++ p :: r) p.name = some (l.length, p) := by
  have hnone : l.findIdx? (·.name = p.name) = none := by simpa using hl
  simp [lookup, List.findIdx?_append, hnone, List.findIdx?_cons]

theorem lookup_eq_none : lookup ps n = none ↔ ∀ q ∈ ps, q.name ≠ n := by
  refine ⟨fun h q hq hname => ?_, fun h => ?_⟩
  · obtain ⟨l, p, r, rfl, hp, hl⟩ :
        ∃ l p r, ps = l ++ p :: r ∧ p.name = n ∧ ∀ q ∈ l, q.name ≠ n := by
      obtain ⟨p, hp⟩ := Option.isSome_iff_exists.1
        (List.find?_isSome.2 ⟨q, hq, decide_eq_true hname⟩ : (ps.find? (·.name = n)).isSome)
      obtain ⟨hname, l, r, rfl, hl⟩ := List.find?_eq_some_iff_append.1 hp
      exact ⟨l, p, r, rfl, of_decide_eq_true hname, by simpa using hl⟩
    subst hp
    rw [lookup_append hl] at h
    cases h
  · have hnone : ps.findIdx? (·.name = n) = none := by simpa using h
    rw [lookup, hnone, Option.bind_none]

theorem get_eq_none : get ps n = none ↔ lookup ps n = none := by
  rw [lookup_eq_none, get, List.find?_eq_none]
  simp

theorem get_of_lookup (h : lookup ps n = some (i, p)) : get ps n = some p := by
  obtain ⟨l, r, rfl, -, hname, hl⟩ := lookup_eq_some h
  exact List.find?_eq_some_iff_append.2 ⟨decide_eq_true hname, l, r, rfl, by simpa using hl⟩

theorem name_of_get (h : get ps n = some p) : p.name = n := by
  simpa using List.find?_some h

theorem mem_of_get (h : get ps n = some p) : p ∈ ps := List.mem_of_find?_eq_some h

/-- A profile that takes the place of another one of its name. -/
theorem get_set (h : lookup ps q.name = some (i, p)) :
    get (ps.set i q) n = if n = q.name then some q else get ps n := by
  obtain ⟨l, r, rfl, rfl, hname, hl⟩ := lookup_eq_some h
  simp only [get, List.set_append_right _ _ (Nat.le_refl _), Nat.sub_self, List.set_cons_zero,
    List.find?_append, List.find?_cons, hname]
  split_ifs with hn
  · subst hn
    have hnone : l.find? (·.name = q.name) = none := by simpa using hl
    simp [hnone]
  · simp [Ne.symm hn]

theorem names_set (h : lookup ps q.name = some (i, p)) :
    (ps.set i q).map Profile.name = ps.map Profile.name := by
  obtain ⟨l, r, rfl, rfl, hname, -⟩ := lookup_eq_some h
  simp [List.set_append_right, hname]

theorem get_concat (h : lookup ps p.name = none) :
    get (ps ++ [p]) n = if n = p.name then some p else get ps n := by
  have hnone := get_eq_none.2 h
  unfold get at hnone ⊢
  rw [List.find?_append]
  split_ifs with hn
  · simp [hn, hnone]
  · simp [Ne.symm hn]

theorem get_filter {m : String} :
    get (ps.filter (·.name ≠ m)) n = if n = m then none else get ps n := by
  unfold get
  rw [List.find?_filter]
  split_ifs with hn
  · simp [hn]
  · congr 1
    funext q
    by_cases hq : q.name = n
    · simp [hq, hn]
    · simp [hq]

/-! ## What an operation does -/

/-- What a mutation does to the profiles. -/
inductive Change (now : ℕ) (ps : List Profile) : List Profile → Prop
  | same : Change now ps ps
  | creates {p : Profile} (hnew : lookup ps p.name = none) (hrev : p.metadata.revision = 1)
      (hhist : p.revisions = []) : Change now ps (ps ++ [p])
  | uses {i : ℕ} {p p' : Profile} (hp : lookup ps p'.name = some (i, p))
      (hsel : p'.selector = p.selector) (hdef : p'.defaults = p.defaults)
      (hrev : p'.metadata.revision = p.metadata.revision) (hhist : p'.revisions = p.revisions) :
      Change now ps (ps.set i p')
  | replaces {i : ℕ} {p p' : Profile} (hp : lookup ps p'.name = some (i, p))
      (hrev : p'.metadata.revision = saturatingAdd p.metadata.revision 1)
      (hhist : p'.revisions = pushRevision p now p.revisions) : Change now ps (ps.set i p')
  | deletes (name : String) : Change now ps (ps.filter (·.name ≠ name))

/-- What it does to the profile of a name. -/
inductive Fate (now : ℕ) : Option Profile → Option Profile → Prop
  | same {o} : Fate now o o
  | created {p : Profile} (hrev : p.metadata.revision = 1) (hhist : p.revisions = []) :
      Fate now none (some p)
  | used {p p' : Profile} (hsel : p'.selector = p.selector) (hdef : p'.defaults = p.defaults)
      (hrev : p'.metadata.revision = p.metadata.revision) (hhist : p'.revisions = p.revisions) :
      Fate now (some p) (some p')
  | replaced {p p' : Profile} (hrev : p'.metadata.revision = saturatingAdd p.metadata.revision 1)
      (hhist : p'.revisions = pushRevision p now p.revisions) : Fate now (some p) (some p')
  | deleted {p : Profile} : Fate now (some p) none

theorem Change.fate (h : Change now ps ps') (n : String) : Fate now (get ps n) (get ps' n) := by
  cases h with
  | same => exact .same
  | creates hnew hrev hhist =>
    rw [get_concat hnew]
    split_ifs with hn
    · rw [hn, get_eq_none.2 hnew]
      exact .created hrev hhist
    · exact .same
  | uses hp hsel hdef hrev hhist =>
    rw [get_set hp]
    split_ifs with hn
    · rw [hn, get_of_lookup hp]
      exact .used hsel hdef hrev hhist
    · exact .same
  | replaces hp hrev hhist =>
    rw [get_set hp]
    split_ifs with hn
    · rw [hn, get_of_lookup hp]
      exact .replaced hrev hhist
    · exact .same
  | deletes m =>
    rw [get_filter]
    split_ifs
    · rcases get ps n with _ | p
      · exact .same
      · exact .deleted
    · exact .same

theorem Change.nodup (h : Change now ps ps') (hps : (ps.map Profile.name).Nodup) :
    (ps'.map Profile.name).Nodup := by
  cases h with
  | same => exact hps
  | creates hnew =>
    rw [List.map_append, List.map_singleton, ← List.concat_eq_append]
    refine List.Nodup.concat (fun hmem => ?_) hps
    obtain ⟨q, hq, hname⟩ := List.mem_map.1 hmem
    exact lookup_eq_none.1 hnew q hq hname
  | uses hp => rwa [names_set hp]
  | replaces hp => rwa [names_set hp]
  | deletes m => exact hps.sublist (List.filter_sublist.map _)

theorem Change.lt_u64Size (h : Change now ps ps')
    (hps : ∀ p ∈ ps, p.metadata.revision < u64Size) :
    ∀ p ∈ ps', p.metadata.revision < u64Size := by
  intro q hq
  cases h with
  | same => exact hps q hq
  | creates hnew hrev =>
    rcases List.mem_append.1 hq with hq | hq
    · exact hps q hq
    · rw [List.mem_singleton.1 hq, hrev]
      decide
  | uses hp hsel hdef hrev =>
    rcases List.mem_or_eq_of_mem_set hq with hq | rfl
    · exact hps q hq
    · rw [hrev]
      exact hps _ (mem_of_get (get_of_lookup hp))
  | replaces hp hrev =>
    rcases List.mem_or_eq_of_mem_set hq with hq | rfl
    · exact hps q hq
    · rw [hrev]
      exact Nat.lt_of_le_of_lt (Nat.min_le_right _ _) (by decide)
  | deletes m => exact hps q (List.mem_of_mem_filter hq)

theorem freeSuffix_notMem {taken : List String} {base name : String} {suffix fuel : ℕ}
    (h : freeSuffix taken base suffix fuel = some name) : name ∉ taken := by
  induction fuel generalizing suffix with
  | zero => cases h
  | succ fuel ih =>
    rw [freeSuffix] at h
    split_ifs at h with htaken
    · exact ih h
    · cases h
      exact htaken

theorem allocateGeneratedName_free {base : String}
    (h : allocateGeneratedName ps base = some n) : lookup ps n = none := by
  have hfree : n ∉ ps.map Profile.name := by
    simp only [allocateGeneratedName] at h
    split_ifs at h with hbase
    · exact freeSuffix_notMem h
    · cases h
      exact hbase
  rw [lookup_eq_none]
  intro q hq hname
  exact hfree (List.mem_map.2 ⟨q, hq, hname⟩)

/-! ### The operations one by one -/

theorem applyUpsert_change {incoming : Profile} {overwrite created : Bool}
    (h : applyUpsert ps incoming overwrite now = .ok (created, ps')) : Change now ps ps' := by
  unfold applyUpsert at h
  split at h
  · next hold =>
    split_ifs at h
    cases h
    exact .replaces hold rfl rfl
  · next hnone =>
    cases h
    exact .creates hnone rfl rfl

theorem applyUpdateDefaults_change {defaults : ProfileDefaults} {overwrite : Bool}
    {reply : Bool × Profile}
    (h : applyUpdateDefaults ps n defaults overwrite now = .ok (reply, ps')) :
    Change now ps ps' := by
  unfold applyUpdateDefaults at h
  split at h
  · next hold =>
    split_ifs at h
    cases h
    exact .replaces hold rfl rfl
  · next hnone =>
    cases h
    exact .creates hnone rfl rfl

theorem applyDelete_change (h : applyDelete ps n = .ok ((), ps')) : Change now ps ps' := by
  unfold applyDelete at h
  dsimp only at h
  split_ifs at h
  cases h
  exact .deletes n

theorem createGenerated_change {label : String} {selector : ProfileSelector}
    {defaults : ProfileDefaults}
    (h : createGenerated ps label selector defaults now = .ok (p, ps')) : Change now ps ps' := by
  unfold createGenerated at h
  split at h
  · cases h
  · next hname =>
    cases h
    exact .creates (allocateGeneratedName_free hname) rfl rfl

/-- **Marking a profile as used** leaves its settings and its history. -/
theorem markUsed_eq_ok (h : markUsed ps n now = .ok (q, ps')) :
    ∃ i p, lookup ps n = some (i, p) ∧ ps' = ps.set i q ∧ q.name = n ∧
      q.selector = p.selector ∧ q.defaults = p.defaults ∧
      q.metadata.revision = p.metadata.revision ∧ q.revisions = p.revisions := by
  unfold markUsed at h
  split at h
  · cases h
  · next i p hp =>
    obtain ⟨-, -, -, -, hname, -⟩ := lookup_eq_some hp
    cases h
    exact ⟨i, p, hp, rfl, hname, rfl, rfl, rfl, rfl⟩

/-- **Marking a profile as used** changes nothing but its use. -/
theorem markUsed_withoutUse (h : markUsed ps n now = .ok (q, ps')) :
    ps'.map Profile.withoutUse = ps.map Profile.withoutUse := by
  unfold markUsed at h
  split at h
  · cases h
  · next i p hp =>
    cases h
    obtain ⟨l, r, rfl, rfl, -, -⟩ := lookup_eq_some hp
    simp [Profile.withoutUse]

/-- What the store has under a name depends on the use of profiles in their use only. -/
theorem get_withoutUse (h : ps'.map Profile.withoutUse = ps.map Profile.withoutUse) (n : String) :
    (get ps' n).map Profile.withoutUse = (get ps n).map Profile.withoutUse := by
  have hget : ∀ ps : List Profile, (get ps n).map Profile.withoutUse =
      (ps.map Profile.withoutUse).find? (·.name = n) := by
    intro ps
    rw [List.find?_map]
    rfl
  rw [hget, hget, h]

/-- **A learned update** is made at the revision that is expected; it replaces the
    defaults or stores nothing. -/
theorem updateLearnedDefaults_eq_ok {expected : ℕ} {defaults : ProfileDefaults}
    {update : LearnedUpdate} {next : Option (List Profile)}
    (h : updateLearnedDefaults ps n expected defaults now = .ok (update, next)) :
    ∃ i p, lookup ps n = some (i, p) ∧ p.metadata.revision = expected ∧
      (((p.defaults == defaults) = true ∧ update = ⟨p, false⟩ ∧ next = none) ∨
        ((p.defaults == defaults) = false ∧ update.changed = true ∧ update.profile.name = n ∧
          next = some (ps.set i update.profile) ∧ update.profile.selector = p.selector ∧
          update.profile.defaults = defaults ∧
          update.profile.metadata = bumpMetadata p now ∧
          update.profile.revisions = pushRevision p now p.revisions)) := by
  unfold updateLearnedDefaults at h
  split at h
  · cases h
  · next i p hp =>
    obtain ⟨-, -, -, -, hname, -⟩ := lookup_eq_some hp
    split_ifs at h with hrev hsame
    · cases h
      exact ⟨i, p, hp, Decidable.not_not.1 hrev, .inl ⟨hsame, rfl, rfl⟩⟩
    · cases h
      exact ⟨i, p, hp, Decidable.not_not.1 hrev, .inr
        ⟨Bool.eq_false_iff.2 hsame, rfl, hname, rfl, rfl, rfl, rfl, rfl⟩⟩

/-- **A rollback** brings back the settings of a snapshot. -/
theorem rollback_eq_ok {expected target : ℕ} (h : rollback ps n expected target now = .ok (q, ps')) :
    ∃ i p s, lookup ps n = some (i, p) ∧ p.metadata.revision = expected ∧
      p.revisions.find? (·.revision = target) = some s ∧ ps' = ps.set i q ∧ q.name = n ∧
      q.selector = s.selector ∧ q.defaults = s.defaults ∧ q.metadata = bumpMetadata p now ∧
      q.revisions = pushRevision p now p.revisions := by
  unfold rollback at h
  split at h
  · cases h
  · next i p hp =>
    obtain ⟨-, -, -, -, hname, -⟩ := lookup_eq_some hp
    split_ifs at h with hrev
    split at h
    · cases h
    · next s hs =>
      cases h
      exact ⟨i, p, s, hp, Decidable.not_not.1 hrev, hs, rfl, hname, rfl, rfl, rfl, rfl⟩

theorem markUsed_change (h : markUsed ps n now = .ok (q, ps')) : Change now ps ps' := by
  obtain ⟨i, p, hp, rfl, rfl, hsel, hdef, hrev, hhist⟩ := markUsed_eq_ok h
  exact .uses hp hsel hdef hrev hhist

theorem updateLearnedDefaults_change {expected : ℕ} {defaults : ProfileDefaults}
    {update : LearnedUpdate} {next : Option (List Profile)}
    (h : updateLearnedDefaults ps n expected defaults now = .ok (update, next)) :
    Change now ps (next.getD ps) := by
  obtain ⟨i, p, hp, -, ⟨-, -, rfl⟩ | ⟨-, -, rfl, rfl, -, -, hmeta, hhist⟩⟩ :=
    updateLearnedDefaults_eq_ok h
  · exact .same
  · exact .replaces hp (by rw [hmeta]; rfl) hhist

theorem rollback_change {expected target : ℕ}
    (h : rollback ps n expected target now = .ok (q, ps')) : Change now ps ps' := by
  obtain ⟨i, p, s, hp, -, -, rfl, rfl, -, -, hmeta, hhist⟩ := rollback_eq_ok h
  exact .replaces hp (by rw [hmeta]; rfl) hhist

theorem stored_eq_ok {β : Type} {f : β → Reply} {r : Except String (β × List Profile)}
    {reply : Reply} {next : Option (List Profile)} (h : stored f r = .ok (reply, next)) :
    ∃ value ps', r = .ok (value, ps') ∧ reply = f value ∧ next = some ps' := by
  rcases r with e | ⟨value, ps'⟩ <;> cases h
  exact ⟨value, ps', rfl, rfl, rfl⟩

theorem Op.apply_change {op : Op} {reply : Reply} {next : Option (List Profile)}
    (h : op.apply ps now = .ok (reply, next)) : Change now ps (next.getD ps) := by
  cases op with
  | upsert profile overwrite =>
    rw [Op.apply] at h
    obtain ⟨_, ps', hop, -, rfl⟩ := stored_eq_ok h
    exact applyUpsert_change hop
  | updateDefaultsPreservingSelector name defaults overwrite =>
    rw [Op.apply] at h
    obtain ⟨_, ps', hop, -, rfl⟩ := stored_eq_ok h
    exact applyUpdateDefaults_change hop
  | delete name =>
    rw [Op.apply] at h
    obtain ⟨_, ps', hop, -, rfl⟩ := stored_eq_ok h
    exact applyDelete_change hop
  | createGenerated label selector defaults =>
    rw [Op.apply] at h
    obtain ⟨_, ps', hop, -, rfl⟩ := stored_eq_ok h
    exact createGenerated_change hop
  | markUsed name =>
    rw [Op.apply] at h
    obtain ⟨_, ps', hop, -, rfl⟩ := stored_eq_ok h
    exact markUsed_change hop
  | updateLearnedDefaults profileName expectedRevision defaults =>
    rw [Op.apply] at h
    generalize hr : ProfileStore.updateLearnedDefaults ps profileName expectedRevision defaults now
      = r at h
    rcases r with e | ⟨update, next'⟩ <;> cases h
    exact updateLearnedDefaults_change hr
  | rollback profileName expectedRevision targetRevision =>
    rw [Op.apply] at h
    obtain ⟨_, ps', hop, -, rfl⟩ := stored_eq_ok h
    exact rollback_change hop

theorem Op.run_of_ok {op : Op} {reply : Reply} {next : Option (List Profile)}
    (h : op.apply ps now = .ok (reply, next)) : op.run ps now = (.ok reply, next.getD ps) := by
  rw [Op.run, h]

theorem Op.run_of_error {op : Op} {e : String} (h : op.apply ps now = .error e) :
    op.run ps now = (.error e, ps) := by
  rw [Op.run, h]

/-- **What a mutation does**, failed or not. -/
theorem Op.run_change (op : Op) (ps : List Profile) (now : ℕ) :
    Change now ps (op.run ps now).2 := by
  rcases h : op.apply ps now with e | ⟨reply, next⟩
  · rw [Op.run_of_error h]
    exact .same
  · rw [Op.run_of_ok h]
    exact Op.apply_change h

end

end ProfileStore

end SerialMcp
