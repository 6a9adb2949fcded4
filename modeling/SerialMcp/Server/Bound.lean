/-
  What a connection relies on of its profile, and what the learns and the opens of one
  server do to it (`learning.rs`, `tools/port_ops.rs`).

  * `Kept`: every stored profile is stored still, at a later revision or with its settings;
  * `Bound`: the profile of a binding is as the connection expects it to be, as long as it
    is at the revision of the binding;
  * `learn_bound`, `learn_origin`: a learn keeps its binding bound, and writes over nothing
    but settings that its connection had started from;
  * `Session.keeps`: so does an open.
-/
import SerialMcp.Profile.Automatic
import SerialMcp.Profile.Learning
import SerialMcp.Server.Close

namespace SerialMcp.ProfileTools

open Open ProfileStore
open Learning (Origin follows follows_iff)

/-! ## Profiles and bindings -/

/-- The stored profiles have different names, and revisions up to `R`. -/
structure Stored (R : ℕ) (ps : List Profile) : Prop where
  nodup : (ps.map Profile.name).Nodup
  revisions : ∀ p ∈ ps, p.metadata.revision ≤ R

/-- Every stored profile is stored still, at a later revision or with its settings. -/
def Kept (ps ps' : List Profile) : Prop :=
  ∀ n p, get ps n = some p → ∃ q, get ps' n = some q ∧ follows q p = true

/-- The profile of a binding is stored. Unless the binding is stale, it is at its revision
    or a later one, and at its revision it has the settings of the origin. -/
def Bound (ps : List Profile) (origin : Option Origin) (b : ActiveProfileBinding) : Prop :=
  b.persistent = true → ∃ p, get ps b.profileName = some p ∧
    (b.stale = false → ∃ r, b.revision = some r ∧ r ≤ p.metadata.revision ∧
      (p.metadata.revision = r → origin = some (.of p)))

section
variable {R now : ℕ} {io : Option String} {ps ps' ps'' : List Profile} {p q : Profile} {n : String}
  {b b' : ActiveProfileBinding} {o : Option Origin}
  {operation : ProfilePersistenceOperation} {result : ProfilePersistenceResult}
  {defaults : ProfileDefaults}

/-! ### Stored profiles -/

theorem Stored.mono {R' : ℕ} (h : Stored R ps) (hR : R ≤ R') : Stored R' ps :=
  ⟨h.nodup, fun p hp => (h.revisions p hp).trans hR⟩

theorem Stored.change (h : Stored R ps) (hchange : Change now ps ps') : Stored (R + 1) ps' := by
  refine ⟨hchange.nodup h.nodup, fun q hq => ?_⟩
  have hold : ∀ p ∈ ps, p.metadata.revision ≤ R + 1 := (h.mono (Nat.le_succ R)).revisions
  have hset : ∀ {i : ℕ} {q' : Profile}, q'.metadata.revision ≤ R + 1 → q ∈ ps.set i q' →
      q.metadata.revision ≤ R + 1 := by
    intro i q' hle hq
    rcases List.mem_or_eq_of_mem_set hq with hq | rfl
    · exact hold q hq
    · exact hle
  cases hchange with
  | same => exact hold q hq
  | creates hnew hrev =>
    rcases List.mem_append.1 hq with hq | hq
    · exact hold q hq
    · rw [List.mem_singleton.1 hq, hrev]
      exact Nat.le_add_left 1 R
  | uses hp hsel hdef hrev =>
    refine hset ?_ hq
    rw [hrev]
    exact hold _ (mem_of_get (get_of_lookup hp))
  | replaces hp hrev =>
    refine hset ?_ hq
    rw [hrev]
    exact (Nat.min_le_left _ _).trans
      (Nat.succ_le_succ (h.revisions _ (mem_of_get (get_of_lookup hp))))
  | deletes m => exact hold q (List.mem_of_mem_filter hq)

theorem follows_self (h : Origin.of q = .of p) (hrev : q.metadata.revision = p.metadata.revision) :
    follows q p = true :=
  follows_iff.2 (.inr ⟨hrev.symm, h⟩)

theorem Kept.refl (ps : List Profile) : Kept ps ps := fun _ p hp => ⟨p, hp, follows_self rfl rfl⟩

theorem Kept.trans (h : Kept ps ps') (h' : Kept ps' ps'') : Kept ps ps'' := by
  intro n p hp
  obtain ⟨q, hq, hqp⟩ := h n p hp
  obtain ⟨r, hr, hrq⟩ := h' n q hq
  refine ⟨r, hr, follows_iff.2 ?_⟩
  rcases follows_iff.1 hqp with hlt | ⟨heq, hof⟩ <;> rcases follows_iff.1 hrq with hlt' | ⟨heq', hof'⟩
  · exact .inl (hlt.trans hlt')
  · exact .inl (heq' ▸ hlt)
  · exact .inl (heq ▸ hlt')
  · exact .inr ⟨heq.trans heq', hof'.trans hof⟩

theorem Stored.kept {m : String} (h : Stored R ps) (hR : R + 1 < u64Size)
    (hchange : Change now ps ps')
    (hget : ∀ n, get ps' n = if n = m then some q else get ps n) : Kept ps ps' := by
  intro n p hp
  have hfate := hchange.fate n
  have hname := name_of_get hp
  have hstored : get ps' n ≠ none := by
    rw [hget]
    split_ifs
    · exact Option.some_ne_none _
    · rw [hp]
      exact Option.some_ne_none _
  rw [hp] at hfate
  generalize hq : get ps' n = o at hfate
  cases hfate with
  | same => exact ⟨p, rfl, follows_self rfl rfl⟩
  | @used _ q hsel hdef hrev =>
    refine ⟨q, rfl, follows_self ?_ hrev⟩
    rw [Origin.of, Origin.of, hsel, hdef, hname, name_of_get hq]
  | @replaced _ q hrev =>
    have hle := h.revisions p (mem_of_get hp)
    rw [saturatingAdd_eq (by omega)] at hrev
    exact ⟨q, rfl, follows_iff.2 (.inl (by omega))⟩
  | deleted => exact absurd hq hstored

/-- What an upsert stores, and that it replaces a profile only if it may. -/
theorem applyUpsert_get {incoming : Profile} {overwrite created : Bool}
    (h : applyUpsert ps incoming overwrite now = .ok (created, ps')) :
    (get ps incoming.name ≠ none → overwrite = true) ∧ ∃ q, q.selector = incoming.selector ∧
      q.defaults = incoming.defaults ∧
      ∀ n, get ps' n = if n = incoming.name then some q else get ps n := by
  unfold applyUpsert at h
  split at h
  · next i old hold =>
    split_ifs at h with hover
    cases h
    exact ⟨fun _ => hover, ⟨_, _, _, bumpMetadata old now, _⟩, rfl, rfl, fun n => get_set hold⟩
  · next hnone =>
    cases h
    exact ⟨fun hne => absurd (get_eq_none.2 hnone) hne, ⟨_, _, _, createMetadata now, _⟩, rfl,
      rfl, fun n => get_concat hnone⟩

theorem applyUpdateDefaults_get {overwrite : Bool} {reply : Bool × Profile}
    (h : applyUpdateDefaults ps n defaults overwrite now = .ok (reply, ps')) :
    (get ps n ≠ none → overwrite = true) ∧
      ∃ q, ∀ m, get ps' m = if m = n then some q else get ps m := by
  unfold applyUpdateDefaults at h
  split at h
  · next i old hold =>
    split_ifs at h with hover
    cases h
    exact ⟨fun _ => hover, ⟨_, _, _, _, _⟩, fun m => get_set hold⟩
  · next hnone =>
    cases h
    exact ⟨fun hne => absurd (get_eq_none.2 hnone) hne, ⟨_, _, _, _, _⟩,
      fun m => get_concat hnone⟩

theorem rollback_get {expected target : ℕ}
    (h : rollback ps n expected target now = .ok (q, ps')) :
    q.name = n ∧ ∀ m, get ps' m = if m = n then some q else get ps m := by
  obtain ⟨i, p, s, hp, -, -, rfl, rfl, -⟩ := rollback_eq_ok h
  exact ⟨rfl, fun m => get_set hp⟩

theorem bond_eq (h : b'.bond = b.bond) : b'.persistent = b.persistent ∧
    b'.profileName = b.profileName ∧ b'.revision = b.revision := by
  simpa [ActiveProfileBinding.bond] using h

theorem Bound.kept (h : Bound ps o b) (hkept : Kept ps ps') : Bound ps' o b := by
  intro hpers
  obtain ⟨p, hp, hexpects⟩ := h hpers
  obtain ⟨q, hq, hqp⟩ := hkept _ p hp
  refine ⟨q, hq, fun hstale => ?_⟩
  obtain ⟨r, hr, hle, horigin⟩ := hexpects hstale
  rcases follows_iff.1 hqp with hlt | ⟨heq, hof⟩
  · exact ⟨r, hr, by omega, fun h => by omega⟩
  · refine ⟨r, hr, heq ▸ hle, fun h => ?_⟩
    rw [horigin (heq.trans h), hof]

theorem Bound.congr (h : Bound ps o b) (hbond : b'.bond = b.bond)
    (hstale : b'.stale = false → b.stale = false) : Bound ps o b' := by
  obtain ⟨hpers, hname, hrev⟩ := bond_eq hbond
  intro hpers'
  obtain ⟨p, hp, hexpects⟩ := h (hpers ▸ hpers')
  exact ⟨p, hname ▸ hp, fun h => hrev ▸ hexpects (hstale h)⟩

/-! ### Learns -/

/-- **A learn** stores nothing, or gives the profile of the binding the settings, at the
    revision that the binding expects. -/
theorem learn_cases (h : Open.learn ps now io operation b defaults = (b', result, ps')) :
    (ps' = ps ∧ b'.bond = b.bond ∧ (b'.stale = false → b.stale = false) ∧
      result.state ≠ .persisted) ∨
    (b.persistent = true ∧ b.stale = false ∧ result.state = .persisted ∧ ∃ i p q,
      lookup ps q.name = some (i, p) ∧ q.name = b.profileName ∧
      p.metadata.revision = b.revision.getD 0 ∧ q.selector = p.selector ∧
      q.defaults = defaults ∧ q.metadata.revision = saturatingAdd p.metadata.revision 1 ∧
      q.revisions = pushRevision p now p.revisions ∧ ps' = ps.set i q ∧
      b'.profileName = q.name ∧ b'.stale = false ∧ b'.revision = some q.metadata.revision) := by
  unfold Open.learn at h
  split at h
  · next ends update hstart =>
    cases h
    refine .inl ⟨rfl, learnStart_ends hstart b, fun hstale => ?_, ?_⟩
    · unfold learnStart at hstart
      split at hstart
      · cases hstart
        exact hstale
      · next hb =>
        cases hb
        split_ifs at hstart with hpers hb
        · cases hstart
          exact hstale
        · cases hstart
          exact absurd hstale (by simp [hb])
    · unfold learnStart at hstart
      split at hstart
      · cases hstart
        exact nofun
      · split_ifs at hstart <;> cases hstart <;> exact nofun
  · next b₀ hstores =>
    obtain ⟨hb₀, hpers, hstale⟩ := learnStart_stores hstores
    cases hb₀
    rcases hstore : learnStore ps now io b defaults with ⟨e | ⟨found, _ | _⟩, next⟩
    · rw [hstore] at h
      cases h
      refine .inl ⟨runConditionalMutation_eq_error hstore, rfl, fun _ => hstale, nofun⟩
    · rw [hstore] at h
      cases h
      obtain ⟨-, stored, hupdate, rfl⟩ := runConditionalMutation_eq_ok hstore
      obtain ⟨i, p, -, -, ⟨-, -, rfl⟩ | ⟨-, hfalse, -⟩⟩ := updateLearnedDefaults_eq_ok hupdate
      · exact .inl ⟨rfl, rfl, fun _ => hstale, nofun⟩
      · cases hfalse
    · rw [hstore] at h
      cases h
      obtain ⟨-, stored, hupdate, rfl⟩ := runConditionalMutation_eq_ok hstore
      obtain ⟨i, p, hp, hrev, ⟨-, hfalse, -⟩ |
        ⟨-, -, hname, rfl, hsel, hdef, hmeta, hhist⟩⟩ := updateLearnedDefaults_eq_ok hupdate
      · cases hfalse
      · refine .inr ⟨hpers, hstale, rfl, i, p, found, hname ▸ hp, hname, hrev, hsel, hdef, ?_,
          hhist, rfl, hname.symm, rfl, rfl⟩
        rw [hmeta]
        rfl

/-- A learn binds its connection to no other profile, and a stale binding stays stale. -/
theorem learn_bond (h : Open.learn ps now io operation b defaults = (b', result, ps')) :
    b'.profileName = b.profileName ∧ (b'.persistent = true → b.persistent = true) ∧
      (b'.stale = false → b.stale = false) := by
  rcases learn_cases h with ⟨-, hbond, hstale, -⟩ |
    ⟨hpers, hstale, -, i, p, q, -, hname, -, -, -, -, -, -, hb', -, -⟩
  · obtain ⟨hpers, hname, -⟩ := bond_eq hbond
    exact ⟨hname, fun h => hpers ▸ h, hstale⟩
  · exact ⟨hb'.trans hname, fun _ => hpers, fun _ => hstale⟩

/-- A learn deletes nothing, and changes the settings of no other profile. -/
theorem learn_keeps (h : Open.learn ps now io operation b defaults = (b', result, ps'))
    (hs : Stored R ps) (hR : R + 1 < u64Size) :
    Stored (R + 1) ps' ∧ Kept ps ps' ∧ ∀ n, n ≠ b.profileName → get ps' n = get ps n := by
  rcases learn_cases h with ⟨rfl, -⟩ |
    ⟨-, -, -, i, p, q, hp, hname, -, -, -, hrev, hhist, rfl, -⟩
  · exact ⟨hs.mono (Nat.le_succ R), .refl _, fun _ _ => rfl⟩
  · have hchange : Change now ps (ps.set i q) := .replaces hp hrev hhist
    refine ⟨hs.change hchange, hs.kept hR hchange fun n => get_set hp, fun n hn => ?_⟩
    rw [get_set hp, if_neg (hname ▸ hn)]

/-- **A learn keeps its binding bound**, to the settings that it stores. -/
theorem learn_bound (h : Open.learn ps now io operation b defaults = (b', result, ps'))
    (hbound : Bound ps o b) : Bound ps'
      (if result.state = .persisted then (get ps' b.profileName).map .of else o) b' := by
  rcases learn_cases h with ⟨rfl, hbond, hstale, hstate⟩ |
    ⟨-, -, hstate, i, p, q, hp, hname, -, -, -, -, -, rfl, hb', -, hrev⟩
  · rw [if_neg hstate]
    exact hbound.congr hbond hstale
  · intro hpers
    have hget : get (ps.set i q) q.name = some q := by rw [get_set hp, if_pos rfl]
    rw [if_pos hstate, hb', ← hname, hget]
    exact ⟨q, rfl, fun _ => ⟨_, hrev, Nat.le_refl _, fun _ => rfl⟩⟩

/-- A learn that changes stored settings had started from them. -/
theorem learn_origin (h : Open.learn ps now io operation b defaults = (b', result, ps'))
    (hbound : Bound ps o b) (hp : get ps n = some p) :
    (∃ q, get ps' n = some q ∧ Origin.of q = .of p) ∨
      b.persistent = true ∧ b.stale = false ∧ b.profileName = n ∧ o = some (.of p) := by
  rcases learn_cases h with ⟨rfl, -⟩ |
    ⟨hpers, hstale, -, i, p', q, hlookup, hname, hrev, -, -, -, -, rfl, -⟩
  · exact .inl ⟨p, hp, rfl⟩
  · by_cases hn : n = b.profileName
    · subst hn
      obtain ⟨p₀, hp₀, hexpects⟩ := hbound hpers
      obtain ⟨r, hr, -, horigin⟩ := hexpects hstale
      have hp' : get ps b.profileName = some p' := hname ▸ get_of_lookup hlookup
      obtain rfl : p' = p := Option.some.inj (hp'.symm.trans hp)
      obtain rfl : p₀ = p' := Option.some.inj (hp₀.symm.trans hp)
      rw [hr] at hrev
      exact .inr ⟨hpers, hstale, rfl, horigin hrev⟩
    · refine .inl ⟨p, ?_, rfl⟩
      rw [get_set hlookup, if_neg (hname ▸ hn), hp]

/-! ### Opens -/

/-- A profile that is selected is stored. -/
theorem planSession_mem {glob : String → String → Bool} {mode : Option ProfileMode}
    {portInfo : Option PortInfo} {livePorts : List PortInfo} {fresh : Except String (List Profile)}
    (hfresh : ∀ ps', fresh = .ok ps' → ps' = ps)
    (h : planSession glob fresh mode portInfo livePorts = .ok (.selected p)) : p ∈ ps := by
  unfold planSession at h
  dsimp only at h
  split at h
  · cases h
  · split at h
    · cases h
    · split at h
      · cases h
      · split at h
        · cases h
        · split at h
          · cases h
          · next resolution hresolution =>
            split at h
            · next hselected =>
              cases h
              obtain ⟨ps', hps', hresolve⟩ := Except.bind_eq_ok hresolution
              obtain rfl := hfresh ps' hps'
              obtain ⟨_, -, hmem, -⟩ := resolveAutomatic_selected hresolve hselected
              exact List.mem_of_mem_filter hmem
            · split at h <;> cases h

/-- The profile that an open is planned with is the stored one of its name. -/
theorem plan_stored {env : Env} {h : Handler} {r : Request} {planned : Planned}
    (hr : ∀ profile args, r = .openProfile profile args → profile = get h.profiles args.profile)
    (hnodup : (h.profiles.map Profile.name).Nodup) (hplan : r.plan env h = .ok planned)
    (hp : planned.plan.profile = some p) : get h.profiles p.name = some p := by
  cases r with
  | «open» args =>
    obtain ⟨livePorts, -, hplan⟩ := Except.bind_eq_ok hplan
    obtain ⟨plan, hsession, hplan⟩ := Except.bind_eq_ok hplan
    cases hplan
    obtain rfl := planSession_profile hsession hp
    refine get_of_mem hnodup (planSession_mem (fun ps' hps' => ?_) hsession)
    split at hps' <;> cases hps'
    rfl
  | openProfile profile args =>
    have hprofile := hr profile args rfl
    simp only [Request.plan, planOpenProfile] at hplan
    split at hplan
    · cases hplan
    · next stored =>
      split at hplan
      · cases hplan
      · split at hplan
        · cases hplan
        · cases hplan
          cases hp
          rw [name_of_get hprofile.symm]
          exact hprofile.symm
        · cases hplan

/-- What an open does to the stored profiles before its learn: it marks one as used, adds
    one, or leaves them. -/
structure Attached (R : ℕ) (ps ps' : List Profile) (plan : SessionPlan)
    (b : ActiveProfileBinding) : Prop where
  stored : Stored (R + 1) ps'
  kept : Kept ps ps'
  stays : ∀ n p, get ps n = some p → ∃ q, get ps' n = some q ∧ Origin.of q = .of p
  bound : Bound ps' ((get ps' b.profileName).map .of) b
  /-- only settings that differ from those of a profile are dirty -/
  planned : b.dirty = true → ∃ p, plan.profile = some p ∧ p.name = b.profileName
  named : b.persistent = true → get ps b.profileName = none ∨
    ∃ p, plan.profile = some p ∧ p.name = b.profileName

theorem Attached.rests {plan : SessionPlan} (hs : Stored R ps)
    (hbound : Bound ps ((get ps b.profileName).map .of) b)
    (hplanned : b.dirty = true ∨ b.persistent = true →
      ∃ p, plan.profile = some p ∧ p.name = b.profileName) : Attached R ps ps plan b :=
  ⟨hs.mono (Nat.le_succ R), .refl ps, fun _ p hp => ⟨p, hp, rfl⟩, hbound,
    fun h => hplanned (.inl h), fun h => .inr (hplanned (.inr h))⟩

/-- A binding to a stored profile at its revision. -/
theorem bound_of_get {source : ProfileSelectionSource} {confidence : IdentityConfidence}
    {dirty : Bool} {e : Option String} (hp : get ps p.name = some q)
    (hrev : q.metadata.revision = p.metadata.revision) :
    Bound ps ((get ps p.name).map .of) (persistentBinding p source confidence dirty e) :=
  fun _ => ⟨q, hp, fun _ => ⟨_, rfl, Nat.le_of_eq hrev.symm, fun _ => by rw [hp]; rfl⟩⟩

theorem attached_of_markUsed {source : ProfileSelectionSource} {confidence : IdentityConfidence}
    {dirty : Bool} {plan : SessionPlan} (hs : Stored R ps) (hR : R + 1 < u64Size)
    (hplan : plan.profile = some p) (hp : get ps p.name = some p)
    (h : markUsedBinding ps now io p source confidence dirty = (b, ps')) :
    Attached R ps ps' plan b := by
  rcases markUsedBinding_cases h with
    ⟨-, i, old, used, hlookup, rfl, hname, hsel, hdef, hrev, rfl⟩ | ⟨-, rfl, e, rfl⟩
  · have hchange : Change now ps (ps.set i used) := by
      have hmark := markUsedBinding_change ps now io p source confidence dirty
      rw [h] at hmark
      exact hmark
    have hused : get (ps.set i used) used.name = some used := by rw [get_set hlookup, if_pos rfl]
    refine ⟨hs.change hchange, hs.kept hR hchange fun n => get_set hlookup, fun n p' hp' => ?_,
      bound_of_get hused rfl, fun _ => ⟨p, hplan, hname.symm⟩,
      fun _ => .inr ⟨p, hplan, hname.symm⟩⟩
    rw [get_set hlookup]
    split_ifs with hn
    · obtain rfl : old = p' := Option.some.inj ((get_of_lookup hlookup).symm.trans (hn ▸ hp'))
      refine ⟨used, rfl, ?_⟩
      rw [Origin.of, Origin.of, hsel, hdef, name_of_get hp', hn]
    · exact ⟨p', hp', rfl⟩
  · exact .rests hs (bound_of_get hp rfl) fun _ => ⟨p, hplan, rfl⟩

/-- **What an open attaches** to a connection. -/
theorem attached_of_attach {plan : SessionPlan} {portInfo : Option PortInfo}
    {dirty : Option Bool} (hs : Stored R ps) (hR : R + 1 < u64Size)
    (hplan : ∀ p, plan.profile = some p → get ps p.name = some p)
    (h : attachSessionBinding ps now io plan defaults portInfo dirty = (.ok b, ps')) :
    Attached R ps ps' plan b := by
  cases plan with
  | disabled confidence =>
    cases h
    exact .rests hs (fun h => by cases h) (by rintro (h | h) <;> cases h)
  | transient confidence candidates =>
    cases h
    exact .rests hs (fun h => by cases h) (by rintro (h | h) <;> cases h)
  | selected p =>
    cases h
    exact attached_of_markUsed hs hR rfl (hplan p rfl) rfl
  | explicit p =>
    cases h
    exact attached_of_markUsed hs hR rfl (hplan p rfl) rfl
  | generate =>
    simp only [attachSessionBinding] at h
    split at h
    · cases h
    · split at h
      · next created next hrun =>
        cases h
        obtain ⟨-, hcreate⟩ := runMutation_eq_ok hrun
        have hchange := createGenerated_change hcreate
        obtain ⟨rfl, -, -⟩ := createGenerated_eq_ok hcreate
        have hfree : lookup ps created.name = none := by
          unfold createGenerated at hcreate
          split at hcreate
          · cases hcreate
          · next hname =>
            cases hcreate
            exact allocateGeneratedName_free hname
        have hstays : ∀ n p, get ps n = some p → get (ps ++ [created]) n = some p := by
          intro n p hp
          rw [get_concat hfree, if_neg, hp]
          rintro rfl
          rw [get_eq_none.2 hfree] at hp
          cases hp
        have hnew : get (ps ++ [created]) created.name = some created := by
          rw [get_concat hfree, if_pos rfl]
        exact ⟨hs.change hchange, hs.kept hR hchange fun n => get_concat hfree,
          fun n p hp => ⟨p, hstays n p hp, rfl⟩, bound_of_get hnew rfl, (fun h => by cases h),
          fun _ => .inl (get_eq_none.2 hfree)⟩
      · next hrun =>
        cases h
        rw [runMutation_eq_error hrun]
        exact .rests hs (fun h => by cases h) (by rintro (h | h) <;> cases h)

/-- The binding of an open, behind the learn of settings that differ. -/
inductive Session (env : Env) (planned : Planned) (resolved : ResolvedOpenSettings)
    (dirty : Option Bool) (ps ps' : List Profile) (session : ActiveProfileBinding) : Prop
  | attached (h : attachSessionBinding ps env.now env.bindIo planned.plan
      resolved.asProfileDefaults planned.portInfo dirty = (.ok session, ps'))
  | learned {b : ActiveProfileBinding} {ps₁ : List Profile}
      {persistence : ProfilePersistenceResult}
      (h : attachSessionBinding ps env.now env.bindIo planned.plan
        resolved.asProfileDefaults planned.portInfo dirty = (.ok b, ps₁))
      (hdirty : b.dirty = true)
      (hlearn : Open.learn ps₁ env.now env.learnIo .openOverride b resolved.asProfileDefaults =
        (session, persistence, ps'))

/-- What an open does: it registers no connection, or one of the id that its opener gives,
    which gets a binding if the open succeeds. -/
inductive OpenEffect (env : Env) (planned : Planned) (h h' : Handler) : Prop
  | refused (hconnections : h'.registry.connections = h.registry.connections)
      (hprofiles : h'.profiles = h.profiles) (hbinding : h'.binding = h.binding)
  | registered {resolved : ResolvedOpenSettings} {dirty : Option Bool}
      {c : {c : Registry.SerialConnection //
        c.port = (resolved.intoConnectionConfig planned.portInfo).port}}
      (hsettings : openSettings env planned = .ok (resolved, dirty))
      (hopen : env.opener (resolved.intoConnectionConfig planned.portInfo) = .ok c)
      (hconnections : h'.registry.connections = h.registry.connections.insert c.1.id c.1)
      (hsession : h'.profiles = h.profiles ∧ h'.binding = h.binding ∨
        ∃ session, h'.binding = Function.update h.binding c.1.id (some session) ∧
          Session env planned resolved dirty h.profiles h'.profiles session)

theorem attachSessionBinding_error {plan : SessionPlan} {portInfo : Option PortInfo}
    {dirty : Option Bool} {e : String}
    (h : attachSessionBinding ps now io plan defaults portInfo dirty = (.error e, ps')) :
    ps' = ps := by
  obtain ⟨rfl, hnone⟩ := attachSessionBinding_eq_error h
  simp only [attachSessionBinding, hnone] at h
  cases h
  rfl

theorem openConnection_effect {env : Env} {planned : Planned} {h h' : Handler}
    {reply : Except String OpenResult} (hrun : openConnection env h planned = (reply, h')) :
    OpenEffect env planned h h' := by
  unfold openConnection at hrun
  split at hrun
  · cases hrun
    exact .refused rfl rfl rfl
  · next resolved dirty hsettings =>
    split at hrun
    · next hopen =>
      cases hrun
      obtain rfl := openPort_eq_error hopen
      exact .refused rfl rfl rfl
    · next id registry hopen =>
      obtain ⟨-, c, hc, rfl, rfl⟩ := openPort_eq_ok.1 hopen
      simp only [AList.lookup_insert] at hrun
      split at hrun
      · cases hrun
        exact .registered hsettings hc rfl (.inl ⟨rfl, rfl⟩)
      · unfold finishOpen at hrun
        split at hrun
        · next hattach =>
          cases hrun
          exact .registered hsettings hc rfl (.inl ⟨attachSessionBinding_error hattach, rfl⟩)
        · next b ps₁ hattach =>
          dsimp only at hrun hattach
          split_ifs at hrun with hdirty
          · cases hrun
            exact .registered hsettings hc rfl (.inr ⟨_, rfl, .learned hattach hdirty rfl⟩)
          · cases hrun
            exact .registered hsettings hc rfl (.inr ⟨_, rfl, .attached hattach⟩)

/-- **A session** keeps what is stored, binds its connection, and changes the settings of
    the planned profile only. -/
theorem Session.keeps {env : Env} {planned : Planned} {resolved : ResolvedOpenSettings}
    {dirty : Option Bool} (h : Session env planned resolved dirty ps ps' b) (hs : Stored R ps)
    (hR : R + 2 < u64Size)
    (hplan : ∀ p, planned.plan.profile = some p → get ps p.name = some p) :
    Stored (R + 2) ps' ∧ Kept ps ps' ∧ Bound ps' ((get ps' b.profileName).map .of) b ∧
      (b.persistent = true → get ps b.profileName = none ∨
        ∃ p, planned.plan.profile = some p ∧ p.name = b.profileName) ∧
      ∀ n p, get ps n = some p → (∃ q, get ps' n = some q ∧ Origin.of q = .of p) ∨
        planned.plan.profile = some p := by
  cases h with
  | attached h =>
    obtain ⟨hstored, hkept, hstays, hbound, -, hnamed⟩ := attached_of_attach hs (by omega) hplan h
    exact ⟨hstored.mono (Nat.le_succ _), hkept, hbound, hnamed, fun n p hp => .inl (hstays n p hp)⟩
  | @learned b₁ ps₁ persistence h hdirty hlearn =>
    obtain ⟨hstored, hkept, hstays, hbound, hplanned, hnamed⟩ :=
      attached_of_attach hs (by omega) hplan h
    obtain ⟨hstored', hkept', -⟩ := learn_keeps hlearn hstored (by omega)
    obtain ⟨hname, hpers, -⟩ := learn_bond hlearn
    refine ⟨hstored', hkept.trans hkept', ?_, fun h => ?_, fun n p hp => ?_⟩
    · have hbound' := learn_bound hlearn hbound
      rcases learn_cases hlearn with ⟨rfl, -⟩ | ⟨-, -, hstate, -⟩
      · rwa [ite_self, ← hname] at hbound'
      · rwa [if_pos hstate, ← hname] at hbound'
    · rw [hname]
      exact hnamed (hpers h)
    · obtain ⟨p₁, hp₁, hof⟩ := hstays n p hp
      rcases learn_origin hlearn hbound hp₁ with ⟨q, hq, hqp⟩ | ⟨-, -, hname, -⟩
      · exact .inl ⟨q, hq, hqp.trans hof⟩
      · obtain ⟨p₀, hp₀, hname₀⟩ := hplanned hdirty
        have hget := hplan p₀ hp₀
        rw [hname₀, hname, hp] at hget
        exact .inr (Option.some.inj hget ▸ hp₀)

end

end SerialMcp.ProfileTools
