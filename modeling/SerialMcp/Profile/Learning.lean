/-
  Learned settings (`learning.rs`, `tools/port_ops.rs`): one connection from the
  plan of its open on, and any other requests and processes on the same store,
  interleaved at the transactions of the store and at the binding.

  A transaction may come long after the request for it, so a profile that is read
  from a cache is one that was read earlier.  The learning lock is left out: what
  holds without it holds with it.

  * `World.origin`: the stored settings the connection started from, or that its
    own last learn wrote;
  * `keepsLife_run`: what the others may do to the connection's profile;
  * `learns_own`: in a run in which the profile still has the planned settings when
    it is marked as used, and is not created anew while the connection is bound to
    it, a learn replaces no other settings;
  * `settings_overwritten`: otherwise it does.
-/
import SerialMcp.Lib.Tasks
import SerialMcp.Profile.Session

namespace SerialMcp.Learning

open Tasks ProfileStore

/-! ## A connection and its store -/

/-- The settings of a stored profile, under its name. -/
@[ext] structure Origin where
  name : String
  selector : ProfileSelector
  defaults : ProfileDefaults
  deriving DecidableEq, Repr

def Origin.of (p : Profile) : Origin := ⟨p.name, p.selector, p.defaults⟩

/-- How far the open of the connection is. -/
inductive Stage where
  | idle
  | planned
  | bound
  deriving DecidableEq, Repr

structure World where
  profiles : List Profile
  stage : Stage
  binding : Option ActiveProfileBinding
  /-- the stored settings the connection started from, or that its last learn wrote -/
  origin : Option Origin

/-- `open` with what it finds of the port, or `open_profile`. -/
inductive OpenRequest where
  | bare (profileMode : Option ProfileMode) (portInfo : Option PortInfo)
      (livePorts : List PortInfo)
  | named (profile : String) (portInfo : PortInfo)

inductive Task where
  /-- the connection's open, at its plan -/
  | planning (request : OpenRequest)
  /-- the open in the hardware -/
  | opening (plan : SessionPlan) (portInfo : Option PortInfo)
  /-- the open, waiting for the store -/
  | attaching (plan : SessionPlan) (portInfo : Option PortInfo) (defaults : ProfileDefaults)
      (dirty : Option Bool)
  /-- the open with its binding -/
  | attached (binding : ActiveProfileBinding)
  /-- `learn` of this connection, called by its open or by any other request -/
  | learning (operation : ProfilePersistenceOperation)
  /-- `learn`, waiting for the store -/
  | storing (operation : ProfilePersistenceOperation) (binding : ActiveProfileBinding)
      (defaults : ProfileDefaults)
  /-- `learn` with the result of its transaction -/
  | learned (operation : ProfilePersistenceOperation) (binding : ActiveProfileBinding)
      (result : Except String LearnedUpdate)
  /-- a mutation of another request or process -/
  | mutation (op : Op)
  /-- `rollback_profile` of this process -/
  | rollingBack (profileName : String) (expectedRevision revision : ℕ)
  /-- `rollback_profile`, marking the connections -/
  | marking (profileName : String) (revision : ℕ)

inductive Input where
  | turn
  /-- the hardware is open, with these settings, which may differ from the profile's -/
  | opened (defaults : ProfileDefaults) (dirty : Option Bool)
  /-- the effective settings of the connection -/
  | effective (defaults : ProfileDefaults)
  /-- a transaction of the store, and an I/O failure of it -/
  | store (now : ℕ) (io : Option String)
  | dropped

/-- The mark that `rollback_profile` leaves on a connection. -/
def markRolledBack (profileName : String) (revision : ℕ) (b : ActiveProfileBinding) :
    ActiveProfileBinding :=
  if b.persistent ∧ b.profileName = profileName then
    { b with
      stale := true
      dirty := true
      lastPersistenceError := some ("profile '" ++ profileName ++ "' rolled back to revision " ++
        toString revision ++ " by rollback_profile; connection stays on its live state until " ++
        "reopened") }
  else b

/-- The settings a connection starts from with a generated profile. -/
def generatedOrigin (profiles : List Profile) (binding : ActiveProfileBinding) : Option Origin :=
  if binding.persistent then (get profiles binding.profileName).map .of else none

section
variable (glob : String → String → Bool)

/-- One step of a task. -/
def Task.step : Task → Input → World → Option (World × List Task)
  | .planning (.bare profileMode portInfo livePorts), .store _ io, w =>
    if w.stage ≠ .idle then none
    else
      let fresh := match io with
        | some e => .error e
        | none => .ok w.profiles
      match planSession glob fresh profileMode portInfo livePorts with
      | .error _ => some (w, [])
      | .ok plan => some ({ w with stage := .planned, origin := plan.profile.map .of },
          [.opening plan portInfo])
  | .planning (.named profile portInfo), .turn, w =>
    if w.stage ≠ .idle then none
    else match get w.profiles profile with
      | none => some (w, [])
      | some p => some ({ w with stage := .planned, origin := some (.of p) },
          [.opening (.explicit p) (some portInfo)])
  | .opening plan portInfo, .opened defaults dirty, w =>
    some (w, [.attaching plan portInfo defaults dirty])
  | .attaching plan portInfo defaults dirty, .store now io, w =>
    if w.stage ≠ .planned then none
    else match attachSessionBinding w.profiles now io plan defaults portInfo dirty with
      | (.error _, profiles) => some ({ w with profiles, stage := .bound }, [])
      | (.ok binding, profiles) =>
        let origin := if plan = .generate then generatedOrigin profiles binding else w.origin
        some ({ w with profiles, stage := .bound, origin }, [.attached binding])
  | .attached binding, .turn, w =>
    some ({ w with binding := some binding }, if binding.dirty then [.learning .openOverride] else [])
  | .learning operation, .effective defaults, w => match learnStart operation w.binding with
    | .ends _ update => some ({ w with binding := w.binding.map update }, [])
    | .stores binding => some (w, [.storing operation binding defaults])
  | .storing operation binding defaults, .store now io, w =>
    match learnStore w.profiles now io binding defaults with
    | (.ok ⟨profile, true⟩, profiles) =>
      some ({ w with profiles, origin := some (.of profile) },
        [.learned operation binding (.ok ⟨profile, true⟩)])
    | (result, profiles) => some ({ w with profiles }, [.learned operation binding result])
  | .learned operation binding result, .turn, w =>
    some ({ w with binding := w.binding.map (learnEnd operation binding result).2 }, [])
  | .mutation op, .store now io, w =>
    some ({ w with
      profiles := (runConditionalMutation w.profiles io (op.apply w.profiles now)).2 }, [])
  | .rollingBack profileName expectedRevision revision, .store now io, w =>
    let op : Op := .rollback profileName expectedRevision revision
    match runConditionalMutation w.profiles io (op.apply w.profiles now) with
    | (.error _, profiles) => some ({ w with profiles }, [])
    | (.ok _, profiles) => some ({ w with profiles }, [.marking profileName revision])
  | .marking profileName revision, .turn, w =>
    some ({ w with binding := w.binding.map (markRolledBack profileName revision) }, [])
  | .opening _ _, .dropped, w | .attaching _ _ _ _, .dropped, w | .attached _, .dropped, w
  | .learning _, .dropped, w | .storing _ _ _, .dropped, w | .learned _ _ _, .dropped, w
  | .rollingBack _ _ _, .dropped, w | .marking _ _, .dropped, w => some (w, [])
  | _, _, _ => none

end

/-- The requests that can come in. -/
def Task.starts : Task → Bool
  | .planning _ | .learning _ | .mutation _ | .rollingBack _ _ _ => true
  | _ => false

abbrev Session := State World Task

/-- No connection yet, and a store with some profiles. -/
def Session.init (profiles : List Profile) : Session :=
  ⟨{ profiles, stage := .idle, binding := none, origin := none }, []⟩

/-- Every interleaving. -/
def AnyMove (_ : Session) : Move Task Input → Prop
  | .start t => t.starts
  | .run _ _ => True

/-! ## The condition -/

/-- A profile `q` is a later one than `p`, or has its revision and settings. -/
def follows (q p : Profile) : Bool :=
  p.metadata.revision < q.metadata.revision ||
    p.metadata.revision = q.metadata.revision && Origin.of q = .of p

/-- The profile of the connection is not created anew, and does not get other
    settings under its revision. -/
def keepsLife (w : World) (next : List Profile) : Bool :=
  w.stage ≠ .bound || w.origin.all fun o =>
    match get w.profiles o.name, get next o.name with
    | none, q => q.isNone
    | some p, q => q.all (follows · p)

/-- When the planned profile is marked as used, the stored one has its settings
    (or follows it, if the mark fails); the mutations of others keep the life of
    the connection's profile. -/
def careful : Task → Input → World → Bool
  | .attaching plan _ _ _, .store _ io, w => plan.profile.all fun p =>
    (get w.profiles p.name).all fun q => if io.isNone then Origin.of q = .of p else follows q p
  | .mutation op, .store now none, w => keepsLife w (op.run w.profiles now).2
  | .rollingBack profileName expectedRevision revision, .store now none, w =>
    keepsLife w ((Op.rollback profileName expectedRevision revision).run w.profiles now).2
  | _, _, _ => true

/-- A request that comes in, or a step under the condition. -/
def carefully (s : Session) : Move Task Input → Bool
  | .start t => t.starts
  | .run n i => s.tasks[n]?.all fun t => careful t i s.world

/-- A mutation of others keeps the life of a profile that is stored under a
    revision below the greatest one. -/
theorem keepsLife_run {w : World} (op : Op) (now : ℕ)
    (h : ∀ o, w.origin = some o → ∃ p, get w.profiles o.name = some p ∧
      p.metadata.revision + 1 < u64Size) :
    keepsLife w (op.run w.profiles now).2 = true := by
  rcases ho : w.origin with _ | o
  · simp [keepsLife, ho]
  · obtain ⟨p, hp, hlt⟩ := h o ho
    have hfate := (Op.run_change op w.profiles now).fate o.name
    have hname := name_of_get hp
    simp only [keepsLife, ho, Option.all_some, hp, Bool.or_eq_true]
    right
    rw [hp] at hfate
    generalize hq : get (op.run w.profiles now).2 o.name = q at hfate ⊢
    cases hfate with
    | same => simp [follows]
    | used hsel hdef hrev =>
      simp [follows, Origin.of, hsel, hdef, hrev, hname, name_of_get hq]
    | replaced hrev =>
      rw [saturatingAdd_eq hlt] at hrev
      simp [follows, hrev]
    | deleted => rfl

/-! ## What the connection expects -/

/-- The stored profile of a name has the settings of the origin if it is at a
    revision, and never comes to this revision with others. -/
def Upto (profiles : List Profile) (o : Origin) (e : ℕ) : Prop :=
  ∀ p, get profiles o.name = some p →
    e ≤ p.metadata.revision ∧ (p.metadata.revision = e → Origin.of p = o)

/-- A connection that is bound may expect a profile at a revision. -/
def Expects (w : World) (name : String) (e : ℕ) : Prop :=
  w.stage = .bound ∧ ∃ o, w.origin = some o ∧ o.name = name ∧ Upto w.profiles o e

/-- A binding expects its profile at its revision. -/
def Bonds (w : World) (b : ActiveProfileBinding) : Prop :=
  b.persistent = true → Expects w b.profileName (b.revision.getD 0)

/-- What holds of a task that is on its way. -/
def Task.Sound (w : World) : Task → Prop
  | .opening plan _ | .attaching plan _ _ _ =>
    w.stage ≠ .idle ∧ (w.stage = .planned → w.origin = plan.profile.map .of)
  | .attached b => Bonds w b
  | .storing _ b _ => b.persistent = true ∧ Bonds w b
  | .learned _ _ (.ok ⟨p, true⟩) => Expects w p.name p.metadata.revision
  | _ => True

/-- What the tasks rely on in a step of another one. -/
structure Keeps (w w' : World) : Prop where
  expects : ∀ {name e}, Expects w name e → Expects w' name e
  begun : w.stage ≠ .idle → w'.stage ≠ .idle
  planned : w.stage ≠ .idle → w'.stage = .planned →
    w.stage = .planned ∧ w'.origin = w.origin

variable {w w' : World} {o : Origin} {b b' : ActiveProfileBinding} {ps next : List Profile}
  {p q : Profile} {e : ℕ} {name : String}

theorem follows_iff : follows q p = true ↔ p.metadata.revision < q.metadata.revision ∨
    p.metadata.revision = q.metadata.revision ∧ Origin.of q = .of p := by
  simp only [follows, Bool.or_eq_true, Bool.and_eq_true, decide_eq_true_eq]

theorem Upto.follows (h : Upto ps o e) (hp : get ps o.name = some p)
    (hfollows : follows q p = true) :
    e ≤ q.metadata.revision ∧ (q.metadata.revision = e → Origin.of q = o) := by
  obtain ⟨hle, hsame⟩ := h p hp
  rcases follows_iff.1 hfollows with hlt | ⟨hrev, hof⟩
  · exact ⟨by omega, fun hq => by omega⟩
  · exact ⟨by omega, fun hq => hof.trans (hsame (hrev.trans hq))⟩

theorem Bonds.congr (h : Bonds w b) (hbond : b'.bond = b.bond) : Bonds w b' := by
  obtain ⟨hpers, hname, hrev⟩ : b'.persistent = b.persistent ∧ b'.profileName = b.profileName ∧
      b'.revision = b.revision := by
    simpa [ActiveProfileBinding.bond] using hbond
  rw [Bonds, hpers, hname, hrev]
  exact h

namespace Keeps

theorem mono (h : Keeps w w') {t : Task} (ht : t.Sound w) : t.Sound w' := by
  have hplan : ∀ {plan : SessionPlan},
      (w.stage ≠ .idle ∧ (w.stage = .planned → w.origin = plan.profile.map .of)) →
      (w'.stage ≠ .idle ∧ (w'.stage = .planned → w'.origin = plan.profile.map .of)) := by
    rintro plan ⟨hbegun, horigin⟩
    refine ⟨h.begun hbegun, fun hplanned => ?_⟩
    obtain ⟨hwas, hsame⟩ := h.planned hbegun hplanned
    rw [hsame, horigin hwas]
  unfold Task.Sound at ht ⊢
  split
  · exact hplan ht
  · exact hplan ht
  · exact fun hpers => h.expects (ht hpers)
  · exact ⟨ht.1, fun hpers => h.expects (ht.2 hpers)⟩
  · exact h.expects ht
  · trivial

theorem rests (binding : Option ActiveProfileBinding) : Keeps w { w with binding } where
  expects h := h
  begun h := h
  planned _ h := ⟨h, rfl⟩

theorem plans (h : w.stage = .idle) (origin : Option Origin) :
    Keeps w { w with stage := .planned, origin } where
  expects hexp := by
    rw [Expects, h] at hexp
    cases hexp.1
  begun hne := absurd h hne
  planned hne := absurd h hne

theorem binds (h : w.stage = .planned) (profiles : List Profile) (origin : Option Origin) :
    Keeps w { w with profiles, stage := .bound, origin } where
  expects hexp := by
    rw [Expects, h] at hexp
    cases hexp.1
  begun _ hidle := by cases hidle
  planned _ hplanned := by cases hplanned

/-- What the others store is not taken for what the connection expects. -/
theorem others (h : keepsLife w next = true) : Keeps w { w with profiles := next } where
  expects := by
    rintro name e ⟨hbound, o, ho, rfl, hupto⟩
    refine ⟨hbound, o, ho, rfl, fun q hq => ?_⟩
    simp only [keepsLife, hbound, ho, Option.all_some, ne_eq, not_true_eq_false, decide_false,
      Bool.false_or] at h
    rcases hp : get w.profiles o.name with _ | p
    · rw [hp] at h
      dsimp only at hq
      rw [hq] at h
      cases h
    · rw [hp] at h
      dsimp only at hq h
      rw [hq, Option.all_some] at h
      exact hupto.follows hp h
  begun hne := hne
  planned _ h := ⟨h, rfl⟩

/-- A learn of the connection replaces what it expects, and expects what it wrote. -/
theorem learns {i : ℕ} (hbound : w.stage = .bound) (hlt : p.metadata.revision < u64Size)
    (hp : lookup w.profiles q.name = some (i, p)) (ho : w.origin = some o)
    (hname : o.name = q.name) (hrev : q.metadata.revision = saturatingAdd p.metadata.revision 1) :
    Keeps w { w with profiles := w.profiles.set i q, origin := some (.of q) } where
  expects := by
    rintro name e ⟨-, o', ho', rfl, hupto⟩
    obtain rfl : o' = o := Option.some.inj (ho'.symm.trans ho)
    refine ⟨hbound, .of q, rfl, hname.symm, fun q' hq' => ?_⟩
    have hget : get (w.profiles.set i q) q.name = some q' := hq'
    rw [get_set hp, if_pos rfl] at hget
    cases hget
    have hle := (hupto p (by rw [hname]; exact get_of_lookup hp)).1
    refine ⟨?_, fun _ => rfl⟩
    rw [hrev, saturatingAdd]
    omega
  begun hne := hne
  planned _ h := by
    cases hbound.symm.trans h

end Keeps

/-! ## The steps -/

/-- The profile that is marked as used is the planned one, or follows it. -/
theorem bonds_of_markUsed {now : ℕ} {io : Option String} {source : ProfileSelectionSource}
    {confidence : IdentityConfidence} {dirty : Bool}
    (h : markUsedBinding w.profiles now io p source confidence dirty = (b, next))
    (hcare : (get w.profiles p.name).all
      fun q => if io.isNone then Origin.of q = .of p else follows q p)
    (ho : w.origin = some (.of p)) :
    Bonds { w with profiles := next, stage := .bound } b := by
  rintro -
  rcases markUsedBinding_cases h with ⟨rfl, i, old, used, hp, rfl, hname, hsel, hdef, hrev, rfl⟩ |
    ⟨hio, rfl, e, rfl⟩
  · have hold := get_of_lookup hp
    rw [hname] at hold
    rw [hold] at hcare
    have hsame : Origin.of old = .of p := by simpa using hcare
    refine ⟨rfl, .of p, ho, hname.symm, fun q hq => ?_⟩
    have hget : get (w.profiles.set i used) p.name = some q := hq
    rw [get_set hp, if_pos hname.symm] at hget
    cases hget
    refine ⟨Nat.le_refl _, fun _ => ?_⟩
    rw [← hsame]
    exact Origin.ext (hname.trans (name_of_get hold).symm) hsel hdef
  · refine ⟨rfl, .of p, ho, rfl, fun q hq => ?_⟩
    have hget : get w.profiles p.name = some q := hq
    rcases hio with hio | hnone
    · rw [hget, Option.all_some, if_neg (by simpa [Option.isSome_iff_ne_none] using hio)] at hcare
      rcases follows_iff.1 hcare with hlt | ⟨hrev, hof⟩
      · exact ⟨Nat.le_of_lt hlt, fun heq => by
          simp only [persistentBinding, Option.getD_some] at heq
          omega⟩
      · exact ⟨Nat.le_of_eq hrev, fun _ => hof⟩
    · rw [hnone] at hget
      cases hget

/-- The binding that is attached expects the settings the connection starts from. -/
theorem bonds_of_attach {plan : SessionPlan} {portInfo : Option PortInfo}
    {defaults : ProfileDefaults} {dirty : Option Bool} {now : ℕ} {io : Option String}
    (h : attachSessionBinding w.profiles now io plan defaults portInfo dirty = (.ok b, next))
    (hcare : careful (.attaching plan portInfo defaults dirty) (.store now io) w = true)
    (ho : w.origin = plan.profile.map .of) :
    Bonds { w with
      profiles := next, stage := .bound
      origin := if plan = .generate then generatedOrigin next b else w.origin } b := by
  unfold attachSessionBinding at h
  cases plan with
  | disabled confidence =>
    cases h
    rintro ⟨⟩
  | transient confidence candidates =>
    cases h
    rintro ⟨⟩
  | selected p =>
    cases h
    exact bonds_of_markUsed rfl hcare ho
  | explicit p =>
    cases h
    exact bonds_of_markUsed rfl hcare ho
  | generate =>
    rw [if_pos rfl]
    dsimp only at h
    split at h
    · cases h
    · next selector =>
      split at h
      · next created next' hrun =>
        cases h
        obtain ⟨-, hcreate⟩ := runMutation_eq_ok hrun
        have hget : get next created.name = some created := by
          unfold createGenerated at hcreate
          split at hcreate
          · cases hcreate
          · next name hname =>
            cases hcreate
            rw [get_concat (allocateGeneratedName_free hname), if_pos rfl]
        rintro -
        refine ⟨rfl, .of created, ?_, rfl, fun q hq => ?_⟩
        · simp [generatedOrigin, persistentBinding, hget]
        · cases hget.symm.trans hq
          exact ⟨Nat.le_refl _, fun _ => rfl⟩
      · cases h
        rintro ⟨⟩

/-- What holds of the world of a session. -/
structure World.Sound (w : World) : Prop where
  range : ∀ p ∈ w.profiles, p.metadata.revision < u64Size
  binding : ∀ b, w.binding = some b → Bonds w b

/-- What a step leaves. -/
structure Steps (w w' : World) (new : List Task) : Prop where
  keeps : Keeps w w'
  world : w'.Sound
  tasks : ∀ t ∈ new, t.Sound w'

theorem Steps.of_binding {binding : Option ActiveProfileBinding} {new : List Task}
    (hw : w.Sound) (hbinding : ∀ b, binding = some b → Bonds w b)
    (hnew : ∀ t ∈ new, t.Sound { w with binding }) : Steps w { w with binding } new :=
  ⟨.rests binding, ⟨hw.range, hbinding⟩, hnew⟩

theorem Steps.of_change {now : ℕ} {new : List Task} (hw : w.Sound) (hkeeps : Keeps w w')
    (hchange : Change now w.profiles w'.profiles) (hsame : w'.binding = w.binding)
    (hnew : ∀ t ∈ new, t.Sound w') : Steps w w' new where
  keeps := hkeeps
  world := ⟨hchange.lt_u64Size hw.range, fun b hb hpers =>
    hkeeps.expects (hw.binding b (hsame ▸ hb) hpers)⟩
  tasks := hnew

theorem World.Sound.map (hw : w.Sound) {update : ActiveProfileBinding → ActiveProfileBinding}
    (hupdate : ∀ b, (update b).bond = b.bond) :
    ∀ b, w.binding.map update = some b → Bonds w b := by
  intro b hb
  obtain ⟨b₀, hb₀, rfl⟩ := Option.map_eq_some_iff.1 hb
  exact (hw.binding b₀ hb₀).congr (hupdate b₀)

/-- The transaction of a learn. -/
theorem learnStore_steps {operation : ProfilePersistenceOperation} {defaults : ProfileDefaults}
    {now : ℕ} {io : Option String} {new : List Task} {glob : String → String → Bool}
    (hw : w.Sound) (ht : (Task.storing operation b defaults).Sound w)
    (hstep : Task.step glob (.storing operation b defaults) (.store now io) w = some (w', new)) :
    Steps w w' new := by
  have hchange := learnStore_change w.profiles now io b defaults
  simp only [Task.step] at hstep
  split at hstep
  · next profile profiles hstore =>
    cases hstep
    rw [hstore] at hchange
    obtain ⟨-, next, hupdate, rfl⟩ := runConditionalMutation_eq_ok hstore
    obtain ⟨i, p, hp, -, ⟨-, hfalse, -⟩ | ⟨-, -, hname, rfl, -, -, hmeta, -⟩⟩ :=
      updateLearnedDefaults_eq_ok hupdate
    · cases hfalse
    · obtain ⟨hbound, o, ho, honame, -⟩ := ht.2 ht.1
      dsimp only at hname hmeta
      have hrev : profile.metadata.revision = saturatingAdd p.metadata.revision 1 := by
        rw [hmeta]
        rfl
      rw [← hname] at hp
      have hkeeps := Keeps.learns hbound (hw.range p (mem_of_get (get_of_lookup hp))) hp ho
        (honame.trans hname.symm) hrev
      refine .of_change hw hkeeps hchange rfl (List.forall_mem_singleton.2 ?_)
      refine ⟨hbound, .of profile, rfl, rfl, fun q hq => ?_⟩
      have hget : get (w.profiles.set i profile) profile.name = some q := hq
      rw [get_set hp, if_pos rfl] at hget
      cases hget
      exact ⟨Nat.le_refl _, fun _ => rfl⟩
  · next result profiles hnot hstore =>
    cases hstep
    have hsame : profiles = w.profiles := by
      rcases result with e | ⟨profile, changed⟩
      · exact runConditionalMutation_eq_error hstore
      · obtain ⟨-, next, hupdate, rfl⟩ := runConditionalMutation_eq_ok hstore
        obtain ⟨i, p, -, -, ⟨-, -, rfl⟩ | ⟨-, rfl, -⟩⟩ := updateLearnedDefaults_eq_ok hupdate
        · rfl
        · exact absurd rfl (hnot profile)
    subst hsame
    refine .of_binding hw hw.binding (List.forall_mem_singleton.2 ?_)
    rcases result with e | ⟨profile, _ | _⟩
    · trivial
    · trivial
    · exact absurd rfl (hnot profile)

/-- The end of a learn keeps the bond of a binding, or moves it to the revision
    that was written. -/
theorem Task.learned_bonds {operation : ProfilePersistenceOperation}
    {result : Except String LearnedUpdate} (hw : w.Sound)
    (ht : (Task.learned operation b result).Sound w) :
    ∀ b', w.binding.map (learnEnd operation b result).2 = some b' → Bonds w b' := by
  rcases result with e | ⟨profile, _ | _⟩
  · exact hw.map fun _ => rfl
  · exact hw.map fun _ => rfl
  · intro b' hb'
    obtain ⟨b₀, hb₀, rfl⟩ := Option.map_eq_some_iff.1 hb'
    intro hpers
    obtain ⟨-, o, ho, hname, -⟩ := hw.binding b₀ hb₀ hpers
    obtain ⟨hbound, o', ho', hname', hupto⟩ := ht
    obtain rfl : o' = o := Option.some.inj (ho'.symm.trans ho)
    exact ⟨hbound, o', ho, hname, hupto⟩

/-- The transaction of another request. -/
theorem mutation_steps {op : Op} {now : ℕ} {io : Option String} {new : List Task} (hw : w.Sound)
    (hcare : io = none → keepsLife w (op.run w.profiles now).2 = true)
    (hnext : (runConditionalMutation w.profiles io (op.apply w.profiles now)).2 = next)
    (hnew : ∀ t ∈ new, t.Sound { w with profiles := next }) :
    Steps w { w with profiles := next } new := by
  subst hnext
  rcases io with _ | e
  · have hrun : (runConditionalMutation w.profiles none (op.apply w.profiles now)).2 =
        (op.run w.profiles now).2 := by
      rw [Op.run]
      rcases op.apply w.profiles now with e | ⟨reply, next⟩ <;> rfl
    rw [hrun] at hnew ⊢
    exact .of_change hw (.others (hcare rfl)) (Op.run_change op w.profiles now) rfl hnew
  · exact .of_binding hw hw.binding hnew

/-- **What a step under the condition does.** -/
theorem Task.step_steps {glob : String → String → Bool} {t : Task} {i : Input} {new : List Task}
    (hw : w.Sound) (ht : t.Sound w) (hcare : careful t i w = true)
    (hstep : Task.step glob t i w = some (w', new)) : Steps w w' new := by
  have hdrop : Steps w w [] := .of_binding hw hw.binding fun t ht => by cases ht
  cases t with
  | planning request =>
    cases request with
    | bare profileMode portInfo livePorts =>
      cases i with
      | store now io =>
        simp only [Task.step] at hstep
        split_ifs at hstep with hidle
        split at hstep
        · cases hstep
          exact hdrop
        · next plan hplan =>
          cases hstep
          have hkeeps := Keeps.plans (Decidable.not_not.1 hidle) (plan.profile.map .of)
          refine .of_change hw hkeeps (.same : Change now _ _) rfl (List.forall_mem_singleton.2 ?_)
          exact ⟨fun h => (by cases h), fun _ => rfl⟩
      | turn | opened | effective | dropped => cases hstep
    | named profile portInfo =>
      cases i with
      | turn =>
        simp only [Task.step] at hstep
        split_ifs at hstep with hidle
        split at hstep
        · cases hstep
          exact hdrop
        · next p hp =>
          cases hstep
          have hkeeps := Keeps.plans (Decidable.not_not.1 hidle) (some (.of p))
          refine .of_change hw hkeeps (.same : Change 0 _ _) rfl (List.forall_mem_singleton.2 ?_)
          exact ⟨fun h => (by cases h), fun _ => rfl⟩
      | store | opened | effective | dropped => cases hstep
  | opening plan portInfo =>
    cases i with
    | opened defaults dirty =>
      cases hstep
      refine .of_binding hw hw.binding (List.forall_mem_singleton.2 ?_)
      exact ht
    | dropped =>
      cases hstep
      exact hdrop
    | turn | store | effective => cases hstep
  | attaching plan portInfo defaults dirty =>
    cases i with
    | store now io =>
      have hchange := attachSessionBinding_change w.profiles now io plan defaults portInfo dirty
      simp only [Task.step] at hstep
      split at hstep
      · cases hstep
      have hplanned : w.stage = .planned := Decidable.not_not.1 ‹_›
      split at hstep
      · next e profiles hattach =>
        cases hstep
        rw [hattach] at hchange
        exact .of_change hw (.binds hplanned _ _) hchange rfl fun t ht => by cases ht
      · next binding profiles hattach =>
        cases hstep
        rw [hattach] at hchange
        refine .of_change hw (.binds hplanned _ _) hchange rfl (List.forall_mem_singleton.2 ?_)
        exact bonds_of_attach hattach hcare (ht.2 hplanned)
    | dropped =>
      cases hstep
      exact hdrop
    | turn | opened | effective => cases hstep
  | attached binding =>
    cases i with
    | turn =>
      simp only [Task.step] at hstep
      cases hstep
      refine .of_binding hw (fun b hb => ?_) fun t ht' => ?_
      · cases hb
        exact ht
      · split_ifs at ht'
        · rw [List.mem_singleton.1 ht']
          trivial
        · cases ht'
    | dropped =>
      cases hstep
      exact hdrop
    | store | opened | effective => cases hstep
  | learning operation =>
    cases i with
    | effective defaults =>
      simp only [Task.step] at hstep
      split at hstep
      · next result update hends =>
        cases hstep
        exact .of_binding hw (hw.map (learnStart_ends hends)) fun t ht => by cases ht
      · next binding hstores =>
        cases hstep
        obtain ⟨hbinding, hpers, -⟩ := learnStart_stores hstores
        refine .of_binding hw hw.binding (List.forall_mem_singleton.2 ?_)
        exact ⟨hpers, hw.binding binding hbinding⟩
    | dropped =>
      cases hstep
      exact hdrop
    | turn | store | opened => cases hstep
  | storing operation binding defaults =>
    cases i with
    | store now io => exact learnStore_steps hw ht hstep
    | dropped =>
      cases hstep
      exact hdrop
    | turn | opened | effective => cases hstep
  | learned operation binding result =>
    cases i with
    | turn =>
      simp only [Task.step] at hstep
      cases hstep
      exact .of_binding hw (Task.learned_bonds hw ht) fun t ht => by cases ht
    | dropped =>
      cases hstep
      exact hdrop
    | store | opened | effective => cases hstep
  | mutation op =>
    cases i with
    | store now io =>
      simp only [Task.step] at hstep
      cases hstep
      refine mutation_steps hw ?_ rfl fun t ht => by cases ht
      rintro rfl
      exact hcare
    | turn | opened | effective | dropped => cases hstep
  | rollingBack profileName expectedRevision revision =>
    cases i with
    | store now io =>
      simp only [Task.step] at hstep
      split at hstep
      · next e profiles hrun =>
        cases hstep
        obtain rfl := runConditionalMutation_eq_error hrun
        exact hdrop
      · next reply profiles hrun =>
        cases hstep
        have hnew : ∀ t ∈ [Task.marking profileName revision], t.Sound { w with profiles } := by
          intro t ht
          rw [List.mem_singleton.1 ht]
          trivial
        have hkeep : io = none → keepsLife w ((Op.rollback profileName expectedRevision
            revision).run w.profiles now).2 = true := by
          rintro rfl
          exact hcare
        exact mutation_steps hw hkeep (congrArg Prod.snd hrun) hnew
    | dropped =>
      cases hstep
      exact hdrop
    | turn | opened | effective => cases hstep
  | marking profileName revision =>
    cases i with
    | turn =>
      simp only [Task.step] at hstep
      cases hstep
      refine .of_binding hw (hw.map fun b => ?_) fun t ht => by cases ht
      unfold markRolledBack
      split_ifs <;> rfl
    | dropped =>
      cases hstep
      exact hdrop
    | store | opened | effective => cases hstep

/-! ## The runs -/

/-- What holds in every state of a run under the condition. -/
structure Inv (s : Session) : Prop where
  world : s.world.Sound
  tasks : ∀ t ∈ s.tasks, t.Sound s.world

theorem Inv.move {glob : String → String → Bool} {s s' : Session} {m : Move Task Input}
    (h : Inv s) (hm : carefully s m = true) (hmove : s.move (Task.step glob) m = some s') :
    Inv s' := by
  rcases move_cases hmove with ⟨t, rfl, rfl⟩ | ⟨l, t, r, i, w, new, rfl, htasks, hstep, rfl⟩
  · have ht : t.Sound s.world := by cases t <;> trivial
    exact ⟨h.world, List.forall_mem_append.2 ⟨h.tasks, List.forall_mem_singleton.2 ht⟩⟩
  · have ht : t ∈ s.tasks := by simp [htasks]
    have hcare : careful t i s.world = true := by
      simpa [carefully, htasks] using hm
    obtain ⟨hkeeps, hworld, hnew⟩ := Task.step_steps h.world (h.tasks t ht) hcare hstep
    exact ⟨hworld, forall_replaced htasks h.tasks (fun t' _ ht' => hkeeps.mono ht') hnew⟩

/-- Every learn whose transaction would change the store finds there the settings
    that the connection started from, or that its last learn wrote. -/
def LearnsOwn (s : Session) : Prop :=
  ∀ operation binding defaults now io, .storing operation binding defaults ∈ s.tasks →
    (learnStore s.world.profiles now io binding defaults).2 ≠ s.world.profiles →
    ∃ p, get s.world.profiles binding.profileName = some p ∧ s.world.origin = some (.of p)

/-- **A learn overwrites only what its connection started from**, or wrote, in
    every state of a run under the condition. -/
theorem learns_own {glob : String → String → Bool} {profiles : List Profile}
    (hprofiles : ∀ p ∈ profiles, p.metadata.revision < u64Size) {s : Session}
    (h : Runs (Task.step glob) (fun s m => carefully s m = true) (Session.init profiles) s) :
    LearnsOwn s := by
  intro operation binding defaults now io ht hchange
  have hinit : Inv (Session.init profiles) :=
    ⟨⟨hprofiles, fun b hb => by cases hb⟩, fun t ht => by cases ht⟩
  have hinv := h.invariant (J := Inv) (fun hs hm hmove => hs.move hm hmove) hinit
  obtain ⟨hpers, hbond⟩ := hinv.tasks _ ht
  obtain ⟨-, o, ho, hname, hupto⟩ := hbond hpers
  rcases hstore : learnStore s.world.profiles now io binding defaults with ⟨e | update, next⟩
  · rw [hstore] at hchange
    exact absurd (runConditionalMutation_eq_error hstore) hchange
  · obtain ⟨-, next', hupdate, -⟩ := runConditionalMutation_eq_ok hstore
    obtain ⟨i, p, hp, hrev, -⟩ := updateLearnedDefaults_eq_ok hupdate
    have hget := get_of_lookup hp
    refine ⟨p, hget, ?_⟩
    rw [ho, (hupto p (by rw [hname]; exact hget)).2 hrev]

/-! ### Runs with and without the condition -/

/-- A port, and no globs. -/
def board : PortInfo :=
  ⟨"/dev/ttyUSB0", "ttyUSB0", "board", none, .usb, some 0x1234, some 1, some "A", none, none, none⟩

def noGlob (_ _ : String) : Bool := false

/-- A profile that was configured once. -/
def configured : Profile where
  name := "dev-a"
  selector := {}
  defaults := { baudRate := 9600 }
  metadata := ⟨false, 2, some 1, some 2, none, 0⟩
  revisions := [⟨1, 2, {}, {}⟩]

/-- The open of the profile, from the hardware on. -/
def openRest : List (Move Task Input) :=
  [.run 0 (.opened { baudRate := 9600 } (some false)), .run 0 (.store 20 none), .run 0 .turn]

/-- A `close` of the connection. -/
def closeSnapshot : List (Move Task Input) :=
  [.start (.learning .closeSnapshot), .run 0 (.effective { baudRate := 9600 })]

/-- A `reconfigure` of the connection, and its close. -/
def openAndReconfigure : List (Move Task Input) :=
  [.start (.planning (.named "dev-a" board)), .run 0 .turn] ++ openRest ++
    [.start (.learning .learned), .run 0 (.effective { baudRate := 19200 }),
      .run 0 (.store 30 none), .run 0 .turn] ++ closeSnapshot

theorem learns_own_reconfigured : ∃ s,
    (Session.init [configured]).play (Task.step noGlob) openAndReconfigure = some s ∧
      LearnsOwn s ∧ s.tasks.length = 1 := by
  obtain ⟨s, hif, hplay, hlen⟩ : ∃ s,
      (Session.init [configured]).playIf (Task.step noGlob) carefully openAndReconfigure =
        some s ∧
      (Session.init [configured]).play (Task.step noGlob) openAndReconfigure = some s ∧
      s.tasks.length = 1 :=
    ⟨_, rfl, rfl, rfl⟩
  exact ⟨s, hplay, learns_own (by simp [configured, u64Size]) (.of_playIf (fun hm => hm) hif), hlen⟩

/-- Another process rolls the profile back while the hardware is opened. -/
def rollbackBetween : List (Move Task Input) :=
  [.start (.planning (.named "dev-a" board)), .run 0 .turn,
    .start (.mutation (.rollback "dev-a" 2 1)), .run 1 (.store 10 none)] ++ openRest ++
    closeSnapshot

/-- Another process deletes the profile after the open, and makes it anew. -/
def recreate : List (Move Task Input) :=
  [.start (.planning (.named "dev-a" board)), .run 0 .turn] ++ openRest ++
    [.start (.mutation (.delete "dev-a")), .run 0 (.store 30 none),
      .start (.mutation (.upsert { configured with defaults := { baudRate := 300 } } false)),
      .run 0 (.store 40 none),
      .start (.mutation (.upsert { configured with defaults := { baudRate := 600 } } true)),
      .run 0 (.store 50 none)] ++ closeSnapshot

/-- A learn that finds other settings. -/
theorem not_learnsOwn {s : Session} {operation : ProfilePersistenceOperation}
    {binding : ActiveProfileBinding} {defaults : ProfileDefaults} {now : ℕ} {io : Option String}
    (ht : .storing operation binding defaults ∈ s.tasks)
    (hchange : (learnStore s.world.profiles now io binding defaults).2 ≠ s.world.profiles)
    (hother : (get s.world.profiles binding.profileName).map Origin.of ≠ s.world.origin) :
    ¬ LearnsOwn s := by
  intro h
  obtain ⟨p, hp, ho⟩ := h operation binding defaults now io ht hchange
  rw [hp, ho] at hother
  exact hother rfl

/-- **Settings of others are overwritten**: those of a rollback before the profile
    is marked as used, and those of a profile that was created anew. -/
theorem settings_overwritten :
    (∃ s, Runs (Task.step noGlob) AnyMove (Session.init [configured]) s ∧
      (get s.world.profiles "dev-a").map (·.defaults.baudRate) = some 115200 ∧ ¬ LearnsOwn s) ∧
    ∃ s, Runs (Task.step noGlob) AnyMove (Session.init [configured]) s ∧
      (get s.world.profiles "dev-a").map (·.defaults.baudRate) = some 600 ∧ ¬ LearnsOwn s := by
  have hruns : ∀ {ms s}, (∀ m ∈ ms, AnyMove (Session.init [configured]) m) →
      (Session.init [configured]).play (Task.step noGlob) ms = some s →
      Runs (Task.step noGlob) AnyMove (Session.init [configured]) s :=
    fun hms hplay => (Runs.of_play hms hplay).mono fun hm => hm
  constructor
  · obtain ⟨s, b, hplay, htasks, hbaud, hchange, hother⟩ : ∃ s b,
        (Session.init [configured]).play (Task.step noGlob) rollbackBetween = some s ∧
        s.tasks = [.storing .closeSnapshot b { baudRate := 9600 }] ∧
        (get s.world.profiles "dev-a").map (·.defaults.baudRate) = some 115200 ∧
        (learnStore s.world.profiles 60 none b { baudRate := 9600 }).2 ≠ s.world.profiles ∧
        (get s.world.profiles b.profileName).map Origin.of ≠ s.world.origin :=
      ⟨_, _, rfl, rfl, rfl, by decide, by decide⟩
    have ht : .storing .closeSnapshot b { baudRate := 9600 } ∈ s.tasks := by
      rw [htasks]
      exact List.mem_singleton_self _
    refine ⟨s, hruns ?_ hplay, hbaud, not_learnsOwn ht hchange hother⟩
    simp [rollbackBetween, openRest, closeSnapshot, AnyMove, Task.starts]
  · obtain ⟨s, b, hplay, htasks, hbaud, hchange, hother⟩ : ∃ s b,
        (Session.init [configured]).play (Task.step noGlob) recreate = some s ∧
        s.tasks = [.storing .closeSnapshot b { baudRate := 9600 }] ∧
        (get s.world.profiles "dev-a").map (·.defaults.baudRate) = some 600 ∧
        (learnStore s.world.profiles 60 none b { baudRate := 9600 }).2 ≠ s.world.profiles ∧
        (get s.world.profiles b.profileName).map Origin.of ≠ s.world.origin :=
      ⟨_, _, rfl, rfl, rfl, by decide, by decide⟩
    have ht : .storing .closeSnapshot b { baudRate := 9600 } ∈ s.tasks := by
      rw [htasks]
      exact List.mem_singleton_self _
    refine ⟨s, hruns ?_ hplay, hbaud, not_learnsOwn ht hchange hother⟩
    simp [recreate, openRest, closeSnapshot, AnyMove, Task.starts]

end SerialMcp.Learning
