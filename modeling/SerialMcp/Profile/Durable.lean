/-
  Clean bindings (`learning.rs`): the learns of one connection under its learning
  lock, interleaved with `rollback_profile` and any other mutations of the store.

  A run begins with the binding of an open.  A learn holds the lock from its live
  mutation to the update of the binding; if it is dropped, the lock is free again,
  and its transaction may still be made.

  * `Receipt`: what a learn found, what its transaction did, and what it left;
  * `learnStore_durable`: the profile after a transaction that was successful;
  * `learns_durable`: in every run, a learn that leaves a clean binding has found or
    stored the effective settings at the revision of the binding, one that reports a
    failure has stored nothing, and a stale binding keeps it from the store.
-/
import SerialMcp.Profile.Learning

namespace SerialMcp.Durable

open Tasks ProfileStore
open Learning (markRolledBack)

/-! ## Learns -/

/-- A `learn` that has returned. -/
structure Receipt where
  /-- the binding it found -/
  entered : Option ActiveProfileBinding
  effective : ProfileDefaults
  /-- the profiles before and after its transaction -/
  transaction : Option (List Profile × List Profile)
  result : ProfilePersistenceResult
  /-- the binding right after it -/
  left : Option ActiveProfileBinding

structure World where
  profiles : List Profile
  binding : Option ActiveProfileBinding
  /-- whether the learning lock is taken -/
  learningLock : Bool
  returned : List Receipt

inductive Task where
  /-- a durable request, at the learning lock -/
  | waiting (operation : ProfilePersistenceOperation)
  /-- `learn`, with the lock -/
  | learning (operation : ProfilePersistenceOperation)
  /-- `learn`, waiting for the store -/
  | storing (operation : ProfilePersistenceOperation) (binding : ActiveProfileBinding)
      (effective : ProfileDefaults)
  /-- `learn` behind its transaction -/
  | learned (operation : ProfilePersistenceOperation) (binding : ActiveProfileBinding)
      (effective : ProfileDefaults) (before after : List Profile)
      (outcome : Except String LearnedUpdate)
  /-- the transaction of a `learn` that was dropped -/
  | orphan (binding : ActiveProfileBinding) (effective : ProfileDefaults)
  /-- a mutation of another request or process -/
  | mutation (op : Op)
  /-- `rollback_profile` of this process -/
  | rollingBack (profileName : String) (expectedRevision revision : ℕ)
  /-- `rollback_profile`, marking the connections -/
  | marking (profileName : String) (revision : ℕ)

inductive Input where
  | turn
  /-- the live mutation is made, and the settings are these -/
  | effective (defaults : ProfileDefaults)
  /-- a transaction of the store, and an I/O failure of it -/
  | store (now : ℕ) (io : Option String)
  | dropped

/-- One step of a task. -/
def Task.step : Task → Input → World → Option (World × List Task)
  | .waiting operation, .turn, w =>
    if w.learningLock then none else some ({ w with learningLock := true }, [.learning operation])
  | .learning operation, .effective effective, w => match learnStart operation w.binding with
    | .ends result update =>
      let left := w.binding.map update
      some ({ w with
        binding := left
        learningLock := false
        returned := w.returned ++ [⟨w.binding, effective, none, result, left⟩] }, [])
    | .stores binding => some (w, [.storing operation binding effective])
  | .storing operation binding effective, .store now io, w =>
    let (outcome, profiles) := learnStore w.profiles now io binding effective
    some ({ w with profiles },
      [.learned operation binding effective w.profiles profiles outcome])
  | .learned operation binding effective before after outcome, .turn, w =>
    let (result, update) := learnEnd operation binding outcome
    let left := w.binding.map update
    some ({ w with
      binding := left
      learningLock := false
      returned := w.returned ++
        [⟨some binding, effective, some (before, after), result, left⟩] }, [])
  | .orphan binding effective, .store now io, w =>
    some ({ w with profiles := (learnStore w.profiles now io binding effective).2 }, [])
  | .mutation op, .store now io, w =>
    some ({ w with
      profiles := (runConditionalMutation w.profiles io (op.apply w.profiles now)).2 }, [])
  | .rollingBack profileName expectedRevision revision, .store now io, w =>
    let op : Op := .rollback profileName expectedRevision revision
    match runConditionalMutation w.profiles io (op.apply w.profiles now) with
    | (.error _, profiles) => some ({ w with profiles }, [])
    | (.ok _, profiles) => some ({ w with profiles }, [.marking profileName revision])
  | .marking profileName revision, .turn, w =>
    some ({ w with binding := w.binding.map (markRolledBack profileName revision) }, [])
  | .learning _, .dropped, w | .learned _ _ _ _ _ _, .dropped, w =>
    some ({ w with learningLock := false }, [])
  | .storing _ binding effective, .dropped, w =>
    some ({ w with learningLock := false }, [.orphan binding effective])
  | .waiting _, .dropped, w | .orphan _ _, .dropped, w | .mutation _, .dropped, w
  | .rollingBack _ _ _, .dropped, w | .marking _ _, .dropped, w => some (w, [])
  | _, _, _ => none

/-- The requests that can come in. -/
def Task.starts : Task → Bool
  | .waiting _ | .mutation _ | .rollingBack _ _ _ => true
  | _ => false

abbrev Session := State World Task

/-- A connection with the binding of its open. -/
def Session.init (profiles : List Profile) (binding : ActiveProfileBinding) : Session :=
  ⟨{ profiles, binding := some binding, learningLock := false, returned := [] }, []⟩

/-- Every interleaving. -/
def AnyMove (_ : Session) : Move Task Input → Prop
  | .start t => t.starts
  | .run _ _ => True

/-! ## What a learn promises -/

/-- The stored settings are the effective ones, or equal to them. -/
def Represents (stored effective : ProfileDefaults) : Prop :=
  stored = effective ∨ (stored == effective) = true

/-- **A learn and its transaction.** -/
structure Receipt.Sound (r : Receipt) : Prop where
  /-- a clean binding: the settings are stored at its revision -/
  clean : ∀ b b', r.entered = some b → b.persistent = true → r.left = some b' →
    b'.dirty = false → b'.stale = false →
    ∃ before after p, r.transaction = some (before, after) ∧ get after b'.profileName = some p ∧
      b'.revision = some p.metadata.revision ∧ Represents p.defaults r.effective
  /-- a failure: nothing is stored -/
  failed : r.result.state = .failed → ∀ before after, r.transaction = some (before, after) →
    after = before
  /-- a stale binding: the store is not asked -/
  stale : ∀ b, r.entered = some b → b.stale = true → r.transaction = none

section
variable {operation : ProfilePersistenceOperation} {b b' : ActiveProfileBinding}
  {effective : ProfileDefaults} {before after : List Profile} {now : ℕ} {io : Option String}
  {outcome : Except String LearnedUpdate} {update : LearnedUpdate} {o : Option ActiveProfileBinding}

/-- **A transaction that is successful** leaves the profile with the settings; if it had
    them before, its revision stays the expected one. -/
theorem learnStore_durable (h : learnStore before now io b effective = (.ok update, after)) :
    get after b.profileName = some update.profile ∧
      Represents update.profile.defaults effective ∧
      (update.changed = false → update.profile.metadata.revision = b.revision.getD 0) := by
  obtain ⟨-, next, hupdate, rfl⟩ := runConditionalMutation_eq_ok h
  obtain ⟨i, p, hp, hrev, ⟨hsame, rfl, rfl⟩ | ⟨-, hchanged, hname, rfl, -, hdefaults, -, -⟩⟩ :=
    updateLearnedDefaults_eq_ok hupdate
  · exact ⟨get_of_lookup hp, .inr hsame, fun _ => hrev⟩
  · rw [← hname] at hp ⊢
    have hget : get (before.set i update.profile) update.profile.name = some update.profile := by
      rw [get_set hp, if_pos rfl]
    refine ⟨hget, .inl hdefaults, fun h => ?_⟩
    rw [hchanged] at h
    cases h

/-- A learn that does not get to the store. -/
theorem sound_of_ends {result : ProfilePersistenceResult}
    {update : ActiveProfileBinding → ActiveProfileBinding}
    (h : learnStart operation o = .ends result update) :
    (Receipt.mk o effective none result (o.map update)).Sound := by
  refine ⟨?_, fun _ before after h => (by cases h), fun _ _ _ => rfl⟩
  rintro b b' rfl hpers hleft hdirty -
  exfalso
  cases hleft
  simp only [learnStart, hpers, Bool.not_true, Bool.false_eq_true, if_false] at h
  split_ifs at h with hstale
  cases h
  cases hdirty

/-- A learn behind its transaction, when the binding is still at the revision that it
    found. -/
theorem sound_of_learned (hstale : b.stale = false)
    (hrev : b.revision.isSome) (hbond : o.map ActiveProfileBinding.bond = some b.bond)
    (hstore : learnStore before now io b effective = (outcome, after)) :
    (Receipt.mk (some b) effective (some (before, after)) (learnEnd operation b outcome).1
      (o.map (learnEnd operation b outcome).2)).Sound := by
  obtain ⟨current, rfl, hcurrent⟩ := Option.map_eq_some_iff.1 hbond
  obtain ⟨hcpers, hcname, hcrev⟩ : current.persistent = b.persistent ∧
      current.profileName = b.profileName ∧ current.revision = b.revision := by
    simpa [ActiveProfileBinding.bond] using hcurrent
  constructor
  · rintro b₀ b' hb₀ - hleft hdirty -
    cases hleft
    refine ⟨before, after, ?_⟩
    rcases outcome with e | ⟨p, changed⟩
    · cases hdirty
    · obtain ⟨hget, hsettings, hkept⟩ := learnStore_durable hstore
      refine ⟨p, rfl, ?_⟩
      rcases changed with _ | _
      · refine ⟨by rw [← hget, ← hcname]; rfl, ?_, hsettings⟩
        obtain ⟨r, hr⟩ := Option.isSome_iff_exists.1 hrev
        have hp := hkept rfl
        rw [hr] at hp
        change current.revision = _
        rw [hcrev, hr, hp]
        rfl
      · exact ⟨by rw [← hget, ← hcname]; rfl, rfl, hsettings⟩
  · rintro hfailed before' after' hsome
    cases hsome
    rcases outcome with e | ⟨p, _ | _⟩
    · exact runConditionalMutation_eq_error hstore
    · cases hfailed
    · cases hfailed
  · rintro b₀ hb₀ hstale'
    cases hb₀
    rw [hstale] at hstale'
    cases hstale'

end

/-! ## The learning lock -/

/-- Whether a task has the learning lock. -/
def Task.holds : Task → Unit → ℕ
  | .learning _, _ | .storing _ _ _, _ | .learned _ _ _ _ _ _, _ => 1
  | _, _ => 0

def World.booked (w : World) (_ : Unit) : ℕ := if w.learningLock then 1 else 0

/-- A learn finds the binding as it was, but for marks. -/
def Found (w : World) (b : ActiveProfileBinding) : Prop :=
  b.stale = false ∧ b.revision.isSome ∧
    w.binding.map ActiveProfileBinding.bond = some b.bond

/-- What holds of a task that is on its way. -/
def Task.Sound (w : World) : Task → Prop
  | .storing _ b _ => Found w b
  | .learned _ b effective before after outcome =>
    Found w b ∧ ∃ now io, learnStore before now io b effective = (outcome, after)
  | _ => True

/-- A persistent binding has a revision. -/
def HasRevision (o : Option ActiveProfileBinding) : Prop :=
  ∀ b, o = some b → b.persistent = true → b.revision.isSome

/-- What holds in every state. -/
structure Inv (s : Session) : Prop where
  revision : HasRevision s.world.binding
  lock : Covered Task.holds World.booked s
  tasks : ∀ t ∈ s.tasks, t.Sound s.world
  returned : ∀ r ∈ s.world.returned, r.Sound

/-- What a step of a task does to the lock, the binding and the receipts. -/
structure Steps (t : Task) (w w' : World) (new : List Task) : Prop where
  lock : w.booked () + heldBy Task.holds new () ≤ w'.booked () + t.holds ()
  bond : t.holds () = 1 ∨
    w'.binding.map ActiveProfileBinding.bond = w.binding.map ActiveProfileBinding.bond
  revision : HasRevision w'.binding
  tasks : ∀ t' ∈ new, t'.Sound w'
  returned : ∀ r ∈ w'.returned, r ∈ w.returned ∨ r.Sound

section
variable {w w' : World} {t : Task} {i : Input} {new : List Task} {s s' : Session}
  {o o' : Option ActiveProfileBinding}

theorem booked_le_one (w : World) : w.booked () ≤ 1 := by
  unfold World.booked
  split <;> simp

theorem HasRevision.congr (h : HasRevision o)
    (hbond : o'.map ActiveProfileBinding.bond = o.map ActiveProfileBinding.bond) :
    HasRevision o' := by
  rintro b rfl hpers
  obtain ⟨b₀, rfl, hb₀⟩ := Option.map_eq_some_iff.1 hbond.symm
  obtain ⟨hpers₀, -, hrev⟩ : b₀.persistent = b.persistent ∧ b₀.profileName = b.profileName ∧
      b₀.revision = b.revision := by
    simpa [ActiveProfileBinding.bond] using hb₀
  rw [← hrev]
  exact h b₀ rfl (hpers₀.trans hpers)

theorem map_bond {update : ActiveProfileBinding → ActiveProfileBinding}
    (h : ∀ b, (update b).bond = b.bond) :
    (o.map update).map ActiveProfileBinding.bond = o.map ActiveProfileBinding.bond := by
  rw [Option.map_map]
  exact Option.map_congr fun b _ => h b

theorem markRolledBack_bond (profileName : String) (revision : ℕ) (b : ActiveProfileBinding) :
    (markRolledBack profileName revision b).bond = b.bond := by
  unfold markRolledBack
  split_ifs <;> rfl

theorem HasRevision.learnEnd (h : HasRevision o) (operation : ProfilePersistenceOperation)
    (b : ActiveProfileBinding) (outcome : Except String LearnedUpdate) :
    HasRevision (o.map (learnEnd operation b outcome).2) := by
  rcases outcome with e | ⟨p, _ | _⟩
  · exact h.congr (map_bond fun _ => rfl)
  · exact h.congr (map_bond fun _ => rfl)
  · intro b' hb' _
    obtain ⟨b₀, -, rfl⟩ := Option.map_eq_some_iff.1 hb'
    rfl

namespace Steps

/-- A step that leaves the lock and the binding alone. -/
theorem aside (hw : HasRevision w.binding) (profiles : List Profile)
    (hnew : ∀ t' ∈ new, t'.holds () = 0 ∧ t'.Sound { w with profiles }) :
    Steps t w { w with profiles } new where
  lock := by
    rw [heldBy_eq_zero.2 fun t' ht' => (hnew t' ht').1]
    exact Nat.le_add_right _ _
  bond := .inr rfl
  revision := hw
  tasks t' ht' := (hnew t' ht').2
  returned r hr := .inl hr

/-- The task with the lock gives it back. -/
theorem unlocks (ht : t.holds () = 1) (hw : HasRevision o) {returned : List Receipt}
    (hnew : ∀ t' ∈ new, t'.holds () = 0 ∧ ∀ w', t'.Sound w')
    (hreturned : ∀ r ∈ returned, r ∈ w.returned ∨ r.Sound) :
    Steps t w { w with binding := o, learningLock := false, returned } new where
  lock := by
    have hle := booked_le_one w
    rw [heldBy_eq_zero.2 fun t' ht' => (hnew t' ht').1, ht]
    omega
  bond := .inl ht
  revision := hw
  tasks t' ht' := (hnew t' ht').2 _
  returned := hreturned

end Steps

theorem forall_mem_concat {returned : List Receipt} {r : Receipt} (h : r.Sound) :
    ∀ r' ∈ returned ++ [r], r' ∈ returned ∨ r'.Sound := by
  intro r' hr'
  rcases List.mem_append.1 hr' with hr' | hr'
  · exact .inl hr'
  · rw [List.mem_singleton.1 hr']
    exact .inr h

/-- **What a step does**: only the task with the learning lock changes more of the
    binding than marks. -/
theorem Task.step_steps (hw : HasRevision w.binding) (ht : t.Sound w)
    (hstep : t.step i w = some (w', new)) : Steps t w w' new := by
  have hstay : ∀ profiles, Steps t w { w with profiles } [] := fun profiles =>
    .aside hw profiles fun t' ht' => by cases ht'
  cases t with
  | waiting operation =>
    cases i with
    | turn =>
      simp only [Task.step] at hstep
      split_ifs at hstep with hlock
      cases hstep
      refine ⟨?_, .inr rfl, hw, List.forall_mem_singleton.2 trivial, fun r hr => .inl hr⟩
      simp [World.booked, hlock, Task.holds]
    | dropped =>
      cases hstep
      exact hstay _
    | effective | store => cases hstep
  | learning operation =>
    cases i with
    | effective effective =>
      simp only [Task.step] at hstep
      split at hstep
      · next result update hends =>
        cases hstep
        exact .unlocks rfl (hw.congr (map_bond (learnStart_ends hends))) (fun t ht => by cases ht)
          (forall_mem_concat (sound_of_ends hends))
      · next b hstores =>
        cases hstep
        obtain ⟨hb, hpers, hstale⟩ := learnStart_stores hstores
        refine ⟨Nat.le_refl _, .inl rfl, hw, List.forall_mem_singleton.2 ?_, fun r hr => .inl hr⟩
        exact ⟨hstale, hw b hb hpers, by rw [hb]; rfl⟩
    | dropped =>
      cases hstep
      exact .unlocks rfl hw (fun t ht => by cases ht) fun r hr => .inl hr
    | turn | store => cases hstep
  | storing operation b effective =>
    cases i with
    | store now io =>
      cases hstep
      refine ⟨Nat.le_refl _, .inl rfl, hw, List.forall_mem_singleton.2 ?_, fun r hr => .inl hr⟩
      exact ⟨ht, now, io, rfl⟩
    | dropped =>
      cases hstep
      refine .unlocks rfl hw (List.forall_mem_singleton.2 ⟨rfl, fun _ => trivial⟩) fun r hr => ?_
      exact .inl hr
    | turn | effective => cases hstep
  | learned operation b effective before after outcome =>
    cases i with
    | turn =>
      cases hstep
      obtain ⟨⟨hstale, hrev, hbond⟩, now, io, hstore⟩ := ht
      exact .unlocks rfl (hw.learnEnd operation b outcome) (fun t ht => by cases ht)
        (forall_mem_concat (sound_of_learned hstale hrev hbond hstore))
    | dropped =>
      cases hstep
      exact .unlocks rfl hw (fun t ht => by cases ht) fun r hr => .inl hr
    | effective | store => cases hstep
  | orphan b effective =>
    cases i with
    | store now io =>
      cases hstep
      exact hstay _
    | dropped =>
      cases hstep
      exact hstay _
    | turn | effective => cases hstep
  | mutation op =>
    cases i with
    | store now io =>
      cases hstep
      exact hstay _
    | dropped =>
      cases hstep
      exact hstay _
    | turn | effective => cases hstep
  | rollingBack profileName expectedRevision revision =>
    cases i with
    | store now io =>
      simp only [Task.step] at hstep
      split at hstep
      · cases hstep
        exact hstay _
      · cases hstep
        exact .aside hw _ (List.forall_mem_singleton.2 ⟨rfl, trivial⟩)
    | dropped =>
      cases hstep
      exact hstay _
    | turn | effective => cases hstep
  | marking profileName revision =>
    cases i with
    | turn =>
      cases hstep
      have hbond := map_bond (o := w.binding) (markRolledBack_bond profileName revision)
      exact ⟨Nat.le_refl _, .inr hbond, hw.congr hbond, fun t ht => (by cases ht),
        fun r hr => .inl hr⟩
    | dropped =>
      cases hstep
      exact hstay _
    | effective | store => cases hstep

theorem Task.Sound.mono (h : t.Sound w)
    (hbond : w'.binding.map ActiveProfileBinding.bond = w.binding.map ActiveProfileBinding.bond) :
    t.Sound w' := by
  cases t with
  | storing operation b effective => exact ⟨h.1, h.2.1, hbond.trans h.2.2⟩
  | learned operation b effective before after outcome =>
    exact ⟨⟨h.1.1, h.1.2.1, hbond.trans h.1.2.2⟩, h.2⟩
  | _ => trivial

theorem Task.sound_of_holds (h : t.holds () = 0) : t.Sound w := by
  cases t with
  | storing | learned => cases h
  | _ => trivial

theorem Inv.move {m : Move Task Input} (h : Inv s) (hm : AnyMove s m)
    (hmove : s.move Task.step m = some s') : Inv s' := by
  have hlock : Covered Task.holds World.booked s' := by
    refine h.lock.move (fun t ht k => ?_) (fun l t r i w new _ htasks hstep k => ?_) hmove
    · subst ht
      cases t <;> first | rfl | cases hm
    · exact (Task.step_steps h.revision (h.tasks t (by simp [htasks])) hstep).lock
  rcases move_cases hmove with ⟨t, rfl, rfl⟩ | ⟨l, t, r, i, w, new, rfl, htasks, hstep, rfl⟩
  · have ht : t.Sound s.world := Task.sound_of_holds (by cases t <;> first | rfl | cases hm)
    exact ⟨h.revision, hlock, List.forall_mem_append.2 ⟨h.tasks, List.forall_mem_singleton.2 ht⟩,
      h.returned⟩
  · have hsteps := Task.step_steps h.revision (h.tasks t (by simp [htasks])) hstep
    refine ⟨hsteps.revision, hlock, ?_, fun r hr => (hsteps.returned r hr).elim (h.returned r) id⟩
    refine forall_replaced htasks h.tasks (fun t' ht' hsound => ?_) hsteps.tasks
    rcases hsteps.bond with hholds | hbond
    · -- the others do not have the lock
      have halone := h.lock.alone (k := ()) htasks (by rw [hholds]; exact booked_le_one s.world)
      exact Task.sound_of_holds (halone t' ht')
    · exact hsound.mono hbond

end

section
variable {ps ps' : List Profile} {now : ℕ} {io : Option String} {plan : SessionPlan}
  {defaults : ProfileDefaults} {portInfo : Option PortInfo} {dirty : Option Bool}
  {b : ActiveProfileBinding} {s : Session}

theorem markUsedBinding_revision (ps : List Profile) (now : ℕ) (io : Option String) (p : Profile)
    (source : ProfileSelectionSource) (confidence : IdentityConfidence) (dirty : Bool) :
    HasRevision (some (markUsedBinding ps now io p source confidence dirty).1) := by
  rintro b hb -
  cases hb
  unfold markUsedBinding
  split <;> rfl

/-- The binding of an open has a revision if it is persistent. -/
theorem attachSessionBinding_revision
    (h : attachSessionBinding ps now io plan defaults portInfo dirty = (.ok b, ps')) :
    HasRevision (some b) := by
  cases plan with
  | disabled confidence =>
    cases h
    intro b' hb' hpers
    cases hb'
    cases hpers
  | transient confidence candidates =>
    cases h
    intro b' hb' hpers
    cases hb'
    cases hpers
  | selected p =>
    cases h
    exact markUsedBinding_revision ps now io p _ _ _
  | explicit p =>
    cases h
    exact markUsedBinding_revision ps now io p _ _ _
  | generate =>
    simp only [attachSessionBinding] at h
    split at h
    · cases h
    · split at h
      · cases h
        intro b' hb' _
        cases hb'
        rfl
      · cases h
        intro b' hb' hpers
        cases hb'
        cases hpers

/-- **A clean binding is durably represented**, in every run of a connection from the
    binding of its open on. -/
theorem learns_durable
    (hopen : attachSessionBinding ps now io plan defaults portInfo dirty = (.ok b, ps'))
    (h : Runs Task.step AnyMove (Session.init ps' b) s) :
    ∀ r ∈ s.world.returned, r.Sound := by
  have hinit : Inv (Session.init ps' b) :=
    ⟨attachSessionBinding_revision hopen, fun k => Nat.zero_le _, fun t ht => (by cases ht),
      fun r hr => (by cases hr)⟩
  exact (h.invariant (J := Inv) (fun hs hm hmove => hs.move hm hmove) hinit).returned

end

/-- A learn, and one whose transaction comes between the transaction of a rollback and
    its mark. -/
def learnAndRollBack : List (Move Task Input) :=
  [.start (.waiting .learned), .run 0 .turn, .run 0 (.effective { baudRate := 19200 }),
    .run 0 (.store 30 none), .run 0 .turn,
    .start (.waiting .closeSnapshot), .run 0 .turn, .start (.rollingBack "dev-a" 3 2),
    .run 1 (.store 40 none), .run 0 (.effective { baudRate := 300 }), .run 0 (.store 50 none),
    .run 0 .turn, .run 0 .turn]

theorem learns_durable_rolledBack : ∃ s b ps',
    attachSessionBinding [Learning.configured] 20 none (.explicit Learning.configured) {}
      (some Learning.board) (some false) = (.ok b, ps') ∧
    (Session.init ps' b).play Task.step learnAndRollBack = some s ∧
    (∀ r ∈ s.world.returned, r.Sound) ∧
    s.world.returned.map (·.result.state) = [.persisted, .failed] := by
  obtain ⟨s, b, ps', hopen, hplay, hstates⟩ : ∃ s b ps',
      attachSessionBinding [Learning.configured] 20 none (.explicit Learning.configured) {}
        (some Learning.board) (some false) = (.ok b, ps') ∧
      (Session.init ps' b).play Task.step learnAndRollBack = some s ∧
      s.world.returned.map (·.result.state) = [.persisted, .failed] :=
    ⟨_, _, _, rfl, rfl, rfl⟩
  have hmoves : ∀ m ∈ learnAndRollBack, AnyMove (Session.init ps' b) m := by
    simp [learnAndRollBack, AnyMove, Task.starts]
  have hruns := (Runs.of_play hmoves hplay).mono fun hm => hm
  exact ⟨s, b, ps', hopen, hplay, learns_durable hopen hruns, hstates⟩

end SerialMcp.Durable
