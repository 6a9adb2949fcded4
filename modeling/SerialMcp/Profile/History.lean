/-
  The revision history of the profiles in a store.

  * `after`: the profiles after some mutations, from an empty store;
  * `versioned`: a profile as a value with a bounded history; what the mutations
    do to the profile of a name is a trace of it (`trace`);
  * `revision_history`: names are unique, every profile keeps the last revisions
    before its own, each as the profile was at that revision, and only a change
    of the settings raises the revision.
-/
import SerialMcp.Lib.Versions
import SerialMcp.Profile.Store

namespace SerialMcp.ProfileStore

open Versions

/-- A mutation, and the time at which it is made. -/
abbrev Call := Op × ℕ

/-- The profiles after some calls, from an empty store. -/
def after (calls : List Call) : List Profile :=
  calls.foldl (fun profiles call => (call.1.run profiles call.2).2) []

/-- The profile of a name, after each number of calls. -/
def timeline (calls : List Call) (name : String) (i : ℕ) : Option Profile :=
  get (after (calls.take i)) name

/-- A profile as a value with a history. -/
def versioned (p : Profile) : Versioned (ProfileSelector × ProfileDefaults) where
  current := ⟨p.metadata.revision, p.selector, p.defaults⟩
  kept := p.revisions.map fun s => ⟨s.revision, s.selector, s.defaults⟩

variable {calls : List Call} {ps : List Profile} {p q : Profile} {n : String} {i now : ℕ}

theorem after_concat (calls : List Call) (op : Op) (now : ℕ) :
    after (calls ++ [(op, now)]) = (op.run (after calls) now).2 := by
  rw [after, List.foldl_append]
  rfl

/-- A profile that is replaced takes the next version. -/
theorem versioned_replaced (hrev : q.metadata.revision = saturatingAdd p.metadata.revision 1)
    (hhist : q.revisions = pushRevision p now p.revisions)
    (hlt : p.metadata.revision + 1 < u64Size) :
    versioned q = (versioned p).replace maxProfileRevisions (q.selector, q.defaults) := by
  have hkept : (versioned q).kept =
      newest maxProfileRevisions ((versioned p).kept ++ [(versioned p).current]) := by
    simp only [versioned, hhist, pushRevision]
    rw [List.map_drop, newest, List.map_append, List.length_append, List.length_append,
      List.length_map]
    rfl
  rw [saturatingAdd_eq hlt] at hrev
  exact Versioned.ext (Version.ext hrev rfl) hkept

/-- What a mutation does to the profile of a name is a step of its history. -/
theorem Fate.step {o o' : Option Profile} (h : Fate now o o')
    (hlt : ∀ p ∈ o, p.metadata.revision + 1 < u64Size) :
    Step maxProfileRevisions (o.map versioned) (o'.map versioned) := by
  cases h with
  | same => exact .same
  | @created p hrev hhist =>
    have hnew : versioned p = ⟨⟨1, p.selector, p.defaults⟩, []⟩ := by
      simp only [versioned, hrev, hhist, List.map_nil]
    simp only [Option.map_none, Option.map_some, hnew]
    exact .create
  | @used p p' hsel hdef hrev hhist =>
    have hkeep : versioned p' = versioned p := by
      simp only [versioned, hsel, hdef, hrev, hhist]
    simp only [Option.map_some, hkeep]
    exact .same
  | @replaced p p' hrev hhist =>
    simp only [Option.map_some, versioned_replaced hrev hhist (hlt p rfl)]
    exact .replace
  | deleted => exact .delete

/-- **The calls are a trace of the history of every name**, as long as revisions
    do not overflow. -/
theorem trace (calls : List Call) (n : String) {k : ℕ} (hk : k ≤ calls.length)
    (hlt : k < u64Size) :
    Trace maxProfileRevisions (fun i => (timeline calls n i).map versioned) k := by
  induction k with
  | zero => exact ⟨rfl, fun i hi => absurd hi (Nat.not_lt_zero i)⟩
  | succ k ih =>
    have htrace := ih (Nat.le_of_succ_le hk) (Nat.lt_of_succ_lt hlt)
    refine ⟨htrace.init, fun i hi => ?_⟩
    rcases Nat.lt_or_eq_of_le (Nat.le_of_lt_succ hi) with hlt' | rfl
    · exact htrace.step i hlt'
    · have hafter : after (calls.take (i + 1)) =
          (calls[i].1.run (after (calls.take i)) calls[i].2).2 := by
        rw [List.take_add_one, List.getElem?_eq_getElem hk, Option.toList_some]
        exact after_concat _ _ _
      have hfate := (Op.run_change calls[i].1 (after (calls.take i)) calls[i].2).fate n
      rw [← hafter] at hfate
      refine hfate.step fun p hp => ?_
      have hle := (htrace.numbered (v := versioned p) (by simp [timeline, Option.mem_def.1 hp])).2
      exact Nat.lt_of_le_of_lt (Nat.succ_le_succ hle) hlt

theorem timeline_length (calls : List Call) (n : String) :
    timeline calls n calls.length = get (after calls) n := by
  rw [timeline, List.take_length]

theorem after_nodup (calls : List Call) : ((after calls).map Profile.name).Nodup := by
  induction calls using List.reverseRecOn with
  | nil => exact List.nodup_nil
  | append_singleton calls call ih =>
    rw [after_concat]
    exact (Op.run_change call.1 (after calls) call.2).nodup ih

theorem find?_of_nodup_map {β γ : Type} [DecidableEq γ] {f : β → γ} {l : List β} {x : β}
    (h : (l.map f).Nodup) (hx : x ∈ l) : l.find? (fun y => f y = f x) = some x := by
  obtain ⟨l, r, rfl⟩ := List.append_of_mem hx
  refine List.find?_eq_some_iff_append.2 ⟨decide_eq_true rfl, l, r, rfl, fun y hy => ?_⟩
  rw [List.map_append, List.map_cons, List.nodup_append] at h
  have hne := h.2.2 _ (List.mem_map_of_mem hy) _ List.mem_cons_self
  simpa using hne

theorem get_of_mem (hnodup : (ps.map Profile.name).Nodup) (hp : p ∈ ps) :
    get ps p.name = some p :=
  find?_of_nodup_map hnodup hp

/-! ## One call -/

/-- The calls that give an existing profile new settings, by their answers. -/
inductive Configures (name : String) : Op → Reply → Prop
  | upsert {profile : Profile} {overwrite : Bool} (hname : profile.name = name) :
      Configures name (.upsert profile overwrite) (.created false)
  | configure {defaults : ProfileDefaults} {overwrite : Bool} {effective : Profile} :
      Configures name (.updateDefaultsPreservingSelector name defaults overwrite)
        (.configured false effective)
  | learned {expected : ℕ} {defaults : ProfileDefaults} {update : LearnedUpdate}
      (hchanged : update.changed = true) :
      Configures name (.updateLearnedDefaults name expected defaults) (.learned update)
  | rollback {expected target : ℕ} {effective : Profile} :
      Configures name (.rollback name expected target) (.profile effective)

/-- Only the profile of a name is another one, and it has the name still. -/
structure Updates (ps ps' : List Profile) (name : String) (p p' : Profile) : Prop where
  before : get ps name = some p
  after : get ps' name = some p'
  others : ∀ m, m ≠ name → get ps' m = get ps m

/-- What a call does to revisions and histories. -/
structure Revises (ps : List Profile) (op : Op) (now : ℕ) : Prop where
  failed : ∀ e, (op.run ps now).1 = .error e → (op.run ps now).2 = ps
  used : ∀ name reply, op = .markUsed name → (op.run ps now).1 = .ok reply →
    ∃ p p', Updates ps (op.run ps now).2 name p p' ∧ p'.selector = p.selector ∧
      p'.defaults = p.defaults ∧ p'.metadata.revision = p.metadata.revision ∧
      p'.revisions = p.revisions
  notNeeded : ∀ update, (op.run ps now).1 = .ok (.learned update) → update.changed = false →
    (op.run ps now).2 = ps
  configured : ∀ name reply, (op.run ps now).1 = .ok reply → Configures name op reply →
    ∃ p p', Updates ps (op.run ps now).2 name p p' ∧
      p'.metadata.revision = p.metadata.revision + 1
  rolledBack : ∀ name expected p s, op = .rollback name expected s.revision →
    get ps name = some p → p.metadata.revision = expected → s ∈ p.revisions →
    ∃ p', (op.run ps now).1 = .ok (.profile p') ∧ Updates ps (op.run ps now).2 name p p' ∧
      p'.selector = s.selector ∧ p'.defaults = s.defaults ∧
      p'.metadata.revision = p.metadata.revision + 1

theorem Updates.of_set (hp : lookup ps q.name = some (i, p)) :
    Updates ps (ps.set i q) q.name p q where
  before := get_of_lookup hp
  after := by rw [get_set hp, if_pos rfl]
  others m hm := by rw [get_set hp, if_neg hm]

theorem lookup_of_get (h : get ps n = some p) : ∃ i, lookup ps n = some (i, p) := by
  rcases hp : lookup ps n with _ | ⟨i, p'⟩
  · rw [get_eq_none.2 hp] at h
    cases h
  · obtain rfl : p' = p := Option.some.inj ((get_of_lookup hp).symm.trans h)
    exact ⟨i, rfl⟩

theorem applyUpsert_replaces {incoming : Profile} {overwrite : Bool} {ps' : List Profile}
    (h : applyUpsert ps incoming overwrite now = .ok (false, ps')) :
    ∃ i p q, ps' = ps.set i q ∧ lookup ps q.name = some (i, p) ∧ q.name = incoming.name ∧
      q.metadata = bumpMetadata p now := by
  unfold applyUpsert at h
  split at h
  · next i p hp =>
    split_ifs at h
    cases h
    exact ⟨i, p, _, rfl, hp, rfl, rfl⟩
  · cases h

theorem applyUpdateDefaults_replaces {defaults : ProfileDefaults} {overwrite : Bool}
    {ps' : List Profile}
    (h : applyUpdateDefaults ps n defaults overwrite now = .ok ((false, q), ps')) :
    ∃ i p, lookup ps n = some (i, p) ∧ ps' = ps.set i q ∧ q.name = n ∧
      q.metadata = bumpMetadata p now := by
  unfold applyUpdateDefaults at h
  split at h
  · next i p hp =>
    split_ifs at h
    cases h
    exact ⟨i, p, hp, rfl, rfl, rfl⟩
  · cases h

/-- A call that gives a profile new settings puts one of the next revision into
    its place. -/
theorem Configures.sets {op : Op} {reply : Reply} {next : Option (List Profile)}
    (hconf : Configures n op reply) (h : op.apply ps now = .ok (reply, next)) :
    ∃ i p q, lookup ps q.name = some (i, p) ∧ next = some (ps.set i q) ∧ q.name = n ∧
      q.metadata = bumpMetadata p now := by
  cases hconf with
  | upsert hname =>
    rw [Op.apply] at h
    obtain ⟨created, ps', hop, hreply, rfl⟩ := stored_eq_ok h
    cases hreply
    obtain ⟨i, p, q, rfl, hp, hq, hmeta⟩ := applyUpsert_replaces hop
    exact ⟨i, p, q, hp, rfl, hq.trans hname, hmeta⟩
  | @configure defaults overwrite q =>
    rw [Op.apply] at h
    obtain ⟨⟨created, effective⟩, ps', hop, hreply, rfl⟩ := stored_eq_ok h
    cases hreply
    obtain ⟨i, p, hp, rfl, rfl, hmeta⟩ := applyUpdateDefaults_replaces hop
    exact ⟨i, p, q, hp, rfl, rfl, hmeta⟩
  | @learned expected defaults update hchanged =>
    rw [Op.apply] at h
    generalize hr : updateLearnedDefaults ps n expected defaults now = r at h
    rcases r with e | ⟨update', next'⟩ <;> cases h
    obtain ⟨i, p, hp, -, ⟨-, rfl, -⟩ | ⟨-, -, rfl, rfl, -, -, hmeta, -⟩⟩ :=
      updateLearnedDefaults_eq_ok hr
    · cases hchanged
    · exact ⟨i, p, _, hp, rfl, rfl, hmeta⟩
  | rollback =>
    rw [Op.apply] at h
    obtain ⟨q, ps', hop, -, rfl⟩ := stored_eq_ok h
    obtain ⟨i, p, s, hp, -, -, rfl, rfl, -, -, hmeta, -⟩ := rollback_eq_ok hop
    exact ⟨i, p, q, hp, rfl, rfl, hmeta⟩

/-- A rollback to a snapshot that is kept succeeds. -/
theorem rollback_of_mem {s : ProfileRevision} (now : ℕ) (hp : lookup ps n = some (i, p))
    (hs : p.revisions.find? (·.revision = s.revision) = some s) :
    ∃ q, rollback ps n p.metadata.revision s.revision now = .ok (q, ps.set i q) ∧ q.name = n ∧
      q.selector = s.selector ∧ q.defaults = s.defaults ∧ q.metadata = bumpMetadata p now := by
  obtain ⟨-, -, -, -, hname, -⟩ := lookup_eq_some hp
  simp only [rollback, hp, ne_eq, not_true_eq_false, if_false, hs]
  exact ⟨_, rfl, hname, rfl, rfl, rfl⟩

theorem Op.run_eq_ok {op : Op} {reply : Reply} (h : (op.run ps now).1 = .ok reply) :
    ∃ next, op.apply ps now = .ok (reply, next) ∧ (op.run ps now).2 = next.getD ps := by
  rcases hr : op.apply ps now with e | ⟨reply', next⟩
  · rw [Op.run_of_error hr] at h
    cases h
  · rw [Op.run_of_ok hr] at h ⊢
    cases h
    exact ⟨next, rfl, rfl⟩

theorem revisions_nodup (h : (versioned p).Numbered maxProfileRevisions) :
    (p.revisions.map ProfileRevision.revision).Nodup := by
  have hkept : (versioned p).kept.map Version.number =
      p.revisions.map ProfileRevision.revision := by
    rw [versioned, List.map_map]
    rfl
  rw [← hkept, h.kept]
  exact List.nodup_range'

/-- **One call**, on profiles with consistent histories whose revisions do not
    overflow. -/
theorem Op.revises (hps : ∀ n p, get ps n = some p →
      (versioned p).Numbered maxProfileRevisions ∧ p.metadata.revision + 1 < u64Size)
    (op : Op) (now : ℕ) : Revises ps op now where
  failed e he := by
    rcases hr : op.apply ps now with e' | ⟨reply, next⟩
    · rw [Op.run_of_error hr]
    · rw [Op.run_of_ok hr] at he
      cases he
  used name reply hop hok := by
    subst hop
    obtain ⟨next, happly, hrun⟩ := Op.run_eq_ok hok
    rw [Op.apply] at happly
    obtain ⟨q, ps', hop, -, rfl⟩ := stored_eq_ok happly
    obtain ⟨i, p, hp, rfl, rfl, hsame⟩ := markUsed_eq_ok hop
    rw [hrun]
    exact ⟨p, q, .of_set hp, hsame⟩
  notNeeded update hok hchanged := by
    obtain ⟨next, happly, hrun⟩ := Op.run_eq_ok hok
    rw [hrun]
    cases op with
    | updateLearnedDefaults n expected defaults =>
      rw [Op.apply] at happly
      generalize hr : ProfileStore.updateLearnedDefaults ps n expected defaults now = r at happly
      rcases r with e | ⟨update', next'⟩ <;> cases happly
      obtain ⟨i, p, -, -, ⟨-, -, rfl⟩ | ⟨-, htrue, -⟩⟩ := updateLearnedDefaults_eq_ok hr
      · rfl
      · rw [hchanged] at htrue
        cases htrue
    | upsert | updateDefaultsPreservingSelector | delete | createGenerated | markUsed | rollback =>
      rw [Op.apply] at happly
      obtain ⟨_, _, -, hreply, -⟩ := stored_eq_ok happly
      cases hreply
  configured name reply hok hconf := by
    obtain ⟨next, happly, hrun⟩ := Op.run_eq_ok hok
    obtain ⟨i, p, q, hp, rfl, rfl, hmeta⟩ := hconf.sets happly
    rw [hrun]
    refine ⟨p, q, .of_set hp, ?_⟩
    rw [hmeta, bumpMetadata, saturatingAdd_eq (hps _ p (get_of_lookup hp)).2]
  rolledBack name expected p s hop hp hrev hs := by
    subst hop hrev
    obtain ⟨hnum, hlt⟩ := hps name p hp
    obtain ⟨i, hlookup⟩ := lookup_of_get hp
    obtain ⟨q, hroll, rfl, hsel, hdef, hmeta⟩ :=
      rollback_of_mem now hlookup (find?_of_nodup_map (revisions_nodup hnum) hs)
    have happly : Op.apply ps now (.rollback q.name p.metadata.revision s.revision) =
        .ok (.profile q, some (ps.set i q)) := by
      rw [Op.apply, hroll]
      rfl
    rw [Op.run_of_ok happly]
    refine ⟨q, rfl, .of_set hlookup, hsel, hdef, ?_⟩
    rw [hmeta, bumpMetadata, saturatingAdd_eq hlt]

/-! ## All calls -/

theorem timeline_versioned (hp : timeline calls n i = some p) :
    (fun i => (timeline calls n i).map versioned) i = some (versioned p) := by
  simp only [hp, Option.map_some]

/-- The revisions of a profile, and those before it, count the calls. -/
theorem numbered (h : calls.length < u64Size) (hp : get (after calls) n = some p) :
    (versioned p).Numbered maxProfileRevisions ∧ p.metadata.revision ≤ calls.length := by
  rw [← timeline_length] at hp
  exact (trace calls n (Nat.le_refl _) h).numbered (timeline_versioned hp)

theorem life_iff {k : ℕ} : Life (fun i => (timeline calls n i).map versioned) i k ↔
    Life (timeline calls n) i k := by
  constructor <;> rintro ⟨hle, halive⟩ <;> refine ⟨hle, fun j hj hj' => ?_⟩
  · simpa using halive j hj hj'
  · simpa using halive j hj hj'

theorem mem_versioned {s : ProfileRevision} (hs : s ∈ p.revisions) :
    (⟨s.revision, s.selector, s.defaults⟩ : Version _) ∈
      (versioned p).current :: (versioned p).kept :=
  List.mem_cons_of_mem _ (List.mem_map.2 ⟨s, hs, rfl⟩)

/-- A snapshot of a profile is what the profile was at that revision. -/
theorem snapshot_faithful (h : calls.length < u64Size) (hp : get (after calls) n = some p)
    {s : ProfileRevision} (hs : s ∈ p.revisions) :
    (∃ i q, Life (timeline calls n) i calls.length ∧ timeline calls n i = some q ∧
      q.metadata.revision = s.revision) ∧
    ∀ i q, Life (timeline calls n) i calls.length → timeline calls n i = some q →
      q.metadata.revision = s.revision → s.selector = q.selector ∧ s.defaults = q.defaults := by
  have htrace := trace calls n (Nat.le_refl _) h
  rw [← timeline_length] at hp
  refine ⟨?_, fun i q hlife hq hrev => ?_⟩
  · obtain ⟨i, u, hlife, hu, hcur⟩ := htrace.complete (timeline_versioned hp) (mem_versioned hs)
    obtain ⟨q, hq, rfl⟩ := Option.map_eq_some_iff.1 hu
    exact ⟨i, q, life_iff.1 hlife, hq, congrArg Version.number hcur⟩
  · obtain ⟨-, hsound⟩ :=
      htrace.sound (timeline_versioned hp) (life_iff.2 hlife) (timeline_versioned hq)
    have hsame := congrArg Version.value (hsound _ (mem_versioned hs) hrev.symm)
    exact Prod.mk.inj hsame

/-- **The revision history of the store.**  Names are unique; every profile keeps
    the snapshots of the last revisions before its own, each of them what the
    profile was at that revision; every call treats revisions and histories as
    it should. -/
theorem revision_history (calls : List Call) (h : calls.length < u64Size) :
    ((after calls).map Profile.name).Nodup ∧
    (∀ p ∈ after calls,
      0 < p.metadata.revision ∧
      p.revisions.map ProfileRevision.revision =
        List.range' (p.metadata.revision - min (p.metadata.revision - 1) maxProfileRevisions)
          (min (p.metadata.revision - 1) maxProfileRevisions) ∧
      ∀ s ∈ p.revisions,
        (∃ i q, Life (timeline calls p.name) i calls.length ∧
          timeline calls p.name i = some q ∧ q.metadata.revision = s.revision) ∧
        ∀ i q, Life (timeline calls p.name) i calls.length →
          timeline calls p.name i = some q → q.metadata.revision = s.revision →
          s.selector = q.selector ∧ s.defaults = q.defaults) ∧
    ∀ older op now newer, calls = older ++ (op, now) :: newer → Revises (after older) op now := by
  refine ⟨after_nodup calls, fun p hp => ?_, fun older op now newer hcalls => ?_⟩
  · have hget := get_of_mem (after_nodup calls) hp
    obtain ⟨⟨hpos, hkept⟩, -⟩ := numbered h hget
    refine ⟨hpos, ?_, fun s hs => snapshot_faithful h hget hs⟩
    rw [versioned, List.map_map] at hkept
    exact hkept
  · have hlen : older.length + 1 ≤ calls.length := by
      rw [hcalls, List.length_append, List.length_cons]
      omega
    refine Op.revises (fun n p hp => ?_) op now
    have hlt : older.length < u64Size := by omega
    obtain ⟨hnum, hle⟩ := numbered hlt hp
    exact ⟨hnum, by omega⟩

/-- A profile that is replaced, rolled back, and rolled back to what it was
    before the rollback. -/
def rolledBackTwice : List Call :=
  let p : Profile := ⟨"dev-a", {}, {}, ⟨false, 0, none, none, none, 0⟩, []⟩
  [(.upsert p false, 10), (.updateDefaultsPreservingSelector "dev-a" { baudRate := 9600 } true, 20),
    (.markUsed "dev-a", 30), (.rollback "dev-a" 2 1, 40), (.rollback "dev-a" 3 2, 50),
    (.rollback "dev-a" 3 1, 60)]

theorem revision_history_rolledBackTwice :
    (after rolledBackTwice).map (fun p => (p.metadata.revision, p.defaults.baudRate)) =
      [(4, 9600)] ∧
    ((after rolledBackTwice).map Profile.name).Nodup ∧
    (∀ p ∈ after rolledBackTwice, 0 < p.metadata.revision) ∧
    ∀ older op now newer, rolledBackTwice = older ++ (op, now) :: newer →
      Revises (after older) op now := by
  obtain ⟨hnames, hprofiles, hcalls⟩ := revision_history rolledBackTwice (by decide)
  exact ⟨rfl, hnames, fun p hp => (hprofiles p hp).1, hcalls⟩

end SerialMcp.ProfileStore
