/-
  Which profiles an automatic open chooses from.

  * `Profile.Candidate`: the profiles that `resolve_automatic` ranks for a port;
  * `generated_follows_device`: the profile that is generated for a port is a
    candidate for exactly the ports with the same identity;
  * `stamps`: the times of last use by which candidates are ranked, and
    `StampsApart`: a call stamps no profile with the time of another one;
  * `unambiguous_iff`: as long as every call does so, and no longer, the ranking
    of used profiles is unambiguous.
-/
import SerialMcp.Profile.History
import SerialMcp.Profile.Preview

namespace SerialMcp

/-! ## Candidates -/

section
variable {glob : String → String → Bool} {p : Profile} {port target : PortInfo} {id : HighIdentity}

/-- The filter of `resolve_automatic`. -/
def Profile.Candidate (glob : String → String → Bool) (p : Profile) (port : PortInfo) : Prop :=
  ∃ id, highIdentity port = some id ∧ p.matchesPort glob port = true ∧
    selectorMatchesHighIdentity p.selector id = true

/-- A generated selector matches the ports with its identity, whatever their
    interface if it has none. -/
theorem matchesPort_canonical (hid : highIdentity port = some id)
    (hsel : canonicalHighSelector port = some p.selector) :
    p.matchesPort glob target = true ↔
      target.vid = some id.vid ∧ target.pid = some id.pid ∧
        target.serialNumber = some id.serialNumber ∧ agrees id.interface target.interface = true ∧
        target.transport.toString = id.transport := by
  simp only [canonicalHighSelector, hid, Option.map_some, Option.some.injEq] at hsel
  simp only [Profile.matchesPort, ← hsel, agrees, Option.isNone_some, Option.isNone_none,
    Bool.false_or, Bool.true_or, Option.all_none, Bool.and_true, Bool.and_eq_true,
    decide_eq_true_eq, Option.some.injEq]
  constructor
  · rintro ⟨⟨⟨⟨hv, hp⟩, hs⟩, hi⟩, ht⟩
    exact ⟨hv.symm, hp.symm, hs.symm, hi, ht.symm⟩
  · rintro ⟨hv, hp, hs, hi, ht⟩
    exact ⟨⟨⟨⟨hv.symm, hp.symm⟩, hs.symm⟩, hi⟩, ht.symm⟩

theorem matchesPort_identity (hid : highIdentity port = some id)
    (hsel : canonicalHighSelector port = some p.selector) (ht : highIdentity target = some id) :
    p.matchesPort glob target = true := by
  obtain ⟨husb, hv, hp, hs, -, htransport, hi⟩ := highIdentity_eq_some.1 ht
  refine (matchesPort_canonical hid hsel).2 ⟨hv, hp, hs, ?_, ?_⟩
  · rw [hi]
    simp [agrees]
  · rw [husb, htransport]
    rfl

/-- **Candidates have the identity**: the two tests treat an interface that is
    not given differently, and only together they are equality. -/
theorem candidate_canonical (hid : highIdentity port = some id)
    (hsel : canonicalHighSelector port = some p.selector) :
    p.Candidate glob target ↔ highIdentity target = some id := by
  constructor
  · rintro ⟨id', ht, hmatches, hselector⟩
    obtain ⟨hv, hp, hs, hi, htransport⟩ := (matchesPort_canonical hid hsel).1 hmatches
    obtain ⟨-, hv', hp', hs', -, htransport', hi'⟩ := highIdentity_eq_some.1 ht
    obtain ⟨-, -, -, -, -, husb, -⟩ := highIdentity_eq_some.1 hid
    simp only [canonicalHighSelector, hid, Option.map_some, Option.some.injEq] at hsel
    simp only [selectorMatchesHighIdentity, ← hsel, decide_eq_true_eq] at hselector
    obtain ⟨-, -, -, -, hiface⟩ := hselector
    have hinterface : id'.interface = id.interface := by
      rcases hsome : id'.interface with _ | iface
      · -- a selector with an interface matches no port without one
        rw [← hi', hsome] at hi
        rcases hnone : id.interface with _ | iface
        · rfl
        · rw [hnone] at hi
          cases hi
      · rw [hsome] at hiface
        exact (by simpa using hiface : id.interface = some iface).symm
    obtain ⟨transport, vid, pid, serial, interface⟩ := id
    obtain ⟨transport', vid', pid', serial', interface'⟩ := id'
    obtain rfl : vid' = vid := Option.some.inj (hv'.symm.trans hv)
    obtain rfl : pid' = pid := Option.some.inj (hp'.symm.trans hp)
    obtain rfl : serial' = serial := Option.some.inj (hs'.symm.trans hs)
    obtain rfl : interface' = interface := hinterface
    obtain rfl : transport' = transport := htransport'.trans husb.symm
    exact ht
  · intro ht
    refine ⟨id, ht, matchesPort_identity hid hsel ht, ?_⟩
    obtain ⟨id', hid', hmatches⟩ := canonicalHighSelector_matches hsel
    obtain rfl : id = id' := Option.some.inj (hid.symm.trans hid')
    exact hmatches

end

namespace ProfileStore

section
variable {ps ps' : List Profile} {p q : Profile} {now : ℕ} {n : String}

theorem createGenerated_eq_ok {label : String} {selector : ProfileSelector}
    {defaults : ProfileDefaults}
    (h : createGenerated ps label selector defaults now = .ok (p, ps')) :
    ps' = ps ++ [p] ∧ p.selector = selector ∧ p.metadata.lastUsedAtMs = some now := by
  unfold createGenerated at h
  split at h
  · cases h
  · cases h
    exact ⟨rfl, rfl, rfl⟩

/-- **A generated profile follows exactly its device.**  The profile that a bare
    open stores for a port with a high confidence is an automatic candidate for
    the ports with the same identity and no others, and it matches all of them,
    whatever their names and their other fields are. -/
theorem generated_follows_device {glob : String → String → Bool} {port : PortInfo}
    (hhigh : identityConfidence port = .high) {io : Option String} {defaults : ProfileDefaults}
    {dirty : Option Bool} {binding : ActiveProfileBinding}
    (hbind : attachSessionBinding ps now io .generate defaults (some port) dirty =
      (.ok binding, ps')) (hpersistent : binding.persistent = true) :
    ∃ p, ps' = ps ++ [p] ∧ p.name = binding.profileName ∧
      canonicalHighSelector port = some p.selector ∧
      (∀ target, p.Candidate glob target ↔ highIdentity target = highIdentity port) ∧
      ∀ target, highIdentity target = highIdentity port → p.matchesPort glob target = true := by
  obtain ⟨id, hid⟩ := Option.isSome_iff_exists.1 (identityConfidence_eq_high.1 hhigh)
  simp only [attachSessionBinding, Option.bind_some] at hbind
  split at hbind
  · cases hbind
  · next selector hselector =>
    split at hbind
    · next created next hrun =>
      cases hbind
      obtain ⟨-, hcreate⟩ := runMutation_eq_ok hrun
      obtain ⟨hps, hsel, -⟩ := createGenerated_eq_ok hcreate
      rw [← hsel] at hselector
      refine ⟨created, hps, rfl, hselector, fun target => ?_, fun target ht => ?_⟩
      · rw [hid]
        exact candidate_canonical hid hselector
      · exact matchesPort_identity hid hselector (ht.trans hid)
    · cases hbind
      cases hpersistent

/-- An adapter with a serial number and no interface. -/
def adapter : PortInfo where
  name := "/dev/ttyUSB0"
  displayName := "ttyUSB0"
  description := ""
  hardwareId := none
  transport := .usb
  vid := some 4292
  pid := some 60000
  serialNumber := some "0001"
  manufacturer := none
  product := none
  interface := none

theorem adapter_followed :
    ∃ binding ps', attachSessionBinding [] 10 none .generate {} (some adapter) none =
        (.ok binding, ps') ∧
      ∃ p, ps' = [] ++ [p] ∧ p.name = binding.profileName ∧
        canonicalHighSelector adapter = some p.selector ∧
        (∀ target, p.Candidate (fun _ _ => false) target ↔
          highIdentity target = highIdentity adapter) ∧
        ∀ target, highIdentity target = highIdentity adapter →
          p.matchesPort (fun _ _ => false) target = true := by
  have hhigh : identityConfidence adapter = .high := by decide
  obtain ⟨binding, ps', hbind, hpersistent⟩ :
      ∃ binding ps', attachSessionBinding [] 10 none .generate {} (some adapter) none =
        (.ok binding, ps') ∧ binding.persistent = true :=
    ⟨_, _, rfl, rfl⟩
  exact ⟨binding, ps', hbind, generated_follows_device hhigh hbind hpersistent⟩

/-! ## Times of last use -/

/-- The times of last use, of the profiles that were used. -/
def stamps (ps : List Profile) : List ℕ := ps.filterMap (·.metadata.lastUsedAtMs)

/-- `max_existing` -/
def maxStamp (ps : List Profile) : ℕ := ((stamps ps).max?).getD 0

theorem stamps_append (l r : List Profile) : stamps (l ++ r) = stamps l ++ stamps r :=
  List.filterMap_append ..

theorem mem_stamps {t : ℕ} : t ∈ stamps ps ↔ ∃ q ∈ ps, q.metadata.lastUsedAtMs = some t :=
  List.mem_filterMap

theorem le_maxStamp {t : ℕ} (h : t ∈ stamps ps) : t ≤ maxStamp ps := by
  rcases hmax : (stamps ps).max? with _ | m
  · rw [List.max?_eq_none_iff.1 hmax] at h
    cases h
  · rw [maxStamp, hmax]
    exact (List.max?_eq_some_iff.1 hmax).2 t h

theorem maxStamp_mem (h : maxStamp ps ≠ 0) : maxStamp ps ∈ stamps ps := by
  rcases hmax : (stamps ps).max? with _ | m
  · rw [maxStamp, hmax] at h
    exact absurd rfl h
  · rw [maxStamp, hmax]
    exact (List.max?_eq_some_iff.1 hmax).1

/-- A profile that is replaced by one last used at the same time. -/
theorem stamps_set {i : ℕ} (hp : lookup ps n = some (i, p))
    (hq : q.metadata.lastUsedAtMs = p.metadata.lastUsedAtMs) : stamps (ps.set i q) = stamps ps := by
  obtain ⟨l, r, rfl, rfl, -, -⟩ := lookup_eq_some hp
  have hset : (l ++ p :: r).set l.length q = l ++ q :: r := by simp
  rw [hset, stamps_append, stamps_append]
  simp only [stamps, List.filterMap_cons, hq]

theorem stamps_concat (hq : q.metadata.lastUsedAtMs = none) : stamps (ps ++ [q]) = stamps ps := by
  simp [stamps, hq]

/-- The calls that stamp a profile. -/
def Op.Stamps : Op → Prop
  | .createGenerated .. | .markUsed _ => True
  | _ => False

theorem stamps_of_other {op : Op} {reply : Reply} {next : Option (List Profile)}
    (hop : ¬ op.Stamps) (h : op.apply ps now = .ok (reply, next)) :
    (stamps (next.getD ps)).Sublist (stamps ps) := by
  cases op with
  | upsert profile overwrite =>
    rw [Op.apply] at h
    obtain ⟨_, ps', hrun, -, rfl⟩ := stored_eq_ok h
    unfold applyUpsert at hrun
    split at hrun
    · next i old hold =>
      split_ifs at hrun
      cases hrun
      rw [Option.getD_some, stamps_set hold (by rfl)]
    · cases hrun
      rw [Option.getD_some, stamps_concat (by rfl)]
  | updateDefaultsPreservingSelector name defaults overwrite =>
    rw [Op.apply] at h
    obtain ⟨_, ps', hrun, -, rfl⟩ := stored_eq_ok h
    unfold applyUpdateDefaults at hrun
    split at hrun
    · next i old hold =>
      split_ifs at hrun
      cases hrun
      rw [Option.getD_some, stamps_set hold (by rfl)]
    · cases hrun
      rw [Option.getD_some, stamps_concat (by rfl)]
  | delete name =>
    rw [Op.apply] at h
    obtain ⟨_, ps', hrun, -, rfl⟩ := stored_eq_ok h
    unfold applyDelete at hrun
    dsimp only at hrun
    split_ifs at hrun
    cases hrun
    exact List.filter_sublist.filterMap _
  | createGenerated label selector defaults => exact absurd trivial hop
  | markUsed name => exact absurd trivial hop
  | updateLearnedDefaults name expected defaults =>
    rw [Op.apply] at h
    generalize hr : ProfileStore.updateLearnedDefaults ps name expected defaults now = r at h
    rcases r with e | ⟨update, next'⟩ <;> cases h
    obtain ⟨i, p, hp, -, ⟨-, -, rfl⟩ | ⟨-, -, rfl, rfl, -, -, hmeta, -⟩⟩ :=
      updateLearnedDefaults_eq_ok hr
    · exact List.Sublist.refl _
    · rw [Option.getD_some, stamps_set hp (by rw [hmeta]; rfl)]
  | rollback name expected target =>
    rw [Op.apply] at h
    obtain ⟨_, ps', hrun, -, rfl⟩ := stored_eq_ok h
    obtain ⟨i, p, s, hp, -, -, rfl, rfl, -, -, hmeta, -⟩ := rollback_eq_ok hrun
    rw [Option.getD_some, stamps_set hp (by rw [hmeta]; rfl)]

/-- What a call does to the times of last use. -/
inductive Stamped (now : ℕ) (ps : List Profile) : Op → List Profile → Prop
  | keeps {op : Op} {ps' : List Profile} (hop : ¬ op.Stamps)
      (hsub : (stamps ps').Sublist (stamps ps)) : Stamped now ps op ps'
  | full {label : String} {selector : ProfileSelector} {defaults : ProfileDefaults}
      (hname : allocateGeneratedName ps ("auto-" ++ normalizeGeneratedLabel label) = none) :
      Stamped now ps (.createGenerated label selector defaults) ps
  | generates {label : String} {selector : ProfileSelector} {defaults : ProfileDefaults}
      {ps' : List Profile}
      (hname : allocateGeneratedName ps ("auto-" ++ normalizeGeneratedLabel label) ≠ none)
      (hnow : stamps ps' = stamps ps ++ [now]) :
      Stamped now ps (.createGenerated label selector defaults) ps'
  | missing {name : String} (hnone : get ps name = none) : Stamped now ps (.markUsed name) ps
  | uses {l r : List Profile} {p q : Profile} (hps : ps = l ++ p :: r)
      (hget : get ps p.name = some p)
      (hq : q.metadata.lastUsedAtMs = some (max now (saturatingAdd (maxStamp ps) 1))) :
      Stamped now ps (.markUsed p.name) (l ++ q :: r)

theorem Op.run_stamped (op : Op) (ps : List Profile) (now : ℕ) :
    Stamped now ps op (op.run ps now).2 := by
  cases op with
  | createGenerated label selector defaults =>
    rcases hname : allocateGeneratedName ps ("auto-" ++ normalizeGeneratedLabel label) with _ | name
    · rw [Op.run, Op.apply, ProfileStore.createGenerated, hname]
      exact .full hname
    · refine .generates (by simp [hname]) ?_
      rw [Op.run, Op.apply, ProfileStore.createGenerated, hname]
      simp [stored, Except.map, stamps]
  | markUsed name =>
    rcases hp : lookup ps name with _ | ⟨i, p⟩
    · rw [Op.run, Op.apply, ProfileStore.markUsed, hp]
      exact .missing (get_eq_none.2 hp)
    · have hget := get_of_lookup hp
      obtain ⟨l, r, rfl, rfl, rfl, -⟩ := lookup_eq_some hp
      rw [Op.run, Op.apply, ProfileStore.markUsed, hp]
      simp only [stored, Except.map, Option.getD_some]
      have hset (q : Profile) : (l ++ p :: r).set l.length q = l ++ q :: r := by simp
      rw [hset]
      exact .uses rfl hget rfl
  | upsert | updateDefaultsPreservingSelector | delete | updateLearnedDefaults | rollback =>
    refine .keeps (by simp [Op.Stamps]) ?_
    rw [Op.run]
    split
    · next h => exact stamps_of_other (by simp [Op.Stamps]) h
    · exact List.Sublist.refl _

/-! ## Calls that leave no tie -/

/-- A call gives no profile the time of another one: a profile is generated at a
    time at which none was used, and it is not the largest time that is taken
    when a profile is used. -/
def StampsApart (ps : List Profile) (now : ℕ) : Op → Prop
  | .createGenerated label _ _ =>
    allocateGeneratedName ps ("auto-" ++ normalizeGeneratedLabel label) ≠ none → now ∉ stamps ps
  | .markUsed name =>
    get ps name ≠ none →
      ∀ q ∈ ps, q.name ≠ name → q.metadata.lastUsedAtMs ≠ some (u64Size - 1)
  | _ => True

/-- The new time is `max (now, max_existing + 1)`, up to the largest one. -/
theorem freshStamp_mem (hps : ∀ t ∈ stamps ps, t < u64Size) (hnow : now < u64Size) {t : ℕ}
    (ht : t ∈ stamps ps) :
    max now (saturatingAdd (maxStamp ps) 1) = t ↔ t = u64Size - 1 := by
  have hle := le_maxStamp ht
  have hlt := hps t ht
  have hmax : maxStamp ps < u64Size := by
    rcases Nat.eq_zero_or_pos (maxStamp ps) with hzero | hpos
    · omega
    · exact hps _ (maxStamp_mem (Nat.ne_of_gt hpos))
  unfold saturatingAdd
  omega

/-- With unique names, the times of the profiles beside one are those of the
    profiles of other names. -/
theorem mem_stamps_other {l r : List Profile} {t : ℕ}
    (hnames : ((l ++ p :: r).map Profile.name).Nodup) :
    t ∈ stamps (l ++ r) ↔
      ∃ q ∈ l ++ p :: r, q.name ≠ p.name ∧ q.metadata.lastUsedAtMs = some t := by
  rw [List.map_append, List.map_cons] at hnames
  have hne := (List.nodup_middle.1 hnames).notMem
  rw [← List.map_append] at hne
  rw [mem_stamps]
  constructor
  · rintro ⟨q, hq, ht⟩
    refine ⟨q, ?_, fun hname => hne (hname ▸ List.mem_map_of_mem hq), ht⟩
    exact List.mem_append.2 ((List.mem_append.1 hq).imp_right (List.mem_cons_of_mem p))
  · rintro ⟨q, hq, hname, ht⟩
    refine ⟨q, ?_, ht⟩
    rcases List.mem_append.1 hq with hq | hq
    · exact List.mem_append_left r hq
    · exact List.mem_append_right l ((List.mem_cons.1 hq).resolve_left fun h => hname (h ▸ rfl))

/-- **One call**: the times stay different exactly if it stamps apart. -/
theorem Stamped.nodup_iff {op : Op} (h : Stamped now ps op ps')
    (hnames : (ps.map Profile.name).Nodup) (hps : ∀ t ∈ stamps ps, t < u64Size)
    (hnow : now < u64Size) (hnodup : (stamps ps).Nodup) :
    (stamps ps').Nodup ↔ StampsApart ps now op := by
  cases h with
  | keeps hop hsub =>
    refine iff_of_true (hnodup.sublist hsub) ?_
    cases op with
    | createGenerated | markUsed => exact absurd trivial hop
    | upsert | updateDefaultsPreservingSelector | delete | updateLearnedDefaults | rollback =>
      trivial
  | full hname => exact iff_of_true hnodup fun hne => absurd hname hne
  | generates hname hstamps =>
    rw [hstamps, List.nodup_append]
    simp only [hnodup, List.nodup_singleton, true_and, List.mem_singleton, forall_eq]
    constructor
    · exact fun hne _ hmem => hne now hmem rfl
    · rintro hapart t ht rfl
      exact hapart hname ht
  | missing hnone => exact iff_of_true hnodup fun hne => absurd hnone hne
  | @uses l r p q hps' hget hq =>
    subst hps'
    have hnew : stamps (l ++ q :: r) =
        stamps l ++ max now (saturatingAdd (maxStamp (l ++ p :: r)) 1) :: stamps r := by
      rw [stamps_append]
      simp only [stamps, List.filterMap_cons, hq]
    have hrest : (stamps (l ++ r)).Nodup :=
      hnodup.sublist (((List.Sublist.refl l).append (List.sublist_cons_self p r)).filterMap _)
    rw [hnew, List.nodup_middle, List.nodup_cons, ← stamps_append]
    constructor
    · rintro ⟨hfresh, -⟩ - x hx hname htop
      have hmem := (mem_stamps_other hnames).2 ⟨x, hx, hname, htop⟩
      rw [← (freshStamp_mem hps hnow (mem_stamps.2 ⟨x, hx, htop⟩)).2 rfl] at hmem
      exact hfresh hmem
    · intro hapart
      refine ⟨fun hmem => ?_, hrest⟩
      obtain ⟨x, hx, hname, ht⟩ := (mem_stamps_other hnames).1 hmem
      have htop := (freshStamp_mem hps hnow (mem_stamps.2 ⟨x, hx, ht⟩)).1 rfl
      exact hapart (by simp [hget]) x hx hname (htop ▸ ht)

theorem Stamped.lt {op : Op} (h : Stamped now ps op ps') (hps : ∀ t ∈ stamps ps, t < u64Size)
    (hnow : now < u64Size) {t : ℕ} (ht : t ∈ stamps ps') : t < u64Size := by
  cases h with
  | keeps hop hsub => exact hps t (hsub.subset ht)
  | full => exact hps t ht
  | missing => exact hps t ht
  | generates hname hstamps =>
    rw [hstamps, List.mem_append, List.mem_singleton] at ht
    rcases ht with ht | rfl
    · exact hps t ht
    · exact hnow
  | @uses l r p q hps' hget hq =>
    obtain ⟨x, hx, hxt⟩ := mem_stamps.1 ht
    by_cases hold : x ∈ ps
    · exact hps t (mem_stamps.2 ⟨x, hold, hxt⟩)
    · obtain rfl : x = q := by
        subst hps'
        simp only [List.mem_append, List.mem_cons, not_or] at hx hold
        tauto
      rw [hq] at hxt
      cases hxt
      unfold saturatingAdd
      omega

/-- The ranking of used profiles: their times are different, and a port whose
    candidates were all used is given one of them, if it has any. -/
structure Unambiguous (ps : List Profile) : Prop where
  untied : (stamps ps).Nodup
  chooses : ∀ glob port resolution, resolveAutomatic glob ps port = .ok resolution →
    (∀ p ∈ ps, p.Candidate glob port → p.metadata.lastUsedAtMs.isSome) →
    resolution.ambiguous = false

/-- Two profiles that were used at different times are not tied. -/
theorem rank_ne_of_nodup {candidates rest : List Profile} (hsub : candidates.Sublist ps)
    (hranked : rankCandidates candidates = p :: q :: rest) (hnodup : (stamps ps).Nodup)
    (hp : p.metadata.lastUsedAtMs.isSome) (hq : q.metadata.lastUsedAtMs.isSome) :
    p.rank ≠ q.rank := by
  obtain ⟨t, ht⟩ := Option.isSome_iff_exists.1 hp
  obtain ⟨u, hu⟩ := Option.isSome_iff_exists.1 hq
  have hstamps : (stamps (rankCandidates candidates)).Nodup :=
    ((rankCandidates_perm candidates).filterMap _).nodup_iff.2
      (hnodup.sublist (hsub.filterMap _))
  rw [hranked] at hstamps
  simp only [stamps, List.filterMap_cons, ht, hu, List.nodup_cons, List.mem_cons,
    not_or] at hstamps
  simp only [Profile.rank, ht, hu, Option.getD_some]
  exact hstamps.1.1

theorem unambiguous_of_nodup (h : (stamps ps).Nodup) : Unambiguous ps where
  untied := h
  chooses glob port resolution hresolve hused := by
    rw [resolveAutomatic] at hresolve
    split at hresolve
    · cases hresolve
    · next id hid =>
      dsimp only at hresolve
      have hperm := rankCandidates_perm (ps.filter fun p =>
        p.matchesPort glob port && selectorMatchesHighIdentity p.selector id)
      have hsome {x : Profile} (hx : x ∈ rankCandidates (ps.filter fun p =>
          p.matchesPort glob port && selectorMatchesHighIdentity p.selector id)) :
          x.metadata.lastUsedAtMs.isSome := by
        obtain ⟨hmem, hcandidate⟩ := List.mem_filter.1 (hperm.mem_iff.1 hx)
        rw [Bool.and_eq_true] at hcandidate
        exact hused x hmem ⟨id, hid, hcandidate.1, hcandidate.2⟩
      split at hresolve
      · cases hresolve
        rfl
      · cases hresolve
        rfl
      · next top next rest hranked =>
        rw [hranked] at hsome
        have hne := rank_ne_of_nodup List.filter_sublist hranked h
          (hsome List.mem_cons_self) (hsome (List.mem_cons_of_mem _ List.mem_cons_self))
        rw [if_pos hne] at hresolve
        cases hresolve
        rfl

/-! ## Runs -/

theorem after_lt {calls : List Call} (hclock : ∀ call ∈ calls, call.2 < u64Size) :
    ∀ t ∈ stamps (after calls), t < u64Size := by
  induction calls using List.reverseRecOn with
  | nil => exact fun t ht => by cases ht
  | append_singleton calls call ih =>
    rw [after_concat]
    have hps := ih fun c hc => hclock c (List.mem_append_left _ hc)
    have hnow := hclock call (List.mem_append_right _ List.mem_cons_self)
    exact fun t ht => (Op.run_stamped call.1 (after calls) call.2).lt hps hnow ht

/-- **The ranking of used profiles stays unambiguous exactly as long as every call
    stamps apart**, whatever the clock shows. -/
theorem unambiguous_iff {calls : List Call} (hclock : ∀ call ∈ calls, call.2 < u64Size) :
    (∀ older newer, calls = older ++ newer → Unambiguous (after older)) ↔
      ∀ older op now newer, calls = older ++ (op, now) :: newer →
        StampsApart (after older) now op := by
  have hstep {older newer : List Call} {op : Op} {now : ℕ}
      (hcalls : calls = older ++ (op, now) :: newer) (h : (stamps (after older)).Nodup) :
      (stamps (after (older ++ [(op, now)]))).Nodup ↔ StampsApart (after older) now op := by
    subst hcalls
    rw [after_concat]
    refine (Op.run_stamped op (after older) now).nodup_iff (after_nodup older) ?_ ?_ h
    · exact after_lt fun call hcall => hclock call (List.mem_append_left _ hcall)
    · exact hclock (op, now) (List.mem_append_right _ List.mem_cons_self)
  constructor
  · intro h older op now newer hcalls
    refine (hstep hcalls (h older _ hcalls).untied).1 (h (older ++ [(op, now)]) newer ?_).untied
    rw [hcalls, List.append_assoc, List.singleton_append]
  · intro h older
    induction older using List.reverseRecOn with
    | nil => exact fun newer _ => unambiguous_of_nodup List.nodup_nil
    | append_singleton older call ih =>
      intro newer hcalls
      rw [List.append_assoc, List.singleton_append] at hcalls
      exact unambiguous_of_nodup
        ((hstep hcalls (ih _ hcalls).untied).2 (h older call.1 call.2 newer hcalls))

/-- Two bare opens of the adapter in different milliseconds. -/
theorem generatedApart_unambiguous : Unambiguous
    (after [(.createGenerated "adapter" {} {}, 10), (.createGenerated "adapter" {} {}, 11)]) := by
  refine (unambiguous_iff (by decide)).2 (fun older op now newer hcalls => ?_) _ []
    (List.append_nil _).symm
  rcases older with _ | ⟨first, _ | ⟨second, older⟩⟩
  · obtain ⟨hcall, -⟩ := List.cons.inj hcalls
    obtain ⟨rfl, rfl⟩ := Prod.mk.inj hcall
    exact fun _ => List.not_mem_nil
  · obtain ⟨rfl, hrest⟩ := List.cons.inj hcalls
    obtain ⟨hcall, -⟩ := List.cons.inj hrest
    obtain ⟨rfl, rfl⟩ := Prod.mk.inj hcall
    intro _
    decide +kernel
  · have hlen := congrArg List.length hcalls
    simp at hlen

/-- The profiles of two bare opens of the adapter within a millisecond. -/
def generatedTwice (selector : ProfileSelector) : List Call :=
  [(.createGenerated "adapter" selector {}, 10), (.createGenerated "adapter" selector {}, 10)]

/-- Both are stamped with it, and no later open of the adapter can choose. -/
theorem generatedTwice_tied :
    ∃ selector, canonicalHighSelector adapter = some selector ∧
      (∀ call ∈ generatedTwice selector, call.2 < u64Size) ∧
      stamps (after (generatedTwice selector)) = [10, 10] ∧
      resolveAutomatic (fun _ _ => false) (after (generatedTwice selector)) adapter =
        .ok { ambiguous := true, candidates := ["auto-adapter", "auto-adapter-2"] } ∧
      ¬ Unambiguous (after (generatedTwice selector)) := by
  refine ⟨_, rfl, by decide, ?_⟩
  have hid : highIdentity adapter = some ⟨"usb", 4292, 60000, "0001", none⟩ := rfl
  set profiles := after (generatedTwice _)
  have hstamps : stamps profiles = [10, 10] := by decide +kernel
  have hnames : profiles.map Profile.name = ["auto-adapter", "auto-adapter-2"] := by
    decide +kernel
  have hfilter : profiles.filter (fun p => p.matchesPort (fun _ _ => false) adapter &&
      selectorMatchesHighIdentity p.selector ⟨"usb", 4292, 60000, "0001", none⟩) = profiles := by
    decide +kernel
  have hranked : rankCandidates profiles = profiles :=
    List.mergeSort_of_pairwise (by decide +kernel)
  have hresolve : resolveAutomatic (fun _ _ => false) profiles adapter =
      .ok { ambiguous := true, candidates := ["auto-adapter", "auto-adapter-2"] } := by
    rw [resolveAutomatic, hid]
    dsimp only
    rw [hfilter, hranked, hnames]
    rfl
  refine ⟨hstamps, hresolve, fun h => ?_⟩
  have huntied := h.untied
  rw [hstamps] at huntied
  exact absurd huntied (by decide)

end

end ProfileStore

end SerialMcp
