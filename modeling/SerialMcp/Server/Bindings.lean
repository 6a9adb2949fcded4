/-
  Every run of the tools that work on profiles.

  * `Outcome`: what a call does to the stored profiles and the bindings;
  * `Call.run_outcome`: every call has one;
  * `bindings_kept`: the profile of a connection is stored, and a call replaces stored
    settings only if it is asked to, or through a connection that started from them;
  * `rollback_survives`: what a rollback restores stays.
-/
import SerialMcp.Server.Bound
import SerialMcp.Server.ProfileTools

namespace SerialMcp.ProfileTools

open Open ProfileStore
open Learning (Origin markRolledBack)
open Line (Setting)
open Registry (ConnectionRegistry)

/-- The invariant. -/
structure Inv (R : ℕ) (d : Desk) : Prop where
  stored : Stored R d.profiles
  known : ∀ id, d.registered id = true ∨ d.handler.binding id ≠ none → d.live id ≠ none
  rings : ∀ id c, d.live id = some c →
    0 < c.device.settings.rxBufferSize ∧ c.device.settings.rxBufferSize ≤ maxRxBufferSize
  bound : ∀ id b, d.registered id = true → d.handler.binding id = some b →
    Bound d.profiles (d.origin id) b

section
variable {R now : ℕ} {io : Option String} {ps : List Profile} {p q : Profile} {n : String}
  {b : ActiveProfileBinding} {d d' : Desk} {id : String} {c : Connection}

/-! ## The calls one by one -/

/-- The connection may learn into the profile of a name. -/
def Desk.Active (d : Desk) (id n : String) : Prop :=
  d.registered id = true ∧ ∃ b, d.handler.binding id = some b ∧ b.persistent = true ∧
    b.stale = false ∧ b.profileName = n

/-- It started from the settings of a profile of the name. -/
def Desk.Through (d : Desk) (id n : String) (p : Profile) : Prop :=
  d.Active id n ∧ d.origin id = some (.of p)

/-- What a call does: it keeps the invariant, it writes the settings that it changes, and it
    selects the profiles that it binds a connection to. -/
structure Outcome (R : ℕ) (d d' : Desk) (writes : String → Profile → Prop)
    (selects : String → Prop) : Prop where
  inv : Inv (R + 2) d'
  stays : ∀ n p, get d.profiles n = some p →
    (∃ q, get d'.profiles n = some q ∧ Origin.of q = .of p) ∨ writes n p
  active : ∀ id n, d'.Active id n → d.Active id n ∨ selects n

variable {writes : String → Profile → Prop} {selects : String → Prop}

theorem Inv.mono {R' : ℕ} (h : Inv R d) (hR : R ≤ R') : Inv R' d :=
  ⟨h.stored.mono hR, h.known, h.rings, h.bound⟩

theorem Outcome.rests (h : Inv R d') (hprofiles : d'.profiles = d.profiles)
    (hactive : ∀ id n, d'.Active id n → d.Active id n) : Outcome R d d' writes selects :=
  ⟨h.mono (Nat.le_add_right R 2), fun _ p hp => .inl ⟨p, by rw [hprofiles, hp], rfl⟩,
    fun id n h => .inl (hactive id n h)⟩

theorem Outcome.imp {writes' : String → Profile → Prop} {selects' : String → Prop}
    (h : Outcome R d d' writes selects) (hwrites : ∀ n p, writes n p → writes' n p)
    (hselects : ∀ n, selects n → selects' n) : Outcome R d d' writes' selects' :=
  ⟨h.inv, fun n p hp => (h.stays n p hp).imp_right (hwrites n p),
    fun id n hid => (h.active id n hid).imp_right (hselects n)⟩

theorem Inv.put (h : Inv R d) (hring : 0 < c.device.settings.rxBufferSize ∧
    c.device.settings.rxBufferSize ≤ maxRxBufferSize) : Inv R (d.put id c) := by
  refine ⟨h.stored, fun id' hid' => ?_, fun id' c' hc' => ?_, h.bound⟩
  · by_cases hid : id' = id
    · rw [hid, Desk.put_live, Function.update_self]
      exact Option.some_ne_none _
    · rw [Desk.put_live, Function.update_of_ne hid]
      exact h.known id' hid'
  · by_cases hid : id' = id
    · rw [hid, Desk.put_live, Function.update_self] at hc'
      exact Option.some.inj hc' ▸ hring
    · rw [Desk.put_live, Function.update_of_ne hid] at hc'
      exact h.rings id' c' hc'

theorem Desk.lookupConnection_eq_ok (h : d.lookupConnection id = .ok c) :
    d.registered id = true ∧ d.live id = some c := by
  unfold Desk.lookupConnection at h
  split at h
  · next hreg hlive =>
    cases h
    exact ⟨hreg, hlive⟩
  · cases h

/-- A mutation that stores a profile under its name, if it is made. -/
theorem mutation_outcome (now : ℕ) {β : Type} {r : Except String (β × List Profile)} {m : String}
    (hs : Inv R d) (hR : R + 2 < u64Size) (hr : ∀ value ps', r = .ok (value, ps') →
      Change now d.profiles ps' ∧
        ∃ q, ∀ n, get ps' n = if n = m then some q else get d.profiles n)
    (hwrites : ∀ value ps', r = .ok (value, ps') → ∀ p, get d.profiles m = some p → writes m p) :
    Outcome R d (d.store (runMutation d.profiles io r).2) writes selects := by
  rcases hrun : runMutation d.profiles io r with ⟨e | value, ps'⟩
  · obtain rfl := runMutation_eq_error hrun
    exact .rests hs rfl fun _ _ h => h
  · obtain ⟨-, hok⟩ := runMutation_eq_ok hrun
    obtain ⟨hchange, q, hget⟩ := hr value ps' hok
    have hkept : Kept d.profiles ps' := hs.stored.kept (by omega) hchange hget
    refine ⟨⟨(hs.stored.change hchange).mono (Nat.le_succ _), hs.known, hs.rings,
      fun id b hid hb => (hs.bound id b hid hb).kept hkept⟩, fun n p hp => ?_,
      fun _ _ h => .inl h⟩
    by_cases hn : n = m
    · exact .inr (hn ▸ hwrites value ps' hok p (hn ▸ hp))
    · have hsame := hget n
      rw [if_neg hn, hp] at hsame
      exact .inl ⟨p, hsame, rfl⟩

/-- **A learn** of a connection. -/
theorem learn_outcome (now : ℕ) (io : Option String) (operation : ProfilePersistenceOperation)
    (c : Connection) (hs : Inv R d) (hR : R + 2 < u64Size) (hreg : d.registered id = true) :
    Outcome R d (d.learn now io operation id c).2 (d.Through id) fun _ => False := by
  unfold Desk.learn
  split
  · exact .rests hs rfl fun _ _ h => h
  · next b hb =>
    rcases hlearn : Open.learn d.handler.profiles now io operation b
      c.device.settings.effectiveDefaults with ⟨session, persistence, ps'⟩
    obtain ⟨hstored, hkept, -⟩ := learn_keeps hlearn hs.stored (by omega)
    refine ⟨⟨hstored.mono (Nat.le_succ _), fun id' hid' => hs.known id' ?_, hs.rings,
      fun id' b' hid' hb' => ?_⟩, fun n p hp => ?_, ?_⟩
    · refine hid'.imp_right fun hne => ?_
      by_cases hid : id' = id
      · rw [hid, hb]
        exact Option.some_ne_none _
      · dsimp only at hne
        rwa [Function.update_of_ne hid] at hne
    · dsimp only at hb' ⊢
      by_cases hid : id' = id
      · subst hid
        rw [Function.update_self] at hb'
        obtain rfl := Option.some.inj hb'
        have hbound := learn_bound hlearn (hs.bound _ b hreg hb)
        split_ifs at hbound ⊢ with hstate
        · rwa [Function.update_self]
        · exact hbound
      · rw [Function.update_of_ne hid] at hb'
        have hbound := (hs.bound id' b' hid' hb').kept hkept
        split_ifs with hstate
        · rwa [Function.update_of_ne hid]
        · exact hbound
    · exact (learn_origin hlearn (hs.bound id b hreg hb) hp).imp_right
        fun ⟨hpers, hstale, hname, horigin⟩ => ⟨⟨hreg, b, hb, hpers, hstale, hname⟩, horigin⟩
    · rintro id' n ⟨hid', b', hb', hpers, hstale, rfl⟩
      dsimp only at hb'
      by_cases hid : id' = id
      · subst hid
        rw [Function.update_self] at hb'
        obtain rfl := Option.some.inj hb'
        obtain ⟨hname, hpers', hstale'⟩ := learn_bond hlearn
        exact .inl ⟨hreg, b, hb, hpers' hpers, hstale' hstale, hname.symm⟩
      · rw [Function.update_of_ne hid] at hb'
        exact .inl ⟨hid', b', hb', hpers, hstale, rfl⟩

/-- A learn of a connection with other settings. -/
theorem put_learn_outcome (now : ℕ) (io : Option String) (operation : ProfilePersistenceOperation)
    (hs : Inv R d) (hR : R + 2 < u64Size) (hreg : d.registered id = true)
    (hring : 0 < c.device.settings.rxBufferSize ∧
      c.device.settings.rxBufferSize ≤ maxRxBufferSize) :
    Outcome R d ((d.put id c).learn now io operation id c).2 (d.Through id) fun _ => False := by
  have hput : Inv R (d.put id c) := hs.put hring
  have hlearn := learn_outcome now io operation c hput hR hreg
  exact ⟨hlearn.inv, hlearn.stays, hlearn.active⟩

theorem configure_outcome {args : ConfigureArgs} (hs : Inv R d) (hR : R + 2 < u64Size) :
    Outcome R d (d.configure now io args).2
      (fun n p => (args.profile = some n ∧ args.overwrite = true) ∨
        ∃ id, args.connectionId = some id ∧ d.Through id n p) fun _ => False := by
  unfold Desk.configure
  split
  · exact .rests hs rfl fun _ _ h => h
  · exact .rests hs rfl fun _ _ h => h
  · next name hname _ =>
    have houtcome : Outcome R d (d.store (runMutation d.profiles io
        (applyUpdateDefaults d.profiles name args.defaults args.overwrite now)).2)
        (fun n p => (args.profile = some n ∧ args.overwrite = true) ∨
          ∃ id, args.connectionId = some id ∧ d.Through id n p) fun _ => False := by
      refine mutation_outcome now (m := name) hs hR (fun value ps' hok => ?_)
        fun value ps' hok p hp => ?_
      · exact ⟨applyUpdateDefaults_change hok, (applyUpdateDefaults_get hok).2⟩
      · exact .inl ⟨hname, (applyUpdateDefaults_get hok).1 (by rw [hp]; exact Option.some_ne_none _)⟩
    split <;> simpa [*] using houtcome
  · next id _ hid =>
    split
    · exact .rests hs rfl fun _ _ h => h
    · next c hc =>
      obtain ⟨hreg, hlive⟩ := Desk.lookupConnection_eq_ok hc
      have hlearn := put_learn_outcome now io .learned hs hR hreg (c := { c with
        device := { c.device with settings := configured c.device.settings args.defaults } })
        (hs.rings id c hlive)
      exact hlearn.imp (fun n p h => .inr ⟨id, hid, h⟩) fun _ h => h

theorem reconfigure_ring (device : Line.SerialConnection) (settings : Line.ReconfigureArgs)
    (fails : Setting → Bool) : (device.reconfigure settings fails).2.settings.rxBufferSize =
      device.settings.rxBufferSize := by
  have hstore : ∀ (asked : List Setting) (live : LiveSettings),
      (asked.foldl Line.store live).rxBufferSize = live.rxBufferSize := by
    intro asked
    induction asked with
    | nil => exact fun _ => rfl
    | cons s asked ih =>
      intro live
      rw [List.foldl_cons, ih]
      cases s <;> rfl
  by_cases hreach : Line.Reaches device settings
  · rw [Line.reconfigure_reached hreach]
    dsimp only
    split_ifs
    · rfl
    · exact hstore _ _
  · rw [Line.reconfigure_unreached hreach]

theorem reconfigure_outcome {port : Port} {args : ReconfigureArgs} (hs : Inv R d)
    (hR : R + 2 < u64Size) : Outcome R d (d.reconfigure now io port args).2
      (d.Through args.connectionId) fun _ => False := by
  unfold Desk.reconfigure
  split
  · exact .rests hs rfl fun _ _ h => h
  · next c hc =>
    obtain ⟨hreg, hlive⟩ := Desk.lookupConnection_eq_ok hc
    split
    · exact .rests hs rfl fun _ _ h => h
    · next settings _ =>
      have hring := reconfigure_ring c.device settings port.fails
      split
      · next device hdevice =>
        rw [hdevice] at hring
        refine .rests (hs.put (c := { c with device }) ?_) rfl fun _ _ h => h
        rw [hring]
        exact hs.rings _ c hlive
      · next device hdevice =>
        rw [hdevice] at hring
        refine put_learn_outcome now io .learned hs hR hreg (c := { c with device }) ?_
        rw [hring]
        exact hs.rings _ c hlive

theorem saveProfile_outcome {args : SaveProfileArgs} (hs : Inv R d) (hR : R + 2 < u64Size) :
    Outcome R d (d.saveProfile now io args).2
      (fun n _ => args.profileName = n ∧ args.overwrite = true) fun _ => False := by
  unfold Desk.saveProfile
  split
  · exact .rests hs rfl fun _ _ h => h
  · next c hc =>
    split
    · exact .rests hs rfl fun _ _ h => h
    · next info _ =>
      have houtcome : Outcome R d (d.store (runMutation d.profiles io (applyUpsert d.profiles
          (savedProfile args.profileName info c.device.settings) args.overwrite now)).2)
          (fun n _ => args.profileName = n ∧ args.overwrite = true) fun _ => False := by
        refine mutation_outcome now (m := args.profileName) hs hR (fun value ps' hok => ?_)
          fun value ps' hok p hp => ?_
        · obtain ⟨-, q, -, -, hget⟩ := applyUpsert_get hok
          exact ⟨applyUpsert_change hok, q, hget⟩
        · refine ⟨rfl, (applyUpsert_get hok).1 ?_⟩
          change get d.profiles args.profileName ≠ none
          rw [hp]
          exact Option.some_ne_none _
      dsimp only
      split <;> simpa [*] using houtcome

theorem mem_boundTo : id ∈ d.boundTo n ↔ d.registered id = true ∧
    ∃ b, d.handler.binding id = some b ∧ b.persistent = true ∧ b.profileName = n := by
  simp [Desk.boundTo, Desk.registered, AList.lookup_isSome, AList.mem_keys, Option.any_eq_true]

/-- **A delete** is made only if no connection is bound to the profile. -/
theorem deleteProfile_outcome (hs : Inv R d) :
    Outcome R d (d.deleteProfile io n).2 (fun m _ => n = m) fun _ => False := by
  unfold Desk.deleteProfile
  split
  · next hnone =>
    rcases hrun : runMutation d.profiles io (applyDelete d.profiles n) with ⟨e | _, ps'⟩
    · obtain rfl := runMutation_eq_error hrun
      exact .rests hs rfl fun _ _ h => h
    · obtain ⟨-, hok⟩ := runMutation_eq_ok hrun
      have hchange : Change 0 d.profiles ps' := applyDelete_change hok
      have hget : ∀ m, m ≠ n → get ps' m = get d.profiles m := by
        intro m hm
        unfold applyDelete at hok
        dsimp only at hok
        split_ifs at hok
        cases hok
        rw [get_filter, if_neg hm]
      refine ⟨⟨(hs.stored.change hchange).mono (Nat.le_succ _), hs.known, hs.rings,
        fun id b hid hb hpers => ?_⟩, fun m p hp => ?_, fun _ _ h => .inl h⟩
      · have hname : b.profileName ≠ n := by
          rintro rfl
          have hmem : id ∈ d.boundTo b.profileName := mem_boundTo.2 ⟨hid, b, hb, hpers, rfl⟩
          rw [hnone] at hmem
          cases hmem
        obtain ⟨p, hp, hexpects⟩ := hs.bound id b hid hb hpers
        exact ⟨p, (hget _ hname).trans hp, hexpects⟩
      · by_cases hm : n = m
        · exact .inr hm
        · exact .inl ⟨p, (hget m (Ne.symm hm)).trans hp, rfl⟩
  · exact .rests hs rfl fun _ _ h => h

theorem markRolledBack_bond (name : String) (revision : ℕ) (b : ActiveProfileBinding) :
    (markRolledBack name revision b).bond = b.bond := by
  unfold markRolledBack
  split <;> rfl

theorem markRolledBack_stale {name : String} {revision : ℕ}
    (h : (markRolledBack name revision b).stale = false) :
    b.stale = false ∧ ¬ (b.persistent = true ∧ b.profileName = name) := by
  unfold markRolledBack at h
  split_ifs at h with hb
  exact ⟨h, hb⟩

theorem rollbackProfile_outcome {args : RollbackProfileArgs} (hs : Inv R d)
    (hR : R + 2 < u64Size) : Outcome R d (d.rollbackProfile now io args).2
      (fun n _ => args.profileName = n) fun _ => False := by
  have houtcome : Outcome R d (d.store (runMutation d.profiles io
      (rollback d.profiles args.profileName args.expectedRevision args.revision now)).2)
      (fun n _ => args.profileName = n) fun _ => False := by
    refine mutation_outcome now (m := args.profileName) hs hR (fun value ps' hok => ?_)
      fun _ _ _ _ _ => rfl
    exact ⟨rollback_change hok, value, (rollback_get hok).2⟩
  unfold Desk.rollbackProfile
  split
  · next hrun =>
    rw [hrun] at houtcome
    exact houtcome
  · next hrun =>
    rw [hrun] at houtcome
    have hinv := houtcome.inv
    refine ⟨⟨hinv.stored, fun id hid => ?_, hinv.rings, fun id b hid hb => ?_⟩, houtcome.stays,
      ?_⟩
    · refine hinv.known id (hid.imp_right fun hne => ?_)
      dsimp only at hne
      split_ifs at hne with hreg
      · rintro hnone
        exact hne (by rw [show d.handler.binding id = none from hnone]; rfl)
      · exact hne
    · have hreg : d.registered id = true := hid
      dsimp only at hb
      rw [if_pos hreg, Option.map_eq_some_iff] at hb
      obtain ⟨b₀, hb₀, rfl⟩ := hb
      exact (hinv.bound id b₀ hid hb₀).congr (markRolledBack_bond _ _ b₀)
        fun h => (markRolledBack_stale h).1
    · rintro id n ⟨hid, b, hb, hpers, hstale, rfl⟩
      have hreg : d.registered id = true := hid
      dsimp only at hb
      rw [if_pos hreg, Option.map_eq_some_iff] at hb
      obtain ⟨b₀, hb₀, rfl⟩ := hb
      obtain ⟨hpers', hname, -⟩ := bond_eq (markRolledBack_bond args.profileName args.revision b₀)
      exact .inl ⟨hreg, b₀, hb₀, hpers' ▸ hpers, (markRolledBack_stale hstale).1, hname.symm⟩

/-- **A close** takes a registered connection from the registry, and may learn. -/
theorem close_effect {cl : Closing} {h h' : Handler} {live : LiveSettings}
    {reply : Except String CloseResult} (hreg : (h.registry.connections.lookup id).isSome = true)
    (hclose : Open.close cl h id live = (reply, h')) :
    h'.registry.connections = h.registry.connections.erase id ∧
      (h'.profiles = h.profiles ∧ h'.binding = h.binding ∨
        ∃ b session persistence, h.binding id = some b ∧
          Open.learn h.profiles cl.now cl.io .closeSnapshot b live.effectiveDefaults =
            (session, persistence, h'.profiles) ∧
          h'.binding = Function.update h.binding id (some session)) := by
  obtain ⟨c, hc⟩ := Option.isSome_iff_exists.1 hreg
  have hport : (closePort h.registry cl.hardware id).2.connections =
      h.registry.connections.erase id := by
    rw [closePort, ConnectionRegistry.beginClose, hc]
    rfl
  unfold Open.close at hclose
  rw [hc] at hclose
  dsimp only at hclose
  split at hclose
  · next hrun =>
    cases hclose
    rw [hrun] at hport
    exact ⟨hport, .inl ⟨rfl, rfl⟩⟩
  · next hrun =>
    rw [hrun] at hport
    split at hclose
    · cases hclose
      exact ⟨hport, .inl ⟨rfl, rfl⟩⟩
    · next b hb =>
      cases hclose
      exact ⟨hport, .inr ⟨b, _, _, hb, rfl, rfl⟩⟩

theorem close_outcome {cl : Closing} (hs : Inv R d) (hR : R + 2 < u64Size) :
    Outcome R d (d.close cl id).2 (d.Through id) fun _ => False := by
  unfold Desk.close
  split
  · exact .rests hs rfl fun _ _ h => h
  · next c hc =>
    obtain ⟨hreg, hlive⟩ := Desk.lookupConnection_eq_ok hc
    rcases hclose : Open.close cl d.handler id c.device.settings with ⟨reply, handler⟩
    obtain ⟨hconnections, hsession⟩ := close_effect hreg hclose
    -- what is registered still is another connection
    have hothers : ∀ id', (handler.registry.connections.lookup id').isSome = true →
        id' ≠ id ∧ d.registered id' = true := by
      intro id' hid'
      rw [hconnections] at hid'
      by_cases hid : id' = id
      · rw [hid, AList.lookup_erase] at hid'
        cases hid'
      · rw [AList.lookup_erase_ne hid] at hid'
        exact ⟨hid, hid'⟩
    obtain ⟨hps, hkept, hbinding, hstays⟩ : Stored (R + 1) handler.profiles ∧
        Kept d.profiles handler.profiles ∧
        (∀ id', id' ≠ id → handler.binding id' = d.handler.binding id') ∧
        ∀ n p, get d.profiles n = some p →
          (∃ q, get handler.profiles n = some q ∧ Origin.of q = .of p) ∨ d.Through id n p := by
      rcases hsession with ⟨hprofiles, hbinding⟩ | ⟨b, session, persistence, hb, hlearn, hbinding⟩
      · rw [hprofiles, hbinding]
        exact ⟨hs.stored.mono (Nat.le_succ _), .refl _, fun _ _ => rfl,
          fun n p hp => .inl ⟨p, hp, rfl⟩⟩
      · obtain ⟨hstored, hkept, -⟩ := learn_keeps hlearn hs.stored (by omega)
        refine ⟨hstored, hkept, fun id' hid => ?_, fun n p hp => ?_⟩
        · rw [hbinding, Function.update_of_ne hid]
        · exact (learn_origin hlearn (hs.bound id b hreg hb) hp).imp_right
            fun ⟨hpers, hstale, hname, horigin⟩ => ⟨⟨hreg, b, hb, hpers, hstale, hname⟩, horigin⟩
    have hinv : Inv (R + 1) { d with handler } := by
      refine ⟨hps, fun id' hid' => ?_, hs.rings, fun id' b' hid' hb' => ?_⟩
      · by_cases hid : id' = id
        · rw [hid, hlive]
          exact Option.some_ne_none _
        · refine hs.known id' (hid'.imp (fun h => (hothers id' h).2) fun hne => ?_)
          rwa [← hbinding id' hid]
      · obtain ⟨hid, hreg'⟩ := hothers id' hid'
        exact (hs.bound id' b' hreg' (hbinding id' hid ▸ hb')).kept hkept
    have hclosed : Inv (R + 1) (Desk.put { d with handler } id { c with
        device := { c.device with closed := true, io := false } }) :=
      hinv.put (hs.rings id c hlive)
    refine ⟨hclosed.mono (Nat.le_succ _), hstays, ?_⟩
    rintro id' n ⟨hid', b', hb', hactive⟩
    obtain ⟨hid, hreg'⟩ := hothers id' hid'
    exact .inl ⟨hreg', b', hbinding id' hid ▸ hb', hactive⟩

theorem openSettings_ring {env : Env} {planned : Planned} {resolved : ResolvedOpenSettings}
    {dirty : Option Bool} (h : openSettings env planned = .ok (resolved, dirty)) :
    0 < resolved.rxBufferSize ∧ resolved.rxBufferSize ≤ maxRxBufferSize := by
  unfold openSettings at h
  split_ifs at h
  obtain ⟨settings, hsettings, h⟩ := Except.bind_eq_ok h
  have hring := (ResolvedOpenSettings.resolve_ring hsettings).2
  split at h
  · cases h
    exact hring
  · obtain ⟨differs, -, h⟩ := Except.bind_eq_ok h
    cases h
    exact hring

/-- An open that registers nothing leaves the connections as they are. -/
theorem openWith_refused {env : Env} {r : Request} {reply : Except String OpenResult}
    {handler : Handler} (hrun : r.run env d.handler = (reply, handler))
    (hconnections : handler.registry.connections = d.handler.registry.connections) :
    (d.openWith env r).2 = { d with handler } := by
  simp only [Desk.openWith, hrun, Desk.registered, hconnections, Bool.and_not_self,
    Bool.false_eq_true, if_false]

/-- An open that registers one adds a connection with the settings of its plan. -/
theorem openWith_registered {env : Env} {r : Request} {reply : Except String OpenResult}
    {handler : Handler} {planned : Planned} {resolved : ResolvedOpenSettings}
    {dirty : Option Bool} {c : Registry.SerialConnection}
    (hplan : r.plan env d.handler = .ok planned) (hrun : r.run env d.handler = (reply, handler))
    (hsettings : openSettings env planned = .ok (resolved, dirty))
    (hconnections : handler.registry.connections = d.handler.registry.connections.insert c.id c)
    (hfree : d.registered c.id = false) :
    (d.openWith env r).2 =
      { handler
        live := fun id => if id = c.id then some (.opened id resolved planned.portInfo)
          else d.live id
        origin := fun id => if id = c.id then
          (handler.binding id).bind fun b => (get handler.profiles b.profileName).map .of
          else d.origin id } := by
  have hlookup : ∀ id, ((handler.registry.connections.lookup id).isSome && !d.registered id) =
      decide (id = c.id) := by
    intro id
    rw [hconnections]
    by_cases hid : id = c.id
    · rw [hid, AList.lookup_insert, hfree]
      simp
    · rw [AList.lookup_insert_ne hid, Desk.registered]
      simp [hid]
  simp only [Desk.openWith, hrun, hplan, hlookup, decide_eq_true_eq, hsettings,
    Except.toOption, Option.bind_some, Option.map_some]

/-- What an open that registers a connection of a new id does to the handler. -/
structure Opened (R : ℕ) (h h' : Handler) (id : String) (planned : Planned) : Prop where
  stored : Stored (R + 2) h'.profiles
  kept : Kept h.profiles h'.profiles
  others : ∀ id', id' ≠ id → h'.binding id' = h.binding id'
  bound : ∀ b, h'.binding id = some b →
    Bound h'.profiles ((get h'.profiles b.profileName).map .of) b
  named : ∀ b, h'.binding id = some b → b.persistent = true →
    get h.profiles b.profileName = none ∨
      ∃ p, planned.plan.profile = some p ∧ p.name = b.profileName
  stays : ∀ n p, get h.profiles n = some p →
    (∃ q, get h'.profiles n = some q ∧ Origin.of q = .of p) ∨ planned.plan.profile = some p

theorem opened_of_session {env : Env} {planned : Planned} {resolved : ResolvedOpenSettings}
    {dirty : Option Bool} {h h' : Handler} (hs : Stored R h.profiles) (hR : R + 2 < u64Size)
    (hplan : ∀ p, planned.plan.profile = some p → get h.profiles p.name = some p)
    (hunbound : h.binding id = none)
    (hsession : h'.profiles = h.profiles ∧ h'.binding = h.binding ∨
      ∃ session, h'.binding = Function.update h.binding id (some session) ∧
        Session env planned resolved dirty h.profiles h'.profiles session) :
    Opened R h h' id planned := by
  rcases hsession with ⟨hprofiles, hbinding⟩ | ⟨session, hbinding, hsession⟩
  · have hnone : ∀ b, h'.binding id ≠ some b := by
      intro b hb
      rw [hbinding, hunbound] at hb
      cases hb
    exact ⟨hprofiles ▸ hs.mono (Nat.le_add_right R 2), hprofiles ▸ .refl _,
      fun _ _ => by rw [hbinding], fun b hb => absurd hb (hnone b), fun b hb => absurd hb (hnone b),
      fun n p hp => .inl ⟨p, by rw [hprofiles, hp], rfl⟩⟩
  · obtain ⟨hps, hkept, hbound, hnamed, hstays⟩ := hsession.keeps hs hR hplan
    have hsome : ∀ b, h'.binding id = some b → session = b := by
      intro b hb
      rw [hbinding, Function.update_self] at hb
      exact Option.some.inj hb
    exact ⟨hps, hkept, fun id' hid => by rw [hbinding, Function.update_of_ne hid],
      fun b hb => hsome b hb ▸ hbound, fun b hb => hsome b hb ▸ hnamed, hstays⟩

/-- **An open** adds a connection of a new id. -/
theorem openWith_outcome {env : Env} {r : Request} (hs : Inv R d) (hR : R + 2 < u64Size)
    (hfresh : ∀ config c, env.opener config = .ok c → d.live c.1.id = none)
    (hr : ∀ profile args, r = .openProfile profile args →
      profile = get d.profiles args.profile) :
    Outcome R d (d.openWith env r).2
      (fun _ p => ∃ planned, r.plan env d.handler = .ok planned ∧ planned.plan.profile = some p)
      fun n => get d.profiles n = none ∨ ∃ p planned, p.name = n ∧
        r.plan env d.handler = .ok planned ∧ planned.plan.profile = some p := by
  rcases hplan : r.plan env d.handler with e | planned
  · have hrun : r.run env d.handler = (.error e, d.handler) := by rw [Request.run, hplan]
    have hsame : (d.openWith env r).2 = d := openWith_refused hrun rfl
    rw [hsame]
    exact .rests hs rfl fun _ _ h => h
  · have hstored := fun p hp => plan_stored (p := p) hr hs.stored.nodup hplan hp
    rcases hrun : r.run env d.handler with ⟨reply, handler⟩
    have hconnect : openConnection env d.handler planned = (reply, handler) := by
      rw [← hrun, Request.run, hplan]
    cases openConnection_effect hconnect with
    | refused hconnections hprofiles hbinding =>
      rw [openWith_refused hrun hconnections]
      have hps : Stored R handler.profiles := by
        rw [hprofiles]
        exact hs.stored
      refine .rests ⟨hps, fun id hid => hs.known id ?_, hs.rings,
        fun id b hid hb => ?_⟩ hprofiles fun id n hid => ?_
      · rw [Desk.registered, ← hconnections, ← hbinding]
        exact hid
      · have hreg : d.registered id = true := by
          rw [Desk.registered, ← hconnections]
          exact hid
        have hbound := hs.bound id b hreg (hbinding ▸ hb)
        rwa [Desk.profiles, ← hprofiles] at hbound
      · obtain ⟨hid, hb⟩ := hid
        rw [Desk.Active, Desk.registered, ← hconnections, ← hbinding]
        exact ⟨hid, hb⟩
    | @registered resolved dirty c hsettings hopen hconnections hsession =>
      have hnew : d.live c.1.id = none := hfresh _ c hopen
      have hfree : d.registered c.1.id = false := by
        by_contra hreg
        exact hs.known _ (.inl (by simpa using hreg)) hnew
      have hunbound : d.handler.binding c.1.id = none := by
        by_contra hne
        exact hs.known _ (.inr hne) hnew
      have hothers : ∀ id, id ≠ c.1.id →
          (handler.registry.connections.lookup id).isSome = d.registered id := by
        intro id hid
        rw [hconnections, AList.lookup_insert_ne hid, Desk.registered]
      obtain ⟨hps, hkept, hbinding, hbound, hnamed, hstays⟩ :=
        opened_of_session hs.stored hR hstored hunbound hsession
      rw [openWith_registered hplan hrun hsettings hconnections hfree]
      refine ⟨⟨hps, fun id hid => ?_, fun id c' hc' => ?_, fun id b hid hb => ?_⟩,
        fun n p hp => (hstays n p hp).imp_right fun h => ⟨planned, rfl, h⟩, ?_⟩
      · dsimp only
        split_ifs with hid'
        · exact Option.some_ne_none _
        · exact hs.known id (hid.imp (fun h => hothers id hid' ▸ h) fun h => hbinding id hid' ▸ h)
      · dsimp only at hc'
        split_ifs at hc' with hid
        · obtain rfl := Option.some.inj hc'
          exact openSettings_ring hsettings
        · exact hs.rings id c' hc'
      · dsimp only
        split_ifs with hid'
        · subst hid'
          have hb' : handler.binding c.1.id = some b := hb
          rw [hb']
          exact hbound b hb'
        · exact (hs.bound id b (hothers id hid' ▸ hid) (hbinding id hid' ▸ hb)).kept hkept
      · rintro id n ⟨hid, b, hb, hpers, hstale, rfl⟩
        by_cases hid' : id = c.1.id
        · subst hid'
          rcases hnamed b hb hpers with hnone | ⟨p, hp, hname⟩
          · exact .inr (.inl hnone)
          · exact .inr (.inr ⟨p, planned, hname, rfl, hp⟩)
        · exact .inl ⟨hothers id hid' ▸ hid, b, hbinding id hid' ▸ hb, hpers, hstale, rfl⟩

/-! ## Every run -/

theorem openRequest_outcome {env : Env} {r : Request} {call : Call} (hs : Inv R d)
    (hR : R + 2 < u64Size)
    (hfresh : ∀ config c, env.opener config = .ok c → d.live c.1.id = none)
    (hcall : call.request d = some (env, r))
    (hr : ∀ profile args, r = .openProfile profile args →
      profile = get d.profiles args.profile) :
    Outcome R d (d.openWith env r).2
      (fun n p => call.Writes n ∨ call.Selects d p ∨
        ∃ id, call.connection = some id ∧ d.Through id n p)
      fun n => get d.profiles n = none ∨ ∃ p, p.name = n ∧ call.Selects d p := by
  refine (openWith_outcome hs hR hfresh hr).imp (fun n p ⟨planned, hplan, hp⟩ => ?_) fun n h => ?_
  · exact .inr (.inl ⟨env, r, planned, hcall, hplan, hp⟩)
  · exact h.imp_right fun ⟨p, planned, hname, hplan, hp⟩ =>
      ⟨p, hname, env, r, planned, hcall, hplan, hp⟩

/-- **A call** keeps the invariant. It changes the settings of a profile if it is asked to, if
    it opens a connection with them, or if its connection has started from them. -/
theorem Call.run_outcome {call : Call} (hs : Inv R d) (hR : R + 2 < u64Size)
    (hfresh : call.Fresh d) : Outcome R d (call.run d)
      (fun n p => call.Writes n ∨ call.Selects d p ∨
        ∃ id, call.connection = some id ∧ d.Through id n p)
      fun n => get d.profiles n = none ∨ ∃ p, p.name = n ∧ call.Selects d p := by
  cases call with
  | «open» env args =>
    show Outcome R d (d.openWith env (.open args)).2 _ _
    exact openRequest_outcome hs hR hfresh rfl fun _ _ h => by cases h
  | openProfile env args =>
    show Outcome R d (d.openWith env (.openProfile (get d.profiles args.profile) args)).2 _ _
    refine openRequest_outcome hs hR hfresh rfl ?_
    rintro profile args' h
    cases h
    rfl
  | close closing id =>
    exact (close_outcome hs hR).imp (fun n p h => .inr (.inr ⟨id, rfl, h⟩)) nofun
  | configure now io args =>
    exact (configure_outcome hs hR).imp (fun n p h => h.imp_right .inr) nofun
  | reconfigure now io port args =>
    exact (reconfigure_outcome hs hR).imp (fun n p h => .inr (.inr ⟨_, rfl, h⟩)) nofun
  | saveProfile now io args => exact (saveProfile_outcome hs hR).imp (fun n p h => .inl h) nofun
  | deleteProfile io profileName =>
    exact (deleteProfile_outcome hs).imp (fun n p h => .inl h) nofun
  | rollbackProfile now io args =>
    exact (rollbackProfile_outcome hs hR).imp (fun n p h => .inl h) nofun

theorem new_inv (hnodup : (ps.map Profile.name).Nodup)
    (hrev : ∀ p ∈ ps, p.metadata.revision ≤ R) : Inv R (Desk.new ps) where
  stored := ⟨hnodup, hrev⟩
  known id h := by rcases h with h | h <;> exact absurd h (by simp [Desk.new, Desk.registered,
    Handler.new, ConnectionRegistry.empty])
  rings id c h := by cases h
  bound id b h hb := by cases hb

theorem Calls.inv {P : Desk → Call → Prop} {calls : List Call} (h : Calls P d calls d')
    (hP : ∀ d call, P d call → call.Fresh d) (hs : Inv R d)
    (hlen : R + 2 * calls.length < u64Size) : Inv (R + 2 * calls.length) d' := by
  induction h with
  | nil => exact hs
  | @snoc calls d' call h hcall ih =>
    rw [List.length_append, List.length_singleton] at hlen ⊢
    exact (Call.run_outcome (ih (by omega)) (by omega) (hP _ _ hcall)).inv

/-- **The profiles of connections are kept.** In every run of calls of one server, from any
    stored profiles with different names: the profile of every connection with a
    persistent binding is stored. A call changes the settings of a stored profile only if
    it is asked to write it, if it opens a connection with it, or if the connection that
    it is about has started from these settings or was the last to write them. -/
theorem bindings_kept {calls : List Call} (hnodup : (ps.map Profile.name).Nodup)
    (hrev : ∀ p ∈ ps, p.metadata.revision ≤ R) (h : Calls Call.Fresh (.new ps) calls d)
    (hlen : R + 2 * calls.length + 2 < u64Size) :
    (∀ id b, d.registered id = true → d.handler.binding id = some b → b.persistent = true →
      ∃ p, get d.profiles b.profileName = some p) ∧
    ∀ call : Call, call.Fresh d → ∀ n p, get d.profiles n = some p →
      (∃ q, get (call.run d).profiles n = some q ∧ Origin.of q = .of p) ∨ call.Writes n ∨
        call.Selects d p ∨ ∃ id, call.connection = some id ∧ d.Through id n p := by
  have hinv := h.inv (fun _ _ h => h) (new_inv hnodup hrev) (by omega)
  refine ⟨fun id b hid hb hpers => ?_, fun call hfresh n p hp => ?_⟩
  · obtain ⟨p, hp, -⟩ := hinv.bound id b hid hb hpers
    exact ⟨p, hp⟩
  · exact (Call.run_outcome hinv hlen hfresh).stays n p hp

/-- A call that neither is asked to write the profile of a name nor opens a connection with it. -/
def Call.LeavesAlone (n : String) (d : Desk) (call : Call) : Prop :=
  call.Fresh d ∧ ¬ call.Writes n ∧ ∀ p, p.name = n → ¬ call.Selects d p

/-- Without connections that may learn into it, a profile is left alone. -/
theorem Calls.survives {calls : List Call} {settings : Origin}
    (h : Calls (Call.LeavesAlone n) d calls d') (hs : Inv R d)
    (hlen : R + 2 * calls.length < u64Size) (hdetached : ∀ id, ¬ d.Active id n)
    (hsettings : ∃ p, get d.profiles n = some p ∧ Origin.of p = settings) :
    (∀ id, ¬ d'.Active id n) ∧ ∃ p, get d'.profiles n = some p ∧ Origin.of p = settings := by
  induction h with
  | nil => exact ⟨hdetached, hsettings⟩
  | @snoc calls d' call h hcall ih =>
    obtain ⟨hfresh, hwrites, hselects⟩ := hcall
    rw [List.length_append, List.length_singleton] at hlen
    obtain ⟨hdetached', p, hp, hof⟩ := ih (by omega)
    have hinv := h.inv (fun _ _ h => h.1) hs (by omega)
    have houtcome : Outcome _ d' (call.run d') _ _ :=
      Call.run_outcome hinv (by omega) hfresh
    refine ⟨fun id hid => ?_, ?_⟩
    · rcases houtcome.active id n hid with hid | hnone | ⟨p', hname, hselected⟩
      · exact hdetached' id hid
      · rw [hnone] at hp
        cases hp
      · exact hselects p' hname hselected
    · rcases houtcome.stays n p hp with ⟨q, hq, hqp⟩ | hwrite | hselected | ⟨id, -, hid, -⟩
      · exact ⟨q, hq, hqp.trans hof⟩
      · exact absurd hwrite hwrites
      · exact absurd hselected (hselects p (name_of_get hp))
      · exact absurd hid (hdetached' id)

/-- **A rollback** stores what it returns, and no connection may learn into it. -/
theorem rollbackProfile_detaches {args : RollbackProfileArgs} {result : RollbackProfileResult}
    (h : d.rollbackProfile now io args = (.ok result, d')) :
    (∀ id, ¬ d'.Active id args.profileName) ∧ ∃ p, get d'.profiles args.profileName = some p ∧
      Origin.of p = ⟨args.profileName, result.selector, result.defaults⟩ := by
  unfold Desk.rollbackProfile at h
  split at h
  · cases h
  · next rolledBack profiles hrun =>
    cases h
    obtain ⟨-, hok⟩ := runMutation_eq_ok hrun
    obtain ⟨hname, hget⟩ := rollback_get hok
    refine ⟨?_, rolledBack, (hget _).trans (if_pos rfl), by rw [Origin.of, hname]⟩
    rintro id ⟨hid, b, hb, hpers, hstale, hb'⟩
    have hreg : d.registered id = true := hid
    dsimp only at hb
    rw [if_pos hreg, Option.map_eq_some_iff] at hb
    obtain ⟨b₀, -, rfl⟩ := hb
    obtain ⟨-, hother⟩ := markRolledBack_stale hstale
    obtain ⟨hpers', hname', -⟩ := bond_eq (markRolledBack_bond args.profileName args.revision b₀)
    exact hother ⟨hpers' ▸ hpers, hname' ▸ hb'⟩

/-- **A rollback survives.** Whatever the connections that are bound to the profile have
    learned, and however they are configured, reconfigured and closed afterwards: as long
    as no call is asked to write the profile or opens a connection with it, the settings
    that the rollback has restored stay stored. -/
theorem rollback_survives {calls later : List Call} {args : RollbackProfileArgs}
    {result : RollbackProfileResult} {d₁ d₂ : Desk} (hnodup : (ps.map Profile.name).Nodup)
    (hrev : ∀ p ∈ ps, p.metadata.revision ≤ R) (h : Calls Call.Fresh (.new ps) calls d)
    (hroll : d.rollbackProfile now io args = (.ok result, d₁))
    (hlater : Calls (Call.LeavesAlone args.profileName) d₁ later d₂)
    (hlen : R + 2 * (calls.length + later.length) + 2 < u64Size) :
    ∃ p, get d₂.profiles args.profileName = some p ∧ p.selector = result.selector ∧
      p.defaults = result.defaults := by
  have hinv := h.inv (fun _ _ h => h) (new_inv hnodup hrev) (by omega)
  have hrolled : Inv (R + 2 * calls.length + 2) (d.rollbackProfile now io args).2 :=
    (rollbackProfile_outcome hinv (by omega)).inv
  rw [hroll] at hrolled
  obtain ⟨hdetached, hsettings⟩ := rollbackProfile_detaches hroll
  obtain ⟨-, p, hp, hof⟩ := hlater.survives hrolled (by omega) hdetached hsettings
  obtain ⟨-, hsel, hdef⟩ := Origin.mk.inj hof
  exact ⟨p, hp, hsel, hdef⟩

end

/-- A bare `open` of the board. -/
def boardOpen : Call :=
  .open boardCycle.env { port := "/dev/ttyUSB0", settings := {}, profileMode := none }

/-- `reconfigure` of its baud rate, which the port takes. -/
def boardBaud (now rate : ℕ) : Call :=
  .reconfigure now none { fails := fun _ => false, ioError := fun _ => "" }
    { connectionId := "c"
      baudRate := some rate
      dataBits := none
      stopBits := none
      parity := none
      flowControl := none }

/-- The board with its stored profile, and a baud rate that was learned. -/
def boardDesk : Desk := (boardBaud 1 9600).run (boardOpen.run (.new [boardProfile {}]))

theorem boardDesk_calls :
    Calls Call.Fresh (.new [boardProfile {}]) [boardOpen, boardBaud 1 9600] boardDesk := by
  show Calls Call.Fresh _ ([] ++ [boardOpen] ++ [boardBaud 1 9600]) _
  exact .snoc (.snoc .nil fun _ _ _ => rfl) trivial

/-- The stored baud rate of its profile. -/
def storedBaud (d : Desk) : Option ℕ := (get d.profiles "dev-a").map (·.defaults.baudRate)

/-- Another baud rate is learned over the one that the connection has learned before. -/
theorem bindings_kept_board : storedBaud boardDesk = some 9600 ∧
    storedBaud ((boardBaud 2 57600).run boardDesk) = some 57600 ∧
    ∃ p, get boardDesk.profiles "dev-a" = some p ∧ boardDesk.Through "c" "dev-a" p := by
  have hbefore : storedBaud boardDesk = some 9600 := by decide +kernel
  have hafter : storedBaud ((boardBaud 2 57600).run boardDesk) = some 57600 := by decide +kernel
  obtain ⟨p, hp, hbaud⟩ := Option.map_eq_some_iff.1 hbefore
  refine ⟨hbefore, hafter, p, hp, ?_⟩
  obtain ⟨-, hcall⟩ := bindings_kept (R := 1) (by simp) (by simp [boardProfile]) boardDesk_calls
    (by decide)
  rcases hcall (boardBaud 2 57600) trivial "dev-a" p hp with
    ⟨q, hq, hqp⟩ | hwrites | ⟨env, r, planned, hrequest, -⟩ | ⟨id, hid, hthrough⟩
  · have hdefaults : q.defaults = p.defaults := (Origin.mk.inj hqp).2.2
    rw [storedBaud, hq, Option.map_some, hdefaults, hbaud] at hafter
    cases hafter
  · cases hwrites
  · cases hrequest
  · cases hid
    exact hthrough

/-- The rollback brings back the baud rate of the profile, and neither another `reconfigure`
    nor the close of the board changes it again. -/
theorem rollback_survives_board : ∃ result d₁,
    boardDesk.rollbackProfile 2 none
      { profileName := "dev-a", revision := 1, expectedRevision := 2 } = (.ok result, d₁) ∧
    result.activeConnectionsUnchanged = 1 ∧ result.defaults.baudRate = 115200 ∧
    ∃ p, get ((Call.close boardCycle.closing "c").run ((boardBaud 3 57600).run d₁)).profiles
      "dev-a" = some p ∧ p.defaults.baudRate = 115200 := by
  have hroll : (boardDesk.rollbackProfile 2 none
      { profileName := "dev-a", revision := 1, expectedRevision := 2 }).1.toOption.map
      (fun result => (result.activeConnectionsUnchanged, result.defaults.baudRate)) =
      some (1, 115200) := by
    decide +kernel
  rcases hrun : boardDesk.rollbackProfile 2 none
    { profileName := "dev-a", revision := 1, expectedRevision := 2 } with ⟨e | result, d₁⟩
  · rw [hrun] at hroll
    cases hroll
  · rw [hrun] at hroll
    obtain ⟨hcount, hbaud⟩ := Prod.mk.inj (Option.some.inj hroll)
    refine ⟨result, d₁, rfl, hcount, hbaud, ?_⟩
    have hlater : Calls (Call.LeavesAlone "dev-a") d₁
        ([] ++ [boardBaud 3 57600] ++ [.close boardCycle.closing "c"]) _ :=
      .snoc (.snoc .nil ⟨trivial, nofun, fun _ _ ⟨_, _, _, h, _⟩ => by cases h⟩)
        ⟨trivial, nofun, fun _ _ ⟨_, _, _, h, _⟩ => by cases h⟩
    obtain ⟨p, hp, -, hdefaults⟩ := rollback_survives (R := 1) (by simp) (by simp [boardProfile])
      boardDesk_calls hrun hlater (by decide)
    exact ⟨p, hp, hdefaults ▸ hbaud⟩

end SerialMcp.ProfileTools
