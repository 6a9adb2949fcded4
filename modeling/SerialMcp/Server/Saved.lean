/-
  A profile that is saved from a connection, and opened again.

  * `saveProfile_eq_ok`: what a save stores;
  * `resolve_effectiveDefaults`: the settings of a connection are read back from what is
    stored of them;
  * `openProfile_eq_ok`: what an open of a profile without overrides registers;
  * `saved_profile_opens`: the connection that it opens has the settings of the one that
    was saved, but for its name.
-/
import SerialMcp.Server.Bindings

namespace SerialMcp.ProfileTools

open Open ProfileStore
open Learning (Origin)

section
variable {R now : ℕ} {io : Option String} {ps ps' : List Profile} {p : Profile} {d d' : Desk}

/-! ## The save -/

theorem applyUpsert_created {incoming : Profile} {overwrite : Bool}
    (h : applyUpsert ps incoming overwrite now = .ok (true, ps')) :
    get ps incoming.name = none := by
  unfold applyUpsert at h
  split at h
  · split_ifs at h
    cases h
  · next hnone => exact get_eq_none.2 hnone

theorem matchesPort_saved (glob : String → String → Bool) (info : PortInfo)
    (h : p.selector = savedSelector info) : p.matchesPort glob info = true := by
  simp [Profile.matchesPort, h, savedSelector, agrees]

/-- **A save** stores what its connection has, and binds nobody. -/
theorem saveProfile_eq_ok {args : SaveProfileArgs} {saved : SaveProfileResult}
    (h : d.saveProfile now io args = (.ok saved, d')) :
    (∃ c info, d.live args.connectionId = some c ∧ c.portInfo = some info ∧
      saved.selector = savedSelector info ∧
      saved.defaults = c.device.settings.effectiveDefaults) ∧
    (∃ q, get d'.profiles args.profileName = some q ∧
      Origin.of q = ⟨args.profileName, saved.selector, saved.defaults⟩) ∧
    (saved.created = true → get d.profiles args.profileName = none) ∧
    ∀ id n, d'.Active id n → d.Active id n := by
  unfold Desk.saveProfile at h
  split at h
  · cases h
  · next c hc =>
    obtain ⟨-, hlive⟩ := Desk.lookupConnection_eq_ok hc
    split at h
    · cases h
    · next info hinfo =>
      dsimp only at h
      split at h
      · cases h
      · next created profiles hrun =>
        cases h
        obtain ⟨-, hok⟩ := runMutation_eq_ok hrun
        obtain ⟨-, q, hselector, hdefaults, hget⟩ := applyUpsert_get hok
        have hstored : get profiles args.profileName = some q := (hget _).trans (if_pos rfl)
        refine ⟨⟨c, info, hlive, hinfo, rfl, rfl⟩, ⟨q, hstored, ?_⟩, ?_, fun _ _ h => h⟩
        · rw [Origin.of, name_of_get hstored, hselector, hdefaults]
        · rintro (rfl : created = true)
          exact applyUpsert_created hok

/-! ## The open -/

theorem effectiveDefaults_toLower (s : LiveSettings) :
    s.effectiveDefaults.parity.toLower = s.effectiveDefaults.parity ∧
      s.effectiveDefaults.flowControl.toLower = s.effectiveDefaults.flowControl := by
  constructor
  · show (parityToStr s.parity).toLower = parityToStr s.parity
    cases s.parity <;> decide +kernel
  · show (flowControlToStr s.flowControl).toLower = flowControlToStr s.flowControl
    cases s.flowControl <;> decide +kernel

/-- **What is stored of a connection can be read back**, on any port. -/
theorem resolve_effectiveDefaults {s : LiveSettings} (port : String) (hpos : 0 < s.rxBufferSize)
    (hmax : s.rxBufferSize ≤ maxRxBufferSize) : ∃ resolved,
      ResolvedOpenSettings.resolve port {} (some s.effectiveDefaults) = .ok resolved := by
  have hdata : DataBits.fromStr (dataBitsToStr s.dataBits) = .ok s.dataBits := by
    cases s.dataBits <;> decide +kernel
  have hstop : StopBits.fromStr (stopBitsToStr s.stopBits) = .ok s.stopBits := by
    cases s.stopBits <;> decide +kernel
  have hparity : Parity.fromStr (parityToStr s.parity) = .ok s.parity := by
    cases s.parity <;> decide +kernel
  have hflow : FlowControl.fromStr (flowControlToStr s.flowControl) = .ok s.flowControl := by
    cases s.flowControl <;> decide +kernel
  have hsize : validateOpenRxBufferSize s.rxBufferSize = .ok s.rxBufferSize := by
    rw [validateOpenRxBufferSize, requireMinOrErr, if_neg (by omega)]
    show clampOrErr "open.rx_buffer_size" s.rxBufferSize maxRxBufferSize = _
    rw [clampOrErr, if_neg (by omega)]
  simp only [ResolvedOpenSettings.resolve, LiveSettings.effectiveDefaults, Option.getD_some,
    Option.getD_none, hdata, hstop, hparity, hflow, hsize]
  exact ⟨_, rfl⟩

/-- An open that succeeds registers the connection that it returns. -/
theorem openConnection_registers {env : Env} {planned : Planned} {h h' : Handler}
    {result : OpenResult} (hrun : openConnection env h planned = (.ok result, h')) :
    ∃ resolved dirty, openSettings env planned = .ok (resolved, dirty) ∧
      ∃ c, env.opener (resolved.intoConnectionConfig planned.portInfo) = .ok c ∧
        result.connectionId = c.1.id ∧
        h'.registry.connections = h.registry.connections.insert c.1.id c.1 := by
  unfold openConnection at hrun
  split at hrun
  · cases hrun
  · next resolved dirty hsettings =>
    split at hrun
    · cases hrun
    · next id registry hopen =>
      obtain ⟨-, c, hc, rfl, rfl⟩ := openPort_eq_ok.1 hopen
      simp only [AList.lookup_insert] at hrun
      split at hrun
      · cases hrun
      · unfold finishOpen at hrun
        refine ⟨resolved, dirty, hsettings, c, hc, ?_⟩
        split at hrun
        · cases hrun
        · dsimp only at hrun
          split_ifs at hrun <;> cases hrun <;> exact ⟨rfl, rfl⟩

/-- The open of a profile without overrides. -/
def openArgs (profile : String) : OpenProfileArgs where
  profile
  name := none
  logCapacity := none
  logEnabled := none
  rxBufferSize := none

/-- **An open of a profile** registers a connection with its settings, on a port that matches. -/
theorem openProfile_eq_ok {env : Env} {n : String} {opened : OpenResult} (hs : Inv R d)
    (hfresh : (Call.openProfile env (openArgs n)).Fresh d) (hp : get d.profiles n = some p)
    (h : d.openProfile env (openArgs n) = (.ok opened, d')) :
    ∃ port resolved, p.matchesPort env.glob port = true ∧
      ResolvedOpenSettings.resolve port.name {} (some p.defaults) = .ok resolved ∧
      d'.registered opened.connectionId = true ∧
      d'.live opened.connectionId = some (.opened opened.connectionId resolved (some port)) := by
  have hopen : d.openWith env (.openProfile (some p) (openArgs n)) = (.ok opened, d') := by
    rw [← h, ← hp]
    rfl
  rcases hrun : Request.run env d.handler (.openProfile (some p) (openArgs n)) with
    ⟨reply, handler⟩
  obtain rfl : reply = .ok opened := by
    have hreply := congrArg Prod.fst hopen
    simpa only [Desk.openWith, hrun] using hreply
  rcases hplan : Request.plan env d.handler (.openProfile (some p) (openArgs n)) with e | planned
  · rw [Request.run, hplan] at hrun
    cases hrun
  · obtain ⟨port, hmatches, hport⟩ : ∃ port, p.matchesPort env.glob port = true ∧
        planned = ⟨port.name, {}, some p.defaults, some port, .explicit p⟩ := by
      simp only [Request.plan, planOpenProfile] at hplan
      split at hplan
      · cases hplan
      · next ports _ =>
        split at hplan
        · cases hplan
        · next port hport =>
          cases hplan
          have hmem : port ∈ ports.filter (p.matchesPort env.glob) := by simp [hport]
          exact ⟨port, (List.mem_filter.1 hmem).2, rfl⟩
        · cases hplan
    subst hport
    have hconnect := hrun
    rw [Request.run, hplan] at hconnect
    obtain ⟨resolved, dirty, hsettings, c, hc, hid, hconnections⟩ :=
      openConnection_registers hconnect
    obtain ⟨hresolve, -⟩ := openSettings_plain rfl rfl rfl hsettings
    have hfree : d.registered c.1.id = false := by
      by_contra hreg
      exact hs.known _ (.inl (by simpa using hreg)) (hfresh _ c hc)
    have hopened := openWith_registered hplan hrun hsettings hconnections hfree
    rw [hopen] at hopened
    obtain rfl := hopened
    refine ⟨port, resolved, hmatches, hresolve, ?_, ?_⟩
    · rw [hid, Desk.registered, hconnections, AList.lookup_insert]
      rfl
    · rw [hid]
      exact if_pos rfl

/-! ## Both -/

theorem Calls.of_nil {P : Desk → Call → Prop} (h : Calls P d [] d') : d' = d := by
  generalize hcalls : ([] : List Call) = calls at h
  cases h with
  | nil => rfl
  | snoc h hcall => simp at hcalls

/-- **A saved profile brings its connection back.** In every run of calls of one server, a
    save stores the settings of its connection with a selector that matches its port. If the
    save has created the profile, and no call is asked to write it or opens a connection with
    it, or if there is no call in between: an `open_profile` finds settings that are valid on
    every port, and the connection that it opens has them, with the port's name in its own. -/
theorem saved_profile_opens {calls later : List Call} {args : SaveProfileArgs}
    {saved : SaveProfileResult} {d₁ d₂ : Desk} (hnodup : (ps.map Profile.name).Nodup)
    (hrev : ∀ p ∈ ps, p.metadata.revision ≤ R) (h : Calls Call.Fresh (.new ps) calls d)
    (hsave : d.saveProfile now io args = (.ok saved, d₁))
    (hlater : Calls (Call.LeavesAlone args.profileName) d₁ later d₂)
    (hcreated : saved.created = true ∨ later = [])
    (hlen : R + 2 * (calls.length + later.length) + 2 < u64Size) :
    ∃ source info p, d.live args.connectionId = some source ∧ source.portInfo = some info ∧
      get d₂.profiles args.profileName = some p ∧
      (∀ glob, p.matchesPort glob info = true) ∧
      (∀ port, ∃ resolved,
        ResolvedOpenSettings.resolve port {} (some p.defaults) = .ok resolved) ∧
      ∀ env opened d₃, (Call.openProfile env (openArgs args.profileName)).Fresh d₂ →
        d₂.openProfile env (openArgs args.profileName) = (.ok opened, d₃) →
        ∃ copy port, d₃.registered opened.connectionId = true ∧
          d₃.live opened.connectionId = some copy ∧ copy.portInfo = some port ∧
          p.matchesPort env.glob port = true ∧
          copy.device.settings.effectiveDefaults =
            { source.device.settings.effectiveDefaults with
              name := source.device.settings.name.map fun pre =>
                pre ++ "-" ++ ResolvedOpenSettings.shortPortName port.name } := by
  have hinv := h.inv (fun _ _ h => h) (new_inv hnodup hrev) (by omega)
  have hsaved : Inv (R + 2 * calls.length + 2) (d.saveProfile now io args).2 :=
    (saveProfile_outcome hinv (by omega)).inv
  rw [hsave] at hsaved
  obtain ⟨⟨source, info, hlive, hinfo, hselector, hdefaults⟩, hstored, hfree, hactive⟩ :=
    saveProfile_eq_ok hsave
  have hinv₂ := hlater.inv (fun _ _ h => h.1) hsaved (by omega)
  obtain ⟨p, hp, hof⟩ : ∃ p, get d₂.profiles args.profileName = some p ∧
      Origin.of p = ⟨args.profileName, saved.selector, saved.defaults⟩ := by
    rcases hcreated with hcreated | rfl
    · have hdetached : ∀ id, ¬ d₁.Active id args.profileName := by
        intro id hid
        obtain ⟨hreg, b, hb, hpers, -, hname⟩ := hactive id _ hid
        obtain ⟨q, hq, -⟩ := hinv.bound id b hreg hb hpers
        rw [hname, hfree hcreated] at hq
        cases hq
      exact (hlater.survives hsaved (by omega) hdetached hstored).2
    · rw [hlater.of_nil]
      exact hstored
  obtain ⟨-, hsel, hdef⟩ := Origin.mk.inj hof
  obtain ⟨hpos, hmax⟩ := hinv.rings _ _ hlive
  have hp' : p.defaults = source.device.settings.effectiveDefaults := hdef.trans hdefaults
  refine ⟨source, info, p, hlive, hinfo, hp, fun glob => matchesPort_saved glob info
    (hsel.trans hselector), fun port => ?_, fun env opened d₃ hfresh hopen => ?_⟩
  · rw [hp']
    exact resolve_effectiveDefaults port hpos hmax
  · obtain ⟨port, resolved, hmatches, hresolve, hreg, hcopy⟩ :=
      openProfile_eq_ok hinv₂ hfresh hp hopen
    refine ⟨_, port, hreg, hcopy, rfl, hmatches, ?_⟩
    obtain ⟨hparity, hflow⟩ := effectiveDefaults_toLower source.device.settings
    rw [hp'] at hresolve
    have hsame := ResolvedOpenSettings.asProfileDefaults_of_resolve hresolve
    rw [hparity, hflow] at hsame
    exact hsame

end

/-- An opener that gives another id. -/
def boardAgain : Env :=
  { boardCycle.env with opener := fun config => .ok ⟨⟨"d", config.port, config.name⟩, rfl⟩ }

/-- The board with its learned baud rate is saved and closed, and opened again. -/
theorem saved_profile_opens_board : ∃ saved d₁ opened d₃ copy,
    boardDesk.saveProfile 2 none
      { connectionId := "c", profileName := "copy", overwrite := false } = (.ok saved, d₁) ∧
    ((Call.close boardCycle.closing "c").run d₁).openProfile boardAgain (openArgs "copy") =
      (.ok opened, d₃) ∧
    d₃.live opened.connectionId = some copy ∧ copy.device.settings.baudRate = 9600 := by
  have hsource : (boardDesk.live "c").map (·.device.settings.baudRate) = some 9600 := by
    decide +kernel
  have hcreated : (boardDesk.saveProfile 2 none
      { connectionId := "c", profileName := "copy", overwrite := false }).1.toOption.map
      SaveProfileResult.created = some true := by
    decide +kernel
  have hnew : (((Call.close boardCycle.closing "c").run (boardDesk.saveProfile 2 none
      { connectionId := "c", profileName := "copy", overwrite := false }).2).live
      "d").isNone = true := by
    decide +kernel
  have hopened : (((Call.close boardCycle.closing "c").run (boardDesk.saveProfile 2 none
      { connectionId := "c", profileName := "copy", overwrite := false }).2).openProfile
      boardAgain (openArgs "copy")).1.isOk = true := by
    decide +kernel
  rcases hsave : boardDesk.saveProfile 2 none
    { connectionId := "c", profileName := "copy", overwrite := false } with ⟨e | saved, d₁⟩
  · rw [hsave] at hcreated
    cases hcreated
  · rw [hsave] at hcreated hnew hopened
    rcases hopen : ((Call.close boardCycle.closing "c").run d₁).openProfile boardAgain
      (openArgs "copy") with ⟨e | opened, d₃⟩
    · rw [hopen] at hopened
      cases hopened
    · have hlater : Calls (Call.LeavesAlone "copy") d₁ ([] ++ [.close boardCycle.closing "c"]) _ :=
        .snoc .nil ⟨trivial, fun h => h, by rintro p - ⟨env, r, planned, h, -⟩; cases h⟩
      obtain ⟨source, info, p, hlive, -, -, -, -, hcopies⟩ :=
        saved_profile_opens (R := 1) (by simp) (by simp [boardProfile]) boardDesk_calls hsave
          hlater (.inl (Option.some.inj hcreated)) (by decide)
      obtain ⟨copy, port, -, hcopy, -, -, hsame⟩ := hcopies boardAgain opened d₃
        (fun config c hc => by
          cases hc
          exact Option.isNone_iff_eq_none.1 hnew) hopen
      rw [hlive] at hsource
      refine ⟨saved, d₁, opened, d₃, copy, rfl, hopen, hcopy, ?_⟩
      have hbaud := congrArg ProfileDefaults.baudRate hsame
      exact hbaud.trans (Option.some.inj hsource)

end SerialMcp.ProfileTools
