/-
  What a default `transact` misses: the bytes between its write and the live edge
  that it samples afterwards.

  * `readBytesFromRing_gains`: a read from the live edge returns what it takes, as
    long as the ring keeps it;
  * `Awaiting`, `Settled`: a call before it has looked at the ring, and behind
    that, step by step;
  * `misses_nothing_iff`: every byte from the beginning of the write on is
    returned or still unread exactly if none arrives before the live edge is
    sampled.
-/
import SerialMcp.Read.Concurrent
import SerialMcp.Server.Transact

namespace SerialMcp

open Interact RxOp Cuts

/-! ## A read from an offset that the ring keeps -/

/-- A read that returns all it takes: it asks for no match, or for one in raw
    bytes without context. -/
def ReadRequest.Whole (req : ReadRequest) : Prop := req.matcher = none ∨ req.Raw

/-- What the read half adds to what is behind the offset `e`: the bytes up to the
    shared cursor, none if it failed. -/
structure Gains {ε : Type} (e : ℕ) (w : World) (gained : Bytes) (r : Except ε ReadOutcome) :
    Prop where
  cursor_eq : w.readCursor = e + gained.length
  cursor_le : w.readCursor ≤ w.feed.stream.length
  gained_eq : gained = stretch w.feed.stream e w.readCursor
  bytes : ∀ out, r = .ok out → out.bytes = gained
  fromOffset : ∀ out, r = .ok out → out.fromOffset = if gained.length = 0 then none else some e
  failed : (∃ err, r = .error err) → gained = []

/-- Between two operations nobody else moves the cursor, and the ring keeps what
    is behind the offset `e`. -/
structure Keeps (e : ℕ) (w w' : World) : Prop where
  alone : Alone w w'
  start_le : w'.feed.ring.startOffset ≤ e

section
variable {crates : Crates} {turns : ℕ} {req : ReadRequest} {c e : ℕ} {d₀ : Option FrameDecoder}
  {s₀ : RingSlice} {f : Feed} {start : ℕ} {ps : List (Piece UInt8)} {out : ReadOutcome}
  {final : ℕ} {w w' : World} {tr : List RxEvent}

theorem ReadRequest.Whole.once (h : req.Whole) : ¬CountsTwice req s₀ := by
  rintro ⟨-, hmatcher, hframing, -⟩
  rcases h with h | h
  · rw [h] at hmatcher
    cases hmatcher
  · rw [h.framing] at hframing
    cases hframing

/-- Its matches, if any, are reported with all that was taken. -/
theorem ReadRequest.Whole.unshaped (h : req.Whole) (hd : d₀.isSome = req.framing.isSome)
    (hmatch : out.matched = true → d₀.isSome = true → ∃ frame ∈ out.frames, ∃ idx,
      (matchFrame req.matcher frame).1 = some idx) :
    ¬(out.matched = true ∧ Shapes req.matcher d₀.isSome) := by
  rintro ⟨hmatched, hshapes⟩
  rcases h with h | h
  · rw [h] at hshapes hmatch
    rcases hshapes with hframed | hsaves
    · obtain ⟨frame, -, idx, hidx⟩ := hmatch hmatched hframed
      cases hidx
    · cases hsaves
  · rw [hd, h.framing] at hshapes
    exact h.not_shapes hshapes

/-- A read that returns all it takes, from an offset that the ring kept. -/
theorem Report.whole (h : Report req c d₀ s₀ f start ps out final) (hwhole : req.Whole)
    (hd : d₀.isSome = req.framing.isSome) (hc : c ≤ f.stream.length) (hstart : start ≤ c) :
    final = c + out.bytes.length ∧ final ≤ f.stream.length ∧
      out.bytes = stretch f.stream c final ∧
      out.fromOffset = if out.bytes.length = 0 then none else some c := by
  obtain ⟨q, hchain, -, hend⟩ := h.ended
  have hanchor := hchain.anchor_eq hstart
  have hl : start ≤ anchor c ps := by omega
  have hmax : max c start = c := by omega
  obtain ⟨hqe, hitems⟩ := hchain.contiguous hl
  rw [hanchor] at hqe hitems
  have hq := hchain.stop_le hc
  cases hend with
  | slice hhist hne hsated hreason hfinal hmeasured hbytes hinside hframes hclean hmatch =>
    have hfinal := hfinal hwhole.once
    have hbytes := hbytes hwhole.once <| hwhole.unshaped hd fun h₁ h₂ => by
      obtain ⟨frame, hframe, idx, hidx, -⟩ := hmatch h₁ h₂
      exact ⟨frame, hframe, idx, hidx⟩
    have hoffset := (hmeasured hwhole.once).fromOffset
    rw [hmax] at hoffset
    rw [hbytes, hfinal]
    exact ⟨hqe, hq, hitems, hoffset⟩
  | idle hhist hunsated hreason hmatched hfinal hmeasured hbytes hframes hclean =>
    have hfinal := (hfinal hwhole.once).trans hqe.symm
    have hbytes := hbytes hwhole.once
    have hoffset := (hmeasured hwhole.once).fromOffset
    rw [hmax] at hoffset
    rw [hbytes, hfinal]
    exact ⟨hqe, hq, hitems, hoffset⟩
  | @history n hhist hctx hps hn hfinal hmeasured hbytes hreason hmatched hframes =>
    subst hps
    rw [items_piece] at hqe hitems
    have hfrom : s₀.fromOffset = c := hanchor
    have hlen : out.bytes.length = n := by
      rw [hbytes, List.length_take]
      omega
    have hoffset := hmeasured.fromOffset
    rw [hmax] at hoffset
    rw [hlen]
    refine ⟨by omega, by omega, ?_, hoffset⟩
    rw [hbytes, hitems, stretch_take (by omega), hfinal, hfrom]
  | @context n hhist hctx hps hn hfinal hfrom hnext hlost hbytes hreason hmatched hframes =>
    rcases hwhole with hnone | hraw
    · rw [historyEnd] at hhist
      split at hhist
      · cases hhist
      · rw [hnone] at hhist
        cases hhist
    · rw [hraw.context] at hctx
      cases hctx

theorem startSeen_le {α : Type} {p : RxProg α} {a : α} (h : Runs act (Keeps e) w p tr w' a) :
    startSeen tr ≤ e := by
  have key : ∀ n ∈ startsOf tr, n ≤ e := by
    induction h with
    | ret =>
      intro n hn
      cases hn
    | @call w w₁ op k tr w' a h₁ _ ih =>
      intro n hn
      cases op with
      | startOffset =>
        rcases List.mem_cons.1 hn with rfl | hn
        · exact h₁.start_le
        · exact ih n hn
      | _ => exact ih n hn
  rw [startSeen]
  rcases hstarts : startsOf tr with _ | ⟨n, ns⟩
  · exact Nat.zero_le _
  · exact key n (by rw [hstarts]; exact List.mem_cons_self)

theorem Gains.none {ε : Type} {r : Except ε ReadOutcome} {err : ε} (hcursor : w.readCursor = e)
    (he : e ≤ w.feed.stream.length) (hr : r = .error err) : Gains e w [] r where
  cursor_eq := hcursor
  cursor_le := by omega
  gained_eq := by rw [hcursor, stretch_self]
  bytes := by
    rintro out rfl
    cases hr
  fromOffset := by
    rintro out rfl
    cases hr
  failed _ := rfl

/-- The same gain, reported in another way. -/
theorem Gains.congr {ε ε' : Type} {gained : Bytes} {r : Except ε ReadOutcome}
    {r' : Except ε' ReadOutcome} (h : Gains e w gained r)
    (hok : ∀ out, r' = .ok out → r = .ok out)
    (herror : (∃ err, r' = .error err) → ∃ err, r = .error err) : Gains e w gained r' where
  cursor_eq := h.cursor_eq
  cursor_le := h.cursor_le
  gained_eq := h.gained_eq
  bytes := fun out hout => h.bytes out (hok out hout)
  fromOffset := fun out hout => h.fromOffset out (hok out hout)
  failed := fun hfailed => h.failed (herror hfailed)

theorem Gains.grow {ε : Type} {gained : Bytes} {r : Except ε ReadOutcome}
    (h : Gains e w gained r) (hg : Alone w w') : Gains e w' gained r where
  cursor_eq := hg.2.trans h.cursor_eq
  cursor_le := by
    rw [hg.2]
    exact h.cursor_le.trans (Feed.Grows.stream hg.1).length_le
  gained_eq := by
    rw [hg.2, stretch_mono (Feed.Grows.stream hg.1) h.cursor_le]
    exact h.gained_eq
  bytes := h.bytes
  fromOffset := h.fromOffset
  failed := h.failed

theorem act_private_cursor {op : RxOp} (h : op.Private) (w : World) :
    (act op w).2.readCursor = w.readCursor := by
  refine act_readCursor ?_ w
  rintro off rfl
  exact h

/-- **A read from the shared cursor** returns what lies between the cursor it found
    and the cursor it leaves. -/
theorem readBytesFromRing_gains (hwhole : req.Whole) (hcursor : w.readCursor = e)
    (he : e ≤ w.feed.ring.endOffset) {r : Except Stuck ReadOutcome}
    (h : Runs act (Keeps e) w (readBytesFromRing crates turns req) tr w' r) :
    ∃ gained, Gains e w' gained r := by
  simp only [readBytesFromRing, Prog.perform_bind] at h
  cases h with
  | @call _ w₁ _ _ _ _ _ h₁ h =>
  have hcursor₁ : w₁.readCursor = e := h₁.alone.2.trans hcursor
  have he₁ : e ≤ w₁.feed.ring.endOffset := he.trans (Feed.Grows.end_le h₁.alone.1)
  obtain ⟨trp, tr', w₂, result, -, hp, hrest⟩ := runs_bind_iff.1 h
  change Runs act (Keeps e) w₁ (readFromPrivateCursor crates turns req w₁.readCursor) trp w₂
    result at hp
  rw [hcursor₁] at hp
  have hrely : Runs act Rely w₁ (readFromPrivateCursor crates turns req e) trp w₂ result :=
    hp.mono fun _ _ h => h.alone.1
  have hgrows : w₁.feed.Grows w₂.feed :=
    hrely.rely Rely.refl (fun _ _ _ => Rely.trans) (fun op w _ => by
      rw [Rely, act_feed]; exact .refl) (Prog.all_true _)
  have he₂ : e ≤ w₂.feed.stream.length := by
    rw [← w₂.feed.refines.stop]
    exact he₁.trans hgrows.end_le
  rcases result with err | ⟨out, final⟩
  · obtain ⟨-, hprivate⟩ := hp.invariant (I := fun w => w.readCursor = e)
      (fun w w' h hw => h.alone.2.trans hw) (fun op w hop hw => (act_private_cursor hop w).trans hw)
      (readFromPrivateCursor_all crates turns req e) hcursor₁
    cases hrest with
    | ret => exact ⟨[], .none hprivate he₂ rfl⟩
  · obtain ⟨d₀, hd, hreport⟩ := readFromPrivateCursor_report hrely (le_initialSlice hrely he₁)
    obtain ⟨hfinal, hle, hbytes, hoffset⟩ :=
      hreport.whole hwhole (buildDecoder_isSome hd) he₂ (startSeen_le hp)
    cases hrest with
    | @call _ w₃ _ _ _ _ _ h₃ hret =>
    cases hret with
    | ret =>
    have hpre : w₂.feed.stream <+: w₃.feed.stream := Feed.Grows.stream h₃.alone.1
    refine ⟨out.bytes, hfinal, hle.trans hpre.length_le, ?_, ?_, ?_, ?_⟩
    · rw [hbytes]
      exact (stretch_mono hpre hle).symm
    · rintro _ ⟨⟩
      rfl
    · rintro _ ⟨⟩
      exact hoffset
    · rintro ⟨err, herr⟩
      cases herr

end

/-! ## What happens beside a call -/

namespace Server

/-- Between two operations of a call the ring grows, and nobody else reads,
    writes, configures or closes the connection. -/
structure Sole (s s' : Station) : Prop where
  alone : Alone s.link.rx s'.link.rx
  id : s'.id = s.id
  session : s'.id ∈ s'.rxSessions.sessions ↔ s.id ∈ s.rxSessions.sessions
  defaults : s'.defaults = s.defaults
  writeBegan : s'.writeBegan = s.writeBegan
  ringSeen : s'.ringSeen = s.ringSeen

/-- The ring still holds what was appended since the write began. -/
def Station.Retains (s : Station) : Prop :=
  s.id ∈ s.rxSessions.sessions → ∀ m ∈ s.writeBegan, s.link.rx.feed.ring.startOffset ≤ m

/-- The same, and the ring does not wrap past what arrived since the write began. -/
structure Kept (s s' : Station) : Prop where
  sole : Sole s s'
  retains : s.Retains → s'.Retains

/-- The byte of the stream at `i`, if the call returns it. -/
def returnedAt (r : Except TransactError TransactResult) (i : ℕ) : Option UInt8 :=
  match r with
  | .ok result =>
    result.read.fromOffset.bind fun f => if f ≤ i then result.read.bytes[i - f]? else none
  | .error _ => none

/-- The byte at `i` can still be read from the shared cursor. -/
def Station.Unread (s : Station) (i : ℕ) : Prop :=
  s.link.rx.readCursor ≤ i ∧ s.link.rx.feed.ring.startOffset ≤ i

/-- Every byte appended since the write began is returned or unread. -/
def MissesNothing (s : Station) (r : Except TransactError TransactResult) : Prop :=
  ∀ m ∈ s.writeBegan, ∀ i, m ≤ i → i < s.stream.length →
    returnedAt r i = s.stream[i]? ∨ s.Unread i

/-- The shared cursor is not beyond the live edge. -/
def Station.Inside (s : Station) : Prop :=
  s.id ∈ s.rxSessions.sessions → s.link.rx.readCursor ≤ s.stream.length

/-- The read half returns all it takes: it asks for no match, or for one in raw
    bytes without context. -/
def TransactArgs.Plain (args : TransactArgs) (defaults : ConnectionDefaults) : Prop :=
  args.matchRequest = none ∨
    resolveField args.rxFraming args.protocol presetRxFraming defaults.rxFraming
      defaults.protocol = none ∧
    ∀ m ∈ args.matchRequest, m.config.contextAmountOfMatchedBytes = none

section
variable {crates : Crates} {turns : ℕ} {args : TransactArgs} {s₀ s s' s'' : Station} {m e : ℕ}
  {gained : Bytes}

theorem Station.stream_of_session (h : s.id ∈ s.rxSessions.sessions) :
    s.stream = s.link.rx.feed.stream := if_pos h

theorem Station.stream_of_not (h : s.id ∉ s.rxSessions.sessions) : s.stream = [] := if_neg h

theorem Sole.refl (s : Station) : Sole s s := ⟨Alone.refl _, rfl, Iff.rfl, rfl, rfl, rfl⟩

theorem Sole.stream (h : Sole s s') : s.stream <+: s'.stream := by
  by_cases hs : s.id ∈ s.rxSessions.sessions
  · rw [Station.stream_of_session hs, Station.stream_of_session (h.session.2 hs)]
    exact Feed.Grows.stream h.alone.1
  · rw [Station.stream_of_not hs]
    exact List.nil_prefix

/-- Operations that have nothing to do with the session. -/
def CallOp.Aside : CallOp → Prop
  | .link .ensureOpen | .link (.recordTx _) => True
  | .link _ | .getOrCreate => False
  | _ => True

theorem CallOp.Aside.kept {op : CallOp} (hop : op.Aside) : Kept s (callAct op s).2 := by
  cases op with
  | tryReserve bytes =>
    simp only [callAct]
    split
    · exact ⟨.refl s, id⟩
    · exact ⟨⟨Alone.refl _, rfl, Iff.rfl, rfl, rfl, rfl⟩, id⟩
  | link op =>
    cases op with
    | ensureOpen => exact ⟨.refl s, id⟩
    | recordTx n => exact ⟨⟨Alone.refl _, rfl, Iff.rfl, rfl, rfl, rfl⟩, id⟩
    | _ => exact hop.elim
  | getOrCreate => exact hop.elim
  | _ => exact ⟨⟨Alone.refl _, rfl, Iff.rfl, rfl, rfl, rfl⟩, id⟩

/-! ## Before the ring is looked at -/

/-- A call that has not looked at the ring yet. -/
structure Awaiting (s₀ s : Station) : Prop where
  unseen : s.ringSeen = none
  began : ∀ m ∈ s.writeBegan, m ≤ s.stream.length
  inside : s₀.Inside → s.id ∈ s.rxSessions.sessions →
    s.link.rx.readCursor ≤ s.stream.length ∧ ∀ m ∈ s.writeBegan, s.link.rx.readCursor ≤ m
  defaults : s.defaults = s₀.defaults
  retains : s.Retains

theorem Awaiting.kept (h : Awaiting s₀ s) (hk : Kept s s') : Awaiting s₀ s' where
  unseen := hk.sole.ringSeen.trans h.unseen
  began := by
    rw [hk.sole.writeBegan]
    intro m hm
    exact (h.began m hm).trans hk.sole.stream.length_le
  inside := by
    intro h₀ hs
    obtain ⟨hle, hm⟩ := h.inside h₀ (hk.sole.session.1 hs)
    rw [hk.sole.alone.2, hk.sole.writeBegan]
    exact ⟨hle.trans hk.sole.stream.length_le, hm⟩
  defaults := hk.sole.defaults.trans h.defaults
  retains := hk.retains h.retains

theorem Awaiting.aside (h : Awaiting s₀ s) (op : CallOp) (hop : op.Aside) :
    Awaiting s₀ (callAct op s).2 := h.kept hop.kept

theorem Awaiting.writeAll (h : Awaiting s₀ s) (data : Bytes) :
    Awaiting s₀ (callAct (.link (.writeAll data)) s).2 where
  unseen := rfl
  began := by
    rintro m ⟨⟩
    exact Nat.le_refl _
  inside := by
    intro h₀ hs
    refine ⟨(h.inside h₀ hs).1, ?_⟩
    rintro m ⟨⟩
    exact (h.inside h₀ hs).1
  defaults := h.defaults
  retains := by
    rintro hs m ⟨⟩
    have hmem : s.id ∈ s.rxSessions.sessions := hs
    show s.link.rx.feed.ring.startOffset ≤ s.stream.length
    rw [Station.stream_of_session hmem, ← s.link.rx.feed.refines.stop]
    exact s.link.rx.feed.ring.start_le_end

/-- A session is found or made. -/
theorem Awaiting.getOrCreate (h : Awaiting s₀ s) :
    Awaiting s₀ (callAct .getOrCreate s).2 ∧
      ((callAct .getOrCreate s).1 = .ok () →
        (callAct .getOrCreate s).2.id ∈ (callAct .getOrCreate s).2.rxSessions.sessions) ∧
      (callAct .getOrCreate s).2.writeBegan = s.writeBegan := by
  simp only [callAct]
  rcases hsession : s.rxSessions.getOrCreate s.id defaultRxBufferSize with err | sessions
  · refine ⟨h, ?_, rfl⟩
    rintro ⟨⟩
  dsimp only
  split_ifs with hmem
  · exact ⟨h, fun _ => hmem, rfl⟩
  -- nothing was appended before there was a ring
  · have hstream := Station.stream_of_not hmem
    rcases RxSessionManager.getOrCreate_eq_ok hsession with ⟨hfound, -⟩ | ⟨-, -, hmade⟩
    · exact absurd hfound hmem
    have hmem' : s.id ∈ sessions.sessions := by
      rw [hmade]
      exact AList.mem_insert _ |>.2 (.inl rfl)
    refine ⟨⟨h.unseen, ?_, ?_, h.defaults, ?_⟩, fun _ => hmem', rfl⟩
    · intro m hm
      have hle := h.began m hm
      rw [hstream] at hle
      exact hle.trans (Nat.zero_le _)
    · exact fun _ _ => ⟨Nat.zero_le _, fun _ _ => Nat.zero_le _⟩
    · exact fun _ _ _ => Nat.zero_le _

/-- What the write leaves: the call has not looked at the ring, and if it
    succeeded, it has begun. -/
theorem txWrite_wp (h : Awaiting s₀ s) (data : Bytes) :
    wp callAct Kept (txWrite data) (fun _ s' r => Awaiting s₀ s' ∧
      ∀ n, r = .ok n → s'.writeBegan.isSome = true) s := by
  simp only [txWrite, Prog.perform_bind, wp_call]
  intro s₁ h₁
  have ha₁ := (h.kept h₁).aside .handOver trivial
  refine wp_ite (fun _ => ?_) fun _ => ⟨ha₁, fun n hn => by cases hn⟩
  intro s₂ h₂
  have ha₂ := (ha₁.kept h₂).aside (.link .ensureOpen) trivial
  generalize (callAct (.link .ensureOpen) s₂).1 = isOpen
  cases isOpen with
  | false => exact ⟨ha₂, fun n hn => by cases hn⟩
  | true =>
    intro s₃ h₃
    have ha₃ := (ha₂.kept h₃).writeAll data
    have hbegan : (callAct (.link (.writeAll data)) s₃).2.writeBegan.isSome = true := rfl
    generalize (callAct (.link (.writeAll data)) s₃).1 = written
    cases written with
    | error err => exact ⟨ha₃, fun n hn => by cases hn⟩
    | ok u =>
      intro s₄ h₄
      refine ⟨(ha₃.kept h₄).aside (.link (.recordTx data.length)) trivial, fun n _ => ?_⟩
      show s₄.writeBegan.isSome = true
      rw [h₄.sole.writeBegan]
      exact hbegan

/-- A call behind the beginning of its write. -/
structure Begun (s₀ : Station) (m : ℕ) (s : Station) : Prop where
  awaiting : Awaiting s₀ s
  began : s.writeBegan = some m

theorem Begun.kept (h : Begun s₀ m s) (hk : Kept s s') : Begun s₀ m s' :=
  ⟨h.awaiting.kept hk, hk.sole.writeBegan.trans h.began⟩

theorem Begun.aside (h : Begun s₀ m s) (op : CallOp) (hop : op.Aside) :
    Begun s₀ m (callAct op s).2 := h.kept hop.kept

/-- A call behind its write, with a session. -/
structure Ready (s₀ : Station) (m : ℕ) (s : Station) : Prop where
  begun : Begun s₀ m s
  session : s.id ∈ s.rxSessions.sessions

theorem Ready.kept (h : Ready s₀ m s) (hk : Kept s s') : Ready s₀ m s' :=
  ⟨h.begun.kept hk, hk.sole.session.2 h.session⟩

theorem Ready.aside (h : Ready s₀ m s) (op : CallOp) (hop : op.Aside) :
    Ready s₀ m (callAct op s).2 := h.kept hop.kept

/-! ## Behind the sampling of the live edge -/

/-- A call that has looked at the ring. -/
structure Reading (m e : ℕ) (s : Station) : Prop where
  began : s.writeBegan = some m
  seen : s.ringSeen = some e
  le : m ≤ e
  session : s.id ∈ s.rxSessions.sessions
  start_le : s.link.rx.feed.ring.startOffset ≤ m
  le_end : e ≤ s.link.rx.feed.ring.endOffset

theorem Reading.kept (h : Reading m e s) (hk : Kept s s') : Reading m e s' where
  began := hk.sole.writeBegan.trans h.began
  seen := hk.sole.ringSeen.trans h.seen
  le := h.le
  session := hk.sole.session.2 h.session
  start_le := by
    have hretains : s.Retains := by
      intro _ m' hm'
      obtain rfl : m = m' := Option.some.inj (h.began.symm.trans hm')
      exact h.start_le
    exact hk.retains hretains (hk.sole.session.2 h.session) m (hk.sole.writeBegan.trans h.began)
  le_end := h.le_end.trans (Feed.Grows.end_le hk.sole.alone.1)

/-- Operations of the read half on its session. -/
def CallOp.Rx : CallOp → Prop
  | .link (.rx _) => True
  | _ => False

theorem Reading.rx (h : Reading m e s) (op : CallOp) (hop : op.Rx) :
    Reading m e (callAct op s).2 := by
  cases op with
  | link op =>
    cases op with
    | rx op =>
      have hfeed : (callAct (.link (.rx op)) s).2.link.rx.feed = s.link.rx.feed :=
        act_feed op s.link.rx
      refine ⟨h.began, ?_, h.le, h.session, ?_, ?_⟩
      · show (s.ringSeen <|> some s.stream.length) = some e
        rw [h.seen]
        rfl
      · rw [hfeed]
        exact h.start_le
      · rw [hfeed]
        exact h.le_end
    | _ => exact hop.elim
  | _ => exact hop.elim

theorem onSession_all {α : Type} (p : RxProg α) : (onSession p).All CallOp.Rx := by
  refine Prog.All.lift (Prog.All.lift ?_)
  exact p.all_true

theorem Ready.sample (h : Ready s₀ m s) :
    Reading m s.link.rx.feed.ring.endOffset (callAct (.link (.rx .endOffset)) s).2 := by
  have hend : s.stream.length = s.link.rx.feed.ring.endOffset := by
    rw [Station.stream_of_session h.session, s.link.rx.feed.refines.stop]
  have hm := h.begun.began
  refine ⟨hm, ?_, ?_, h.session, h.begun.awaiting.retains h.session m hm, Nat.le_refl _⟩
  · show (s.ringSeen <|> some s.stream.length) = _
    rw [h.begun.awaiting.unseen, hend]
    rfl
  · rw [← hend]
    exact h.begun.awaiting.began m hm

/-- What was gained stays so, whatever happens beside the session. -/
theorem Reading.aside {ε : Type} {r : Except ε ReadOutcome} (h : Reading m e s)
    (hgains : Gains e s.link.rx gained r) (hk : Kept s s') (op : CallOp) (hop : op.Aside) :
    Reading m e (callAct op s').2 ∧ Gains e (callAct op s').2.link.rx gained r := by
  have hk' : Kept s' (callAct op s').2 := hop.kept
  exact ⟨(h.kept hk).kept hk', (hgains.grow hk.sole.alone).grow hk'.sole.alone⟩

/-- A program of the read half, as a program on the session alone. -/
theorem Reading.session_runs {α : Type} {p : RxProg α} {tr : List CallEvent} {a : α}
    (h : Reading m e s) (hrun : Runs callAct Kept s (onSession p) tr s' a) :
    Reading m e s' ∧ ∃ tr₀, Runs act (Keeps e) s.link.rx p tr₀ s'.link.rx a := by
  obtain ⟨hruns, hend⟩ := hrun.invariant (I := Reading m e) (fun _ _ hk h => h.kept hk)
    (by intro op s hop h; exact h.rx op hop) (onSession_all p) h
  have hkeeps (s s' : Station) (h : Kept s s' ∧ Reading m e s') : Keeps e s.link.rx s'.link.rx :=
    ⟨h.1.sole.alone, h.2.start_le.trans h.2.le⟩
  have hlink : ∃ tr₁, Runs linkAct (fun l l' => Keeps e l.rx l'.rx) s.link (onRing p) tr₁
      s'.link a := hruns.of_lift Station.link (fun op s => rfl) hkeeps
  obtain ⟨tr₁, hlink⟩ := hlink
  exact ⟨hend, hlink.of_lift Link.rx (fun op l => rfl) fun l l' h => h⟩

/-- **Every byte from the beginning of the write on is returned or unread exactly
    if none arrived before the live edge was sampled.** -/
theorem Reading.skips_nothing_iff {r : Except TransactError TransactResult}
    (h : Reading m e s) (hgains : Gains e s.link.rx gained (r.map TransactResult.read)) :
    MissesNothing s r ↔ m = e := by
  have hstream := Station.stream_of_session h.session
  have hle : e ≤ s.stream.length := by
    rw [hstream, ← s.link.rx.feed.refines.stop]
    exact h.le_end
  constructor
  · intro hmisses
    by_contra hne
    have hlt : m < e := Nat.lt_of_le_of_ne h.le hne
    have hm : m < s.stream.length := Nat.lt_of_lt_of_le hlt hle
    rcases hmisses m h.began m (Nat.le_refl m) hm with hreturned | hunread
    · rw [List.getElem?_eq_getElem hm] at hreturned
      rcases r with err | result
      · cases hreturned
      · have hoffset := hgains.fromOffset result.read rfl
        simp only [returnedAt, hoffset] at hreturned
        split_ifs at hreturned with hzero
        · cases hreturned
        · simp only [Option.bind_some, if_neg (Nat.not_le.2 hlt)] at hreturned
          cases hreturned
    · have hcursor := hunread.1
      rw [hgains.cursor_eq] at hcursor
      omega
  · rintro rfl m' hm' i hmi hi
    obtain rfl : m = m' := Option.some.inj (h.began.symm.trans hm')
    by_cases hcursor : s.link.rx.readCursor ≤ i
    · exact .inr ⟨hcursor, h.start_le.trans hmi⟩
    · left
      have hlt : i - m < gained.length := by
        have := hgains.cursor_eq
        omega
      rcases r with err | result
      · rw [hgains.failed ⟨err, rfl⟩] at hlt
        exact absurd hlt (Nat.not_lt_zero _)
      · have hoffset := hgains.fromOffset result.read rfl
        rw [if_neg (by omega)] at hoffset
        simp only [returnedAt, hoffset, Option.bind_some, if_pos hmi]
        rw [hgains.bytes result.read rfl, hstream]
        conv_lhs => rw [hgains.gained_eq]
        rw [stretch, List.getElem?_take_of_lt (by omega), List.getElem?_drop]
        congr 1
        omega

theorem wp_onSession {α : Type} (op : RxOp) (f : op.Resp → CallProg α)
    (Q : List CallEvent → Station → α → Prop) (s : Station) :
    wp callAct Kept (onSession (Prog.perform op) >>= f) Q s ↔ ∀ s₁, Kept s s₁ →
      wp callAct Kept (f (callAct (.link (.rx op)) s₁).1)
        (fun tr => Q (⟨.link (.rx op), (callAct (.link (.rx op)) s₁).1⟩ :: tr))
        (callAct (.link (.rx op)) s₁).2 := Iff.rfl

/-- The request of a plain call returns all it takes. -/
theorem TransactArgs.Plain.whole {defaults : ConnectionDefaults} {matcher : Option Matcher}
    {req : ReadRequest} (hplain : args.Plain defaults)
    (hm : resolveMatcher crates args.matchRequest = .ok matcher) (hmatcher : req.matcher = matcher)
    (hframing : req.framing = resolveField args.rxFraming args.protocol presetRxFraming
      defaults.rxFraming defaults.protocol) : req.Whole := by
  rcases hplain with hnone | ⟨hraw, hcontext⟩
  · rw [hnone] at hm
    cases hm
    exact .inl hmatcher
  · refine .inr ⟨hframing.trans hraw, ?_⟩
    rw [ReadRequest.hasContext, hmatcher]
    rcases hrequest : args.matchRequest with _ | m
    · rw [hrequest] at hm
      cases hm
      rfl
    · rw [hrequest] at hm
      have hnone := hcontext m hrequest
      rcases hvalid : validateMatchRequest crates m with err | m'
      · rw [resolveMatcher, hvalid] at hm
        cases hm
      · rw [resolveMatcher, hvalid] at hm
        cases hm
        obtain ⟨pattern, rfl⟩ := validateMatchRequest_eq_ok hvalid
        exact congrArg Option.isSome hnone

/-- The read from the live edge. -/
theorem Reading.read_wp {req : ReadRequest} (h : Reading m e s)
    (hcursor : s.link.rx.readCursor = e) (hwhole : req.Whole) :
    wp callAct Kept (onSession (readBytesFromRing crates turns req)) (fun _ s' r =>
      Reading m e s' ∧ ∃ gained, Gains e s'.link.rx gained r) s := by
  refine wp_iff.2 fun tr s' r hrun => ?_
  obtain ⟨hend, tr₀, hread⟩ := h.session_runs hrun
  exact ⟨hend, readBytesFromRing_gains hwhole hcursor h.le_end hread⟩

/-- What was recorded changes nothing of it. -/
theorem recordReadCompletion_wp {out : ReadOutcome} {r : Except TransactError ReadOutcome}
    (h : Reading m e s) (hgains : Gains e s.link.rx gained r) :
    wp callAct Kept (recordReadCompletion out) (fun _ s' _ => Reading m e s' ∧
      Gains e s'.link.rx gained r) s := by
  intro s₁ h₁
  obtain ⟨h', hgains'⟩ := h.aside hgains h₁ .recordReadOp trivial
  refine wp_ite (fun _ => ?_) fun _ => ⟨h', hgains'⟩
  intro s₂ h₂
  exact h'.aside hgains' h₂ .recordTruncation trivial

/-- **The read half** from the sampling of the live edge on. -/
theorem readOnSession_wp (hstart : args.start = none) (hplain : args.Plain s₀.defaults)
    (h : Ready s₀ m s) (maxBufferedBytes : ℕ) :
    wp callAct Kept (readOnSession crates turns args maxBufferedBytes) (fun _ s' r =>
      ∃ e gained, Reading m e s' ∧ Gains e s'.link.rx gained r) s := by
  simp only [readOnSession, hstart, Option.getD_none, ReadFrom.resolve, Prog.perform_bind, wp_call]
  intro s₁ h₁ s₂ h₂ s₃ h₃ s₄ h₄
  have hr₁ := (h.kept h₁).aside .defaults trivial
  have hr₂ := hr₁.kept h₂
  have hr₅ := (((hr₂.aside .defaults trivial).kept h₃).aside .defaults trivial).kept h₄
  have hframing : resolveField args.rxFraming args.protocol presetRxFraming
      (callAct .defaults s₁).1.rxFraming (callAct .defaults s₂).1.protocol =
      resolveField args.rxFraming args.protocol presetRxFraming s₀.defaults.rxFraming
        s₀.defaults.protocol := by
    show resolveField _ _ _ s₁.defaults.rxFraming s₂.defaults.protocol = _
    rw [(h.kept h₁).begun.awaiting.defaults, hr₂.begun.awaiting.defaults]
  rw [hframing]
  -- the live edge is where the ring ends, and the cursor is set to it
  refine (wp_onSession .endOffset _ _ _).2 fun s₅ h₅ => ?_
  have hedge := ((hr₅.aside .defaults trivial).kept h₅).sample
  have hanswer : (callAct (.link (.rx .endOffset)) s₅).1 = s₅.link.rx.feed.ring.endOffset := rfl
  rw [hanswer]
  generalize s₅.link.rx.feed.ring.endOffset = e at hedge ⊢
  refine (wp_onSession (.setReadCursor e) _ _ _).2 fun s₆ h₆ => ?_
  have hset := (hedge.kept h₆).rx (.link (.rx (.setReadCursor e))) trivial
  have hcursor : (callAct (.link (.rx (.setReadCursor e))) s₆).2.link.rx.readCursor = e := rfl
  generalize (callAct (.link (.rx (.setReadCursor e))) s₆).2 = s₇ at hset hcursor ⊢
  have hle : e ≤ s₇.link.rx.feed.stream.length := by
    rw [← s₇.link.rx.feed.refines.stop]
    exact hset.le_end
  rcases hm : resolveMatcher crates args.matchRequest with err | matcher
  · exact ⟨e, [], hset, .none hcursor hle rfl⟩
  -- the read
  refine wp_seq (hset.read_wp hcursor (hplain.whole hm rfl rfl)) ?_
  rintro tr s₈ (err | out) ⟨hend, gained, hgains⟩
  · refine ⟨e, gained, hend, hgains.congr ?_ fun _ => ⟨err, rfl⟩⟩
    rintro out ⟨⟩
  · have hgains' : Gains e s₈.link.rx gained (.ok out : Except TransactError ReadOutcome) := by
      refine hgains.congr ?_ ?_
      · rintro out ⟨⟩
        rfl
      · rintro ⟨err, herr⟩
        cases herr
    refine wp_seq (recordReadCompletion_wp hend hgains') ?_
    rintro tr' s₉ u ⟨hend', hgains'⟩
    exact ⟨e, gained, hend', hgains'⟩

/-- How a call ends: without having looked at the ring, or behind a read from the
    live edge. -/
inductive Ended (s₀ s : Station) {ε : Type} (r : Except ε ReadOutcome) : Prop
  | awaiting (h : Awaiting s₀ s) (err : ε) (hr : r = .error err)
  | reading {m e : ℕ} {gained : Bytes} (h : Reading m e s) (hgains : Gains e s.link.rx gained r)

theorem readHalf_wp (hstart : args.start = none) (hplain : args.Plain s₀.defaults)
    (h : Begun s₀ m s) :
    wp callAct Kept (readHalf crates turns args) (fun _ s' r => Ended s₀ s' r) s := by
  simp only [readHalf, Prog.perform_bind, wp_call]
  intro s₁ h₁ s₂ h₂
  generalize (callAct .defaults s₁).1.maxBufferedBytes = maxBufferedBytes
  have hreserve := (((h.kept h₁).aside .defaults trivial).kept h₂).aside
    (.tryReserve maxBufferedBytes) trivial
  rcases (callAct (.tryReserve maxBufferedBytes) s₂).1 with err | u
  · exact .awaiting hreserve.awaiting _ rfl
  intro s₃ h₃
  have hbegun := hreserve.kept h₃
  obtain ⟨ha, hmade, hsame⟩ := hbegun.awaiting.getOrCreate
  have hcreate : Begun s₀ m (callAct .getOrCreate s₃).2 := ⟨ha, hsame.trans hbegun.began⟩
  rcases hanswer : (callAct .getOrCreate s₃).1 with err | u
  -- no session: the reservation is dropped
  · intro s₄ h₄
    exact .awaiting ((hcreate.kept h₄).aside (.giveBack maxBufferedBytes) trivial).awaiting _ rfl
  · refine wp_seq (readOnSession_wp hstart hplain ⟨hcreate, hmade hanswer⟩ maxBufferedBytes) ?_
    rintro tr s₄ r ⟨e, gained, hreading, hgains⟩ s₅ h₅
    obtain ⟨hreading', hgains'⟩ :=
      hreading.aside hgains h₅ (.giveBack maxBufferedBytes) trivial
    exact .reading hreading' hgains'

/-! ## The whole call -/

/-- The history starts with the call. -/
structure Station.Fresh (s : Station) : Prop where
  writeBegan : s.writeBegan = none
  ringSeen : s.ringSeen = none

theorem Station.Fresh.awaiting (h : s.Fresh) : Awaiting s s where
  unseen := h.ringSeen
  began := by
    rw [h.writeBegan]
    rintro m ⟨⟩
  inside := by
    rw [h.writeBegan]
    intro hinside hs
    refine ⟨hinside hs, ?_⟩
    rintro m ⟨⟩
  defaults := rfl
  retains := by
    rw [Station.Retains, h.writeBegan]
    rintro _ m ⟨⟩

/-- How a default call ends. -/
theorem transact_wp (hstart : args.start = none) (hplain : args.Plain s.defaults)
    (hfresh : s.Fresh) :
    wp callAct Kept (transact crates turns args)
      (fun _ s' r => Ended s s' (r.map TransactResult.read)) s := by
  have h := hfresh.awaiting
  unfold transact
  rcases parseEncoding args.encoding with err | encoding
  · exact .awaiting h _ rfl
  dsimp only
  simp only [Prog.perform_bind, wp_call]
  intro s₁ h₁
  have hlookup := (h.kept h₁).aside (.lookup args.connectionId) trivial
  rcases (callAct (.lookup args.connectionId) s₁).1 with _ | name
  · exact .awaiting hlookup _ rfl
  rcases decodeTxPayload crates encoding args.data "transact.data.len()" with err | decoded
  · exact .awaiting hlookup _ rfl
  intro s₂ h₂ s₃ h₃
  have hdefaults := (((hlookup.kept h₂).aside .defaults trivial).kept h₃).aside .defaults trivial
  generalize (callAct .defaults s₃).2 = s₄ at hdefaults ⊢
  dsimp only
  generalize applyTxFraming crates decoded _ "transact.framed_len()" = framed
  rcases framed with err | data
  · exact .awaiting hdefaults _ rfl
  refine wp_seq (txWrite_wp hdefaults data) ?_
  rintro tr s₅ (err | n) ⟨hwrite, hbegan⟩
  · exact .awaiting hwrite _ rfl
  obtain ⟨m, hm⟩ := Option.isSome_iff_exists.1 (hbegan n rfl)
  have hbegun : Begun s m s₅ := ⟨hwrite, hm⟩
  intro s₆ h₆
  refine wp_seq (readHalf_wp hstart hplain ((hbegun.kept h₆).aside .recordWriteOp trivial)) ?_
  rintro tr' s₇ (err | out) hended
  · exact hended
  · exact hended

/-- **What a default call misses.** As long as the ring keeps what arrives since the
    write began, every byte that arrives since then is returned or still unread
    exactly if none arrives before the call looks at the ring. -/
theorem misses_nothing_iff {tr : List CallEvent} {r : Except TransactError TransactResult}
    (hstart : args.start = none) (hplain : args.Plain s.defaults) (hfresh : s.Fresh)
    (hrun : Runs callAct Kept s (transact crates turns args) tr s' r)
    (hinside : s'.ringSeen = none → s.Inside) :
    MissesNothing s' r ↔ ∀ e ∈ s'.ringSeen, s'.writeBegan = some e := by
  cases hrun.wp (transact_wp hstart hplain hfresh) with
  | awaiting h err hr =>
    rw [h.unseen]
    refine ⟨fun _ e he => (by cases he), fun _ m hm i hmi hi => ?_⟩
    have hs : s'.id ∈ s'.rxSessions.sessions := by
      by_contra hs
      rw [Station.stream_of_not hs] at hi
      exact Nat.not_lt_zero i hi
    obtain ⟨-, hcursor⟩ := h.inside (hinside h.unseen) hs
    exact .inr ⟨(hcursor m hm).trans hmi, (h.retains hs m hm).trans hmi⟩
  | @reading m e gained h hgains =>
    rw [h.skips_nothing_iff hgains, h.seen, h.began]
    constructor
    · rintro rfl e' he'
      exact he'
    · intro he
      exact Option.some.inj (he e rfl)

end

/-- The RX pump appends a chunk. -/
def Station.receive (bs : Bytes) (s : Station) : Station :=
  { s with link := { s.link with rx := s.link.rx.receive bs } }

/-- It appends one that the ring has room for. -/
def Station.fill (bs : Bytes) (s : Station) : Station :=
  if (s.receive bs).link.rx.feed.ring.startOffset = s.link.rx.feed.ring.startOffset then
    s.receive bs
  else s

theorem receive_sole (bs : Bytes) (s : Station) : Sole s (s.receive bs) :=
  ⟨⟨receive_rely bs s.link.rx, rfl⟩, rfl, Iff.rfl, rfl, rfl, rfl⟩

theorem fill_kept (bs : Bytes) (s : Station) : Kept s (s.fill bs) := by
  unfold Station.fill
  split_ifs with hroom
  · refine ⟨receive_sole bs s, fun h hs m hm => ?_⟩
    rw [hroom]
    exact h hs m hm
  · exact ⟨.refl s, id⟩

/-- A call that gives up at once. -/
def probe : TransactArgs := { connectionId := "c", data := "AT", timeoutMs := some 0 }

/-- An answer that arrives behind the sampling of the live edge is returned. -/
theorem misses_nothing_answered : ∃ tr s' result,
    Runs callAct Kept idleStation (transact .refusing 1 probe) tr s' (.ok result) ∧
      result.read.bytes = [33] ∧ MissesNothing s' (.ok result) := by
  have hrun : ∃ tr s' result,
      Runs callAct Kept idleStation (transact .refusing 1 probe) tr s' (.ok result) ∧
        result.read.bytes = [33] ∧ s'.ringSeen = some 2 ∧ s'.writeBegan = some 2 := by
    refine ⟨_, _, _, runs_of_run (fun s => ⟨.refl s, id⟩)
      (List.replicate 19 id ++ [Station.fill [33]]) ?_ rfl, rfl, rfl, rfl⟩
    intro move hmove s
    rcases List.mem_append.1 hmove with hmove | hmove
    · rw [List.eq_of_mem_replicate hmove]
      exact ⟨.refl s, id⟩
    · rw [List.mem_singleton.1 hmove]
      exact fill_kept [33] s
  obtain ⟨tr, s', result, hrun, hbytes, hseen, hbegan⟩ := hrun
  refine ⟨tr, s', result, hrun, hbytes, ?_⟩
  refine (misses_nothing_iff rfl (.inl rfl) ⟨rfl, rfl⟩ hrun ?_).2 ?_
  · rw [hseen]
    intro h
    cases h
  · rw [hseen, hbegan]
    exact fun e he => he

/-- An answer that arrives between the write and the sampling of the live edge is
    skipped. -/
theorem early_answer_missed : ¬∀ (crates : Crates) (turns : ℕ) (args : TransactArgs)
    (s s' : Station) (tr : List CallEvent) (r : Except TransactError TransactResult),
    args.start = none → s.Fresh → Runs callAct Sole s (transact crates turns args) tr s' r →
    MissesNothing s' r := by
  intro h
  have hrun : ∃ tr s' result,
      Runs callAct Sole idleStation (transact .refusing 1 probe) tr s' (.ok result) ∧
        result.read.fromOffset = none ∧ s'.writeBegan = some 2 ∧ s'.stream = [104, 105, 33] ∧
        s'.link.rx.readCursor = 3 := by
    refine ⟨_, _, _, runs_of_run Sole.refl
      (List.replicate 15 id ++ [Station.receive [33]]) ?_ rfl, rfl, rfl, rfl, rfl⟩
    intro move hmove s
    rcases List.mem_append.1 hmove with hmove | hmove
    · rw [List.eq_of_mem_replicate hmove]
      exact Sole.refl s
    · rw [List.mem_singleton.1 hmove]
      exact receive_sole [33] s
  obtain ⟨tr, s', result, hrun, hoffset, hbegan, hstream, hcursor⟩ := hrun
  have hmisses := h _ _ _ _ _ _ _ rfl ⟨rfl, rfl⟩ hrun 2 hbegan 2 (Nat.le_refl 2)
    (by rw [hstream]; decide)
  rcases hmisses with hreturned | ⟨hunread, -⟩
  · simp [returnedAt, hoffset, hstream] at hreturned
  · rw [hcursor] at hunread
    exact absurd hunread (by decide)

end Server

end SerialMcp
