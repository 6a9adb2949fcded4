/-
  Reads of one connection at the same time.

  Any number of raw `read` calls without `from` run interleaved, operation by
  operation, on one connection; the ring grows in between and does not wrap.

  * `readFromPrivateCursor_all`: the core of a read never touches the shared
    cursor.
  * `read_wpg`: what a raw read guarantees, whatever the other reads do.
  * `Orderly`: the reads that finished have consumed different stretches of the
    stream, all in front of the shared cursor.
  * `reads_apart`: this holds in every interleaving in which each store of the
    cursor finds the value that its read loaded last.
-/
import SerialMcp.Read.Delivery

namespace SerialMcp

open Interact RxOp Cuts

/-! ## The core of a read leaves the cursor alone -/

/-- Operations that do not touch the shared cursor. -/
def RxOp.Private : RxOp → Prop
  | .readCursor | .setReadCursor _ => False
  | _ => True

theorem RxOp.Samples.private {op : RxOp} (h : op.Samples) : op.Private := by
  cases op with
  | readCursor => cases h
  | setReadCursor off => cases h
  | _ => trivial

theorem advancePrivateCursor_all (base n : ℕ) : (advancePrivateCursor base n).All Private :=
  (advancePrivateCursor_samples base n).mono fun _ => RxOp.Samples.private

theorem wrapPrivateCursor_all (base n : ℕ) : (wrapPrivateCursor base n).All Private :=
  (wrapPrivateCursor_samples base n).mono fun _ => RxOp.Samples.private

theorem complete_all (drv : ReadDriver) (c : ReadCompletion) : (drv.complete c).All Private :=
  (complete_samples drv c).mono fun _ => RxOp.Samples.private

theorem processInitial_all (drv : ReadDriver) (s : RingSlice) :
    (processInitial drv s).All Private :=
  (processInitial_samples drv s).mono fun _ => RxOp.Samples.private

theorem processLiveChunk_all (drv : ReadDriver) (s : RingSlice) :
    (processLiveChunk drv s).All Private := by
  refine ⟨trivial, fun now => ?_⟩
  dsimp only [Prog.bind]
  split
  · exact (wrapPrivateCursor_all _ _).bind fun _ => trivial
  · refine .ite ?_ trivial
    exact (advancePrivateCursor_all _ _).bind fun _ => trivial

theorem pauseCheck_all (drv : ReadDriver) : (pauseCheck drv).All Private := by
  have hdown : (do
      if ← isReconnectEnabled then do
        let now ← clock
        pure (DisconnectState.reconnecting (drv.ctrl.resetSilenceTimer now))
      else pure .closed).All Private :=
    ⟨trivial, fun _ => .ite ⟨trivial, fun _ => trivial⟩ trivial⟩
  refine .ite ⟨trivial, fun conn => ?_⟩ trivial
  rcases conn with _ | _ | _ | _
  · exact trivial
  · exact hdown
  · exact hdown
  · exact trivial

theorem idleStop_all (drv : ReadDriver) (outcome : RxStopOutcome) {cursor : RxProg ℕ}
    (h : cursor.All Private) : (idleStop drv outcome cursor).All Private :=
  h.bind fun _ => trivial

theorem waitOnce_all (drv : ReadDriver) (clocked : ℕ) : (waitOnce drv clocked).All Private := by
  have hsat := advancePrivateCursor_all drv.originalCursor drv.acc.consumedOffset
  have hwrap := wrapPrivateCursor_all drv.originalCursor drv.acc.consumedOffset
  refine (pauseCheck_all drv).bind fun d => ?_
  rcases d with _ | ctrl | _
  · refine ⟨trivial, fun now => ?_⟩
    dsimp only [Prog.bind]
    split
    · exact idleStop_all _ _ hsat
    · refine ⟨trivial, fun now' => ?_⟩
      dsimp only [Prog.bind]
      split
      · exact idleStop_all _ _ hsat
      · refine ⟨trivial, fun _ => ⟨trivial, fun wake => ?_⟩⟩
        rcases wake with _ | _ | _
        · exact idleStop_all _ _ hwrap
        · exact ⟨trivial, fun s => .ite trivial (processLiveChunk_all drv s)⟩
        · exact trivial
  · exact ⟨trivial, fun _ => trivial⟩
  · exact idleStop_all _ _ hwrap

theorem runWait_all (turns : ℕ) (drv : ReadDriver) (clocked : ℕ) :
    (runWait turns drv clocked).All Private := by
  induction turns generalizing drv clocked with
  | zero => exact trivial
  | succ turns ih =>
    refine (waitOnce_all drv clocked).bind fun step => ?_
    rcases step with ⟨drv', clocked'⟩ | ⟨drv', c⟩
    · exact ih drv' clocked'
    · exact (complete_all drv' c).bind fun _ => trivial

/-- **The core of a read never touches the shared cursor.** -/
theorem readFromPrivateCursor_all (crates : Crates) (turns : ℕ) (req : ReadRequest) (c : ℕ) :
    (readFromPrivateCursor crates turns req c).All Private := by
  refine ⟨trivial, fun readStart => ⟨trivial, fun s => ?_⟩⟩
  dsimp only [Prog.bind]
  rcases buildDecoder crates req with e | d₀
  · exact trivial
  · refine (processInitial_all _ s).bind fun r => ?_
    rcases r with e | d
    · exact trivial
    rcases d with drv | ⟨drv, compl⟩ | ⟨out, final⟩
    · exact runWait_all turns drv _
    · exact (complete_all drv compl).bind fun _ => trivial
    · exact trivial

/-! ## What a read guarantees -/

/-- The last value of the cursor that a trace loaded. -/
def lastLoaded (tr : List RxEvent) : ℕ :=
  tr.foldl (fun n e => match e with
    | ⟨.readCursor, c⟩ => c
    | _ => n) 0

/-- The last value of the cursor that a trace stored. -/
def lastStored (tr : List RxEvent) : ℕ :=
  tr.foldl (fun n e => match e.1 with
    | .setReadCursor off => off
    | _ => n) 0

theorem lastLoaded_load (tr : List RxEvent) (c : ℕ) :
    lastLoaded (tr ++ [⟨.readCursor, c⟩]) = c := by simp [lastLoaded]

theorem lastLoaded_store (tr : List RxEvent) (off : ℕ) :
    lastLoaded (tr ++ [⟨.setReadCursor off, ()⟩]) = lastLoaded tr := by simp [lastLoaded]

theorem lastStored_store (tr : List RxEvent) (off : ℕ) :
    lastStored (tr ++ [⟨.setReadCursor off, ()⟩]) = off := by simp [lastStored]

theorem lastLoaded_private (tr : List RxEvent) {tr' : List RxEvent}
    (h : ∀ e ∈ tr', e.1.Private) : lastLoaded (tr ++ tr') = lastLoaded tr := by
  induction tr' using List.reverseRecOn with
  | nil => rw [List.append_nil]
  | append_singleton tr' e ih =>
    rw [← List.append_assoc, ← ih fun e' he' => h e' (by simp [he'])]
    obtain ⟨op, r⟩ := e
    have hop : op.Private := h ⟨op, r⟩ (by simp)
    cases op <;> first | exact hop.elim | simp [lastLoaded]

/-- The ring still holds everything from the cursor on. -/
def InRange (w : World) : Prop :=
  w.feed.ring.startOffset ≤ w.readCursor ∧ w.readCursor ≤ w.feed.ring.endOffset

/-- What a read relies on: the others append without wrapping the ring, and
    leave the cursor in range. -/
structure Shared (w w' : World) : Prop where
  rely : Rely w w'
  start : w'.feed.ring.startOffset = w.feed.ring.startOffset
  inRange : InRange w → InRange w'

theorem Shared.refl (w : World) : Shared w w := ⟨Rely.refl w, rfl, id⟩

theorem Shared.trans {w w' w'' : World} (h : Shared w w') (h' : Shared w' w'') : Shared w w'' :=
  ⟨h.rely.trans h'.rely, h'.start.trans h.start, fun hr => h'.inRange (h.inRange hr)⟩

/-- An operation that does not touch the cursor changes nothing. -/
theorem act_private (op : RxOp) (w : World) (h : op.Private) : Shared w (act op w).2 := by
  cases op <;> first | exact Shared.refl w | exact h.elim

/-- What a read guarantees: it stores no cursor behind the one it loaded last,
    and none out of range. -/
def Guarantee (tr : List RxEvent) (w : World) : RxOp → Prop
  | .setReadCursor off => lastLoaded tr ≤ off ∧
      w.feed.ring.startOffset ≤ off ∧ off ≤ w.feed.ring.endOffset
  | _ => True

/-- What a finished read returned: bytes of the stretch between the cursor it
    loaded last and the one it stored at its end. -/
structure Returned (tr : List RxEvent) (w : World) (out : ReadOutcome) : Prop where
  last : ∃ tr' final, tr = tr' ++ [⟨.setReadCursor final, ()⟩]
  le : lastLoaded tr ≤ lastStored tr
  stored_le : lastStored tr ≤ w.feed.stream.length
  bytes : out.bytes <:+: stretch w.feed.stream (lastLoaded tr) (lastStored tr)

theorem Returned.of_store {tr : List RxEvent} {w : World} {out : ReadOutcome} {c final : ℕ}
    (hload : lastLoaded tr = c) (hle : c ≤ final) (hfinal : final ≤ w.feed.stream.length)
    (hbytes : out.bytes <:+: stretch w.feed.stream c final) :
    Returned (tr ++ [⟨.setReadCursor final, ()⟩]) w out := by
  refine ⟨⟨_, _, rfl⟩, ?_, ?_, ?_⟩
  · rwa [lastLoaded_store, lastStored_store, hload]
  · rwa [lastStored_store]
  · rwa [lastLoaded_store, lastStored_store, hload]

theorem Returned.grow {tr : List RxEvent} {w w' : World} {out : ReadOutcome}
    (h : Returned tr w out) (hR : Shared w w') : Returned tr w' out := by
  have hpre : w.feed.stream <+: w'.feed.stream := Feed.Grows.stream hR.rely
  refine ⟨h.last, h.le, h.stored_le.trans hpre.length_le, ?_⟩
  rw [stretch_mono hpre h.stored_le]
  exact h.bytes

section
variable {req : ReadRequest} {c : ℕ} {s₀ : RingSlice} {f : Feed} {start : ℕ}
  {ps : List (Piece UInt8)} {out : ReadOutcome} {final : ℕ}

/-- A raw read from a cursor in range returns bytes between it and the final one. -/
theorem Report.within (h : Report req c none s₀ f start ps out final) (hfresh : req.Fresh)
    (hraw : req.framing = none) (hc : c ≤ f.stream.length) (hstart : start ≤ c) :
    c ≤ final ∧ final ≤ f.stream.length ∧ out.bytes <:+: stretch f.stream c final := by
  obtain ⟨q, hchain, -, hend⟩ := h.ended
  have ho : ¬CountsTwice req s₀ := fun h => by simp [CountsTwice, hraw] at h
  have hanchor : start ≤ anchor c ps := hstart.trans hchain.anchor_resumes.le
  have hmax := hchain.max_limit hanchor
  obtain ⟨hq, hitems⟩ := hchain.contiguous hanchor
  have hqle := hchain.stop_le hc
  have hac : anchor c ps = c := by omega
  rw [hac] at hq hitems
  -- whole pieces, or the front of the first one
  have hfront {n : ℕ} (hps : ps = [s₀.piece]) (hn : n ≤ s₀.bytes.length)
      (hin : out.bytes <:+: s₀.bytes.take n) (hfinal : final = s₀.fromOffset + n) :
      c ≤ final ∧ final ≤ f.stream.length ∧ out.bytes <:+: stretch f.stream c final := by
    subst hps
    have hfrom : s₀.fromOffset = c := hac
    rw [items_piece] at hq hitems
    refine ⟨by omega, by omega, ?_⟩
    have htake := stretch_take (S := f.stream) (a := c) (b := q) (n := n) (by omega)
    rwa [hfinal, hfrom, ← htake, ← hitems]
  cases hend with
  | slice hhist hne hsated hreason hfinal hmeasured hbytes hinside hframes hclean hmatch =>
    obtain rfl := hfinal ho
    refine ⟨by omega, hqle, ?_⟩
    rw [← hitems]
    exact hinside rfl hfresh
  | idle hhist hunsated hreason hmatched hfinal hmeasured hbytes hframes hclean =>
    obtain rfl : final = q := (hfinal ho).trans (by omega)
    refine ⟨by omega, hqle, ?_⟩
    rw [← hitems, hbytes ho]
  | @history n hhist hctx hps hn hfinal hmeasured hbytes hreason hmatched hframes =>
    exact hfront hps hn (hbytes ▸ List.infix_refl _) hfinal
  | @context n hhist hctx hps hn hfinal hfrom hnext hlost hbytes hreason hmatched hframes =>
    exact hfront hps hn hbytes.isInfix hfinal

end

section
variable {crates : Crates} {turns : ℕ} {req : ReadRequest} {w : World}

/-- The core of a raw read, from a cursor in range. -/
theorem readFromPrivateCursor_within (hraw : req.framing = none) (hfresh : req.Fresh) {c : ℕ}
    (hstart : w.feed.ring.startOffset ≤ c) (hend : c ≤ w.feed.ring.endOffset) :
    wp act Shared (readFromPrivateCursor crates turns req c) (fun _ w' r => Shared w w' ∧
      ∀ out final, r = .ok (out, final) → c ≤ final ∧ final ≤ w'.feed.stream.length ∧
        out.bytes <:+: stretch w'.feed.stream c final) w := by
  refine wp_iff.2 ?_
  intro tr w' r hr
  have hshared : Shared w w' :=
    hr.rely Shared.refl (fun _ _ _ => Shared.trans) act_private (readFromPrivateCursor_all _ _ _ _)
  refine ⟨hshared, ?_⟩
  rintro out final rfl
  have hrely := hr.mono fun _ _ hR => hR.rely
  obtain ⟨d₀, hd, hrep⟩ := readFromPrivateCursor_report hrely (le_initialSlice hrely hend)
  have hd₀ : d₀ = none := by
    have := buildDecoder_isSome hd
    rw [hraw] at this
    simpa using this
  subst hd₀
  refine hrep.within hfresh hraw ?_ ?_
  · rw [← w'.feed.refines.stop]
    exact hend.trans (Feed.Grows.end_le hshared.rely)
  · exact hrep.start_le.trans (hshared.start.trans_le hstart)

/-- **What a raw read guarantees**, from a world with the cursor in range. -/
theorem read_wpg (hraw : req.framing = none) (hfresh : req.Fresh) (hw : InRange w) :
    wpg act Shared Guarantee (read crates turns req .cursor)
      (fun tr w' r => ∀ out, r = .ok out → Returned tr w' out) [] w := by
  simp only [read, ReadFrom.resolve, readBytesFromRing, Prog.perform_bind]
  intro w₁ h₁
  refine ⟨trivial, ?_⟩
  have hw₁ : InRange w₁ := h₁.inRange hw
  intro w₂ h₂
  have hlow : w₂.feed.ring.startOffset ≤ w₁.readCursor := h₂.start.trans_le hw₁.1
  have hhigh : w₁.readCursor ≤ w₂.feed.ring.endOffset :=
    hw₁.2.trans (Feed.Grows.end_le h₂.rely)
  refine ⟨⟨Nat.le_refl _, hlow, hhigh⟩, ?_⟩
  intro w₃ h₃
  refine ⟨trivial, ?_⟩
  have hw₃ : InRange w₃ := h₃.inRange ⟨hlow, hhigh⟩
  have hG : ∀ tr w op, Private op → Guarantee tr w op := by
    intro tr w op hop
    cases op <;> first | exact trivial | exact hop.elim
  refine wpg_seq (wpg_of_all hG (readFromPrivateCursor_all _ _ _ _)
    (readFromPrivateCursor_within hraw hfresh hw₃.1 hw₃.2) _) ?_
  rintro _ w₄ r ⟨trp, rfl, hP, hshared, hr⟩
  rcases r with e | ⟨out, final⟩
  · intro out hout
    cases hout
  obtain ⟨hle, hfinal, hbytes⟩ := hr out final rfl
  have hload (tr : List RxEvent) :
      lastLoaded ((tr ++ [⟨.readCursor, w₃.readCursor⟩]) ++ trp) = w₃.readCursor := by
    rw [lastLoaded_private _ hP, lastLoaded_load]
  intro w₅ h₅
  have hpre : w₄.feed.stream <+: w₅.feed.stream := Feed.Grows.stream h₅.rely
  have hstop := w₅.feed.refines.stop
  have hle₅ := hpre.length_le
  have hs₅ := (hshared.trans h₅).start
  refine ⟨⟨(hload _).trans_le hle, ?_, ?_⟩, ?_⟩
  · exact hs₅.trans_le (hw₃.1.trans hle)
  · omega
  · rintro _ ⟨⟩
    refine .of_store (hload _) hle (hfinal.trans hle₅) ?_
    show out.bytes <:+: stretch w₅.feed.stream _ _
    rwa [stretch_mono hpre hfinal]

end

/-! ## Reads interleaved -/

/-- A read in progress. -/
abbrev ReadThread := Thread RxOp RxOp.Resp (Except Stuck ReadOutcome)

/-- Reads in progress on one connection. -/
abbrev ReadPool := Pool RxOp RxOp.Resp (Except Stuck ReadOutcome) World

/-- Between the operations of the reads the ring grows without wrapping, and
    nobody else moves the cursor. -/
structure NoWrap (w w' : World) : Prop where
  rely : Rely w w'
  start : w'.feed.ring.startOffset = w.feed.ring.startOffset
  cursor : w'.readCursor = w.readCursor

theorem NoWrap.shared {w w' : World} (h : NoWrap w w') : Shared w w' := by
  refine ⟨h.rely, h.start, ?_⟩
  intro hw
  rw [InRange, h.start, h.cursor]
  exact ⟨hw.1, hw.2.trans (Feed.Grows.end_le h.rely)⟩

/-- A raw `read` without `from`, with a matcher that has seen nothing yet. -/
def RawRead (crates : Crates) (p : RxProg (Except Stuck ReadOutcome)) : Prop :=
  ∃ turns req, req.framing = none ∧ req.Fresh ∧ p = read crates turns req .cursor

/-- A store of the cursor finds the value that its read loaded last. -/
def StoreFinds (s : ReadPool) : Pool.Move RxOp RxOp.Resp (Except Stuck ReadOutcome) World → Prop
  | .act i (.setReadCursor _) => ∀ t ∈ s.threads[i]?, s.world.readCursor = lastLoaded t.done
  | _ => True

instance (s : ReadPool) (m : Pool.Move RxOp RxOp.Resp (Except Stuck ReadOutcome) World) :
    Decidable (StoreFinds s m) :=
  match m with
  | .env _ => .isTrue trivial
  | .spawn _ => .isTrue trivial
  | .act i op =>
    match op with
    | .setReadCursor _ =>
      inferInstanceAs (Decidable (∀ t ∈ s.threads[i]?, s.world.readCursor = lastLoaded t.done))
    | .readFrom .. | .startOffset | .endOffset | .now | .connState | .reconnectEnabled
    | .select .. | .sleep _ | .readCursor => .isTrue trivial

/-- The outcome of a read that has finished. -/
def finished (t : ReadThread) : Option ReadOutcome :=
  match t.rest with
  | .ret (.ok out) => some out
  | _ => none

/-- The offsets a finished read consumed. -/
def span (t : ReadThread) : Finset ℕ := Finset.Ico (lastLoaded t.done) (lastStored t.done)

/-- Different finished reads consumed different offsets. -/
def Apart (s : ReadPool) : Prop :=
  ∀ (i j : ℕ) (t t' : ReadThread), i ≠ j → s.threads[i]? = some t → s.threads[j]? = some t' →
    (finished t).isSome = true → (finished t').isSome = true → Disjoint (span t) (span t')

/-- No byte of the stream is returned twice: a read returns bytes it consumed,
    and no two reads consumed the same. -/
structure NoRepeat (s : ReadPool) : Prop where
  bytes : ∀ t ∈ s.threads, ∀ out ∈ finished t,
    out.bytes <:+: stretch s.world.feed.stream (lastLoaded t.done) (lastStored t.done)
  apart : Apart s

/-- The invariant of reads at the same time: what finished reads consumed lies
    in front of the cursor. -/
structure Orderly (s : ReadPool) : Prop where
  inRange : InRange s.world
  holds : Pool.Holds act Shared Guarantee
    (fun tr w r => ∀ out, r = .ok out → Returned tr w out) s
  below : ∀ t ∈ s.threads, (finished t).isSome = true → lastStored t.done ≤ s.world.readCursor
  apart : Apart s

theorem finished_some {t : ReadThread} {out : ReadOutcome} (h : finished t = some out) :
    t.rest = .ret (.ok out) := by
  unfold finished at h
  split at h
  · next heq => rw [heq, Option.some.inj h]
  · cases h

theorem read_not_finished (crates : Crates) (turns : ℕ) (req : ReadRequest) :
    finished ⟨[], read crates turns req .cursor⟩ = none := rfl

section
variable {crates : Crates} {s s' : ReadPool}
  {m : Pool.Move RxOp RxOp.Resp (Except Stuck ReadOutcome) World}

/-- What a finished read of a pool returned. -/
theorem Returned.of_holds
    (h : Pool.Holds act Shared Guarantee (fun tr w r => ∀ out, r = .ok out → Returned tr w out) s)
    {t : ReadThread} (ht : t ∈ s.threads) {out : ReadOutcome} (hout : finished t = some out) :
    Returned t.done s.world out := by
  have := h t ht
  rw [finished_some hout] at this
  exact this out rfl

theorem Orderly.noRepeat (h : Orderly s) : NoRepeat s where
  bytes _ ht _ hout := (Returned.of_holds h.holds ht hout).bytes
  apart := h.apart

theorem Apart.set (h : Apart s) {i : ℕ} {t : ReadThread} {w : World}
    (hnew : (finished t).isSome = true → ∀ t' ∈ s.threads, (finished t').isSome = true →
      Disjoint (span t') (span t)) : Apart ⟨w, s.threads.set i t⟩ := by
  intro a b ta tb hab ha hb hfa hfb
  rw [List.getElem?_set] at ha hb
  by_cases hai : i = a
  · subst hai
    rw [if_neg hab] at hb
    rw [if_pos rfl] at ha
    split at ha
    · cases ha
      exact (hnew hfa tb (List.mem_of_getElem? hb) hfb).symm
    · cases ha
  · rw [if_neg hai] at ha
    by_cases hbi : i = b
    · subst hbi
      rw [if_pos rfl] at hb
      split at hb
      · cases hb
        exact hnew hfb ta (List.mem_of_getElem? ha) hfa
      · cases hb
    · rw [if_neg hbi] at hb
      exact h a b ta tb hab ha hb hfa hfb

theorem Apart.spawn (h : Apart s) {t : ReadThread} (ht : finished t = none) :
    Apart ⟨s.world, s.threads ++ [t]⟩ := by
  have hold {i : ℕ} {t' : ReadThread} (hi : (s.threads ++ [t])[i]? = some t')
      (hf : (finished t').isSome = true) : s.threads[i]? = some t' := by
    rw [List.getElem?_append] at hi
    split at hi
    · exact hi
    · obtain rfl := List.mem_singleton.1 (List.mem_of_getElem? hi)
      simp [ht] at hf
  intro a b ta tb hab ha hb hfa hfb
  exact h a b ta tb hab (hold ha hfa) (hold hb hfb) hfa hfb

/-- An operation other than a store of the cursor leaves the cursor alone. -/
theorem act_readCursor {op : RxOp} (h : ∀ off, op ≠ .setReadCursor off) (w : World) :
    (act op w).2.readCursor = w.readCursor := by
  cases op <;> first | rfl | exact absurd rfl (h _)

/-- **Step**: a step whose store finds what its read loaded keeps the invariant,
    and the cursor does not move backwards. -/
theorem Orderly.step (h : Orderly s) (hs : Pool.Step act NoWrap (RawRead crates) s m s')
    (hm : StoreFinds s m) : Orderly s' ∧ s.world.readCursor ≤ s'.world.readCursor := by
  have hkeep : InRange s'.world ∧ Pool.Holds act Shared Guarantee
      (fun tr w r => ∀ out, r = .ok out → Returned tr w out) s' := by
    refine hs.holds Shared.refl (fun _ _ _ => Shared.trans) (fun _ _ hR hI => hR.inRange hI)
      (fun _ _ => NoWrap.shared) ?_ ?_ ?_ ⟨h.inRange, h.holds⟩
    · intro tr w op hG
      cases op <;> first | exact act_private _ w trivial | skip
      · exact Shared.refl w
      · exact ⟨Rely.refl w, rfl, fun _ => hG.2⟩
    · intro tr w w' r hR hQ out hout
      exact (hQ out hout).grow hR
    · rintro p ⟨turns, req, hraw, hfresh, rfl⟩ w hw
      exact read_wpg hraw hfresh hw
  obtain ⟨hrange, hholds⟩ := hkeep
  cases hs with
  | env hw =>
    refine ⟨⟨hrange, hholds, ?_, h.apart⟩, hw.cursor.ge⟩
    intro t ht hf
    exact (h.below t ht hf).trans hw.cursor.ge
  | @spawn p hp =>
    obtain ⟨turns, req, -, -, rfl⟩ := hp
    refine ⟨⟨hrange, hholds, ?_, h.apart.spawn rfl⟩, Nat.le_refl _⟩
    intro t ht hf
    rcases List.mem_append.1 ht with ht | ht
    · exact h.below t ht hf
    · obtain rfl := List.mem_singleton.1 ht
      simp [read_not_finished] at hf
  | @act i tr op k hi =>
    have hmem := List.mem_of_getElem? hi
    have hlt := (List.getElem?_eq_some_iff.1 hi).1
    -- the thread that moved has only finished if it stored the cursor
    have hlast (hf : (finished ⟨tr ++ [⟨op, (act op s.world).1⟩], k (act op s.world).1⟩).isSome =
        true) : ∃ off, op = .setReadCursor off := by
      obtain ⟨out, hout⟩ := Option.isSome_iff_exists.1 hf
      obtain ⟨tr', final, heq⟩ := (Returned.of_holds hholds (List.mem_set hlt _) hout).last
      obtain ⟨-, hop⟩ := List.append_inj' heq rfl
      exact ⟨final, congrArg Sigma.fst (List.singleton_inj.1 hop)⟩
    by_cases hstore : ∃ off, op = .setReadCursor off
    · obtain ⟨off, rfl⟩ := hstore
      have hfind : s.world.readCursor = lastLoaded tr := hm _ hi
      have hg : lastLoaded tr ≤ off := (h.holds.guarantee Shared.refl hi).1
      have hle : s.world.readCursor ≤ off := hfind.trans_le hg
      refine ⟨⟨hrange, hholds, ?_, h.apart.set ?_⟩, hle⟩
      · intro t ht hf
        rcases List.mem_or_eq_of_mem_set ht with ht | rfl
        · exact (h.below t ht hf).trans hle
        · exact (lastStored_store tr off).le
      · intro _ t' ht' hf'
        have hbelow := h.below t' ht' hf'
        rw [span, span, Finset.disjoint_left]
        intro o ho ho'
        rw [Finset.mem_Ico] at ho ho'
        have hload : lastLoaded (tr ++ [⟨.setReadCursor off, ()⟩]) = _ := lastLoaded_store tr off
        have : lastLoaded (tr ++ [⟨.setReadCursor off, ()⟩]) ≤ o := ho'.1
        omega
    · have hcur : (act op s.world).2.readCursor = s.world.readCursor :=
        act_readCursor (fun off hop => hstore ⟨off, hop⟩) s.world
      refine ⟨⟨hrange, hholds, ?_, h.apart.set fun hf => absurd (hlast hf) hstore⟩, hcur.ge⟩
      intro t ht hf
      rcases List.mem_or_eq_of_mem_set ht with ht | rfl
      · exact (h.below t ht hf).trans hcur.ge
      · exact absurd (hlast hf) hstore

/-- **Run**: the invariant holds in every state of a run. -/
theorem Orderly.steps (h : Orderly s)
    (hs : Pool.Steps act NoWrap (RawRead crates) StoreFinds s s') :
    Orderly s' ∧ s.world.readCursor ≤ s'.world.readCursor := by
  induction hs with
  | refl => exact ⟨h, Nat.le_refl _⟩
  | tail _ hm hC ih =>
    obtain ⟨h', hle⟩ := ih
    obtain ⟨h'', hle'⟩ := h'.step hm hC
    exact ⟨h'', hle.trans hle'⟩

theorem Orderly.start {w : World} (hw : InRange w) : Orderly ⟨w, []⟩ := by
  refine ⟨hw, ?_, ?_, ?_⟩
  · intro t ht
    cases ht
  · intro t ht
    cases ht
  · intro i j t t' _ hi
    simp at hi

/-- **Reads at the same time.** In every interleaving of raw reads without a
    ring wrap, in which each store of the cursor finds the value that its read
    loaded last: no byte of the stream is returned twice, and the cursor never
    moves backwards. -/
theorem reads_apart {w : World} (hw : InRange w)
    (h : Pool.Steps act NoWrap (RawRead crates) StoreFinds ⟨w, []⟩ s)
    (h' : Pool.Steps act NoWrap (RawRead crates) StoreFinds s s') :
    NoRepeat s' ∧ s.world.readCursor ≤ s'.world.readCursor := by
  obtain ⟨horderly, -⟩ := (Orderly.start hw).steps h
  obtain ⟨horderly', hle⟩ := horderly.steps h'
  exact ⟨horderly'.noRepeat, hle⟩

end

/-- A read of at most two bytes of what is there. -/
def catRead : RxProg (Except Stuck ReadOutcome) := read .refusing 0 { maxBytes := 2 } .cursor

theorem catRead_raw : RawRead .refusing catRead := ⟨0, { maxBytes := 2 }, rfl, nofun, rfl⟩

/-- Two such reads, about to start. -/
theorem two_reads (C : ReadPool → Pool.Move RxOp RxOp.Resp (Except Stuck ReadOutcome) World → Prop)
    (hC : ∀ s p, C s (.spawn p)) :
    Pool.Steps act NoWrap (RawRead .refusing) C ⟨buffered, []⟩
      ⟨buffered, [⟨[], catRead⟩, ⟨[], catRead⟩]⟩ :=
  (Pool.Steps.refl.tail (.spawn catRead_raw) (hC _ _)).tail (.spawn catRead_raw) (hC _ _)

theorem buffered_inRange : InRange buffered := ⟨by decide, by decide⟩

/-- One read after the other. -/
theorem reads_apart_in_turn : ∃ s, NoRepeat s ∧ buffered.readCursor ≤ s.world.readCursor ∧
    s.threads.map (fun t => (finished t).map (·.bytes)) = [some [111, 107], some [33]] :=
  ⟨_, (reads_apart buffered_inRange (two_reads StoreFinds fun _ _ => trivial)
      (Pool.Steps.refl.plays (List.replicate 12 0 ++ List.replicate 12 1) rfl)).1,
    (reads_apart buffered_inRange (two_reads StoreFinds fun _ _ => trivial)
      (Pool.Steps.refl.plays (List.replicate 12 0 ++ List.replicate 12 1) rfl)).2, rfl⟩

/-- Two reads that load the cursor before either stores its end return the same
    bytes. -/
theorem reads_not_apart : ¬∀ (crates : Crates) (w : World) (s s' : ReadPool), InRange w →
    Pool.Steps act NoWrap (RawRead crates) (fun _ _ => True) ⟨w, []⟩ s →
    Pool.Steps act NoWrap (RawRead crates) (fun _ _ => True) s s' →
    NoRepeat s' ∧ s.world.readCursor ≤ s'.world.readCursor := by
  intro h
  have hrun := (two_reads (fun _ _ => True) fun _ _ => trivial).plays
    (List.replicate 3 0 ++ List.replicate 3 1 ++ List.replicate 9 0 ++ List.replicate 9 1) rfl
  have := (h _ _ _ _ buffered_inRange hrun .refl).1.apart 0 1 _ _ (by decide) rfl rfl rfl rfl
  exact absurd this (by decide)

end SerialMcp
