/-
  From the calls that write to the frames at the other end of the line.

  Calls frame their payloads and queue them at the TX session (`io_ops.rs`, `tx_session.rs`);
  the other end decodes what the port was given, in chunks of any size.

  * `Transparent`: a TX framing and a decoder of what it sends, with the payloads that come
    through as they are;
  * `Transparent.terminated`, `Transparent.lines`, `Transparent.cobs`: framings that are;
  * `wire_delivers`: in every run of the session, the other end receives each message that
    got to the port once, those of answered calls among them and nothing of refused ones,
    in the order in which they were accepted.
-/
import SerialMcp.Framing.Cobs
import SerialMcp.Framing.Parsed
import SerialMcp.Tx.Order

namespace SerialMcp.Tx

open Tasks
open Connection (Stream)

/-! ## Framings without loss -/

/-- Payloads with the property `P`, framed by `tx`, are received by `d` as they are. -/
structure Transparent (crates : Crates) (tx : TxFramingMode) (d : FrameDecoder)
    (P : Bytes → Prop) (message : Bytes → Bytes) : Prop where
  encode : ∀ p, P p → tx.encode crates p = .ok (message p)
  received : ∀ ps, (∀ p ∈ ps, P p) → ∀ cs : List Bytes, cs.flatten = ps.flatMap message →
    d.received cs = ps ∧ d.faults cs = []

section
variable {crates : Crates} {tx : TxFramingMode} {rx : RxFramingMode} {t : Bytes}

theorem Transparent.terminated (h : TerminatedPair crates tx rx t) :
    ∃ d message, FrameDecoder.new crates ⟨rx, none, false, false⟩ none = .ok d ∧
      Transparent crates tx d (Unambiguous t) message := by
  obtain ⟨mode, message, hmode, hsingle, hterm, hencode⟩ := h.terminates
  refine ⟨_, message, FrameDecoder.new_plain hmode, fun p _ => hencode p, ?_⟩
  intro ps hps cs hcs
  exact hterm.received hsingle hps hcs

theorem Transparent.lines (crates : Crates) :
    ∃ d message, FrameDecoder.new crates ⟨.line .auto, none, false, false⟩ none = .ok d ∧
      Transparent crates (.line .lf) d (fun p => 13 ∉ p ∧ 10 ∉ p) message := by
  refine ⟨_, (· ++ TxLineEnding.lf.bytes), rfl, fun p _ => rfl, ?_⟩
  intro ps hps cs hcs
  have hcuts : FrameDecoder.Cuts .line
      (FrameDecoder.plain (.line .autoLf) false false [] 0) := ⟨⟨rfl, rfl⟩, rfl⟩
  exact ⟨(@auto_received .lf (by decide) ps hps cs hcs).1, hcuts.faults_eq (by decide) cs⟩

theorem Transparent.cobs (crates : Crates) :
    ∃ d message, FrameDecoder.new crates ⟨.cobs, none, false, false⟩ none = .ok d ∧
      Transparent crates .cobs d (fun _ => True) message := by
  refine ⟨_, cobsMessage, FrameDecoder.new_plain (newMode_cobs crates), fun p _ => rfl, ?_⟩
  intro ps _ cs hcs
  have hscan : Incremental.scan (cobsStep false) _ _ = _ := scan_cobsMessages ps
  rw [FrameDecoder.flatMap_kept_false] at hscan
  exact cobs_received hscan hcs

end

/-! ## The line -/

/-- The bytes that the port was given. -/
def PortOp.bytes : PortOp → Bytes
  | .byte b => [b]
  | .clearOutput => []

/-- A call of `write` for the payload `p`, as it is queued, and performed in full. -/
structure Performed.Carries (message : Bytes → Bytes) (r : Performed) (p : Bytes) : Prop where
  op : r.request.op = .write (message p)
  full : r.sent = r.request.op.ops.length

theorem Performed.Carries.bytes {message : Bytes → Bytes} {r : Performed} {p : Bytes}
    (h : r.Carries message p) : r.ops.flatMap PortOp.bytes = message p := by
  have hops : r.ops = (message p).map .byte := by
    rw [Performed.ops, h.full, List.take_length, h.op]
    rfl
  rw [hops, List.flatMap_map]
  exact List.flatMap_singleton' _

section
variable {crates : Crates} {tx : TxFramingMode} {d : FrameDecoder} {P : Bytes → Prop}
  {message : Bytes → Bytes} {s : Link} {stream : Stream} {payload : ℕ → Bytes}

/-- **Every message gets through once, in order.** In a run in which what got to the port are
    messages in full, the other end receives exactly their payloads, however the bytes are cut:
    each request once, those of a session in the order in which they were accepted, all that
    were answered with success, and none that were refused as closed. -/
theorem wire_delivers (hT : Transparent crates tx d P message)
    (h : Runs Task.step AnyMove (Link.opened stream) s)
    (hmessages : ∀ r ∈ s.world.performed, P (payload r.request.ack) ∧
      r.Carries message (payload r.request.ack))
    {cs : List Bytes} (hcs : cs.flatten = s.world.port.flatMap PortOp.bytes) :
    d.received cs = s.world.performed.map (fun r => payload r.request.ack) ∧
      d.faults cs = [] ∧
      (s.world.performed.map (·.request.ack)).Nodup ∧
      (∀ k, (s.world.performedBy k).Sublist (s.world.accepted k)) ∧
      ∀ x a, (x, a) ∈ s.world.replies →
        (∀ done, a = .ok done → ∃ r ∈ s.world.performed, r.request.ack = x) ∧
          (a = .error .connectionClosed → ∀ r ∈ s.world.performed, r.request.ack ≠ x) := by
  have hsound := Sound.of_runs h
  have hbytes : cs.flatten =
      (s.world.performed.map fun r => payload r.request.ack).flatMap message := by
    rw [hcs, hsound.port, List.flatMap_assoc, List.flatMap_map]
    exact List.flatMap_congr fun r hr => (hmessages r hr).2.bytes
  have hpayloads : ∀ p ∈ s.world.performed.map (fun r => payload r.request.ack), P p := by
    intro p hp
    obtain ⟨r, hr, rfl⟩ := List.mem_map.1 hp
    exact (hmessages r hr).1
  obtain ⟨hreceived, hfaults⟩ := hT.received _ hpayloads cs hbytes
  refine ⟨hreceived, hfaults, hsound.nodup, hsound.accepted, ?_⟩
  intro x a ha
  obtain ⟨o, ho, rfl⟩ := hsound.replies x a ha
  have htold := hsound.acks _ ho
  constructor
  · intro done hdone
    rcases o with _ | b
    · cases hdone
    · obtain rfl : b = .ok done := hdone
      obtain ⟨r, hr, hack, -⟩ := htold
      exact ⟨r, hr, hack⟩
  · intro hclosed
    rcases o with _ | b
    · exact htold
    · obtain rfl : b = .error .connectionClosed := hclosed
      exact htold

end

/-- Two writes that are queued one after another, up to the reply to the second. -/
def twoWrites : List (Move Task Input) :=
  [.start (.acquire (.write [65, 66])), .run 0 .go, .run 1 .go, .run 1 .go,
    .start (.acquire (.write [67, 66])), .run 2 .go, .run 2 .go, .run 2 .go,
    .run 0 .go, .run 0 .go, .run 0 (.took 1), .run 0 (.took 1), .run 0 .finished, .run 1 .go,
    .run 0 .go, .run 0 .go, .run 0 (.took 2), .run 0 .finished, .run 1 .go]

/-- What `twoWrites` leads to. -/
def written : Link where
  world := {
    connection := .opened ⟨0⟩
    port := [.byte 65, .byte 66, .byte 67, .byte 66]
    txBytes := 4
    sessions := [⟨true, 0,
      { Channels.Chan.new with taken := [⟨0, .write [65, 66]⟩, ⟨1, .write [67, 66]⟩] }⟩]
    registered := some 0
    nextAck := 2
    acks := [(0, some (.ok (.written 2))), (1, some (.ok (.written 2)))]
    replies := [(0, .ok (.written 2)), (1, .ok (.written 2))]
    performed := [⟨0, ⟨0, .write [65, 66]⟩, 2⟩, ⟨0, ⟨1, .write [67, 66]⟩, 2⟩] }
  tasks := [.idle 0]

theorem twoWrites_runs : Runs Task.step AnyMove (Link.opened ⟨0⟩) written := by
  have hplay : (Link.opened ⟨0⟩).play Task.step twoWrites = some written := rfl
  refine (Runs.of_play (D := AnyMove (Link.opened ⟨0⟩)) ?_ hplay).mono fun hm => hm
  simp [twoWrites, AnyMove, Task.Starts]

/-- The two writes, of payloads that end at the delimiter `B`, cut across the messages. -/
theorem wire_delivers_two : ∃ d,
    FrameDecoder.new .refusing ⟨.delimiter "B" .utf8, none, false, false⟩ none = .ok d ∧
      d.received [[65], [66, 67], [66]] = [[65], [67]] := by
  have hpair : TerminatedPair .refusing (.delimiter "B" .utf8) (.delimiter "B" .utf8) [66] :=
    .delimiter rfl (List.cons_ne_nil _ _)
  obtain ⟨d, message, hnew, hT⟩ := Transparent.terminated hpair
  have hfirst : [65, 66] = message [65] := Except.ok.inj (hT.encode [65] rfl)
  have hsecond : [67, 66] = message [67] := Except.ok.inj (hT.encode [67] rfl)
  let payload (ack : ℕ) : Bytes := if ack = 0 then [65] else [67]
  have hcarries : ∀ r ∈ written.world.performed, Unambiguous [66] (payload r.request.ack) ∧
      r.Carries message (payload r.request.ack) := by
    intro r hr
    rcases List.mem_cons.1 hr with rfl | hr
    · exact ⟨rfl, congrArg TxOp.write hfirst, rfl⟩
    · obtain rfl := List.mem_singleton.1 hr
      exact ⟨rfl, congrArg TxOp.write hsecond, rfl⟩
  have hdelivers := @wire_delivers _ _ _ _ _ _ _ payload hT twoWrites_runs hcarries
    [[65], [66, 67], [66]] rfl
  exact ⟨d, hnew, hdelivers.1⟩

end SerialMcp.Tx
