/-
  Incremental decoders and chunk invariance.

  A decoder is fed input in chunks and, after each chunk, settles: it emits
  outputs and either comes to rest or stops at an error, with the rest of its
  input still buffered.

  * `Lawful`: settling does not look past what it has decided.  More input
    behind a settled decoder gives what settling on all of it would give.
  * `total_eq`: pushing any list of chunks, then settling until no error is
    left, is settling on their concatenation; so two ways of cutting the same
    input give the same outputs, errors and final state (`total_congr`).
  * `Extractor`: decoders that settle by extracting one event after another;
    three laws of a single extraction give `Lawful`.
  * `Alike`: states whose events are the same up to a homomorphism of the
    outputs; so is what they make of any chunks (`Alike.pushAll`).
-/
import Mathlib.Algebra.Group.Basic
import Mathlib.Algebra.Group.Hom.Defs
import Mathlib.Algebra.Ring.Nat
import Mathlib.Tactic.Common

namespace Incremental

variable {D B O X : Type}

/-- A decoder with states `D`, input symbols `B`, outputs `O` and errors `X`. -/
structure Decoder (D B O X : Type) where
  /-- more input -/
  feed : D → List B → D
  /-- emit, and come to rest (no error) or stop at an error -/
  settle : D → O × Option X × D
  /-- a bound on the number of errors still to come -/
  pending : D → ℕ

namespace Decoder
variable [Monoid O] (dec : Decoder D B O X)

/-- Push a list of chunks: the outputs, the errors and the state reached. -/
def pushAll : D → List (List B) → O × List X × D
  | d, [] => (1, [], d)
  | d, c :: cs =>
    let r := dec.settle (dec.feed d c)
    let t := pushAll r.2.2 cs
    (r.1 * t.1, r.2.1.toList ++ t.2.1, t.2.2)

theorem pushAll_append (d : D) (cs cs' : List (List B)) :
    dec.pushAll d (cs ++ cs') =
      ((dec.pushAll d cs).1 * (dec.pushAll (dec.pushAll d cs).2.2 cs').1,
        (dec.pushAll d cs).2.1 ++ (dec.pushAll (dec.pushAll d cs).2.2 cs').2.1,
        (dec.pushAll (dec.pushAll d cs).2.2 cs').2.2) := by
  induction cs generalizing d with
  | nil => simp [pushAll]
  | cons c cs ih => simp [pushAll, ih, mul_assoc]

/-- Settle again after every error, at most `n` times. -/
def drain : ℕ → D → O × List X × D
  | 0, d => (1, [], d)
  | n + 1, d =>
    let r := dec.settle d
    match r.2.1 with
    | none => (r.1, [], r.2.2)
    | some x =>
      let t := drain n r.2.2
      (r.1 * t.1, x :: t.2.1, t.2.2)

/-- Settle until no error is left. -/
def complete (d : D) : O × List X × D := dec.drain (dec.pending d + 1) d

/-- Push the chunks, then settle until no error is left. -/
def total (d : D) (cs : List (List B)) : O × List X × D :=
  let r := dec.pushAll d cs
  let t := dec.complete r.2.2
  (r.1 * t.1, r.2.1 ++ t.2.1, t.2.2)

theorem total_cons (d : D) (c : List B) (cs : List (List B)) : dec.total d (c :: cs) =
    ((dec.settle (dec.feed d c)).1 * (dec.total (dec.settle (dec.feed d c)).2.2 cs).1,
      (dec.settle (dec.feed d c)).2.1.toList ++
        (dec.total (dec.settle (dec.feed d c)).2.2 cs).2.1,
      (dec.total (dec.settle (dec.feed d c)).2.2 cs).2.2) := by
  simp [total, pushAll, mul_assoc]

/-- The laws of a decoder, on the states and further inputs that satisfy `P`. -/
structure Lawful (P : D → List B → Prop) : Prop where
  feed_nil : ∀ d, dec.feed d [] = d
  feed_append : ∀ d a b, dec.feed (dec.feed d a) b = dec.feed d (a ++ b)
  fed : ∀ {d a b}, P d (a ++ b) → P (dec.feed d a) b
  clean : ∀ {d b o d₁}, P d b → dec.settle d = (o, none, d₁) → P d₁ b ∧
    dec.settle (dec.feed d b) =
      (o * (dec.settle (dec.feed d₁ b)).1, (dec.settle (dec.feed d₁ b)).2)
  error : ∀ {d b o x d₁}, P d b → dec.settle d = (o, some x, d₁) → P d₁ b ∧
    dec.settle (dec.feed d b) = (o, some x, dec.feed d₁ b)
  pending_lt : ∀ {d o x d₁}, dec.settle d = (o, some x, d₁) → dec.pending d₁ < dec.pending d

variable {dec} {P : D → List B → Prop}

theorem drain_clean {n : ℕ} {d d₁ : D} {o : O} (h : dec.settle d = (o, none, d₁)) :
    dec.drain (n + 1) d = (o, [], d₁) := by
  simp [drain, h]

theorem drain_error {n : ℕ} {d d₁ : D} {o : O} {x : X} (h : dec.settle d = (o, some x, d₁)) :
    dec.drain (n + 1) d =
      (o * (dec.drain n d₁).1, x :: (dec.drain n d₁).2.1, (dec.drain n d₁).2.2) := by
  simp [drain, h]

/-- More fuel than errors to come changes nothing. -/
theorem Lawful.drain_eq (hL : dec.Lawful P) : ∀ {n : ℕ} {d : D}, dec.pending d < n →
    dec.drain n d = dec.complete d
  | n + 1, d, hn => by
    unfold complete
    rcases h : dec.settle d with ⟨o, _ | x, d₁⟩
    · rw [drain_clean h, drain_clean h]
    · have hlt := hL.pending_lt h
      rw [drain_error h, drain_error h, hL.drain_eq (n := n) (by omega),
        hL.drain_eq (n := dec.pending d) hlt]

theorem complete_clean {d d₁ : D} {o : O} (h : dec.settle d = (o, none, d₁)) :
    dec.complete d = (o, [], d₁) := drain_clean h

theorem Lawful.complete_error (hL : dec.Lawful P) {d d₁ : D} {o : O} {x : X}
    (h : dec.settle d = (o, some x, d₁)) :
    dec.complete d = (o * (dec.complete d₁).1, x :: (dec.complete d₁).2.1,
      (dec.complete d₁).2.2) := by
  rw [complete, drain_error h, hL.drain_eq (hL.pending_lt h)]

/-- Settling on a longer input is settling on a first part, then on the rest. -/
theorem Lawful.complete_feed (hL : dec.Lawful P) {d : D} {b : List B} (hP : P d b) :
    dec.complete (dec.feed d b) =
      ((dec.settle d).1 * (dec.complete (dec.feed (dec.settle d).2.2 b)).1,
        (dec.settle d).2.1.toList ++ (dec.complete (dec.feed (dec.settle d).2.2 b)).2.1,
        (dec.complete (dec.feed (dec.settle d).2.2 b)).2.2) := by
  rcases h : dec.settle d with ⟨o, _ | x, d₁⟩
  · obtain ⟨-, hs⟩ := hL.clean hP h
    rcases h₂ : dec.settle (dec.feed d₁ b) with ⟨o₂, _ | x₂, d₂⟩
    · rw [h₂] at hs
      rw [complete_clean hs, complete_clean h₂]; rfl
    · rw [h₂] at hs
      rw [hL.complete_error hs, hL.complete_error h₂, mul_assoc]; rfl
  · obtain ⟨-, hs⟩ := hL.error hP h
    rw [hL.complete_error hs]; rfl

/-- **Pushing chunks is settling on their concatenation.** -/
theorem Lawful.total_eq (hL : dec.Lawful P) : ∀ {cs : List (List B)} {d : D}, P d cs.flatten →
    dec.total d cs = dec.complete (dec.feed d cs.flatten)
  | [], d, _ => by simp [total, pushAll, hL.feed_nil]
  | c :: cs, d, hP => by
    rw [List.flatten_cons] at hP ⊢
    have hP₁ : P (dec.settle (dec.feed d c)).2.2 cs.flatten := by
      rcases h : dec.settle (dec.feed d c) with ⟨o, _ | x, d₁⟩
      · exact (hL.clean (hL.fed hP) h).1
      · exact (hL.error (hL.fed hP) h).1
    have ih := hL.total_eq hP₁
    rw [← hL.feed_append, hL.complete_feed (hL.fed hP), ← ih]
    simp [total, pushAll, mul_assoc]

/-- **Chunk invariance**: two ways of cutting the same input agree. -/
theorem Lawful.total_congr (hL : dec.Lawful P) {d : D} {cs cs' : List (List B)}
    (hP : P d cs.flatten) (h : cs.flatten = cs'.flatten) : dec.total d cs = dec.total d cs' := by
  rw [hL.total_eq hP, hL.total_eq (h ▸ hP), h]

/-- Settling until no error is left comes to rest. -/
theorem Lawful.settle_complete (hL : dec.Lawful P) : ∀ {n : ℕ} {d : D}, dec.pending d < n →
    P d [] → (dec.settle (dec.complete d).2.2).2.1 = none
  | n + 1, d, hn, hP => by
    rcases h : dec.settle d with ⟨o, _ | x, d₁⟩
    · obtain ⟨-, hs⟩ := hL.clean hP h
      rw [hL.feed_nil, hL.feed_nil, h] at hs
      rw [complete_clean h, ← (Prod.mk.inj hs).2]
    · obtain ⟨hP₁, -⟩ := hL.error hP h
      have hlt := hL.pending_lt h
      rw [hL.complete_error h]
      exact hL.settle_complete (n := n) (by omega) hP₁

/-- After the last settling of `total`, no error is left. -/
theorem Lawful.settle_total (hL : dec.Lawful P) {cs : List (List B)} {d : D}
    (hP : P d cs.flatten) : (dec.settle (dec.total d cs).2.2).2.1 = none := by
  rw [hL.total_eq hP]
  refine hL.settle_complete (Nat.lt_succ_self _) (hL.fed ?_)
  rwa [List.append_nil]

/-- Where no settling fails, pushing chunks is settling once on all of them. -/
theorem Lawful.pushAll_cons (hL : dec.Lawful P)
    (hok : ∀ {d b}, P d b → (dec.settle d).2.1 = none) :
    ∀ {cs : List (List B)} {c : List B} {d : D}, P d (c ++ cs.flatten) →
      dec.pushAll d (c :: cs) = ((dec.settle (dec.feed d (c ++ cs.flatten))).1, [],
        (dec.settle (dec.feed d (c ++ cs.flatten))).2.2)
  | cs, c, d, hP => by
    rcases h : dec.settle (dec.feed d c) with ⟨o, x, d₁⟩
    obtain rfl : x = none := by simpa [h] using hok (hL.fed hP)
    obtain ⟨hP₁, hs⟩ := hL.clean (hL.fed hP) h
    rw [hL.feed_append] at hs
    rcases cs with _ | ⟨c', cs⟩
    · simp [pushAll, h]
    · have ih := hL.pushAll_cons hok hP₁
      rw [List.flatten_cons] at hs ⊢
      rw [hs, pushAll, h, ih]
      rfl

/-- Two ways of cutting the same input agree already after the last chunk, if
    the decoder started at rest and no settling fails. -/
theorem Lawful.pushAll_congr (hL : dec.Lawful P)
    (hok : ∀ {d b}, P d b → (dec.settle d).2.1 = none) {d : D}
    (hrest : dec.settle d = (1, none, d)) {cs cs' : List (List B)} (hP : P d cs.flatten)
    (h : cs.flatten = cs'.flatten) : dec.pushAll d cs = dec.pushAll d cs' := by
  have once : ∀ {cs : List (List B)}, P d cs.flatten →
      dec.pushAll d cs = ((dec.settle (dec.feed d cs.flatten)).1, [],
        (dec.settle (dec.feed d cs.flatten)).2.2) := by
    rintro (_ | ⟨c, cs⟩) hP
    · simp [pushAll, hL.feed_nil, hrest]
    · exact hL.pushAll_cons hok hP
  rw [once hP, once (h ▸ hP), h]

/-- Where outputs can be cancelled, a decoder that has settled has nothing more
    to say. -/
theorem Lawful.settle_again [IsLeftCancelMul O] (hL : dec.Lawful P) {d d₁ : D} {o : O}
    (hP : P d []) (h : dec.settle d = (o, none, d₁)) : dec.settle d₁ = (1, none, d₁) := by
  obtain ⟨-, hs⟩ := hL.clean hP h
  rw [hL.feed_nil, hL.feed_nil, h] at hs
  obtain ⟨ho, hrest⟩ := Prod.mk.inj hs
  exact Prod.ext (left_eq_mul.1 ho) hrest.symm

/-- If no error comes up at all, the last push has already said everything. -/
theorem Lawful.pushAll_eq_total [IsLeftCancelMul O] {Q : D → Prop}
    (hL : dec.Lawful fun d _ => Q d) :
    ∀ {cs : List (List B)} {d : D}, Q d → dec.settle d = (1, none, d) →
      (dec.total d cs).2.1 = [] → dec.pushAll d cs = dec.total d cs
  | [], d, _, hrest, _ => by
    simp [total, pushAll, complete_clean hrest]
  | c :: cs, d, hQ, _, herr => by
    have hfed : Q (dec.feed d c) := hL.fed (b := []) hQ
    rcases h : dec.settle (dec.feed d c) with ⟨o, _ | x, d₁⟩
    · obtain ⟨hQ₁, -⟩ := hL.clean (b := []) hfed h
      have hrest₁ := hL.settle_again hfed h
      rw [total_cons, h] at herr ⊢
      rw [pushAll, h, hL.pushAll_eq_total hQ₁ hrest₁ herr]
    · rw [total_cons, h] at herr
      cases herr

end Decoder

/-! ## Decoders that extract one event after another -/

/-- `next d` is the next event of `d`, if its input determines one, and the
    state after it; without an event, the state the decoder waits in. -/
structure Extractor (D B O X : Type) where
  feed : D → List B → D
  next : D → Option (O × Option X) × D
  pending : D → ℕ

namespace Extractor
variable [Monoid O] (ex : Extractor D B O X)

/-- Extract events until none is left or one is an error. -/
def settle : ℕ → D → O × Option X × D
  | 0, d => (1, none, d)
  | n + 1, d =>
    match ex.next d with
    | (none, d₁) => (1, none, d₁)
    | (some (o, some x), d₁) => (o, some x, d₁)
    | (some (o, none), d₁) =>
      let r := settle n d₁
      (o * r.1, r.2)

/-- The laws of one extraction. -/
structure Lawful (P : D → List B → Prop) : Prop where
  feed_nil : ∀ d, ex.feed d [] = d
  feed_append : ∀ d a b, ex.feed (ex.feed d a) b = ex.feed d (a ++ b)
  fed : ∀ {d a b}, P d (a ++ b) → P (ex.feed d a) b
  event : ∀ {d b e d₁}, P d b → ex.next d = (some e, d₁) →
    P d₁ b ∧ ex.next (ex.feed d b) = (some e, ex.feed d₁ b)
  wait : ∀ {d b d₁}, P d b → ex.next d = (none, d₁) →
    P d₁ b ∧ ex.next (ex.feed d b) = ex.next (ex.feed d₁ b)
  pending_lt : ∀ {d e d₁}, ex.next d = (some e, d₁) → ex.pending d₁ < ex.pending d

/-- The decoder that settles by extraction. -/
def decoder : Decoder D B O X where
  feed := ex.feed
  settle d := ex.settle (ex.pending d + 1) d
  pending := ex.pending

variable {ex} {P : D → List B → Prop}

/-- More fuel than events to come changes nothing. -/
theorem Lawful.settle_eq (hL : ex.Lawful P) : ∀ {n : ℕ} {d : D}, ex.pending d < n →
    ex.settle n d = ex.settle (ex.pending d + 1) d
  | n + 1, d, hn => by
    rcases h : ex.next d with ⟨_ | ⟨o, _ | x⟩, d₁⟩
    · simp [settle, h]
    · have hlt := hL.pending_lt h
      simp only [settle, h, hL.settle_eq (n := n) (d := d₁) (by omega),
        hL.settle_eq (n := ex.pending d) hlt]
    · simp [settle, h]

theorem Lawful.settle_event (hL : ex.Lawful P) {d d₁ : D} {o : O}
    (h : ex.next d = (some (o, none), d₁)) : ex.settle (ex.pending d + 1) d =
      (o * (ex.settle (ex.pending d₁ + 1) d₁).1, (ex.settle (ex.pending d₁ + 1) d₁).2) := by
  simp only [settle, h, hL.settle_eq (hL.pending_lt h)]

/-- Settling with a single `next` equal to another's is settling from it. -/
theorem Lawful.settle_of_next (hL : ex.Lawful P) {d d' : D} (h : ex.next d = ex.next d') :
    ex.settle (ex.pending d + 1) d = ex.settle (ex.pending d' + 1) d' := by
  rcases h' : ex.next d' with ⟨_ | ⟨o, _ | x⟩, d₁⟩
  · simp [settle, h, h']
  · rw [hL.settle_event h', hL.settle_event (h.trans h')]
  · simp [settle, h, h']

private theorem Lawful.settle_feed (hL : ex.Lawful P) : ∀ {n : ℕ} {d : D} {b : List B},
    ex.pending d < n → P d b →
    (∀ o d₁, ex.settle (ex.pending d + 1) d = (o, none, d₁) → P d₁ b ∧
      ex.settle (ex.pending (ex.feed d b) + 1) (ex.feed d b) =
        (o * (ex.settle (ex.pending (ex.feed d₁ b) + 1) (ex.feed d₁ b)).1,
          (ex.settle (ex.pending (ex.feed d₁ b) + 1) (ex.feed d₁ b)).2)) ∧
    (∀ o x d₁, ex.settle (ex.pending d + 1) d = (o, some x, d₁) → P d₁ b ∧
      ex.settle (ex.pending (ex.feed d b) + 1) (ex.feed d b) = (o, some x, ex.feed d₁ b))
  | n + 1, d, b, hn, hP => by
    rcases h : ex.next d with ⟨_ | ⟨o, _ | x⟩, d₁⟩
    · obtain ⟨hP₁, hw⟩ := hL.wait hP h
      refine ⟨fun o' d' hs => ?_, fun o' x' d' hs => ?_⟩
      · simp only [settle, h, Prod.mk.injEq, true_and] at hs
        obtain ⟨rfl, rfl⟩ := hs
        exact ⟨hP₁, by rw [one_mul, hL.settle_of_next hw]⟩
      · simp [settle, h] at hs
    · obtain ⟨hP₁, he⟩ := hL.event hP h
      have hlt := hL.pending_lt h
      obtain ⟨ih₁, ih₂⟩ := hL.settle_feed (n := n) (d := d₁) (b := b) (by omega) hP₁
      refine ⟨fun o' d' hs => ?_, fun o' x' d' hs => ?_⟩
      · rw [hL.settle_event h] at hs
        obtain ⟨rfl, hs₂⟩ := Prod.mk.inj hs
        obtain ⟨hP', hs'⟩ := ih₁ _ _ (Prod.ext rfl hs₂)
        exact ⟨hP', by rw [hL.settle_event he, hs', mul_assoc]⟩
      · rw [hL.settle_event h] at hs
        obtain ⟨rfl, hs₂⟩ := Prod.mk.inj hs
        obtain ⟨hP', hs'⟩ := ih₂ _ _ _ (Prod.ext rfl hs₂)
        exact ⟨hP', by rw [hL.settle_event he, hs']⟩
    · obtain ⟨hP₁, he⟩ := hL.event hP h
      refine ⟨fun o' d' hs => ?_, fun o' x' d' hs => ?_⟩
      · simp [settle, h] at hs
      · simp only [settle, h, Prod.mk.injEq, Option.some.injEq] at hs
        obtain ⟨rfl, rfl, rfl⟩ := hs
        exact ⟨hP₁, by simp [settle, he]⟩

private theorem Lawful.settle_pending_lt (hL : ex.Lawful P) : ∀ {n : ℕ} {d d₁ : D} {o : O} {x : X},
    ex.pending d < n → ex.settle (ex.pending d + 1) d = (o, some x, d₁) →
    ex.pending d₁ < ex.pending d
  | n + 1, d, d', o', x', hn, hs => by
    rcases h : ex.next d with ⟨_ | ⟨o, _ | x⟩, d₁⟩
    · simp [settle, h] at hs
    · have hlt := hL.pending_lt h
      rw [hL.settle_event h] at hs
      obtain ⟨-, hs₂⟩ := Prod.mk.inj hs
      have := hL.settle_pending_lt (n := n) (d := d₁) (by omega) (Prod.ext rfl hs₂)
      omega
    · simp only [settle, h, Prod.mk.injEq] at hs
      obtain ⟨-, -, rfl⟩ := hs
      exact hL.pending_lt h

/-- Where no extraction fails, settling does not. -/
theorem settle_ok {Q : D → Prop} (hstep : ∀ {d e d₁}, Q d → ex.next d = (some e, d₁) →
    e.2 = none ∧ Q d₁) : ∀ {n : ℕ} {d : D}, Q d → (ex.settle n d).2.1 = none
  | 0, d, _ => rfl
  | n + 1, d, hQ => by
    rcases h : ex.next d with ⟨_ | ⟨o, x⟩, d₁⟩
    · simp [settle, h]
    · obtain ⟨hx, hQ₁⟩ := hstep hQ h
      obtain rfl : x = none := hx
      simp only [settle, h]
      exact settle_ok hstep hQ₁

/-- What every extraction keeps, settling keeps; and what every extraction
    puts out, the output of settling is made of. -/
theorem settle_keeps {Q : D → Prop} {G : O → Prop} (hone : G 1)
    (hmul : ∀ {a b}, G a → G b → G (a * b))
    (hstep : ∀ {d e d₁}, Q d → ex.next d = (e, d₁) → Q d₁ ∧ ∀ ox ∈ e, G ox.1) :
    ∀ {n : ℕ} {d : D}, Q d → G (ex.settle n d).1 ∧ Q (ex.settle n d).2.2
  | 0, d, hQ => ⟨hone, hQ⟩
  | n + 1, d, hQ => by
    rcases h : ex.next d with ⟨_ | ⟨o, _ | x⟩, d₁⟩
    · simp only [settle, h]
      exact ⟨hone, (hstep hQ h).1⟩
    · obtain ⟨hQ₁, hG⟩ := hstep hQ h
      obtain ⟨hG', hQ'⟩ := settle_keeps hone hmul hstep (n := n) hQ₁
      simp only [settle, h]
      exact ⟨hmul (hG _ rfl) hG', hQ'⟩
    · obtain ⟨hQ₁, hG⟩ := hstep hQ h
      simp only [settle, h]
      exact ⟨hG _ rfl, hQ₁⟩

/-- Where every extraction puts out what it takes from the input, settling
    does: what `v` sees in a state goes over to what `w` sees in the output. -/
theorem settle_conserves {α : Type} {Q : D → Prop} {v : D → List α} {w : O → List α}
    (hone : w 1 = []) (hmul : ∀ a b, w (a * b) = w a ++ w b)
    (hstep : ∀ {d e d₁}, Q d → ex.next d = (e, d₁) →
      Q d₁ ∧ (e.elim [] fun ox => w ox.1) ++ v d₁ = v d) :
    ∀ {n : ℕ} {d : D}, Q d →
      Q (ex.settle n d).2.2 ∧ w (ex.settle n d).1 ++ v (ex.settle n d).2.2 = v d
  | 0, d, hQ => by
    refine ⟨hQ, ?_⟩
    rw [settle, hone, List.nil_append]
  | n + 1, d, hQ => by
    rcases h : ex.next d with ⟨_ | ⟨o, _ | x⟩, d₁⟩
    · obtain ⟨hQ₁, hv⟩ := hstep hQ h
      simp only [settle, h, hone]
      exact ⟨hQ₁, hv⟩
    · obtain ⟨hQ₁, hv⟩ := hstep hQ h
      obtain ⟨hQ', hv'⟩ := settle_conserves hone hmul hstep (n := n) hQ₁
      simp only [settle, h]
      refine ⟨hQ', ?_⟩
      rw [hmul, List.append_assoc, hv']
      exact hv
    · obtain ⟨hQ₁, hv⟩ := hstep hQ h
      simp only [settle, h]
      exact ⟨hQ₁, hv⟩

/-- **A lawful extraction makes a lawful decoder.** -/
theorem Lawful.decoder (hL : ex.Lawful P) : ex.decoder.Lawful P where
  feed_nil := hL.feed_nil
  feed_append := hL.feed_append
  fed := hL.fed
  clean {_ _ o d₁} hP h := (hL.settle_feed (Nat.lt_succ_self _) hP).1 o d₁ h
  error {_ _ o x d₁} hP h := (hL.settle_feed (Nat.lt_succ_self _) hP).2 o x d₁ h
  pending_lt h := hL.settle_pending_lt (Nat.lt_succ_self _) h

/-- Settling until no error is left, one event after another. -/
theorem Lawful.complete_event (hL : ex.Lawful P) {d d₁ : D} {o : O} {x : Option X}
    (h : ex.next d = (some (o, x), d₁)) : ex.decoder.complete d =
      (o * (ex.decoder.complete d₁).1, x.toList ++ (ex.decoder.complete d₁).2.1,
        (ex.decoder.complete d₁).2.2) := by
  rcases x with _ | x
  · have hs : ex.decoder.settle d = _ := hL.settle_event h
    rcases h₁ : ex.decoder.settle d₁ with ⟨o₁, _ | x₁, d₂⟩
    · have hs' : ex.decoder.settle d = (o * o₁, none, d₂) := by
        rw [hs, show ex.settle (ex.pending d₁ + 1) d₁ = (o₁, none, d₂) from h₁]
      rw [Decoder.complete_clean hs', Decoder.complete_clean h₁]
      rfl
    · have hs' : ex.decoder.settle d = (o * o₁, some x₁, d₂) := by
        rw [hs, show ex.settle (ex.pending d₁ + 1) d₁ = (o₁, some x₁, d₂) from h₁]
      rw [hL.decoder.complete_error hs', hL.decoder.complete_error h₁, mul_assoc]
      rfl
  · have hs : ex.decoder.settle d = (o, some x, d₁) := by
      simp [Extractor.decoder, settle, h]
    exact hL.decoder.complete_error hs

theorem complete_wait {d d₁ : D} (h : ex.next d = (none, d₁)) :
    ex.decoder.complete d = (1, [], d₁) := by
  refine Decoder.complete_clean ?_
  simp [decoder, settle, h]

theorem Lawful.complete_of_next (hL : ex.Lawful P) {d d' : D} (h : ex.next d = ex.next d') :
    ex.decoder.complete d = ex.decoder.complete d' := by
  rcases h' : ex.next d' with ⟨_ | ⟨o, x⟩, d₁⟩
  · rw [complete_wait h', complete_wait (h.trans h')]
  · rw [hL.complete_event h', hL.complete_event (h.trans h')]

end Extractor

/-! ## States that answer alike -/

namespace Extractor
variable {O' : Type} [Monoid O] [Monoid O'] (ex : Extractor D B O X) (g : O →* O')
  (R : D → D → Prop)

/-- The same event up to `g`, or none, with related states after it. -/
def Answers (a b : Option (O × Option X) × D) : Prop :=
  a.1.map (Prod.map g id) = b.1.map (Prod.map g id) ∧ R a.2 b.2

/-- The same outputs up to `g` and the same errors, with related states after them. -/
def Settles {E : Type} (a b : O × E × D) : Prop := g a.1 = g b.1 ∧ a.2.1 = b.2.1 ∧ R a.2.2 b.2.2

/-- Related states answer alike. -/
structure Alike : Prop where
  feed : ∀ {d d'} (b : List B), R d d' → R (ex.feed d b) (ex.feed d' b)
  pending : ∀ {d d'}, R d d' → ex.pending d = ex.pending d'
  next : ∀ {d d'}, R d d' → Answers g R (ex.next d) (ex.next d')

variable {ex g R} {d d' : D}

theorem Settles.behind {a b : O × List X × D} {o o' : O} {x x' : Option X}
    (h : Settles g R a b) (ho : g o = g o') (hx : x = x') :
    Settles g R (o * a.1, x.toList ++ a.2.1, a.2.2) (o' * b.1, x'.toList ++ b.2.1, b.2.2) := by
  obtain ⟨hout, herr, hR⟩ := h
  exact ⟨by rw [map_mul, map_mul, ho, hout], by rw [hx, herr], hR⟩

namespace Alike

theorem settle_succ {n : ℕ} (hn : Answers g R (ex.next d) (ex.next d'))
    (h : ∀ {d d'}, R d d' → Settles g R (ex.settle n d) (ex.settle n d')) :
    Settles g R (ex.settle (n + 1) d) (ex.settle (n + 1) d') := by
  rcases he : ex.next d with ⟨_ | ⟨o, x⟩, d₁⟩ <;> rcases he' : ex.next d' with ⟨_ | ⟨o', x'⟩, d₁'⟩ <;>
    rw [he, he'] at hn <;> obtain ⟨hev, hR⟩ := hn <;>
    simp only [Option.map_some, Option.map_none, Option.some.injEq, reduceCtorEq, Prod.map_apply,
      id_eq, Prod.mk.injEq] at hev
  · simp only [Extractor.settle, he, he']
    exact ⟨rfl, rfl, hR⟩
  · obtain ⟨ho, rfl⟩ := hev
    rcases x with _ | x
    · simp only [Extractor.settle, he, he']
      obtain ⟨hout, herr, hR₂⟩ := h hR
      exact ⟨by rw [map_mul, map_mul, ho, hout], herr, hR₂⟩
    · simp only [Extractor.settle, he, he']
      exact ⟨ho, rfl, hR⟩

theorem settle (h : Alike ex g R) (n : ℕ) (hR : R d d') :
    Settles g R (ex.settle n d) (ex.settle n d') := by
  induction n generalizing d d' with
  | zero => exact ⟨rfl, rfl, hR⟩
  | succ n ih => exact settle_succ (h.next hR) ih

theorem settle_of_answers (h : Alike ex g R) (hp : ex.pending d = ex.pending d')
    (hn : Answers g R (ex.next d) (ex.next d')) :
    Settles g R (ex.decoder.settle d) (ex.decoder.settle d') := by
  show Settles g R (ex.settle (ex.pending d + 1) d) (ex.settle (ex.pending d' + 1) d')
  rw [← hp]
  exact settle_succ hn fun hR => h.settle _ hR

/-- **Related states make the same of any chunks.** -/
theorem pushAll (h : Alike ex g R) (cs : List (List B)) (hR : R d d') :
    Settles g R (ex.decoder.pushAll d cs) (ex.decoder.pushAll d' cs) := by
  induction cs generalizing d d' with
  | nil => exact ⟨rfl, rfl, hR⟩
  | cons c cs ih =>
    have hfed := h.feed c hR
    obtain ⟨hout, herr, hR₁⟩ := h.settle_of_answers (h.pending hfed) (h.next hfed)
    exact (ih hR₁).behind hout herr

/-- States that answer alike once do so too, after the first chunk. -/
theorem pushAll_of_answers (h : Alike ex g R) {c : List B}
    (hp : ex.pending (ex.feed d c) = ex.pending (ex.feed d' c))
    (hn : Answers g R (ex.next (ex.feed d c)) (ex.next (ex.feed d' c))) (cs : List (List B)) :
    Settles g R (ex.decoder.pushAll d (c :: cs)) (ex.decoder.pushAll d' (c :: cs)) := by
  obtain ⟨hout, herr, hR⟩ := h.settle_of_answers hp hn
  exact (h.pushAll cs hR).behind hout herr

end Alike

end Extractor

/-! ## Decoders that take one symbol at a time -/

/-- Take the symbols one after another: outputs, errors and the last state. -/
def scan {S O X : Type} (step : S → B → List O × Option X × S) : S → List B → List O × List X × S
  | st, [] => ([], [], st)
  | st, b :: bs =>
    let r := step st b
    let t := scan step r.2.2 bs
    (r.1 ++ t.1, r.2.1.toList ++ t.2.1, t.2.2)

section
variable {S O X : Type} {step : S → B → List O × Option X × S}

theorem scan_append (st : S) (a b : List B) : scan step st (a ++ b) =
    ((scan step st a).1 ++ (scan step (scan step st a).2.2 b).1,
      (scan step st a).2.1 ++ (scan step (scan step st a).2.2 b).2.1,
      (scan step (scan step st a).2.2 b).2.2) := by
  induction a generalizing st with
  | nil => rfl
  | cons x a ih => simp [scan, ih]

theorem scan_silent {st st₁ : S} {a : List B} (h : scan step st a = ([], [], st₁)) (b : List B) :
    scan step st (a ++ b) = scan step st₁ b := by
  rw [scan_append, h]
  rfl

end

end Incremental
