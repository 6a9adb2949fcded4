/-
  Decoders whose output is that of another decoder, translated.

  A `Translation` takes the states of one extractor to those of another, and its outputs,
  with a state of its own in which it may count; it gives one event for one event.

  * `Translation.settle`, `Translation.pushAll`: so it does for what they make of any
    chunks, with the same errors.
-/
import SerialMcp.Lib.Incremental

namespace Incremental

variable {D D' B O O' X : Type} [Monoid O] [Monoid O']

/-- The translation of one extractor, in the states that satisfy `Q`, into another. -/
structure Translation (S : Type) (ex : Extractor D B O X) (ex' : Extractor D' B O' X)
    (Q : D → Prop) where
  state : S → D → D'
  out : S → O → O' × S
  out_one : ∀ s, out s 1 = (1, s)
  out_mul : ∀ s a b, out s (a * b) =
    ((out s a).1 * (out (out s a).2 b).1, (out (out s a).2 b).2)
  feed : ∀ s d c, ex'.feed (state s d) c = state s (ex.feed d c)
  pending : ∀ s d, ex'.pending (state s d) = ex.pending d
  keeps_feed : ∀ {d} (c), Q d → Q (ex.feed d c)
  keeps_next : ∀ {d}, Q d → Q (ex.next d).2
  wait : ∀ {s d d₁}, Q d → ex.next d = (none, d₁) → ex'.next (state s d) = (none, state s d₁)
  event : ∀ {s d o x d₁}, Q d → ex.next d = (some (o, x), d₁) →
    ex'.next (state s d) = (some ((out s o).1, x), state (out s o).2 d₁)

namespace Translation
variable {S : Type} {ex : Extractor D B O X} {ex' : Extractor D' B O' X} {Q : D → Prop}
  (t : Translation S ex ex' Q) {d : D}

/-- An output, an error or errors, and a state, translated. -/
def result {E : Type} (s : S) (r : O × E × D) : O' × E × D' :=
  ((t.out s r.1).1, r.2.1, t.state (t.out s r.1).2 r.2.2)

theorem extractor_settle (n : ℕ) (s : S) (hQ : Q d) :
    ex'.settle n (t.state s d) = t.result s (ex.settle n d) ∧ Q (ex.settle n d).2.2 := by
  induction n generalizing s d with
  | zero =>
    simp only [Extractor.settle, result, t.out_one]
    exact ⟨trivial, hQ⟩
  | succ n ih =>
    have hkept := t.keeps_next hQ
    rcases hnext : ex.next d with ⟨_ | ⟨o, _ | x⟩, d₁⟩
    all_goals rw [hnext] at hkept
    · simp only [Extractor.settle, hnext, t.wait hQ hnext, result, t.out_one]
      exact ⟨trivial, hkept⟩
    · obtain ⟨hrest, hrestKept⟩ := ih (t.out s o).2 hkept
      simp only [Extractor.settle, hnext, t.event hQ hnext, hrest, result, t.out_mul]
      exact ⟨trivial, hrestKept⟩
    · simp only [Extractor.settle, hnext, t.event hQ hnext, result]
      exact ⟨trivial, hkept⟩

theorem settle (s : S) (hQ : Q d) :
    ex'.decoder.settle (t.state s d) = t.result s (ex.decoder.settle d) ∧
      Q (ex.decoder.settle d).2.2 := by
  show ex'.settle (ex'.pending (t.state s d) + 1) (t.state s d) = _ ∧ _
  rw [t.pending]
  exact t.extractor_settle (ex.pending d + 1) s hQ

/-- **The translation of what becomes of any chunks.** -/
theorem pushAll (cs : List (List B)) (s : S) (hQ : Q d) :
    ex'.decoder.pushAll (t.state s d) cs = t.result s (ex.decoder.pushAll d cs) ∧
      Q (ex.decoder.pushAll d cs).2.2 := by
  induction cs generalizing s d with
  | nil =>
    simp only [Decoder.pushAll, result, t.out_one]
    exact ⟨trivial, hQ⟩
  | cons c cs ih =>
    have hfed : ex'.decoder.feed (t.state s d) c = t.state s (ex.decoder.feed d c) := t.feed s d c
    obtain ⟨hone, hkept⟩ := t.settle (d := ex.decoder.feed d c) s (t.keeps_feed c hQ)
    obtain ⟨hrest, hrestKept⟩ := ih (t.out s (ex.decoder.settle (ex.decoder.feed d c)).1).2 hkept
    refine ⟨?_, hrestKept⟩
    simp only [Decoder.pushAll, hfed, hone, result, hrest, t.out_mul]

end Translation

end Incremental
