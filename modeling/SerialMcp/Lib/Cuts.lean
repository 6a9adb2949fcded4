/-
  Pieces cut from a stream by a reader that can fall behind.

  The stream is kept only from a moving limit on.  A reader at offset `q` cuts
  the next piece at `q`, or, if the limit has passed `q`, anywhere up to the
  limit.

  * `Chain`: the pieces cut one after another from the offset `c` on.
  * If the limit never passed the first piece (`anchor`), the pieces lie one
    behind the other (`Chain.contiguous`); otherwise they reach less far than
    the limit and their length (`Chain.lt_limit_add`).
  * `missed`: the offsets that no piece covers, all of them below the limit.
  * `Spells`: losses and deliveries that add up to the stream.
-/
import Mathlib.Algebra.BigOperators.Group.List.Basic
import Mathlib.Algebra.Ring.Nat
import Mathlib.Order.Interval.Finset.Nat

namespace Cuts

variable {α : Type}

/-! ## Segments and pieces -/

/-- The stream from offset `a` up to `b`. -/
def stretch (S : List α) (a b : ℕ) : List α := (S.drop a).take (b - a)

theorem stretch_length {S : List α} {a b : ℕ} (h : b ≤ S.length) :
    (stretch S a b).length = b - a := by
  simp only [stretch, List.length_take, List.length_drop]
  omega

theorem stretch_self (S : List α) (a : ℕ) : stretch S a a = [] := by simp [stretch]

theorem stretch_append (S : List α) {a b c : ℕ} (hab : a ≤ b) (hbc : b ≤ c) :
    stretch S a b ++ stretch S b c = stretch S a c := by
  have hb : b = a + (b - a) := by omega
  have hc : c - a = (b - a) + (c - b) := by omega
  simp only [stretch]
  rw [hc, List.take_add, List.drop_drop, ← hb]

/-- What is appended to the stream does not change its stretchs. -/
theorem stretch_mono {S S' : List α} (h : S <+: S') {a b : ℕ} (hb : b ≤ S.length) :
    stretch S' a b = stretch S a b := by
  obtain ⟨T, rfl⟩ := h
  rcases Nat.le_total a b with hab | hab
  · simp only [stretch]
    rw [List.drop_append_of_le_length (by omega),
      List.take_append_of_le_length (by rw [List.length_drop]; omega)]
  · simp [stretch, Nat.sub_eq_zero_of_le hab]

theorem stretch_take {S : List α} {a b n : ℕ} (h : n ≤ b - a) :
    (stretch S a b).take n = stretch S a (a + n) := by
  simp only [stretch, List.take_take]
  congr 1
  omega

/-- Items at an offset. -/
structure Piece (α : Type) where
  start : ℕ
  items : List α

namespace Piece

/-- The offset behind a piece. -/
def stop (p : Piece α) : ℕ := p.start + p.items.length

/-- The piece has an item at the offset `o`. -/
def Covers (p : Piece α) (o : ℕ) : Prop := p.start ≤ o ∧ o < p.stop

instance (p : Piece α) : DecidablePred p.Covers := fun _ => inferInstanceAs (Decidable (_ ∧ _))

/-- A non-empty piece of the stream `S`. -/
structure Of (S : List α) (p : Piece α) : Prop where
  nonempty : p.items ≠ []
  stop_le : p.stop ≤ S.length
  items_eq : p.items = stretch S p.start p.stop

theorem Of.start_lt {S : List α} {p : Piece α} (h : p.Of S) : p.start < p.stop := by
  have := List.length_pos_of_ne_nil h.nonempty
  simp only [stop]
  omega

theorem Of.mono {S S' : List α} {p : Piece α} (h : p.Of S) (hS : S <+: S') : p.Of S' :=
  ⟨h.nonempty, h.stop_le.trans hS.length_le,
    h.items_eq.trans (stretch_mono hS h.stop_le).symm⟩

end Piece

/-! ## Chains of pieces -/

/-- From `p`, a reader goes on at `q`: right there, or cut off by the limit. -/
def Resumes (limit p q : ℕ) : Prop := q = p ∨ p < q ∧ q ≤ limit

theorem Resumes.le {limit p q : ℕ} (h : Resumes limit p q) : p ≤ q := by
  rcases h with rfl | h <;> omega

theorem Resumes.mono {limit limit' p q : ℕ} (h : Resumes limit p q) (hl : limit ≤ limit') :
    Resumes limit' p q := by
  rcases h with rfl | h
  · exact .inl rfl
  · exact .inr ⟨h.1, h.2.trans hl⟩

theorem Resumes.trans {limit p q r : ℕ} (h₁ : Resumes limit p q) (h₂ : Resumes limit q r) :
    Resumes limit p r := by
  rcases h₁ with rfl | h₁
  · exact h₂
  · rcases h₂ with rfl | h₂
    · exact .inr h₁
    · exact .inr ⟨by omega, h₂.2⟩

/-- All items, in order. -/
def items (ps : List (Piece α)) : List α := ps.flatMap Piece.items

/-- Where the first piece starts; `c` if there is none. -/
def anchor (c : ℕ) (ps : List (Piece α)) : ℕ := (ps.head?.map Piece.start).getD c

@[simp] theorem items_nil : items ([] : List (Piece α)) = [] := rfl

@[simp] theorem items_snoc (ps : List (Piece α)) (p : Piece α) :
    items (ps ++ [p]) = items ps ++ p.items := by simp [items]

theorem items_append (ps ps' : List (Piece α)) : items (ps ++ ps') = items ps ++ items ps' :=
  List.flatMap_append ..

theorem flatten_items (ps : List (Piece α)) : (ps.map Piece.items).flatten = items ps :=
  (List.flatMap_def ..).symm

@[simp] theorem anchor_nil (c : ℕ) : anchor c ([] : List (Piece α)) = c := rfl

@[simp] theorem anchor_cons (c : ℕ) (p : Piece α) (ps : List (Piece α)) :
    anchor c (p :: ps) = p.start := rfl

theorem anchor_snoc {ps : List (Piece α)} (h : ps ≠ []) (c : ℕ) (p : Piece α) :
    anchor c (ps ++ [p]) = anchor c ps := by
  obtain ⟨p₀, ps, rfl⟩ := List.exists_cons_of_ne_nil h
  rfl

/-- The pieces cut from the stream `S`, from the offset `c` on; the last
    argument is the offset behind the last one. -/
inductive Chain (S : List α) (limit c : ℕ) : List (Piece α) → ℕ → Prop where
  | nil : Chain S limit c [] c
  | snoc {ps q p} (h : Chain S limit c ps q) (hr : Resumes limit q p.start) (hp : p.Of S) :
      Chain S limit c (ps ++ [p]) p.stop

namespace Chain

variable {S S' : List α} {limit limit' c q : ℕ} {ps : List (Piece α)}

theorem mono (h : Chain S limit c ps q) (hS : S <+: S') (hl : limit ≤ limit') :
    Chain S' limit' c ps q := by
  induction h with
  | nil => exact .nil
  | snoc _ hr hp ih => exact .snoc ih (hr.mono hl) (hp.mono hS)

theorem single {p : Piece α} (hr : Resumes limit c p.start) (hp : p.Of S) :
    Chain S limit c [p] p.stop := by
  rw [← List.nil_append [p]]
  exact .snoc .nil hr hp

theorem stop_le (h : Chain S limit c ps q) (hc : c ≤ S.length) : q ≤ S.length := by
  cases h with
  | nil => exact hc
  | snoc _ _ hp => exact hp.stop_le

theorem stop_of_nil (h : Chain S limit c ps q) (hps : ps = []) : q = c := by
  cases h with
  | nil => rfl
  | snoc => simp at hps

theorem anchor_resumes (h : Chain S limit c ps q) : Resumes limit c (anchor c ps) := by
  induction h with
  | nil => exact .inl rfl
  | @snoc ps q p h hr hp ih =>
    rcases eq_or_ne ps [] with rfl | hne
    · obtain rfl := h.stop_of_nil rfl
      exact hr
    · rw [anchor_snoc hne]; exact ih

/-- Unless the limit has passed `c`, the first piece starts there. -/
theorem anchor_eq (h : Chain S limit c ps q) (hl : limit ≤ c) : anchor c ps = c := by
  rcases h.anchor_resumes with ha | ha
  · exact ha
  · omega

/-- Every piece covers its items, so the chain reaches at least that far. -/
theorem anchor_add_le (h : Chain S limit c ps q) : anchor c ps + (items ps).length ≤ q := by
  induction h with
  | nil => simp
  | @snoc ps q p h hr hp ih =>
    have := hr.le
    rw [items_snoc, List.length_append, Piece.stop]
    rcases eq_or_ne ps [] with rfl | hne
    · simp
    · rw [anchor_snoc hne]; omega

theorem le (h : Chain S limit c ps q) : c ≤ q := by
  have h₁ := h.anchor_resumes.le
  have h₂ := h.anchor_add_le
  omega

theorem piece_stop_le (h : Chain S limit c ps q) {p : Piece α} (hp : p ∈ ps) : p.stop ≤ q := by
  induction h with
  | nil => simp at hp
  | @snoc ps q p' h hr hp' ih =>
    rcases List.mem_append.1 hp with hp | hp
    · have h₁ := ih hp
      have h₂ := hr.le
      have h₃ := hp'.start_lt
      omega
    · rw [List.mem_singleton.1 hp]

theorem piece_of (h : Chain S limit c ps q) {p : Piece α} (hp : p ∈ ps) : p.Of S := by
  induction h with
  | nil => simp at hp
  | @snoc ps q p' h hr hp' ih =>
    rcases List.mem_append.1 hp with hp | hp
    · exact ih hp
    · rw [List.mem_singleton.1 hp]; exact hp'

/-- A single piece lies where a limit at its own start would have put it. -/
theorem single_self {p : Piece α} (h : Chain S limit c [p] q) :
    Chain S p.start c [p] p.stop := by
  refine .single ?_ (h.piece_of (List.mem_singleton_self p))
  rcases (h.anchor_resumes).le.eq_or_lt with he | hlt
  · exact .inl he.symm
  · exact .inr ⟨hlt, Nat.le_refl _⟩

theorem items_pos (h : Chain S limit c ps q) (hne : ps ≠ []) : 0 < (items ps).length := by
  cases h with
  | nil => exact absurd rfl hne
  | snoc _ _ hp =>
    have := List.length_pos_of_ne_nil hp.nonempty
    rw [items_snoc, List.length_append]
    omega

/-- **A limit that has not passed the first piece leaves no gaps behind it.** -/
theorem contiguous (h : Chain S limit c ps q) (hl : limit ≤ anchor c ps) :
    q = anchor c ps + (items ps).length ∧ items ps = stretch S (anchor c ps) q := by
  induction h with
  | nil => simp [stretch_self]
  | @snoc ps q p h hr hp ih =>
    rcases eq_or_ne ps [] with rfl | hne
    · refine ⟨by rw [items_snoc]; rfl, ?_⟩
      rw [items_snoc]
      exact hp.items_eq
    · rw [anchor_snoc hne] at hl ⊢
      obtain ⟨hq, hi⟩ := ih hl
      have hs : p.start = q := by
        rcases hr with hr | hr
        · exact hr
        · have := h.anchor_add_le; omega
      refine ⟨by rw [items_snoc, List.length_append, Piece.stop]; omega, ?_⟩
      have hlt := hp.start_lt
      rw [items_snoc, hi, hp.items_eq, hs, stretch_append] <;> omega

/-- Pieces that begin below the limit reach less far than it and their length. -/
theorem lt_limit_add (h : Chain S limit c ps q) (hne : ps ≠ []) (hl : anchor c ps < limit) :
    q < limit + (items ps).length := by
  induction h with
  | nil => exact absurd rfl hne
  | @snoc ps q p h hr hp ih =>
    rw [items_snoc, List.length_append, Piece.stop]
    rcases eq_or_ne ps [] with rfl | hne'
    · simp only [List.nil_append, anchor_cons, items_nil, List.length_nil] at hl ⊢
      omega
    · rw [anchor_snoc hne'] at hl
      have h₁ := ih hne' hl
      have h₂ := h.items_pos hne'
      rcases hr with hr | hr <;> omega

/-- The limit clamps the start of the chain to its anchor, as long as it has
    not passed it. -/
theorem max_limit (h : Chain S limit c ps q) (hl : limit ≤ anchor c ps) :
    max c limit = anchor c ps := by
  rcases h.anchor_resumes with ha | ha <;> omega

end Chain

/-! ## Missed offsets -/

/-- The offsets from `c` up to `f` that no piece covers. -/
def missed (c f : ℕ) (ps : List (Piece α)) : Finset ℕ :=
  (Finset.Ico c f).filter fun o => ∀ p ∈ ps, ¬p.Covers o

theorem mem_missed {c f o : ℕ} {ps : List (Piece α)} :
    o ∈ missed c f ps ↔ (c ≤ o ∧ o < f) ∧ ∀ p ∈ ps, ¬p.Covers o := by
  simp [missed, Finset.mem_filter, Finset.mem_Ico]

theorem missed_card_eq_zero {c f : ℕ} {ps : List (Piece α)} :
    (missed c f ps).card = 0 ↔ ∀ o, c ≤ o → o < f → ∃ p ∈ ps, p.Covers o := by
  rw [Finset.card_eq_zero, Finset.eq_empty_iff_forall_notMem]
  refine forall_congr' fun o => ?_
  rw [mem_missed]
  push Not
  exact and_imp

namespace Chain

variable {S : List α} {limit c q f : ℕ} {ps : List (Piece α)}

theorem covered_of_le (h : Chain S limit c ps q) {o : ℕ} (hl : limit ≤ o) (hc : c ≤ o)
    (hq : o < q) : ∃ p ∈ ps, p.Covers o := by
  induction h with
  | nil => omega
  | @snoc ps q p h hr hp ih =>
    by_cases ho : o < q
    · obtain ⟨p', hp', hcov⟩ := ih ho
      exact ⟨p', by simp [hp'], hcov⟩
    · refine ⟨p, by simp, ?_, hq⟩
      rcases hr with hr | hr <;> omega

theorem missed_lt (h : Chain S limit c ps q) (hf : f ≤ q) {o : ℕ} (ho : o ∈ missed c f ps) :
    o < limit := by
  obtain ⟨⟨hc, hof⟩, hun⟩ := mem_missed.1 ho
  by_contra hl
  obtain ⟨p, hp, hcov⟩ := h.covered_of_le (by omega) hc (by omega)
  exact hun p hp hcov

theorem anchor_le_of_covers (h : Chain S limit c ps q) {p : Piece α} (hp : p ∈ ps) :
    anchor c ps ≤ p.start := by
  induction h with
  | nil => simp at hp
  | @snoc ps q p' h hr hp' ih =>
    rcases eq_or_ne ps [] with rfl | hne
    · rw [List.mem_singleton.1 hp]
      exact Nat.le_refl _
    · rw [anchor_snoc hne]
      rcases List.mem_append.1 hp with hp | hp
      · exact ih hp
      · rw [List.mem_singleton.1 hp]
        have h₁ := h.anchor_add_le
        have h₂ := hr.le
        omega

theorem anchor_covered (h : Chain S limit c ps q) (hne : ps ≠ []) :
    ∃ p ∈ ps, p.Covers (anchor c ps) := by
  induction h with
  | nil => exact absurd rfl hne
  | @snoc ps q p h hr hp ih =>
    rcases eq_or_ne ps [] with rfl | hne'
    · exact ⟨p, by simp, Nat.le_refl _, hp.start_lt⟩
    · obtain ⟨p', hp', hcov⟩ := ih hne'
      exact ⟨p', by simp [hp'], by rwa [anchor_snoc hne']⟩

theorem missed_card (h : Chain S limit c ps q) (hl : limit ≤ anchor c ps) (hf : f ≤ q) :
    (missed c f ps).card = min (anchor c ps) f - c := by
  have ha := h.anchor_resumes.le
  have : missed c f ps = Finset.Ico c (min (anchor c ps) f) := by
    ext o
    rw [mem_missed, Finset.mem_Ico]
    constructor
    · rintro ⟨⟨hc, hof⟩, hun⟩
      refine ⟨hc, ?_⟩
      by_contra ho
      obtain ⟨p, hp, hcov⟩ := h.covered_of_le (o := o) (by omega) hc (by omega)
      exact hun p hp hcov
    · rintro ⟨hc, ho⟩
      refine ⟨⟨hc, by omega⟩, fun p hp hcov => ?_⟩
      have h₁ := h.anchor_le_of_covers hp
      have h₂ := hcov.1
      omega
  rw [this, Nat.card_Ico]

/-- A chain that the limit has passed misses fewer offsets than the limit
    passed: one of those it does cover. -/
theorem missed_card_lt (h : Chain S limit c ps q) (hne : ps ≠ []) (hl : anchor c ps < limit)
    (hf : f ≤ q) : (missed c f ps).card < limit - c := by
  have ha := h.anchor_resumes.le
  have hsub : missed c f ps ⊂ Finset.Ico c limit := by
    refine (Finset.ssubset_iff_of_subset fun o ho => ?_).2 ⟨anchor c ps, ?_, fun hmem => ?_⟩
    · have h₁ := (mem_missed.1 ho).1.1
      have h₂ := h.missed_lt hf ho
      exact Finset.mem_Ico.2 ⟨h₁, h₂⟩
    · exact Finset.mem_Ico.2 ⟨ha, hl⟩
    · obtain ⟨p, hp, hcov⟩ := h.anchor_covered hne
      exact (mem_missed.1 hmem).2 p hp hcov
  have := Finset.card_lt_card hsub
  rwa [Nat.card_Ico] at this

end Chain

/-! ## Deliveries -/

/-- The number of items that lie below the offset `f`. -/
def countBelow (f : ℕ) (ps : List (Piece α)) : ℕ :=
  (ps.map fun p => min p.items.length (f - p.start)).sum

theorem countBelow_eq {f : ℕ} {ps : List (Piece α)} (h : ∀ p ∈ ps, p.stop ≤ f) :
    countBelow f ps = (items ps).length := by
  induction ps with
  | nil => rfl
  | cons p ps ih =>
    have hp := h p (by simp)
    have ht := ih fun p' hp' => h p' (by simp [hp'])
    simp only [countBelow, items, List.map_cons, List.sum_cons, List.flatMap_cons,
      List.length_append, Piece.stop] at ht hp ⊢
    omega

/-- From the offset `c` on, each delivery is preceded by a gap of the size it
    reports; the last argument is the offset behind the last one. -/
inductive Spells (S : List α) (c : ℕ) : List (ℕ × List α) → ℕ → Prop where
  | nil : Spells S c [] c
  | snoc {ds q lost items} (h : Spells S c ds q) (hle : q + lost + items.length ≤ S.length)
      (hi : items = stretch S (q + lost) (q + lost + items.length)) :
      Spells S c (ds ++ [(lost, items)]) (q + lost + items.length)

namespace Spells

variable {S S' : List α} {c q : ℕ} {ds : List (ℕ × List α)}

theorem mono (h : Spells S c ds q) (hS : S <+: S') : Spells S' c ds q := by
  induction h with
  | nil => exact .nil
  | snoc _ hle hi ih =>
    refine .snoc ih (hle.trans hS.length_le) ?_
    rwa [stretch_mono hS hle]

theorem le (h : Spells S c ds q) : c ≤ q := by
  induction h with
  | nil => exact Nat.le_refl _
  | snoc _ _ _ ih => omega

theorem stop_le (h : Spells S c ds q) (hc : c ≤ S.length) : q ≤ S.length := by
  cases h with
  | nil => exact hc
  | snoc _ hle _ => exact hle

theorem stop_eq (h : Spells S c ds q) : q = c + (ds.map fun d => d.1 + d.2.length).sum := by
  induction h with
  | nil => rfl
  | snoc _ _ _ ih =>
    rw [List.map_append, List.sum_append, ← Nat.add_assoc, ← ih]
    simp only [List.map_cons, List.map_nil, List.sum_cons, List.sum_nil]
    omega

theorem stretch_eq (h : Spells S c ds q) :
    ∃ gaps : List (List α), gaps.map List.length = ds.map Prod.fst ∧
      stretch S c q = (gaps.zipWith (· ++ ·) (ds.map Prod.snd)).flatten := by
  induction h with
  | nil => exact ⟨[], rfl, stretch_self S c⟩
  | @snoc ds q lost items h hle hi ih =>
    obtain ⟨gaps, hg, hseg⟩ := ih
    have hcq := h.le
    refine ⟨gaps ++ [stretch S q (q + lost)], ?_, ?_⟩
    · simp [hg, stretch_length (show q + lost ≤ S.length by omega)]
    · have hlen : gaps.length = (ds.map Prod.snd).length := by
        simpa using congrArg List.length hg
      rw [List.map_append, List.zipWith_append hlen, List.flatten_append, ← hseg]
      simp only [List.map_cons, List.map_nil, List.zipWith_cons_cons, List.zipWith_nil_right,
        List.flatten_cons, List.flatten_nil, List.append_nil]
      rw [← stretch_append S hcq (show q ≤ q + lost + items.length by omega),
        ← stretch_append S (show q ≤ q + lost by omega) (Nat.le_add_right _ items.length), ← hi]

end Spells

end Cuts
