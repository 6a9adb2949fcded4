/-
  Programs that act on a shared state, one atomic operation at a time.

  A program (`Prog`) either returns or performs an operation and goes on with
  its response.  Between two operations of a program the environment may
  change the shared state, as far as the rely relation `R` allows.

  * `Runs`: the executions of one program under interference, with the trace
    of its operations and their responses; `run` executes a program against a
    list of environment moves.
  * `wp`: the weakest precondition of a postcondition over trace, final state
    and result, with its rules (`wp_bind`, `wp_mono`, `wp_seq`) and its
    adequacy (`wp_iff`).
  * `wpg`: the same with a guarantee on every operation, when it is performed.
  * `Mirrors`: two programs that perform the same operations.
  * `Pool`: any number of programs interleaved on one state, with the rule
    `Step.holds`: what each program guarantees under `R` on its own holds in
    every interleaving whose moves all lie in `R`.
-/
import Mathlib.Logic.Relation
import Mathlib.Tactic.Common

namespace Interact

/-- A program over the operations `Op`, whose responses have the types `Resp`. -/
inductive Prog (Op : Type) (Resp : Op → Type) (α : Type) : Type
  | ret (a : α) : Prog Op Resp α
  | call (op : Op) (k : Resp op → Prog Op Resp α) : Prog Op Resp α

/-- An operation performed, with its response. -/
abbrev Event (Op : Type) (Resp : Op → Type) : Type := (op : Op) × Resp op

variable {Op : Type} {Resp : Op → Type} {α β W : Type}

namespace Prog

/-- Sequential composition. -/
protected def bind : Prog Op Resp α → (α → Prog Op Resp β) → Prog Op Resp β
  | ret a, f => f a
  | call op k, f => call op fun r => (k r).bind f

instance : Monad (Prog Op Resp) where
  pure := ret
  bind := Prog.bind

/-- Perform one operation. -/
def perform (op : Op) : Prog Op Resp (Resp op) := call op ret

@[simp] theorem pure_eq (a : α) : (pure a : Prog Op Resp α) = ret a := rfl

@[simp] theorem ret_bind (a : α) (f : α → Prog Op Resp β) : (ret a >>= f) = f a := rfl

@[simp] theorem call_bind (op : Op) (k : Resp op → Prog Op Resp α) (f : α → Prog Op Resp β) :
    (call op k >>= f) = call op fun r => k r >>= f := rfl

@[simp] theorem perform_bind (op : Op) (f : Resp op → Prog Op Resp β) :
    (perform op >>= f) = call op f := rfl

end Prog

open Prog

section
variable (act : (op : Op) → W → Resp op × W) (R : W → W → Prop)

/-- The executions of a program from a state: before each operation the
    environment makes an `R`-move. -/
inductive Runs : W → Prog Op Resp α → List (Event Op Resp) → W → α → Prop
  | ret {w a} : Runs w (ret a) [] w a
  | call {w w₁ op k tr w' a} : R w w₁ → Runs (act op w₁).2 (k (act op w₁).1) tr w' a →
      Runs w (call op k) (⟨op, (act op w₁).1⟩ :: tr) w' a

/-- Weakest precondition under interference. -/
def wp : Prog Op Resp α → (List (Event Op Resp) → W → α → Prop) → W → Prop
  | ret a, Q, w => Q [] w a
  | call op k, Q, w => ∀ w₁, R w w₁ →
      wp (k (act op w₁).1) (fun tr => Q (⟨op, (act op w₁).1⟩ :: tr)) (act op w₁).2

/-- Execute a program against the environment moves `es` (no move once they
    are used up). -/
def run : Prog Op Resp α → List (W → W) → W → List (Event Op Resp) × W × α
  | ret a, _, w => ([], w, a)
  | call op k, es, w =>
    let w₁ := es.head?.elim w (· w)
    let r := run (k (act op w₁).1) es.tail (act op w₁).2
    (⟨op, (act op w₁).1⟩ :: r.1, r.2)

end

section
variable {act : (op : Op) → W → Resp op × W} {R : W → W → Prop}

@[simp] theorem wp_ret (a : α) (Q : List (Event Op Resp) → W → α → Prop) (w : W) :
    wp act R (ret a) Q w ↔ Q [] w a := Iff.rfl

@[simp] theorem wp_pure (a : α) (Q : List (Event Op Resp) → W → α → Prop) (w : W) :
    wp act R (pure a) Q w ↔ Q [] w a := Iff.rfl

@[simp] theorem wp_perform (op : Op) (Q : List (Event Op Resp) → W → Resp op → Prop) (w : W) :
    wp act R (perform op) Q w ↔ ∀ w₁, R w w₁ →
      Q [⟨op, (act op w₁).1⟩] (act op w₁).2 (act op w₁).1 := Iff.rfl

@[simp] theorem wp_call (op : Op) (k : Resp op → Prog Op Resp α)
    (Q : List (Event Op Resp) → W → α → Prop) (w : W) :
    wp act R (call op k) Q w ↔ ∀ w₁, R w w₁ →
      wp act R (k (act op w₁).1) (fun tr => Q (⟨op, (act op w₁).1⟩ :: tr)) (act op w₁).2 :=
  Iff.rfl

theorem wp_mono {Q Q' : List (Event Op Resp) → W → α → Prop}
    (h : ∀ tr w a, Q tr w a → Q' tr w a) :
    ∀ {p : Prog Op Resp α} {w : W}, wp act R p Q w → wp act R p Q' w
  | ret _, _, hp => h _ _ _ hp
  | call _ _, _, hp => fun w₁ hR => wp_mono (fun _ _ _ => h _ _ _) (hp w₁ hR)

theorem wp_bind (p : Prog Op Resp α) (f : α → Prog Op Resp β)
    (Q : List (Event Op Resp) → W → β → Prop) (w : W) :
    wp act R (p >>= f) Q w ↔
      wp act R p (fun tr w' a => wp act R (f a) (fun tr' => Q (tr ++ tr')) w') w := by
  induction p generalizing Q w with
  | ret a => rfl
  | call op k ih =>
    simp only [call_bind, wp_call]
    exact forall_congr' fun w₁ => imp_congr_right fun _ => ih _ _ _

/-- Sequential composition through an intermediate assertion. -/
theorem wp_seq {p : Prog Op Resp α} {f : α → Prog Op Resp β}
    {Q' : List (Event Op Resp) → W → α → Prop} {Q : List (Event Op Resp) → W → β → Prop} {w : W}
    (hp : wp act R p Q' w)
    (hf : ∀ tr w' a, Q' tr w' a → wp act R (f a) (fun tr' => Q (tr ++ tr')) w') :
    wp act R (p >>= f) Q w :=
  (wp_bind p f Q w).2 (wp_mono hf hp)

theorem wp_ite {b : Prop} [Decidable b] {p q : Prog Op Resp α}
    {Q : List (Event Op Resp) → W → α → Prop} {w : W} (hp : b → wp act R p Q w)
    (hq : ¬b → wp act R q Q w) : wp act R (if b then p else q) Q w := by
  split
  · exact hp ‹_›
  · exact hq ‹_›

/-- **Adequacy**: the weakest precondition is about exactly the executions. -/
theorem wp_iff {p : Prog Op Resp α} {Q : List (Event Op Resp) → W → α → Prop} {w : W} :
    wp act R p Q w ↔ ∀ tr w' a, Runs act R w p tr w' a → Q tr w' a := by
  constructor
  · intro h tr w' a hr
    induction hr generalizing Q with
    | ret => exact h
    | call hR _ ih => exact ih (h _ hR)
  · intro h
    induction p generalizing Q w with
    | ret a => exact h _ _ _ .ret
    | call op k ih => exact fun w₁ hR => ih _ fun tr w' a hr => h _ _ _ (.call hR hr)

theorem Runs.wp {p : Prog Op Resp α} {Q : List (Event Op Resp) → W → α → Prop} {w w' : W}
    {tr : List (Event Op Resp)} {a : α} (hr : Runs act R w p tr w' a) (h : wp act R p Q w) :
    Q tr w' a := wp_iff.1 h tr w' a hr

theorem Runs.bind {p : Prog Op Resp α} {f : α → Prog Op Resp β} {w w₁ w₂ : W}
    {tr tr' : List (Event Op Resp)} {a : α} {b : β} (hp : Runs act R w p tr w₁ a)
    (hf : Runs act R w₁ (f a) tr' w₂ b) : Runs act R w (p >>= f) (tr ++ tr') w₂ b := by
  induction hp with
  | ret => exact hf
  | call hR _ ih => exact .call hR (ih hf)

theorem Runs.mono {R' : W → W → Prop} (hR : ∀ w w', R w w' → R' w w') {p : Prog Op Resp α}
    {w w' : W} {tr : List (Event Op Resp)} {a : α} (h : Runs act R w p tr w' a) :
    Runs act R' w p tr w' a := by
  induction h with
  | ret => exact .ret
  | call h₁ _ ih => exact .call (hR _ _ h₁) ih

theorem wp_anti {R' : W → W → Prop} (hR : ∀ w w', R' w w' → R w w') {p : Prog Op Resp α}
    {Q : List (Event Op Resp) → W → α → Prop} {w : W} (h : wp act R p Q w) : wp act R' p Q w :=
  wp_iff.2 fun _ _ _ hr => (hr.mono hR).wp h

theorem runs_bind_iff {p : Prog Op Resp α} {f : α → Prog Op Resp β} {w w₂ : W}
    {tr : List (Event Op Resp)} {b : β} :
    Runs act R w (p >>= f) tr w₂ b ↔ ∃ tr₁ tr₂ w₁ a, tr = tr₁ ++ tr₂ ∧
      Runs act R w p tr₁ w₁ a ∧ Runs act R w₁ (f a) tr₂ w₂ b := by
  constructor
  · intro h
    refine h.wp (Q := fun tr w₂ b => ∃ tr₁ tr₂ w₁ a, tr = tr₁ ++ tr₂ ∧
      Runs act R w p tr₁ w₁ a ∧ Runs act R w₁ (f a) tr₂ w₂ b) ((wp_bind _ _ _ _).2 ?_)
    exact wp_iff.2 fun tr₁ w₁ a h₁ => wp_iff.2 fun tr₂ w₂ b h₂ =>
      ⟨tr₁, tr₂, w₁, a, rfl, h₁, h₂⟩
  · rintro ⟨tr₁, tr₂, w₁, a, rfl, h₁, h₂⟩
    exact h₁.bind h₂

/-- Executing against allowed moves is an execution. -/
theorem run_runs (hrefl : ∀ w, R w w) :
    ∀ (p : Prog Op Resp α) (es : List (W → W)) (w : W), (∀ e ∈ es, ∀ w, R w (e w)) →
      Runs act R w p (run act p es w).1 (run act p es w).2.1 (run act p es w).2.2
  | ret _, _, _, _ => .ret
  | call op k, [], w, h => .call (hrefl w) (run_runs hrefl (k _) [] _ h)
  | call op k, e :: es, w, h =>
    .call (h e (by simp) w) (run_runs hrefl (k _) es _ fun e' he' => h e' (by simp [he']))

theorem runs_of_run (hrefl : ∀ w, R w w) {p : Prog Op Resp α} {w : W} {a : α} (es : List (W → W))
    (hes : ∀ e ∈ es, ∀ w, R w (e w)) (h : (run act p es w).2.2 = a) :
    Runs act R w p (run act p es w).1 (run act p es w).2.1 a :=
  h ▸ run_runs hrefl p es w hes

end

/-! ## Guarantees -/

namespace Prog

/-- Every operation the program can perform satisfies `P`. -/
def All (P : Op → Prop) : Prog Op Resp α → Prop
  | ret _ => True
  | call op k => P op ∧ ∀ r, (k r).All P

variable {P : Op → Prop}

@[simp] theorem all_ret (a : α) : (ret a : Prog Op Resp α).All P := trivial

theorem all_true (p : Prog Op Resp α) : p.All fun _ => True := by
  induction p with
  | ret a => trivial
  | call op k ih => exact ⟨trivial, ih⟩

theorem All.bind {p : Prog Op Resp α} {f : α → Prog Op Resp β} (hp : p.All P)
    (hf : ∀ a, (f a).All P) : (p >>= f).All P := by
  induction p with
  | ret a => exact hf a
  | call op k ih => exact ⟨hp.1, fun r => ih r (hp.2 r)⟩

/-- The same program over more operations. -/
def lift {Op' : Type} {Resp' : Op' → Type} (f : Op → Op') (g : ∀ op, Resp' (f op) → Resp op) :
    Prog Op Resp α → Prog Op' Resp' α
  | ret a => ret a
  | call op k => call (f op) fun r => (k (g op r)).lift f g

theorem All.lift {Op' : Type} {Resp' : Op' → Type} {f : Op → Op'}
    {g : ∀ op, Resp' (f op) → Resp op} {P' : Op' → Prop} {p : Prog Op Resp α}
    (h : p.All fun op => P' (f op)) : (p.lift f g).All P' := by
  induction p with
  | ret a => trivial
  | call op k ih => exact ⟨h.1, fun r => ih _ (h.2 _)⟩

theorem All.mono {P' : Op → Prop} (hP : ∀ op, P op → P' op) {p : Prog Op Resp α} (h : p.All P) :
    p.All P' := by
  induction p with
  | ret a => trivial
  | call op k ih => exact ⟨hP _ h.1, fun r => ih _ (h.2 _)⟩

theorem All.ite {b : Prop} [Decidable b] {p q : Prog Op Resp α} (hp : p.All P) (hq : q.All P) :
    (if b then p else q).All P := by
  split
  · exact hp
  · exact hq

end Prog

/-- If the operations of a program stay within `R`, so do its executions. -/
theorem Runs.rely {act : (op : Op) → W → Resp op × W} {R : W → W → Prop} {P : Op → Prop}
    (hrefl : ∀ w, R w w) (htrans : ∀ w w' w'', R w w' → R w' w'' → R w w'')
    (hact : ∀ op w, P op → R w (act op w).2) {p : Prog Op Resp α} (hall : p.All P) {w w' : W}
    {tr : List (Event Op Resp)} {a : α} (h : Runs act R w p tr w' a) : R w w' := by
  induction h with
  | ret => exact hrefl _
  | call h₁ _ ih =>
    exact htrans _ _ _ h₁ (htrans _ _ _ (hact _ _ hall.1) (ih (hall.2 _)))

/-- An execution performs only operations that its program can perform. -/
theorem Runs.all {act : (op : Op) → W → Resp op × W} {R : W → W → Prop} {P : Op → Prop}
    {p : Prog Op Resp α} (hall : p.All P) {w w' : W} {tr : List (Event Op Resp)} {a : α}
    (h : Runs act R w p tr w' a) : ∀ e ∈ tr, P e.1 := by
  induction h with
  | ret =>
    intro e he
    cases he
  | call _ _ ih =>
    intro e he
    rcases List.mem_cons.1 he with rfl | he
    · exact hall.1
    · exact ih (hall.2 _) e he

/-- An invariant that the environment and the operations of a program keep. -/
theorem Runs.invariant {act : (op : Op) → W → Resp op × W} {R : W → W → Prop} {P : Op → Prop}
    {I : W → Prop} (hR : ∀ w w', R w w' → I w → I w')
    (hact : ∀ op w, P op → I w → I (act op w).2) {p : Prog Op Resp α} (hall : p.All P) {w w' : W}
    {tr : List (Event Op Resp)} {a : α} (h : Runs act R w p tr w' a) (hw : I w) :
    Runs act (fun w w' => R w w' ∧ I w') w p tr w' a ∧ I w' := by
  induction h with
  | ret => exact ⟨.ret, hw⟩
  | call h₁ _ ih =>
    have hI := hR _ _ h₁ hw
    obtain ⟨hrest, hend⟩ := ih (hall.2 _) (hact _ _ hall.1 hI)
    exact ⟨.call ⟨h₁, hI⟩ hrest, hend⟩

/-- An execution of a lifted program is one of the program, on the part `π` of
    the state that its operations are about. -/
theorem Runs.of_lift {Op' : Type} {Resp' : Op' → Type} {W' : Type}
    {act : (op : Op) → W → Resp op × W} {act' : (op : Op') → W' → Resp' op × W'}
    {R : W → W → Prop} {R' : W' → W' → Prop} {f : Op → Op'} {g : ∀ op, Resp' (f op) → Resp op}
    (π : W' → W) (hact : ∀ op w, act op (π w) = (g op (act' (f op) w).1, π (act' (f op) w).2))
    (hR : ∀ w w', R' w w' → R (π w) (π w')) {p : Prog Op Resp α} {w w' : W'}
    {tr : List (Event Op' Resp')} {a : α} (h : Runs act' R' w (p.lift f g) tr w' a) :
    ∃ tr₀, Runs act R (π w) p tr₀ (π w') a := by
  induction p generalizing w tr with
  | ret b =>
    cases h with
    | ret => exact ⟨[], .ret⟩
  | call op k ih =>
    cases h with
    | @call _ w₁ _ _ _ _ _ h₁ hrest =>
      obtain ⟨tr₀, h₀⟩ := ih _ hrest
      have hstep := hact op w₁
      refine ⟨⟨op, (act op (π w₁)).1⟩ :: tr₀, .call (hR _ _ h₁) ?_⟩
      rw [hstep]
      exact h₀

section
variable (act : (op : Op) → W → Resp op × W) (R : W → W → Prop)
  (G : List (Event Op Resp) → W → Op → Prop)

/-- Weakest precondition with a guarantee: behind the trace `tr`, every
    operation satisfies `G` when it is performed. -/
def wpg : Prog Op Resp α → (List (Event Op Resp) → W → α → Prop) → List (Event Op Resp) → W → Prop
  | ret a, Q, tr, w => Q tr w a
  | call op k, Q, tr, w => ∀ w₁, R w w₁ → G tr w₁ op ∧
      wpg (k (act op w₁).1) Q (tr ++ [⟨op, (act op w₁).1⟩]) (act op w₁).2

end

section
variable {act : (op : Op) → W → Resp op × W} {R : W → W → Prop}
  {G : List (Event Op Resp) → W → Op → Prop}

/-- An `R`-move of the environment in front of a program changes nothing it guarantees. -/
theorem wpg_rely (htrans : ∀ w w' w'', R w w' → R w' w'' → R w w'')
    {Q : List (Event Op Resp) → W → α → Prop} (hQ : ∀ tr w w' a, R w w' → Q tr w a → Q tr w' a)
    {w w' : W} (hR : R w w') {p : Prog Op Resp α} {tr : List (Event Op Resp)}
    (hp : wpg act R G p Q tr w) : wpg act R G p Q tr w' := by
  cases p with
  | ret a => exact hQ _ _ _ _ hR hp
  | call op k => exact fun w₁ h₁ => hp w₁ (htrans _ _ _ hR h₁)

theorem wpg_mono {Q Q' : List (Event Op Resp) → W → α → Prop}
    (h : ∀ tr w a, Q tr w a → Q' tr w a) {p : Prog Op Resp α} {tr : List (Event Op Resp)} {w : W}
    (hp : wpg act R G p Q tr w) : wpg act R G p Q' tr w := by
  induction p generalizing tr w with
  | ret a => exact h _ _ _ hp
  | call op k ih =>
    intro w₁ h₁
    obtain ⟨hG, hk⟩ := hp w₁ h₁
    exact ⟨hG, ih _ hk⟩

theorem wpg_ite {b : Prop} [Decidable b] {p q : Prog Op Resp α}
    {Q : List (Event Op Resp) → W → α → Prop} {tr : List (Event Op Resp)} {w : W}
    (hp : b → wpg act R G p Q tr w) (hq : ¬b → wpg act R G q Q tr w) :
    wpg act R G (if b then p else q) Q tr w := by
  split
  · exact hp ‹_›
  · exact hq ‹_›

/-- Sequential composition through an intermediate assertion. -/
theorem wpg_seq {p : Prog Op Resp α} {f : α → Prog Op Resp β}
    {Q' : List (Event Op Resp) → W → α → Prop} {Q : List (Event Op Resp) → W → β → Prop}
    {tr : List (Event Op Resp)} {w : W} (hp : wpg act R G p Q' tr w)
    (hf : ∀ tr w' a, Q' tr w' a → wpg act R G (f a) Q tr w') : wpg act R G (p >>= f) Q tr w := by
  induction p generalizing tr w with
  | ret a => exact hf _ _ _ hp
  | call op k ih =>
    intro w₁ h₁
    obtain ⟨hG, hk⟩ := hp w₁ h₁
    exact ⟨hG, ih _ hk⟩

/-- Operations that satisfy the guarantee anyway. -/
theorem wpg_of_all {P : Op → Prop} (hG : ∀ tr w op, P op → G tr w op) {p : Prog Op Resp α}
    (hall : p.All P) {Q : List (Event Op Resp) → W → α → Prop} {w : W} (hp : wp act R p Q w)
    (tr : List (Event Op Resp)) :
    wpg act R G p (fun tr' w' a => ∃ tr₁, tr' = tr ++ tr₁ ∧ (∀ e ∈ tr₁, P e.1) ∧ Q tr₁ w' a)
      tr w := by
  induction p generalizing tr w Q with
  | ret a => exact ⟨[], (List.append_nil _).symm, by simp, hp⟩
  | call op k ih =>
    intro w₁ h₁
    refine ⟨hG _ _ _ hall.1, ?_⟩
    have hk := ih _ (hall.2 _) (hp w₁ h₁) (tr ++ [⟨op, (act op w₁).1⟩])
    refine wpg_mono ?_ hk
    rintro tr' w' a ⟨tr₁, rfl, hP, hQ⟩
    refine ⟨⟨op, (act op w₁).1⟩ :: tr₁, by simp, ?_, hQ⟩
    intro e he
    rcases List.mem_cons.1 he with rfl | he
    · exact hall.1
    · exact hP e he

end

/-! ## Two programs side by side -/

/-- From the state `w` on, `p'` performs the operations of `p`, whatever the
    environment does, and ends with a result related to the one of `p`. -/
inductive Mirrors (act : (op : Op) → W → Resp op × W) (R : W → W → Prop) (V : α → β → Prop) :
    W → Prog Op Resp α → Prog Op Resp β → Prop
  | ret {w a b} (h : V a b) : Mirrors act R V w (ret a) (ret b)
  | call {w op k k'} (h : ∀ w₁, R w w₁ →
      Mirrors act R V (act op w₁).2 (k (act op w₁).1) (k' (act op w₁).1)) :
      Mirrors act R V w (call op k) (call op k')

namespace Mirrors

variable {act : (op : Op) → W → Resp op × W} {R : W → W → Prop} {α' β' : Type}
  {V : α → β → Prop} {V' : α' → β' → Prop} {Q : List (Event Op Resp) → W → α → Prop}

/-- Every execution of the second program is one of the first. -/
theorem runs {p : Prog Op Resp α} {p' : Prog Op Resp β} {w w' : W} {tr : List (Event Op Resp)}
    {b : β} (h : Mirrors act R V w p p') (hr : Runs act R w p' tr w' b) :
    ∃ a, Runs act R w p tr w' a ∧ V a b := by
  induction h generalizing tr w' b with
  | ret hV =>
    cases hr with
    | ret => exact ⟨_, .ret, hV⟩
  | call _ ih =>
    cases hr with
    | call hR hrest =>
      obtain ⟨a, hrun, hV⟩ := ih _ hR hrest
      exact ⟨a, .call hR hrun, hV⟩

theorem perform {op : Op} {f : Resp op → Prog Op Resp α} {g : Resp op → Prog Op Resp β} {w : W}
    (h : ∀ w₁, R w w₁ → Mirrors act R V (act op w₁).2 (f (act op w₁).1) (g (act op w₁).1)) :
    Mirrors act R V w (Prog.perform op >>= f) (Prog.perform op >>= g) := .call h

theorem map (f : α → β) (p : Prog Op Resp α) (w : W) :
    Mirrors act R (fun a b => b = f a) w p (p >>= fun a => pure (f a)) := by
  induction p generalizing w with
  | ret a => exact .ret rfl
  | call op k ih => exact .call fun w₁ _ => ih _ _

/-- Sequential composition, with what is known of the first program. -/
theorem bind {p : Prog Op Resp α} {p' : Prog Op Resp β} {f : α → Prog Op Resp α'}
    {g : β → Prog Op Resp β'} {w : W} (h : Mirrors act R V w p p') (hp : wp act R p Q w)
    (hf : ∀ tr w' a b, Q tr w' a → V a b → Mirrors act R V' w' (f a) (g b)) :
    Mirrors act R V' w (p >>= f) (p' >>= g) := by
  induction h generalizing Q with
  | ret hV => exact hf _ _ _ _ hp hV
  | call _ ih =>
    refine .call fun w₁ hR => ih w₁ hR (hp w₁ hR) ?_
    intro tr w' a b hQ
    exact hf _ _ _ _ hQ

theorem same {p : Prog Op Resp α} {f : α → Prog Op Resp α'} {g : α → Prog Op Resp β'} {w : W}
    (hp : wp act R p Q w) (hf : ∀ tr w' a, Q tr w' a → Mirrors act R V' w' (f a) (g a)) :
    Mirrors act R V' w (p >>= f) (p >>= g) := by
  induction p generalizing Q w with
  | ret a => exact hf _ _ _ hp
  | call op k ih =>
    refine .call fun w₁ hR => ih _ (hp w₁ hR) ?_
    intro tr w' a hQ
    exact hf _ _ _ hQ

end Mirrors

/-! ## Interleavings of any number of programs -/

/-- A program in progress: what it has done and what is left of it. -/
structure Thread (Op : Type) (Resp : Op → Type) (α : Type) where
  done : List (Event Op Resp)
  rest : Prog Op Resp α

/-- The shared state and the programs working on it. -/
structure Pool (Op : Type) (Resp : Op → Type) (α W : Type) where
  world : W
  threads : List (Thread Op Resp α)

namespace Pool

/-- What one step of a pool is: a move of the environment, a new program, or
    the next operation of a program. -/
inductive Move (Op : Type) (Resp : Op → Type) (α W : Type)
  | env (w : W)
  | spawn (p : Prog Op Resp α)
  | act (i : ℕ) (op : Op)

section
variable (act : (op : Op) → W → Resp op × W) (E : W → W → Prop) (New : Prog Op Resp α → Prop)
  (C : Pool Op Resp α W → Move Op Resp α W → Prop)

/-- One step of a pool. -/
inductive Step : Pool Op Resp α W → Move Op Resp α W → Pool Op Resp α W → Prop
  | env {s : Pool Op Resp α W} {w} : E s.world w → Step s (.env w) ⟨w, s.threads⟩
  | spawn {s : Pool Op Resp α W} {p} : New p → Step s (.spawn p) ⟨s.world, s.threads ++ [⟨[], p⟩]⟩
  | act {s : Pool Op Resp α W} {i tr op k} : s.threads[i]? = some ⟨tr, call op k⟩ →
      Step s (.act i op) ⟨(act op s.world).2,
        s.threads.set i ⟨tr ++ [⟨op, (act op s.world).1⟩], k (act op s.world).1⟩⟩

/-- The runs of a pool whose steps all meet the condition `C`. -/
inductive Steps : Pool Op Resp α W → Pool Op Resp α W → Prop
  | refl {s} : Steps s s
  | tail {s s' s'' m} : Steps s s' → Step act E New s' m s'' → C s' m → Steps s s''

/-- The next operation of the thread `i`, if it has one. -/
def play (s : Pool Op Resp α W) (i : ℕ) : Pool Op Resp α W :=
  match s.threads[i]? with
  | some ⟨tr, call op k⟩ => ⟨(act op s.world).2,
      s.threads.set i ⟨tr ++ [⟨op, (act op s.world).1⟩], k (act op s.world).1⟩⟩
  | _ => s

/-- Whether every step meets the condition when the threads are played in turn. -/
def playable [∀ s m, Decidable (C s m)] : Pool Op Resp α W → List ℕ → Bool
  | _, [] => true
  | s, i :: is =>
    (match s.threads[i]? with
      | some ⟨_, call op _⟩ => decide (C s (.act i op))
      | _ => true) && playable (play act s i) is

end

variable {act : (op : Op) → W → Resp op × W} {E : W → W → Prop} {New : Prog Op Resp α → Prop}
  {C : Pool Op Resp α W → Move Op Resp α W → Prop}
  {R : W → W → Prop} {G : List (Event Op Resp) → W → Op → Prop}
  {Q : List (Event Op Resp) → W → α → Prop} {s s' : Pool Op Resp α W} {m : Move Op Resp α W}

theorem Steps.trans {s'' : Pool Op Resp α W} (h : Steps act E New C s s')
    (h' : Steps act E New C s' s'') : Steps act E New C s s'' := by
  induction h' with
  | refl => exact h
  | tail _ hm hC ih => exact .tail ih hm hC

theorem thread_of_spawn {ts : List (Thread Op Resp α)} {p : Prog Op Resp α} {j : ℕ}
    {t : Thread Op Resp α} (h : (ts ++ [⟨[], p⟩])[j]? = some t) :
    t = ⟨[], p⟩ ∨ ts[j]? = some t := by
  rw [List.getElem?_append] at h
  split at h
  · exact .inr h
  · exact .inl (List.mem_singleton.1 (List.mem_of_getElem? h))

/-- A thread after a move is the one that moved or an old one. -/
theorem thread_of_set {ts : List (Thread Op Resp α)} {i j : ℕ} {t t' : Thread Op Resp α}
    (h : (ts.set i t')[j]? = some t) : (i = j ∧ t = t') ∨ (i ≠ j ∧ ts[j]? = some t) := by
  rw [List.getElem?_set] at h
  split at h
  · next hij =>
    split at h
    · exact .inl ⟨hij, (Option.some.inj h).symm⟩
    · cases h
  · next hij => exact .inr ⟨hij, h⟩

/-- Playing threads is a run, if every step meets the condition. -/
theorem Steps.plays [∀ s m, Decidable (C s m)] (h : Steps act E New C s s') (is : List ℕ)
    (his : playable act C s' is = true) : Steps act E New C s (is.foldl (play act) s') := by
  induction is generalizing s' with
  | nil => exact h
  | cons i is ih =>
    simp only [playable, Bool.and_eq_true] at his
    obtain ⟨hi, his⟩ := his
    refine ih ?_ his
    unfold play
    split
    · next heq =>
      rw [heq] at hi
      exact h.tail (.act heq) (of_decide_eq_true hi)
    · exact h

/-- Each program of the pool still guarantees `G` and `Q`. -/
def Holds (act : (op : Op) → W → Resp op × W) (R : W → W → Prop)
    (G : List (Event Op Resp) → W → Op → Prop) (Q : List (Event Op Resp) → W → α → Prop)
    (s : Pool Op Resp α W) : Prop :=
  ∀ t ∈ s.threads, wpg act R G t.rest Q t.done s.world

theorem Holds.guarantee (hrefl : ∀ w, R w w) (h : Holds act R G Q s) {i : ℕ}
    {tr : List (Event Op Resp)} {op : Op} {k : Resp op → Prog Op Resp α}
    (hi : s.threads[i]? = some ⟨tr, call op k⟩) : G tr s.world op :=
  (h _ (List.mem_of_getElem? hi) s.world (hrefl _)).1

/-- **Rely-guarantee**: if the moves of the environment and the guaranteed
    operations stay within `R`, every program keeps what it guarantees on its
    own, and so does an assertion `I` that `R` keeps. -/
theorem Step.holds {I : W → Prop} (hrefl : ∀ w, R w w)
    (htrans : ∀ w w' w'', R w w' → R w' w'' → R w w'') (hI : ∀ w w', R w w' → I w → I w')
    (hE : ∀ w w', E w w' → R w w') (hG : ∀ tr w op, G tr w op → R w (act op w).2)
    (hQ : ∀ tr w w' a, R w w' → Q tr w a → Q tr w' a)
    (hnew : ∀ p, New p → ∀ w, I w → wpg act R G p Q [] w)
    (hs : Step act E New s m s') (h : I s.world ∧ Holds act R G Q s) :
    I s'.world ∧ Holds act R G Q s' := by
  cases hs with
  | env hw =>
    have hR := hE _ _ hw
    exact ⟨hI _ _ hR h.1, fun t ht => wpg_rely htrans hQ hR (h.2 t ht)⟩
  | spawn hp =>
    refine ⟨h.1, ?_⟩
    intro t ht
    rcases List.mem_append.1 ht with ht | ht
    · exact h.2 t ht
    · obtain rfl := List.mem_singleton.1 ht
      exact hnew _ hp _ h.1
  | @act i tr op k hi =>
    have hR := hG _ _ _ (h.2.guarantee hrefl hi)
    refine ⟨hI _ _ hR h.1, ?_⟩
    intro t ht
    rcases List.mem_or_eq_of_mem_set ht with ht | rfl
    · exact wpg_rely htrans hQ hR (h.2 t ht)
    · exact (h.2 _ (List.mem_of_getElem? hi) s.world (hrefl _)).2

end Pool

end Interact
