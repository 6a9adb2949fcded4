/-
  Calls of `write_new` (`capture_store.rs`) from within a larger system.

  * `Kept`: the invariant of the stores, and that every commit is the file of its call;
    `Kept.move` keeps it, with what is known of earlier calls and answers;
  * `enter`: a caller of `write_new` up to its first wait; `enter_spec` says which call
    it makes.
-/
import SerialMcp.Captures.Quotas

namespace SerialMcp.Captures

open Tasks

/-! ## Commits -/

/-- The file of a call. -/
def Request.commit (request : Request) (id : ℕ) : Commit := ⟨id, .text request.name, request.bytes⟩

/-- Every commit is the file of its call. -/
def Called (w : World) : Prop :=
  ∀ x ∈ w.commits, ∃ request, w.calls[x.call]? = some request ∧ x = request.commit x.call

section
variable {base : List ManagedFile} {limits : CaptureLimits} {w w' : World} {t : Task}
  {new : List Task} {i : Input} {s s' : Stores}

/-- What a step leaves of answers and commits: it commits nothing, or the file of its call. -/
theorem Task.step_commits (h : Task.step t i w = some (w', new)) (hs : t.Sound limits base w)
    (hfiles : w.dir.managed = filesOf base w.commits) :
    w.answers <+: w'.answers ∧ (w'.commits = w.commits ∨
      ∃ c : Call, w.calls[c.id]? = some c.request ∧ w'.commits = w.commits ++ [c.commit]) := by
  cases t with
  | entering request =>
    cases i with
    | turn =>
      simp only [Task.step] at h
      split at h
      · cases h
        exact ⟨List.prefix_append _ _, .inl rfl⟩
      · split at h <;> cases h
        · exact ⟨List.prefix_append _ _, .inl rfl⟩
        · exact ⟨List.prefix_rfl, .inl rfl⟩
    | _ => cases h
  | waiting c =>
    cases i with
    | turn =>
      simp only [Task.step] at h
      split_ifs at h
      cases h
      exact ⟨List.prefix_rfl, .inl rfl⟩
    | dropped =>
      cases h
      exact ⟨List.prefix_rfl, .inl rfl⟩
    | _ => cases h
  | awaiting c =>
    cases i with
    | turn =>
      obtain ⟨r, -, heq⟩ := Option.map_eq_some_iff.1 h
      cases heq
      exact ⟨List.prefix_append _ _, .inl rfl⟩
    | dropped =>
      cases h
      exact ⟨List.prefix_rfl, .inl rfl⟩
    | _ => cases h
  | blocking c p =>
    obtain ⟨-, hcall, hsound⟩ := hs
    cases blocking_cases h with
    | commits p' _ hcommit =>
      obtain ⟨-, heffect⟩ := stepCommit_spec hcommit hsound hfiles
      cases heffect with
      | aside dir hw _ _ =>
        subst hw
        exact ⟨List.prefix_rfl, .inl rfl⟩
      | commit dir usage hw _ _ _ _ =>
        subst hw
        exact ⟨List.prefix_rfl, .inr ⟨c, hcall, rfl⟩⟩
    | _ => exact ⟨List.prefix_rfl, .inl rfl⟩

/-- The invariant of the stores, with the commits of calls. -/
structure Kept (limits : CaptureLimits) (base : List ManagedFile) (s : Stores) : Prop where
  inv : Inv limits base s
  called : Called s.world

/-- What a later state begins with. -/
structure Goes (w w' : World) : Prop where
  calls : w.calls <+: w'.calls
  answers : w.answers <+: w'.answers

/-- **A move of the stores.** -/
theorem Kept.move {m : Move Task Input} (h : Kept limits base s) (hm : AnyMove limits s m)
    (hmove : s.move Task.step m = some s') : Kept limits base s' ∧ Goes s.world s'.world := by
  have hinv := (h.inv.move hm hmove).1
  obtain ⟨t, rfl, rfl⟩ | ⟨l, t, r, i, w, new, rfl, htasks, hstep, rfl⟩ := move_cases hmove
  · exact ⟨⟨hinv, h.called⟩, ⟨List.prefix_rfl, List.prefix_rfl⟩⟩
  · have hsound := h.inv.tasks t (by simp [htasks])
    have hlater := (Task.step_outcome hstep hsound h.inv.files h.inv.allowed).later
    obtain ⟨hanswers, hcommits⟩ := Task.step_commits hstep hsound h.inv.files
    refine ⟨⟨hinv, fun x hx => ?_⟩, ⟨hlater.calls, hanswers⟩⟩
    have hold : x ∈ s.world.commits → ∃ request, w.calls[x.call]? = some request ∧
        x = request.commit x.call := by
      intro hx
      obtain ⟨request, hcall, heq⟩ := h.called x hx
      exact ⟨request, called_later hcall hlater, heq⟩
    rcases hcommits with hsame | ⟨c, hcall, hmore⟩
    · exact hold (hsame ▸ hx)
    · have hx' : x ∈ s.world.commits ++ [c.commit] := hmore ▸ hx
      rcases List.mem_append.1 hx' with hx' | hx'
      · exact hold hx'
      · obtain rfl := List.mem_singleton.1 hx'
        exact ⟨c.request, called_later hcall hlater, rfl⟩

/-- `write_new` up to its first wait. -/
def enter (s : Stores) (request : Request) : Option Stores :=
  s.play Task.step [.start (.entering request), .run s.tasks.length .turn]

theorem enter_spec {request : Request} (h : Kept limits base s)
    (hlimits : request.store.limits = limits) (henter : enter s request = some s') :
    Kept limits base s' ∧ Goes s.world s'.world ∧ s'.world.calls = s.world.calls ++ [request] := by
  simp only [enter, State.play, Option.bind_eq_some_iff, Option.some.injEq] at henter
  obtain ⟨s₁, hstart, s₂, hrun, rfl⟩ := henter
  have hentering : AnyMove limits s (.start (.entering request)) := .entering request hlimits
  obtain ⟨hkept₁, hgoes₁⟩ := h.move hentering hstart
  have hturn : AnyMove limits s₁ (.run s.tasks.length .turn) := trivial
  obtain ⟨hkept₂, hgoes₂⟩ := hkept₁.move hturn hrun
  refine ⟨hkept₂, ⟨hgoes₁.calls.trans hgoes₂.calls, hgoes₁.answers.trans hgoes₂.answers⟩, ?_⟩
  cases hstart
  simp only [State.move, List.getElem?_concat_length, Option.bind_some,
    Option.map_eq_some_iff] at hrun
  obtain ⟨⟨w, new⟩, hstep, rfl⟩ := hrun
  simp only [Task.step] at hstep
  split at hstep
  · cases hstep
    rfl
  · split at hstep <;> cases hstep <;> rfl

end

end SerialMcp.Captures
