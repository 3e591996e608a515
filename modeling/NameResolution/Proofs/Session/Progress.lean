import Mathlib.Logic.Relation
import NameResolution.Proofs.Session.History

/-!
# A history seen from one scope

What a step does to a scope is one of four things (`Progress`) : nothing about its loading,
its settling as a scope without a loader, the beginning of a call of its loader, or the
end of one. The journal tells which calls are running : a scope whose loader is called has
none meanwhile, and it is loading just in case everything was asked for (`Tracked`).

As calls are nested, a call that ends is the one that is running (`Course.steps`), so
whole histories are sequences of steps (`Later.steps`). What every step keeps of a scope
is kept as long as the scope is there (`Steps.induction_scope`).
-/

namespace NameResolution

variable {L T W : Type}

namespace Session

variable {s s' s'' : Session L T W} {c c' : ScopeId} {x x' : Scope L T}
  {request : Option NamePart} {event : Event T} {events : List (Event T)} {ending : Ending}

/-! ## The journal of calls -/

theorem pending_cons (h : ¬event.IsCall) : pending c (event :: events) = pending c events := by
  cases event <;> first | rfl | exact absurd trivial h

theorem completed_cons (h : ¬event.IsCall) :
    completed c (event :: events) ↔ completed c events := by
  cases event <;> first | rfl | exact absurd trivial h

/-- A change records at most one event, and that is no call of a loader. -/
theorem Change.journal (h : Change s s') :
    s'.journal = s.journal ∨ ∃ event, ¬event.IsCall ∧ s'.journal = event :: s.journal := by
  cases h with
  | event h => exact Or.inr ⟨_, h, rfl⟩
  | _ => exact Or.inl rfl

theorem Change.pending (h : Change s s') (c : ScopeId) :
    pending c s'.journal = pending c s.journal := by
  rcases h.journal with h | ⟨event, he, h⟩
  · rw [h]
  · rw [h, pending_cons he]

theorem Change.completed (h : Change s s') (c : ScopeId) :
    completed c s'.journal ↔ completed c s.journal := by
  rcases h.journal with h | ⟨event, he, h⟩
  · rw [h]
  · rw [h, completed_cons he]

/-- A call begins with a note and the request. -/
theorem Begins.journal (h : Begins c request s s') :
    ∃ n, s'.journal = .loadBegan c request :: .noted n :: s.journal := by
  cases h with
  | intro n => exact ⟨n, rfl⟩

theorem Finishes.journal (h : Finishes c request s s') :
    ∃ outcome, s'.journal = .loadEnded c outcome :: s.journal := by
  cases h with
  | intro loader outcome => exact ⟨outcome, rfl⟩

/-! ## What a step does to one scope -/

/-- What a step can do to a scope that is there before and after it. -/
inductive Progress (c : ScopeId) (s s' : Session L T W) (x x' : Scope L T) : Prop
  | same (hs : x'.state = x.state) (hl : x'.loader = x.loader)
    (hp : pending c s'.journal = pending c s.journal)
    (hc : completed c s'.journal ↔ completed c s.journal)
  | settled (hs : x.state = .unloaded) (hl : x.loader = none)
    (h : s' = s.mapScope c fun x => { x with state := .loaded })
    (hx : x' = { x with state := .loaded })
  | began {request : Option NamePart} (hs : x.state ≠ .loaded)
    (hr : request = none → x.state = .unloaded) (hl : x.loader ≠ none)
    (hs' : x'.state = stateDuring request x.state) (hl' : x'.loader = none)
    (hp : pending c s'.journal = some request)
    (hc : completed c s'.journal ↔ completed c s.journal)
  | ended {request : Option NamePart} {outcome : LoadEnd}
    (hp : pending c s.journal = some request)
    (hs' : x'.state = stateAfter request outcome x.state) (hl' : x'.loader ≠ none)
    (hp' : pending c s'.journal = none)
    (hc : completed c s'.journal ↔
      request = none ∧ outcome = .done ∨ completed c s.journal)

theorem get?_scopes_mapScope {f : Scope L T → Scope L T}
    (h : (s.mapScope c' f).tables.scopes.get? c = some x') :
    ∃ x, s.tables.scopes.get? c = some x ∧ x' = if c = c' then f x else x := by
  unfold mapScope at h
  rw [SlotTable.get?_modify] at h
  split_ifs at h ⊢ with hc
  · obtain ⟨x, hx, rfl⟩ := Option.map_eq_some_iff.1 h
    exact ⟨x, hc ▸ hx, rfl⟩
  · exact ⟨x', h, rfl⟩

/-- A change of a scope in something else than its loading. -/
theorem Change.progress_mapScope {f : Scope L T → Scope L T} (h : Change s (s.mapScope c' f))
    (hs : ∀ x, (f x).state = x.state) (hl : ∀ x, (f x).loader = x.loader)
    (hx' : (s.mapScope c' f).tables.scopes.get? c = some x') :
    ∃ x, s.tables.scopes.get? c = some x ∧ Progress c s (s.mapScope c' f) x x' := by
  obtain ⟨x, hx, rfl⟩ := get?_scopes_mapScope hx'
  refine ⟨x, hx, .same ?_ ?_ (h.pending c) (h.completed c)⟩
  · split_ifs
    · exact hs x
    · rfl
  · split_ifs
    · exact hl x
    · rfl

/-- What a change may do to the state and the loader of a scope. -/
theorem Change.progress (h : Change s s') (hf : s.tables.Formed) (hu : s.tables.scopes.Unwrapped)
    (hi : s.tables.scopes.Issued c) (hx' : s'.tables.scopes.get? c = some x') :
    ∃ x, s.tables.scopes.get? c = some x ∧ Progress c s s' x x' := by
  have hsame (h : s.tables.scopes.get? c = some x') (hc : Change s s') :
      ∃ x, s.tables.scopes.get? c = some x ∧ Progress c s s' x x' :=
    ⟨x', h, .same rfl rfl (hc.pending c) (hc.completed c)⟩
  cases h with
  | place d =>
    rcases hf.get?_scopes_place hx' with hx | ⟨rfl, -⟩
    · exact hsame hx (.place s d)
    · exact absurd hi (SlotTable.not_issued_next hf.scopes hu)
  | relink h => exact hsame hx' (.relink h)
  | discard h =>
    have hc := Change.discard h
    obtain ⟨-, y, hy, -⟩ := h
    exact hsame (Tables.get?_scopes_of_discard hy hx') hc
  | @attach c₀ e t h =>
    have hc := Change.attach h
    obtain ⟨y, x₀, -, -, hx₀, -, -, hscope⟩ := Tables.attach_cases h
    rw [hscope] at hx'
    split_ifs at hx' with hcc
    · obtain rfl := Option.some.inj hx'
      exact ⟨x₀, hcc ▸ hx₀, .same rfl rfl (hc.pending c) (hc.completed c)⟩
    · exact hsame hx' hc
  | template c₀ name template =>
    exact (Change.template s c₀ name template).progress_mapScope (fun _ => rfl) (fun _ => rfl) hx'
  | observers c₀ f =>
    exact (Change.observers s c₀ f).progress_mapScope (fun _ => rfl) (fun _ => rfl) hx'
  | @settle c₀ x₀ hx₀ hs hl =>
    obtain ⟨x, hx, rfl⟩ := get?_scopes_mapScope hx'
    split_ifs with hcc
    · subst hcc
      rw [hx] at hx₀
      obtain rfl := Option.some.inj hx₀
      exact ⟨x, hx, .settled hs hl rfl rfl⟩
    · exact ⟨x, hx, .same rfl rfl rfl Iff.rfl⟩
  | event h => exact hsame hx' (.event s h)
  | drop observer => exact hsame hx' (.drop s observer)
  | world w => exact hsame hx' (.world s w)

/-- The same of a step : a change, or the beginning or end of a call. -/
theorem Step.progress (h : Step s s') (hf : s.tables.Formed) (hu : s.tables.scopes.Unwrapped)
    (hi : s.tables.scopes.Issued c) (hx' : s'.tables.scopes.get? c = some x') :
    ∃ x, s.tables.scopes.get? c = some x ∧ Progress c s s' x x' := by
  cases h with
  | change h => exact h.progress hf hu hi hx'
  | @begins _ c₀ request h =>
    obtain ⟨n, hx₀, hl, hs, hr⟩ := h
    obtain ⟨x, hx, rfl⟩ := get?_scopes_mapScope (s := s) hx'
    by_cases hc : c = c₀
    · subst hc
      rw [hx] at hx₀
      obtain rfl := Option.some.inj hx₀
      refine ⟨x, hx, .began hs hr (by simp [hl]) ?_ ?_ (if_pos rfl) Iff.rfl⟩
      · rw [if_pos rfl]
      · rw [if_pos rfl]
    · refine ⟨x, hx, .same ?_ ?_ (if_neg (Ne.symm hc)) Iff.rfl⟩
      · rw [if_neg hc]
      · rw [if_neg hc]
  | @finishes _ c₀ request hp h =>
    obtain ⟨loader, outcome, -⟩ := h
    obtain ⟨x, hx, rfl⟩ := get?_scopes_mapScope (s := s.log _) hx'
    by_cases hc : c = c₀
    · subst hc
      have hs' : (if c = c then { x with
          loader := some loader, state := stateAfter request outcome x.state } else x).state =
          stateAfter request outcome x.state := by
        rw [if_pos rfl]
      refine ⟨x, hx, .ended hp hs' ?_ (if_pos rfl) ?_⟩
      · rw [if_pos rfl]
        simp
      · simp [mapScope, log, completed, hp, and_comm]
    · refine ⟨x, hx, .same ?_ ?_ (if_neg (Ne.symm hc)) ?_⟩
      · rw [if_neg hc]
      · rw [if_neg hc]
      · simp [mapScope, log, completed, Ne.symm hc]
  | @lost c₀ request hp hgone outcome =>
    have hc : c₀ ≠ c := by
      rintro rfl
      rw [show (s.log (.loadEnded c₀ outcome)).tables = s.tables from rfl, hgone] at hx'
      cases hx'
    exact ⟨x', hx', .same rfl rfl (if_neg hc) (by simp [log, completed, hc])⟩

/-- A scope that no step was about before has just been placed. -/
theorem Step.fresh (h : Step s s') (hf : s.tables.Formed) (hi : ¬s.tables.scopes.Issued c)
    (hx' : s'.tables.scopes.get? c = some x') :
    x'.state = .unloaded ∧ s'.journal = s.journal := by
  have hold {f : Scope L T → Scope L T} {c₀ : ScopeId}
      (h : (s.mapScope c₀ f).tables.scopes.get? c = some x') : False := by
    obtain ⟨x, hx, -⟩ := get?_scopes_mapScope h
    exact hi (SlotTable.issued_of_get? hx)
  cases h with
  | change h =>
    cases h with
    | place d =>
      rcases hf.get?_scopes_place hx' with hx | ⟨-, ⟨loader, rfl⟩, -⟩
      · exact absurd (SlotTable.issued_of_get? hx) hi
      · exact ⟨rfl, rfl⟩
    | relink h => exact absurd (SlotTable.issued_of_get? (t := s.tables.scopes) hx') hi
    | discard h =>
      obtain ⟨-, y, hy, -⟩ := h
      exact absurd (SlotTable.issued_of_get? (Tables.get?_scopes_of_discard hy hx')) hi
    | attach h =>
      obtain ⟨y, x₀, -, -, hx₀, -, -, hscope⟩ := Tables.attach_cases h
      rw [hscope] at hx'
      split_ifs at hx' with hc
      · exact absurd (SlotTable.issued_of_get? (hc ▸ hx₀)) hi
      · exact absurd (SlotTable.issued_of_get? hx') hi
    | template c₀ name template => exact (hold hx').elim
    | observers c₀ f => exact (hold hx').elim
    | settle hx hs hl => exact (hold hx').elim
    | event h => exact absurd (SlotTable.issued_of_get? (t := s.tables.scopes) hx') hi
    | drop observer => exact absurd (SlotTable.issued_of_get? (t := s.tables.scopes) hx') hi
    | world w => exact absurd (SlotTable.issued_of_get? (t := s.tables.scopes) hx') hi
  | begins h =>
    obtain ⟨n, -, -, -, -⟩ := h
    exact (hold hx').elim
  | finishes hp h =>
    obtain ⟨loader, outcome, -⟩ := h
    exact (hold hx').elim
  | lost hp hgone outcome =>
    exact absurd (SlotTable.issued_of_get? (t := s.tables.scopes) hx') hi

/-! ## Scopes and their running calls -/

/-- The journal knows of every scope whether a call of its loader is running : its loader is away
then, and it is loading if everything was asked for. -/
structure Tracked (s : Session L T W) : Prop where
  running : ∀ c x request, s.tables.scopes.get? c = some x → pending c s.journal = some request →
    x.loader = none ∧ (x.state = .loading ↔ request = none)
  idle : ∀ c x, s.tables.scopes.get? c = some x → pending c s.journal = none →
    x.state ≠ .loading
  called : ∀ c request, pending c s.journal = some request → s.tables.scopes.Issued c
  done : ∀ c, completed c s.journal → s.tables.scopes.Issued c

theorem Tracked.start (config : Config) (world : W) :
    Tracked (Session.start config world : Session L T W) := by
  refine ⟨fun c x request _ h => ?_, fun c x hx _ => ?_, fun c request h => ?_, fun c h => ?_⟩
  · cases h
  · rw [(Tables.get?_scopes_start hx).2]
    nofun
  · cases h
  · cases h

/-- A call that is running after a step was running before, or the step is its beginning. -/
theorem Step.pending_cases (h : Step s s') (hp : pending c s'.journal = some request) :
    pending c s.journal = some request ∨ ∃ x, s.tables.scopes.get? c = some x := by
  cases h with
  | change h => exact Or.inl (h.pending c ▸ hp)
  | @begins _ c₀ _ h =>
    obtain ⟨n, hx, -, -, -⟩ := h
    by_cases hc : c₀ = c
    · exact Or.inr ⟨_, hc ▸ hx⟩
    · exact Or.inl ((if_neg hc).symm.trans hp)
  | @finishes _ c₀ _ _ h =>
    obtain ⟨outcome, hj⟩ := h.journal
    rw [hj, pending] at hp
    split_ifs at hp with hc
    exact Or.inl hp
  | @lost c₀ _ _ _ outcome =>
    rw [log, pending] at hp
    split_ifs at hp with hc
    exact Or.inl hp

/-- A load completes with the step that ends a full request. -/
theorem Step.completed_cases (h : Step s s') (hc : completed c s'.journal) :
    completed c s.journal ∨ pending c s.journal = some none := by
  cases h with
  | change h => exact Or.inl ((h.completed c).1 hc)
  | begins h =>
    obtain ⟨n, hj⟩ := h.journal
    rw [hj] at hc
    exact Or.inl hc
  | finishes _ h =>
    obtain ⟨outcome, hj⟩ := h.journal
    rw [hj] at hc
    rcases hc with ⟨-, -, hp⟩ | hc
    · exact Or.inr hp
    · exact Or.inl hc
  | lost =>
    rcases hc with ⟨-, -, hp⟩ | hc
    · exact Or.inr hp
    · exact Or.inl hc

/-- A scope that still has its loader is not being loaded. -/
theorem Tracked.not_running (ht : Tracked s) (hx : s.tables.scopes.get? c = some x)
    (hl : x.loader ≠ none) : pending c s.journal = none := by
  by_contra hne
  obtain ⟨request, hp⟩ := Option.ne_none_iff_exists'.1 hne
  exact hl (ht.running c x request hx hp).1

/-- A call of the scope's loader that is running after a step was begun by it, or was running
before. -/
theorem Progress.running (h : Progress c s s' x x') (ht : Tracked s)
    (hx : s.tables.scopes.get? c = some x) (hp : pending c s'.journal = some request) :
    x'.loader = none ∧ (x'.state = .loading ↔ request = none) := by
  cases h with
  | same hs hl hp' hc =>
    rw [hs, hl]
    exact ht.running c x request hx (hp' ▸ hp)
  | settled hs hl h hxx =>
    subst h hxx
    obtain ⟨-, hstate⟩ := ht.running c x request hx hp
    refine ⟨hl, ⟨nofun, fun hr => ?_⟩⟩
    rw [hstate.2 hr] at hs
    cases hs
  | @began request' hs hr hl hs' hl' hp' hc =>
    rw [hp] at hp'
    obtain rfl := Option.some.inj hp'
    refine ⟨hl', ?_⟩
    rw [hs']
    cases request with
    | none => exact ⟨fun _ => rfl, fun _ => rfl⟩
    | some part => exact ⟨fun h => absurd h (ht.idle c x hx (ht.not_running hx hl)), nofun⟩
  | ended _ _ _ hp' _ =>
    rw [hp] at hp'
    cases hp'

/-- A scope is not loading after a step if no call of its loader is running then. -/
theorem Progress.idle (h : Progress c s s' x x') (ht : Tracked s)
    (hx : s.tables.scopes.get? c = some x) (hp : pending c s'.journal = none) :
    x'.state ≠ .loading := by
  cases h with
  | same hs hl hp' hc =>
    rw [hs]
    exact ht.idle c x hx (hp' ▸ hp)
  | settled hs hl h hxx =>
    subst hxx
    nofun
  | began _ _ _ _ _ hp' _ =>
    rw [hp] at hp'
    cases hp'
  | @ended request outcome hp₀ hs' hl' hp' hc =>
    rw [hs']
    cases request with
    | none => cases outcome <;> nofun
    | some part =>
      intro hstate
      cases (ht.running c x _ hx hp₀).2.1 hstate

/-- The journal keeps track of the scopes from step to step. -/
theorem Tracked.step (ht : Tracked s) (hf : s.tables.Formed) (hu : s.tables.scopes.Unwrapped)
    (h : Step s s') : Tracked s' := by
  have hissued (c : ScopeId) (hi : s.tables.scopes.Issued c) : s'.tables.scopes.Issued c :=
    (hf.extends_edit h.edit).scopes.issued c hi
  refine ⟨fun c x' request hx' hp => ?_, fun c x' hx' hp => ?_, fun c request hp => ?_,
    fun c hc => ?_⟩
  · by_cases hi : s.tables.scopes.Issued c
    · obtain ⟨x, hx, hprog⟩ := h.progress hf hu hi hx'
      exact hprog.running ht hx hp
    · rw [(h.fresh hf hi hx').2] at hp
      exact absurd (ht.called c request hp) hi
  · by_cases hi : s.tables.scopes.Issued c
    · obtain ⟨x, hx, hprog⟩ := h.progress hf hu hi hx'
      exact hprog.idle ht hx hp
    · rw [(h.fresh hf hi hx').1]
      nofun
  · rcases h.pending_cases hp with hp | ⟨x, hx⟩
    · exact hissued c (ht.called c request hp)
    · exact hissued c (SlotTable.issued_of_get? hx)
  · rcases h.completed_cases hc with hc | hp
    · exact hissued c (ht.done c hc)
    · exact hissued c (ht.called c none hp)

/-! ## Histories as steps -/

/-- One step after the other. -/
abbrev Steps : Session L T W → Session L T W → Prop :=
  Relation.ReflTransGen Step

theorem Steps.later (h : Steps s s') : Later s s' := by
  induction h with
  | refl => exact .refl s
  | tail _ hstep ih => exact ih.step hstep

theorem Steps.tracked (h : Steps s s') (ht : Tracked s) (hf : s.tables.Formed)
    (hu : s'.tables.Unwrapped) : Tracked s' := by
  induction h with
  | refl => exact ht
  | @tail s₁ s₂ h hstep ih =>
    have hf₁ := (Steps.later h).formed hf
    have hu₁ := (hf₁.extends_edit hstep.edit).unwrapped hu
    exact (ih hu₁).step hf₁ hu₁.scopes hstep

/-- A course is a sequence of steps; when it has come to its end, the calls that are running are
those that were running before. -/
theorem Course.steps (h : Course s ending s') (ht : Tracked s) (hf : s.tables.Formed)
    (hu : s'.tables.Unwrapped) :
    Steps s s' ∧ (ending = .returned → ∀ c, pending c s'.journal = pending c s.journal) := by
  induction h with
  | refl s => exact ⟨.refl, fun _ _ => rfl⟩
  | stop s => exact ⟨.refl, fun _ _ => rfl⟩
  | change h => exact ⟨.single (.change h), fun _ => h.pending⟩
  | @call s s₁ s₂ s' c request hb h hfin ih =>
    have hf₁ := hf.edit hb.edit
    have hu₂ := ((h.formed hf₁).extends_edit hfin.edit).unwrapped hu
    have hu₁ := (h.extends hf₁).unwrapped hu₂
    have hu₀ := (hf.extends_edit hb.edit).unwrapped hu₁
    obtain ⟨hsteps, hpending⟩ := ih (ht.step hf hu₀.scopes (.begins hb)) hf₁ hu₂
    obtain ⟨n, hj⟩ := hb.journal
    have hp : pending c s₂.journal = some request := by
      rw [hpending rfl, hj]
      exact if_pos rfl
    refine ⟨.tail (.head (.begins hb) hsteps) (.finishes hp hfin), fun _ c' => ?_⟩
    obtain ⟨outcome, hj'⟩ := hfin.journal
    rw [hj', pending]
    split_ifs with hc
    · subst hc
      obtain ⟨n, hx, hl, -, -⟩ := hb
      exact (ht.not_running hx (by simp [hl])).symm
    · rw [hpending rfl, hj, pending, if_neg hc]
      rfl
  | @callBroken s s₁ s' c request hb h ih =>
    have hf₁ := hf.edit hb.edit
    have hu₁ := (h.extends hf₁).unwrapped hu
    have hu₀ := (hf.extends_edit hb.edit).unwrapped hu₁
    exact ⟨.head (.begins hb) (ih (ht.step hf hu₀.scopes (.begins hb)) hf₁ hu).1, nofun⟩
  | @callLost s s₁ s₂ c request hb h hgone outcome ih =>
    have hf₁ := hf.edit hb.edit
    have hu₁ := (h.extends hf₁).unwrapped hu
    have hu₀ := (hf.extends_edit hb.edit).unwrapped hu₁
    obtain ⟨hsteps, hpending⟩ := ih (ht.step hf hu₀.scopes (.begins hb)) hf₁ hu
    obtain ⟨n, hj⟩ := hb.journal
    have hp : pending c s₂.journal = some request := by
      rw [hpending rfl, hj]
      exact if_pos rfl
    exact ⟨.tail (.head (.begins hb) hsteps) (.lost hp hgone outcome), nofun⟩
  | @trans s s₁ s' ending h h' ih ih' =>
    have hf₁ := h.formed hf
    have hu₁ := (h'.extends hf₁).unwrapped hu
    obtain ⟨hsteps, hpending⟩ := ih ht hf hu₁
    obtain ⟨hsteps', hpending'⟩ := ih' (hsteps.tracked ht hf hu₁) hf₁ hu
    exact ⟨hsteps.trans hsteps', fun he c => (hpending' he c).trans (hpending rfl c)⟩

/-- A history is a sequence of steps. -/
theorem Later.steps (h : Later s s') (ht : Tracked s) (hf : s.tables.Formed)
    (hu : s'.tables.Unwrapped) : Steps s s' := by
  induction h with
  | refl => exact .refl
  | @perform s₁ h host fuel op ih =>
    have hf₁ := h.formed hf
    obtain ⟨ending, hc⟩ := course_perform host fuel op hf₁
    have hu₁ := (hc.extends hf₁).unwrapped hu
    have hsteps := ih hu₁
    exact hsteps.trans (hc.steps (hsteps.tracked ht hf hu₁) hf₁ hu).1
  | @step s₁ s₂ h hstep ih =>
    have hf₁ := h.formed hf
    exact .tail (ih ((hf₁.extends_edit hstep.edit).unwrapped hu)) hstep

/-- The journal keeps track in every later session whose handles have not come round. -/
theorem Later.tracked (h : Later s s') (ht : Tracked s) (hf : s.tables.Formed)
    (hu : s'.tables.Unwrapped) : Tracked s' :=
  (h.steps ht hf hu).tracked ht hf hu

/-- What every step keeps in tracked sessions is kept over the whole history. -/
theorem Steps.induction {s₀ : Session L T W} {P : Session L T W → Prop} (h : Steps s₀ s)
    (ht : Tracked s₀) (hf : s₀.tables.Formed) (hu : s.tables.Unwrapped) (hstart : P s₀)
    (hP : ∀ s s', Steps s₀ s → Tracked s → s.tables.Formed → s.tables.scopes.Unwrapped →
      Step s s' → P s → P s') : P s := by
  induction h with
  | refl => exact hstart
  | @tail s s' h hstep ih =>
    have hf₁ := (Steps.later h).formed hf
    have hu₁ := (hf₁.extends_edit hstep.edit).unwrapped hu
    exact hP s s' h (Steps.tracked h ht hf hu₁) hf₁ hu₁.scopes hstep (ih hu₁)

/-- What single steps keep of a live scope is kept as long as it is there. -/
theorem Steps.induction_scope {s₀ : Session L T W} {x₀ : Scope L T}
    {P : Session L T W → Scope L T → Prop} (h : Steps s₀ s) (ht : Tracked s₀)
    (hf : s₀.tables.Formed) (hu : s.tables.Unwrapped) (hx₀ : s₀.tables.scopes.get? c = some x₀)
    (hP₀ : P s₀ x₀)
    (hP : ∀ s s' x x', Tracked s → s.tables.scopes.get? c = some x → Progress c s s' x x' →
      P s x → P s' x')
    (hx : s.tables.scopes.get? c = some x) : P s x := by
  refine h.induction ht hf hu (P := fun s => ∀ x, s.tables.scopes.get? c = some x → P s x)
    ?_ ?_ x hx
  · intro x hx
    rw [hx₀] at hx
    exact Option.some.inj hx ▸ hP₀
  · intro s s' hsteps ht hf' hu hstep ih x' hx'
    have hi := ((Steps.later hsteps).extends hf).scopes.issued c (SlotTable.issued_of_get? hx₀)
    obtain ⟨x, hx, hprog⟩ := hstep.progress hf' hu hi hx'
    exact hP s s' x x' ht hx hprog (ih x hx)

end Session

end NameResolution
