import NameResolution.Proofs.Session.Progress

/-!
# How scopes come to be loaded

A scope that is loaded stays loaded (`Progress.state_eq_loaded`), and has come to be so in
one of two ways (`Progress.completed_or_settled`). Either its loader was done with
everything; or the loader was away for one part, and the scope settled as if it had none.
`loaded_iff` says that these are all, and `settledPackage_loaded_without_completion` that
the second one occurs.
-/

namespace NameResolution

variable {L T W : Type}

namespace Session

variable {s s' : Session L T W} {c : ScopeId} {x x' : Scope L T}

/-! ## One step -/

/-- A scope that is loaded stays so, also while its loader is asked for a part. -/
theorem Progress.state_eq_loaded (h : Progress c s s' x x') (ht : Tracked s)
    (hx : s.tables.scopes.get? c = some x) (hs : x.state = .loaded) : x'.state = .loaded := by
  cases h with
  | same hs' => exact hs'.trans hs
  | settled _ _ _ hxx => rw [hxx]
  | began hs' => exact absurd hs hs'
  | @ended request outcome hp hs' =>
    have hrun := (ht.running c x request hx hp).2
    cases request with
    | none => exact absurd (hs.symm.trans (hrun.2 rfl)) nofun
    | some part => exact hs'.trans hs

/-- The scope has a loader : it is in the scope, or a call of it is running. -/
def HasLoader (c : ScopeId) (s : Session L T W) (x : Scope L T) : Prop :=
  x.loader ≠ none ∨ pending c s.journal ≠ none

/-- A loader keeps to its scope. -/
theorem Progress.hasLoader_iff (h : Progress c s s' x x') :
    HasLoader c s' x' ↔ HasLoader c s x := by
  unfold HasLoader
  cases h with
  | same _ hl hp => rw [hl, hp]
  | settled _ _ h' hxx =>
    subst h' hxx
    rfl
  | began _ _ hl _ _ hp => simp [hl, hp]
  | ended hp _ hl => simp [hl, hp]

/-- The scope was unloaded while its loader was asked for one part, counted as loaded then, and
`s` is later. -/
def SettledEarly (c : ScopeId) (s₀ s : Session L T W) : Prop :=
  ∃ s₁ part, Later s₀ s₁ ∧ pending c s₁.journal = some (some part) ∧
    (∃ x₁, s₁.tables.scopes.get? c = some x₁ ∧ x₁.state = .unloaded) ∧
    Later (s₁.mapScope c fun x => { x with state := .loaded }) s

/-- A scope becomes loaded when its loader completes, or when it is settled while its loader is
away for a part. -/
theorem Progress.completed_or_settled {s₀ : Session L T W} (h : Progress c s s' x x')
    (ht : Tracked s) (h₀ : Later s₀ s) (hstep : Step s s')
    (hx : s.tables.scopes.get? c = some x)
    (hl : HasLoader c s x) (ih : x.state = .loaded → completed c s.journal ∨ SettledEarly c s₀ s)
    (hs : x'.state = .loaded) : completed c s'.journal ∨ SettledEarly c s₀ s' := by
  have hbefore (hsx : x.state = .loaded) (hc : completed c s.journal → completed c s'.journal) :
      completed c s'.journal ∨ SettledEarly c s₀ s' := by
    rcases ih hsx with hdone | ⟨s₁, part, h₁, hp, hx₁, hlater⟩
    · exact Or.inl (hc hdone)
    · exact Or.inr ⟨s₁, part, h₁, hp, hx₁, hlater.step hstep⟩
  cases h with
  | same hs' _ _ hc => exact hbefore (hs'.symm.trans hs) hc.2
  | settled hs' hnone h' hxx =>
    subst h' hxx
    obtain ⟨request, hp⟩ := Option.ne_none_iff_exists'.1 (hl.resolve_left (not_not.2 hnone))
    have hrun := (ht.running c x request hx hp).2
    cases request with
    | none => exact absurd (hs'.symm.trans (hrun.2 rfl)) nofun
    | some part => exact Or.inr ⟨s, part, h₀, hp, ⟨x, hx, hs'⟩, .refl _⟩
  | @began request hs' _ _ hs'' =>
    rw [hs] at hs''
    cases request with
    | none => cases hs''
    | some part => exact absurd hs''.symm hs'
  | @ended request outcome _ hs' _ _ hc =>
    rw [hs] at hs'
    cases request with
    | none =>
      cases outcome with
      | done => exact Or.inl (hc.2 (Or.inl ⟨rfl, rfl⟩))
      | notReady => cases hs'
      | batch size => cases hs'
    | some part => exact hbefore hs'.symm fun h => hc.2 (Or.inr h)

/-- A scope whose loader completes is loaded. -/
theorem Progress.state_eq_loaded_of_completed (h : Progress c s s' x x') (ht : Tracked s)
    (hx : s.tables.scopes.get? c = some x)
    (ih : completed c s.journal → x.state = .loaded) (hc : completed c s'.journal) :
    x'.state = .loaded := by
  have hprog := h
  cases h with
  | same _ _ _ hcc => exact hprog.state_eq_loaded ht hx (ih (hcc.1 hc))
  | settled _ _ _ hxx => rw [hxx]
  | began _ _ _ _ _ _ hcc => exact hprog.state_eq_loaded ht hx (ih (hcc.1 hc))
  | ended _ hs' _ _ hcc =>
    rcases hcc.1 hc with ⟨rfl, rfl⟩ | hc
    · exact hs'
    · exact hprog.state_eq_loaded ht hx (ih hc)

/-! ## Whole histories -/

/-- A scope that is loaded has seen its load completed, or was settled while a targeted request
ran. -/
theorem Steps.completed_or_settled {s₀ : Session L T W} (h : Steps s₀ s) (ht : Tracked s₀)
    (hf : s₀.tables.Formed) (hu : s.tables.Unwrapped)
    (hstart : ∀ x, s₀.tables.scopes.get? c = some x → x.state ≠ .loaded)
    (hx : s.tables.scopes.get? c = some x) (hl : HasLoader c s x) (hs : x.state = .loaded) :
    completed c s.journal ∨ SettledEarly c s₀ s := by
  refine h.induction ht hf hu (P := fun s => ∀ x, s.tables.scopes.get? c = some x →
    HasLoader c s x → x.state = .loaded → completed c s.journal ∨ SettledEarly c s₀ s) ?_ ?_
    x hx hl hs
  · intro x hx _ hs
    exact absurd hs (hstart x hx)
  · intro s s' hsteps ht hf hu hstep ih x' hx' hl hs
    by_cases hi : s.tables.scopes.Issued c
    · obtain ⟨x, hx, hprog⟩ := hstep.progress hf hu hi hx'
      have hl := hprog.hasLoader_iff.1 hl
      exact hprog.completed_or_settled ht (Steps.later hsteps) hstep hx hl (ih x hx hl) hs
    · rw [(hstep.fresh hf hi hx').1] at hs
      cases hs

/-- Once a load has completed the scope stays loaded. -/
theorem Steps.state_eq_loaded_of_completed {s₀ : Session L T W} (h : Steps s₀ s) (ht : Tracked s₀)
    (hf : s₀.tables.Formed) (hu : s.tables.Unwrapped) (hstart : ¬completed c s₀.journal)
    (hx : s.tables.scopes.get? c = some x) (hc : completed c s.journal) : x.state = .loaded := by
  refine h.induction ht hf hu (P := fun s => ∀ x, s.tables.scopes.get? c = some x →
    completed c s.journal → x.state = .loaded) ?_ ?_ x hx hc
  · intro x _ hc
    exact absurd hc hstart
  · intro s s' _ ht hf hu hstep ih x' hx' hc
    by_cases hi : s.tables.scopes.Issued c
    · obtain ⟨x, hx, hprog⟩ := hstep.progress hf hu hi hx'
      exact hprog.state_eq_loaded_of_completed ht hx (ih x hx) hc
    · rw [(hstep.fresh hf hi hx').2] at hc
      exact absurd (ht.done c hc) hi

/-- A scope without a loader is loaded as soon as that is asked of it. -/
theorem perform_forceLoad_of_loader_none (host : Host L T W) (fuel : Nat)
    (hx : s.tables.scopes.get? c = some x) (hs : x.state = .unloaded) (hl : x.loader = none) :
    (host.perform fuel (.forceLoad c) s).2 = s.mapScope c fun x => { x with state := .loaded } := by
  show ((attempt (forceLoad (host.services fuel) c)).run s).2 = _
  rw [run_attempt_snd, run_forceLoad_of_loader_none _ hx hs hl]

/-- A scope that has a loader is loaded when the loader has completed, and not before, unless it is
asked for everything while its loader is away for one part : then it counts as loaded at once. -/
theorem loaded_iff {config : Config} {world : W} {s₀ s : Session L T W} {c : ScopeId}
    {x₀ x : Scope L T} (host : Host L T W) (fuel : Nat)
    (h₀ : Later (Session.start config world) s₀) (h : Later s₀ s) (hu : s.tables.Unwrapped)
    (hx₀ : s₀.tables.scopes.get? c = some x₀) (hl : x₀.loader ≠ none)
    (hx : s.tables.scopes.get? c = some x) :
    x.state = .loaded ↔
      completed c s.journal ∨
        ∃ s₁ part, Later (Session.start config world) s₁ ∧
          pending c s₁.journal = some (some part) ∧
          (∃ x₁, s₁.tables.scopes.get? c = some x₁ ∧ x₁.state = .unloaded) ∧
          Later (host.perform fuel (.forceLoad c) s₁).2 s := by
  have hf : (Session.start config world : Session L T W).tables.Formed := .start config
  have ht := Tracked.start (L := L) (T := T) config world
  have hsteps := (h₀.trans h).steps ht hf hu
  have hsettle {s₁ : Session L T W} {part : NamePart} {x₁ : Scope L T}
      (h₁ : Later (Session.start config world) s₁) (hu₁ : s₁.tables.Unwrapped)
      (hp : pending c s₁.journal = some (some part))
      (hx₁ : s₁.tables.scopes.get? c = some x₁) (hs₁ : x₁.state = .unloaded) :
      (host.perform fuel (.forceLoad c) s₁).2 =
        s₁.mapScope c fun x => { x with state := .loaded } :=
    perform_forceLoad_of_loader_none host fuel hx₁ hs₁
      ((h₁.tracked ht hf hu₁).running c x₁ _ hx₁ hp).1
  constructor
  · intro hs
    have hf₀ := h₀.formed hf
    have ht₀ := h₀.tracked ht hf ((h.extends hf₀).unwrapped hu)
    have hlx : HasLoader c s x := (h.steps ht₀ hf₀ hu).induction_scope ht₀ hf₀ hu hx₀
      (P := HasLoader c) (Or.inl hl) (fun _ _ _ _ _ _ hprog => hprog.hasLoader_iff.2) hx
    have hstart (y : Scope L T)
        (hy : (Session.start config world : Session L T W).tables.scopes.get? c = some y) :
        y.state ≠ .loaded := by
      rw [(Tables.get?_scopes_start hy).2]
      nofun
    rcases hsteps.completed_or_settled ht hf hu hstart hx hlx hs with
      hc | ⟨s₁, part, h₁, hp, ⟨x₁, hx₁, hs₁⟩, hlater⟩
    · exact Or.inl hc
    · have hf₁ := h₁.formed hf
      have hedit : Tables.Edit s₁.tables
          (s₁.mapScope c fun x => { x with state := .loaded }).tables :=
        .scope _ c _ fun _ => .of_names rfl rfl
      have hu₁ := (hf₁.extends_edit hedit).unwrapped
        ((hlater.extends (hf₁.edit hedit)).unwrapped hu)
      rw [← hsettle h₁ hu₁ hp hx₁ hs₁] at hlater
      exact Or.inr ⟨s₁, part, h₁, hp, ⟨x₁, hx₁, hs₁⟩, hlater⟩
  · rintro (hc | ⟨s₁, part, h₁, hp, ⟨x₁, hx₁, hs₁⟩, hlater⟩)
    · exact hsteps.state_eq_loaded_of_completed ht hf hu id hx hc
    · have hforced := h₁.perform host fuel (.forceLoad c)
      have hu' := (hlater.extends (hforced.formed hf)).unwrapped hu
      have hu₁ := (((Later.refl s₁).perform host fuel (.forceLoad c)).extends
        (h₁.formed hf)).unwrapped hu'
      have heq := hsettle h₁ hu₁ hp hx₁ hs₁
      have hsteps' := hlater.steps (hforced.tracked ht hf hu') (hforced.formed hf) hu
      refine hsteps'.induction_scope (hforced.tracked ht hf hu') (hforced.formed hf) hu
        (heq ▸ get?_mapScope hx₁ _) (P := fun _ x => x.state = .loaded) rfl ?_ hx
      exact fun _ _ _ _ ht hx hprog => hprog.state_eq_loaded ht hx

/-! ## A scope that settles early -/

/-- Loaders that ask for everything when they are asked for a part, and have a type to give when
they are asked for everything. -/
def hastyHost : Host Unit Unit Unit where
  templateName _ := ""
  generate _ _ _ _ := none
  load loader c request :=
    match request with
    | some _ => .call (.forceLoad c) fun _ => .done (.done, loader)
    | none =>
      .call (.define c { name := "Later", params := [], kind := .type none, location := .unknown })
        fun _ => .done (.done, loader)

/-- A package with such a loader. -/
def hastyPackage : Session Unit Unit Unit :=
  (hastyHost.perform 2 (.define rootScope
    { name := "pkg", params := [], kind := .package (some ()), location := .unknown })
    (Session.start {} ())).2

/-- The package after the type has been looked for in it. -/
def settledPackage : Session Unit Unit Unit :=
  (hastyHost.perform 2 (.find ⟨1, 0⟩ (.simple "Later" [])) hastyPackage).2

/-- `loaded_iff` on the package that settles itself during a targeted request. -/
theorem loaded_iff_settledPackage : settledPackage.tables.Unwrapped ∧
    ∃ x, settledPackage.tables.scopes.get? ⟨1, 0⟩ = some x ∧
      (x.state = .loaded ↔ completed ⟨1, 0⟩ settledPackage.journal ∨
        ∃ s₁ part, Later (Session.start {} ()) s₁ ∧
          pending ⟨1, 0⟩ s₁.journal = some (some part) ∧
          (∃ x₁, s₁.tables.scopes.get? ⟨1, 0⟩ = some x₁ ∧ x₁.state = .unloaded) ∧
          Later (hastyHost.perform 2 (.forceLoad ⟨1, 0⟩) s₁).2 settledPackage) := by
  have hu : settledPackage.tables.Unwrapped := by decide +kernel
  have h₀ : Later (Session.start {} ()) hastyPackage := (Later.refl _).perform hastyHost 2 _
  have h : Later hastyPackage settledPackage := (Later.refl _).perform hastyHost 2 _
  have hx₀ : (hastyPackage.tables.scopes.get? ⟨1, 0⟩).any (·.loader.isSome) = true := by
    decide +kernel
  obtain ⟨x₀, hx₀, hl⟩ := (Option.any_eq_true _ _).1 hx₀
  have hx : (settledPackage.tables.scopes.get? ⟨1, 0⟩).isSome = true := by decide +kernel
  obtain ⟨x, hx⟩ := Option.isSome_iff_exists.1 hx
  exact ⟨hu, x, hx, loaded_iff hastyHost 2 h₀ h hu hx₀ (Option.isSome_iff_ne_none.1 hl) hx⟩

/-- The package counts as loaded although its loader was never asked for everything, and the type
that the loader has to give is not found any more. -/
theorem settledPackage_loaded_without_completion :
    Later (Session.start {} ()) settledPackage ∧
      (∃ x, hastyPackage.tables.scopes.get? ⟨1, 0⟩ = some x ∧ x.loader = some () ∧
        x.state = .unloaded) ∧
      (∃ x, settledPackage.tables.scopes.get? ⟨1, 0⟩ = some x ∧ x.state = .loaded) ∧
      ¬completed ⟨1, 0⟩ settledPackage.journal ∧
      (hastyHost.perform 2 (.find ⟨1, 0⟩ (.simple "Later" [])) settledPackage).1 =
        .ok (.ok none) := by
  refine ⟨((Later.refl _).perform hastyHost 2 _).perform hastyHost 2 _, ⟨_, rfl, rfl, rfl⟩,
    ⟨_, rfl, rfl⟩, ?_, rfl⟩
  decide +kernel

end Session

end NameResolution
