import NameResolution.Proofs.Session.Course.Declaring

/-!
# Loading follows a course

If loaders follow courses and never fail (`Obeys`), so does all that calls them. Between
taking a loader out and calling it nothing else happens, so both are one beginning
(`Begins`), and so are the return of the loader and the new state of its scope one end
(`Finishes`); `outcome_callLoader` takes the run of the loader from the one to the other.
-/

namespace NameResolution

namespace Session

variable {L T W α β : Type} {s s₀ s₁ : Session L T W} {c : ScopeId} {x : Scope L T}
  {request : Option NamePart} {services : Services L T W}

/-- Every call of a loader follows a course and returns a reply. -/
def Obeys (services : Services L T W) : Prop :=
  ∀ loader c request, Unfailing (services.load loader c request)

theorem run_setState (hx : s.tables.scopes.get? c = some x) (state : LoadState) :
    (setState c state : Run L T W Unit).run s = (.ok (), s.mapScope c fun x => { x with state }) :=
  run_modifyScope hx _

/-- Taking the loader out of a scope that has none changes nothing. -/
theorem mapScope_of_loader_none (hx : s.tables.scopes.get? c = some x) (hl : x.loader = none) :
    (s.mapScope c fun x => { x with loader := none }) = s := by
  unfold mapScope
  rw [SlotTable.modify_eq_self]
  intro y hy
  rw [hx] at hy
  obtain rfl := Option.some.inj hy
  rw [← hl]

theorem run_takeLoader (hx : s.tables.scopes.get? c = some x) :
    (takeLoader c : Run L T W (Option L)).run s =
      (.ok x.loader, s.mapScope c fun x => { x with loader := none }) := by
  unfold takeLoader
  simp only [run_bind, run_ask, Tables.scope, hx, run_modifyScope hx, run_pure]

theorem run_takeLoader_none (hx : s.tables.scopes.get? c = none) :
    (takeLoader c : Run L T W (Option L)).run s = (.error (.fault (.scope c)), s) := by
  unfold takeLoader
  simp only [run_bind, run_ask, Tables.scope, hx]

/-- What comes after a loader has been taken out. -/
theorem outcome_takeLoader {k : Option L → Run L T W β}
    {R : Except Failure β → Session L T W → Prop}
    (hnone : ∀ x, s.tables.scopes.get? c = some x → x.loader = none →
      Outcome s R ((k none).run s))
    (hsome : ∀ x loader, s.tables.scopes.get? c = some x → x.loader = some loader →
      Outcome s R ((k (some loader)).run (s.mapScope c fun x => { x with loader := none }))) :
    Outcome s R ((takeLoader c >>= k).run s) := by
  cases hx : s.tables.scopes.get? c with
  | none =>
    rw [run_bind, run_takeLoader_none hx]
    exact outcome_fault s _
  | some x =>
    rw [run_bind_of_ok (run_takeLoader hx)]
    cases hl : x.loader with
    | none =>
      rw [mapScope_of_loader_none hx hl]
      exact hnone x hx hl
    | some loader => exact hsome x loader hx hl

/-- The call of a loader that returns : its reply is passed on, and the loader is back. -/
theorem run_callLoader {s₂ : Session L T W} {loader loader' : L} {reply : LoadReply L}
    (services : Services L T W)
    (hload : (services.load loader c request).run (s.log (.loadBegan c request)) =
      (.ok (reply, loader'), s₂))
    (hx : s₂.tables.scopes.get? c = some x) :
    (callLoader services c loader request).run s = (.ok reply,
      (s₂.log (.loadEnded c reply.outcome)).mapScope c fun x =>
        { x with loader := some loader' }) := by
  have hx' : (s₂.log (.loadEnded c reply.outcome)).tables.scopes.get? c = some x := hx
  unfold callLoader
  rw [run_bind_of_ok (run_record _ _), run_bind_of_ok hload]
  dsimp only
  rw [run_bind_of_ok (run_record _ _)]
  exact run_bind_of_ok (run_modifyScope hx' _) _

/-- What the call of a loader comes to, from its beginning on : a reply, with the loader back in
its scope, or a break. -/
theorem outcome_callLoader {loader : L} (hs : Obeys services)
    (hb : Begins c request s (s₀.log (.loadBegan c request))) (hf : s.tables.Formed)
    {k : LoadReply L → Run L T W β} {R : Except Failure β → Session L T W → Prop}
    (hk : ∀ reply loader s₂ x, Course (s₀.log (.loadBegan c request)) .returned s₂ →
      s₂.tables.scopes.get? c = some x →
      Outcome s R ((k reply).run ((s₂.log (.loadEnded c reply.outcome)).mapScope c fun x =>
        { x with loader := some loader }))) :
    Outcome s R ((callLoader services c loader request >>= k).run s₀) := by
  unfold callLoader
  simp only [run_bind, run_record]
  have h := hs loader c request _ (hf.edit hb.edit)
  generalize (services.load loader c request).run (s₀.log (.loadBegan c request)) = r at h
  cases h with
  | @value a s₂ hc hQ =>
    obtain ⟨reply, loader'⟩ := a
    dsimp only
    cases hx : s₂.tables.scopes.get? c with
    | none =>
      rw [run_modifyScope_none (s := s₂.log _) hx]
      exact .broken (fun _ => nofun) (.callLost hb hc hx _)
    | some x =>
      rw [run_modifyScope (s := s₂.log _) hx]
      exact hk reply loader' s₂ x hc hx
  | failure hc hQ =>
    obtain ⟨a, ha, -⟩ := hQ
    cases ha
  | broken hstop hc => exact .broken hstop (.callBroken hb hc)

/-- To define what a loader returns is covered. -/
theorem covered_defineAll (c : ScopeId) (ds : List (Declaration L)) :
    Covered (defineAll c ds : Run L T W Unit) := by
  induction ds with
  | nil => exact covered_pure _
  | cons d ds ih =>
    refine (covered_define c d).attempt.covered.bind fun r => ?_
    cases r with
    | ok e => exact ih
    | error f => exact (covered_note _).bind fun _ => covered_fail f

/-- One part is asked of scopes that are not loaded. -/
theorem follows_loadPart (hs : Obeys services) (part : NamePart)
    (hc : ∀ x, s.tables.scopes.get? c = some x → x.state ≠ .loaded) :
    Follows (loadPart services c part) s fun _ _ => True := by
  refine Follows.getTables_bind ?_
  split_ifs
  · intro hf
    refine outcome_takeLoader (fun x hx hl => .value (.refl s) trivial) fun x loader hx hl => ?_
    have hb : Begins c (some part) s _ := .intro (.targetedLoad part) hx hl (hc x hx) nofun
    dsimp only
    rw [run_bind_of_ok (run_note _ _)]
    refine outcome_callLoader hs hb hf fun reply loader' s₂ y hcourse hy => ?_
    have hcall := Course.call hb hcourse (.intro loader' reply.outcome hy)
    refine Outcome.after hcall ?_
    cases reply with
    | done => exact .value (.refl _) trivial
    | notReady => exact .value (.refl _) trivial
    | batch ds => exact covered_defineAll c ds _ (hcall.formed hf)
  · exact follows_pure trivial

/-! ## Loading everything -/

/-- A full load begins : the loader is out already, and the scope is loading. -/
theorem run_beginFull (hx : s.tables.scopes.get? c = some x) (n : Note) (act : Run L T W β) :
    (do
      note n
      setState c .loading
      act : Run L T W β).run (s.mapScope c fun x => { x with loader := none }) =
      act.run ((s.mapScope c fun x =>
        { x with loader := none, state := stateDuring none x.state }).log (.noted n)) := by
  have hx' : ((s.mapScope c fun x => { x with loader := none }).log
      (.noted n)).tables.scopes.get? c = some { x with loader := none } := get?_mapScope hx _
  have htwice : ((s.mapScope c fun x => { x with loader := none }).mapScope c fun x =>
      { x with state := .loading }) =
      s.mapScope c fun x => { x with loader := none, state := stateDuring none x.state } :=
    mapScope_mapScope s c _ _
  rw [run_bind_of_ok (run_note _ _), run_bind_of_ok (run_setState hx' _), ← htwice]
  rfl

/-- What a full load does about the reply once the loader is back. -/
def endFull (c : ScopeId) (e : EntityId) : LoadReply L → Run L T W Unit
  | .done => do
    setState c .loaded
    note (.loaded ((← getTables).showPath e))
  | .notReady => do
    setState c .unloaded
    note (.notReady ((← getTables).showPath e))
  | .batch declarations => do
    setState c .unloaded
    defineAll c declarations

/-- A loaded scope is left alone. -/
theorem run_forceLoad_of_loaded (services : Services L T W)
    (hx : s.tables.scopes.get? c = some x) (hstate : x.state = .loaded) :
    (forceLoad services c).run s = (.ok (), s) := by
  unfold forceLoad
  rw [run_bind_of_ok (run_ask_scope hx), hstate]
  rfl

/-- Asked for everything, an unloaded scope whose loader is away counts as loaded. -/
theorem run_forceLoad_of_loader_none (services : Services L T W)
    (hx : s.tables.scopes.get? c = some x) (hs : x.state = .unloaded) (hl : x.loader = none) :
    (forceLoad services c).run s = (.ok (), s.mapScope c fun x => { x with state := .loaded }) := by
  have htake : (takeLoader c : Run L T W (Option L)).run s = (.ok none, s) := by
    rw [run_takeLoader hx, mapScope_of_loader_none hx hl, hl]
  unfold forceLoad
  simp only [run_bind, run_ask, Tables.scope, hx, hs, htake, run_setState hx]

/-- A full load of a scope that is unloaded and has a loader is a call between its beginning and its
end. -/
theorem run_forceLoad_of_loader {loader : L} (services : Services L T W)
    (hx : s.tables.scopes.get? c = some x) (hstate : x.state = .unloaded)
    (hl : x.loader = some loader) :
    ∃ n, (forceLoad services c).run s =
      (callLoader services c loader none >>= endFull c x.entity).run ((s.mapScope c fun x =>
        { x with loader := none, state := stateDuring none x.state }).log (.noted n)) := by
  unfold forceLoad
  rw [run_bind_of_ok (run_ask_scope hx)]
  extract_lets path
  have hpath (s : Session L T W) : path.run s = (.ok (s.tables.showPath x.entity), s) := rfl
  rw [hstate]
  dsimp only
  rw [run_bind_of_ok (run_takeLoader hx), hl]
  dsimp only
  rw [run_bind_of_ok (hpath _), run_beginFull hx]
  refine ⟨_, congrArg (fun act : Run L T W Unit => act.run _) (bind_congr fun reply => ?_)⟩
  cases reply <;> rfl

/-- The scope gets its new state, and that is noted. -/
theorem run_setState_note (hx : s.tables.scopes.get? c = some x) (state : LoadState)
    (message : String → Note) (e : EntityId) :
    ∃ n, (do
      setState c state
      note (message ((← getTables).showPath e)) : Run L T W Unit).run s =
      (.ok (), (s.mapScope c fun x => { x with state }).log (.noted n)) :=
  ⟨_, run_bind_of_ok (run_setState hx state) _⟩

/-- A full load ends : the loader is back, and the scope gets its new state before anything else
is done about the reply. -/
theorem outcome_endFull {s₂ : Session L T W} {loader : L} {outcome : LoadEnd} {state : LoadState}
    {act : Run L T W Unit} (hb : Begins c none s s₁) (hcourse : Course s₁ .returned s₂)
    (hx : s₂.tables.scopes.get? c = some x)
    (hstate : ∀ before, stateAfter none outcome before = state) (hact : Covered act)
    (hf : s.tables.Formed) :
    Outcome s (fun _ _ => True) ((do
      setState c state
      act : Run L T W Unit).run ((s₂.log (.loadEnded c outcome)).mapScope c fun x =>
        { x with loader := some loader })) := by
  have hx' : ((s₂.log (.loadEnded c outcome)).mapScope c fun x =>
      { x with loader := some loader }).tables.scopes.get? c =
      some { x with loader := some loader } := get?_mapScope (s := s₂.log _) hx _
  have hfin : Finishes c none s₂ _ := .intro loader outcome hx
  simp only [hstate] at hfin
  have hcall := Course.call hb hcourse hfin
  rw [run_bind_of_ok (run_setState hx' _), mapScope_mapScope]
  exact (hact _ (hcall.formed hf)).after hcall

theorem covered_forceLoad (hs : Obeys services) (c : ScopeId) :
    Covered (forceLoad services c) := by
  intro s
  refine Follows.ask_bind (fun x hx => ?_) fun _ _ => trivial
  have hx := scope_eq_ok hx
  extract_lets path
  have hpath : Covered path := covered_getTables.bind fun _ => covered_pure _
  split
  · exact follows_pure trivial
  · exact hpath.bind (fun _ => covered_note _) s
  · rename_i hstate
    intro hf
    refine outcome_takeLoader (fun y hy hl => ?_) fun y loader hy hl => ?_
    · obtain rfl := Option.some.inj (hx.symm.trans hy)
      exact follows_modifyScope (fun _ _ => ⟨.settle hx hstate hl, trivial⟩) hf
    · obtain rfl := Option.some.inj (hx.symm.trans hy)
      have hrun (s : Session L T W) : path.run s = (.ok (s.tables.showPath x.entity), s) := rfl
      have hb (n : Note) : Begins c none s _ := .intro n hx hl (by simp [hstate]) fun _ => hstate
      dsimp only
      rw [run_bind_of_ok (hrun _), run_beginFull hx]
      refine outcome_callLoader hs (hb _) hf fun reply loader' s₂ y hcourse hy => ?_
      cases reply with
      | done =>
        have hnote := hpath.bind fun path => covered_note (.loaded path)
        exact outcome_endFull (hb _) hcourse hy (fun _ => rfl) hnote hf
      | notReady =>
        have hnote := hpath.bind fun path => covered_note (.notReady path)
        exact outcome_endFull (hb _) hcourse hy (fun _ => rfl) hnote hf
      | batch ds =>
        exact outcome_endFull (hb _) hcourse hy (fun _ => rfl) (covered_defineAll c ds) hf

end Session

end NameResolution
