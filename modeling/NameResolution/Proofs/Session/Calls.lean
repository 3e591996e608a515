import NameResolution.Proofs.Session.Loads
import NameResolution.Proofs.Session.Requests
import NameResolution.Proofs.Session.Resolution
import NameResolution.Proofs.Session.Turning

/-!
# When loaders are called

A run asks things of a scope's loader in an order that the program fixes (`Asks`) : to
find a part it asks for the part, if single parts are to be asked for, and then for
everything (`asks_findSimple`). Over a whole history, a call begins only when none of the
same loader is running (`Steps.pending_of_began`), a scope that is loaded is asked nothing
more (`Steps.requests_of_loaded`), and between operations that have returned every loader
is back in its scope (`AtRest.pending`). `loader_calls_disciplined` says all this of every
session that a host can bring about, as long as no handle has come round. After that a
loader may go back to a scope that was not its own (`loader_returns_elsewhere`).
-/

namespace NameResolution

variable {L T W α β : Type}

namespace Session

variable {s s' s₀ s₁ : Session L T W} {c : ScopeId} {x : Scope L T} {name : String}
  {params : List Param} {request : Option NamePart} {rs rs' : List (Option NamePart)}
  {services : Services L T W}

/-! ## One call -/

/-- Nothing is asked of any loader, and no slot is given up. -/
structure Quiet (act : Run L T W α) : Prop where
  asks : ∀ s c, requests c (act.run s).2.journal = requests c s.journal
  keeps : ∀ s, s.tables.Formed →
    (act.run s).2.tables.Formed ∧ s.tables.Extends (act.run s).2.tables

/-- A run that calls no loader and is covered is quiet. -/
theorem Silent.quiet {act : Run L T W α} (h : Silent act) (hc : Covered act) : Quiet act := by
  refine ⟨fun s => (h s).requests, fun s hs => ?_⟩
  obtain ⟨ending, hcourse⟩ := (hc s hs).course
  exact ⟨hcourse.formed hs, hcourse.extends hs⟩

theorem Quiet.bind {act : Run L T W α} {f : α → Run L T W β} (h : Quiet act)
    (hf : ∀ a, Quiet (f a)) : Quiet (act >>= f) := by
  refine ⟨fun s c => ?_, fun s hs => ?_⟩
  · have hact := h.asks s c
    rw [run_bind]
    generalize act.run s = r at hact
    obtain ⟨stop | a, s₁⟩ := r
    · exact hact
    · exact ((hf a).asks s₁ c).trans hact
  · have hact := h.keeps s hs
    rw [run_bind]
    generalize act.run s = r at hact
    obtain ⟨stop | a, s₁⟩ := r
    · exact hact
    · have hrest := (hf a).keeps s₁ hact.1
      exact ⟨hrest.1, hact.2.trans hrest.2⟩

theorem quiet_modifyScope (c : ScopeId) {f : Scope L T → Scope L T}
    (hf : ∀ x : Scope L T, x.Alike (f x)) : Quiet (modifyScope c f : Run L T W Unit) := by
  refine ⟨fun s => (edits_silent.modifyScope c f s).requests, fun s hs => ?_⟩
  cases hx : s.tables.scopes.get? c with
  | none =>
    rw [run_modifyScope_none hx]
    exact ⟨hs, .refl _⟩
  | some x =>
    rw [run_modifyScope hx]
    have hedit : Tables.Edit s.tables (s.mapScope c f).tables := .scope _ c _ hf
    exact ⟨hs.edit hedit, hs.extends_edit hedit⟩

theorem quiet_setState (c : ScopeId) (state : LoadState) :
    Quiet (setState c state : Run L T W Unit) :=
  quiet_modifyScope c fun _ => .of_names rfl rfl

theorem quiet_setLoader (c : ScopeId) (loader : L) :
    Quiet (modifyScope c fun x => { x with loader := some loader } : Run L T W Unit) :=
  quiet_modifyScope c fun _ => .of_names rfl rfl

theorem quiet_recordEnded (c : ScopeId) (outcome : LoadEnd) :
    Quiet (record (.loadEnded c outcome) : Run L T W Unit) :=
  ⟨fun _ _ => rfl, fun _ hs => ⟨hs, .refl _⟩⟩

/-- What begins with the call of a loader, and asks nothing of loaders afterwards, asks just
this. -/
theorem requests_callLoader {loader : L} {k : LoadReply L → Run L T W β} (hs : Obeys services)
    (hb : Begins c request s (s₀.log (.loadBegan c request))) (hf : s.tables.Formed)
    (ht : Tracked s) (hk : ∀ reply, Quiet (k reply))
    (hu : ((callLoader services c loader request >>= k).run s₀).2.tables.Unwrapped) :
    requests c ((callLoader services c loader request >>= k).run s₀).2.journal =
      requests c s.journal ++ [request] := by
  have hrun : (callLoader services c loader request >>= k).run s₀ =
      (services.load loader c request >>= fun a => do
        record (.loadEnded c a.1.outcome)
        modifyScope c fun x => { x with loader := some a.2 }
        k a.1).run (s₀.log (.loadBegan c request)) := by
    unfold callLoader
    simp only [bind_assoc, pure_bind]
    rw [run_bind_of_ok (run_record _ _)]
  have hrest (a : LoadReply L × L) : Quiet (do
      record (.loadEnded c a.1.outcome)
      modifyScope c fun x => { x with loader := some a.2 }
      k a.1 : Run L T W β) :=
    (quiet_recordEnded c _).bind fun _ => (quiet_setLoader c a.2).bind fun _ => hk a.1
  rw [hrun, run_bind] at hu ⊢
  have hf₁ := hf.edit hb.edit
  obtain ⟨ending, hcourse⟩ := (hs loader c request _ hf₁).course
  generalize (services.load loader c request).run (s₀.log (.loadBegan c request)) = r
    at hu hcourse ⊢
  have hcall (hu : r.2.tables.Unwrapped) :
      requests c r.2.journal = requests c s.journal ++ [request] := by
    have hu₀ := (hf.extends_edit hb.edit).unwrapped ((hcourse.extends hf₁).unwrapped hu)
    rw [hcourse.requests_of_pending (ht.step hf hu₀.scopes (.begins hb)) hf₁ hu (if_pos rfl),
      hb.requests]
  obtain ⟨stop | a, s₂⟩ := r
  · exact hcall hu
  · rw [(hrest a).asks]
    exact hcall (((hrest a).keeps s₂ (hcourse.formed hf₁)).2.unwrapped hu)

/-! ## Finding a part -/

/-- Between two sessions, some of the requests have been made of a scope's loader, in order, each at
most once. -/
def Asked (c : ScopeId) (rs : List (Option NamePart)) (s s' : Session L T W) : Prop :=
  ∃ since, requests c s'.journal = requests c s.journal ++ since ∧ since.Sublist rs

theorem asked_of_eq (h : requests c s'.journal = requests c s.journal) : Asked c rs s s' :=
  ⟨[], by rw [h, List.append_nil], List.nil_sublist _⟩

/-- What is asked in two runs is asked one after the other. -/
theorem Asked.trans (h : Asked c rs s s₁) (h' : Asked c rs' s₁ s') : Asked c (rs ++ rs') s s' := by
  obtain ⟨since, hr, hs⟩ := h
  obtain ⟨since', hr', hs'⟩ := h'
  exact ⟨since ++ since', by rw [hr', hr, List.append_assoc], hs.append hs'⟩

theorem Asked.mono (h : Asked c rs s s') (hrs : rs.Sublist rs') : Asked c rs' s s' := by
  obtain ⟨since, hr, hs⟩ := h
  exact ⟨since, hr, hs.trans hrs⟩

/-- The run follows a course and makes some of the requests of a scope's loader, in order, however
it ends. -/
structure Asks (c : ScopeId) (rs : List (Option NamePart)) (act : Run L T W α)
    (s : Session L T W) : Prop where
  follows : Follows act s fun _ _ => True
  asked : s.tables.Formed → Tracked s → (act.run s).2.tables.Unwrapped →
    Asked c rs s (act.run s).2

theorem Silent.asks {act : Run L T W α} (h : Silent act) (hc : Covered act) (s : Session L T W) :
    Asks c rs act s :=
  ⟨hc s, fun _ _ _ => asked_of_eq ((h s).requests c)⟩

theorem Asks.bind {act : Run L T W α} {f : α → Run L T W β} (h : Asks c rs act s)
    (hf : ∀ a s₁, Course s .returned s₁ → act.run s = (.ok a, s₁) → Asks c rs' (f a) s₁) :
    Asks c (rs ++ rs') (act >>= f) s := by
  refine ⟨fun hs => ?_, fun hs ht hu => ?_⟩
  · have hout := h.follows hs
    rw [run_bind]
    rcases hr : act.run s with ⟨stop | a, s₁⟩
    · rw [hr] at hout
      cases hout with
      | failure hc => exact .failure hc trivial
      | broken hstop hc => exact .broken hstop hc
    · rw [hr] at hout
      cases hout with
      | value hc => exact ((hf a s₁ hc hr).follows (hc.formed hs)).after hc
  · have hout := h.follows hs
    have hasked := h.asked hs ht
    rw [run_bind] at hu ⊢
    rcases hr : act.run s with ⟨stop | a, s₁⟩
    · rw [hr] at hasked hu
      exact (hasked hu).mono (List.sublist_append_left rs rs')
    · rw [hr] at hasked hout hu
      cases hout with
      | value hc =>
        have hrest := hf a s₁ hc hr
        obtain ⟨ending, hc'⟩ := (hrest.follows (hc.formed hs)).course
        have hu₁ := (hc'.extends (hc.formed hs)).unwrapped hu
        have ht₁ := (hc.steps ht hs hu₁).1.tracked ht hs hu₁
        exact (hasked hu₁).trans (hrest.asked (hc.formed hs) ht₁ hu)

/-- What comes before asks nothing. -/
theorem Silent.bind_asks {act : Run L T W α} {f : α → Run L T W β} (h : Silent act)
    (hc : Covered act)
    (hf : ∀ a s₁, Course s .returned s₁ → act.run s = (.ok a, s₁) → Asks c rs (f a) s₁) :
    Asks c rs (act >>= f) s := by
  have hact : Asks c [] act s := h.asks hc s
  exact hact.bind hf

/-- To load one part asks for it once, if single parts are asked for. -/
theorem asks_loadPart (hs : Obeys services) (part : NamePart)
    (hc : ∀ x, s.tables.scopes.get? c = some x → x.state ≠ .loaded) :
    Asks c (if s.tables.config.targetedLoads then [some part] else [])
      (loadPart services c part) s := by
  refine ⟨follows_loadPart hs part hc, fun hf ht hu => ?_⟩
  generalize hr : (loadPart services c part).run s = r at hu ⊢
  unfold loadPart at hr
  rw [run_bind_of_ok (run_getTables s)] at hr
  split_ifs at hr ⊢
  · cases hx : s.tables.scopes.get? c with
    | none =>
      rw [run_bind, run_takeLoader_none hx] at hr
      exact hr ▸ asked_of_eq rfl
    | some x =>
      rw [run_bind_of_ok (run_takeLoader hx)] at hr
      cases hl : x.loader with
      | none =>
        rw [hl] at hr
        exact hr ▸ asked_of_eq rfl
      | some loader =>
        rw [hl] at hr
        have hb : Begins c (some part) s _ := .intro (.targetedLoad part) hx hl (hc x hx) nofun
        dsimp only at hr
        rw [run_bind_of_ok (run_note _ _)] at hr
        subst hr
        refine ⟨[some part], requests_callLoader hs hb hf ht (fun reply => ?_) hu, .refl _⟩
        split
        · exact (silent_pure ()).quiet (covered_pure ())
        · exact (silent_pure ()).quiet (covered_pure ())
        · exact (silent_defineAll c _).quiet (covered_defineAll c _)
  · exact hr ▸ asked_of_eq rfl

/-- To load everything asks for everything once at most. -/
theorem asks_forceLoad (hs : Obeys services) (c : ScopeId) (s : Session L T W) :
    Asks c [none] (forceLoad services c) s := by
  refine ⟨covered_forceLoad hs c s, fun hf ht hu => ?_⟩
  generalize hr : (forceLoad services c).run s = r at hu ⊢
  unfold forceLoad at hr
  cases hx : s.tables.scopes.get? c with
  | none =>
    rw [run_bind, run_ask, Tables.scope, hx] at hr
    exact hr ▸ asked_of_eq rfl
  | some x =>
    rw [run_bind_of_ok (run_ask_scope hx)] at hr
    extract_lets path at hr
    have hpath (s : Session L T W) : path.run s = (.ok (s.tables.showPath x.entity), s) := rfl
    have hquiet (n : String → Note) : Quiet (do note (n (← path)) : Run L T W Unit) :=
      ((silent_getTables.bind fun _ => silent_pure _).bind fun _ => silent_note _).quiet
        ((covered_getTables.bind fun _ => covered_pure _).bind fun _ => covered_note _)
    split at hr
    · exact hr ▸ asked_of_eq rfl
    · exact hr ▸ asked_of_eq ((hquiet .reentrantLoad).asks s c)
    · rename_i hstate
      rw [run_bind_of_ok (run_takeLoader hx)] at hr
      cases hl : x.loader with
      | none =>
        have hset : Quiet (setState c .loaded : Run L T W Unit) := quiet_setState c .loaded
        rw [hl] at hr
        exact hr ▸ asked_of_eq (hset.asks _ c)
      | some loader =>
        rw [hl] at hr
        have hb (n : Note) : Begins c none s _ := .intro n hx hl (by simp [hstate]) fun _ => hstate
        dsimp only at hr
        rw [run_bind_of_ok (hpath _), run_beginFull hx] at hr
        subst hr
        refine ⟨[none], requests_callLoader hs (hb _) hf ht (fun reply => ?_) hu, .refl _⟩
        split
        · exact (quiet_setState c _).bind fun _ => hquiet .loaded
        · exact (quiet_setState c _).bind fun _ => hquiet .notReady
        · exact (quiet_setState c _).bind fun _ =>
            (silent_defineAll c _).quiet (covered_defineAll c _)

/-- To find a part asks for the part, then for everything, each once at most. -/
theorem asks_findSimple (hs : Obeys services) (c : ScopeId) (name : String) (params : List Param)
    (s : Session L T W) :
    Asks c ((if s.tables.config.targetedLoads then [some (.simple name params)] else []) ++ [none])
      (findSimple services c name params) s := by
  have hpart {s₁ : Session L T W} (h₁ : Course s .returned s₁)
      (hc : ∀ x, s₁.tables.scopes.get? c = some x → x.state ≠ .loaded) :
      Asks c (if s.tables.config.targetedLoads then [some (.simple name params)] else [])
        (loadPart services c (.simple name params)) s₁ := by
    have hconfig : s₁.tables.config = s.tables.config :=
      h₁.induction_edit (P := fun t => t.config = s.tables.config)
        (fun h he => he.config_eq.trans h) rfl
    rw [← hconfig]
    exact asks_loadPart hs _ hc
  generalize (if s.tables.config.targetedLoads then [some (NamePart.simple name params)] else []) =
    rs at hpart ⊢
  unfold findSimple
  extract_lets resolve
  have hsilent : Silent resolve := silent_resolveOverload c name params _
  have hcovered : Covered resolve := covered_resolveOverload services c name params _
  refine hsilent.bind_asks hcovered fun found s₁ h₁ _ => ?_
  split
  · exact (silent_pure _).asks (covered_pure _) s₁
  · refine (silent_ask _).bind_asks (covered_ask _) fun x s₂ _ hx => ?_
    rw [run_ask] at hx
    obtain ⟨hx, rfl⟩ := Prod.ext_iff.1 hx
    split_ifs with hstate
    · exact (silent_pure _).asks (covered_pure _) s₁
    · refine (hpart h₁ ?_).bind fun _ s₂ _ _ => ?_
      · intro y hy
        rw [scope_eq_ok hx] at hy
        exact Option.some.inj hy ▸ hstate
      · refine hsilent.bind_asks hcovered fun found s₃ _ _ => ?_
        split
        · exact (silent_pure _).asks (covered_pure _) s₃
        · have hlast (s : Session L T W) : Asks c [] resolve s := hsilent.asks hcovered s
          exact (asks_forceLoad hs c s₃).bind fun _ s₄ _ _ => hlast s₄

/-! ## Between operations -/

/-- A session between operations, all of which have returned, each with a value or a failure. Hosts
may take turns, and change the world in between. -/
inductive AtRest (s₀ : Session L T W) : Session L T W → Prop
  | start : AtRest s₀ s₀
  | perform {s s' : Session L T W} {host : Host L T W} {fuel : Nat} {op : Operation L T}
    {answer : op.Answer} (h : AtRest s₀ s) (hrun : host.perform fuel op s = (.ok answer, s')) :
    AtRest s₀ s'
  | world {s : Session L T W} (h : AtRest s₀ s) (w : W) : AtRest s₀ { s with world := w }

theorem AtRest.later (h : AtRest s₀ s) : Later s₀ s := by
  induction h with
  | start => exact .refl _
  | perform _ hrun ih => exact ih.trans (later_of_perform hrun)
  | world _ w ih => exact ih.step (.change (.world _ w))

/-- An operation that returns leaves no call running that was not running before. -/
theorem AtRest.pending (h : AtRest s₀ s) (ht : Tracked s₀) (hf : s₀.tables.Formed)
    (hu : s.tables.Unwrapped) (c : ScopeId) : pending c s.journal = pending c s₀.journal := by
  induction h with
  | start => rfl
  | @perform s s' host fuel op answer h hrun ih =>
    have hf' := h.later.formed hf
    have hcourse := ((unfailing_perform (obeys_services host fuel) op s).of_run_eq_ok hf' hrun).1
    have hu' := (hcourse.extends hf').unwrapped hu
    have ht' := h.later.tracked ht hf hu'
    rw [(hcourse.steps ht' hf' hu).2 rfl c, ih hu']
  | world _ w ih => exact ih hu

/-! ## Whole histories -/

/-- A call that has begun by the end of a step had begun before, or begins now, and then no call of
the same loader is running. -/
theorem Step.began_cases {before : List (Event T)} (h : Step s s') (ht : Tracked s)
    (hb : .loadBegan c request :: before <:+ s'.journal) :
    .loadBegan c request :: before <:+ s.journal ∨ pending c before = none := by
  have hskip {event : Event T} {events : List (Event T)}
      (h : .loadBegan c request :: before <:+ event :: events)
      (hne : event ≠ .loadBegan c request) : .loadBegan c request :: before <:+ events :=
    (List.suffix_cons_iff.1 h).resolve_left fun h => hne (List.cons.inj h).1.symm
  cases h with
  | change h =>
    rcases h.journal with hj | ⟨event, he, hj⟩
    · exact Or.inl (hj ▸ hb)
    · rw [hj] at hb
      refine Or.inl (hskip hb ?_)
      rintro rfl
      exact he trivial
  | begins h =>
    obtain ⟨n, hj⟩ := h.journal
    obtain ⟨_, hx, hl, -, -⟩ := h
    rw [hj] at hb
    rcases List.suffix_cons_iff.1 hb with heq | hb
    · obtain ⟨hevent, rfl⟩ := List.cons.inj heq
      obtain ⟨rfl, -⟩ := Event.loadBegan.inj hevent
      exact Or.inr (ht.not_running hx (by simp [hl]))
    · exact Or.inl (hskip hb nofun)
  | finishes _ h =>
    obtain ⟨outcome, hj⟩ := h.journal
    rw [hj] at hb
    exact Or.inl (hskip hb nofun)
  | lost => exact Or.inl (hskip hb nofun)

/-- A loader is called only when no call of it is running. -/
theorem Steps.pending_of_began (h : Steps s₀ s) (ht : Tracked s₀) (hf : s₀.tables.Formed)
    (hu : s.tables.Unwrapped) (hstart : s₀.journal = []) (c : ScopeId)
    (request : Option NamePart) (before : List (Event T))
    (hb : .loadBegan c request :: before <:+ s.journal) : Session.pending c before = none := by
  refine h.induction ht hf hu (P := fun s => .loadBegan c request :: before <:+ s.journal →
    Session.pending c before = none) ?_ ?_ hb
  · intro hb
    rw [hstart] at hb
    cases List.suffix_nil.1 hb
  · intro s s' _ ht _ _ hstep ih hb
    exact (hstep.began_cases ht hb).elim ih id

/-- A scope that is loaded stays so while it is there, and its loader is not called any more. -/
theorem Steps.requests_of_loaded (h : Steps s₀ s) (ht : Tracked s₀) (hf : s₀.tables.Formed)
    (hu : s.tables.Unwrapped) (hx : s₀.tables.scopes.get? c = some x) (hs : x.state = .loaded) :
    (∀ y, s.tables.scopes.get? c = some y → y.state = .loaded) ∧
      requests c s.journal = requests c s₀.journal := by
  refine h.induction ht hf hu (P := fun s =>
    (∀ y, s.tables.scopes.get? c = some y → y.state = .loaded) ∧
      requests c s.journal = requests c s₀.journal) ⟨fun y hy => ?_, rfl⟩ ?_
  · rw [hx] at hy
    exact Option.some.inj hy ▸ hs
  · rintro s s' hsteps ht hf' hu hstep ⟨hloaded, hrequests⟩
    have hi := ((Steps.later hsteps).extends hf).scopes.issued c (SlotTable.issued_of_get? hx)
    refine ⟨fun y' hy' => ?_, ?_⟩
    · obtain ⟨y, hy, hprog⟩ := hstep.progress hf' hu hi hy'
      exact hprog.state_eq_loaded ht hy (hloaded y hy)
    · cases hstep with
      | change h => rw [h.requests, hrequests]
      | @begins _ c' _ h =>
        have hc : c' ≠ c := by
          rintro rfl
          obtain ⟨n, hy, -, hstate, -⟩ := h
          exact hstate (hloaded _ hy)
        rw [h.requests_of_ne hc, hrequests]
      | finishes _ h => rw [h.requests, hrequests]
      | lost => exact hrequests

/-- Every session that a host can bring about keeps this discipline, as long as no slot has been
emptied `2 ^ 32` times, whatever its loaders do and however operations end. A loader is called only
when no call of it is running. When all operations have returned, no scope is loading, and every
scope that ever had a loader has it. A scope that is loaded stays so, and its loader is not called
again. And to find a part, a scope's loader is called for this part first, if single parts are to be
asked for, and then for everything, each at most once; it is not called if the part is there already
or the scope is loaded. -/
theorem loader_calls_disciplined {config : Config} {world : W} {s : Session L T W}
    (h : Later (Session.start config world) s) (hu : s.tables.Unwrapped) :
    (∀ c request before, .loadBegan c request :: before <:+ s.journal →
      pending c before = none) ∧
    (AtRest (Session.start config world) s → ∀ c x, s.tables.scopes.get? c = some x →
      x.state ≠ .loading ∧
        ∀ s₀ x₀, Later (Session.start config world) s₀ → Later s₀ s →
          s₀.tables.scopes.get? c = some x₀ → x₀.loader ≠ none → x.loader ≠ none) ∧
    (∀ s₀ c x₀, Later (Session.start config world) s₀ → Later s₀ s →
      s₀.tables.scopes.get? c = some x₀ → x₀.state = .loaded →
        (∀ x, s.tables.scopes.get? c = some x → x.state = .loaded) ∧
          requests c s.journal = requests c s₀.journal) ∧
    (∀ s₀ (host : Host L T W) fuel c name params r, Later (Session.start config world) s₀ →
      host.perform fuel (.find c (.simple name params)) s₀ = (r, s) →
        ∃ since, requests c s.journal = requests c s₀.journal ++ since ∧
          since.Sublist
            ((if config.targetedLoads then [some (.simple name params)] else []) ++ [none]) ∧
          ((∃ x, s₀.tables.scopes.get? c = some x ∧
            (x.find? name params ≠ none ∨ x.state = .loaded)) → since = [])) := by
  have hf : (Session.start config world : Session L T W).tables.Formed := .start config
  have ht := Tracked.start (L := L) (T := T) config world
  have hsteps {s₀ : Session L T W} (h₀ : Later (Session.start config world) s₀)
      (h : Later s₀ s) : s₀.tables.Formed ∧ Tracked s₀ ∧ Steps s₀ s := by
    have hf₀ := h₀.formed hf
    have ht₀ := h₀.tracked ht hf ((h.extends hf₀).unwrapped hu)
    exact ⟨hf₀, ht₀, h.steps ht₀ hf₀ hu⟩
  refine ⟨(h.steps ht hf hu).pending_of_began ht hf hu rfl, fun hrest c x hx => ?_,
    fun s₀ c x₀ h₀ h hx₀ hs => ?_, fun s₀ host fuel c name params r h₀ hrun => ?_⟩
  · have hp := hrest.pending ht hf hu c
    refine ⟨(h.tracked ht hf hu).idle c x hx hp, fun s₀ x₀ h₀ h' hx₀ hl => ?_⟩
    obtain ⟨hf₀, ht₀, hsteps⟩ := hsteps h₀ h'
    have hlx : HasLoader c s x := hsteps.induction_scope ht₀ hf₀ hu hx₀
      (P := HasLoader c) (Or.inl hl) (fun _ _ _ _ _ _ hprog => hprog.hasLoader_iff.2) hx
    exact hlx.resolve_right (not_not.2 hp)
  · obtain ⟨hf₀, ht₀, hsteps⟩ := hsteps h₀ h
    exact hsteps.requests_of_loaded ht₀ hf₀ hu hx₀ hs
  · obtain ⟨hf₀, ht₀, hsteps⟩ := hsteps h₀ (later_of_perform hrun)
    have hfind : ((findSimple (host.services fuel) c name params).run s₀).2 = s := by
      rw [← find_simple, ← run_attempt_snd]
      exact congrArg Prod.snd hrun
    have hconfig : s₀.tables.config = config :=
      (h₀.induction_edit (P := fun t => t.config = config) (fun _ h he => he.config_eq.trans h)
        hf rfl).2
    obtain ⟨since, hr, hsince⟩ :=
      (asks_findSimple (obeys_services host fuel) c name params s₀).asked hf₀ ht₀ (hfind ▸ hu)
    rw [hfind] at hr
    refine ⟨since, hr, hconfig ▸ hsince, ?_⟩
    rintro ⟨x, hx, hfound | hloaded⟩
    · obtain ⟨e, hfound⟩ := Option.ne_none_iff_exists'.1 hfound
      rw [run_findSimple hx hfound] at hfind
      subst hfind
      exact List.self_eq_append_right.1 hr
    · rw [(hsteps.requests_of_loaded ht₀ hf₀ hu hx hloaded).2] at hr
      exact List.self_eq_append_right.1 hr

/-- The package that was found wanting has its loader back, which has been asked twice at most. -/
theorem loader_calls_disciplined_settledPackage :
    settledPackage.tables.Unwrapped ∧ AtRest (Session.start {} ()) settledPackage ∧
      (∀ c request before, .loadBegan c request :: before <:+ settledPackage.journal →
        pending c before = none) ∧
      (∃ x, settledPackage.tables.scopes.get? ⟨1, 0⟩ = some x ∧ x.state ≠ .loading ∧
        x.loader ≠ none) ∧
      requests ⟨1, 0⟩ hastyPackage.journal = [] ∧
      (requests ⟨1, 0⟩ settledPackage.journal).Sublist [some (.simple "Later" []), none] := by
  have hu : settledPackage.tables.Unwrapped := by decide +kernel
  have h₀ : Later (Session.start {} ()) hastyPackage := (Later.refl _).perform hastyHost 2 _
  have hdefine : hastyHost.perform 2 (.define rootScope
      { name := "pkg", params := [], kind := .package (some ()), location := .unknown })
      (Session.start {} ()) = (.ok (.ok ⟨1, 0⟩), hastyPackage) := Prod.ext rfl rfl
  have hfind : hastyHost.perform 2 (.find ⟨1, 0⟩ (.simple "Later" [])) hastyPackage =
      (.ok (.ok none), settledPackage) := Prod.ext (by decide +kernel) rfl
  have hrest : AtRest (Session.start {} ()) settledPackage :=
    (AtRest.start.perform hdefine).perform hfind
  have hx₀ : (hastyPackage.tables.scopes.get? ⟨1, 0⟩).any (·.loader.isSome) = true := by
    decide +kernel
  obtain ⟨x₀, hx₀, hl⟩ := (Option.any_eq_true _ _).1 hx₀
  have hx : (settledPackage.tables.scopes.get? ⟨1, 0⟩).isSome = true := by decide +kernel
  obtain ⟨x, hx⟩ := Option.isSome_iff_exists.1 hx
  have hnone : requests ⟨1, 0⟩ hastyPackage.journal = [] := by decide +kernel
  obtain ⟨hbegan, hback, -, hasked⟩ := loader_calls_disciplined hrest.later hu
  obtain ⟨hstate, hloader⟩ := hback hrest _ x hx
  obtain ⟨since, hr, hsince, -⟩ := hasked _ _ _ _ _ _ _ h₀ hfind
  rw [hnone, List.nil_append] at hr
  exact ⟨hu, hrest, hbegan,
    ⟨x, hx, hstate, hloader _ _ h₀ (later_of_perform hfind) hx₀ (Option.isSome_iff_ne_none.1 hl)⟩,
    hnone, hr ▸ hsince⟩

/-- Once handles have come round, a scope that is loaded need not stay so. A package is asked to
load everything, and it answers. In a session on the way there the scope under its handle is
loaded, and in the end the scope under this handle has the loader of the package and is not. -/
theorem loader_returns_elsewhere :
    ∃ s₀ s, Later (Session.start {} ()) s₀ ∧ Later s₀ s ∧
      usurpingHost.perform 2 (.forceLoad ⟨1, 0⟩) besieged = (.ok (.ok ()), s) ∧
      (∃ x₀, s₀.tables.scopes.get? ⟨1, 0⟩ = some x₀ ∧ x₀.state = .loaded) ∧
      ∃ x, s.tables.scopes.get? ⟨1, 0⟩ = some x ∧ x.state = .unloaded ∧ x.loader = some () := by
  obtain ⟨s₀, s, hrun, hseated, h₀, h, hthrone⟩ := exists_seated
  have hloaded : (seated.tables.scopes.get? ⟨1, 0⟩).map (·.state) = some .loaded := by
    decide +kernel
  have hunloaded : (throne.tables.scopes.get? ⟨1, 0⟩).map (fun x => (x.state, x.loader)) =
      some (.unloaded, some ()) := by decide +kernel
  rw [← hseated.tables] at hloaded
  rw [← hthrone.tables] at hunloaded
  obtain ⟨x, hx, hx'⟩ := Option.map_eq_some_iff.1 hunloaded
  obtain ⟨hstate, hl⟩ := Prod.ext_iff.1 hx'
  exact ⟨s₀, s, later_besieged.trans h₀, h, hrun, Option.map_eq_some_iff.1 hloaded,
    x, hx, hstate, hl⟩

end Session

end NameResolution
