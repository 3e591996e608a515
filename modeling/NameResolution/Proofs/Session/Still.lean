import NameResolution.Proofs.Session.Closure
import NameResolution.Proofs.Session.Patterns

/-!
# Finding without loaders

What is asked of loaders only grows along a run (`Moves.requests_prefix`), so if nothing was asked
by the end of a run, then nothing was asked in any part of it (`Unasked.left`, `Unasked.right`). A
run that calls a loader always asks for something.

All that finding does besides is to make instances of templates. They are new, and what was there
before stays where it is (`Tables.Steady`). This goes through all that finding is made of
(`closed_still`).
-/

namespace NameResolution

namespace Tables

variable {L T : Type} {t t' t'' : Tables L T}

/-- What was live is live, with the same owners. -/
structure Steady (t t' : Tables L T) : Prop where
  entities : ∀ e x, t.entities.get? e = some x → t'.entities.get? e = some x
  scopes : ∀ c s, t.scopes.get? c = some s →
    ∃ s', t'.scopes.get? c = some s' ∧ s'.entity = s.entity

theorem Steady.refl (t : Tables L T) : t.Steady t :=
  ⟨fun _ _ => id, fun _ s hs => ⟨s, hs, rfl⟩⟩

theorem Steady.trans (h : t.Steady t') (h' : t'.Steady t'') : t.Steady t'' := by
  refine ⟨fun e x hx => h'.entities e x (h.entities e x hx), fun c s hs => ?_⟩
  obtain ⟨s', hs', hse⟩ := h.scopes c s hs
  obtain ⟨s'', hs'', hse'⟩ := h'.scopes c s' hs'
  exact ⟨s'', hs'', hse'.trans hse⟩

theorem Agrees.steady (h : t.Agrees t') : t.Steady t' :=
  ⟨fun e _ hx => (h.entities e).trans hx, fun c s hs => ⟨s, (h.scopes c).trans hs, rfl⟩⟩

/-- A change of a scope that leaves its entity alone leaves the owners alone. -/
theorem steady_scope (t : Tables L T) (c : ScopeId) {f : Scope L T → Scope L T}
    (hf : ∀ s, (f s).entity = s.entity) : t.Steady { t with scopes := t.scopes.modify c f } := by
  refine ⟨fun _ _ => id, fun c' s hs => ?_⟩
  rw [SlotTable.get?_modify]
  split_ifs with hc
  · exact ⟨f s, by rw [← hc, hs]; rfl, hf s⟩
  · exact ⟨s, hs, rfl⟩

end Tables

instance {T : Type} : DecidablePred (Event.IsCall (T := T))
  | .loadBegan .. | .loadEnded .. => isTrue trivial
  | .consulted .. | .notified .. | .noted _ | .remarked _ => isFalse id

namespace Session

variable {L T W α β : Type} {allowed : Operation L T → Prop} {s s' s'' : Session L T W}
  {c : ScopeId} {x : Scope L T} {name : String} {params : List Param} {location : Location}
  {ds : List (Declaration L)} {answer : Except Failure (Option EntityId)}
  {services : Services L T W}

/-! ## What is asked of loaders -/

/-- No loader was called, so nothing was asked of any. -/
theorem requests_eq_nil {journal : List (Event T)} (h : ∀ event ∈ journal, ¬event.IsCall) :
    requests c journal = [] := by
  rw [← List.append_nil journal, requests_append h]
  rfl

/-- What has been asked of loaders is not forgotten. -/
theorem Move.requests_prefix (h : Move allowed s s') (c : ScopeId) :
    requests c s.journal <+: requests c s'.journal := by
  cases h with
  | place d => exact List.prefix_rfl
  | relink h => exact List.prefix_rfl
  | discard h => exact List.prefix_rfl
  | @enter c' e t x h hx =>
    have htold : ∀ event ∈ told (T := T) c' e (x.prune s.gone).observers, ¬event.IsCall := by
      simp [told, Event.IsCall]
    have hsame : requests c (s.enter c' e t x).journal = requests c s.journal :=
      requests_append htold
    exact hsame ▸ List.prefix_rfl
  | template c name template => exact List.prefix_rfl
  | watch h => exact List.prefix_rfl
  | unwatch h => exact List.prefix_rfl
  | drop h => exact List.prefix_rfl
  | loading c state loader => exact List.prefix_rfl
  | @event event h =>
    cases event with
    | loadBegan c' request =>
      rw [log, requests]
      split_ifs
      · exact List.prefix_append _ _
      · exact List.prefix_rfl
    | _ => exact List.prefix_rfl
  | world w => exact List.prefix_rfl

theorem Moves.requests_prefix (h : Moves allowed s s') (c : ScopeId) :
    requests c s.journal <+: requests c s'.journal := by
  induction h with
  | refl => exact List.prefix_rfl
  | tail _ hmove ih => exact ih.trans (hmove.requests_prefix c)

/-- Nothing was asked of any loader in between. -/
def Unasked (s s' : Session L T W) : Prop :=
  ∀ c, requests c s'.journal = requests c s.journal

/-- If no loader is asked over the whole of a way, none is asked over its first half. -/
theorem Unasked.left (h : Unasked s s'') (hm : Moves allowed s s') (hm' : Moves allowed s' s'') :
    Unasked s s' := by
  intro c
  have hle := (hm'.requests_prefix c).length_le
  rw [h c] at hle
  exact ((hm.requests_prefix c).eq_of_length_le hle).symm

theorem Unasked.right (h : Unasked s s'') (hm : Moves allowed s s') (hm' : Moves allowed s' s'') :
    Unasked s' s'' :=
  fun c => (h c).trans (h.left hm hm' c).symm

/-! ## Runs that leave everything where it is -/

/-- The run makes moves, and if it asks nothing of any loader, what was there stays as it is. -/
structure Still (act : Run L T W α) : Prop where
  roams : Roams (fun _ => True) act
  steady : ∀ s, s.tables.Arranged → Unasked s (act.run s).2 →
    s.tables.Steady (act.run s).2.tables

theorem Still.bind {act : Run L T W α} {f : α → Run L T W β} (h : Still act)
    (hf : ∀ a, Still (f a)) : Still (act >>= f) := by
  refine ⟨h.roams.bind fun a => (hf a).roams, fun s ha hq => ?_⟩
  have hmoves := h.roams s ha.toMatched
  have hsteady := h.steady s ha
  rw [run_bind] at hq ⊢
  generalize act.run s = r at hmoves hsteady hq
  obtain ⟨stop | a, s₁⟩ := r
  · exact hsteady hq
  · have ha₁ := hmoves.arranged ha
    have hmoves' := (hf a).roams s₁ ha₁.toMatched
    exact (hsteady (hq.left hmoves hmoves')).trans
      ((hf a).steady s₁ ha₁ (hq.right hmoves hmoves'))

/-- A run that leaves the tables as they are is still. -/
theorem still_of_tables {act : Run L T W α} (hr : Roams (fun _ => True) act)
    (h : ∀ s, (act.run s).2.tables = s.tables) : Still act :=
  ⟨hr, fun s _ _ => h s ▸ .refl _⟩

theorem still_pure (a : α) : Still (pure a : Run L T W α) :=
  still_of_tables (roams_pure a) fun _ => rfl

theorem still_throw (stop : Stop) : Still (throw stop : Run L T W α) :=
  still_of_tables (roams_throw stop) fun _ => rfl

theorem still_ask (question : Tables L T → Except Stop α) :
    Still (ask question : Run L T W α) :=
  still_of_tables (roams_ask question) fun s => by rw [run_ask]

theorem still_getTables : Still (getTables : Run L T W (Tables L T)) :=
  still_of_tables roams_getTables fun _ => rfl

theorem still_note (n : Note) : Still (note n : Run L T W Unit) :=
  still_of_tables (roams_note n) fun _ => rfl

theorem still_modifyScope {f : Scope L T → Scope L T}
    (hr : Roams (fun _ => True) (modifyScope c f : Run L T W Unit))
    (hf : ∀ x, (f x).entity = x.entity) : Still (modifyScope c f : Run L T W Unit) := by
  refine ⟨hr, fun s _ _ => ?_⟩
  cases hx : s.tables.scopes.get? c with
  | none => rw [run_modifyScope_none hx]; exact .refl _
  | some x => rw [run_modifyScope hx]; exact Tables.steady_scope _ c hf

/-! ## Loading -/

theorem still_setState (c : ScopeId) (state : LoadState) :
    Still (setState c state : Run L T W Unit) :=
  still_modifyScope (roams_setState c state) fun _ => rfl

theorem still_takeLoader (c : ScopeId) : Still (takeLoader c : Run L T W (Option L)) := by
  refine (still_ask _).bind fun x => ?_
  refine Still.bind (still_modifyScope ?_ fun _ => rfl) fun _ => still_pure _
  exact roams_modifyScope fun s => .loading s c id fun _ => none

/-- A run in which a loader is called asks for something. -/
theorem still_call {act : Run L T W α} (hr : Roams (fun _ => True) act) (c : ScopeId)
    (request : Option NamePart) : Still (record (.loadBegan c request) >>= fun _ => act) := by
  refine ⟨(roams_record id).bind fun _ => hr, fun s ha hq => ?_⟩
  rw [run_bind_of_ok (run_record _ s)] at hq
  have hmoves := hr (s.log (.loadBegan c request)) ha.toMatched
  have hle := (hmoves.requests_prefix c).length_le
  rw [hq c, log, requests, if_pos rfl, List.length_append, List.length_singleton] at hle
  exact absurd hle (Nat.not_succ_le_self _)

/-- A call of a loader is still whatever follows it, as the request is in the journal from then
on. -/
theorem still_callLoader_bind (hs : Roaming (fun _ => True) services) (c : ScopeId) (loader : L)
    (request : Option NamePart) {f : LoadReply L → Run L T W β}
    (hf : ∀ reply, Roams (fun _ => True) (f reply)) :
    Still (callLoader services c loader request >>= f) := by
  unfold callLoader
  rw [bind_assoc]
  refine still_call (Roams.bind ?_ hf) c request
  refine (hs loader c request).bind fun answer => (roams_record id).bind fun _ => ?_
  exact (roams_modifyScope fun s => .loading s c id fun _ => some answer.2).bind fun _ =>
    roams_pure _

theorem still_loadPart (hs : Roaming (fun _ => True) services) (c : ScopeId) (part : NamePart) :
    Still (loadPart services c part) := by
  refine still_getTables.bind fun t => ?_
  split_ifs
  · refine (still_takeLoader c).bind fun loader => ?_
    cases loader with
    | none => exact still_pure _
    | some loader =>
      refine (still_note _).bind fun _ => still_callLoader_bind hs c loader _ fun reply => ?_
      cases reply with
      | done => exact roams_pure _
      | notReady => exact roams_pure _
      | batch ds => exact roams_defineAll c ds
  · exact still_pure _

theorem still_forceLoad (hs : Roaming (fun _ => True) services) (c : ScopeId) :
    Still (forceLoad services c) := by
  refine (still_ask _).bind fun x => ?_
  extract_lets path
  have hpath : Still path := still_getTables.bind fun _ => still_pure _
  split
  · exact still_pure _
  · exact hpath.bind fun _ => still_note _
  · refine (still_takeLoader c).bind fun loader => ?_
    cases loader with
    | none => exact still_setState c _
    | some loader =>
      refine hpath.bind fun _ => (still_note _).bind fun _ => (still_setState c _).bind fun _ => ?_
      refine still_callLoader_bind hs c loader none fun reply => ?_
      cases reply with
      | done =>
        exact (roams_setState c _).bind fun _ => hpath.roams.bind fun _ => roams_note _
      | notReady =>
        exact (roams_setState c _).bind fun _ => hpath.roams.bind fun _ => roams_note _
      | batch ds => exact (roams_setState c _).bind fun _ => roams_defineAll c ds

/-! ## Finding -/

/-- An instance of a template is new. -/
theorem Instantiates.steady (h : Instantiates c x name params location s ds answer s')
    (hx : s.tables.scopes.get? c = some x) : s.tables.Steady s'.tables := by
  cases h with
  | missed h => exact h.tables.steady
  | ambiguous hds h => exact h.tables.steady
  | refused hf h => exact h.tables.steady
  | loose hf hmemo h hq =>
    refine ⟨fun e y hy => h.tables.get?_entities_of_some hy, fun c' y hy => ?_⟩
    exact ⟨y, h.tables.get?_scopes_of_some nofun hy, rfl⟩
  | kept hf hmemo h hscope =>
    refine ⟨fun e y hy => h.tables.get?_entities_of_some hy, fun c' y hy => ?_⟩
    by_cases hc : c = c'
    · subst hc
      obtain rfl := Option.some.inj (hx.symm.trans hy)
      exact ⟨_, hscope, rfl⟩
    · have hne : some c ≠ some c' := fun heq => hc (Option.some.inj heq)
      exact ⟨y, h.tables.get?_scopes_of_some hne hy, rfl⟩

/-- An instance is new, so that no owner changes with it. -/
theorem still_resolveOverload (services : Services L T W) (c : ScopeId) (name : String)
    (params : List Param) (location : Location) :
    Still (resolveOverload services c name params location) := by
  refine ⟨roams_resolveOverload services c name params location, fun s ha _ => ?_⟩
  obtain hsame | ⟨x, answer, hx, hmade⟩ :=
    resolveOverload_cases ha services c name params location
  · rw [hsame]
    exact .refl _
  · exact hmade.steady hx

theorem composes_still : Composes (L := L) (T := T) (W := W) Still where
  pure := still_pure
  bind := Still.bind
  outOfFuel := still_throw _
  getTables := still_getTables
  scope _ := still_ask _
  entity _ := still_ask _

/-- Being still is closed under all that operations are made of. -/
theorem closed_still (hs : Roaming (fun _ => True) services) : Closed services Still where
  toComposes := composes_still
  findSimple c name params :=
    composes_still.findSimple (still_resolveOverload services c name params _)
      (still_loadPart hs c) (still_forceLoad hs c)
  fail _ := still_throw _
  resolveOverload := still_resolveOverload services

end Session

end NameResolution
