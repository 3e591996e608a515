import NameResolution.Proofs.Session.Adding
import NameResolution.Proofs.Session.Course
import NameResolution.Proofs.Tables.Matching

/-!
# The moves of a session

A move is the least that a run does to a session without leaving the tables unmatched
(`Move`). Moves are finer than changes in what they allow : only an entity that can be
released is discarded, a forest is only relinked as it grants it, and an entity enters a
scope together with the news of it. Watching, unwatching and letting observers go are moves
only if the operation is allowed, so that a history can be without them.

Tables that match stay matched (`Moves.matched`), supported forests stay supported
(`Moves.supported`), and flattened forests stay flattened as long as no node has been released too
often (`Moves.flattened`).

What a session can become by allowed operations is `Reaches` : hosts perform them, loaders
perform none but these, and a moment inside an operation is reached by single moves.
-/

namespace NameResolution

variable {L T W α β : Type}

/-! ## Allowed operations -/

/-- An observer is told. -/
def Event.IsNotice : Event T → Prop
  | .notified .. => True
  | _ => False

/-- The script performs allowed operations only. -/
def Script.Within (allowed : Operation L T → Prop) : Script L T W α → Prop
  | .done _ => True
  | .fault _ => True
  | .call op next => allowed op ∧ ∀ answer, (next answer).Within allowed
  | .inspect next => ∀ t, (next t).Within allowed
  | .readWorld next => ∀ w, (next w).Within allowed
  | .writeWorld _ next => next.Within allowed
  | .remark _ next => next.Within allowed

/-- Loaders perform allowed operations only. -/
def Host.Within (allowed : Operation L T → Prop) (host : Host L T W) : Prop :=
  ∀ loader c request, (host.load loader c request).Within allowed

/-- A script of allowed operations stays within them. -/
theorem Script.within_of_forall {allowed : Operation L T → Prop} (h : ∀ op, allowed op)
    (script : Script L T W α) : script.Within allowed := by
  induction script with
  | done a => trivial
  | fault f => trivial
  | call op next ih => exact ⟨h op, ih⟩
  | inspect next ih => exact ih
  | readWorld next ih => exact ih
  | writeWorld w next ih => exact ih
  | remark text next ih => exact ih

/-- If everything is allowed, every host keeps within it. -/
theorem Host.within_of_forall {allowed : Operation L T → Prop} (h : ∀ op, allowed op)
    (host : Host L T W) : host.Within allowed :=
  fun _ _ _ => Script.within_of_forall h _

/-- A session after a host has performed operations, one after the other, however they ended. -/
def Host.after (host : Host L T W) (fuel : Nat) (ops : List (Operation L T))
    (s : Session L T W) : Session L T W :=
  ops.foldl (fun s op => (host.perform fuel op s).2) s

namespace Session

/-! ## Moves -/

/-- One move of a session. -/
inductive Move (allowed : Operation L T → Prop) : Session L T W → Session L T W → Prop
  | place (s : Session L T W) (d : Declaration L) :
    Move allowed s { s with tables := (s.tables.place d).2 }
  | relink {s : Session L T W} {change : Forest.Change} (h : s.tables.forest.Grants change) :
    Move allowed s { s with tables := { s.tables with forest := change.forest } }
  | discard {s : Session L T W} {e : EntityId} (h : s.tables.isReleasable e = true) :
    Move allowed s { s with tables := s.tables.discard e }
  | enter {s : Session L T W} {c : ScopeId} {e : EntityId} {t : Tables L T} {x : Scope L T}
    (h : s.tables.attach c e = .ok t) (hx : s.tables.scopes.get? c = some x) :
    Move allowed s (s.enter c e t x)
  | template (s : Session L T W) (c : ScopeId) (name : String) (template : T) :
    Move allowed s (s.mapScope c (·.addTemplate name template))
  | watch (s : Session L T W) {c : ScopeId} {o : ObserverId} (h : allowed (.watch c o)) :
    Move allowed s (s.mapScope c (·.watch o))
  | unwatch (s : Session L T W) {c : ScopeId} {o : ObserverId} (h : allowed (.unwatch c o)) :
    Move allowed s (s.mapScope c (·.unwatch o))
  | drop (s : Session L T W) {o : ObserverId} (h : allowed (.drop o)) :
    Move allowed s { s with gone := o :: s.gone }
  | loading (s : Session L T W) (c : ScopeId) (state : LoadState → LoadState)
    (loader : Option L → Option L) :
    Move allowed s
      (s.mapScope c fun x => { x with state := state x.state, loader := loader x.loader })
  | event (s : Session L T W) {event : Event T} (h : ¬event.IsNotice) :
    Move allowed s (s.log event)
  | world (s : Session L T W) (w : W) : Move allowed s { s with world := w }

/-- Moves one after the other. -/
abbrev Moves (allowed : Operation L T → Prop) : Session L T W → Session L T W → Prop :=
  Relation.ReflTransGen (Move allowed)

variable {allowed : Operation L T → Prop} {s s' s'' : Session L T W} {c : ScopeId}
  {e : EntityId}

/-- A change of a forest that is granted relinks a live node. -/
theorem relinks_of_grants {f : Forest} {change : Forest.Change} (h : f.Grants change) :
    ∃ id parent ancestors, f.Relinks id parent ancestors change.forest := by
  rcases h with ⟨id, parent, h⟩ | ⟨id, h⟩
  · obtain ⟨-, hr⟩ | ⟨p, -, -, -, -, -, -, hr⟩ := Forest.setParent_eq_some h
    · exact ⟨id, none, _, hr⟩
    · exact ⟨id, some p, _, hr⟩
  · exact ⟨id, none, none, Forest.clearParent_eq_some h⟩

theorem alike_prune (gone : List ObserverId) (x : Scope L T) : x.Alike (x.prune gone) :=
  Scope.Alike.of_names rfl rfl

/-! ## What every move keeps -/

theorem Move.edits (h : Move allowed s s') :
    ∃ t, Tables.Edit s.tables t ∧ Tables.Edit t s'.tables := by
  have hone {u : Tables L T} (h : Tables.Edit s.tables u) :
      ∃ t, Tables.Edit s.tables t ∧ Tables.Edit t u := ⟨u, h, .refl u⟩
  cases h with
  | place d => exact hone (.place _ d)
  | relink h => exact hone (.forest _ _)
  | discard h => exact hone (.discard (Tables.loose_of_isReleasable h))
  | @enter c e t x h hx => exact ⟨t, .attach h, .scope t c _ (alike_prune _)⟩
  | template c name template =>
    exact hone (.scope _ c _ fun x => Scope.alike_addTemplate x name template)
  | watch h => exact hone (.scope _ _ _ fun x => Scope.Alike.of_names rfl rfl)
  | unwatch h => exact hone (.scope _ _ _ fun x => Scope.Alike.of_names rfl rfl)
  | drop h => exact hone (.refl _)
  | loading c state loader => exact hone (.scope _ c _ fun x => Scope.Alike.of_names rfl rfl)
  | event h => exact hone (.refl _)
  | world w => exact hone (.refl _)

theorem Move.matched (h : Move allowed s s') (hm : s.tables.Matched) : s'.tables.Matched := by
  cases h with
  | place d => exact hm.place d
  | relink h =>
    obtain ⟨id, parent, ancestors, hr⟩ := relinks_of_grants h
    exact hr.forest_eq ▸ hm.relinked id parent ancestors
  | discard h => exact hm.discard h
  | enter h hx => exact (hm.attach h).scope _ (alike_prune _)
  | template c name template => exact hm.scope c fun x => Scope.alike_addTemplate x name template
  | watch h => exact hm.scope _ fun x => Scope.Alike.of_names rfl rfl
  | unwatch h => exact hm.scope _ fun x => Scope.Alike.of_names rfl rfl
  | drop h => exact hm
  | loading c state loader => exact hm.scope c fun x => Scope.Alike.of_names rfl rfl
  | event h => exact hm
  | world w => exact hm

/-- Tables that match stay matched. -/
theorem Moves.matched (h : Moves allowed s s') (hm : s.tables.Matched) : s'.tables.Matched := by
  induction h with
  | refl => exact hm
  | tail _ hmove ih => exact hmove.matched ih

/-- A property that every edit of matched tables keeps is kept by every move. -/
theorem Moves.induction_edit {P : Tables L T → Prop}
    (hP : ∀ {t t'}, t.Coherent → P t → Tables.Edit t t' → P t') (h : Moves allowed s s')
    (hm : s.tables.Matched) (hs : P s.tables) : P s'.tables := by
  induction h with
  | refl => exact hs
  | tail h hmove ih =>
    have hco := (Moves.matched h hm).coherent
    obtain ⟨t, h₁, h₂⟩ := hmove.edits
    exact hP (hco.edit h₁) (hP hco ih h₁) h₂

/-- Moves give up no handle that they have handed out. -/
theorem Moves.extends (h : Moves allowed s s') (hm : s.tables.Matched) :
    s.tables.Extends s'.tables :=
  h.induction_edit (P := fun t => s.tables.Extends t)
    (fun ht he hedit => he.trans (ht.formed.extends_edit hedit)) hm (.refl _)

/-- The forest does what it is asked, or is left alone. -/
theorem Move.forest_cases (h : Move allowed s s') :
    s'.tables.forest = s.tables.forest ∨
      ∃ request, s'.tables.forest = s.tables.forest.serve request := by
  cases h with
  | place d =>
    rcases Tables.node_place_cases s.tables d with ⟨kind, -, ⟨-, hf⟩ | ⟨-, hf⟩⟩
    · exact Or.inl hf
    · exact Or.inr ⟨.create s.tables.entities.next, hf⟩
  | relink h =>
    rcases h with ⟨id, parent, h⟩ | ⟨id, h⟩
    · exact Or.inr ⟨.setParent id parent, by simp only [Forest.serve, h]⟩
    · exact Or.inr ⟨.clearParent id, by simp only [Forest.serve, h]⟩
  | discard h =>
    obtain ⟨-, x, hx, -⟩ := Tables.loose_of_isReleasable h
    rcases Tables.node_discard_cases hx with ⟨-, hf⟩ | ⟨n, -, hf⟩
    · exact Or.inl hf
    · exact Or.inr ⟨.release n, hf⟩
  | @enter c e t x h hx =>
    have hforest : t.forest = s.tables.forest := Tables.forest_attach h
    exact Or.inl hforest
  | template c name template => exact Or.inl rfl
  | watch h => exact Or.inl rfl
  | unwatch h => exact Or.inl rfl
  | drop h => exact Or.inl rfl
  | loading c state loader => exact Or.inl rfl
  | event h => exact Or.inl rfl
  | world w => exact Or.inl rfl

/-- The slots of a forest are emptied and filled, and none is lost. -/
theorem Moves.extends_nodes (h : Moves allowed s s') (hs : s.tables.forest.nodes.WellFormed) :
    s'.tables.forest.nodes.WellFormed ∧
      s.tables.forest.nodes.Extends s'.tables.forest.nodes := by
  induction h with
  | refl => exact ⟨hs, .refl _⟩
  | tail _ hmove ih =>
    rcases hmove.forest_cases with hf | ⟨request, hf⟩
    · exact hf ▸ ih
    · obtain ⟨hw, hext⟩ := Forest.wellFormed_serve ih.1 request
      exact hf ▸ ⟨hw, ih.2.trans hext⟩

/-- A supported forest stays supported. -/
theorem Moves.supported (h : Moves allowed s s') (hs : s.tables.forest.Supported) :
    s'.tables.forest.Supported := by
  induction h with
  | refl => exact hs
  | tail _ hmove ih =>
    rcases hmove.forest_cases with hf | ⟨request, hf⟩
    · exact hf ▸ ih
    · exact hf ▸ ih.serve request

/-- A flattened forest stays flattened, as long as no node has been released too often. -/
theorem Moves.flattened (h : Moves allowed s s') (hs : s.tables.forest.Flattened)
    (hu : s'.tables.forest.nodes.Unwrapped) : s'.tables.forest.Flattened := by
  induction h with
  | refl => exact hs
  | tail h hmove ih =>
    rcases hmove.forest_cases with hf | ⟨request, hf⟩
    · rw [hf] at hu ⊢
      exact ih hu
    · rw [hf] at hu ⊢
      have hw := (Moves.extends_nodes h hs.wellFormed).1
      have hu' := (Forest.wellFormed_serve hw request).2.unwrapped hu
      exact (ih hu').serve hu' request

/-! ## Stretches of which nobody hears -/

/-- Nobody was told anything in between. -/
def Unheard (s s' : Session L T W) : Prop :=
  ∃ events, s'.journal = events ++ s.journal ∧ ∀ event ∈ events, ¬event.IsNotice

theorem Unheard.refl (s : Session L T W) : Unheard s s :=
  ⟨[], rfl, by simp⟩

theorem Unheard.trans (h : Unheard s s') (h' : Unheard s' s'') : Unheard s s'' := by
  obtain ⟨events, hj, hevents⟩ := h
  obtain ⟨events', hj', hevents'⟩ := h'
  refine ⟨events' ++ events, by rw [hj', hj, List.append_assoc], fun event hmem => ?_⟩
  rcases List.mem_append.1 hmem with hmem | hmem
  · exact hevents' event hmem
  · exact hevents event hmem

theorem Unheard.log (h : Unheard s s') {event : Event T} (he : ¬event.IsNotice) :
    Unheard s (s'.log event) :=
  h.trans ⟨[event], rfl, by simpa using he⟩

/-! ## Histories -/

/-- What a session can become by allowed operations. -/
inductive Reaches (allowed : Operation L T → Prop) : Session L T W → Session L T W → Prop
  | refl (s : Session L T W) : Reaches allowed s s
  | perform {s s' : Session L T W} (h : Reaches allowed s s') {host : Host L T W}
    (hhost : host.Within allowed) (fuel : Nat) {op : Operation L T} (hop : allowed op) :
    Reaches allowed s (host.perform fuel op s').2
  | move {s s' s'' : Session L T W} (h : Reaches allowed s s') (hmove : Move allowed s' s'') :
    Reaches allowed s s''

theorem Reaches.trans (h : Reaches allowed s s') (h' : Reaches allowed s' s'') :
    Reaches allowed s s'' := by
  induction h' with
  | refl => exact h
  | perform _ hhost fuel hop ih => exact ih.perform hhost fuel hop
  | move _ hmove ih => exact ih.move hmove

/-- What a host within the allowed operations does is within reach. -/
theorem Reaches.after (h : Reaches allowed s s') {host : Host L T W}
    (hhost : host.Within allowed) (fuel : Nat) {ops : List (Operation L T)}
    (hops : ∀ op ∈ ops, allowed op) : Reaches allowed s (host.after fuel ops s') := by
  induction ops generalizing s' with
  | nil => exact h
  | cons op ops ih =>
    exact ih (h.perform hhost fuel (hops op List.mem_cons_self)) fun op' hop' =>
      hops op' (List.mem_cons_of_mem _ hop')

end Session

end NameResolution
