import NameResolution.Proofs.Session.Course.Declaring
import NameResolution.Proofs.Session.Declaring
import NameResolution.Proofs.Session.Moves

/-!
# Declaring moves a session

What is declared can be released until it is put into a scope, and declaring is refused or
comes to a value; in tables that match it is never a fault (`declares`). Putting an entity
into a scope is one move, or nothing happens at all (`roams_add`). So a definition that
fails after its entity was made discards what can be released (`roams_define`).

A run from matched tables roams if whatever it does are allowed moves, however it ends
(`Roams`).
-/

namespace NameResolution

namespace Session

variable {L T W α β : Type} {allowed : Operation L T → Prop} {s s' : Session L T W}
  {c : ScopeId} {e : EntityId} {x : Scope L T} {t : Tables L T}

/-! ## Roaming -/

/-- From matched tables, the run makes allowed moves, however it ends. -/
def Roams (allowed : Operation L T → Prop) (act : Run L T W α) : Prop :=
  ∀ s, s.tables.Matched → Moves allowed s (act.run s).2

theorem Roams.bind {act : Run L T W α} {f : α → Run L T W β} (h : Roams allowed act)
    (hf : ∀ a, Roams allowed (f a)) : Roams allowed (act >>= f) := by
  intro s hs
  have hmoves := h s hs
  rw [run_bind]
  generalize act.run s = r at hmoves
  obtain ⟨stop | a, s'⟩ := r
  · exact hmoves
  · exact hmoves.trans (hf a s' (hmoves.matched hs))

theorem Roams.matched {act : Run L T W α} (h : Roams allowed act) (hs : s.tables.Matched)
    {r : Except Stop α} (hrun : act.run s = (r, s')) : s'.tables.Matched := by
  have hmoves := h s hs
  rw [hrun] at hmoves
  exact hmoves.matched hs

theorem Roams.attempt {act : Run L T W α} (h : Roams allowed act) :
    Roams allowed (Session.attempt act) := by
  intro s hs
  rw [run_attempt_snd]
  exact h s hs

theorem roams_pure (a : α) : Roams allowed (pure a : Run L T W α) :=
  fun _ _ => .refl

theorem roams_throw (stop : Stop) : Roams allowed (throw stop : Run L T W α) :=
  fun _ _ => .refl

theorem roams_fail (f : Failure) : Roams allowed (fail f : Run L T W α) :=
  fun _ _ => .refl

theorem roams_get : Roams allowed (get : Run L T W (Session L T W)) :=
  fun _ _ => .refl

theorem roams_getTables : Roams allowed (getTables : Run L T W (Tables L T)) :=
  fun _ _ => .refl

theorem roams_ask (question : Tables L T → Except Stop α) :
    Roams allowed (ask question : Run L T W α) := by
  intro s _
  rw [run_ask]

theorem roams_record {event : Event T} (h : ¬event.IsNotice) :
    Roams allowed (record event : Run L T W Unit) :=
  fun s _ => .single (.event s h)

theorem roams_note (n : Note) : Roams allowed (note n : Run L T W Unit) :=
  roams_record id

theorem roams_modifyScope {f : Scope L T → Scope L T}
    (h : ∀ s : Session L T W, Move allowed s (s.mapScope c f)) :
    Roams allowed (modifyScope c f : Run L T W Unit) := by
  intro s _
  cases hx : s.tables.scopes.get? c with
  | none => rw [run_modifyScope_none hx]
  | some x =>
    rw [run_modifyScope hx]
    exact .single (h s)

/-! ## Recording -/

/-- Recording what is not told to anybody is a sequence of moves. -/
theorem moves_record (events : List (Event T)) (h : ∀ event ∈ events, ¬event.IsNotice)
    (s : Session L T W) : Moves allowed s { s with journal := events ++ s.journal } := by
  induction events with
  | nil => exact .refl
  | cons event events ih =>
    exact (ih fun ev hev => h ev (List.mem_cons_of_mem _ hev)).tail
      (.event _ (h event List.mem_cons_self))

theorem not_isNotice_of_mem_notes {notes : List Note} {event : Event T}
    (h : event ∈ (notes.map .noted).reverse) : ¬event.IsNotice := by
  obtain ⟨n, -, rfl⟩ := List.mem_map.1 (List.mem_reverse.1 h)
  exact id

/-- A granted change of the forest is made of moves. -/
theorem moves_changeForest (allowed : Operation L T → Prop) {change : Forest.Change}
    (h : s.tables.forest.Grants change) : Moves allowed s ((changeForest change).run s).2 := by
  rw [run_changeForest]
  exact (moves_record _ (fun _ => not_isNotice_of_mem_notes) _).head (.relink h)

theorem unheard_changeForest (change : Forest.Change) (s : Session L T W) :
    Unheard s ((changeForest change).run s).2 := by
  rw [run_changeForest]
  exact ⟨_, rfl, fun _ => not_isNotice_of_mem_notes⟩

/-! ## Discarding -/

theorem moves_discard (h : s.tables.isReleasable e = true) :
    Moves allowed s ((discard e).run s).2 :=
  (Relation.ReflTransGen.single (.discard h)).tail (.event _ id)

theorem unheard_discard (e : EntityId) (s : Session L T W) : Unheard s ((discard e).run s).2 :=
  ⟨[.noted (.released e)], rfl, by simp [Event.IsNotice]⟩

theorem roams_release (e : EntityId) : Roams allowed (release e : Run L T W Bool) := by
  intro s _
  unfold release
  rw [run_bind, run_getTables]
  dsimp only
  split_ifs with h
  · exact moves_discard h
  · exact .refl

/-! ## Declaring -/

/-- What declaring comes to in tables that match. -/
inductive Declares (allowed : Operation L T → Prop) (d : Declaration L) (s : Session L T W) :
    Except Stop EntityId × Session L T W → Prop
  | made {e : EntityId} {s' : Session L T W} (hm : Moves allowed s s') (hq : Unheard s s')
    (hd : s'.tables.Declared d.name d.params e) (hr : s'.tables.isReleasable e = true) :
    Declares allowed d s (.ok e, s')
  | refused {f : Failure} {s' : Session L T W} (hm : Moves allowed s s') (hq : Unheard s s') :
    Declares allowed d s (.error (.failure f), s')

/-- An entity that has just been placed can be released. -/
theorem isReleasable_place (hm : t.Matched) (d : Declaration L) :
    (t.place d).2.isReleasable t.entities.next = true := by
  have ht := hm.coherent.formed
  refine Tables.isReleasable_iff.2 ⟨(ht.declared_place d).loose, fun n hn => ?_⟩
  obtain ⟨kind, he, hcases⟩ := Tables.node_place_cases t d
  have hnode : kind.node? = some n := by
    rw [Tables.node?, he, SlotTable.get?_insert ht.entities, if_pos rfl] at hn
    exact hn
  rcases hcases with ⟨hk, -⟩ | ⟨hk, hf⟩
  · rw [hk] at hnode
    cases hnode
  · rw [hk] at hnode
    obtain rfl := Option.some.inj hnode
    have hget : (t.forest.insert t.entities.next).nodes.get? t.forest.nodes.next =
        some { owner := t.entities.next } :=
      (SlotTable.get?_insert hm.linked.nodes _ _).trans (if_pos rfl)
    rw [hf, Forest.isReleasable, SlotTable.contains_of_get? hget, Forest.children, hget]
    rfl

/-- Relinking does not bring subtypes to a type that is neither the old nor the new supertype. -/
theorem isReleasable_relinked (h : t.isReleasable e = true) {id : NodeId} {parent : Option NodeId}
    (hne : ∀ n, t.node? e = some n → t.forest.parent? id ≠ some n ∧ parent ≠ some n)
    (ancestors : Option (List NodeId)) :
    Tables.isReleasable { t with forest := t.forest.relinked id parent ancestors } e = true := by
  obtain ⟨hloose, hnode⟩ := Tables.isReleasable_iff.1 h
  refine Tables.isReleasable_iff.2 ⟨hloose, fun n hn => ?_⟩
  have hrel := hnode n hn
  unfold Forest.isReleasable at hrel ⊢
  rwa [Forest.contains_relinked, Forest.children_relinked (hne n hn).1 (hne n hn).2]

/-- A new type can still be released after it has been linked under a supertype. -/
theorem isReleasable_link (hm : t.Matched) {d : Declaration L} {q : Option EntityId} {p : NodeId}
    (hd : d.kind = .type q) (hp : t.forest.nodes.contains p = true) {change : Forest.Change}
    (h : (t.place d).2.forest.setParent t.forest.nodes.next (some p) = .ok (some change)) :
    Tables.isReleasable { (t.place d).2 with forest := change.forest } t.entities.next =
      true := by
  have hrel := isReleasable_place hm d
  have hn := Tables.node?_of_typeNode (Tables.typeNode_place hm.coherent.formed hd)
  have hparent : (t.place d).2.forest.parent? t.forest.nodes.next = none := by
    rw [Tables.forest_place_of_type hd, Forest.parent?]
    have hget : (t.forest.insert t.entities.next).nodes.get? t.forest.nodes.next =
        some { owner := t.entities.next } :=
      (SlotTable.get?_insert hm.linked.nodes _ _).trans (if_pos rfl)
    rw [hget]
    rfl
  generalize (t.place d).2 = t' at hrel hn hparent h
  obtain ⟨hnone, -⟩ | ⟨p', -, ⟨⟩, -, -, -, -, hr⟩ := Forest.setParent_eq_some h
  · cases hnone
  rw [hr.forest_eq]
  refine isReleasable_relinked hrel (fun n hn' => ?_) _
  obtain rfl := Option.some.inj (hn.symm.trans hn')
  obtain ⟨k, hk⟩ := SlotTable.contains_iff.1 hp
  refine ⟨?_, by simpa using SlotTable.ne_next hm.linked.nodes hk⟩
  rw [hparent]
  exact (Option.some_ne_none _).symm

/-- In tables that match, declaring comes to an entity that can be released, or is refused. -/
theorem declares (allowed : Operation L T → Prop) (d : Declaration L) (hs : s.tables.Matched) :
    Declares allowed d s ((declare d).run s) := by
  have ht := hs.coherent.formed
  have hplace : Moves allowed s (s.placed d) := .single (.place s d)
  have hquiet : Unheard s (s.placed d) := ⟨[], rfl, by simp⟩
  have hdecl := ht.declared_place d
  have hrel := isReleasable_place hs d
  obtain ⟨answer, s', hrun, h⟩ := places_declare ht hs.linked.nodes d
  rw [hrun]
  cases h with
  | notAType hd hp => exact .refused .refl (.refl s)
  | refused hd hp h =>
    exact .refused (hplace.trans (moves_discard hrel)) (hquiet.trans (unheard_discard _ _))
  | stopped hd hp h hstop =>
    obtain ⟨f, rfl⟩ := linking_ne_fault hs hd hp h
    exact (hstop f rfl).elim
  | unlinked hd word => exact .made (hplace.tail (.event _ id)) (hquiet.log id) hdecl hrel
  | @linked p n change hd hp h word =>
    have hmoves := moves_changeForest allowed (s := s.placed d) (.inl ⟨_, some n, h⟩)
    refine .made ((hplace.trans hmoves).tail (.event _ id))
      ((hquiet.trans (unheard_changeForest change _)).log id) ?_ ?_
    · rw [run_changeForest]
      exact hdecl
    · rw [run_changeForest]
      exact isReleasable_link hs hd (hs.contains_node hp) h

/-- What comes after a declaration finds an entity that can be released. -/
theorem roams_declare_bind (d : Declaration L) {f : EntityId → Run L T W β}
    (hf : ∀ e s, s.tables.Matched → s.tables.isReleasable e = true →
      Moves allowed s ((f e).run s).2) : Roams allowed (declare d >>= f) := by
  intro s hs
  have h := declares allowed d hs
  rw [run_bind]
  generalize (declare d).run s = r at h
  cases h with
  | made hm _ _ hr => exact hm.trans (hf _ _ (hm.matched hs) hr)
  | refused hm _ => exact hm

/-- A declaration is made of moves, also where the supertype is refused. -/
theorem roams_declare (d : Declaration L) :
    Roams allowed (declare d : Run L T W EntityId) := by
  intro s hs
  have h := declares allowed d hs
  generalize (declare d).run s = r at h ⊢
  cases h with
  | made hm => exact hm
  | refused hm => exact hm

/-! ## Adding -/

theorem roams_add (c : ScopeId) (e : EntityId) : Roams allowed (add c e : Run L T W Unit) := by
  intro s _
  rcases add_cases c e s with ⟨t, x, h, hx, hrun⟩ | ⟨stop, -, hrun⟩
  · rw [hrun]
    exact .single (.enter h hx)
  · rw [hrun]

/-- An entity that cannot be put into its scope is taken back. -/
theorem moves_undoing_add (allowed : Operation L T → Prop)
    (he : s.tables.isReleasable e = true) (c : ScopeId) :
    Moves allowed s ((undoing (discard e) (add c e)).run s).2 := by
  rw [run_undoing]
  rcases add_cases c e s with ⟨t, x, h, hx, hrun⟩ | ⟨stop, -, hrun⟩
  · rw [hrun]
    exact .single (.enter h hx)
  · rw [hrun]
    cases stop with
    | failure f => exact moves_discard he
    | fault f => exact .refl
    | outOfFuel => exact .refl

/-- A definition is a declaration, an addition, and their undoing. -/
theorem roams_define (c : ScopeId) (d : Declaration L) :
    Roams allowed (define c d : Run L T W EntityId) := by
  refine roams_declare_bind d fun e s hs he => ?_
  have hmoves := moves_undoing_add allowed he c
  rw [run_bind]
  generalize (undoing (discard e) (add c e)).run s = r at hmoves
  obtain ⟨stop | u, s'⟩ := r
  · exact hmoves
  · exact hmoves

/-- A batch is one definition after the other. -/
theorem roams_defineReporting (c : ScopeId) (ds : List (Declaration L)) :
    Roams allowed (defineReporting c ds : Run L T W (List EntityId × Report)) := by
  induction ds with
  | nil => exact roams_pure _
  | cons d ds ih =>
    refine (roams_define c d).attempt.bind fun r => ?_
    cases r with
    | ok e => exact ih.bind fun _ => roams_pure _
    | error f => exact (roams_note _).bind fun _ => ih.bind fun _ => roams_pure _

/-! ## Supertypes -/

/-- Supertypes are changed as the forest grants it. -/
theorem roams_relinking {question : Tables L T → Except Stop (Option Forest.Change)}
    (h : ∀ t change, question t = .ok (some change) → t.forest.Grants change) :
    Roams allowed (do
      match ← ask question with
      | some change =>
        changeForest change
        return true
      | none => return false : Run L T W Bool) := by
  intro s _
  rw [run_bind, run_ask]
  cases hq : question s.tables with
  | error stop => exact .refl
  | ok change =>
    cases change with
    | none => exact .refl
    | some change =>
      have hmoves := moves_changeForest allowed (h _ _ hq)
      rw [run_changeForest] at hmoves
      dsimp only
      rw [run_bind_of_ok (run_changeForest change s)]
      exact hmoves

theorem roams_setSuper (e : EntityId) (parent : Option EntityId) :
    Roams allowed (setSuper e parent : Run L T W Bool) := by
  refine (roams_ask _).bind fun node => ?_
  have hgrant (parent : Option NodeId) (t : Tables L T) (change : Forest.Change)
      (h : t.forest.setParent node parent = .ok (some change)) : t.forest.Grants change :=
    Or.inl ⟨node, parent, h⟩
  have hmap (p : EntityId) :
      Roams allowed (some <$> ask (·.typeNode p) : Run L T W (Option NodeId)) := by
    rw [map_eq_pure_bind]
    exact (roams_ask _).bind fun _ => roams_pure _
  cases parent with
  | some p => exact (hmap p).bind fun parent => roams_relinking (hgrant parent)
  | none => exact (roams_pure none).bind fun parent => roams_relinking (hgrant parent)

theorem roams_clearSuper (e : EntityId) : Roams allowed (clearSuper e : Run L T W Bool) :=
  (roams_ask _).bind fun node => roams_relinking fun _ _ h => Or.inr ⟨node, h⟩

end Session

end NameResolution
